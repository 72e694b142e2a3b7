import StackCircuit.Circuit.Digest
import StackCircuit.Proofs.Machine.Flat
import StackCircuit.Proofs.Machine.Relate
import StackCircuit.Proofs.Machine.Start

/-!
# With and without a witness

A machine that builds the shape of a circuit does not know its parameters. As long as it never
branches on a condition that depends on them, it is in lockstep with a machine that computes a
witness: the witness knows more values, and nothing else is different.

* `Value.Reveals`: a value and the same value in a witness; `System.Reveals`, `Store.Reveals`: the
  same for records and stores.
* `Lockstep x x'`: two computations that keep this, and end in the same way.
* `State.Reveals`: two machines in lockstep, of which neither executes arms.
* **`witness_of_shape`**: if the shape of a circuit is built without an unknown condition, then every
  witness succeeds, with the same circuit and results.
-/

namespace StackCircuit

open Circuit (Wire Combination Constraint WireEntry System Recorder)

variable {p : ℕ}

/-! ## Values and records -/

/-- **The same value in a witness**, where more may be known. -/
inductive Value.Reveals : Value p → Value p → Prop
  | invalid : Reveals .invalid .invalid
  | constant (x : Scalar p) (type : ValueType) (wire : Option Wire) :
    Reveals (.constant x type wire) (.constant x type wire)
  | wired (wire : Wire) (type : ValueType) {x x' : Option (Scalar p)}
      (h : ∀ y, x = some y → x' = some y) : Reveals (.wired wire x type) (.wired wire x' type)

/-- The same wire in a witness. -/
def Circuit.WireEntry.Reveals (e e' : WireEntry p) : Prop :=
  e.label = e'.label ∧ ∀ x, e.value = some x → e'.value = some x

namespace Value.Reveals

variable {v v' a a' b b' : Value p}

theorem value? (h : v.Reveals v') {x : Scalar p} (hv : v.value? = some x) : v'.value? = some x := by
  cases h with
  | invalid => exact hv
  | constant => exact hv
  | wired _ _ h => exact h x hv

theorem combination? [Modulus p] (h : v.Reveals v') : v'.combination? = v.combination? := by
  cases h <;> rfl

theorem type? (h : v.Reveals v') : v'.type? = v.type? := by
  cases h <;> rfl

theorem wire? (h : v.Reveals v') : v'.wire? = v.wire? := by
  cases h <;> rfl

variable [Modulus p]

theorem result? (ha : a.Reveals a') (hb : b.Reveals b') (g : Gate) (y : Scalar p)
    (h : g.result? a b = some y) : g.result? a' b' = some y := by
  cases hx : a.value? with
  | none => simp [Gate.result?, hx] at h
  | some x =>
    cases hy : b.value? with
    | none => simp [Gate.result?, hx, hy] at h
    | some z =>
      simp only [Gate.result?, hx, hy] at h
      simp only [Gate.result?, ha.value? hx, hb.value? hy, h]

omit [Modulus p] in
theorem resultType (ha : a.Reveals a') (g : Gate) : g.resultType a' = g.resultType a := by
  cases g <;> simp only [Gate.resultType, ha.type?]

end Value.Reveals

/-- Arrays whose entries are related one by one. -/
def Slotwise {α β : Type} (R : α → β → Prop) (a : Array α) (b : Array β) : Prop :=
  ∀ j : ℕ, Option.Rel R a[j]? b[j]?

namespace Slotwise

variable {α β : Type} {R : α → β → Prop} {a : Array α} {b : Array β}

theorem cases (h : Slotwise R a b) (j : ℕ) :
    (a[j]? = none ∧ b[j]? = none) ∨ ∃ x y, a[j]? = some x ∧ b[j]? = some y ∧ R x y := by
  have hj := h j
  revert hj
  generalize a[j]? = x
  generalize b[j]? = y
  intro hj
  cases hj with
  | none => exact .inl ⟨rfl, rfl⟩
  | some hxy => exact .inr ⟨_, _, rfl, rfl, hxy⟩

theorem refl {R : α → α → Prop} (h : ∀ x, R x x) (a : Array α) : Slotwise R a a := by
  intro j
  cases a[j]? with
  | none => exact .none
  | some x => exact .some (h x)

theorem size_eq (h : Slotwise R a b) : a.size = b.size := by
  rcases Nat.lt_trichotomy a.size b.size with hlt | heq | hgt
  · rcases h.cases a.size with ⟨-, hb⟩ | ⟨x, y, ha, -⟩
    · exact absurd (Array.getElem?_eq_none_iff.mp hb) (by omega)
    · exact absurd (Array.getElem?_eq_some_iff.mp ha).1 (by omega)
  · exact heq
  · rcases h.cases b.size with ⟨ha, -⟩ | ⟨x, y, -, hb, -⟩
    · exact absurd (Array.getElem?_eq_none_iff.mp ha) (by omega)
    · exact absurd (Array.getElem?_eq_some_iff.mp hb).1 (by omega)

theorem push (h : Slotwise R a b) {x : α} {y : β} (hxy : R x y) :
    Slotwise R (a.push x) (b.push y) := by
  intro j
  rw [Array.getElem?_push, Array.getElem?_push, h.size_eq]
  by_cases hj : j = b.size
  · rw [if_pos hj, if_pos hj]
    exact .some hxy
  · rw [if_neg hj, if_neg hj]
    exact h j

theorem set (h : Slotwise R a b) (i : ℕ) {x : α} {y : β} (hxy : R x y) :
    Slotwise R (a.setIfInBounds i x) (b.setIfInBounds i y) := by
  intro j
  rw [Array.getElem?_setIfInBounds, Array.getElem?_setIfInBounds, h.size_eq]
  by_cases hi : i = j
  · rw [if_pos hi, if_pos hi]
    by_cases hlt : i < b.size
    · rw [if_pos hlt, if_pos hlt]
      exact .some hxy
    · rw [if_neg hlt, if_neg hlt]
      exact .none
  · rw [if_neg hi, if_neg hi]
    exact h j

theorem modify (h : Slotwise R a b) (i : ℕ) {f : α → α} {g : β → β}
    (hfg : ∀ x y, R x y → R (f x) (g y)) : Slotwise R (a.modify i f) (b.modify i g) := by
  intro j
  rw [Array.getElem?_modify, Array.getElem?_modify]
  by_cases hi : i = j
  · rw [if_pos hi, if_pos hi]
    rcases h.cases j with ⟨ha, hb⟩ | ⟨x, y, ha, hb, hxy⟩
    · rw [ha, hb]
      exact .none
    · rw [ha, hb]
      exact .some (hfg x y hxy)
  · rw [if_neg hi, if_neg hi]
    exact h j

theorem replicate (n : ℕ) {x : α} {y : β} (hxy : R x y) :
    Slotwise R (Array.replicate n x) (Array.replicate n y) := by
  intro j
  rw [Array.getElem?_replicate, Array.getElem?_replicate]
  by_cases hj : j < n
  · rw [if_pos hj, if_pos hj]
    exact .some hxy
  · rw [if_neg hj, if_neg hj]
    exact .none

end Slotwise

/-- **The same record in a witness.** -/
structure Circuit.System.Reveals (sys sys' : System p) : Prop where
  wires : Slotwise WireEntry.Reveals sys.wires sys'.wires
  constraints : sys'.constraints = sys.constraints

namespace Circuit.System.Reveals

variable {sys sys' : System p}

theorem refl (sys : System p) : sys.Reveals sys :=
  ⟨.refl (fun _ => ⟨rfl, fun _ => id⟩) sys.wires, rfl⟩

theorem value? (h : sys.Reveals sys') {w : Wire} {x : Scalar p} (hx : sys.value? w = some x) :
    sys'.value? w = some x := by
  unfold System.value? at hx ⊢
  rcases h.wires.cases w.toNat with ⟨hw, -⟩ | ⟨e, e', hw, hw', -, he⟩
  · rw [hw] at hx
    cases hx
  · rw [hw] at hx
    rw [hw']
    exact he x hx

theorem addWire (h : sys.Reveals sys') (label : String) {x x' : Option (Scalar p)}
    (hx : ∀ y, x = some y → x' = some y) : (sys.addWire label x).Reveals (sys'.addWire label x') :=
  ⟨h.wires.push ⟨rfl, hx⟩, h.constraints⟩

theorem unknownWire? (h : sys.Reveals sys') (k : Constraint p) :
    sys'.unknownWire? k = sys.unknownWire? k := by
  unfold System.unknownWire? System.hasWire
  rw [h.wires.size_eq]

theorem labels (h : sys.Reveals sys') :
    sys'.wires.map WireEntry.label = sys.wires.map WireEntry.label := by
  refine Array.ext_getElem? fun j => ?_
  rw [Array.getElem?_map, Array.getElem?_map]
  rcases h.wires.cases j with ⟨hj, hj'⟩ | ⟨e, e', hj, hj', hlabel, -⟩
  · rw [hj, hj']
  · rw [hj, hj', Option.map_some, Option.map_some, hlabel]

theorem digest [Modulus p] (h : sys.Reveals sys') : sys'.digest = sys.digest := by
  unfold System.digest System.stream
  rw [h.constraints, h.wires.size_eq]

end Circuit.System.Reveals

namespace Machine

open Bytecode (Function Instruction)

/-! ## Locals and stores -/

/-- The same locals in a witness. -/
structure LocalsTable.Reveals (t t' : LocalsTable p) : Prop where
  entries : Slotwise (Option.Rel (Slotwise Value.Reveals)) t.entries t'.entries
  free : t'.free = t.free

namespace LocalsTable.Reveals

variable {t t' : LocalsTable p}

theorem alloc (h : t.Reveals t') (n : ℕ) :
    (t'.alloc n).1 = (t.alloc n).1 ∧ (t.alloc n).2.Reveals (t'.alloc n).2 := by
  have hnew : Option.Rel (Slotwise Value.Reveals) (some (Array.replicate n (.invalid : Value p)))
      (some (Array.replicate n .invalid)) := .some (.replicate n .invalid)
  unfold LocalsTable.alloc
  rw [h.free]
  cases t.free with
  | nil => exact ⟨h.entries.size_eq.symm, h.entries.push hnew, rfl⟩
  | cons id rest => exact ⟨rfl, h.entries.set id hnew, rfl⟩

theorem knows (h : t.Reveals t') (id : ℕ) : t'.knows id = t.knows id := by
  unfold LocalsTable.knows
  rw [h.entries.size_eq]

theorem write (h : t.Reveals t') (id j : ℕ) {v v' : Value p} (hv : v.Reveals v') :
    (t.write id j v).Reveals (t'.write id j v') := by
  refine ⟨h.entries.modify id fun slots slots' hslots => ?_, h.free⟩
  cases hslots with
  | none => exact .none
  | some hslots => exact .some (hslots.set j hv)

theorem release (h : t.Reveals t') (id : ℕ) :
    (∃ r r', t.release id = .ok r ∧ t'.release id = .ok r' ∧ r.Reveals r') ∨
      ∃ e e', t.release id = .error e ∧ t'.release id = .error e' := by
  unfold LocalsTable.release
  rw [h.knows]
  by_cases hk : t.knows id = true
  · rw [if_pos hk, if_pos hk]
    exact .inl ⟨_, _, rfl, rfl, h.entries.set id .none, congrArg (id :: ·) h.free⟩
  · rw [if_neg hk, if_neg hk]
    exact .inr ⟨_, _, rfl, rfl⟩

theorem slots (h : t.Reveals t') (id : ℕ) :
    (∃ r r', t.slots id = .ok r ∧ t'.slots id = .ok r' ∧ Slotwise Value.Reveals r r') ∨
      ∃ e e', t.slots id = .error e ∧ t'.slots id = .error e' := by
  unfold LocalsTable.slots
  rcases h.entries.cases id with ⟨hid, hid'⟩ | ⟨r, r', hid, hid', hr⟩
  · rw [hid, hid']
    exact .inr ⟨_, _, rfl, rfl⟩
  · rw [hid, hid']
    cases hr with
    | none => exact .inr ⟨_, _, rfl, rfl⟩
    | some hr => exact .inl ⟨_, _, rfl, rfl, hr⟩

theorem read (h : t.Reveals t') (status : Status) (id j : ℕ) :
    (∃ v v', t.read status id j = .ok v ∧ t'.read status id j = .ok v' ∧ v.Reveals v') ∨
      ∃ e e', t.read status id j = .error e ∧ t'.read status id j = .error e' := by
  unfold LocalsTable.read
  rcases h.slots id with ⟨r, r', hr, hr', hslots⟩ | ⟨e, e', hr, hr'⟩
  · rw [hr, hr']
    dsimp only
    rcases hslots.cases j with ⟨hj, hj'⟩ | ⟨v, v', hj, hj', hv⟩
    · rw [hj, hj']
      exact .inr ⟨_, _, rfl, rfl⟩
    · rw [hj, hj']
      cases hv with
      | invalid => exact .inr ⟨_, _, rfl, rfl⟩
      | constant x type wire => exact .inl ⟨_, _, rfl, rfl, .constant x type wire⟩
      | wired wire type h => exact .inl ⟨_, _, rfl, rfl, .wired wire type h⟩
  · rw [hr, hr']
    exact .inr ⟨_, _, rfl, rfl⟩

theorem store (h : t.Reveals t') (id j : ℕ) {v v' : Value p} (hv : v.Reveals v') :
    (∃ r r', t.store id j v = .ok r ∧ t'.store id j v' = .ok r' ∧ r.Reveals r') ∨
      ∃ e e', t.store id j v = .error e ∧ t'.store id j v' = .error e' := by
  unfold LocalsTable.store
  rcases h.slots id with ⟨r, r', hr, hr', hslots⟩ | ⟨e, e', hr, hr'⟩
  · rw [hr, hr']
    dsimp only
    rw [← hslots.size_eq]
    by_cases hj : j < r.size
    · rw [if_pos hj, if_pos hj]
      exact .inl ⟨_, _, rfl, rfl, h.write id j hv⟩
    · rw [if_neg hj, if_neg hj]
      exact .inr ⟨_, _, rfl, rfl⟩
  · rw [hr, hr']
    exact .inr ⟨_, _, rfl, rfl⟩

end LocalsTable.Reveals

/-- **The same store in a witness**, guards and journal apart. -/
structure Store.Reveals (s s' : Store (System p) p) : Prop where
  recorder : s.ledger.recorder.Reveals s'.ledger.recorder
  stack : List.Forall₂ Value.Reveals s.stack.items s'.stack.items
  room : s'.stack.room = s.stack.room
  locals : s.locals.Reveals s'.locals
  steps : s'.steps = s.steps

/-- **Two computations in lockstep**: from stores of which one reveals the other both succeed, and the
stores are so again, or both fail. -/
def Lockstep {α α' : Type} (x : EStateM Halt (Store (System p) p) α)
    (x' : EStateM Halt (Store (System p) p) α') (V : α → α' → Prop) : Prop :=
  Agree Store.Reveals x x' (fun a a' s s' => V a a' ∧ s.Reveals s') fun _ _ _ _ => True

section Effects

variable {α α' β β' : Type} {V : α → α' → Prop} {W : β → β' → Prop}
  {x : EStateM Halt (Store (System p) p) α} {x' : EStateM Halt (Store (System p) p) α'}

theorem Lockstep.bind {f : α → EStateM Halt (Store (System p) p) β}
    {f' : α' → EStateM Halt (Store (System p) p) β'} (hx : Lockstep x x' V)
    (hf : ∀ a a', V a a' → Lockstep (f a) (f' a') W) : Lockstep (x >>= f) (x' >>= f') W :=
  Agree.bind hx fun a a' s s' h => hf a a' h.1 s s' h.2

theorem Lockstep.pure {a : α} {a' : α'} (h : V a a') :
    Lockstep (Pure.pure a : EStateM Halt (Store (System p) p) α) (Pure.pure a') V :=
  fun _ _ hs => ⟨h, hs⟩

theorem lockstep_push {v v' : Value p} (hv : v.Reveals v') :
    Lockstep (Store.push v) (Store.push v') fun _ _ => True := by
  rintro ⟨ledger, ⟨items, room⟩, locals, conditions, steps⟩
    ⟨ledger', ⟨items', room'⟩, locals', conditions', steps'⟩ ⟨hr, hs, hroom, hl, hsteps⟩
  dsimp only at hroom
  subst hroom
  match room' with
  | none => exact ⟨trivial, hr, .cons hv hs, rfl, hl, hsteps⟩
  | some 0 => exact trivial
  | some (n + 1) => exact ⟨trivial, hr, .cons hv hs, rfl, hl, hsteps⟩

theorem lockstep_pop : Lockstep Store.pop Store.pop (Value.Reveals (p := p)) := by
  rintro ⟨ledger, ⟨items, room⟩, locals, conditions, steps⟩
    ⟨ledger', ⟨items', room'⟩, locals', conditions', steps'⟩ ⟨hr, hs, hroom, hl, hsteps⟩
  dsimp only at hroom hs
  subst hroom
  cases hs with
  | nil => exact trivial
  | cons hv hs => exact ⟨hv, hr, hs, rfl, hl, hsteps⟩

theorem lockstep_copyLocal (id j : ℕ) :
    Lockstep (Store.copyLocal id j) (Store.copyLocal id j) (Value.Reveals (p := p)) := by
  intro s s' hs
  unfold Store.copyLocal LocalsTable.copy
  rcases hs.locals.read .copyLocalError id j with ⟨v, v', hv, hv', h⟩ | ⟨e, e', hv, hv'⟩
  · rw [hv, hv']
    exact ⟨h, hs⟩
  · rw [hv, hv']
    exact trivial

theorem lockstep_moveLocal (id j : ℕ) :
    Lockstep (Store.moveLocal id j) (Store.moveLocal id j) (Value.Reveals (p := p)) := by
  intro s s' hs
  unfold Store.moveLocal LocalsTable.move
  rcases hs.locals.read .moveLocalError id j with ⟨v, v', hv, hv', h⟩ | ⟨e, e', hv, hv'⟩
  · rw [hv, hv']
    exact ⟨h, hs.recorder, hs.stack, hs.room, hs.locals.write id j .invalid, hs.steps⟩
  · rw [hv, hv']
    exact trivial

theorem lockstep_storeLocal (id j : ℕ) {v v' : Value p} (hv : v.Reveals v') :
    Lockstep (Store.storeLocal id j v) (Store.storeLocal id j v') fun _ _ => True := by
  intro s s' hs
  unfold Store.storeLocal
  rcases hs.locals.store id j hv with ⟨r, r', hr, hr', h⟩ | ⟨e, e', hr, hr'⟩
  · rw [hr, hr']
    exact ⟨trivial, hs.recorder, hs.stack, hs.room, h, hs.steps⟩
  · rw [hr, hr']
    exact trivial

theorem lockstep_allocLocals (n : ℕ) :
    Lockstep (Store.allocLocals n) (Store.allocLocals n : EStateM Halt (Store (System p) p) ℕ)
      Eq := by
  intro s s' hs
  obtain ⟨hid, hlocals⟩ := hs.locals.alloc n
  exact ⟨hid.symm, hs.recorder, hs.stack, hs.room, hlocals, hs.steps⟩

theorem lockstep_releaseLocals (id : ℕ) :
    Lockstep (Store.releaseLocals id : EStateM Halt (Store (System p) p) Unit)
      (Store.releaseLocals id) fun _ _ => True := by
  intro s s' hs
  unfold Store.releaseLocals
  rcases hs.locals.release id with ⟨r, r', hr, hr', h⟩ | ⟨e, e', hr, hr'⟩
  · rw [hr, hr']
    exact ⟨trivial, hs.recorder, hs.stack, hs.room, h, hs.steps⟩
  · rw [hr, hr']
    exact trivial

theorem lockstep_popParams (id n : ℕ) :
    Lockstep (State.popParams id n : EStateM Halt (Store (System p) p) Unit)
      (State.popParams id n) fun _ _ => True := by
  induction n with
  | zero => exact .pure trivial
  | succ n ih =>
    exact lockstep_pop.bind fun v v' hv => (lockstep_storeLocal id n hv).bind fun _ _ _ => ih

theorem lockstep_popResults (n : ℕ) {vs vs' : List (Value p)}
    (h : List.Forall₂ Value.Reveals vs vs') :
    Lockstep (State.popResults n vs) (State.popResults n vs') (List.Forall₂ Value.Reveals) := by
  induction n generalizing vs vs' with
  | zero => exact .pure h
  | succ n ih => exact lockstep_pop.bind fun v v' hv => ih (.cons hv h)

end Effects

/-! ## Gates -/

section Gates

variable [Modulus p]

theorem lockstep_load (label : String) (type : ValueType) (n : ℕ) :
    Lockstep (Store.load label type n : EStateM Halt (Store (System p) p) Unit)
      (Store.load label type n) fun _ _ => True := by
  refine Lockstep.bind (V := Value.Reveals) (fun s s' hs => ?_) fun v v' hv => lockstep_push hv
  exact ⟨.constant _ _ _, hs.recorder, hs.stack, hs.room, hs.locals, hs.steps⟩

/-- Ledgers whose records are the same up to a witness. -/
def Ledger.Reveals (l l' : Ledger (System p) p) : Prop := l.recorder.Reveals l'.recorder

theorem reveals_synthesise (g : Gate) (label : String) (a b : Combination p) (type : ValueType)
    {x x' : Option (Scalar p)} (hx : ∀ y, x = some y → x' = some y) :
    Agree Ledger.Reveals (g.synthesise label a b x type) (g.synthesise label a b x' type)
      (fun v v' l l' => v.Reveals v' ∧ Ledger.Reveals l l') fun _ _ _ _ => True := by
  rintro ⟨sys, journal⟩ ⟨sys', journal'⟩ h
  have hwire := h.addWire label hx
  have hsize : sys'.wires.size = sys.wires.size := h.wires.size_eq.symm
  simp only [Gate.synthesise, bind, EStateM.bind, Ledger.record, Recorder.alloc,
    System.alloc_ofOption, Recorder.enforce, System.enforce, hsize, hwire.unknownWire?]
  generalize g.sides a b (.single (UInt32.ofNat sys.wires.size)) = sides
  obtain ⟨ka, kb, kc⟩ := sides
  dsimp only
  cases (sys.addWire label x).unknownWire? ⟨label, ka, kb, kc⟩ with
  | some w => exact trivial
  | none =>
    refine ⟨.wired _ type hx, hwire.wires, ?_⟩
    exact congrArg (fun ks : Array (Constraint p) => ks.push ⟨label, ka, kb, kc⟩) hwire.constraints

theorem reveals_apply (g : Gate) (label : String) {a a' b b' : Value p} (ha : a.Reveals a')
    (hb : b.Reveals b') (guard guard' : Option (Guard p)) :
    Agree Ledger.Reveals (g.apply label a b guard) (g.apply label a' b' guard')
      (fun v v' l l' => v.Reveals v' ∧ Ledger.Reveals l l') fun _ _ _ _ => True := by
  rintro ⟨sys, journal⟩ ⟨sys', journal'⟩ h
  unfold Gate.apply
  rw [ha.combination?, hb.combination?, ha.resultType]
  cases a.combination? with
  | none => exact trivial
  | some left =>
    cases b.combination? with
    | none => exact trivial
    | some right =>
      have hsynth (j j' : Array (Event p)) := reveals_synthesise g label left right (g.resultType a)
        (ha.result? hb g) ⟨sys, j⟩ ⟨sys', j'⟩ h
      cases guard with
      | none => cases guard' <;> exact hsynth _ _
      | some guard => cases guard' <;> exact hsynth _ _

theorem lockstep_binary (label : String) (opcode : Bytecode.Opcode) (g : Gate) :
    Lockstep (Store.binary label opcode g : EStateM Halt (Store (System p) p) Unit)
      (Store.binary label opcode g) fun _ _ => True := by
  refine lockstep_pop.bind fun right right' hright => lockstep_pop.bind fun left left' hleft => ?_
  rintro ⟨ledger, stack, locals, conditions, steps⟩ ⟨ledger', stack', locals', conditions', steps'⟩ hs
  have hgate := reveals_apply g label hleft hright conditions.top? conditions'.top? ledger ledger'
    hs.recorder
  simp only [bind, EStateM.bind, get_apply, Store.record]
  obtain ⟨v, l, v', l', hx, hx', hv, hl⟩ | ⟨e, l, e', l', hx, hx', -⟩ := hgate.split
  · rw [hx, hx']
    exact lockstep_push hv _ _ ⟨hl, hs.stack, hs.room, hs.locals, hs.steps⟩
  · rw [hx, hx']
    exact trivial

omit [Modulus p] in
theorem lockstep_allocInputs (id i : ℕ) {inputs inputs' : List (ValueType × Option (Scalar p))}
    (h : List.Forall₂ (fun input input' => input.1 = input'.1 ∧
      ∀ y, input.2 = some y → input'.2 = some y) inputs inputs') :
    Lockstep (State.allocInputs id i inputs) (State.allocInputs id i inputs') fun _ _ => True := by
  induction h generalizing i with
  | nil => exact .pure trivial
  | @cons input input' inputs inputs' hinput _ ih =>
    obtain ⟨type, x⟩ := input
    obtain ⟨type', x'⟩ := input'
    obtain ⟨rfl, hx⟩ := hinput
    refine Lockstep.bind (V := Value.Reveals) (fun s s' hs => ?_) fun v v' hv =>
      (lockstep_storeLocal id i hv).bind fun _ _ _ => ih (i + 1)
    have hw := hs.recorder.addWire s!"arg#{i}" hx
    rw [(Invariant.rearranges_allocInput id i s!"arg#{i}" x type s).1,
      (Invariant.rearranges_allocInput id i s!"arg#{i}" x' type s').1, ← hs.recorder.wires.size_eq]
    exact ⟨.wired _ _ hx, hw, hs.stack, hs.room, hs.locals, hs.steps⟩

end Gates

/-! ## Instructions -/

section Instructions

variable [Modulus p] {i : Instruction} {f : Function} {id : ℕ} {pc : UInt16} {mode mode' : Mode}
  {s s' : Store (System p) p}

/-- The same transition, which leads into no arms. -/
def SamePlain (t t' : Transition p) : Prop := t = t' ∧ t.IsPlain

omit [Modulus p] in
theorem lockstep_branchOn (taken : Scalar p) (hs : s.Reveals s')
    (hknown : ∀ v, s.stack.top? = some v → v.value?.isSome) :
    SameEnd (fun t t' s s' => SamePlain t t' ∧ s.Reveals s') (fun _ _ _ _ => True)
      ((Block.body id pc).branchOn mode f i taken s)
      ((Block.body id pc).branchOn mode' f i taken s') := by
  simp only [Block.branchOn, bind, EStateM.bind]
  obtain ⟨v, t, v', t', hp, hp', hv, ht⟩ | ⟨e, t, e', t', hp, hp', -⟩ :=
    (lockstep_pop s s' hs).split
  · obtain ⟨x, hx⟩ := Option.isSome_iff_exists.mp (hknown v (Store.top?_of_pop hp))
    rw [hp, hp']
    simp only [hx, hv.value? hx]
    refine ⟨⟨rfl, ?_⟩, ht⟩
    by_cases htaken : x = taken
    · rw [if_pos htaken]
      exact .goto _
    · rw [if_neg htaken]
      exact .goto _
  · rw [hp, hp']
    exact trivial

theorem lockstep_parts (id : ℕ) (label : String) :
    PairedParts (Store.Reveals (p := p)) (fun _ _ _ _ => True) Value.Reveals id label label where
  push hv := lockstep_push hv
  pop := lockstep_pop
  copyLocal := lockstep_copyLocal id
  moveLocal := lockstep_moveLocal id
  storeLocal j _ _ hv := lockstep_storeLocal id j hv
  load := lockstep_load label
  binary := lockstep_binary label
  abort := by
    -- Both machines stop, for different reasons where the code is unknown to one of them.
    refine Paired.bind (V := Value.Reveals) lockstep_pop fun v v' hv => ?_
    intro s s' hs
    cases v.value? <;> cases v'.value? <;> exact trivial
  undefined message := fun _ _ _ => trivial

/-- **An instruction in both machines**, where a condition it branches on is known. -/
theorem lockstep_perform (step : ℕ) (hs : s.Reveals s')
    (hknown : i.opcode.isConditionalBranch = true →
      ∀ v, s.stack.top? = some v → v.value?.isSome) :
    SameEnd (fun t t' s s' => SamePlain t t' ∧ s.Reveals s') (fun _ _ _ _ => True)
      ((Block.body id pc).perform mode f i step s)
      ((Block.body id pc).perform mode' f i step s') := by
  by_cases hjump : i.opcode.isJump = true
  · unfold Block.perform
    cases hop : i.opcode with
    | brTrue => exact lockstep_branchOn 1 hs (hknown (by rw [hop]; rfl))
    | brFalse => exact lockstep_branchOn 0 hs (hknown (by rw [hop]; rfl))
    | branch => exact ⟨⟨rfl, .goto _⟩, hs⟩
    | _ => rw [hop] at hjump; cases hjump
  · have hplain : Paired (Store.Reveals (p := p)) (fun _ _ _ _ => True)
        ((Block.body id pc).perform mode f i step) ((Block.body id pc).perform mode' f i step)
        (Passes (.body id pc) (.body id pc) i) :=
      (lockstep_parts id _).perform mode mode' f f (Bool.eq_false_iff.mpr hjump) rfl
    refine hplain.mono (fun t t' ht => ?_) s s' hs
    cases ht with
    | advance => exact ⟨rfl, .goto _⟩
    | ret => exact ⟨rfl, .ret⟩
    | call => exact ⟨rfl, .call _⟩

/-- **A step of the body of a function in both machines.** -/
theorem lockstep_block_step (id : ℕ) (mode mode' : Mode) (hs : s.Reveals s')
    (hknown : ∀ i, f.code[pc.toNat]? = some i → i.opcode.isConditionalBranch = true →
      ∀ v, s.stack.top? = some v → v.value?.isSome) :
    SameEnd (fun t t' s s' => SamePlain t t' ∧ s.Reveals s') (fun _ _ _ _ => True)
      ((Block.body id pc).step mode f s) ((Block.body id pc).step mode' f s') := by
  have hk' := hs.locals.knows id
  by_cases hk : s.locals.knows id = true
  · rw [hk] at hk'
    cases hi : f.code[pc.toNat]? with
    | none =>
      rw [Block.step_eq_beyond (b := .body id pc) hk hi,
        Block.step_eq_beyond (b := .body id pc) hk' hi]
      exact trivial
    | some i =>
      rw [Block.step_eq (b := .body id pc) hk hi, Block.step_eq (b := .body id pc) hk' hi, hs.steps]
      refine lockstep_perform _ ?_ (hknown i hi)
      exact ⟨hs.recorder, hs.stack, hs.room, hs.locals, congrArg (· + 1) hs.steps⟩
  · rw [Bool.not_eq_true] at hk
    rw [hk] at hk'
    rw [Block.step_eq_unknown (b := .body id pc) hk, Block.step_eq_unknown (b := .body id pc) hk']
    exact trivial

end Instructions

/-! ## Machines -/

/-- **Two machines in lockstep**, which execute the same functions and no arms. -/
structure State.Reveals (m m' : State (System p) p) : Prop where
  store : m.store.Reveals m'.store
  frames : m'.frames = m.frames
  flat : ∀ f ∈ m.frames.items, f.IsFlat

/-- The same program in another mode. -/
def Setup.inMode (setup : Setup) (mode : Mode) : Setup := ⟨setup.program, setup.config.inMode mode⟩

/-- Results of two machines that are in lockstep afterwards, or two failures. -/
abbrev Reveal {α α' : Type} (V : α → α' → Prop) :
    EStateM.Result Halt (State (System p) p) α → EStateM.Result Halt (State (System p) p) α' → Prop :=
  SameEnd (fun a a' m m' => V a a' ∧ m.Reveals m') fun _ _ _ _ => True

section Machines

variable {m m' : State (System p) p} {α α' : Type} {V : α → α' → Prop} {setup : Setup}
  {fs : List Frame} {room : Option ℕ} {s s' : Store (System p) p}

theorem Lockstep.onMachineStore {x : EStateM Halt (Store (System p) p) α}
    {x' : EStateM Halt (Store (System p) p) α'} (hx : Lockstep x x' V) (h : m.Reveals m') :
    Reveal V (State.onStore x m) (State.onStore x' m') := by
  obtain ⟨s, frames⟩ := m
  obtain ⟨s', frames'⟩ := m'
  obtain ⟨hs, rfl, hflat⟩ := h
  simp only [State.onStore]
  obtain ⟨a, t, a', t', ht, ht', ha, hrest⟩ | ⟨e, t, e', t', ht, ht', -⟩ := (hx s s' hs).split
  · rw [ht, ht']
    exact ⟨ha, hrest, rfl, hflat⟩
  · rw [ht, ht']
    exact trivial

theorem reveals_pushFrame {f : Frame} (hf : f.IsFlat) (h : m.Reveals m') :
    Reveal (fun _ _ => True) (State.pushFrame f m) (State.pushFrame f m') := by
  obtain ⟨s, fs, room⟩ := m
  obtain ⟨s', frames'⟩ := m'
  obtain ⟨hs, rfl, hflat⟩ := h
  have hflat' : ∀ g ∈ f :: fs, g.IsFlat := List.forall_mem_cons.mpr ⟨hf, hflat⟩
  match room with
  | none => exact ⟨trivial, hs, rfl, hflat'⟩
  | some 0 => exact trivial
  | some (n + 1) => exact ⟨trivial, hs, rfl, hflat'⟩

theorem reveals_note (h : m.Reveals m') (e e' : Event p) :
    Reveal (fun _ _ => True) (State.onStore (Store.note e) m) (State.onStore (Store.note e') m') :=
  ⟨trivial, ⟨h.store.recorder, h.store.stack, h.store.room, h.store.locals, h.store.steps⟩, h.frames,
    h.flat⟩

theorem reveals_releasing (id : ℕ) {x : EStateM Halt (State (System p) p) α}
    {x' : EStateM Halt (State (System p) p) α'} (hx : Reveal V (x m) (x' m')) :
    Reveal V (State.releasing id x m) (State.releasing id x' m') := by
  unfold State.releasing
  obtain ⟨a, t, a', t', ht, ht', h⟩ | ⟨e, t, e', t', ht, ht', -⟩ := hx.split
  · rw [ht, ht']
    exact h
  · rw [ht, ht']
    dsimp only
    cases State.onStore (Store.releaseLocals id) t <;>
      cases State.onStore (Store.releaseLocals id) t' <;> exact trivial

/-- **Both machines call a function.** -/
theorem reveals_call (setup : Setup) (mode : Mode) (index : UInt16) (h : m.Reveals m') :
    Reveal (fun _ _ => True) (State.call setup index m)
      (State.call (setup.inMode mode) index m') := by
  unfold State.call
  rw [show (setup.inMode mode).program = setup.program from rfl]
  cases setup.program.function? index with
  | none => exact trivial
  | some f =>
    have halloc := (lockstep_allocLocals f.locals).onMachineStore h
    simp only [bind, EStateM.bind]
    obtain ⟨id, m₁, id', m₁', h₁, h₁', rfl, hm₁⟩ | ⟨e, _, e', _, h₁, h₁', -⟩ := halloc.split
    · rw [h₁, h₁']
      dsimp only
      have hpush : Reveal (fun _ _ => True)
          ((do State.onStore (State.popParams id f.params.length)
               State.pushFrame (.ofFunction index f id)) m₁)
          ((do State.onStore (State.popParams id f.params.length)
               State.pushFrame (.ofFunction index f id)) m₁') := by
        have hparams := (lockstep_popParams id f.params.length).onMachineStore hm₁
        simp only [bind, EStateM.bind]
        obtain ⟨u, m₂, u', m₂', h₂, h₂', -, hm₂⟩ | ⟨e, _, e', _, h₂, h₂', -⟩ := hparams.split
        · rw [h₂, h₂']
          exact reveals_pushFrame (Frame.isFlat_ofFunction index f id) hm₂
        · rw [h₂, h₂']
          exact trivial
      have hreleasing := reveals_releasing id hpush
      simp only [bind] at hreleasing
      obtain ⟨u, m₃, u', m₃', h₃, h₃', -, hm₃⟩ | ⟨e, _, e', _, h₃, h₃', -⟩ := hreleasing.split
      · rw [h₃, h₃']
        exact reveals_note hm₃ _ _
      · rw [h₃, h₃']
        exact trivial
    · rw [h₁, h₁']
      exact trivial

/-- **Both machines return from a function.** -/
theorem reveals_ret (h : m.Reveals m') : Reveal Eq (State.ret m) (State.ret m') := by
  obtain ⟨s, fs, room⟩ := m
  obtain ⟨s', frames'⟩ := m'
  obtain ⟨hs, rfl, hflat⟩ := h
  obtain _ | ⟨f, fs⟩ := fs
  · exact trivial
  obtain ⟨⟨index, k, id, pc, rfl⟩, hrest⟩ := List.forall_mem_cons.mp hflat
  rw [State.ret_flat, State.ret_flat]
  obtain ⟨u, t, u', t', ht, ht', -, hst⟩ | ⟨e, t, e', t', ht, ht', -⟩ :=
    (lockstep_releaseLocals id s s' hs).split
  · rw [ht, ht']
    dsimp only
    obtain _ | ⟨g, fs⟩ := fs
    · exact ⟨rfl, hst, rfl, fun _ hg => nomatch hg⟩
    · obtain ⟨⟨index', k', id', pc', rfl⟩, hflat'⟩ := List.forall_mem_cons.mp hrest
      rw [State.resume_flat, State.resume_flat]
      exact ⟨rfl, hst, rfl, List.forall_mem_cons.mpr ⟨⟨_, _, _, _, rfl⟩, hflat'⟩⟩
  · rw [ht, ht']
    exact trivial

variable [Modulus p]

/-- **A step of both machines**, where a condition that is branched on is known. -/
theorem reveals_step (setup : Setup) (mode : Mode) (h : m.Reveals m')
    (hknown : ∀ i, m.instruction? = some i → i.opcode.isConditionalBranch = true →
      ∀ v, m.store.stack.top? = some v → v.value?.isSome) :
    Reveal Eq (State.step setup m) (State.step (setup.inMode mode) m') := by
  obtain ⟨s, fs, room⟩ := m
  obtain ⟨s', frames'⟩ := m'
  obtain ⟨hs, rfl, hflat⟩ := h
  obtain _ | ⟨f, fs⟩ := fs
  · exact ⟨rfl, hs, rfl, hflat⟩
  obtain ⟨⟨index, k, id, pc, rfl⟩, hrest⟩ := List.forall_mem_cons.mp hflat
  have hnext : State.instruction? ⟨s, ⟨.flat index k id pc :: fs, room⟩⟩ = k.code[pc.toNat]? :=
    State.instruction?_cons Frame.running_flat
  rw [State.step_flat, State.step_flat]
  have hblock := lockstep_block_step id setup.config.mode (setup.inMode mode).config.mode hs
    fun i hi => hknown i (hnext.trans hi)
  obtain ⟨t, r, t', r', ht, ht', ⟨rfl, hplain⟩, hr⟩ | ⟨e, r, e', r', ht, ht', -⟩ := hblock.split
  · rw [ht, ht']
    have hm : State.Reveals ⟨r, ⟨.flat index k id pc :: fs, room⟩⟩
        ⟨r', ⟨.flat index k id pc :: fs, room⟩⟩ := ⟨hr, rfl, hflat⟩
    cases hplain with
    | goto target => exact ⟨rfl, hr, rfl, List.forall_mem_cons.mpr ⟨⟨_, _, _, _, rfl⟩, hrest⟩⟩
    | ret => exact reveals_ret hm
    | call function =>
      dsimp only
      rw [State.conclude_call, State.conclude_call]
      obtain ⟨u, m₁, u', m₁', h₁, h₁', -, hm₁⟩ | ⟨e, _, e', _, h₁, h₁', -⟩ :=
        (reveals_call setup mode function hm).split
      · rw [h₁, h₁']
        exact ⟨rfl, hm₁⟩
      · rw [h₁, h₁']
        exact trivial
  · rw [ht, ht']
    exact trivial

end Machines

/-! ## Runs -/

section Runs

variable {setup : Setup} {index : UInt16} {args₀ args : List (Scalar p)} {f : Function}

theorem inputs_reveals (args₀ : List (Scalar p)) (hmode : setup.config.mode ≠ .witness)
    (hargs : args.length = f.params.length) :
    List.Forall₂ (fun input input' => input.1 = input'.1 ∧
      ∀ y : Scalar p, input.2 = some y → input'.2 = some y)
      (State.inputs setup.config.mode f args₀)
      (State.inputs (setup.inMode .witness).config.mode f args) := by
  unfold State.inputs
  rw [if_neg hmode, if_pos (by rfl)]
  generalize f.params = params at hargs
  induction params generalizing args with
  | nil => exact .nil
  | cons type params ih =>
    cases args with
    | nil => cases hargs
    | cons x args => exact .cons ⟨rfl, nofun⟩ (ih (Nat.succ.inj hargs))

/-- **Both machines enter a function.** -/
theorem reveals_start (index : UInt16) (args₀ : List (Scalar p))
    (hmode : setup.config.mode ≠ .witness) (hargs : args.length = f.params.length)
    {m m' : State (System p) p}
    (h : m.store.ledger.recorder.Reveals m'.store.ledger.recorder) :
    Reveal (fun _ _ => True) (State.start setup index f args₀ m)
      (State.start (setup.inMode .witness) index f args m') := by
  have hinit : State.Reveals (.initial setup.config m.store.ledger)
      (.initial (setup.inMode .witness).config m'.store.ledger) :=
    ⟨⟨h, .nil, rfl, ⟨fun j => by simp [Store.initial, State.initial, LocalsTable.empty], rfl⟩, rfl⟩,
      rfl, fun _ hf => nomatch hf⟩
  have halloc := (lockstep_allocLocals f.locals).onMachineStore hinit
  simp only [State.start, bind, EStateM.bind, State.reset]
  obtain ⟨id, m₁, id', m₁', h₁, h₁', rfl, hm₁⟩ | ⟨e, _, e', _, h₁, h₁', -⟩ := halloc.split
  · rw [h₁, h₁']
    have hinputs := (lockstep_allocInputs id 0
      (inputs_reveals args₀ hmode hargs)).onMachineStore hm₁
    dsimp only
    obtain ⟨u, m₂, u', m₂', h₂, h₂', -, hm₂⟩ | ⟨e, _, e', _, h₂, h₂', -⟩ := hinputs.split
    · rw [h₂, h₂']
      have hpush := reveals_pushFrame (Frame.isFlat_ofFunction index f id) hm₂
      dsimp only
      obtain ⟨u, m₃, u', m₃', h₃, h₃', -, hm₃⟩ | ⟨e, _, e', _, h₃, h₃', -⟩ := hpush.split
      · rw [h₃, h₃']
        exact reveals_note hm₃ _ _
      · rw [h₃, h₃']
        exact trivial
    · rw [h₂, h₂']
      exact trivial
  · rw [h₁, h₁']
    exact trivial

variable [Modulus p] {m₀ : State (System p) p}

/-- **Both machines execute instructions** until their functions return. -/
theorem reveals_loop (mode : Mode)
    (hknown : ∀ m i v, Reached setup index args₀ m₀ m → m.instruction? = some i →
      i.opcode.isConditionalBranch = true → m.store.stack.top? = some v → v.value?.isSome)
    (fuel : ℕ) {m m' : State (System p) p} (hm : Reached setup index args₀ m₀ m) (h : m.Reveals m') :
    Reveal (fun _ _ => True) (State.loop setup fuel m)
      (State.loop (setup.inMode mode) fuel m') := by
  induction fuel generalizing m m' with
  | zero => exact trivial
  | succ fuel ih =>
    have hstep := reveals_step setup mode h fun i hi hb v => hknown m i v hm hi hb
    rw [State.loop, State.loop]
    obtain ⟨b, r, b', r', hs, hs', rfl, hr⟩ | ⟨e, r, e', r', hs, hs', -⟩ := hstep.split
    · rw [hs, hs']
      cases b with
      | true => exact ⟨trivial, hr⟩
      | false => exact ih (hm.step hs) hr
    · rw [hs, hs']
      exact trivial

theorem reveals_reached (hmode : setup.config.mode ≠ .witness)
    (hknown : ∀ m i v, Reached setup index args₀ m₀ m → m.instruction? = some i →
      i.opcode.isConditionalBranch = true → m.store.stack.top? = some v → v.value?.isSome)
    (hf : setup.program.function? index = some f) (hargs : args.length = f.params.length)
    {m₀' : State (System p) p}
    (h : m₀.store.ledger.recorder.Reveals m₀'.store.ledger.recorder) {m : State (System p) p}
    (hm : Reached setup index args₀ m₀ m) :
    ∃ m', Reached (setup.inMode .witness) index args m₀' m' ∧ m.Reveals m' := by
  induction hm with
  | @start f' m he hs =>
    rw [State.eligible_eq_ok hf fun hw => absurd hw hmode] at he
    cases he
    have hstart := reveals_start index args₀ hmode hargs h
    rw [hs] at hstart
    obtain ⟨_, _, u, m', ht, hs', -, hm⟩ | ⟨_, _, _, _, ht, -⟩ := hstart.split
    · cases ht
      exact ⟨m', .start (State.eligible_eq_ok hf fun _ => hargs) hs', hm⟩
    · cases ht
  | @step m r hm hs ih =>
    obtain ⟨m', hm', hreveals⟩ := ih
    have hstep := reveals_step setup .witness hreveals fun i hi hb v => hknown m i v hm hi hb
    rw [hs] at hstep
    obtain ⟨_, _, b, r', ht, hs', hb, hr⟩ | ⟨_, _, _, _, ht, -⟩ := hstep.split
    · cases ht
      rw [← hb] at hs'
      exact ⟨r', hm'.step hs', hr⟩
    · cases ht

/-- **Both machines run.** -/
theorem reveals_run (hmode : setup.config.mode ≠ .witness)
    (hknown : ∀ m i v, Reached setup index args₀ m₀ m → m.instruction? = some i →
      i.opcode.isConditionalBranch = true → m.store.stack.top? = some v → v.value?.isSome)
    (hf : setup.program.function? index = some f) (hargs : args.length = f.params.length)
    {m₀' : State (System p) p}
    (h : m₀.store.ledger.recorder.Reveals m₀'.store.ledger.recorder) (fuel : ℕ) :
    Reveal (List.Forall₂ Value.Reveals) (State.run setup fuel index args₀ m₀)
      (State.run (setup.inMode .witness) fuel index args m₀') := by
  have he : State.eligible setup index args₀ = .ok f :=
    State.eligible_eq_ok hf fun hw => absurd hw hmode
  have he' : State.eligible (setup.inMode .witness) index args = .ok f :=
    State.eligible_eq_ok hf fun _ => hargs
  have hstart := reveals_start index args₀ hmode hargs h
  simp only [State.run, he, he', bind, EStateM.bind]
  obtain ⟨u, m₁, u', m₁', h₁, h₁', -, hm₁⟩ | ⟨e, _, e', _, h₁, h₁', -⟩ := hstart.split
  · rw [h₁, h₁']
    have hloop := reveals_loop .witness hknown fuel (.start he h₁) hm₁
    dsimp only
    obtain ⟨u, m₂, u', m₂', h₂, h₂', -, hm₂⟩ | ⟨e, _, e', _, h₂, h₂', -⟩ := hloop.split
    · rw [h₂, h₂']
      exact (lockstep_popResults f.returns .nil).onMachineStore hm₂
    · rw [h₂, h₂']
      exact trivial
  · rw [h₁, h₁']
    exact trivial

end Runs

/-- **A shape built without unknown conditions is the shape of every witness**: with one argument for
each parameter, the witness succeeds as well, after as many steps, with the same circuit, and with
results that are the same as far as they are known. In between, too, both machines hold the same
values as far as they are known. -/
theorem witness_of_shape [Modulus p] {setup : Setup} (hmode : setup.config.mode ≠ .witness)
    {index : UInt16} {args₀ : List (Scalar p)}
    (hknown : ∀ m i v, Reached (σ := System p) setup index args₀ (.new setup) m →
      m.instruction? = some i → i.opcode.isConditionalBranch = true →
      m.store.stack.top? = some v → v.value?.isSome)
    {fuel : ℕ} {q : List (Value p)} {m : State (System p) p}
    (hrun : State.run setup fuel index args₀ (.new setup) = .ok q m) {f : Function}
    (hf : setup.program.function? index = some f) {args : List (Scalar p)}
    (hargs : args.length = f.params.length) :
    (∃ r w, State.run (setup.inMode .witness) fuel index args (.new (setup.inMode .witness)) =
        .ok r w ∧ w.store.steps = m.store.steps ∧
      w.store.ledger.recorder.wires.size = m.store.ledger.recorder.wires.size ∧
      w.store.ledger.recorder.wires.map WireEntry.label =
        m.store.ledger.recorder.wires.map WireEntry.label ∧
      w.store.ledger.recorder.constraints = m.store.ledger.recorder.constraints ∧
      w.store.ledger.recorder.digest = m.store.ledger.recorder.digest ∧
      List.Forall₂ Value.Reveals q r ∧
      ∀ wire x, m.store.ledger.recorder.value? wire = some x →
        w.store.ledger.recorder.value? wire = some x) ∧
    ∀ m, Reached setup index args₀ (.new setup) m →
      ∃ w, Reached (setup.inMode .witness) index args (.new (setup.inMode .witness)) w ∧
        m.store.Reveals w.store := by
  have hnew : (State.new setup : State (System p) p).store.ledger.recorder.Reveals
      (State.new (setup.inMode .witness) : State (System p) p).store.ledger.recorder := .refl _
  constructor
  · have h := reveals_run hmode hknown hf hargs hnew fuel
    rw [hrun] at h
    obtain ⟨_, _, r, w, ht, hw, hq, hm⟩ | ⟨_, _, _, _, ht, -⟩ := h.split
    · cases ht
      have hsys := hm.store.recorder
      refine ⟨r, w, hw, hm.store.steps, hsys.wires.size_eq.symm, hsys.labels, hsys.constraints,
        hsys.digest, hq, fun wire x hx => hsys.value? hx⟩
    · cases ht
  · intro m hm
    obtain ⟨w, hw, hreveals⟩ := reveals_reached hmode hknown hf hargs hnew hm
    exact ⟨w, hw, hreveals.store⟩

/-- The shape of a circuit that takes the square of its parameter under a condition that is always
true. -/
def squareIfTrue : Setup :=
  .ofCode 1 1
    #[.ofNat .ldTrue 0, .ofNat .brTrue 3, .ofNat .branch 6, .ofNat .copyLoc 0, .ofNat .copyLoc 0,
      .ofNat .mul 0, .ofNat .ret 0]

/-- Whether the condition is known where a conditional branch is next. -/
def State.isDecided (m : State (System p) p) : Bool :=
  match m.instruction?, m.store.stack.top? with
  | some i, some v => !i.opcode.isConditionalBranch || v.value?.isSome
  | _, _ => true

theorem squareIfTrue_decided
    {m : State (System ScalarField.bn254.modulus) ScalarField.bn254.modulus}
    (h : Reached squareIfTrue 0 [] (.new squareIfTrue) m) : m.isDecided = true := by
  have hchecks : (State.started? (p := ScalarField.bn254.modulus) squareIfTrue 0 []
      (.new squareIfTrue)).all (State.checks squareIfTrue State.isDecided 20) = true := by
    decide +kernel
  refine h.of_checks 20 fun f m he hs => ?_
  rw [State.started?, he] at hchecks
  simp only [hs] at hchecks
  exact hchecks

/-- The end of the run that builds its shape. -/
def squareIfTrueShape : State (System ScalarField.bn254.modulus) ScalarField.bn254.modulus :=
  finalState (State.run squareIfTrue 10 0 [] (.new squareIfTrue))

/-- The witness for five has the constraint of the shape. -/
theorem witness_of_shape_squareIfTrue :
    squareIfTrueShape.store.steps = 6 ∧
      squareIfTrueShape.store.ledger.recorder.constraints.size = 1 ∧
      ∃ r w, State.run (squareIfTrue.inMode .witness) 10 0 [.ofNat 5]
          (.new (squareIfTrue.inMode .witness)) = .ok r w ∧
        w.store.steps = squareIfTrueShape.store.steps ∧
        w.store.ledger.recorder.constraints =
          squareIfTrueShape.store.ledger.recorder.constraints := by
  have hknown : ∀ m i v,
      Reached (p := ScalarField.bn254.modulus) squareIfTrue 0 [] (.new squareIfTrue) m →
      m.instruction? = some i → i.opcode.isConditionalBranch = true →
      m.store.stack.top? = some v → v.value?.isSome := by
    intro m i v hm hi hb hv
    have hcheck := squareIfTrue_decided hm
    simpa [State.isDecided, hi, hv, hb] using hcheck
  have hmode : squareIfTrue.config.mode ≠ .witness := by decide
  have hok : (match State.run (p := ScalarField.bn254.modulus) squareIfTrue 10 0 []
      (.new squareIfTrue) with | .ok _ _ => true | .error _ _ => false) = true := by
    decide +kernel
  refine ⟨by decide +kernel, by decide +kernel, ?_⟩
  unfold squareIfTrueShape
  cases hrun : State.run (p := ScalarField.bn254.modulus) squareIfTrue 10 0 []
      (.new squareIfTrue) with
  | error e m => rw [hrun] at hok; cases hok
  | ok q m =>
    have hargs : ([.ofNat 5] : List (Scalar ScalarField.bn254.modulus)).length = 1 := rfl
    obtain ⟨⟨r, w, hw, hsteps, -, -, hconstraints, -⟩, -⟩ :=
      witness_of_shape hmode hknown hrun rfl hargs
    exact ⟨r, w, hw, hsteps, hconstraints⟩

end Machine

end StackCircuit
