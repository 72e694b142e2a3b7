import StackCircuit.Proofs.Machine.Start
import StackCircuit.Proofs.Machine.Relate
import StackCircuit.Proofs.Plain.Machine

/-!
# Plain operands behind values

The values of the machine stand for operands of the plain machine, once it is said which number each
of them has: the one that is known, or the one that an assignment of the wires gives. Instructions do
the same to values and to operands.

* `Value.operand?`: the operand that a value stands for.
* **`Store.Tracks`**: the stack and the locals of a store stand for those of a configuration.
* `Store.Tracks.alloc`, `Store.Tracks.release`, `Store.Tracks.write`: the locals of all functions share
  one table, but do not get into each other's way.
* **`tracks_perform`**: instructions without jumps do the same on both sides.
* `tracks_popParams`: parameters are passed in the same order.
-/

namespace StackCircuit

open Bytecode (Function Instruction)
open Circuit (System)
open Plain (Operand Call Configuration Locals Flow)

variable {p : ℕ}

/-- The operand that a usable value stands for, where `num` tells the numbers of values. -/
def Value.operand? (num : Value p → Scalar p) (v : Value p) : Option (Operand p) :=
  v.type?.map (⟨num v, ·⟩)

theorem Value.isSome_combination? [Modulus p] {num : Value p → Scalar p} {v : Value p}
    {a : Operand p} (h : v.operand? num = some a) : v.combination?.isSome := by
  match v with
  | .invalid => cases h
  | .constant x type (some w) => rfl
  | .constant x type none => rfl
  | .wired w x type => rfl

/-- The result of an application has the number that the gate computes from those of the operands. -/
def Operation.Faithful [Modulus p] (num : Value p → Scalar p) (op : Operation p) : Prop :=
  num op.outcome = op.gate.eval (num op.left) (num op.right)

/-- What a gate makes of two operands. -/
def Gate.result [Modulus p] (g : Gate) (a b : Operand p) : Operand p :=
  ⟨g.eval a.value b.value, if g = .eq then .bool else a.type⟩

section Agreement

variable [Modulus p]

theorem Gate.result_add :
    Gate.add.result = fun a b : Operand p => ⟨a.value + b.value, a.type⟩ :=
  rfl

theorem Gate.result_sub :
    Gate.sub.result = fun a b : Operand p => ⟨a.value - b.value, a.type⟩ :=
  rfl

theorem Gate.result_mul :
    Gate.mul.result = fun a b : Operand p => ⟨a.value * b.value, a.type⟩ :=
  rfl

theorem Gate.result_eq :
    Gate.eq.result = fun a b : Operand p => ⟨if a.value = b.value then 1 else 0, .bool⟩ := by
  funext a b
  simp [Gate.result, Gate.eval, Scalar.ofBool]

omit [Modulus p] in
theorem Plain.reference_eq_index (i : Instruction) : Plain.reference i = i.index.toNat :=
  rfl

omit [Modulus p] in
theorem Plain.ofNat_reference (i : Instruction) : UInt16.ofNat (Plain.reference i) = i.target :=
  UInt16.ofNat_mod_size

omit [Modulus p] in
theorem Plain.initial_eq (config : Machine.Config) :
    Configuration.initial (p := p) config = ⟨.ofCapacity (Machine.Config.capacityOf config.evalSize),
      .ofCapacity (Machine.Config.capacityOf config.callSize), 0⟩ :=
  rfl

end Agreement

theorem Operation.operand?_outcome [Modulus p] {num : Value p → Scalar p} {op : Operation p}
    {a b : Operand p} (hl : op.left.operand? num = some a) (hr : op.right.operand? num = some b)
    (h : op.Faithful num) :
    op.outcome.operand? num = some (op.gate.result a b) := by
  obtain ⟨type, htype, rfl⟩ := Option.map_eq_some_iff.mp hl
  obtain ⟨type', -, rfl⟩ := Option.map_eq_some_iff.mp hr
  have hresult : op.outcome.type? = some (if op.gate = .eq then .bool else type) := by
    rw [Operation.outcome, Value.type?]
    cases op.gate <;> simp [Gate.resultType, htype]
  rw [Value.operand?, hresult, h]
  rfl

namespace Machine

/-- Failures of the same kind and with the same code, or both a lack of fuel. -/
def Halt.Agrees : Halt → Halt → Prop
  | .failure e, .failure e' =>
    e.report?.map (fun r => (r.status, r.abortCode)) =
      e'.report?.map fun r => (r.status, r.abortCode)
  | .outOfFuel, .outOfFuel => True
  | _, _ => False

/-! ## Locals -/

/-- The operands behind the slots of an identifier. -/
def LocalsTable.operands? (num : Value p → Scalar p) (t : LocalsTable p) (id : ℕ) :
    Option (Locals p) :=
  match t.entries[id]? with
  | some (some slots) => some (slots.map (·.operand? num))
  | _ => none

namespace LocalsTable

variable {num : Value p → Scalar p} {t t' : LocalsTable p} {id j : ℕ} {locals : Locals p}

theorem operands?_eq_some :
    t.operands? num id = some locals ↔
      ∃ slots, t.slots id = .ok slots ∧ slots.map (·.operand? num) = locals := by
  simp only [slots_eq_ok, operands?]
  cases t.entries[id]? with
  | none => simp
  | some slots? => cases slots? <;> simp

theorem lt_size_of_operands? (h : t.operands? num id = some locals) : id < t.entries.size := by
  obtain ⟨slots, hslots, -⟩ := operands?_eq_some.mp h
  exact (Array.getElem?_eq_some_iff.mp (slots_eq_ok.mp hslots)).1

theorem operands?_write (h : t.operands? num id = some locals) (v : Value p) :
    (t.write id j v).operands? num id = some (locals.setIfInBounds j (v.operand? num)) := by
  obtain ⟨slots, hslots, rfl⟩ := operands?_eq_some.mp h
  refine operands?_eq_some.mpr ⟨_, slots_write hslots, ?_⟩
  exact Array.map_setIfInBounds

theorem operands?_write_ne {id' : ℕ} (hne : id' ≠ id) (v : Value p) :
    (t.write id j v).operands? num id' = t.operands? num id' := by
  unfold operands? write
  rw [Array.getElem?_modify, if_neg hne.symm]

theorem operands?_set_ne {id' : ℕ} (hne : id' ≠ id) (slots? : Option (Slots p)) (free : List ℕ) :
    operands? num ⟨t.entries.setIfInBounds id slots?, free⟩ id' = t.operands? num id' := by
  unfold operands?
  rw [Array.getElem?_setIfInBounds, if_neg hne.symm]

theorem operands?_set (hid : id < t.entries.size) (n : ℕ) (free : List ℕ) :
    operands? num ⟨t.entries.setIfInBounds id (some (Array.replicate n .invalid)), free⟩ id =
      some (Array.replicate n none) := by
  unfold operands?
  rw [Array.getElem?_setIfInBounds, if_pos rfl, if_pos hid]
  simp [Value.operand?, Value.type?]

end LocalsTable

/-! ## Stores -/

/-- **A store stands for a configuration**: its stack stands for the operands, and the locals of
given identifiers for those of given calls, which are apart from each other and from all identifiers
that can be used again. -/
structure Store.Tracks (num : Value p → Scalar p) (es : List (ℕ × Call p))
    (calls : BoundedStack (Call p)) (s : Store (System p) p) (c : Configuration p) : Prop where
  stack : s.stack.items.map (·.operand? num) = c.stack.items.map some
  room : c.stack.room = s.stack.room
  locals : ∀ e ∈ es, s.locals.operands? num e.1 = some e.2.locals
  nodup : (es.map Prod.fst ++ s.locals.free).Nodup
  free : ∀ id ∈ s.locals.free, id < s.locals.entries.size
  calls : c.calls = calls
  steps : c.steps = s.steps

section Effects

variable {num : Value p → Scalar p} {es : List (ℕ × Call p)} {calls : BoundedStack (Call p)}
  {s s' : Store (System p) p} {c : Configuration p} {id j : ℕ} {f : Function} {pc : UInt16}
  {L : Locals p} {cs : List (Call p)} {room : Option ℕ} {v : Value p} {a : Operand p}

/-- **Two computations keep in step**: they end in the same way, with results related by `V`, and `R`
goes on to hold. -/
def InStep {α α' : Type} (R : Store (System p) p → Configuration p → Prop)
    (x : EStateM Halt (Store (System p) p) α) (x' : EStateM Halt (Configuration p) α')
    (V : α → α' → Prop) : Prop :=
  Agree R x x' (fun a a' s c => V a a' ∧ R s c) fun e e' s c => e.Agrees e' ∧ R s c

theorem InStep.bind {α α' β β' : Type} {R : Store (System p) p → Configuration p → Prop}
    {x : EStateM Halt (Store (System p) p) α} {x' : EStateM Halt (Configuration p) α'}
    {V : α → α' → Prop} {k : α → EStateM Halt (Store (System p) p) β}
    {k' : α' → EStateM Halt (Configuration p) β'} {W : β → β' → Prop} (hx : InStep R x x' V)
    (hk : ∀ a a', V a a' → InStep R (k a) (k' a') W) : InStep R (x >>= k) (x' >>= k') W :=
  Agree.bind hx fun a a' s c h => hk a a' h.1 s c h.2

theorem InStep.pure {α α' : Type} {R : Store (System p) p → Configuration p → Prop}
    {V : α → α' → Prop} {a : α} {a' : α'} (h : V a a') :
    InStep R (Pure.pure a) (Pure.pure a') V :=
  fun _ _ hs => ⟨h, hs⟩

theorem InStep.exists {α α' ι : Type} {R : ι → Store (System p) p → Configuration p → Prop}
    {x : EStateM Halt (Store (System p) p) α} {x' : EStateM Halt (Configuration p) α'}
    {V : α → α' → Prop} (h : ∀ i, InStep (R i) x x' V) :
    InStep (fun s c => ∃ i, R i s c) x x' V := by
  rintro s c ⟨i, hs⟩
  obtain ⟨a, t, a', t', hx, hx', ha, ht⟩ | ⟨e, t, e', t', hx, hx', he, ht⟩ := (h i s c hs).split
  · rw [hx, hx']
    exact ⟨ha, i, ht⟩
  · rw [hx, hx']
    exact ⟨he, i, ht⟩

theorem tracks_push (hv : v.operand? num = some a) :
    InStep (Store.Tracks num es calls) (Store.push v) (Plain.push a) fun _ _ => True := by
  rintro ⟨ledger, ⟨items, room⟩, locals, conditions, steps⟩ ⟨⟨as, room'⟩, calls', steps'⟩ h
  obtain ⟨hstack, hroom, hl, hn, hf, hc, hs⟩ := h
  dsimp only at hroom hstack
  subst hroom
  have hstack' : (v :: items).map (·.operand? num) = (a :: as).map some := by
    rw [List.map_cons, List.map_cons, hv, hstack]
  match room' with
  | none => exact ⟨trivial, hstack', rfl, hl, hn, hf, hc, hs⟩
  | some 0 => exact ⟨rfl, hstack, rfl, hl, hn, hf, hc, hs⟩
  | some (n + 1) => exact ⟨trivial, hstack', rfl, hl, hn, hf, hc, hs⟩

theorem tracks_pop :
    InStep (Store.Tracks num es calls) Store.pop Plain.pop fun v a => v.operand? num = some a := by
  rintro ⟨ledger, ⟨items, room⟩, locals, conditions, steps⟩ ⟨⟨as, room'⟩, calls', steps'⟩ h
  obtain ⟨hstack, hroom, hl, hn, hf, hc, hs⟩ := h
  dsimp only at hroom hstack
  subst hroom
  cases items with
  | nil =>
    obtain rfl : as = [] := by simpa using hstack.symm
    exact ⟨rfl, rfl, rfl, hl, hn, hf, hc, hs⟩
  | cons v items =>
    cases as with
    | nil => cases hstack
    | cons a as =>
      simp only [List.map_cons, List.cons.injEq] at hstack
      exact ⟨hstack.1, hstack.2, rfl, hl, hn, hf, hc, hs⟩

theorem Store.Tracks.congr (h : s.Tracks num es calls c) (hstack : s'.stack = s.stack)
    (hlocals : s'.locals = s.locals) (hsteps : s'.steps = s.steps) : s'.Tracks num es calls c := by
  obtain ⟨hs, hr, hl, hn, hf, hc, ht⟩ := h
  exact ⟨hstack ▸ hs, hstack ▸ hr, hlocals ▸ hl, hlocals ▸ hn, hlocals ▸ hf, hc, hsteps ▸ ht⟩

theorem Store.Tracks.write (h : s.Tracks num ((id, ⟨f, pc, L⟩) :: es) calls c) (j : ℕ) (v : Value p) :
    Store.Tracks num ((id, ⟨f, pc, L.setIfInBounds j (v.operand? num)⟩) :: es) calls
      { s with locals := s.locals.write id j v } c := by
  obtain ⟨hstack, hroom, hl, hn, hf, hc, hs⟩ := h
  refine ⟨hstack, hroom, ?_, hn, ?_, hc, hs⟩
  · refine List.forall_mem_cons.mpr ⟨?_, fun e he => ?_⟩
    · exact LocalsTable.operands?_write (hl _ List.mem_cons_self) v
    · have hne : e.1 ≠ id := by
        intro heq
        rw [List.map_cons, List.cons_append, List.nodup_cons] at hn
        exact hn.1 (List.mem_append_left _ (List.mem_map.mpr ⟨e, he, heq⟩))
      exact (LocalsTable.operands?_write_ne hne v).trans (hl e (List.mem_cons_of_mem _ he))
  · intro id' hid'
    have hsize : (s.locals.write id j v).entries.size = s.locals.entries.size := Array.size_modify
    dsimp only
    rw [hsize]
    exact hf id' hid'

theorem Store.Tracks.storeLocal_eq (h : s.Tracks num ((id, ⟨f, pc, L⟩) :: es) calls c)
    (hj : j < L.size) (v : Value p) :
    Store.storeLocal id j v s = .ok () { s with locals := s.locals.write id j v } := by
  obtain ⟨slots, hslots, hmap⟩ := LocalsTable.operands?_eq_some.mp (h.locals _ List.mem_cons_self)
  dsimp only at hmap
  have hsize : slots.size = L.size := by rw [← hmap, Array.size_map]
  unfold Store.storeLocal
  rw [LocalsTable.store_eq_ok hslots (by omega)]

/-- **New locals** get an identifier that no function uses. -/
theorem Store.Tracks.alloc (h : s.Tracks num es calls c) (f : Function) (n : ℕ) :
    Store.Tracks num (((s.locals.alloc n).1, ⟨f, 0, Array.replicate n none⟩) :: es) calls
      { s with locals := (s.locals.alloc n).2 } c := by
  obtain ⟨hstack, hroom, hl, hn, hf, hc, hs⟩ := h
  have hlive : ∀ e ∈ es, e.1 < s.locals.entries.size := fun e he =>
    LocalsTable.lt_size_of_operands? (hl e he)
  unfold LocalsTable.alloc
  cases hfree : s.locals.free with
  | nil =>
    refine ⟨hstack, hroom, ?_, ?_, (fun _ hid => nomatch hid), hc, hs⟩
    · refine List.forall_mem_cons.mpr ⟨?_, fun e he => ?_⟩
      · simp [LocalsTable.operands?, Value.operand?, Value.type?]
      · have hne : e.1 ≠ s.locals.entries.size := (hlive e he).ne
        rw [← hl e he]
        simp only [LocalsTable.operands?, Array.getElem?_push, if_neg hne]
    · rw [hfree, List.append_nil] at hn
      rw [List.append_nil, List.map_cons, List.nodup_cons]
      refine ⟨fun hmem => ?_, hn⟩
      obtain ⟨e, he, heq⟩ := List.mem_map.mp hmem
      exact absurd heq (hlive e he).ne
  | cons id rest =>
    rw [hfree] at hn hf
    have hid : id ∉ es.map Prod.fst ++ rest := by
      have hn' := List.nodup_middle.mp hn
      exact (List.nodup_cons.mp hn').1
    refine ⟨hstack, hroom, ?_, ?_, ?_, hc, hs⟩
    · refine List.forall_mem_cons.mpr ⟨?_, fun e he => ?_⟩
      · exact LocalsTable.operands?_set (hf id List.mem_cons_self) n rest
      · have hne : e.1 ≠ id := by
          intro heq
          exact hid (List.mem_append_left _ (List.mem_map.mpr ⟨e, he, heq⟩))
        exact (LocalsTable.operands?_set_ne hne _ rest).trans (hl e he)
    · rw [List.map_cons, List.cons_append]
      exact List.nodup_middle.mp hn
    · intro id' hid'
      dsimp only
      rw [Array.size_setIfInBounds]
      exact hf id' (List.mem_cons_of_mem _ hid')

/-- **The locals of a function that returns** can be used again. -/
theorem Store.Tracks.release {call : Call p} (h : s.Tracks num ((id, call) :: es) calls c) :
    ∃ s', Store.releaseLocals id s = .ok () s' ∧ s'.Tracks num es calls c := by
  obtain ⟨hstack, hroom, hl, hn, hf, hc, hs⟩ := h
  have hlt := LocalsTable.lt_size_of_operands? (hl _ List.mem_cons_self)
  have hknows : s.locals.knows id = true := decide_eq_true hlt
  unfold Store.releaseLocals LocalsTable.release
  rw [if_pos hknows]
  rw [List.map_cons, List.cons_append] at hn
  refine ⟨_, rfl, hstack, hroom, fun e he => ?_, List.nodup_middle.mpr hn, ?_, hc, hs⟩
  · have hne : e.1 ≠ id := by
      intro heq
      exact (List.nodup_cons.mp hn).1 (List.mem_append_left _ (List.mem_map.mpr ⟨e, he, heq⟩))
    exact (LocalsTable.operands?_set_ne hne _ _).trans (hl e (List.mem_cons_of_mem _ he))
  · intro id' hid'
    dsimp only
    rw [Array.size_setIfInBounds]
    rcases List.mem_cons.mp hid' with rfl | hid'
    · exact hlt
    · exact hf id' hid'

/-! ## Locals of the topmost function -/

/-- A store stands for a configuration whose topmost call is at a place of a function, with locals
that belong to an identifier. -/
def Store.TracksTop (num : Value p → Scalar p) (es : List (ℕ × Call p)) (cs : List (Call p))
    (room : Option ℕ) (id : ℕ) (f : Function) (pc : UInt16) (s : Store (System p) p)
    (c : Configuration p) : Prop :=
  ∃ L, s.Tracks num ((id, ⟨f, pc, L⟩) :: es) ⟨⟨f, pc, L⟩ :: cs, room⟩ c

theorem LocalsTable.read_cases {t : LocalsTable p} (h : t.operands? num id = some L)
    (status : Status) (j : ℕ) :
    (∃ message, t.read status id j = .error (.failure (.because .outOfBounds message)) ∧
        L[j]? = none) ∨
      (∃ message, t.read status id j = .error (.failure (.because status message)) ∧
        L[j]? = some none) ∨
      ∃ v a, t.read status id j = .ok v ∧ v.operand? num = some a ∧ L[j]? = some (some a) := by
  obtain ⟨slots, hslots, rfl⟩ := LocalsTable.operands?_eq_some.mp h
  rw [Array.getElem?_map]
  unfold LocalsTable.read
  rw [hslots]
  dsimp only
  cases slots[j]? with
  | none => exact .inl ⟨_, rfl, rfl⟩
  | some v =>
    cases v with
    | invalid => exact .inr (.inl ⟨_, rfl, rfl⟩)
    | constant x type w => exact .inr (.inr ⟨.constant x type w, _, rfl, rfl, rfl⟩)
    | wired w x type => exact .inr (.inr ⟨.wired w x type, _, rfl, rfl, rfl⟩)

theorem tracks_copyLocal (j : ℕ) :
    InStep (Store.TracksTop num es cs room id f pc) (Store.copyLocal id j)
      (Plain.onLocals (Plain.copyLocal j))
      fun v a => v.operand? num = some a := by
  rintro s ⟨stack, calls, steps⟩ ⟨L, h⟩
  obtain rfl : calls = _ := h.calls
  unfold Store.copyLocal LocalsTable.copy
  simp only [Plain.onLocals, BoundedStack.top?, List.head?_cons, Plain.copyLocal]
  rcases LocalsTable.read_cases (h.locals _ List.mem_cons_self) .copyLocalError j with
    ⟨_, hr, hL⟩ | ⟨_, hr, hL⟩ | ⟨v, a, hr, hv, hL⟩
  · rw [hr, hL]
    exact ⟨rfl, L, h⟩
  · rw [hr, hL]
    exact ⟨rfl, L, h⟩
  · rw [hr, hL]
    exact ⟨hv, L, h⟩

theorem tracks_moveLocal (j : ℕ) :
    InStep (Store.TracksTop num es cs room id f pc) (Store.moveLocal id j)
      (Plain.onLocals (Plain.moveLocal j))
      fun v a => v.operand? num = some a := by
  rintro s ⟨stack, calls, steps⟩ ⟨L, h⟩
  obtain rfl : calls = _ := h.calls
  unfold Store.moveLocal LocalsTable.move
  simp only [Plain.onLocals, BoundedStack.top?, List.head?_cons, Plain.moveLocal]
  rcases LocalsTable.read_cases (h.locals _ List.mem_cons_self) .moveLocalError j with
    ⟨_, hr, hL⟩ | ⟨_, hr, hL⟩ | ⟨v, a, hr, hv, hL⟩
  · rw [hr, hL]
    exact ⟨rfl, L, h⟩
  · rw [hr, hL]
    exact ⟨rfl, L, h⟩
  · rw [hr, hL]
    have hw := h.write j .invalid
    exact ⟨hv, _, hw.stack, hw.room, hw.locals, hw.nodup, hw.free, rfl, hw.steps⟩

theorem tracks_storeLocal (j : ℕ) (hv : v.operand? num = some a) :
    InStep (Store.TracksTop num es cs room id f pc) (Store.storeLocal id j v)
      (Plain.onLocals (Plain.storeLocal j a)) fun _ _ => True := by
  rintro s ⟨stack, calls, steps⟩ ⟨L, h⟩
  obtain rfl : calls = _ := h.calls
  simp only [Plain.onLocals, BoundedStack.top?, List.head?_cons, Plain.storeLocal]
  by_cases hj : j < L.size
  · have ht := h.write j v
    rw [h.storeLocal_eq hj v, if_pos hj]
    rw [hv] at ht
    exact ⟨trivial, _, ht.stack, ht.room, ht.locals, ht.nodup, ht.free, rfl, ht.steps⟩
  · obtain ⟨slots, hslots, hmap⟩ := LocalsTable.operands?_eq_some.mp (h.locals _ List.mem_cons_self)
    dsimp only at hslots hmap
    have hsize : slots.size = L.size := by rw [← hmap, Array.size_map]
    unfold Store.storeLocal LocalsTable.store
    rw [hslots, if_neg hj]
    simp only [hsize, if_neg hj]
    exact ⟨rfl, L, h⟩

/-! ## Parameters and results -/

/-- **Parameters go into their slots** in the order in which they were pushed. -/
theorem tracks_popParams (f : Function) (n k : ℕ) (as : List (Operand p)) :
    Agree (Store.Tracks num ((id, ⟨f, 0, (List.replicate n none ++
        (as.map some ++ List.replicate k none)).toArray⟩) :: es) calls)
      (State.popParams id n) (Plain.popMany n as)
      (fun _ bs s c => bs.length = n + as.length ∧ s.Tracks num
        ((id, ⟨f, 0, (bs.map some ++ List.replicate k none).toArray⟩) :: es) calls c)
      fun e e' s c => e.Agrees e' ∧ ∃ call, s.Tracks num ((id, call) :: es) calls c := by
  induction n generalizing as with
  | zero =>
    intro s c h
    exact ⟨(Nat.zero_add _).symm, h⟩
  | succ n ih =>
    refine Agree.bind (tracks_pop.weaken fun e e' s c h => ⟨h.1, _, h.2⟩) fun v a => ?_
    rintro s c ⟨hv, h⟩
    have hs' := h.storeLocal_eq (j := n) (by simp; omega) v
    have ht := h.write n v
    have hset : ((List.replicate (n + 1) none ++
        (as.map some ++ List.replicate k none)).toArray).setIfInBounds n (v.operand? num) =
        (List.replicate n none ++ ((a :: as).map some ++ List.replicate k none)).toArray := by
      rw [hv, List.replicate_succ', List.append_assoc, List.setIfInBounds_toArray,
        List.set_append_right _ _ (by simp)]
      simp
    rw [hset] at ht
    have hrest := ih (a :: as) _ c ht
    simp only [bind, EStateM.bind, hs']
    obtain ⟨u, t, bs, t', hx, hx', hlen, hb⟩ | ⟨e, t, e', t', hx, hx', he⟩ := hrest.split
    · rw [hx, hx']
      exact ⟨by rw [hlen, List.length_cons]; omega, hb⟩
    · rw [hx, hx']
      exact he

/-- **Results are popped** in the order in which they were pushed. -/
theorem tracks_popResults (n : ℕ) {vs : List (Value p)} {as : List (Operand p)}
    (h : vs.map (·.operand? num) = as.map some) :
    InStep (Store.Tracks num es calls) (State.popResults n vs) (Plain.popMany n as)
      fun vs as => vs.map (·.operand? num) = as.map some := by
  induction n generalizing vs as with
  | zero => exact fun s c hs => ⟨h, hs⟩
  | succ n ih =>
    exact tracks_pop.bind fun v a hv => ih (by rw [List.map_cons, List.map_cons, hv, h])

end Effects

/-! ## Instructions -/

section Instructions

variable [Modulus p] {num : Value p → Scalar p} {es : List (ℕ × Call p)} {cs : List (Call p)}
  {room : Option ℕ} {id : ℕ} {f f' : Function} {pc : UInt16} {s : Store (System p) p}
  {c : Configuration p}

/-- A gate that is applied to the store is faithful. -/
def Store.Faithful (num : Value p → Scalar p) (label : String) (opcode : Bytecode.Opcode) (g : Gate)
    (s : Store (System p) p) : Prop :=
  ∀ op rest, op.gate = g → s.Applies op label rest (finalState (Store.binary label opcode g s)) →
    op.Faithful num

theorem tracks_load (hnum : ∀ x type, num (.constant x type none) = x) (label : String)
    (type : ValueType) (n : ℕ) :
    InStep (Store.TracksTop num es cs room id f pc) (Store.load label type n)
      (Plain.push ⟨.ofNat n, type⟩) fun _ _ => True := by
  have hv : Value.operand? num (.constant (.ofNat n) type none) = some ⟨.ofNat n, type⟩ := by
    rw [Value.operand?, hnum]
    rfl
  refine InStep.exists fun L s c h => ?_
  exact tracks_push hv _ c (h.congr rfl rfl rfl)

/-- **A gate** computes the same number on both sides. -/
theorem tracks_binary (label : String) (opcode : Bytecode.Opcode) (g : Gate) (hg : s.Grounded)
    (hf : s.Faithful num label opcode g) (h : s.TracksTop num es cs room id f pc c) :
    SameEnd (fun _ _ => Store.TracksTop num es cs room id f pc)
      (fun e e' s c => e.Agrees e' ∧ s.TracksTop num es cs room id f pc c)
      (Store.binary label opcode g s) (Plain.binary g.result c) := by
  obtain ⟨⟨sys, journal⟩, ⟨items, eroom⟩, locals, conditions, steps⟩ := s
  obtain ⟨⟨as, eroom'⟩, calls', steps'⟩ := c
  obtain ⟨L, hstack, hroom, hl, hn, hfree, hc, hs⟩ := h
  dsimp only at hstack hroom
  subst hroom
  obtain _ | ⟨right, items⟩ := items
  · obtain rfl : as = [] := by simpa using hstack.symm
    exact ⟨rfl, L, hstack, rfl, hl, hn, hfree, hc, hs⟩
  obtain _ | ⟨b, as⟩ := as
  · cases hstack
  rw [List.map_cons, List.map_cons, List.cons.injEq] at hstack
  obtain ⟨hright, hstack⟩ := hstack
  obtain _ | ⟨left, rest⟩ := items
  · obtain rfl : as = [] := by simpa using hstack.symm
    exact ⟨rfl, L, rfl, rfl, hl, hn, hfree, hc, hs⟩
  obtain _ | ⟨a, as⟩ := as
  · cases hstack
  rw [List.map_cons, List.map_cons, List.cons.injEq] at hstack
  obtain ⟨hleft, hrest⟩ := hstack
  have hl' := Value.isSome_combination? hleft
  have hr' := Value.isSome_combination? hright
  let op : Operation p := ⟨g, left, right, UInt32.ofNat sys.wires.size⟩
  obtain ⟨journal', happ⟩ := Operation.apply_eq op label conditions.top? hl' hr' rfl
    fun t ht => hg.hasWire_constraint (.inl (List.mem_cons_of_mem _ List.mem_cons_self))
      (.inl List.mem_cons_self) rfl ht
  have hbinary : Store.binary label opcode g
      ⟨⟨sys, journal⟩, ⟨right :: left :: rest, eroom'⟩, locals, conditions, steps⟩ =
      .ok () ⟨⟨(sys.addWire label op.value?).addConstraint (op.constraint label), journal'⟩,
        ⟨op.outcome :: rest, eroom'.map (· + 1)⟩, locals, conditions, steps⟩ := by
    rw [Store.binary_eq, happ]
  have hfaithful : op.Faithful num := by
    refine hf op rest rfl ?_
    rw [hbinary]
    exact ⟨rfl, hl', hr', rfl, rfl, rfl, rfl⟩
  have hout : op.outcome.operand? num = _ := Operation.operand?_outcome hleft hright hfaithful
  rw [hbinary, Plain.binary_eq]
  refine ⟨L, ?_, rfl, hl, hn, hfree, hc, hs⟩
  simp only [List.map_cons, hout, hrest]
  rfl

/-- **An instruction without jumps does the same on both sides.** -/
theorem tracks_perform (hnum : ∀ x type, num (.constant x type none) = x) {i : Instruction}
    (hi : i.opcode.isBranch = false) {b : Block} (hid : b.localsId = id) (mode : Mode) (step : ℕ)
    (hg : s.Grounded)
    (hf : ∀ g, Gate.ofOpcode? i.opcode = some g → s.Faithful num s!"step#{step}" i.opcode g)
    (h : s.TracksTop num es cs room id f pc c) :
    SameEnd (fun t flow s c => (t = b.advance ∧ flow = .next) ∧ s.TracksTop num es cs room id f pc c)
      (fun e e' s c => e.Agrees e' ∧ s.TracksTop num es cs room id f pc c)
      (b.perform mode f' i step s) (Plain.perform i c) := by
  have done {x : EStateM Halt (Store (System p) p) Unit} {x' : EStateM Halt (Configuration p) Unit}
      (hx : InStep (Store.TracksTop num es cs room id f pc) x x' fun _ _ => True) :
      InStep (Store.TracksTop num es cs room id f pc) (do x; return (b.advance : Transition p))
        (do x'; return Flow.next) fun t flow => t = b.advance ∧ flow = .next :=
    hx.bind fun _ _ _ => .pure ⟨rfl, rfl⟩
  have gate {g : Gate} (hop : Gate.ofOpcode? i.opcode = some g) :
      SameEnd (fun t flow s c =>
          (t = b.advance ∧ flow = .next) ∧ s.TracksTop num es cs room id f pc c)
        (fun e e' s c => e.Agrees e' ∧ s.TracksTop num es cs room id f pc c)
        ((do
          Store.binary s!"step#{step}" i.opcode g
          return (b.advance : Transition p)) s)
        ((do Plain.binary g.result; return Flow.next) c) := by
    simp only [bind, EStateM.bind]
    obtain ⟨a, t, a', t', hx, hx', ht⟩ | ⟨e, t, e', t', hx, hx', ht⟩ :=
      (tracks_binary _ _ g hg (hf g hop) h).split
    · rw [hx, hx']
      exact ⟨⟨rfl, rfl⟩, ht⟩
    · rw [hx, hx']
      exact ht
  have push {v : Value p} {a : Operand p} (hv : v.operand? num = some a) :
      InStep (Store.TracksTop num es cs room id f pc) (Store.push v) (Plain.push a)
        fun _ _ => True :=
    .exists fun _ => tracks_push hv
  have pop : InStep (Store.TracksTop num es cs room id f pc) Store.pop Plain.pop
      fun v a => v.operand? num = some a :=
    .exists fun _ => tracks_pop
  unfold Block.perform Plain.perform
  cases hop : i.opcode with
  | ldU8 => exact done (tracks_load hnum _ _ _) s c h
  | ldU64 => exact done (tracks_load hnum _ _ _) s c h
  | ldU128 => exact done (tracks_load hnum _ _ _) s c h
  | ldTrue => exact done (tracks_load hnum _ _ _) s c h
  | ldFalse => exact done (tracks_load hnum _ _ _) s c h
  | pop => exact (pop.bind fun _ _ _ => .pure ⟨rfl, rfl⟩) s c h
  | add => simpa only [hop, Gate.result_add] using gate (g := .add) (by rw [hop]; rfl)
  | sub => simpa only [hop, Gate.result_sub] using gate (g := .sub) (by rw [hop]; rfl)
  | mul => simpa only [hop, Gate.result_mul] using gate (g := .mul) (by rw [hop]; rfl)
  | eq => simpa only [hop, Gate.result_eq] using gate (g := .eq) (by rw [hop]; rfl)
  | copyLoc =>
    rw [hid, Plain.reference_eq_index]
    exact ((tracks_copyLocal _).bind fun v a hv => done (push hv)) s c h
  | moveLoc =>
    rw [hid, Plain.reference_eq_index]
    exact ((tracks_moveLocal _).bind fun v a hv => done (push hv)) s c h
  | stLoc =>
    rw [hid, Plain.reference_eq_index]
    exact (pop.bind fun v a hv => done (tracks_storeLocal _ hv)) s c h
  | undefined n => exact ⟨rfl, h⟩
  | _ => rw [hop] at hi; cases hi

end Instructions

end Machine

end StackCircuit
