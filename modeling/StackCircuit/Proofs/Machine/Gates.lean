import StackCircuit.Proofs.Circuit.Satisfaction
import StackCircuit.Proofs.Machine.Values

/-!
# What the machine records

Into a constraint system the machine writes in two ways: it allocates the wires of parameters, and
it applies gates. Whatever these two and the rearranging of values keep, every execution keeps.

* `Operation`: an application of a gate, with its operands and the wire of its result.
* `Store.Applies`: what an application does to the store.
* `Store.Grounded`: all wires that values are bound to have been allocated, so that no constraint is
  refused.
* **`State.step_cases`**: a step rearranges the store or applies a gate.
* **`Invariant.run`**: what is kept by the allocation of inputs, by gates and by rearranging is kept
  by every run, however it ends.
-/

namespace StackCircuit

open Circuit (Wire Combination Constraint System Recorder)

variable {p : ℕ} [Modulus p]

/-- An application of a gate. -/
structure Operation (p : ℕ) where
  gate : Gate
  left : Value p
  right : Value p
  result : Wire

namespace Operation

/-- The value of the result, if both operands are known. -/
def value? (op : Operation p) : Option (Scalar p) := op.gate.result? op.left op.right

/-- The result. -/
def outcome (op : Operation p) : Value p :=
  .wired op.result op.value? (op.gate.resultType op.left)

/-- The sides of the constraint of an application. -/
def sides (op : Operation p) : Combination p × Combination p × Combination p :=
  op.gate.sides (op.left.combination?.getD []) (op.right.combination?.getD []) (.single op.result)

/-- The constraint of an application under a label. -/
def constraint (op : Operation p) (label : String) : Constraint p :=
  ⟨label, op.sides.1, op.sides.2.1, op.sides.2.2⟩

end Operation

/-! ## Wires of constraints -/

theorem Value.wire_of_mem_combination {v : Value p} {t : Circuit.Term p}
    (ht : t ∈ v.combination?.getD []) : t.wire = Wire.one ∨ v.wire? = some t.wire := by
  match v with
  | .invalid => cases ht
  | .constant x type (some w) => rw [List.mem_singleton.mp ht]; exact .inr rfl
  | .constant x type none => rw [List.mem_singleton.mp ht]; exact .inl rfl
  | .wired w x type => rw [List.mem_singleton.mp ht]; exact .inr rfl

theorem Gate.forall_sides {P : Wire → Prop} {a b c : Combination p} (h1 : P Wire.one)
    (ha : ∀ t ∈ a, P t.wire) (hb : ∀ t ∈ b, P t.wire) (hc : ∀ t ∈ c, P t.wire) (g : Gate) :
    ∀ t ∈ (g.sides a b c).1 ++ ((g.sides a b c).2.1 ++ (g.sides a b c).2.2), P t.wire := by
  have hminus : ∀ t ∈ a.minus b, P t.wire := by
    intro t ht
    rcases List.mem_append.mp ht with ht | ht
    · exact ha t ht
    · obtain ⟨u, hu, rfl⟩ := List.mem_map.mp ht
      exact hb u hu
  have hone : ∀ t ∈ Combination.constant (1 : Scalar p), P t.wire := by
    intro t ht
    rw [List.mem_singleton.mp ht]
    exact h1
  intro t ht
  simp only [List.mem_append] at ht
  cases g with
  | add =>
    rcases ht with ht | ht | ht
    · rcases List.mem_append.mp ht with ht | ht
      · exact ha t ht
      · exact hb t ht
    · exact hone t ht
    · exact hc t ht
  | sub =>
    rcases ht with ht | ht | ht
    · exact hminus t ht
    · exact hone t ht
    · exact hc t ht
  | mul =>
    rcases ht with ht | ht | ht
    · exact ha t ht
    · exact hb t ht
    · exact hc t ht
  | eq =>
    rcases ht with ht | ht | ht
    · exact hminus t ht
    · exact hc t ht
    · cases ht

/-- **The wires of the constraint of an application** are the one that carries one, those of the
operands and that of the result. -/
theorem Operation.wire_cases {op : Operation p} {label : String} {t : Circuit.Term p}
    (ht : t ∈ (op.constraint label).sides.flatten) :
    t.wire = Wire.one ∨ op.left.wire? = some t.wire ∨ op.right.wire? = some t.wire ∨
      t.wire = op.result := by
  have ht' : t ∈ op.sides.1 ++ (op.sides.2.1 ++ op.sides.2.2) := by
    simpa [Constraint.sides, constraint] using ht
  refine Gate.forall_sides (P := fun w => w = Wire.one ∨ op.left.wire? = some w ∨
    op.right.wire? = some w ∨ w = op.result) (a := op.left.combination?.getD [])
    (b := op.right.combination?.getD []) (c := .single op.result) (.inl rfl) (fun u hu => ?_)
    (fun u hu => ?_) (fun u hu => ?_) op.gate t ht'
  · rcases Value.wire_of_mem_combination hu with h | h
    · exact .inl h
    · exact .inr (.inl h)
  · rcases Value.wire_of_mem_combination hu with h | h
    · exact .inl h
    · exact .inr (.inr (.inl h))
  · rw [List.mem_singleton.mp hu]
    exact .inr (.inr (.inr rfl))

theorem Gate.synthesise_eq {sys : System p} (journal : Array (Event p)) {g : Gate} (label : String)
    {a b x y z : Combination p} (result : Option (Scalar p)) (type : ValueType)
    (hg : g.sides a b (.single (UInt32.ofNat sys.wires.size)) = (x, y, z))
    (hw : ∀ t ∈ x ++ (y ++ z), t.wire.toNat < sys.wires.size + 1) :
    g.synthesise label a b result type ⟨sys, journal⟩ =
      .ok (.wired (UInt32.ofNat sys.wires.size) result type)
        ⟨(sys.addWire label result).addConstraint ⟨label, x, y, z⟩, journal⟩ := by
  have hk : System.enforce label x y z (sys.addWire label result) =
      .ok () ((sys.addWire label result).addConstraint ⟨label, x, y, z⟩) := by
    refine System.enforce_eq_ok fun t ht => decide_eq_true ?_
    rw [System.addWire, Array.size_push]
    exact hw t ht
  simp only [synthesise, bind, EStateM.bind, Ledger.record, Recorder.alloc, System.alloc_ofOption,
    Recorder.enforce, hg, hk]
  rfl

theorem Operation.apply_eq {sys : System p} {journal : Array (Event p)} (op : Operation p)
    (label : String) (guard : Option (Guard p)) (hl : op.left.combination?.isSome)
    (hr : op.right.combination?.isSome) (hop : op.result = UInt32.ofNat sys.wires.size)
    (hw : ∀ t ∈ (op.constraint label).sides.flatten, t.wire.toNat < sys.wires.size + 1) :
    ∃ journal', op.gate.apply label op.left op.right guard ⟨sys, journal⟩ = .ok op.outcome
      ⟨(sys.addWire label op.value?).addConstraint (op.constraint label), journal'⟩ := by
  obtain ⟨a, ha⟩ := Option.isSome_iff_exists.mp hl
  obtain ⟨b, hb⟩ := Option.isSome_iff_exists.mp hr
  have hsides : op.gate.sides a b (.single (UInt32.ofNat sys.wires.size)) =
      (op.sides.1, op.sides.2.1, op.sides.2.2) := by
    rw [sides, ha, hb, hop]
    rfl
  have hmem : ∀ t ∈ op.sides.1 ++ (op.sides.2.1 ++ op.sides.2.2),
      t.wire.toNat < sys.wires.size + 1 := by
    intro t ht
    refine hw t ?_
    simpa [Constraint.sides, constraint] using ht
  have hsynth (journal' : Array (Event p)) :=
    Gate.synthesise_eq journal' label op.value? (op.gate.resultType op.left) hsides hmem
  rw [outcome, hop]
  cases guard with
  | none =>
    refine ⟨journal, ?_⟩
    simp only [Gate.apply, ha, hb]
    exact hsynth journal
  | some guard =>
    refine ⟨journal.push (.guarded label guard.negated), ?_⟩
    simp only [Gate.apply, ha, hb]
    exact hsynth _

namespace Machine

open Bytecode (Function Instruction)

namespace Store

/-- The store with another record. -/
def withRecord (s : Store (System p) p) (sys : System p) : Store (System p) p :=
  { s with ledger := ⟨sys, s.ledger.journal⟩ }

/-- The store with a new wire, which the topmost value is bound to. -/
def withWire (s : Store (System p) p) (label : String) (x : Option (Scalar p)) (type : ValueType) :
    Store (System p) p :=
  { s.withRecord (s.ledger.recorder.addWire label x) with
    stack := ⟨.wired (UInt32.ofNat s.ledger.recorder.wires.size) x type :: s.stack.items,
      s.stack.room⟩ }

/-- **What an application of a gate does**: the operands are popped, the wire and the constraint are
recorded, and the result is pushed on the rest of the stack. -/
structure Applies (s : Store (System p) p) (op : Operation p) (label : String)
    (rest : List (Value p)) (s' : Store (System p) p) : Prop where
  operands : s.stack.items = op.right :: op.left :: rest
  left : op.left.combination?.isSome
  right : op.right.combination?.isSome
  -- The wire is a new one.
  result : op.result = UInt32.ofNat s.ledger.recorder.wires.size
  recorder : s'.ledger.recorder =
    (s.ledger.recorder.addWire label op.value?).addConstraint (op.constraint label)
  stack : s'.stack.items = op.outcome :: rest
  locals : s'.locals = s.locals

/-- All wires that values are bound to have been allocated. -/
def Grounded (s : Store (System p) p) : Prop :=
  ∀ v w, s.Holds v → v.wire? = some w → w.toNat < s.ledger.recorder.wires.size

/-! ## Applying a gate -/

variable {s s' : Store (System p) p}

theorem Grounded.hasWire_constraint (hs : s.Grounded) {op : Operation p} {label : String}
    (hl : s.Holds op.left) (hr : s.Holds op.right)
    (hw : op.result = UInt32.ofNat s.ledger.recorder.wires.size) {t : Circuit.Term p}
    (ht : t ∈ (op.constraint label).sides.flatten) :
    t.wire.toNat < s.ledger.recorder.wires.size + 1 := by
  rcases Operation.wire_cases ht with h | h | h | h
  · rw [h]
    exact Nat.succ_pos _
  · exact Nat.lt_succ_of_lt (hs _ _ hl h)
  · exact Nat.lt_succ_of_lt (hs _ _ hr h)
  · rw [h, hw, UInt32.toNat_ofNat']
    exact Nat.lt_succ_of_le (Nat.mod_le _ _)

theorem binary_eq {ledger : Ledger (System p) p} {left right : Value p} {rest : List (Value p)}
    {room : Option ℕ} {locals : LocalsTable p} {conditions : BoundedStack (Guard p)} {steps : ℕ}
    (label : String) (opcode : Bytecode.Opcode) (g : Gate) :
    binary label opcode g ⟨ledger, ⟨right :: left :: rest, room⟩, locals, conditions, steps⟩ =
      match g.apply label left right conditions.top? ledger with
      | .ok v ledger' =>
        .ok () ⟨ledger', ⟨v :: rest, room.map (· + 1)⟩, locals, conditions, steps⟩
      | .error e ledger' =>
        .error (.failure (.caused ⟨.synthesisError, "", none⟩ (.gate e)))
          ⟨⟨ledger'.recorder, ledger'.journal.push (.gateFailed label opcode e)⟩,
            ⟨rest, (room.map (· + 1)).map (· + 1)⟩, locals, conditions, steps⟩ := by
  simp only [binary, bind, EStateM.bind, pop, BoundedStack.pop, get_apply, record]
  cases g.apply label left right conditions.top? ledger with
  | error e ledger' => rfl
  | ok v ledger' => cases room <;> rfl

/-- **What a gate does**: it is applied, or it fails, and then the operands are gone and nothing is
recorded. -/
theorem binary_spec (hs : s.Grounded) (label : String) (opcode : Bytecode.Opcode) (g : Gate) :
    match binary label opcode g s with
    | .ok _ s' => ∃ op rest, op.gate = g ∧ s.Applies op label rest s'
    | .error _ s' => s.Rearranges s' ∧
        ∀ right left rest, s.stack.items = right :: left :: rest → s'.stack.items = rest := by
  obtain ⟨⟨sys, journal⟩, ⟨items, room⟩, locals, conditions, steps⟩ := s
  match items with
  | [] => exact ⟨rearranges_refl _, fun _ _ _ h => nomatch h⟩
  | [v] =>
    exact ⟨(rearranges_refl _).of_stack (fun _ hu => nomatch hu), fun _ _ _ h => nomatch h⟩
  | right :: left :: rest =>
    have hrest := fun u (hu : u ∈ rest) => List.mem_cons_of_mem right (List.mem_cons_of_mem left hu)
    rw [binary_eq]
    by_cases hl : left.combination?.isSome
    · by_cases hr : right.combination?.isSome
      · let op : Operation p := ⟨g, left, right, UInt32.ofNat sys.wires.size⟩
        obtain ⟨journal', happ⟩ := Operation.apply_eq op label conditions.top? hl hr rfl
          fun t ht => hs.hasWire_constraint (.inl (List.mem_cons_of_mem _ List.mem_cons_self))
            (.inl List.mem_cons_self) rfl ht
        rw [happ]
        exact ⟨op, rest, rfl, rfl, hl, hr, rfl, rfl, rfl, rfl⟩
      · obtain ⟨a, ha⟩ := Option.isSome_iff_exists.mp hl
        simp only [Gate.apply, ha, Option.not_isSome_iff_eq_none.mp hr]
        exact ⟨⟨rfl, fun v hv => .inl (hv.imp (hrest v) id)⟩, fun _ _ _ h => by cases h; rfl⟩
    · simp only [Gate.apply, Option.not_isSome_iff_eq_none.mp hl]
      exact ⟨⟨rfl, fun v hv => .inl (hv.imp (hrest v) id)⟩, fun _ _ _ h => by cases h; rfl⟩

theorem binary_cases (hs : s.Grounded) (label : String) (opcode : Bytecode.Opcode) (g : Gate) :
    (s.Rearranges (finalState (binary label opcode g s)) ∧
      ∀ right left rest, s.stack.items = right :: left :: rest →
        (finalState (binary label opcode g s)).stack.items = rest) ∨
      ∃ op rest, op.gate = g ∧ s.Applies op label rest (finalState (binary label opcode g s)) := by
  have h := binary_spec hs label opcode g
  cases hx : binary label opcode g s with
  | ok u s' => rw [hx] at h; exact .inr h
  | error e s' => rw [hx] at h; exact .inl h

theorem Applies.of_core {op : Operation p} {label : String} {rest : List (Value p)}
    (h : s.Applies op label rest s') {s₁ s₂ : Store (System p) p}
    (h₁ : s₁.ledger.recorder = s.ledger.recorder ∧ s₁.stack = s.stack ∧ s₁.locals = s.locals)
    (h₂ : s₂.core = s'.core) : s₁.Applies op label rest s₂ := by
  obtain ⟨hr, hs, hl⟩ := h₁
  have hr' : s₂.ledger.recorder = s'.ledger.recorder := congrArg Core.recorder h₂
  have hs' : s₂.stack = s'.stack := congrArg Core.stack h₂
  have hl' : s₂.locals = s'.locals := congrArg Core.locals h₂
  refine ⟨?_, h.left, h.right, ?_, ?_, ?_, ?_⟩
  · rw [hs]; exact h.operands
  · rw [hr]; exact h.result
  · rw [hr, hr']; exact h.recorder
  · rw [hs']; exact h.stack
  · rw [hl, hl']; exact h.locals

theorem Applies.holds_left {op : Operation p} {label : String} {rest : List (Value p)}
    (h : s.Applies op label rest s') : s.Holds op.left :=
  .inl (h.operands ▸ List.mem_cons_of_mem _ List.mem_cons_self)

theorem Applies.holds_right {op : Operation p} {label : String} {rest : List (Value p)}
    (h : s.Applies op label rest s') : s.Holds op.right :=
  .inl (h.operands ▸ List.mem_cons_self)

/-! ## Allocated wires -/

omit [Modulus p] in
theorem Grounded.of_rearranges (hs : s.Grounded) (h : s.Rearranges s') : s'.Grounded := by
  intro v w hv hw
  rw [h.recorder]
  rcases h.values v hv with hv | hv
  · exact hs v w hv hw
  · rw [hv] at hw
    cases hw

omit [Modulus p] in
theorem holds_withWire {label : String} {x : Option (Scalar p)} {type : ValueType} {v : Value p} :
    (s.withWire label x type).Holds v ↔
      v = .wired (UInt32.ofNat s.ledger.recorder.wires.size) x type ∨ s.Holds v := by
  simp only [Holds, withWire, withRecord, List.mem_cons, or_assoc]

omit [Modulus p] in
theorem Grounded.withWire (hs : s.Grounded) (label : String) (x : Option (Scalar p))
    (type : ValueType) : (s.withWire label x type).Grounded := by
  intro v w hv hw
  rw [Store.withWire, withRecord, System.addWire, Array.size_push]
  rcases holds_withWire.mp hv with rfl | hv
  · cases hw
    rw [UInt32.toNat_ofNat']
    exact Nat.lt_succ_of_le (Nat.mod_le _ _)
  · exact Nat.lt_succ_of_lt (hs v w hv hw)

theorem Applies.rearranges {op : Operation p} {label : String} {rest : List (Value p)}
    (h : s.Applies op label rest s') :
    (s.withWire label op.value? (op.gate.resultType op.left)).Rearranges
      (s'.withRecord (s.ledger.recorder.addWire label op.value?)) := by
  refine ⟨rfl, fun v hv => .inl (holds_withWire.mpr ?_)⟩
  rcases hv with hv | hv
  · change v ∈ s'.stack.items at hv
    rw [h.stack] at hv
    rcases List.mem_cons.mp hv with rfl | hv
    · rw [Operation.outcome, h.result]
      exact .inl rfl
    · refine .inr (.inl ?_)
      rw [h.operands]
      exact List.mem_cons_of_mem _ (List.mem_cons_of_mem _ hv)
  · change ∃ id j, s'.locals.slot? id j = some v at hv
    rw [h.locals] at hv
    exact .inr (.inr hv)

theorem Grounded.of_applies {op : Operation p} {label : String} {rest : List (Value p)}
    (hs : s.Grounded) (h : s.Applies op label rest s') : s'.Grounded := by
  intro v w hv hw
  have hg := (hs.withWire label op.value? (op.gate.resultType op.left)).of_rearranges h.rearranges
  have := hg v w hv hw
  rw [h.recorder]
  exact this

end Store

/-! ## Steps -/

section Step

variable {σ : Type}

/-- The application of a gate between two states of the machine: the operands are on top of the
stack before, and the result is there after. -/
def State.operation? (m m' : State σ p) : Option (Operation p) := do
  let i ← m.instruction?
  let g ← Gate.ofOpcode? i.opcode
  match m.store.stack.items, m'.store.stack.items with
  | right :: left :: rest, result :: rest' =>
    if rest'.length = rest.length then result.wire?.map (⟨g, left, right, ·⟩) else none
  | _, _ => none

omit [Modulus p] in
theorem State.operation?_eq_none {m m' : State σ p}
    (h : ∀ right left rest, m.store.stack.items = right :: left :: rest →
      m'.store.stack.items.length ≠ rest.length + 1) : m.operation? m' = none := by
  unfold State.operation?
  cases m.instruction? with
  | none => rfl
  | some i =>
    cases hg : Gate.ofOpcode? i.opcode with
    | none => simp only [bind, Option.bind, hg]
    | some g =>
      simp only [bind, Option.bind, hg]
      split
      · rename_i right left rest result rest' hm hm'
        rw [if_neg]
        intro hlen
        refine h right left rest hm ?_
        rw [hm', List.length_cons, hlen]
      · rfl

theorem State.operation?_of_applies {m m' : State (System p) p} {i : Instruction}
    (hi : m.instruction? = some i) {op : Operation p} (hg : Gate.ofOpcode? i.opcode = some op.gate)
    {label : String} {rest : List (Value p)} (h : m.store.Applies op label rest m'.store) :
    m.operation? m' = some op := by
  simp only [State.operation?, bind, Option.bind, hi, hg, h.operands, h.stack, if_true]
  rfl

/-- **A step of the machine** applies a gate, or else it rearranges the store. -/
theorem State.step_cases (setup : Setup) {m : State (System p) p} (hs : m.store.Grounded) :
    (m.operation? (finalState (State.step setup m)) = none ∧
      m.store.Rearranges (finalState (State.step setup m)).store) ∨
    ∃ op label rest, m.operation? (finalState (State.step setup m)) = some op ∧
      m.store.Applies op label rest (finalState (State.step setup m)).store := by
  generalize hm' : finalState (State.step setup m) = m'
  cases hi : m.instruction? with
  | none =>
    refine .inl ⟨by simp only [State.operation?, hi, bind, Option.bind], ?_⟩
    rw [← hm']
    exact State.rearranges_step setup fun i h => by rw [hi] at h; cases h
  | some i =>
    cases hg : Gate.ofOpcode? i.opcode with
    | none =>
      refine .inl ⟨by simp only [State.operation?, hi, hg, bind, Option.bind], ?_⟩
      rw [← hm']
      refine State.rearranges_step setup fun j h => ?_
      rw [hi] at h
      cases h
      exact hg
    | some g =>
      rcases State.core_step_gate setup hi hg with h | ⟨f, pc, h⟩
      · rw [hm'] at h
        refine .inl ⟨State.operation?_eq_none fun right left rest hm => ?_,
          Store.rearranges_of_core h⟩
        have hstack : m'.store.stack = m.store.stack := congrArg Core.stack h
        rw [hstack, hm, List.length_cons, List.length_cons]
        omega
      · rw [hm'] at h
        have hf : (m.store.fetch f i pc).Grounded := hs
        rcases Store.binary_cases hf s!"step#{m.store.steps + 1}" i.opcode g with
          ⟨hr, hrest⟩ | ⟨op, rest, rfl, ha⟩
        · refine .inl ⟨State.operation?_eq_none fun right left rest hm => ?_, ?_⟩
          · have hstack : m'.store.stack = _ := congrArg Core.stack h
            rw [hstack]
            change List.length (Store.stack _).items ≠ _
            rw [hrest right left rest hm]
            omega
          · have hfetch : m.store.Rearranges (m.store.fetch f i pc) := ⟨rfl, fun _ => .inl⟩
            exact (hfetch.trans hr).of_core h
        · have ha' : m.store.Applies op _ rest m'.store := ha.of_core ⟨rfl, rfl, rfl⟩ h
          exact .inr ⟨op, _, rest, State.operation?_of_applies hi hg ha', ha'⟩

end Step

/-! ## Invariants of executions -/

/-- **A property of stores that everything the machine does keeps**; the values of inputs can be
assumed to be known in a witness. -/
structure Invariant (mode : Mode) (I : Store (System p) p → Prop) : Prop where
  grounded {s : Store (System p) p} : I s → s.Grounded
  rearranges {s s' : Store (System p) p} : I s → s.Rearranges s' → I s'
  input {s : Store (System p) p} (label : String) {x : Option (Scalar p)} (type : ValueType) :
    (mode = .witness → x.isSome) → I s → I (s.withWire label x type)
  gate {s s' : Store (System p) p} {op : Operation p} {label : String} {rest : List (Value p)} :
    I s → s.Applies op label rest s' → I s'

namespace Invariant

variable {setup : Setup} {I : Store (System p) p → Prop} {α : Type}

theorem of_rearranges (hI : Invariant setup.config.mode I) {x : EStateM Halt (Store (System p) p) α}
    (h : ∀ s₀ : Store (System p) p, Keeps s₀.Rearranges x fun _ => True) :
    Keeps I x fun _ => True := by
  intro s hs
  have h' := h s s (Store.rearranges_refl s)
  cases hx : x s with
  | ok a s' => rw [hx] at h'; exact ⟨hI.rearranges hs h'.1, trivial⟩
  | error e s' => rw [hx] at h'; exact hI.rearranges hs h'

theorem step (hI : Invariant setup.config.mode I) {m : State (System p) p} (hm : I m.store) :
    I (finalState (State.step setup m)).store := by
  rcases State.step_cases setup (hI.grounded hm) with ⟨-, h⟩ | ⟨op, label, rest, -, h⟩
  · exact hI.rearranges hm h
  · exact hI.gate hm h

theorem loop (hI : Invariant setup.config.mode I) (fuel : ℕ) :
    Keeps (State.Has I) (State.loop setup fuel) fun _ => True := by
  induction fuel with
  | zero => exact fun _ hm => hm
  | succ fuel ih =>
    intro m hm
    have h := hI.step hm
    rw [State.loop]
    cases hs : State.step setup m with
    | error e m' => rw [hs] at h; exact h
    | ok done m' =>
      rw [hs] at h
      cases done with
      | true => exact ⟨h, trivial⟩
      | false => exact ih m' h

omit [Modulus p] in
theorem rearranges_allocInput (id i : ℕ) (label : String) (x : Option (Scalar p)) (type : ValueType)
    (s : Store (System p) p) :
    Store.allocInput label x type s = .ok (.wired (UInt32.ofNat s.ledger.recorder.wires.size) x type)
      (s.withRecord (s.ledger.recorder.addWire label x)) ∧
    (s.withWire label x type).Rearranges (finalState (Store.storeLocal id i
      (.wired (UInt32.ofNat s.ledger.recorder.wires.size) x type)
      (s.withRecord (s.ledger.recorder.addWire label x)))) := by
  constructor
  · simp only [Store.allocInput, bind, EStateM.bind, Store.onLedger, Ledger.record, Recorder.alloc,
      System.alloc_ofOption]
    rfl
  · refine (rearranges_storeLocal id i (.inl (.inl List.mem_cons_self))).final ?_
    exact ⟨rfl, fun v hv => .inl (Store.holds_withWire.mpr (.inr hv))⟩

theorem allocInputs (hI : Invariant setup.config.mode I) (id i : ℕ)
    {inputs : List (ValueType × Option (Scalar p))}
    (hx : setup.config.mode = .witness → ∀ input ∈ inputs, input.2.isSome) :
    Keeps I (State.allocInputs id i inputs) fun _ => True := by
  induction inputs generalizing i with
  | nil => exact Keeps.pure trivial
  | cons input rest ih =>
    obtain ⟨type, x⟩ := input
    intro s hs
    obtain ⟨halloc, hstore⟩ := rearranges_allocInput id i s!"arg#{i}" x type s
    have hs' := hI.rearranges
      (hI.input s!"arg#{i}" type (fun hm => hx hm _ List.mem_cons_self) hs) hstore
    have hrest := ih (i + 1) fun hm u hu => hx hm u (List.mem_cons_of_mem _ hu)
    simp only [State.allocInputs, bind, EStateM.bind, halloc]
    cases hv : Store.storeLocal id i (.wired (UInt32.ofNat s.ledger.recorder.wires.size) x type)
      (s.withRecord (s.ledger.recorder.addWire s!"arg#{i}" x)) with
    | error e s' => rw [hv] at hs'; exact hs'
    | ok u s' => rw [hv] at hs'; exact hrest s' hs'

theorem start (hI : Invariant setup.config.mode I) (index : UInt16) (f : Function)
    (args : List (Scalar p)) :
    Keeps (State.Has I) (State.start setup index f args) fun _ => True := by
  have hreset : Keeps (State.Has I) (State.reset setup.config) fun _ => True := by
    intro m hm
    exact ⟨hI.rearranges hm ⟨rfl, fun v hv => absurd hv Store.not_holds_initial⟩, trivial⟩
  have hknown : setup.config.mode = .witness →
      ∀ input ∈ State.inputs setup.config.mode f args, input.2.isSome := by
    intro hm input hinput
    rw [State.inputs, if_pos hm] at hinput
    obtain ⟨x, -, hx⟩ := List.mem_map.mp (List.of_mem_zip hinput).2
    rw [← hx]
    rfl
  refine hreset.bind fun _ _ => ?_
  refine (Keeps.onMachineStore (hI.of_rearranges fun _ => rearranges_allocLocals _)).bind
    fun id _ => ?_
  refine (Keeps.onMachineStore (hI.allocInputs id 0 hknown)).bind fun _ _ => ?_
  refine (Keeps.pushFrame _).bind fun _ _ => ?_
  exact Keeps.onMachineStore (hI.of_rearranges fun _ => (keepsCore_note _).rearranges)

theorem of_start (hI : Invariant setup.config.mode I) (hempty : ∀ s, (∀ v, ¬ s.Holds v) → I s)
    {index : UInt16} {f : Function} {args : List (Scalar p)} {m m' : State (System p) p}
    (hs : State.start setup index f args m = .ok () m') : I m'.store := by
  have h := (hI.start index f args).final (s := State.initial setup.config m.store.ledger)
    (hempty _ fun _ => Store.not_holds_initial)
  have hsame : State.start setup index f args (.initial setup.config m.store.ledger) = .ok () m' := hs
  rw [hsame] at h
  exact h

/-- **Every run keeps an invariant**, however it ends. -/
theorem run (hI : Invariant setup.config.mode I) (fuel : ℕ) (index : UInt16)
    (args : List (Scalar p)) :
    Keeps (State.Has I) (State.run setup fuel index args) fun _ => True := by
  unfold State.run
  cases State.eligible setup index args with
  | error e => exact Keeps.fail e
  | ok f =>
    refine (hI.start index f args).bind fun _ _ => ?_
    refine (hI.loop fuel).bind fun _ _ => ?_
    exact Keeps.onMachineStore (hI.of_rearranges fun _ => effects_rearranges.popResults _ _)

theorem of_grounded (mode : Mode) : Invariant mode (Store.Grounded (p := p)) :=
  ⟨id, fun h => h.of_rearranges, fun label x type _ h => h.withWire label x type,
    fun h => h.of_applies⟩

end Invariant

/-- A machine with an empty record. -/
def State.new (setup : Setup) : State (System p) p := .initial setup.config (.ofRecorder .initial)

end Machine

end StackCircuit
