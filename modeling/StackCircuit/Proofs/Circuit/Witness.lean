import StackCircuit.Proofs.Circuit.Operations

/-!
# Witnesses

A machine that computes witnesses assigns every wire, and its assignment satisfies every constraint
at all times: between instructions, after runs, and after runs that failed.

* `System.Settled`: every wire has a value, and the values satisfy every constraint.
* `Value.Agrees`: a value that is bound to a wire is known, and the wire carries it.
* `Store.Witnessed`: the two for a store and all values in it; **`invariant_witnessed`**: everything
  the machine does keeps them.
* `Visits`: the states that sequences of runs go through.
* **`witness_complete`**: the result.
-/

namespace StackCircuit

open Circuit (Wire Combination Constraint System)

variable {p : ℕ} [Modulus p]

namespace Circuit

/-- The wires of a constraint have been allocated. -/
def Constraint.Within (k : Constraint p) (n : ℕ) : Prop :=
  ∀ t ∈ k.sides.flatten, t.wire.toNat < n

theorem Constraint.satisfiedBy_congr {k : Constraint p} {s s' : Wire → Scalar p}
    (h : ∀ t ∈ k.sides.flatten, s t.wire = s' t.wire) : k.SatisfiedBy s ↔ k.SatisfiedBy s' := by
  have ha : k.a.eval s = k.a.eval s' :=
    Combination.eval_congr fun t ht => h t (by simp [sides, ht])
  have hb : k.b.eval s = k.b.eval s' :=
    Combination.eval_congr fun t ht => h t (by simp [sides, ht])
  have hc : k.c.eval s = k.c.eval s' :=
    Combination.eval_congr fun t ht => h t (by simp [sides, ht])
  unfold SatisfiedBy
  rw [ha, hb, hc]

namespace System

variable {sys : System p}

/-- **Every wire has a value, and the values satisfy every constraint.** -/
structure Settled (sys : System p) : Prop where
  one : sys.value? Wire.one = some 1
  assigned : ∀ entry ∈ sys.wires, entry.value.isSome
  within : ∀ k ∈ sys.constraints, k.Within sys.wires.size
  satisfied : ∀ k ∈ sys.constraints, k.SatisfiedBy sys.assignment

omit [Modulus p] in
theorem lt_size_of_value? {w : Wire} {x : Scalar p} (h : sys.value? w = some x) :
    w.toNat < sys.wires.size := by
  obtain ⟨entry, he, -⟩ := Option.bind_eq_some_iff.mp h
  exact (Array.getElem?_eq_some_iff.mp he).1

theorem Settled.isSome_value? (h : sys.Settled) {w : Wire} (hw : w.toNat < sys.wires.size) :
    (sys.value? w).isSome := by
  rw [value?, Array.getElem?_eq_getElem hw]
  exact h.assigned _ (Array.getElem_mem hw)

theorem Settled.addWire (h : sys.Settled) (label : String) (x : Scalar p) :
    (sys.addWire label (some x)).Settled := by
  have hsize : (sys.addWire label (some x)).wires.size = sys.wires.size + 1 := Array.size_push _
  refine ⟨?_, fun entry he => ?_, fun k hk t ht => ?_, fun k hk => ?_⟩
  · rw [value?_addWire_of_lt (lt_size_of_value? h.one)]
    exact h.one
  · rcases Array.mem_push.mp he with he | rfl
    · exact h.assigned entry he
    · rfl
  · rw [hsize]
    exact Nat.lt_succ_of_lt (h.within k hk t ht)
  · refine (Constraint.satisfiedBy_congr fun t ht => ?_).mpr (h.satisfied k hk)
    rw [assignment, assignment, value?_addWire_of_lt (h.within k hk t ht)]

theorem Settled.addConstraint (h : sys.Settled) {k : Constraint p} (hw : k.Within sys.wires.size)
    (hk : k.SatisfiedBy sys.assignment) : (sys.addConstraint k).Settled := by
  refine ⟨h.one, h.assigned, fun k' hk' => ?_, fun k' hk' => ?_⟩
  · rcases Array.mem_push.mp hk' with hk' | rfl
    · exact h.within k' hk'
    · exact hw
  · rcases Array.mem_push.mp hk' with hk' | rfl
    · exact h.satisfied k' hk'
    · exact hk

theorem Settled.check (h : sys.Settled) : sys.check = none := by
  refine check_eq_none fun k hk => ?_
  have hsome : ∀ t ∈ k.sides.flatten, (sys.value? t.wire).isSome :=
    fun t ht => h.isSome_value? (h.within k hk t ht)
  refine ⟨fun t ht => hsome t ?_, fun t ht => hsome t ?_, fun t ht => hsome t ?_, h.satisfied k hk⟩
  · simp [Constraint.sides, ht]
  · simp [Constraint.sides, ht]
  · simp [Constraint.sides, ht]

theorem settled_initial : (initial : System p).Settled := by
  refine ⟨rfl, fun entry he => ?_, fun k hk => ?_, fun k hk => ?_⟩
  · rw [initial, Array.mem_singleton] at he
    rw [he]
    rfl
  · cases hk with | mk h => cases h
  · cases hk with | mk h => cases h

end System

end Circuit

/-- A value that is bound to a wire is known, and the wire carries it. -/
def Value.Agrees (v : Value p) (sys : System p) : Prop :=
  ∀ w, v.wire? = some w → ∃ x, v.value? = some x ∧ sys.value? w = some x

omit [Modulus p] in
theorem Value.Agrees.addWire {v : Value p} {sys : System p} (h : v.Agrees sys) (label : String)
    (x : Option (Scalar p)) : v.Agrees (sys.addWire label x) := by
  intro w hw
  obtain ⟨y, hy, hv⟩ := h w hw
  exact ⟨y, hy, by rw [System.value?_addWire_of_lt (System.lt_size_of_value? hv)]; exact hv⟩

theorem Value.Agrees.under {v : Value p} {sys : System p} (h : v.Agrees sys)
    (hv : v.combination?.isSome) : v.value? = some (v.under sys.assignment) := by
  unfold Value.under
  cases hw : v.wire? with
  | none =>
    match v with
    | .invalid => cases hv
    | .constant x type w => rfl
    | .wired w x type => cases hw
  | some w =>
    obtain ⟨x, hx, hw'⟩ := h w hw
    have hs : sys.assignment w = x := by rw [System.assignment, hw', Option.getD_some]
    rw [hx, ← hs]

namespace Machine

namespace Store

variable {s s' : Store (System p) p}

/-- **The record is settled, and all values agree with it.** -/
structure Witnessed (s : Store (System p) p) : Prop where
  settled : s.ledger.recorder.Settled
  agrees : ∀ v, s.Holds v → v.Agrees s.ledger.recorder

theorem Witnessed.of_rearranges (hs : s.Witnessed) (h : s.Rearranges s') : s'.Witnessed := by
  refine ⟨h.recorder ▸ hs.settled, fun v hv => ?_⟩
  rw [h.recorder]
  rcases h.values v hv with hv | hv
  · exact hs.agrees v hv
  · intro w hw
    rw [hv] at hw
    cases hw

theorem Witnessed.withWire (hs : s.Witnessed) (label : String) (x : Scalar p) (type : ValueType)
    (hsize : s.ledger.recorder.wires.size < 2 ^ 32) :
    (s.withWire label (some x) type).Witnessed := by
  refine ⟨hs.settled.addWire label x, fun v hv => ?_⟩
  rcases holds_withWire.mp hv with rfl | hv
  · intro w hw
    cases hw
    exact ⟨x, rfl, System.value?_addWire_size (UInt32.toNat_ofNat_of_lt hsize)⟩
  · exact (hs.agrees v hv).addWire label (some x)

theorem Witnessed.grounded (hs : s.Witnessed) : s.Grounded := by
  intro v w hv hw
  obtain ⟨x, -, hx⟩ := hs.agrees v hv w hw
  exact System.lt_size_of_value? hx

theorem Witnessed.value?_eq (hs : s.Witnessed) {op : Operation p} {label : String}
    {rest : List (Value p)} (h : s.Applies op label rest s') {sys : System p}
    (hsys : s.ledger.recorder.addWire label op.value? = sys) :
    op.value? =
      some (op.gate.eval (op.left.under sys.assignment) (op.right.under sys.assignment)) := by
  have hl := ((hs.agrees _ h.holds_left).addWire label op.value?).under h.left
  have hr := ((hs.agrees _ h.holds_right).addWire label op.value?).under h.right
  rw [hsys] at hl hr
  rw [Operation.value?, Gate.result?, hl, hr]

/-- **A gate keeps a witness.** -/
theorem Witnessed.of_applies (hs : s.Witnessed) {op : Operation p} {label : String}
    {rest : List (Value p)} (h : s.Applies op label rest s')
    (hsize : s.ledger.recorder.wires.size < 2 ^ 32) : s'.Witnessed := by
  have hnew : (s.withWire label op.value? (op.gate.resultType op.left)).Witnessed := by
    rw [hs.value?_eq h rfl]
    exact hs.withWire label _ _ hsize
  obtain ⟨sys, hsys⟩ : ∃ sys, s.ledger.recorder.addWire label op.value? = sys := ⟨_, rfl⟩
  have hset : sys.Settled := hsys ▸ hnew.settled
  have hone : sys.assignment Wire.one = 1 := by rw [System.assignment, hset.one, Option.getD_some]
  have hwire : op.result.toNat = s.ledger.recorder.wires.size := by
    rw [h.result]
    exact UInt32.toNat_ofNat_of_lt hsize
  have hresult : sys.assignment op.result =
      op.gate.eval (op.left.under sys.assignment) (op.right.under sys.assignment) := by
    have hv : sys.value? op.result = op.value? := hsys ▸ System.value?_addWire_size hwire
    rw [System.assignment, hv, hs.value?_eq h hsys, Option.getD_some]
  have hwithin : (op.constraint label).Within sys.wires.size := by
    intro t ht
    rw [← hsys, System.addWire, Array.size_push]
    exact hs.grounded.hasWire_constraint h.holds_left h.holds_right h.result ht
  have hsat := Operation.satisfiedBy_of_respected hone h.left h.right label
    (Operation.respected_of_eval hresult)
  refine ⟨?_, fun v hv => ?_⟩
  · rw [h.recorder, hsys]
    exact hset.addConstraint hwithin hsat
  · rw [h.recorder]
    exact (hnew.of_rearranges h.rearranges).agrees v hv

end Store

theorem invariant_witnessed :
    Invariant .witness fun s : Store (System p) p =>
      s.Grounded ∧ (s.ledger.recorder.wires.size ≤ 2 ^ 32 → s.Witnessed) := by
  refine ⟨fun h => h.1, fun h hr => ?_, fun label x type hx h => ?_, fun h ha => ?_⟩
  · refine ⟨h.1.of_rearranges hr, fun hsize => ?_⟩
    rw [hr.recorder] at hsize
    exact (h.2 hsize).of_rearranges hr
  · obtain ⟨x, rfl⟩ := Option.isSome_iff_exists.mp (hx rfl)
    refine ⟨h.1.withWire label (some x) type, fun hsize => ?_⟩
    rw [Store.withWire, Store.withRecord, System.addWire, Array.size_push] at hsize
    exact (h.2 (by omega)).withWire label x type (by omega)
  · refine ⟨h.1.of_applies ha, fun hsize => ?_⟩
    rw [ha.recorder, System.addConstraint, System.addWire, Array.size_push] at hsize
    exact (h.2 (by omega)).of_applies ha (by omega)

/-! ## Sequences of runs -/

/-- **The states that sequences of runs on one record go through.** A run that is given up for lack
of fuel stops between two instructions, so these states are among them. -/
inductive Visits (setup : Setup) : State (System p) p → Prop
  | new : Visits setup (.new setup)
  -- The machine runs, with any amount of fuel, and ends in some way.
  | run {m : State (System p) p} (h : Visits setup m) (fuel : ℕ) (index : UInt16)
      (args : List (Scalar p)) : Visits setup (finalState (State.run setup fuel index args m))

/-- **Witnesses are complete**: in every state that a machine which computes witnesses goes through,
every wire is assigned, every value that is bound to a wire is known and is the one the wire
carries, and all constraints hold. -/
theorem witness_complete {setup : Setup} (hmode : setup.config.mode = .witness)
    {m : State (System p) p} (hm : Visits setup m)
    (hsize : m.store.ledger.recorder.wires.size ≤ 2 ^ 32) :
    (∀ entry ∈ m.store.ledger.recorder.wires, entry.value.isSome) ∧
      (∀ v w, m.store.Holds v → v.wire? = some w →
        ∃ x, v.value? = some x ∧ m.store.ledger.recorder.value? w = some x) ∧
      m.store.ledger.recorder.check = none := by
  have hI : Invariant setup.config.mode fun s : Store (System p) p =>
      s.Grounded ∧ (s.ledger.recorder.wires.size ≤ 2 ^ 32 → s.Witnessed) :=
    hmode ▸ invariant_witnessed
  have hinv : m.store.Grounded ∧
      (m.store.ledger.recorder.wires.size ≤ 2 ^ 32 → m.store.Witnessed) := by
    clear hsize
    induction hm with
    | new =>
      exact ⟨fun v w hv => absurd hv Store.not_holds_initial,
        fun _ => ⟨System.settled_initial, fun v hv => absurd hv Store.not_holds_initial⟩⟩
    | run h fuel index args ih => exact (hI.run fuel index args).final ih
  have hw := hinv.2 hsize
  exact ⟨hw.settled.assigned, fun v w hv => hw.agrees v hv w, hw.settled.check⟩

/-- A witness for a function that computes `x * x + 1` from its parameter `x`. -/
def squarePlusOne : Setup :=
  ⟨⟨#[⟨"main", [.u64], 1, 1,
    #[.ofNat .copyLoc 0, .ofNat .copyLoc 0, .ofNat .mul 0, .ofNat .ldU8 1, .ofNat .add 0,
      .ofNat .ret 0], by decide⟩]⟩, .standard⟩

/-- The machine after it has computed the witness for five. -/
def squareOfFive : State (System ScalarField.bn254.modulus) ScalarField.bn254.modulus :=
  finalState (State.run squarePlusOne 10 0 [.ofNat 5] (.new squarePlusOne))

/-- The wires are those of one, the parameter, the product and the sum. -/
theorem witness_complete_squareOfFive :
    squareOfFive.store.ledger.recorder.wires.size = 4 ∧
      squareOfFive.store.ledger.recorder.check = none := by
  have hvisits : Visits squarePlusOne squareOfFive := .run .new 10 0 [.ofNat 5]
  exact ⟨by decide +kernel, (witness_complete rfl hvisits (by decide +kernel)).2.2⟩

end Machine

end StackCircuit
