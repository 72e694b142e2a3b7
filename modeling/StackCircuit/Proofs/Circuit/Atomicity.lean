import StackCircuit.Proofs.Machine.Gates

/-!
# Gates that fail

A gate writes to a constraint system twice: the wire of its result is allocated first, and the wires of
its operands are looked up when the constraint is recorded, after that. So whether a gate that fails
leaves the system as it was depends on the wires that its operands are bound to.

* `Gate.exists_mem_sides`: all terms of the operands get into the constraint of a gate.
* `Operation.wires_iff`: the wires of a constraint exist if those of the operands do.
* `Operation.apply_eq_error`: a gate whose constraint is refused has allocated its wire.
* `Gate.Atomic`: a gate records its wire and its constraint, or nothing.
* **`Gate.atomic_iff`**: this is so if an operand is unusable, or if the wires of both existed before.
-/

namespace StackCircuit

open Circuit (Wire Combination Constraint System Term Recorder)

variable {p : ℕ}

/-! ## The wires of a constraint -/

theorem Circuit.System.enforce_eq_error {sys : System p} {label : String} {a b c : Combination p}
    (h : ∃ t ∈ a ++ (b ++ c), sys.hasWire t.wire = false) :
    ∃ w, System.enforce label a b c sys = .error (.unknownWire label w) sys := by
  cases hw : sys.unknownWire? ⟨label, a, b, c⟩ with
  | some w =>
    refine ⟨w, ?_⟩
    simp only [System.enforce, hw]
  | none =>
    obtain ⟨t, ht, hunknown⟩ := h
    rw [System.unknownWire?, List.find?_eq_none] at hw
    have hmem : t.wire ∈ (Constraint.sides ⟨label, a, b, c⟩).flatten.map (·.wire) :=
      List.mem_map_of_mem (by simpa [Constraint.sides] using ht)
    exact absurd (by rw [hunknown]; rfl) (hw _ hmem)

variable [Modulus p]

theorem Value.exists_mem_combination {v : Value p} {w : Wire} (hv : v.wire? = some w) :
    ∃ t ∈ v.combination?.getD [], t.wire = w := by
  match v with
  | .constant x type (some w') => cases hv; exact ⟨_, List.mem_singleton_self _, rfl⟩
  | .wired w' x type => cases hv; exact ⟨_, List.mem_singleton_self _, rfl⟩

/-- **All terms of the operands get into the constraint of a gate**, maybe with another factor. -/
theorem Gate.exists_mem_sides (g : Gate) (a b c : Combination p) {t : Term p} (ht : t ∈ a ∨ t ∈ b) :
    ∃ u ∈ (g.sides a b c).1 ++ ((g.sides a b c).2.1 ++ (g.sides a b c).2.2), u.wire = t.wire := by
  have hplus : ∃ u ∈ a.plus b, u.wire = t.wire := ⟨t, List.mem_append.mpr ht, rfl⟩
  have hminus : ∃ u ∈ a.minus b, u.wire = t.wire := by
    rcases ht with ht | ht
    · exact ⟨t, List.mem_append_left _ ht, rfl⟩
    · exact ⟨_, List.mem_append_right _ (List.mem_map_of_mem ht), rfl⟩
  cases g with
  | add => exact hplus.imp fun u hu => ⟨List.mem_append_left _ hu.1, hu.2⟩
  | sub => exact hminus.imp fun u hu => ⟨List.mem_append_left _ hu.1, hu.2⟩
  | mul =>
    refine ⟨t, ?_, rfl⟩
    rcases ht with ht | ht
    · exact List.mem_append_left _ ht
    · exact List.mem_append_right _ (List.mem_append_left _ ht)
  | eq => exact hminus.imp fun u hu => ⟨List.mem_append_left _ hu.1, hu.2⟩

namespace Operation

variable (op : Operation p) {sys : System p} {P : Wire → Prop}

/-- **What holds of the wires of a constraint** holds of the wire of one, of those of the operands and
of that of the result. -/
theorem wires_iff (hone : P Wire.one) (hresult : P op.result) :
    (∀ t ∈ op.sides.1 ++ (op.sides.2.1 ++ op.sides.2.2), P t.wire) ↔
      ∀ w, op.left.wire? = some w ∨ op.right.wire? = some w → P w := by
  constructor
  · intro h w hw
    have hterm : ∃ t, (t ∈ op.left.combination?.getD [] ∨ t ∈ op.right.combination?.getD []) ∧
        t.wire = w := by
      rcases hw with hw | hw
      · exact (Value.exists_mem_combination hw).imp fun t ht => ⟨.inl ht.1, ht.2⟩
      · exact (Value.exists_mem_combination hw).imp fun t ht => ⟨.inr ht.1, ht.2⟩
    obtain ⟨t, ht, rfl⟩ := hterm
    obtain ⟨u, hu, huw⟩ := op.gate.exists_mem_sides _ _ (.single op.result) ht
    rw [← huw]
    exact h u hu
  · intro h
    refine Gate.forall_sides hone (fun t ht => ?_) (fun t ht => ?_) (fun t ht => ?_) op.gate
    · rcases Value.wire_of_mem_combination ht with hw | hw
      · rw [hw]; exact hone
      · exact h _ (.inl hw)
    · rcases Value.wire_of_mem_combination ht with hw | hw
      · rw [hw]; exact hone
      · exact h _ (.inr hw)
    · rw [List.mem_singleton.mp ht]; exact hresult

theorem lt_succ_iff (hop : op.result = UInt32.ofNat sys.wires.size) :
    (∀ t ∈ op.sides.1 ++ (op.sides.2.1 ++ op.sides.2.2), t.wire.toNat < sys.wires.size + 1) ↔
      ∀ w, op.left.wire? = some w ∨ op.right.wire? = some w → w.toNat < sys.wires.size + 1 := by
  refine wires_iff op (P := fun w => w.toNat < sys.wires.size + 1) (Nat.succ_pos _) ?_
  rw [hop, UInt32.toNat_ofNat']
  exact Nat.lt_succ_of_le (Nat.mod_le _ _)

/-! ## What a gate leaves behind -/

/-- **A gate whose constraint is refused** has allocated the wire of its result. -/
theorem apply_eq_error (label : String) (journal : Array (Event p)) (guard : Option (Guard p))
    (hl : op.left.combination?.isSome) (hr : op.right.combination?.isSome)
    (hop : op.result = UInt32.ofNat sys.wires.size)
    (hw : ∃ t ∈ op.sides.1 ++ (op.sides.2.1 ++ op.sides.2.2), sys.wires.size < t.wire.toNat) :
    ∃ w journal', op.gate.apply label op.left op.right guard ⟨sys, journal⟩ =
      .error (.circuit label (.unknownWire label w)) ⟨sys.addWire label op.value?, journal'⟩ := by
  obtain ⟨a, ha⟩ := Option.isSome_iff_exists.mp hl
  obtain ⟨b, hb⟩ := Option.isSome_iff_exists.mp hr
  have hsides : op.gate.sides a b (.single (UInt32.ofNat sys.wires.size)) =
      (op.sides.1, op.sides.2.1, op.sides.2.2) := by
    rw [sides, ha, hb, hop]
    rfl
  obtain ⟨w, hrefused⟩ : ∃ w, System.enforce label op.sides.1 op.sides.2.1 op.sides.2.2
      (sys.addWire label op.value?) =
        .error (.unknownWire label w) (sys.addWire label op.value?) := by
    obtain ⟨t, ht, hlt⟩ := hw
    refine Circuit.System.enforce_eq_error ⟨t, ht, decide_eq_false ?_⟩
    rw [System.addWire, Array.size_push]
    omega
  have hsynth (journal' : Array (Event p)) :
      op.gate.synthesise label a b op.value? (op.gate.resultType op.left) ⟨sys, journal'⟩ =
        .error (.circuit label (.unknownWire label w)) ⟨sys.addWire label op.value?, journal'⟩ := by
    simp only [Gate.synthesise, bind, EStateM.bind, Ledger.record, Recorder.alloc,
      System.alloc_ofOption, Recorder.enforce, hsides, hrefused]
  cases guard with
  | none =>
    refine ⟨w, journal, ?_⟩
    simp only [Gate.apply, ha, hb]
    exact hsynth journal
  | some guard =>
    refine ⟨w, journal.push (.guarded label guard.negated), ?_⟩
    simp only [Gate.apply, ha, hb]
    exact hsynth _

end Operation

theorem Gate.apply_unusable (g : Gate) (label : String) {a b : Value p}
    (h : a.combination? = none ∨ b.combination? = none) (guard : Option (Guard p))
    (l : Ledger (System p) p) : ∃ side, g.apply label a b guard l = .error (.operand label side) l := by
  unfold Gate.apply
  cases ha : a.combination? with
  | none => exact ⟨.left, rfl⟩
  | some left =>
    have hb := h.resolve_left (by rw [ha]; exact Option.some_ne_none left)
    rw [hb]
    exact ⟨.right, rfl⟩

/-! ## All or nothing -/

/-- **A gate changes a constraint system all at once or not at all**: if it succeeds, its wire and its
constraint have been added, and the operands are bound to wires that existed before; if it fails, the
system is as it was. -/
def Gate.Atomic (g : Gate) (label : String) (a b : Value p) (guard : Option (Guard p))
    (l : Ledger (System p) p) : Prop :=
  let op : Operation p := ⟨g, a, b, UInt32.ofNat l.recorder.wires.size⟩
  match g.apply label a b guard l with
  | .ok v l' => v = op.outcome ∧
      l'.recorder = (l.recorder.addWire label op.value?).addConstraint (op.constraint label) ∧
      ∀ w, a.wire? = some w ∨ b.wire? = some w → l.recorder.hasWire w
  | .error _ l' => l'.recorder = l.recorder

/-- **When gates are atomic**: if an operand is unusable, or the wires that the operands are bound to
have all been allocated, and only then. Otherwise a gate fails with its wire left behind, or refers to
its own wire as an operand. -/
theorem Gate.atomic_iff (g : Gate) (label : String) (a b : Value p) (guard : Option (Guard p))
    (l : Ledger (System p) p) :
    g.Atomic label a b guard l ↔ a.combination? = none ∨ b.combination? = none ∨
      ∀ w, a.wire? = some w ∨ b.wire? = some w → l.recorder.hasWire w := by
  obtain ⟨sys, journal⟩ := l
  by_cases hunusable : a.combination? = none ∨ b.combination? = none
  · obtain ⟨side, h⟩ := apply_unusable g label hunusable guard ⟨sys, journal⟩
    simp only [Gate.Atomic, h, true_iff]
    exact hunusable.imp_right .inl
  obtain ⟨ha, hb⟩ := not_or.mp hunusable
  let op : Operation p := ⟨g, a, b, UInt32.ofNat sys.wires.size⟩
  have hl : op.left.combination?.isSome := Option.isSome_iff_ne_none.mpr ha
  have hr : op.right.combination?.isSome := Option.isSome_iff_ne_none.mpr hb
  simp only [ha, hb, false_or]
  by_cases hlt : ∀ w, a.wire? = some w ∨ b.wire? = some w → w.toNat < sys.wires.size + 1
  · -- The constraint is recorded: what is left is whether the operands use the new wire.
    have hwires := (op.lt_succ_iff rfl).mpr hlt
    obtain ⟨journal', happ⟩ : ∃ journal', g.apply label a b guard ⟨sys, journal⟩ = .ok op.outcome
        ⟨(sys.addWire label op.value?).addConstraint (op.constraint label), journal'⟩ :=
      op.apply_eq label guard hl hr rfl
        fun t ht => hwires t (by simpa [Constraint.sides, Operation.constraint] using ht)
    simp only [Gate.Atomic, happ]
    exact ⟨fun h => h.2.2, fun h => ⟨rfl, rfl, h⟩⟩
  · -- The constraint is refused after the wire has been added.
    have hterm : ∃ t ∈ op.sides.1 ++ (op.sides.2.1 ++ op.sides.2.2),
        sys.wires.size < t.wire.toNat := by
      rw [← op.lt_succ_iff rfl] at hlt
      push Not at hlt
      exact hlt
    obtain ⟨w, journal', happ⟩ : ∃ w journal', g.apply label a b guard ⟨sys, journal⟩ =
        .error (.circuit label (.unknownWire label w)) ⟨sys.addWire label op.value?, journal'⟩ :=
      op.apply_eq_error label journal guard hl hr rfl hterm
    simp only [Gate.Atomic, happ]
    constructor
    · intro h
      have hsize := congrArg (·.wires.size) h
      simp only [System.addWire, Array.size_push] at hsize
      omega
    · intro h
      refine absurd (fun w hw => ?_) hlt
      exact Nat.lt_succ_of_lt (of_decide_eq_true (h w hw))

/-- A product of a wire that exists with itself is atomic, and so is one with an invalid operand. -/
theorem Gate.atomic_iff_square :
    let l : Ledger (System ScalarField.bn254.modulus) ScalarField.bn254.modulus :=
      .ofRecorder ⟨#[⟨"one", some 1⟩, ⟨"x", some 5⟩], #[]⟩
    Gate.mul.Atomic "square" (.wired 1 (some 5) .u64) (.wired 1 (some 5) .u64) none l ∧
      Gate.mul.Atomic "square" (.wired 1 (some 5) .u64) .invalid none l := by
  intro l
  refine ⟨(Gate.atomic_iff _ _ _ _ _ l).mpr (.inr (.inr fun w hw => ?_)),
    (Gate.atomic_iff _ _ _ _ _ l).mpr (.inr (.inl rfl))⟩
  rcases hw with hw | hw
  · cases hw
    rfl
  · cases hw
    rfl

/-- A sum with an operand on a wire that does not exist leaves the wire of its result behind when it
fails, and one with an operand on the next wire takes its own result for an operand. -/
theorem Gate.not_atomic_ahead :
    (∃ (e : GateError) (l : Ledger (System ScalarField.bn254.modulus) ScalarField.bn254.modulus),
        Gate.add.apply "sum" (.wired 2 none .u64) (.literal .u64 2) none (.ofRecorder .initial) =
          .error e l ∧ l.recorder = ⟨#[⟨"one", some 1⟩, ⟨"sum", none⟩], #[]⟩) ∧
      ¬ Gate.add.Atomic (p := ScalarField.bn254.modulus) "sum" (.wired 2 none .u64)
        (.literal .u64 2) none (.ofRecorder .initial) ∧
      ¬ Gate.add.Atomic (p := ScalarField.bn254.modulus) "sum" (.wired 1 none .u64)
        (.literal .u64 2) none (.ofRecorder .initial) := by
  refine ⟨⟨_, _, rfl, rfl⟩, fun h => ?_, fun h => ?_⟩
  · -- The failed sum has left a second wire.
    have hsize : (2 : ℕ) = 1 := congrArg (fun s : System ScalarField.bn254.modulus => s.wires.size) h
    cases hsize
  · -- The operand is the wire of the sum.
    cases h.2.2 1 (.inl rfl)

end StackCircuit
