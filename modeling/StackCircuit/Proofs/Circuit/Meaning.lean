import StackCircuit.Proofs.Circuit.Operations
import StackCircuit.Proofs.Machine.Start

/-!
# The meaning of a circuit

The constraints that a run records say, for every gate that was applied, what its result has to be,
and they say nothing else. Each gate defines a new wire from earlier ones, so the wires of the
arguments can be assigned at will, and without equalities they determine all others.

* `StraightLine`: each operation defines the next wire from earlier ones.
* `StraightLine.exists_computed`, `StraightLine.exists_respected`, `StraightLine.respected_unique`:
  right results exist, and without equalities there is only one choice.
* `Store.Records`: the record of a store is that of given operations.
* `State.operations`, `State.runOperations`: the gates that instructions apply, and those of a run.
* **`circuit_meaning`**: the result.
-/

namespace StackCircuit

open Circuit (Wire Combination Constraint System)

variable {p : ℕ} [Modulus p]

/-! ## Straight-line definitions -/

/-- **Each operation defines the next wire**, from the `n`-th one on, out of earlier ones. -/
def StraightLine : ℕ → List (Operation p) → Prop
  | _, [] => True
  | n, op :: ops =>
    (op.result = UInt32.ofNat n ∧ op.left.combination?.isSome ∧ op.right.combination?.isSome ∧
      ∀ w, op.left.wire? = some w ∨ op.right.wire? = some w → w.toNat < n) ∧
    StraightLine (n + 1) ops

namespace StraightLine

theorem append {n : ℕ} {ops : List (Operation p)} {op : Operation p} (h : StraightLine n ops)
    (hop : StraightLine (n + ops.length) [op]) : StraightLine n (ops ++ [op]) := by
  induction ops generalizing n with
  | nil => exact hop
  | cons first ops ih =>
    refine ⟨h.1, ih h.2 ?_⟩
    rwa [Nat.add_right_comm n 1]

theorem usable {n : ℕ} {ops : List (Operation p)} (h : StraightLine n ops) {op : Operation p}
    (hop : op ∈ ops) : op.left.combination?.isSome ∧ op.right.combination?.isSome := by
  induction ops generalizing n with
  | nil => cases hop
  | cons first ops ih =>
    rcases List.mem_cons.mp hop with rfl | hop
    · exact ⟨h.1.2.1, h.1.2.2.1⟩
    · exact ih h.2 hop

/-- **All gates can compute their results**, whatever the wires before them carry. -/
theorem exists_computed {n : ℕ} {ops : List (Operation p)} (h : StraightLine n ops)
    (hn : n + ops.length ≤ 2 ^ 32) (s : Wire → Scalar p) :
    ∃ s', (∀ w : Wire, w.toNat < n → s' w = s w) ∧
      ∀ op ∈ ops, s' op.result = op.gate.eval (op.left.under s') (op.right.under s') := by
  induction ops generalizing n s with
  | nil => exact ⟨s, fun _ _ => rfl, fun _ h => nomatch h⟩
  | cons op ops ih =>
    rw [List.length_cons] at hn
    obtain ⟨⟨hresult, -, -, hwires⟩, hrest⟩ := h
    have hlt : n < 2 ^ 32 := by omega
    have hw : op.result.toNat = n := by
      rw [hresult]
      exact UInt32.toNat_ofNat_of_lt hlt
    -- The wire of the result gets what the gate computes; later wires do not interfere.
    let x := op.gate.eval (op.left.under s) (op.right.under s)
    obtain ⟨s', hs', hcomputed⟩ := ih hrest (by omega) (Function.update s op.result x)
    have hold : ∀ w : Wire, w.toNat < n → s' w = s w := by
      intro w hlt
      have hne : w ≠ op.result := by rintro rfl; omega
      rw [hs' w (by omega), Function.update_of_ne hne]
    have hnew : s' op.result = x := by
      rw [hs' op.result (by omega), Function.update_self]
    refine ⟨s', hold, fun op' hop' => ?_⟩
    rcases List.mem_cons.mp hop' with rfl | hop'
    · have hl := Value.under_congr fun w hv => hold w (hwires w (.inl hv))
      have hr := Value.under_congr fun w hv => hold w (hwires w (.inr hv))
      rw [hnew, hl, hr]
    · exact hcomputed op' hop'

/-- **Right results exist**, whatever the wires before them carry. -/
theorem exists_respected {n : ℕ} {ops : List (Operation p)} (h : StraightLine n ops)
    (hn : n + ops.length ≤ 2 ^ 32) (s : Wire → Scalar p) :
    ∃ s', (∀ w : Wire, w.toNat < n → s' w = s w) ∧ ∀ op ∈ ops, op.Respected s' := by
  obtain ⟨s', hold, hcomputed⟩ := h.exists_computed hn s
  exact ⟨s', hold, fun op hop => Operation.respected_of_eval (hcomputed op hop)⟩

/-- **Right results are determined** by the wires before them if no equality is among them. -/
theorem respected_unique {n : ℕ} {ops : List (Operation p)} (h : StraightLine n ops)
    (hn : n + ops.length ≤ 2 ^ 32) (hne : ∀ op ∈ ops, op.gate ≠ .eq) {s s' : Wire → Scalar p}
    (hs : ∀ op ∈ ops, op.Respected s) (hs' : ∀ op ∈ ops, op.Respected s')
    (heq : ∀ w : Wire, w.toNat < n → s w = s' w) (w : Wire) (hw : w.toNat < n + ops.length) :
    s w = s' w := by
  induction ops generalizing n with
  | nil => exact heq w hw
  | cons op ops ih =>
    rw [List.length_cons] at hn hw
    obtain ⟨⟨hresult, -, -, hwires⟩, hrest⟩ := h
    have hmem := @List.mem_cons_self _ op ops
    have hl := Value.under_congr fun w hv => heq w (hwires w (.inl hv))
    have hr := Value.under_congr fun w hv => heq w (hwires w (.inr hv))
    have hop : s op.result = s' op.result := by
      rw [Operation.eval_of_respected (hne op hmem) (hs op hmem),
        Operation.eval_of_respected (hne op hmem) (hs' op hmem), hl, hr]
    refine ih hrest (by omega) (fun op' h' => hne op' (List.mem_cons_of_mem op h'))
      (fun op' h' => hs op' (List.mem_cons_of_mem op h'))
      (fun op' h' => hs' op' (List.mem_cons_of_mem op h')) (fun w' hw' => ?_) (by omega)
    rcases Nat.lt_succ_iff_lt_or_eq.mp hw' with hlt | rfl
    · exact heq w' hlt
    · rw [hresult, UInt32.ofNat_toNat] at hop
      exact hop

end StraightLine

namespace Machine

open Bytecode (Function)

/-! ## The record of a run -/

/-- **The record of a store is that of given operations**, which follow `n` wires. -/
structure Store.Records (n : ℕ) (ops : List (Operation p)) (s : Store (System p) p) : Prop where
  grounded : s.Grounded
  size : s.ledger.recorder.wires.size = n + ops.length
  constraints : List.Forall₂ (fun op k => ∃ label, k = op.constraint label) ops
    s.ledger.recorder.constraints.toList
  straight : StraightLine n ops

namespace Store.Records

variable {n : ℕ} {ops : List (Operation p)} {s s' : Store (System p) p}

theorem of_rearranges (hs : s.Records n ops) (h : s.Rearranges s') : s'.Records n ops :=
  ⟨hs.grounded.of_rearranges h, h.recorder ▸ hs.size, h.recorder ▸ hs.constraints, hs.straight⟩

theorem of_applies (hs : s.Records n ops) {op : Operation p} {label : String}
    {rest : List (Value p)} (h : s.Applies op label rest s') : s'.Records n (ops ++ [op]) := by
  refine ⟨hs.grounded.of_applies h, ?_, ?_, hs.straight.append ⟨⟨?_, h.left, h.right, ?_⟩, trivial⟩⟩
  · rw [h.recorder, List.length_append, List.length_singleton, ← Nat.add_assoc, ← hs.size]
    exact Array.size_push _
  · rw [h.recorder, System.addConstraint, Array.toList_push]
    exact List.rel_append hs.constraints (.cons ⟨label, rfl⟩ .nil)
  · rw [h.result, hs.size]
  · intro w hw
    rw [← hs.size]
    rcases hw with hw | hw
    · exact hs.grounded _ w h.holds_left hw
    · exact hs.grounded _ w h.holds_right hw

theorem satisfiedBy_iff [Fact p.Prime] (hs : s.Records n ops) {a : Wire → Scalar p}
    (h1 : a Wire.one = 1) :
    (∀ k ∈ s.ledger.recorder.constraints, k.SatisfiedBy a) ↔ ∀ op ∈ ops, op.Respected a := by
  have husable := fun op (hop : op ∈ ops) => hs.straight.usable hop
  have hrel := hs.constraints
  simp only [← Array.mem_toList_iff]
  generalize s.ledger.recorder.constraints.toList = ks at hrel
  clear hs
  induction hrel with
  | nil => simp
  | cons h _ ih =>
    obtain ⟨label, rfl⟩ := h
    rw [List.forall_mem_cons, List.forall_mem_cons]
    obtain ⟨hl, hr⟩ := husable _ List.mem_cons_self
    exact and_congr (Operation.satisfiedBy_iff h1 hl hr label)
      (ih fun op hop => husable op (List.mem_cons_of_mem _ hop))

end Store.Records

/-- The gates that are applied by a number of instructions, in order. -/
def State.operations (setup : Setup) : (fuel : ℕ) → State (System p) p → List (Operation p)
  | 0, _ => []
  | fuel + 1, m =>
    (m.operation? (finalState (State.step setup m))).toList ++
      match State.step setup m with
      | .ok false m' => operations setup fuel m'
      | _ => []

theorem records_step (setup : Setup) {n : ℕ} {ops : List (Operation p)} {m : State (System p) p}
    (hm : m.store.Records n ops) :
    (finalState (State.step setup m)).store.Records n
      (ops ++ (m.operation? (finalState (State.step setup m))).toList) := by
  rcases State.step_cases setup hm.grounded with ⟨hop, h⟩ | ⟨op, label, rest, hop, h⟩
  · rw [hop, Option.toList_none, List.append_nil]
    exact hm.of_rearranges h
  · rw [hop, Option.toList_some]
    exact hm.of_applies h

theorem records_loop (setup : Setup) {n : ℕ} {ops : List (Operation p)} (fuel : ℕ)
    {m : State (System p) p} (hm : m.store.Records n ops) :
    (finalState (State.loop setup fuel m)).store.Records n
      (ops ++ State.operations setup fuel m) := by
  induction fuel generalizing m ops with
  | zero =>
    rw [State.operations, List.append_nil]
    exact hm
  | succ fuel ih =>
    have h := records_step setup hm
    rw [State.operations, State.loop, ← List.append_assoc]
    cases hs : State.step setup m with
    | error e m' =>
      rw [hs] at h
      rw [List.append_nil]
      exact h
    | ok done m' =>
      rw [hs] at h
      cases done with
      | true =>
        rw [List.append_nil]
        exact h
      | false => exact ih h

/-! ## Runs -/

/-- The gates that a run applies, in order. -/
def State.runOperations (setup : Setup) (fuel : ℕ) (index : UInt16) (args : List (Scalar p))
    (m : State (System p) p) : List (Operation p) :=
  (State.started? setup index args m).elim [] (State.operations setup fuel)

/-- **The record of a run** of an eligible function: after the wire of one come those of the
parameters, and then those of the gates. -/
theorem records_eligible {setup : Setup} {index : UInt16} {args : List (Scalar p)} {f : Function}
    (he : State.eligible setup index args = .ok f) (fuel : ℕ) :
    (finalState (State.run setup fuel index args (.new setup))).store.Records (1 + f.params.length)
      (State.runOperations setup fuel index args (.new setup)) := by
  obtain ⟨m, hstart, -, hsize, hconstraints, -⟩ := State.start_eq he (.new setup)
  have hground : m.store.Grounded :=
    (Invariant.of_grounded setup.config.mode).of_start (fun _ h v _ hv => absurd hv (h v)) hstart
  have hm : m.store.Records (1 + f.params.length) [] := by
    refine ⟨hground, hsize, ?_, trivial⟩
    rw [hconstraints]
    exact .nil
  have hloop := records_loop setup fuel hm
  simp only [State.runOperations, State.started?, State.run, he, bind, EStateM.bind, hstart,
    Option.elim_some]
  cases hl : State.loop setup fuel m with
  | error e m' => rw [hl] at hloop; exact hloop
  | ok u m' =>
    rw [hl] at hloop
    have hpop := (Keeps.onMachineStore (effects_rearranges.popResults f.returns [])).final
      (s := m') (Store.rearranges_refl m'.store)
    exact hloop.of_rearranges hpop

/-- **The record of any run**, which has no wires but the one of one if it does not start. -/
theorem records_run (setup : Setup) (fuel : ℕ) (index : UInt16) (args : List (Scalar p)) :
    ∃ n, (finalState (State.run setup fuel index args (.new setup))).store.Records (1 + n)
        (State.runOperations setup fuel index args (.new setup)) ∧
      ∀ w, w ∈ State.argumentWires setup index args (.new setup) ↔
        ∃ j < n, w = UInt32.ofNat (1 + j) := by
  cases he : State.eligible setup index args with
  | error e =>
    simp only [State.runOperations, State.argumentWires, State.started?, State.run, he]
    refine ⟨0, ⟨fun v w hv => absurd hv Store.not_holds_initial, rfl, .nil, trivial⟩, fun w => ?_⟩
    simp
  | ok f =>
    refine ⟨f.params.length, records_eligible he fuel, fun w => ?_⟩
    rw [State.argumentWires_eq he, List.mem_map]
    constructor
    · rintro ⟨j, hj, rfl⟩
      exact ⟨j, List.mem_range.mp hj, rfl⟩
    · rintro ⟨j, hj, rfl⟩
      exact ⟨j, List.mem_range.mpr hj, rfl⟩

/-- **The meaning of the circuit of a run.** Under an assignment in which the wire of one carries one,
all constraints hold if and only if every gate that was applied has a right result. So every
assignment of the arguments can be extended to one that satisfies all constraints, and if no equality
was applied there is only one extension to the wires of the circuit. -/
theorem circuit_meaning [Fact p.Prime] (setup : Setup) (fuel : ℕ) (index : UInt16)
    (args : List (Scalar p)) {sys : System p} {ops : List (Operation p)} {inputs : List Wire}
    (hsys : (finalState (State.run setup fuel index args (.new setup))).store.ledger.recorder = sys)
    (hops : State.runOperations setup fuel index args (.new setup) = ops)
    (hinputs : State.argumentWires setup index args (.new setup) = inputs)
    (hsize : sys.wires.size ≤ 2 ^ 32) :
    (∀ s : Wire → Scalar p, s Wire.one = 1 →
      ((∀ k ∈ sys.constraints, k.SatisfiedBy s) ↔ ∀ op ∈ ops, op.Respected s)) ∧
    (∀ a : Wire → Scalar p, ∃ s, s Wire.one = 1 ∧ (∀ w ∈ inputs, s w = a w) ∧
      ∀ k ∈ sys.constraints, k.SatisfiedBy s) ∧
    ((∀ op ∈ ops, op.gate ≠ .eq) → ∀ s s' : Wire → Scalar p, s Wire.one = 1 → s' Wire.one = 1 →
      (∀ k ∈ sys.constraints, k.SatisfiedBy s) → (∀ k ∈ sys.constraints, k.SatisfiedBy s') →
      (∀ w ∈ inputs, s w = s' w) → ∀ w : Wire, w.toNat < sys.wires.size → s w = s' w) := by
  obtain ⟨n, hrec, hwires⟩ := records_run setup fuel index args
  subst hsys hops hinputs
  have hn := hrec.size
  have hmeaning : ∀ s : Wire → Scalar p, s Wire.one = 1 → _ := fun s h1 => hrec.satisfiedBy_iff h1
  refine ⟨hmeaning, fun a => ?_, fun hne s s' h1 h1' hs hs' heq w hw => ?_⟩
  · obtain ⟨s, hold, hresp⟩ := hrec.straight.exists_respected (by omega)
      (Function.update a Wire.one 1)
    have h1 : s Wire.one = 1 := by
      rw [hold Wire.one (by change 0 < 1 + n; omega), Function.update_self]
    refine ⟨s, h1, fun w hw => ?_, (hmeaning s h1).mpr hresp⟩
    obtain ⟨j, hj, rfl⟩ := (hwires w).mp hw
    have hlt : 1 + j < 2 ^ 32 := by omega
    have hnat : (UInt32.ofNat (1 + j)).toNat = 1 + j := UInt32.toNat_ofNat_of_lt hlt
    have hne : UInt32.ofNat (1 + j) ≠ Wire.one := by
      intro h
      rw [h] at hnat
      change 0 = 1 + j at hnat
      omega
    rw [hold _ (by omega), Function.update_of_ne hne]
  · refine hrec.straight.respected_unique (by omega) hne ((hmeaning s h1).mp hs)
      ((hmeaning s' h1').mp hs') (fun w' hw' => ?_) w (by omega)
    by_cases hone : w' = Wire.one
    · rw [hone, h1, h1']
    · have hpos : 0 < w'.toNat := by
        rcases Nat.eq_zero_or_pos w'.toNat with h0 | h0
        · exact absurd (UInt32.toNat_inj.mp h0) hone
        · exact h0
      refine heq w' ((hwires w').mpr ⟨w'.toNat - 1, by omega, ?_⟩)
      rw [Nat.add_sub_cancel' hpos, UInt32.ofNat_toNat]

/-- The shape of a circuit that compares the sum of two parameters with their product. -/
def sumIsProduct : Setup :=
  .ofCode 2 1
    #[.ofNat .copyLoc 0, .ofNat .copyLoc 1, .ofNat .add 0, .ofNat .copyLoc 0, .ofNat .copyLoc 1,
      .ofNat .mul 0, .ofNat .eq 0, .ofNat .ret 0]

/-- Its record. -/
def sumIsProductCircuit : System ScalarField.bn254.modulus :=
  (finalState (State.run sumIsProduct 10 0 [] (.new sumIsProduct))).store.ledger.recorder

/-- The two parameters can be assigned at will. -/
theorem circuit_meaning_sumIsProduct :
    sumIsProductCircuit.wires.size = 6 ∧
      ∀ a : Wire → Scalar ScalarField.bn254.modulus, ∃ s, s Wire.one = 1 ∧
        (∀ w ∈ ([1, 2] : List Wire), s w = a w) ∧
        ∀ k ∈ sumIsProductCircuit.constraints, k.SatisfiedBy s := by
  have hsys : (finalState (State.run sumIsProduct 10 0 []
      (.new sumIsProduct))).store.ledger.recorder = sumIsProductCircuit := rfl
  have hinputs : State.argumentWires sumIsProduct 0 []
      (.new sumIsProduct : State (System ScalarField.bn254.modulus) _) = [1, 2] := by
    decide +kernel
  have hsize : sumIsProductCircuit.wires.size = 6 := by decide +kernel
  have h := circuit_meaning sumIsProduct 10 0 [] hsys rfl hinputs (hsize.trans_le (by decide))
  exact ⟨hsize, h.2.1⟩

end Machine

end StackCircuit
