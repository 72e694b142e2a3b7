import StackCircuit.Proofs.Machine.Gates

/-!
# The meaning of an operation

Every application of a gate is recorded as one constraint. Under an assignment in which the wire of
one carries one, the constraint says what the gate computes.

* `Value.under`: a value under an assignment of all wires.
* **`Operation.Respected`**: the result of an application is right under an assignment. An equality
  has to be zero where its operands differ, and can be anything where they do not.
* **`Operation.satisfiedBy_iff`**: the recorded constraint says just that.
* `Operation.respected_of_eval`: what a gate computes is a right result.
-/

namespace StackCircuit

open Circuit (Wire Combination Constraint System)

variable {p : ℕ} [Modulus p]

/-- A value under an assignment: that of its wire if it is bound, and its constant otherwise. -/
def Value.under (s : Wire → Scalar p) (v : Value p) : Scalar p :=
  match v.wire? with
  | some w => s w
  | none => v.value?.getD 0

theorem Value.eval_combination {s : Wire → Scalar p} (h1 : s Wire.one = 1) {v : Value p}
    (hv : v.combination?.isSome) : (v.combination?.getD []).eval s = v.under s := by
  match v with
  | .invalid => cases hv
  | .constant x type (some w) => exact Combination.eval_single s w
  | .constant x type none =>
    have h := Combination.eval_constant s x
    rw [h1, mul_one] at h
    exact h
  | .wired w x type => exact Combination.eval_single s w

theorem Value.under_congr {s s' : Wire → Scalar p} {v : Value p}
    (h : ∀ w, v.wire? = some w → s w = s' w) : v.under s = v.under s' := by
  unfold Value.under
  cases hw : v.wire? with
  | none => rfl
  | some w => exact h w hw

namespace Operation

variable {op : Operation p} {s : Wire → Scalar p}

/-- **The result of an application is right under an assignment.** -/
def Respected (op : Operation p) (s : Wire → Scalar p) : Prop :=
  match op.gate with
  | .add => s op.result = op.left.under s + op.right.under s
  | .sub => s op.result = op.left.under s - op.right.under s
  | .mul => s op.result = op.left.under s * op.right.under s
  | .eq => op.left.under s ≠ op.right.under s → s op.result = 0

theorem satisfiedBy_iff_sides (h1 : s Wire.one = 1) (hl : op.left.combination?.isSome)
    (hr : op.right.combination?.isSome) (label : String) :
    (op.constraint label).SatisfiedBy s ↔
      match op.gate with
      | .add => op.left.under s + op.right.under s = s op.result
      | .sub => op.left.under s - op.right.under s = s op.result
      | .mul => op.left.under s * op.right.under s = s op.result
      | .eq => (op.left.under s - op.right.under s) * s op.result = 0 := by
  have hone : (Combination.constant (1 : Scalar p)).eval s = 1 := by
    rw [Combination.eval_constant, h1, one_mul]
  have hl' := Value.eval_combination h1 hl
  have hr' := Value.eval_combination h1 hr
  unfold Constraint.SatisfiedBy constraint sides
  cases op.gate with
  | add =>
    simp only [Gate.sides, Combination.eval_plus, Combination.eval_single, hone, hl', hr', mul_one]
  | sub =>
    simp only [Gate.sides, Combination.eval_minus, Combination.eval_single, hone, hl', hr', mul_one]
  | mul => simp only [Gate.sides, Combination.eval_single, hl', hr']
  | eq =>
    simp only [Gate.sides, Combination.eval_minus, Combination.eval_single, Combination.eval_nil,
      hl', hr']

theorem satisfiedBy_of_respected (h1 : s Wire.one = 1) (hl : op.left.combination?.isSome)
    (hr : op.right.combination?.isSome) (label : String) (h : op.Respected s) :
    (op.constraint label).SatisfiedBy s := by
  rw [satisfiedBy_iff_sides h1 hl hr]
  unfold Respected at h
  cases hg : op.gate with
  | add => rw [hg] at h; exact h.symm
  | sub => rw [hg] at h; exact h.symm
  | mul => rw [hg] at h; exact h.symm
  | eq =>
    rw [hg] at h
    by_cases hne : op.left.under s = op.right.under s
    · simp only [hne, sub_self, zero_mul]
    · simp only [h hne, mul_zero]

/-- **The constraint of an application** holds under an assignment if and only if the result is
right. -/
theorem satisfiedBy_iff [Fact p.Prime] (h1 : s Wire.one = 1) (hl : op.left.combination?.isSome)
    (hr : op.right.combination?.isSome) (label : String) :
    (op.constraint label).SatisfiedBy s ↔ op.Respected s := by
  refine ⟨fun h => ?_, satisfiedBy_of_respected h1 hl hr label⟩
  rw [satisfiedBy_iff_sides h1 hl hr] at h
  unfold Respected
  cases hg : op.gate with
  | add => rw [hg] at h; exact h.symm
  | sub => rw [hg] at h; exact h.symm
  | mul => rw [hg] at h; exact h.symm
  | eq => rw [hg] at h; exact Scalar.eq_zero_of_sub_mul_eq_zero h

theorem respected_of_eval (h : s op.result = op.gate.eval (op.left.under s) (op.right.under s)) :
    op.Respected s := by
  unfold Respected
  cases hg : op.gate with
  | add => rw [hg] at h; exact h
  | sub => rw [hg] at h; exact h
  | mul => rw [hg] at h; exact h
  | eq =>
    rw [hg] at h
    intro hne
    rw [h, Gate.eval, decide_eq_false hne]
    rfl

theorem eval_of_respected (hg : op.gate ≠ .eq) (h : op.Respected s) :
    s op.result = op.gate.eval (op.left.under s) (op.right.under s) := by
  unfold Respected at h
  cases hop : op.gate with
  | add => rw [hop] at h; exact h
  | sub => rw [hop] at h; exact h
  | mul => rw [hop] at h; exact h
  | eq => exact absurd hop hg

end Operation

end StackCircuit
