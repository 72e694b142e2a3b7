import StackCircuit.Circuit.System
import StackCircuit.Proofs.Field

/-!
# Satisfaction

An assignment gives every wire a residue. A combination has a value under it, and a constraint holds
or does not.

* `Combination.eval_plus`, `eval_minus`, …: values of combinations, operation by operation.
* **`Constraint.SatisfiedBy`**: a constraint holds under an assignment.
* `System.assignment`: the assignment that a system carries.
* **`System.check_eq_none`**: a system whose wires all have values passes its check if its
  assignment satisfies every constraint.
* `System.addWire`, `System.addConstraint`: what a successful record does to a system.
-/

namespace StackCircuit.Circuit

variable {p : ℕ}

namespace System

/-! ## Recording -/

/-- The system with one more wire. -/
def addWire (sys : System p) (label : String) (x : Option (Scalar p)) : System p :=
  { sys with wires := sys.wires.push ⟨label, x⟩ }

/-- The system with one more constraint. -/
def addConstraint (sys : System p) (k : Constraint p) : System p :=
  { sys with constraints := sys.constraints.push k }

theorem alloc_ofOption (sys : System p) (label : String) (x : Option (Scalar p)) :
    System.alloc label (.ofOption x) sys =
      .ok (UInt32.ofNat sys.wires.size) (sys.addWire label x) := by
  cases x <;> rfl

theorem enforce_eq_ok {sys : System p} {label : String} {a b c : Combination p}
    (h : ∀ t ∈ a ++ (b ++ c), sys.hasWire t.wire = true) :
    System.enforce label a b c sys = .ok () (sys.addConstraint ⟨label, a, b, c⟩) := by
  have hnone : sys.unknownWire? ⟨label, a, b, c⟩ = none := by
    rw [unknownWire?, List.find?_eq_none]
    intro w hw
    obtain ⟨t, ht, rfl⟩ := List.mem_map.mp hw
    have ht' : t ∈ a ++ (b ++ c) := by simpa [Constraint.sides] using ht
    rw [h t ht']
    decide
  rw [enforce, hnone]
  rfl

theorem value?_addWire_of_lt {sys : System p} {label : String} {x : Option (Scalar p)} {w : Wire}
    (h : w.toNat < sys.wires.size) : (sys.addWire label x).value? w = sys.value? w := by
  rw [value?, value?, addWire, Array.getElem?_push_lt h, Array.getElem?_eq_getElem h]

theorem value?_addWire_size {sys : System p} {label : String} {x : Option (Scalar p)} {w : Wire}
    (h : w.toNat = sys.wires.size) : (sys.addWire label x).value? w = x := by
  rw [value?, addWire, h, Array.getElem?_push_size]
  rfl

end System

variable [Modulus p]

namespace Combination

variable (s : Wire → Scalar p)

/-! ## Values of combinations -/

theorem foldl_eq_add_eval (sum : Scalar p) (c : Combination p) :
    c.foldl (fun sum t => sum + t.coeff * s t.wire) sum = sum + eval s c := by
  induction c generalizing sum with
  | nil => exact (add_zero sum).symm
  | cons t c ih =>
    rw [eval, List.foldl_cons, List.foldl_cons, ih, ih, zero_add, add_assoc]

theorem eval_nil : eval s [] = 0 := rfl

theorem eval_cons (t : Term p) (c : Combination p) :
    eval s (t :: c) = t.coeff * s t.wire + eval s c := by
  rw [eval, List.foldl_cons, foldl_eq_add_eval, zero_add]

theorem eval_plus (a b : Combination p) : eval s (a.plus b) = eval s a + eval s b := by
  rw [plus]
  induction a with
  | nil => rw [List.nil_append, eval_nil, zero_add]
  | cons t a ih => rw [List.cons_append, eval_cons, eval_cons, ih, add_assoc]

theorem eval_minus (a b : Combination p) : eval s (a.minus b) = eval s a - eval s b := by
  have hneg : eval s (b.map fun t => ⟨0 - t.coeff, t.wire⟩) = -eval s b := by
    induction b with
    | nil => rw [List.map_nil, eval_nil, neg_zero]
    | cons t b ih => rw [List.map_cons, eval_cons, eval_cons, ih]; ring
  rw [sub_eq_add_neg, ← hneg]
  exact eval_plus s a _

theorem eval_constant (x : Scalar p) : eval s (constant x) = x * s Wire.one := by
  rw [constant, eval_cons, eval_nil, add_zero]

theorem eval_single (w : Wire) : eval s (single w) = s w := by
  rw [single, eval_cons, eval_nil, add_zero, one_mul]

theorem eval_congr {s s' : Wire → Scalar p} {c : Combination p}
    (h : ∀ t ∈ c, s t.wire = s' t.wire) : eval s c = eval s' c := by
  induction c with
  | nil => rfl
  | cons t c ih =>
    rw [eval_cons, eval_cons, h t List.mem_cons_self, ih fun u hu => h u (List.mem_cons_of_mem t hu)]

end Combination

/-- **A constraint holds under an assignment.** -/
def Constraint.SatisfiedBy (k : Constraint p) (s : Wire → Scalar p) : Prop :=
  k.a.eval s * k.b.eval s = k.c.eval s

namespace System

/-! ## The assignment of a system -/

/-- The assignment that a system carries; wires without a value get zero. -/
def assignment (sys : System p) (w : Wire) : Scalar p := (sys.value? w).getD 0

/-- The wires of a combination have values. -/
def Assigns (sys : System p) (c : Combination p) : Prop := ∀ t ∈ c, (sys.value? t.wire).isSome

theorem evaluateOnto_eq (sys : System p) (sum : Scalar p) {c : Combination p} (h : sys.Assigns c) :
    sys.evaluateOnto sum c = .ok (sum + c.eval sys.assignment) := by
  induction c generalizing sum with
  | nil => rw [evaluateOnto, Combination.eval_nil, add_zero]
  | cons t c ih =>
    obtain ⟨x, hx⟩ := Option.isSome_iff_exists.mp (h t List.mem_cons_self)
    have ht : sys.assignment t.wire = x := by rw [assignment, hx, Option.getD_some]
    rw [evaluateOnto, hx, Combination.eval_cons, ht]
    change sys.evaluateOnto (sum + t.coeff * x) c = _
    rw [ih _ fun u hu => h u (List.mem_cons_of_mem t hu), add_assoc]

theorem evaluate_eq (sys : System p) {c : Combination p} (h : sys.Assigns c) :
    sys.evaluate c = .ok (c.eval sys.assignment) := by
  rw [evaluate, evaluateOnto_eq sys 0 h, zero_add]

theorem holds_eq_true {sys : System p} {k : Constraint p} (ha : sys.Assigns k.a)
    (hb : sys.Assigns k.b) (hc : sys.Assigns k.c) (hk : k.SatisfiedBy sys.assignment) :
    sys.holds k = .ok true := by
  rw [holds, evaluate_eq sys ha, evaluate_eq sys hb, evaluate_eq sys hc]
  exact congrArg Except.ok (decide_eq_true hk)

theorem firstViolation?_eq_none {sys : System p} (index : ℕ) {ks : List (Constraint p)}
    (h : ∀ k ∈ ks, sys.holds k = .ok true) : sys.firstViolation? index ks = none := by
  induction ks generalizing index with
  | nil => rfl
  | cons k ks ih =>
    rw [firstViolation?, h k List.mem_cons_self]
    exact ih (index + 1) fun k' hk' => h k' (List.mem_cons_of_mem k hk')

/-- **The check passes where every constraint is satisfied by values that are known.** -/
theorem check_eq_none {sys : System p}
    (h : ∀ k ∈ sys.constraints, sys.Assigns k.a ∧ sys.Assigns k.b ∧ sys.Assigns k.c ∧
      k.SatisfiedBy sys.assignment) : sys.check = none := by
  refine firstViolation?_eq_none 0 fun k hk => ?_
  obtain ⟨ha, hb, hc, hs⟩ := h k (Array.mem_toList_iff.mp hk)
  exact holds_eq_true ha hb hc hs

end System

end StackCircuit.Circuit
