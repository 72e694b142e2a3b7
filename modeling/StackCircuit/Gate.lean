import StackCircuit.Journal

/-!
# Gates

The arithmetic of the machine.  A gate takes two values, allocates a wire for the result and records
one constraint that ties the three together.

* **`Gate`**: sum, difference, product and equality.
* `Gate.eval`: what a gate computes; `Gate.sides`: the constraint it records.
* `Guard`: the condition under which gates of an arm count.
* `Gate.constant`, **`Gate.apply`**: loading a literal and recording a gate.

The equality gate `(a - b) · c = 0` forces `a = b` where `c` is one, and does not force `c` to be
one where `a = b`.
-/

namespace StackCircuit

open Circuit (Combination Recorder Resolution)

/-- The gates. -/
inductive Gate where
  | add | sub | mul | eq
deriving DecidableEq, Repr

variable {p : Nat} [Modulus p] {σ : Type}

/-- The condition under which an arm counts, or under whose negation it does. -/
structure Guard (p : Nat) where
  cond : Value p
  negated : Bool
deriving DecidableEq, Repr

namespace Guard

/-- One if the arm counts and zero if it does not, where this is known. -/
def value? (g : Guard p) : Option (Scalar p) :=
  g.cond.value?.map fun x => if g.negated then 1 - x else x

/-- The guard of the other arm. -/
def flip (g : Guard p) : Guard p :=
  { g with negated := !g.negated }

end Guard

namespace Gate

/-- What a gate computes. -/
def eval : Gate → Scalar p → Scalar p → Scalar p
  | add, x, y => x + y
  | sub, x, y => x - y
  | mul, x, y => x * y
  | eq, x, y => .ofBool (x = y)

/-- The sides of the constraint that ties the operands of a gate to its result. -/
def sides : Gate → (a b result : Combination p) → Combination p × Combination p × Combination p
  | add, a, b, result => (a.plus b, .constant 1, result)
  | sub, a, b, result => (a.minus b, .constant 1, result)
  | mul, a, b, result => (a, b, result)
  | eq, a, b, result => (a.minus b, result, [])

/-- The type of the result: a truth value for equality, and otherwise the type of the left
operand. -/
def resultType : Gate → Value p → ValueType
  | eq, _ => .bool
  | _, a => a.type?.getD .bool

/-- The result, if both operands are known. -/
def result? (g : Gate) (a b : Value p) : Option (Scalar p) :=
  match a.value?, b.value? with
  | some x, some y => some (g.eval x y)
  | _, _ => none

/-- Loads a literal, for which nothing is recorded. -/
def constant {ε : Type} (label : String) (x : Scalar p) (type : ValueType) :
    EStateM ε (Ledger σ p) (Value p) := do
  Ledger.note (.constant label x type)
  return .constant x type none

/-- Records a gate whose operands are given as combinations. -/
def synthesise [Recorder σ p] (g : Gate) (label : String) (a b : Combination p)
    (result : Option (Scalar p)) (type : ValueType) :
    EStateM GateError (Ledger σ p) (Value p) := do
  let wire ← Ledger.record (.circuit label) (Recorder.alloc label (.ofOption result))
  let (x, y, z) := g.sides a b (.single wire)
  Ledger.record (.circuit label) (Recorder.enforce label x y z)
  return .wired wire result type

/-- Applies a gate to two values under a guard, if there is one. -/
def apply [Recorder σ p] (g : Gate) (label : String) (a b : Value p) (guard : Option (Guard p)) :
    EStateM GateError (Ledger σ p) (Value p) :=
  match a.combination?, b.combination? with
  | none, _ => throw (.operand label .left)
  | some _, none => throw (.operand label .right)
  | some left, some right => do
    match guard with
    | none => pure ()
    | some guard => Ledger.note (.guarded label guard.negated)
    g.synthesise label left right (g.result? a b) (g.resultType a)

end Gate

end StackCircuit
