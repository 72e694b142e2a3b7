/-!
# Faults

A **fault** is a use of an operation outside its contract: an index past the end of a table, a name
for locals that were given back, a span that ends before it starts.  Faults are kept apart from the
failures that a program under execution can cause, so that "no fault" is a statement of its own.

* `Fault`: the causes.
* `Fault.text`: their wording.
-/

namespace StackCircuit

/-- The ways in which an operation can be used outside its contract. Locals that have been released and
functions that do not exist are `absent`, and a base is invalid outside 2 to 36. -/
inductive Fault where
  | indexOutOfRange | sliceOutOfRange | absent | invalidSpan | invalidBase | bindInvalid
  | typeOfInvalid
  | unknownType (code : Nat)
  | fewerLocals (function : String) (locals params : Nat)
  | noArms
deriving DecidableEq, Repr

/-- The wording of a fault. -/
def Fault.text : Fault → String
  | .indexOutOfRange => "index out of range"
  | .sliceOutOfRange => "slice bounds out of range"
  | .absent => "nil pointer dereference"
  | .invalidSpan => "invalid span"
  | .invalidBase => "invalid base"
  | .bindInvalid => "cannot bind invalid value"
  | .typeOfInvalid => "invalid value has no type"
  | .unknownType code => s!"unknown type {code}"
  | .fewerLocals function locals params =>
    s!"function {function} has fewer locals ({locals}) than parameters ({params})"
  | .noArms => "conditional block requires at least one branch"

end StackCircuit
