import StackCircuit.Circuit.Combination
import StackCircuit.Text.Quoted

/-!
# Constraint systems

A rank-1 constraint system records wires, with or without values, and constraints `a · b = c`
between linear combinations of them.

* `Constraint`, `WireEntry`, **`System p`**: what is recorded.
* `CircuitError`: why a record is refused; a refused record changes nothing.
* `System.alloc`, `System.enforce`: the two ways to record.
* `System.evaluate`, **`System.check`**: the value of a combination, and the first constraint that
  does not hold.
-/

namespace StackCircuit.Circuit

/-! ## What is recorded -/

/-- A recorded wire: the label under which it was allocated, and its value if it has one. -/
structure WireEntry (p : Nat) where
  label : String
  value : Option (Scalar p)
deriving DecidableEq, Repr

/-- The condition that the product of two combinations is a third, with the label under which it was
recorded. -/
structure Constraint (p : Nat) where
  label : String
  a : Combination p
  b : Combination p
  c : Combination p
deriving DecidableEq, Repr

/-- A constraint system: the wires by number, and the constraints in the order in which they were
recorded. -/
structure System (p : Nat) where
  wires : Array (WireEntry p)
  constraints : Array (Constraint p)
deriving DecidableEq, Repr

variable {p : Nat} [Modulus p]

/-- The text of a constraint. -/
def Constraint.text (k : Constraint p) : String :=
  k.label ++ ": (" ++ k.a.text ++ ") * (" ++ k.b.text ++ ") = (" ++ k.c.text ++ ")"

/-- The combinations of a constraint in order. -/
def Constraint.sides (k : Constraint p) : List (Combination p) :=
  [k.a, k.b, k.c]

/-! ## Recording -/

/-- What is known of the value of a new wire. -/
inductive Resolution (p : Nat) where
  | known (x : Scalar p)
  | missing
  | failed (reason : String)
deriving DecidableEq, Repr

/-- The resolution of a value that may be known. -/
def Resolution.ofOption : Option (Scalar p) → Resolution p
  | some x => known x
  | none => missing

/-- Why a record is refused; a reason outside the system is `refused`. -/
inductive CircuitError where
  | allocation (label reason : String)
  | unknownWire (label : String) (wire : Wire)
  | refused (reason : String)
deriving DecidableEq, Repr

/-- The wording of a refusal. -/
def CircuitError.text : CircuitError → String
  | allocation label reason => s!"allocating wire {Text.quote label}: {reason}"
  | unknownWire label wire => s!"constraint {Text.quote label} refers to unknown wire {wire.text}"
  | refused reason => reason

namespace System

/-- The system with the wire that carries one and no constraints. -/
def initial : System p :=
  ⟨#[⟨"one", some 1⟩], #[]⟩

/-- Whether a wire has been allocated. -/
def hasWire (s : System p) (w : Wire) : Bool :=
  w.toNat < s.wires.size

/-- Allocates a wire and gives its number, which is the position of its entry as a 32-bit number. -/
def alloc (label : String) (r : Resolution p) : EStateM CircuitError (System p) Wire :=
  fun ⟨wires, constraints⟩ =>
    match r with
    | .known x => .ok (UInt32.ofNat wires.size) ⟨wires.push ⟨label, some x⟩, constraints⟩
    | .missing => .ok (UInt32.ofNat wires.size) ⟨wires.push ⟨label, none⟩, constraints⟩
    | .failed reason => .error (.allocation label reason) ⟨wires, constraints⟩

/-- The first wire of a constraint that has not been allocated. -/
def unknownWire? (s : System p) (k : Constraint p) : Option Wire :=
  (k.sides.flatten.map (·.wire)).find? fun w => !s.hasWire w

/-- Records a constraint between allocated wires. -/
def enforce (label : String) (a b c : Combination p) : EStateM CircuitError (System p) Unit :=
  fun s =>
    match s.unknownWire? ⟨label, a, b, c⟩ with
    | some w => .error (.unknownWire label w) s
    | none => .ok () { s with constraints := s.constraints.push ⟨label, a, b, c⟩ }

/-! ## Evaluation -/

/-- The value of a wire that exists and has one. -/
def value? (s : System p) (w : Wire) : Option (Scalar p) :=
  (s.wires[w.toNat]?).bind (·.value)

/-- The label of a wire that exists. -/
def label (s : System p) (w : Wire) : Except Fault String :=
  match s.wires[w.toNat]? with
  | none => .error .indexOutOfRange
  | some entry => .ok entry.label

end System

/-- Why a combination has no value. -/
inductive EvaluationError where
  | unassigned (wire : Wire) (label : String)
  | fault (cause : Fault)
deriving DecidableEq, Repr

/-- The wording of a missing value. -/
def EvaluationError.text : EvaluationError → String
  | unassigned wire label => s!"wire {wire.text} ({label}) is unassigned"
  | fault cause => cause.text

/-- Why a constraint does not hold. -/
inductive Violation where
  | unknown (index : Nat) (label : String) (cause : EvaluationError)
  | unequal (index : Nat) (label : String)
deriving DecidableEq, Repr

/-- The wording of a violation. -/
def Violation.text : Violation → String
  | unknown index label cause => s!"constraint #{index} ({label}): {cause.text}"
  | unequal index label => s!"constraint #{index} ({label}) does not hold"

namespace System

/-- The value of the terms of a combination, added to a sum. -/
def evaluateOnto (s : System p) (sum : Scalar p) :
    Combination p → Except EvaluationError (Scalar p)
  | [] => .ok sum
  | t :: rest =>
    match s.value? t.wire with
    | some x => evaluateOnto s (sum + t.coeff * x) rest
    | none =>
      match s.label t.wire with
      | .ok label => .error (.unassigned t.wire label)
      | .error cause => .error (.fault cause)

/-- The value of a combination. -/
def evaluate (s : System p) (c : Combination p) : Except EvaluationError (Scalar p) :=
  evaluateOnto s 0 c

/-- Whether a constraint holds: both sides are evaluated in order and compared. -/
def holds (s : System p) (k : Constraint p) : Except EvaluationError Bool := do
  let a ← s.evaluate k.a
  let b ← s.evaluate k.b
  let c ← s.evaluate k.c
  return a * b = c

/-- The first violation among constraints that are numbered from `index` on. -/
def firstViolation? (s : System p) : (index : Nat) → List (Constraint p) → Option Violation
  | _, [] => none
  | index, k :: rest =>
    match s.holds k with
    | .error cause => some (.unknown index k.label cause)
    | .ok false => some (.unequal index k.label)
    | .ok true => firstViolation? s (index + 1) rest

/-- The first constraint that does not hold, if any. -/
def check (s : System p) : Option Violation :=
  s.firstViolation? 0 s.constraints.toList

/-- The verdict on a system in words. -/
def verdict (s : System p) : String :=
  match s.check with
  | none => "ok"
  | some violation => violation.text

end System

end StackCircuit.Circuit
