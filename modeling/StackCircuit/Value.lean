import StackCircuit.Bytecode.ValueType
import StackCircuit.Circuit.Combination

/-!
# Values

What the stack and the locals of a machine hold.

* **`Value p`**: nothing usable, a constant that may be bound to a wire, or a wire whose value may
  be known.
* `Value.value?`, `Value.wire?`, `Value.type`, `Value.bind`: the parts of a value.
* `Value.combination?`: the linear combination that stands for a value in constraints.
-/

namespace StackCircuit

open Circuit (Wire Combination)

/-- A value of the machine. It is invalid if it was never written or has been moved away, constant if it
is known when the circuit is built, and otherwise a wire, whose value may be known. -/
inductive Value (p : Nat) where
  | invalid
  | constant (x : Scalar p) (type : ValueType) (wire : Option Wire)
  | wired (wire : Wire) (x : Option (Scalar p)) (type : ValueType)
deriving DecidableEq, Repr

namespace Value

variable {p : Nat} [Modulus p]

/-! ## Literals -/

/-- The constant of a number of a given type, not bound to a wire. -/
def literal (type : ValueType) (n : Nat) : Value p :=
  constant (.ofNat n) type none

/-- The constant of a truth value. -/
def ofBool (b : Bool) : Value p :=
  constant (.ofBool b) .bool none

/-! ## Parts -/

/-- Whether a value is usable. -/
def isValid : Value p → Bool
  | invalid => false
  | _ => true

/-- Whether a value is a constant. -/
def isConstant : Value p → Bool
  | constant .. => true
  | _ => false

/-- Whether a value is a wire. -/
def isWired : Value p → Bool
  | wired .. => true
  | _ => false

/-- The residue, if it is known. -/
def value? : Value p → Option (Scalar p)
  | invalid => none
  | constant x _ _ => some x
  | wired _ x _ => x

/-- The wire that a value is bound to. -/
def wire? : Value p → Option Wire
  | invalid => none
  | constant _ _ w => w
  | wired w _ _ => some w

/-- The type of a usable value. -/
def type? : Value p → Option ValueType
  | invalid => none
  | constant _ t _ => some t
  | wired _ _ t => some t

/-- The type of a value that has to be usable. -/
def type (v : Value p) : Except Fault ValueType :=
  match v.type? with
  | none => .error .typeOfInvalid
  | some t => .ok t

/-- The value bound to a wire. -/
def bind (w : Wire) : Value p → Except Fault (Value p)
  | invalid => .error .bindInvalid
  | constant x t _ => .ok (constant x t (some w))
  | wired _ x t => .ok (wired w x t)

/-- The text of a residue that may be known. -/
def residueText (x : Option (Scalar p)) : String :=
  match x with
  | none => "?"
  | some x => x.decimal

/-- The text of a value. -/
def text : Value p → String
  | invalid => "invalid"
  | constant x t none => x.decimal ++ ":" ++ t.name
  | constant x t (some w) => w.text ++ "=" ++ x.decimal ++ ":" ++ t.name
  | wired w x t => w.text ++ "=" ++ residueText x ++ ":" ++ t.name

/-- The combination that stands for a usable value: its wire if it has one, and otherwise a multiple
of the wire that carries one. -/
def combination? : Value p → Option (Combination p)
  | invalid => none
  | constant _ _ (some w) => some (.single w)
  | constant x _ none => some (.constant x)
  | wired w _ _ => some (.single w)

end Value

end StackCircuit
