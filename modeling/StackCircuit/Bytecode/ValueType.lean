import StackCircuit.Fault

/-!
# Types of values

The types that values and parameters carry, encoded in one byte.

* **`ValueType`**: the four named types and the reserved codes beyond them.
* `ValueType.name`, `ValueType.ofName?`: names; `ValueType.code`, `ValueType.ofCode`: codes.
* `ValueType.bitWidth`: the width of a named type.
-/

namespace StackCircuit

/-- The type of a value; `reserved` is a code without a name, namely `4 + index`. -/
inductive ValueType where
  | bool | u8 | u64 | u128
  | reserved (index : Fin 252)
deriving DecidableEq, Repr

namespace ValueType

/-- The code of a type. -/
def code : ValueType → Nat
  | bool => 0
  | u8 => 1
  | u64 => 2
  | u128 => 3
  | reserved i => 4 + i.val

/-- The type of a given code. -/
def ofCode (b : UInt8) : ValueType :=
  if h : 4 ≤ b.toNat then reserved ⟨b.toNat - 4, by have := b.toNat_lt; omega⟩
  else
    match b.toNat with
    | 0 => bool
    | 1 => u8
    | 2 => u64
    | _ => u128

/-- The text of a type. -/
def name : ValueType → String
  | bool => "bool"
  | u8 => "u8"
  | u64 => "u64"
  | u128 => "u128"
  | t => s!"type({t.code})"

/-- The type of a given name. -/
def ofName? : String → Option ValueType
  | "bool" => some bool
  | "u8" => some u8
  | "u64" => some u64
  | "u128" => some u128
  | _ => none

/-- The wording for a name that no type has. -/
def unknownText (name : String) : String :=
  s!"unknown type \"{name}\""

/-- The number of bits of a named type. -/
def bitWidth : ValueType → Except Fault Nat
  | bool => .ok 1
  | u8 => .ok 8
  | u64 => .ok 64
  | u128 => .ok 128
  | t => .error (.unknownType t.code)

end ValueType

end StackCircuit
