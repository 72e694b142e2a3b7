/-!
# Configuration of a machine

* **`Mode`**: whether a run computes a witness or the shape of a circuit.
* `Config`: the mode and the bounds of the two stacks.
-/

namespace StackCircuit.Machine

/-- What a run builds. In a witness every value is known, and branches are taken; in a shape parameters
are unknown, and both arms of a branch on an unknown condition are built. A code without a name, namely
`2 + index`, works as `shape` does. -/
inductive Mode where
  | witness | shape
  | reserved (index : Fin 254)
deriving DecidableEq, Repr

namespace Mode

/-- The code of a mode. -/
def code : Mode → Nat
  | witness => 0
  | shape => 1
  | reserved i => 2 + i.val

/-- The mode of a given code. -/
def ofCode (b : UInt8) : Mode :=
  if h : 2 ≤ b.toNat then reserved ⟨b.toNat - 2, by have := b.toNat_lt; omega⟩
  else if b.toNat = 0 then witness
  else shape

/-- The text of a mode. -/
def name : Mode → String
  | witness => "witness"
  | shape => "structure"
  | m => s!"mode({m.code})"

/-- The mode of a given name. -/
def ofName? : String → Option Mode
  | "witness" => some witness
  | "structure" => some shape
  | _ => none

/-- The wording for a name that no mode has. -/
def unknownText (name : String) : String :=
  s!"unknown mode \"{name}\""

end Mode

/-- The configuration of a machine; a bound of zero stands for the standard one. -/
structure Config where
  mode : Mode
  evalSize : Nat
  callSize : Nat
deriving DecidableEq, Repr

namespace Config

/-- The bound of a stack unless another one is given. -/
def standardSize : Nat :=
  256

/-- A witness is computed with standard bounds. -/
def standard : Config :=
  ⟨.witness, standardSize, standardSize⟩

/-- The same configuration in another mode. -/
def inMode (c : Config) (mode : Mode) : Config :=
  { c with mode }

/-- The capacity that a bound stands for. -/
def capacityOf (size : Nat) : Nat :=
  if size = 0 then standardSize else size

end Config

end StackCircuit.Machine
