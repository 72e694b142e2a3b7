import StackCircuit.Numeral

/-!
# Instructions

An instruction is an operation code of one byte with an operand of 256 bits.

* **`Opcode`**: the nineteen defined operations and the undefined codes beyond them.
* `Opcode.operandWidth`, `Opcode.hasOperand`: which operations take an operand, and of what width.
* **`Instruction`**: an operation with its operand.  Branch targets and indices are the lowest 16
  bits of the operand, whatever the rest.
-/

namespace StackCircuit.Bytecode

/-- The operations; `undefined` is a code that stands for none, namely `19 + index`. -/
inductive Opcode where
  | ldU8 | ldU64 | ldU128 | ldTrue | ldFalse | pop | add | sub | mul | eq | ret | call | copyLoc
  | stLoc | moveLoc | brTrue | brFalse | branch | abort
  | undefined (index : Fin 237)
deriving DecidableEq, Repr

namespace Opcode

/-- The defined operations in the order of their codes. -/
def defined : List Opcode :=
  [ldU8, ldU64, ldU128, ldTrue, ldFalse, pop, add, sub, mul, eq, ret, call, copyLoc, stLoc, moveLoc,
    brTrue, brFalse, branch, abort]

/-- The code of an operation. -/
def code : Opcode → Nat
  | ldU8 => 0
  | ldU64 => 1
  | ldU128 => 2
  | ldTrue => 3
  | ldFalse => 4
  | pop => 5
  | add => 6
  | sub => 7
  | mul => 8
  | eq => 9
  | ret => 10
  | call => 11
  | copyLoc => 12
  | stLoc => 13
  | moveLoc => 14
  | brTrue => 15
  | brFalse => 16
  | branch => 17
  | abort => 18
  | undefined i => 19 + i.val

/-- The operation of a given code. -/
def ofCode (b : UInt8) : Opcode :=
  if h : 19 ≤ b.toNat then undefined ⟨b.toNat - 19, by have := b.toNat_lt; omega⟩
  else (defined[b.toNat]?).getD abort

/-- The text of an operation. -/
def name : Opcode → String
  | ldU8 => "LdU8"
  | ldU64 => "LdU64"
  | ldU128 => "LdU128"
  | ldTrue => "LdTrue"
  | ldFalse => "LdFalse"
  | pop => "Pop"
  | add => "Add"
  | sub => "Sub"
  | mul => "Mul"
  | eq => "Eq"
  | ret => "Ret"
  | call => "Call"
  | copyLoc => "CopyLoc"
  | stLoc => "StLoc"
  | moveLoc => "MoveLoc"
  | brTrue => "BrTrue"
  | brFalse => "BrFalse"
  | branch => "Branch"
  | abort => "Abort"
  | undefined i => "Opcode(" ++ Numeral.decimal (19 + i.val) ++ ")"

/-- The defined operation of a given name. -/
def ofName? (name : String) : Option Opcode :=
  defined.find? (·.name == name)

/-- The number of bits that an operand may take, or zero for an operation without one. -/
def operandWidth : Opcode → Nat
  | ldU8 | copyLoc | stLoc | moveLoc => 8
  | call | brTrue | brFalse | branch => 16
  | ldU64 => 64
  | ldU128 => 128
  | _ => 0

/-- Whether an operation takes an operand. -/
def hasOperand : Opcode → Bool
  | ldU8 | ldU64 | ldU128 | call | copyLoc | stLoc | moveLoc | brTrue | brFalse | branch => true
  | _ => false

/-- Whether an operation jumps depending on a condition. -/
def isConditionalBranch : Opcode → Bool
  | brTrue | brFalse => true
  | _ => false

/-- Whether an operation is a jump within its function. -/
def isJump : Opcode → Bool
  | brTrue | brFalse | branch => true
  | _ => false

/-- Whether an operation can leave the straight line of code. -/
def isBranch : Opcode → Bool
  | brTrue | brFalse | branch | ret | call | abort => true
  | _ => false

end Opcode

/-- An operation with its operand, which is zero for most operations without one. -/
structure Instruction where
  opcode : Opcode
  operand : BitVec 256
deriving DecidableEq, Repr

namespace Instruction

/-- An instruction whose operand is a given number, reduced to 256 bits. -/
def ofNat (opcode : Opcode) (operand : Nat) : Instruction :=
  ⟨opcode, BitVec.ofNat 256 operand⟩

/-- The lowest 64 bits of the operand. -/
def word (i : Instruction) : UInt64 :=
  UInt64.ofNat i.operand.toNat

/-- The position that a branch goes to. -/
def target (i : Instruction) : UInt16 :=
  UInt16.ofNat i.operand.toNat

/-- The local or function that an instruction refers to. -/
def index (i : Instruction) : UInt16 :=
  UInt16.ofNat i.operand.toNat

/-- The text of an instruction. -/
def text (i : Instruction) : String :=
  if i.opcode.hasOperand then i.opcode.name ++ "(" ++ Numeral.decimal i.operand.toNat ++ ")"
  else i.opcode.name

end Instruction

end StackCircuit.Bytecode
