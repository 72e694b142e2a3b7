import StackCircuit.Bytecode.Instruction
import StackCircuit.Bytecode.ValueType

/-!
# Functions and programs

* **`Function`**: code with its parameters, locals and results.  The first locals are the
  parameters.
* **`Program`**: functions in order; instructions refer to them by 16-bit index.
* `Program.find?`: the index of a name.
-/

namespace StackCircuit.Bytecode

/-- A function; its locals include its parameters. -/
structure Function where
  name : String
  params : List ValueType
  locals : Nat
  returns : Nat
  code : Array Instruction
  params_le_locals : params.length ≤ locals
deriving DecidableEq, Repr

/-- The function with the given parts. -/
def Function.ofParts (name : String) (params : List ValueType) (locals returns : Nat)
    (code : Array Instruction) : Except Fault Function :=
  if h : params.length ≤ locals then .ok ⟨name, params, locals, returns, code, h⟩
  else .error (.fewerLocals name locals params.length)

/-- A list of functions, in the order of their indices. -/
structure Program where
  functions : Array Function
deriving DecidableEq, Repr

namespace Program

/-- The function of a given index. -/
def function? (m : Program) (index : UInt16) : Option Function :=
  m.functions[index.toNat]?

/-- The index of the first function of a given name, as a 16-bit number. -/
def find? (m : Program) (name : String) : Option UInt16 :=
  (m.functions.findIdx? (·.name == name)).map UInt16.ofNat

end Program

end StackCircuit.Bytecode
