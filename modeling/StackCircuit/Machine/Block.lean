import StackCircuit.Bytecode.Program
import StackCircuit.Machine.Store

/-!
# Blocks

A block is a stretch of a function with a program counter.  The body of a function has no end of its
own; an arm of a conditional branch ends with a given instruction.

* `Block`: the counter and the bounds.
* `Exit`: why control leaves a block; `ExitReport` is its flat form.
* **`Block.step`**: one instruction.  Jumps do not count as reaching the end of an arm.
* `Block.execute`: instructions until control leaves the block.
-/

namespace StackCircuit.Machine

open Bytecode (Function Instruction Opcode)
open Circuit (Recorder)

/-! ## Blocks and exits -/

/-- A stretch of a function under execution: `pc` is the position of the next instruction, `start` that
of the first, and `stop` that of the last one of an arm. -/
structure Block where
  pc : UInt16
  start : UInt16
  stop : Option UInt16
  localsId : Nat
deriving DecidableEq, Repr

namespace Block

/-- A block at its first instruction. -/
def ofStart (start : UInt16) (stop : Option UInt16) (localsId : Nat) : Block :=
  ⟨start, start, stop, localsId⟩

/-- Whether the next instruction is the last one of an arm. -/
def atEnd (b : Block) : Bool :=
  b.stop = some b.pc

/-- The block with its counter elsewhere. -/
def setPc (b : Block) (pc : UInt16) : Block :=
  { b with pc }

/-- The block with its counter moved on by `n`, modulo 2¹⁶. -/
def addPc (b : Block) (n : UInt16) : Block :=
  { b with pc := b.pc + n }

end Block

/-- Why control leaves a block, with the position of the branch or of the end of the arm. -/
inductive Exit (p : Nat) where
  | ret
  | call (function : UInt16)
  | conditional (pc : UInt16) (cond : Value p)
  | armEnd (pc : UInt16)
deriving DecidableEq, Repr

/-- The kinds of exits, encoded in one byte; `unnamed` is any code without a name. -/
inductive ExitKind where
  | ret | call | conditional | armEnd | unnamed
deriving DecidableEq, Repr

/-- The kind of a given code. -/
def ExitKind.ofCode (b : UInt8) : ExitKind :=
  match b.toNat with
  | 0 => ret
  | 1 => call
  | 2 => conditional
  | 3 => armEnd
  | _ => unnamed

/-- An exit in flat form, where a part that its kind does not have is zero or invalid. -/
structure ExitReport (p : Nat) where
  kind : ExitKind
  function : UInt16
  pc : UInt16
  cond : Value p
deriving DecidableEq, Repr

/-- The text of an exit. -/
def ExitReport.text {p : Nat} (r : ExitReport p) : String :=
  match r.kind with
  | .ret => "Return"
  | .call => s!"Call({r.function.toNat})"
  | .conditional => s!"ConditionalBranch({r.pc.toNat})"
  | .armEnd => s!"BranchEnd({r.pc.toNat})"
  | .unnamed => "???"

/-- The flat form of an exit. -/
def Exit.report {p : Nat} : Exit p → ExitReport p
  | ret => ⟨.ret, 0, 0, .invalid⟩
  | call function => ⟨.call, function, 0, .invalid⟩
  | conditional pc cond => ⟨.conditional, 0, pc, cond⟩
  | armEnd pc => ⟨.armEnd, 0, pc, .invalid⟩

/-! ## Instructions -/

/-- Where control goes after an instruction: on to a position of the same block, or out of it. -/
inductive Transition (p : Nat) where
  | goto (pc : UInt16)
  | exit (e : Exit p)
deriving DecidableEq, Repr

namespace Block

variable {σ : Type} {p : Nat} [Modulus p]

/-- On to the next instruction, or out of an arm after its last one. -/
def advance (b : Block) : Transition p :=
  if b.atEnd then .exit (.armEnd b.pc) else .goto (b.pc + 1)

/-- A branch on a condition, taken if the condition has a given value.  An unknown condition fails a
witness and leaves the block otherwise. -/
def branchOn (mode : Mode) (f : Function) (b : Block) (i : Instruction) (taken : Scalar p) :
    EStateM Halt (Store σ p) (Transition p) := do
  let cond ← Store.pop
  match cond.value? with
  | some x => return if x = taken then .goto i.target else b.advance
  | none =>
    if mode = .witness then
      Store.fail (.because .valueConversionError
        s!"unknown branch condition at {f.name}#{b.pc.toNat}")
    else return .exit (.conditional b.pc cond)

/-- Stops the program with a code, of which the lowest 128 bits are reported. -/
def abort : EStateM Halt (Store σ p) (Transition p) := do
  let code ← Store.pop
  match code.value? with
  | some x => Store.fail (.runtime (.abort ((BitVec.ofNat 128 x.val).setWidth 256)))
  | none => Store.fail (.because .valueConversionError "unknown abort code")

/-- The effect of an instruction with a given step number. -/
def perform [Recorder σ p] (mode : Mode) (f : Function) (b : Block) (i : Instruction) (step : Nat) :
    EStateM Halt (Store σ p) (Transition p) := do
  let label := s!"step#{step}"
  match i.opcode with
  | .ldU8 => do
    Store.load label .u8 i.word.toNat
    return b.advance
  | .ldU64 => do
    Store.load label .u64 i.word.toNat
    return b.advance
  | .ldU128 => do
    Store.load label .u128 i.operand.toNat
    return b.advance
  | .ldTrue => do
    Store.load label .bool 1
    return b.advance
  | .ldFalse => do
    Store.load label .bool 0
    return b.advance
  | .pop => do
    let _ ← Store.pop
    return b.advance
  | .add => do
    Store.binary label .add .add
    return b.advance
  | .sub => do
    Store.binary label .sub .sub
    return b.advance
  | .mul => do
    Store.binary label .mul .mul
    return b.advance
  | .eq => do
    Store.binary label .eq .eq
    return b.advance
  | .copyLoc => do
    let v ← Store.copyLocal b.localsId i.index.toNat
    Store.push v
    return b.advance
  | .moveLoc => do
    let v ← Store.moveLocal b.localsId i.index.toNat
    Store.push v
    return b.advance
  | .stLoc => do
    let v ← Store.pop
    Store.storeLocal b.localsId i.index.toNat v
    return b.advance
  | .brTrue => branchOn mode f b i 1
  | .brFalse => branchOn mode f b i 0
  | .branch => return .goto i.target
  | .ret => return .exit .ret
  | .call => return .exit (.call i.index)
  | .abort => abort
  | .undefined _ => Store.fail (.because .shouldNotReachHere s!"unknown instruction {i.text}")

/-- One instruction of a block of a function.  The block itself changes only by where control
goes. -/
def step [Recorder σ p] (mode : Mode) (f : Function) (b : Block) :
    EStateM Halt (Store σ p) (Transition p) := do
  Store.requireLocals b.localsId
  match f.code[b.pc.toNat]? with
  | none =>
    Store.fail (.because .outOfBounds s!"pc {b.pc.toNat} beyond end of function {f.name}")
  | some i => do
    let step ← Store.nextStep
    Store.note (.execute f.name i b.pc step)
    perform mode f b i step

/-- Instructions until control leaves the block, at most `fuel` many; the block is given back with
its counter where control left it. -/
def execute [Recorder σ p] (mode : Mode) (f : Function) :
    (fuel : Nat) → Block → Store σ p → Block × EStateM.Result Halt (Store σ p) (Exit p)
  | 0, b, s => (b, .error .outOfFuel s)
  | fuel + 1, b, s =>
    match b.step mode f s with
    | .ok (.goto pc) s => execute mode f fuel (b.setPc pc) s
    | .ok (.exit e) s => (b, .ok e s)
    | .error e s => (b, .error e s)

end Block

end StackCircuit.Machine
