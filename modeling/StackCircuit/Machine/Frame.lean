import StackCircuit.Machine.Block
import StackCircuit.Machine.Conditional

/-!
# Frames

A frame is a function under execution.  It executes one program block at a time; while the arms of a
conditional branch are executed, the block that holds the branch is suspended.

* `Frame`: the blocks, the current program block and the suspended ones.
* **`Frame.arms`**: the arms of the conditional branch at a position, read off the code.
* `Activation`: a frame with the store it works on.
* `Activation.materialise`, `Activation.endArm`: entering and leaving arms.
* **`Activation.step`**: one instruction of the frame; `Activation.execute`: instructions until the
  function returns or calls.
* `Activation.advance`: resumes a frame whose callee has returned.
-/

namespace StackCircuit.Machine

open Bytecode (Function Instruction Opcode)
open Circuit (Recorder)

/-! ## Frames -/

/-- A function under execution. Its blocks are its body and the arms under execution, and the program
blocks that wait for arms to end are suspended, the innermost on top. -/
structure Frame where
  index : UInt16
  function : Function
  localsId : Nat
  blocks : Array Block
  current : ProgramBlock
  suspended : BoundedStack ProgramBlock
deriving DecidableEq, Repr

namespace Frame

/-- A frame at the start of a function.  Arms start behind their branch, so there is room for one
suspended block for each instruction and one more. -/
def ofFunction (index : UInt16) (function : Function) (localsId : Nat) : Frame :=
  { index, function, localsId
    blocks := #[.ofStart 0 none localsId]
    current := .simple 0
    suspended := .ofCapacity (function.code.size + 1) }

/-- The number of conditional branches whose arms are under execution. -/
def depth (f : Frame) : Nat :=
  f.suspended.size

/-- The failure of a frame without a block to execute. -/
def noRunningBlock : Failure :=
  .because .shouldNotReachHere "no running block"

/-- The block under execution and its number. -/
def running (f : Frame) : Except Failure (Nat × Block) :=
  match f.current.running? with
  | none => .error noRunningBlock
  | some i =>
    match f.blocks[i]? with
    | none => .error noRunningBlock
    | some b => .ok (i, b)

/-- The position of the next instruction. -/
def pc (f : Frame) : Except Failure UInt16 :=
  f.running.map (·.2.pc)

/-- The frame with the counter of a block elsewhere. -/
def setBlockPc (f : Frame) (i : Nat) (pc : UInt16) : Frame :=
  { f with blocks := f.blocks.modify i (·.setPc pc) }

/-- The frame with the counter of the block under execution elsewhere. -/
def setPc (f : Frame) (pc : UInt16) : Except Failure Frame :=
  f.running.map fun (i, _) => f.setBlockPc i pc

/-! ## Arms

The code of a conditional branch at `pc` is expected to be

    pc:      branch on a condition to pc + 2
    pc + 1:  jump to f
    pc + 2:  first arm
    f - 1:   jump to m
    f:       second arm
    m:

Where `f - 1` holds no jump there is no second arm, and the first one ends at `f - 1`. -/

/-- The failure of code that does not have the shape of arms. -/
def malformed (f : Function) (pc : UInt16) (message : String) : Failure :=
  .because .programBlockError s!"{message} ({f.name}#{pc.toNat})"

/-- The first and last positions of the arms of the conditional branch at a position. -/
def armBounds (f : Function) (pc : UInt16) :
    Except Failure ((UInt16 × UInt16) × Option (UInt16 × UInt16)) :=
  let refuse (message : String) : Except Failure ((UInt16 × UInt16) × Option (UInt16 × UInt16)) :=
    .error (malformed f pc message)
  let size := f.code.size
  if size ≤ pc.toNat + 1 then refuse "conditional branch at end of function"
  else
    match f.code[pc.toNat]?, f.code[(pc + 1).toNat]? with
    | some branch, some jump =>
      if !branch.opcode.isConditionalBranch then refuse "expected conditional branch"
      else if jump.opcode ≠ .branch then refuse "conditional branch not followed by branch"
      else
        let first := branch.target
        let second := jump.target
        if first ≠ pc + 2 then refuse "first arm must follow branch"
        else if second = 0 ∨ size < second.toNat then refuse "invalid branch target"
        else
          let last := second - 1
          match f.code[last.toNat]? with
          | none => refuse "invalid branch target"
          | some ending =>
            if ending.opcode ≠ .branch then
              if last < first then refuse "empty branch" else .ok ((first, last), none)
            else
              let merge := ending.target
              if last ≤ first ∨ merge < second ∨ size < merge.toNat then
                refuse "invalid branch arms"
              else if merge = second then .ok ((first, last - 1), none)
              else .ok ((first, last - 1), some (second, merge - 1))
    | _, _ => refuse "conditional branch at end of function"

/-- The arms of the conditional branch at a position, of which the first is running, and the frame
with their blocks added. -/
def arms (f : Frame) (pc : UInt16) : Except Failure (Conditional × Frame) :=
  match armBounds f.function pc with
  | .error e => .error e
  | .ok ((start, stop), none) =>
    .ok (.onTrue ⟨f.blocks.size, true⟩,
      { f with blocks := f.blocks.push (.ofStart start (some stop) f.localsId) })
  | .ok ((start, stop), some (start', stop')) =>
    .ok (.both ⟨f.blocks.size, true⟩ ⟨f.blocks.size + 1, false⟩,
      { f with
        blocks := (f.blocks.push (.ofStart start (some stop) f.localsId)).push
          (.ofStart start' (some stop') f.localsId) })

end Frame

/-! ## Frames at work -/

/-- A frame with the store it works on. -/
structure Activation (σ : Type) (p : Nat) where
  frame : Frame
  store : Store σ p

/-- Why control leaves a frame. -/
inductive Departure where
  | ret
  | call (function : UInt16)
deriving DecidableEq, Repr

namespace Activation

variable {σ : Type} {p : Nat} {α : Type}

/-- Works on the store alone. -/
def onStore (x : EStateM Halt (Store σ p) α) : EStateM Halt (Activation σ p) α :=
  fun ⟨frame, store⟩ =>
    match x store with
    | .ok a store => .ok a ⟨frame, store⟩
    | .error e store => .error e ⟨frame, store⟩

/-- The frame at work. -/
def getFrame : EStateM Halt (Activation σ p) Frame :=
  fun a => .ok a.frame a

/-- Replaces the frame. -/
def setFrame (frame : Frame) : EStateM Halt (Activation σ p) Unit :=
  fun ⟨_, store⟩ => .ok () ⟨frame, store⟩

/-- The result of reading the frame, or its failure. -/
def ofFrame (x : Frame → Except Failure α) : EStateM Halt (Activation σ p) α := fun a =>
  match x a.frame with
  | .ok b => .ok b a
  | .error e => .error (.failure e) a

/-- Moves the counter of the block under execution. -/
def setPc (pc : UInt16) : EStateM Halt (Activation σ p) Unit := do
  setFrame (← ofFrame (·.setPc pc))

/-- Replaces the program block under execution. -/
def setCurrent (current : ProgramBlock) : EStateM Halt (Activation σ p) Unit := do
  setFrame { ← getFrame with current }

/-- Marks the arm for a given truth value as running or not.  The answer is `none` where no arms are
under execution, and otherwise tells whether there is such an arm. -/
def setRunning (side running : Bool) : EStateM Halt (Activation σ p) (Option Bool) := do
  match (← getFrame).current.conditional? with
  | none => return none
  | some arms =>
    match arms.setRunning side running with
    | none => return some false
    | some arms => do
      setCurrent (.conditional arms)
      return some true

/-- Adds the blocks of the arms of the branch at a position. -/
def prepare (pc : UInt16) : EStateM Halt (Activation σ p) Conditional := do
  let (arms, frame) ← ofFrame (·.arms pc)
  setFrame frame
  return arms

/-- Executes the arms of the branch at a position, whose condition is not known, before anything
else. -/
def materialise (pc : UInt16) (cond : Value p) : EStateM Halt (Activation σ p) Unit := do
  let arms ← prepare pc
  let frame ← getFrame
  let negated := (frame.function.code[pc.toNat]?).any (·.opcode = .brFalse)
  onStore (Store.note (.materialise frame.function.name pc (frame.depth + 1)))
  onStore (Store.pushGuard ⟨cond, negated⟩)
  match frame.suspended.push frame.current with
  | .error e => Store.fail (.caused ⟨.shouldNotReachHere, "", none⟩ (.stack e))
  | .ok suspended => setFrame { frame with suspended, current := .conditional arms }

/-- Goes back to the suspended block: its arms are removed with their guard. -/
def merge (pc : UInt16) (arms : Conditional) : EStateM Halt (Activation σ p) Unit := do
  let frame ← getFrame
  match frame.suspended.pop with
  | .error _ => Store.fail (.because .shouldNotReachHere "no suspended block")
  | .ok (parent, suspended) => do
    setFrame { frame with suspended }
    onStore Store.popGuard
    setFrame { frame with
      suspended, current := parent, blocks := frame.blocks.take arms.firstBlock }
    onStore (Store.note (.merge frame.function.name pc suspended.size))

/-- Handles the end of an arm at a position: the second arm starts, or the suspended block resumes
behind the arm.  Where the enclosing arm ends with the same instruction it ends as well, so this can
go on for as many rounds as there are suspended blocks. -/
def endArms (pc : UInt16) : (rounds : Nat) → EStateM Halt (Activation σ p) Unit
  | 0 => fun a => .error .outOfFuel a
  | rounds + 1 => do
    let frame ← getFrame
    match frame.current.conditional? with
    | none =>
      Store.fail (.because .shouldNotReachHere s!"branch end at {pc.toNat} outside conditional")
    | some arms =>
      match arms.afterArm with
      | .idle =>
        Store.fail (.because .shouldNotReachHere
          s!"branch end at {pc.toNat} with no running arm")
      | .second arms => do
        setFrame { frame with current := .conditional arms }
        onStore (Store.note (.switchArm frame.function.name pc))
        onStore Store.flipGuard
      | .done => do
        merge pc arms
        let frame ← getFrame
        let (i, block) ← ofFrame Frame.running
        if block.stop = some pc then do
          setFrame (frame.setBlockPc i pc)
          endArms pc rounds
        else setFrame (frame.setBlockPc i (pc + 1))

/-- Handles the end of an arm at a position. -/
def endArm (pc : UInt16) : EStateM Halt (Activation σ p) Unit := do
  let frame ← getFrame
  endArms pc (frame.depth + 1)

/-- Resumes the frame after its callee has returned. -/
def advance : EStateM Halt (Activation σ p) Unit := do
  let frame ← getFrame
  let (i, block) ← ofFrame Frame.running
  if block.atEnd then endArm block.pc else setFrame (frame.setBlockPc i (block.pc + 1))

variable [Modulus p]

/-- One instruction of the frame, with the entering and leaving of arms that it causes. -/
def step [Recorder σ p] (mode : Mode) : EStateM Halt (Activation σ p) (Option Departure) := do
  let frame ← getFrame
  let (i, block) ← ofFrame Frame.running
  match ← onStore (block.step mode frame.function) with
  | .goto pc => do
    setFrame (frame.setBlockPc i pc)
    return none
  | .exit .ret => return some .ret
  | .exit (.call function) => return some (.call function)
  | .exit (.conditional pc cond) => do
    materialise pc cond
    return none
  | .exit (.armEnd pc) => do
    endArm pc
    return none

/-- Instructions until the function returns or calls, at most `fuel` many. -/
def execute [Recorder σ p] (mode : Mode) : (fuel : Nat) → EStateM Halt (Activation σ p) Departure
  | 0, a => .error .outOfFuel a
  | fuel + 1, a =>
    match step mode a with
    | .ok none a => execute mode fuel a
    | .ok (some departure) a => .ok departure a
    | .error e a => .error e a

end Activation

/-- The exit that a departure stands for. -/
def Departure.exit {p : Nat} : Departure → Exit p
  | ret => .ret
  | call function => .call function

end StackCircuit.Machine
