import StackCircuit.Fault

/-!
# Conditional blocks

When the condition of a branch is not known, both its arms are executed, one after the other.

* `Arm`: an arm, by the number of its block.
* **`Conditional`**: the arms of a branch, at least one.
* `Conditional.afterArm`: what follows when the running arm ends.
* `ProgramBlock`: what a frame executes, a single block or a conditional.
-/

namespace StackCircuit.Machine

/-- An arm of a conditional branch: the number of its block in the frame, and whether it is under
execution. -/
structure Arm where
  block : Nat
  running : Bool
deriving DecidableEq, Repr

/-- The arms of a conditional branch: the one for a true condition, the one for a false one, or both. -/
inductive Conditional where
  | onTrue (arm : Arm)
  | onFalse (arm : Arm)
  | both (onTrue onFalse : Arm)
deriving DecidableEq, Repr

/-- What follows the end of an arm: nothing, as no arm was running, the second arm, or the end of them
all. -/
inductive ArmEnd where
  | idle
  | second (c : Conditional)
  | done
deriving DecidableEq, Repr

namespace Conditional

/-- The conditional with the given arms. -/
def ofArms : (onTrue onFalse : Option Arm) → Except Fault Conditional
  | none, none => .error .noArms
  | some t, none => .ok (.onTrue t)
  | none, some f => .ok (.onFalse f)
  | some t, some f => .ok (.both t f)

/-- The arm for a true condition. -/
def trueArm? : Conditional → Option Arm
  | onTrue t => some t
  | onFalse _ => none
  | both t _ => some t

/-- The arm for a false condition. -/
def falseArm? : Conditional → Option Arm
  | onTrue _ => none
  | onFalse f => some f
  | both _ f => some f

/-- Marks the arm for a given truth value as running or not, if there is one. -/
def setRunning (side running : Bool) : Conditional → Option Conditional
  | onTrue t => if side then some (.onTrue { t with running }) else none
  | onFalse f => if side then none else some (.onFalse { f with running })
  | both t f => some (if side then .both { t with running } f else .both t { f with running })

/-- The block of the running arm. -/
def running? : Conditional → Option Nat
  | onTrue t => if t.running then some t.block else none
  | onFalse f => if f.running then some f.block else none
  | both t f => if t.running then some t.block else if f.running then some f.block else none

/-- The lowest number of a block of an arm. -/
def firstBlock : Conditional → Nat
  | onTrue t => t.block
  | onFalse f => f.block
  | both t f => min t.block f.block

/-- What follows when the running arm ends: the second of two arms if the first was running. -/
def afterArm : Conditional → ArmEnd
  | onTrue t => if t.running then .done else .idle
  | onFalse f => if f.running then .done else .idle
  | both t f =>
    if t.running then .second (.both { t with running := false } { f with running := true })
    else if f.running then .done
    else .idle

end Conditional

/-- What a frame executes. -/
inductive ProgramBlock where
  | simple (block : Nat)
  | conditional (c : Conditional)
deriving DecidableEq, Repr

namespace ProgramBlock

/-- The block under execution. -/
def running? : ProgramBlock → Option Nat
  | simple block => some block
  | conditional c => c.running?

/-- The arms, if there are any. -/
def conditional? : ProgramBlock → Option Conditional
  | simple _ => none
  | conditional c => some c

end ProgramBlock

end StackCircuit.Machine
