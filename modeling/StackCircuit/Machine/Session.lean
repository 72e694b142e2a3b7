import StackCircuit.Machine.State

/-!
# Sessions

A session inspects a machine: it moves frames and blocks by hand.  The frame that was taken off the
call stack last can be put back, several times if need be.  The places it is put back to hold one
and the same frame, so that a change in one of them shows in all.

* **`Session σ p`**: a machine, with marks that tell which of its frames are the same.
* `Session.share`: carries a change of the topmost frame over to its other places.
* `Session.takeFrame`, `Session.putBack`: the topmost frame comes off, and returns.
* `Session.onTop`, `Session.run`, `Session.executeBlock`: the machine at work.
-/

namespace StackCircuit.Machine

open Bytecode (Function)
open Circuit (Recorder)

/-- A machine under inspection. The frames on the call stack have marks, topmost first, where the same
frame has the same mark and `fresh` is the least that is not used yet; `taken` is the frame that was
taken off last, and `block` the block under inspection, with its function if that exists. -/
structure Session (σ : Type) (p : Nat) where
  machine : State σ p
  marks : List Nat
  fresh : Nat
  taken : Option (Nat × Frame)
  function : Option Function
  block : Block

namespace Session

variable {σ : Type} {p : Nat} {α : Type}

/-- A session on a machine that has not run yet. -/
def initial (c : Config) (ledger : Ledger σ p) : Session σ p :=
  ⟨.initial c ledger, [], 0, none, none, .ofStart 0 none 0⟩

/-- Carries a change of the topmost frame over to its other places. -/
def share (s : Session σ p) : Session σ p :=
  match s.marks, s.machine.frames.top? with
  | mark :: _, some frame =>
    let update (other : Nat) (f : Frame) : Frame := if other = mark then frame else f
    let frames := s.machine.frames
    { s with
      machine := { s.machine with frames := ⟨s.marks.zipWith update frames.items, frames.room⟩ }
      taken := s.taken.map fun (other, f) => (other, update other f) }
  | _, _ => s

/-- Gives every frame on the call stack a mark of its own. -/
def remark (s : Session σ p) : Session σ p :=
  let size := s.machine.frames.size
  { s with marks := List.range' s.fresh size, fresh := s.fresh + size }

/-- Works on the machine, after which the session is put in order. -/
def onMachine (tidy : Session σ p → Session σ p) (x : EStateM Halt (State σ p) α) :
    EStateM Halt (Session σ p) α :=
  fun s =>
    match x s.machine with
    | .ok a machine => .ok a (tidy { s with machine })
    | .error e machine => .error e (tidy { s with machine })

/-- Works on the store of the machine. -/
def onStore (x : EStateM Halt (Store σ p) α) : EStateM Halt (Session σ p) α :=
  onMachine id (State.onStore x)

/-- Works on the topmost frame, wherever it stands, and on the store, if there is a frame. -/
def onTop (x : EStateM Halt (Activation σ p) α) : EStateM Halt (Session σ p) (Option α) :=
  onMachine share (State.onTop x)

/-! ## Frames -/

/-- Puts a frame with a given mark on top. -/
def pushMarked (mark : Nat) (f : Frame) : EStateM Halt (Session σ p) Unit := do
  onMachine id (State.pushFrame f)
  modify fun s => { s with marks := mark :: s.marks }

/-- Puts a new frame on top. -/
def pushFrame (f : Frame) : EStateM Halt (Session σ p) Unit := do
  pushMarked (← get).fresh f
  modify fun s => { s with fresh := s.fresh + 1 }

/-- Takes the topmost frame off. -/
def takeFrame : EStateM Halt (Session σ p) Frame := do
  let f ← onMachine id State.popFrame
  modify fun s => { s with marks := s.marks.tail, taken := s.marks.head?.map (·, f) }
  return f

/-- Puts the frame that was taken off last on top; tells whether there is one. -/
def putBack : EStateM Halt (Session σ p) Bool := do
  match (← get).taken with
  | none => return false
  | some (mark, f) => do
    pushMarked mark f
    return true

/-! ## Executions -/

variable [Modulus p] [Recorder σ p]

/-- Executes a function, which replaces all frames if the function is eligible. -/
def run (setup : Setup) (fuel : Nat) (index : UInt16) (args : List (Scalar p)) :
    EStateM Halt (Session σ p) (List (Value p)) := do
  match State.eligible setup index args with
  | .error e => Store.fail e
  | .ok _ => onMachine remark (State.run setup fuel index args)

/-- Executes the block under inspection until control leaves it. -/
def executeBlock (mode : Mode) (fuel : Nat) : EStateM Halt (Session σ p) (Exit p) := fun s =>
  match s.function with
  | none => .error (.fault .absent) s
  | some f =>
    let (block, result) := s.block.execute mode f fuel s.machine.store
    match result with
    | .ok e store => .ok e { s with block, machine := { s.machine with store } }
    | .error e store => .error e { s with block, machine := { s.machine with store } }

end Session

end StackCircuit.Machine
