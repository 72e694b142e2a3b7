import StackCircuit.Machine.Frame

/-!
# The machine

A machine executes the functions of a program and records every arithmetic operation as a
constraint. To compute a witness every parameter needs a value, and branches are taken.  To build
the shape of a circuit all parameters are unknown, and both arms of a branch on an unknown condition
are executed.

* `Setup`: a program with a configuration; **`State σ p`**: the state of a machine.
* `State.call`, `State.ret`: entering and leaving functions.
* **`State.step`**: one instruction, with the calls and returns that it causes.
* `State.eligible`: the function to execute, if it takes the given arguments.
* **`State.run`**: executes a function and gives the values it returns.  A run that fails leaves the
  machine as it stopped.
-/

namespace StackCircuit.Machine

open Bytecode (Function Program)
open Circuit (Recorder)

/-- What a machine executes, and how. -/
structure Setup where
  program : Program
  config : Config

/-- The state of a machine: what instructions work on, and the functions under execution, the innermost
on top. -/
structure State (σ : Type) (p : Nat) where
  store : Store σ p
  frames : BoundedStack Frame

namespace State

variable {σ : Type} {p : Nat} {α : Type}

/-- The empty call stack of a given bound. -/
def noFrames (c : Config) : BoundedStack Frame :=
  .ofCapacity (Config.capacityOf c.callSize)

/-- A machine that has not run yet. -/
def initial (c : Config) (ledger : Ledger σ p) : State σ p :=
  ⟨.initial ledger (Config.capacityOf c.evalSize), noFrames c⟩

/-- Makes the machine as it was before it ran, except for what it has recorded. -/
def reset (c : Config) : EStateM Halt (State σ p) Unit :=
  fun ⟨store, _⟩ => .ok () (initial c store.ledger)

/-! ## Parts -/

/-- Works on the store alone. -/
def onStore (x : EStateM Halt (Store σ p) α) : EStateM Halt (State σ p) α :=
  fun ⟨store, frames⟩ =>
    match x store with
    | .ok a store => .ok a ⟨store, frames⟩
    | .error e store => .error e ⟨store, frames⟩

/-- Works on the topmost frame and the store, if there is a frame. -/
def onTop (x : EStateM Halt (Activation σ p) α) : EStateM Halt (State σ p) (Option α) :=
  fun ⟨store, frames⟩ =>
    match frames.top? with
    | none => .ok none ⟨store, frames⟩
    | some frame =>
      match x ⟨frame, store⟩ with
      | .ok a ⟨frame, store⟩ => .ok (some a) ⟨store, frames.setTop frame⟩
      | .error e ⟨frame, store⟩ => .error e ⟨store, frames.setTop frame⟩

/-- Puts a frame on top. -/
def pushFrame (f : Frame) : EStateM Halt (State σ p) Unit := fun m =>
  match m.frames.push f with
  | .ok frames => .ok () { m with frames }
  | .error _ => .error (.failure (.because .stackOverflow "call stack")) m

/-- Removes the topmost frame. -/
def popFrame : EStateM Halt (State σ p) Frame := fun m =>
  match m.frames.pop with
  | .ok (f, frames) => .ok f { m with frames }
  | .error _ => .error (.failure (.because .stackUnderflow "call stack")) m

/-- The failure of an index that no function has. -/
def unknownFunction (index : UInt16) : Failure :=
  .because .outOfBounds s!"unknown function {index.toNat}"

/-! ## Calls and returns -/

/-- Pops the values of the first `n` locals into their slots, the last one first. -/
def popParams (id : Nat) : (n : Nat) → EStateM Halt (Store σ p) Unit
  | 0 => pure ()
  | n + 1 => do
    let v ← Store.pop
    Store.storeLocal id n v
    popParams id n

/-- Gives the locals back if what follows fails. -/
def releasing (id : Nat) (x : EStateM Halt (State σ p) α) : EStateM Halt (State σ p) α :=
  fun m =>
    match x m with
    | .ok a m => .ok a m
    | .error e m =>
      match onStore (Store.releaseLocals id) m with
      | .ok _ m => .error e m
      | .error e m => .error e m

/-- Calls a function with the topmost values as its parameters, of which the topmost is the last. -/
def call (setup : Setup) (index : UInt16) : EStateM Halt (State σ p) Unit := do
  match setup.program.function? index with
  | none => Store.fail (unknownFunction index)
  | some f => do
    let id ← onStore (Store.allocLocals f.locals)
    releasing id do
      onStore (popParams id f.params.length)
      pushFrame (.ofFunction index f id)
    let m ← get
    onStore (Store.note (.call f.name m.store.steps m.frames.size))

/-- Returns from the topmost function and resumes its caller; tells whether there was none.  The
guards of arms that the function returns from are removed. -/
def ret : EStateM Halt (State σ p) Bool := do
  let frame ← popFrame
  onStore (Store.popGuards frame.depth)
  onStore (Store.releaseLocals frame.localsId)
  return (← onTop Activation.advance).isNone

/-! ## Running -/

/-- Notes a failure of the topmost frame; faults are not noted. -/
def noteFailure (x : EStateM Halt (State σ p) α) : EStateM Halt (State σ p) α := fun m =>
  match x m with
  | .ok a m => .ok a m
  | .error (.failure e) m =>
    match m.frames.top? with
    | none => .error (.failure e) m
    | some f =>
      match onStore (Store.note (.failed f.function.name m.store.steps e)) m with
      | .ok _ m => .error (.failure e) m
      | .error e m => .error e m
  | .error e m => .error e m

variable [Modulus p]

/-- One instruction of the machine; tells whether the last function has returned. -/
def step [Recorder σ p] (setup : Setup) : EStateM Halt (State σ p) Bool := do
  match ← noteFailure (onTop (Activation.step setup.config.mode)) with
  | none => return true
  | some none => return false
  | some (some .ret) => ret
  | some (some (.call index)) => do
    call setup index
    return false

/-- Instructions until the last function has returned, at most `fuel` many. -/
def loop [Recorder σ p] (setup : Setup) : (fuel : Nat) → EStateM Halt (State σ p) Unit
  | 0, m => .error .outOfFuel m
  | fuel + 1, m =>
    match step setup m with
    | .ok true m => .ok () m
    | .ok false m => loop setup fuel m
    | .error e m => .error e m

/-- Pops `n` values, the topmost of which comes last, in front of others. -/
def popResults : (n : Nat) → List (Value p) → EStateM Halt (Store σ p) (List (Value p))
  | 0, values => pure values
  | n + 1, values => do
    let v ← Store.pop
    popResults n (v :: values)

/-- Allocates wires for parameters, numbered from `i` on, and puts them into the locals. -/
def allocInputs [Recorder σ p] (id : Nat) :
    (i : Nat) → List (ValueType × Option (Scalar p)) → EStateM Halt (Store σ p) Unit
  | _, [] => pure ()
  | i, (type, x) :: rest => do
    let v ← Store.allocInput s!"arg#{i}" x type
    Store.storeLocal id i v
    allocInputs id (i + 1) rest

/-- The parameters of a function with their values, which only a witness has. -/
def inputs (mode : Mode) (f : Function) (args : List (Scalar p)) :
    List (ValueType × Option (Scalar p)) :=
  if mode = .witness then f.params.zip (args.map some) else f.params.map (·, none)

/-- Starts a function with given arguments on a machine made new. -/
def start [Recorder σ p] (setup : Setup) (index : UInt16) (f : Function) (args : List (Scalar p)) :
    EStateM Halt (State σ p) Unit := do
  reset setup.config
  let id ← onStore (Store.allocLocals f.locals)
  onStore (allocInputs id 0 (inputs setup.config.mode f args))
  pushFrame (.ofFunction index f id)
  onStore (Store.note (.run f.name setup.config.mode))

/-- The function of a given index, if it can be executed with given arguments.  A witness needs one
argument for each parameter; otherwise arguments are ignored. -/
def eligible (setup : Setup) (index : UInt16) (args : List (Scalar p)) : Except Failure Function :=
  match setup.program.function? index with
  | none => .error (unknownFunction index)
  | some f =>
    if setup.config.mode = .witness ∧ args.length ≠ f.params.length then
      .error (.because .valueConversionError
        s!"function {f.name} expects {f.params.length} arguments (found {args.length})")
    else .ok f

/-- Executes a function with given arguments, by at most `fuel` instructions, and gives the values
it returns.  A function that is not eligible leaves the machine as it is. -/
def run [Recorder σ p] (setup : Setup) (fuel : Nat) (index : UInt16) (args : List (Scalar p)) :
    EStateM Halt (State σ p) (List (Value p)) := do
  match eligible setup index args with
  | .error e => Store.fail e
  | .ok f => do
    start setup index f args
    loop setup fuel
    onStore (popResults f.returns [])

end State

end StackCircuit.Machine
