import StackCircuit.Gate
import StackCircuit.Machine.Locals

/-!
# The store

What instructions work on: the ledger, the evaluation stack, the locals, the guards of the arms
under execution and the number of steps.

* **`Store σ p`**: the parts of a machine other than its frames.
* `Store.push`, `Store.pop`, `Store.copyLocal`, …: the effects of instructions.  A failed effect
  leaves the store as it was, except that a gate that could not be recorded is noted.
-/

namespace StackCircuit.Machine

open Circuit (Recorder)

/-- What instructions work on. The conditions are those of the arms under execution, the innermost on
top. The instructions executed are counted without a bound: runs of 2⁶⁴ instructions and more, in which
a counter of one word would start over, are left out. -/
structure Store (σ : Type) (p : Nat) where
  ledger : Ledger σ p
  stack : BoundedStack (Value p)
  locals : LocalsTable p
  conditions : BoundedStack (Guard p)
  steps : Nat

namespace Store

variable {σ : Type} {p : Nat} {α : Type}

/-- The store of a machine that has not run yet. -/
def initial (ledger : Ledger σ p) (evalSize : Nat) : Store σ p :=
  ⟨ledger, .ofCapacity evalSize, .empty, .unbounded, 0⟩

/-- Stops with a failure. -/
def fail {τ : Type} (f : Failure) : EStateM Halt τ α :=
  fun s => .error (.failure f) s

/-- Works on the ledger alone. -/
def onLedger (x : EStateM Halt (Ledger σ p) α) : EStateM Halt (Store σ p) α :=
  fun ⟨ledger, stack, locals, conditions, steps⟩ =>
    match x ledger with
    | .ok a ledger => .ok a ⟨ledger, stack, locals, conditions, steps⟩
    | .error e ledger => .error e ⟨ledger, stack, locals, conditions, steps⟩

/-- Notes an event. -/
def note (e : Event p) : EStateM Halt (Store σ p) Unit :=
  onLedger (Ledger.note e)

/-- Counts an instruction, without a bound, and gives its number. -/
def nextStep : EStateM Halt (Store σ p) Nat :=
  fun ⟨ledger, stack, locals, conditions, steps⟩ =>
    .ok (steps + 1) ⟨ledger, stack, locals, conditions, steps + 1⟩

/-! ## The evaluation stack -/

/-- Pushes a value. -/
def push (v : Value p) : EStateM Halt (Store σ p) Unit := fun s =>
  match s.stack.push v with
  | .ok stack => .ok () { s with stack }
  | .error _ => .error (.failure (.bare .stackOverflow)) s

/-- Pops a value. -/
def pop : EStateM Halt (Store σ p) (Value p) := fun s =>
  match s.stack.pop with
  | .ok (v, stack) => .ok v { s with stack }
  | .error _ => .error (.failure (.bare .stackUnderflow)) s

/-- Replaces the topmost value; tells whether there is one. -/
def setTop (v : Value p) : EStateM Halt (Store σ p) Bool := fun s =>
  .ok s.stack.top?.isSome { s with stack := s.stack.setTop v }

/-! ## Locals -/

/-- Checks that an identifier was taken at some time. -/
def requireLocals (id : Nat) : EStateM Halt (Store σ p) Unit := fun s =>
  if s.locals.knows id then .ok () s else .error (.fault .indexOutOfRange) s

/-- The value of a local, which stays in place. -/
def copyLocal (id index : Nat) : EStateM Halt (Store σ p) (Value p) := fun s =>
  match s.locals.copy id index with
  | .ok v => .ok v s
  | .error e => .error e s

/-- The value of a local, which becomes invalid. -/
def moveLocal (id index : Nat) : EStateM Halt (Store σ p) (Value p) := fun s =>
  match s.locals.move id index with
  | .ok (v, locals) => .ok v { s with locals }
  | .error e => .error e s

/-- Puts a value into a local. -/
def storeLocal (id index : Nat) (v : Value p) : EStateM Halt (Store σ p) Unit := fun s =>
  match s.locals.store id index v with
  | .ok locals => .ok () { s with locals }
  | .error e => .error e s

/-- Takes an identifier for `n` locals. -/
def allocLocals (n : Nat) : EStateM Halt (Store σ p) Nat := fun s =>
  let (id, locals) := s.locals.alloc n
  .ok id { s with locals }

/-- Gives an identifier back. -/
def releaseLocals (id : Nat) : EStateM Halt (Store σ p) Unit := fun s =>
  match s.locals.release id with
  | .ok locals => .ok () { s with locals }
  | .error e => .error (.fault e) s

/-! ## Guards -/

/-- Puts the guard of an arm on top. -/
def pushGuard (g : Guard p) : EStateM Halt (Store σ p) Unit := fun s =>
  match s.conditions.push g with
  | .ok conditions => .ok () { s with conditions }
  | .error e => .error (.failure (.caused ⟨.shouldNotReachHere, "", none⟩ (.stack e))) s

/-- The failure of an arm without a guard. -/
def missingCondition : Failure :=
  .because .shouldNotReachHere "missing branch condition"

/-- Removes the topmost guard. -/
def popGuard : EStateM Halt (Store σ p) Unit := fun s =>
  match s.conditions.pop with
  | .ok (_, conditions) => .ok () { s with conditions }
  | .error _ => .error (.failure missingCondition) s

/-- Turns the topmost guard into that of the other arm. -/
def flipGuard : EStateM Halt (Store σ p) Unit := fun s =>
  match s.conditions.top? with
  | some g => .ok () { s with conditions := s.conditions.setTop g.flip }
  | none => .error (.failure missingCondition) s

/-- Removes the topmost `n` guards. -/
def popGuards : (n : Nat) → EStateM Halt (Store σ p) Unit
  | 0 => pure ()
  | n + 1 => do
    popGuard
    popGuards n

/-! ## Gates -/

/-- Loads a literal. -/
def load [Modulus p] (label : String) (type : ValueType) (n : Nat) :
    EStateM Halt (Store σ p) Unit := do
  let v ← onLedger (Gate.constant label (.ofNat n) type)
  push v

/-- Writes a gate to the ledger; one that cannot be recorded is noted and fails the execution. -/
def record (label : String) (opcode : Bytecode.Opcode) (x : EStateM GateError (Ledger σ p) α) :
    EStateM Halt (Store σ p) α :=
  fun ⟨ledger, stack, locals, conditions, steps⟩ =>
    match x ledger with
    | .ok a ledger => .ok a ⟨ledger, stack, locals, conditions, steps⟩
    | .error e ⟨recorder, journal⟩ =>
      .error (.failure (.caused ⟨.synthesisError, "", none⟩ (.gate e)))
        ⟨⟨recorder, journal.push (.gateFailed label opcode e)⟩, stack, locals, conditions, steps⟩

/-- Replaces the two topmost values by the result of a gate; the topmost one is the right
operand. -/
def binary [Modulus p] [Recorder σ p] (label : String) (opcode : Bytecode.Opcode) (g : Gate) :
    EStateM Halt (Store σ p) Unit := do
  let right ← pop
  let left ← pop
  let guard := (← get).conditions.top?
  let result ← record label opcode (g.apply label left right guard)
  push result

/-- The failure of a wire that the recorder refuses. -/
def synthesisFailure (e : Circuit.CircuitError) : Halt :=
  .failure (.caused ⟨.synthesisError, "", none⟩ (.circuit e))

/-- Allocates the wire of a parameter. -/
def allocInput [Recorder σ p] (label : String) (x : Option (Scalar p)) (type : ValueType) :
    EStateM Halt (Store σ p) (Value p) := do
  let w ← onLedger (Ledger.record synthesisFailure (Recorder.alloc label (.ofOption x)))
  return .wired w x type

end Store

end StackCircuit.Machine
