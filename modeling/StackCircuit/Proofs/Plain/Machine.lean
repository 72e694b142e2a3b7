import Mathlib.Algebra.GroupWithZero.Nat
import StackCircuit.BoundedStack
import StackCircuit.Bytecode.Program
import StackCircuit.Machine.Config
import StackCircuit.Machine.Failure
import StackCircuit.Scalar

/-!
# A plain stack machine

What programs compute, without circuits: a stack of field elements, and functions that call each
other. There are no wires, blocks or arms, and every function under execution keeps its own locals.

* `Operand`, `Call`, **`Configuration`**: the state of the machine.
* `perform`: the effect of an instruction, which tells where control goes next (`Flow`).
* `enter`, `leave`: calls and returns.
* **`step`**, **`run`**: one instruction, and the execution of a function.
* **`rerun`**: the execution of given instructions from the start of a function on, whatever the
  jumps among them.
-/

namespace StackCircuit.Plain

open Bytecode (Function Instruction Program)
open Machine (Config Failure Halt Status)

/-- A field element with its type. -/
structure Operand (p : ℕ) where
  value : Scalar p
  type : ValueType
deriving DecidableEq

/-- Locals, of which those without a value were never written or have been moved away. -/
abbrev Locals (p : ℕ) := Array (Option (Operand p))

/-- A function under execution. -/
structure Call (p : ℕ) where
  function : Function
  pc : UInt16
  locals : Locals p

/-- **The state of the machine.** -/
structure Configuration (p : ℕ) where
  stack : BoundedStack (Operand p)
  -- The functions under execution, the innermost on top.
  calls : BoundedStack (Call p)
  -- The number of instructions executed.
  steps : ℕ

/-- Where control goes after an instruction. -/
inductive Flow where
  | next
  | goto (pc : UInt16)
  | call (function : UInt16)
  | ret
deriving DecidableEq

variable {p : ℕ} {α : Type}

/-! ## Effects -/

/-- Stops with a failure. -/
def fail (status : Status) : EStateM Halt (Configuration p) α :=
  fun c => .error (.failure (.bare status)) c

def push (a : Operand p) : EStateM Halt (Configuration p) Unit := fun c =>
  match c.stack.push a with
  | .ok stack => .ok () { c with stack }
  | .error _ => fail .stackOverflow c

def pop : EStateM Halt (Configuration p) (Operand p) := fun c =>
  match c.stack.pop with
  | .ok (a, stack) => .ok a { c with stack }
  | .error _ => fail .stackUnderflow c

/-- Pops `n` operands, the topmost of which comes last, in front of others. -/
def popMany : ℕ → List (Operand p) → EStateM Halt (Configuration p) (List (Operand p))
  | 0, as => pure as
  | n + 1, as => do
    let a ← pop
    popMany n (a :: as)

/-- Works on the locals of the topmost function. -/
def onLocals (x : Locals p → Except Status (α × Locals p)) :
    EStateM Halt (Configuration p) α := fun c =>
  match c.calls.top? with
  | none => fail .outOfBounds c
  | some call =>
    match x call.locals with
    | .error status => fail status c
    | .ok (a, locals) => .ok a { c with calls := c.calls.setTop { call with locals } }

def copyLocal (j : ℕ) (locals : Locals p) : Except Status (Operand p × Locals p) :=
  match locals[j]? with
  | none => .error .outOfBounds
  | some none => .error .copyLocalError
  | some (some a) => .ok (a, locals)

def moveLocal (j : ℕ) (locals : Locals p) : Except Status (Operand p × Locals p) :=
  match locals[j]? with
  | none => .error .outOfBounds
  | some none => .error .moveLocalError
  | some (some a) => .ok (a, locals.setIfInBounds j none)

def storeLocal (j : ℕ) (a : Operand p) (locals : Locals p) : Except Status (Unit × Locals p) :=
  if j < locals.size then .ok ((), locals.setIfInBounds j (some a)) else .error .outOfBounds

/-- Replaces the two topmost operands by a result; the topmost one is the right one. -/
def binary (result : Operand p → Operand p → Operand p) : EStateM Halt (Configuration p) Unit := do
  let right ← pop
  let left ← pop
  push (result left right)

theorem binary_eq {left right : Operand p} {rest : List (Operand p)} {room : Option ℕ}
    {calls : BoundedStack (Call p)} {steps : ℕ} (result : Operand p → Operand p → Operand p) :
    binary result ⟨⟨right :: left :: rest, room⟩, calls, steps⟩ =
      .ok () ⟨⟨result left right :: rest, room.map (· + 1)⟩, calls, steps⟩ := by
  cases room <;> rfl

/-- Counts an instruction. -/
def tick : EStateM Halt (Configuration p) Unit :=
  fun c => .ok () { c with steps := c.steps + 1 }

/-- Moves the counter of the topmost function. -/
def jump (pc : UInt16) : EStateM Halt (Configuration p) Unit := fun c =>
  match c.calls.top? with
  | none => .ok () c
  | some call => .ok () { c with calls := c.calls.setTop { call with pc } }

/-! ## Instructions -/

section Instructions

/-- The local, the function or the position that an instruction refers to: the lowest 16 bits of its
operand. -/
def reference (i : Instruction) : ℕ :=
  i.operand.toNat % 2 ^ 16

variable [Modulus p]

/-- Pops a condition and jumps if it has a given value. -/
def branchOn (i : Instruction) (taken : Scalar p) : EStateM Halt (Configuration p) Flow := do
  let cond ← pop
  return if cond.value = taken then .goto (.ofNat (reference i)) else .next

/-- **The effect of an instruction.** -/
def perform (i : Instruction) : EStateM Halt (Configuration p) Flow := do
  match i.opcode with
  | .ldU8 => do
    push ⟨.ofNat (i.operand.toNat % 2 ^ 64), .u8⟩
    return .next
  | .ldU64 => do
    push ⟨.ofNat (i.operand.toNat % 2 ^ 64), .u64⟩
    return .next
  | .ldU128 => do
    push ⟨.ofNat i.operand.toNat, .u128⟩
    return .next
  | .ldTrue => do
    push ⟨1, .bool⟩
    return .next
  | .ldFalse => do
    push ⟨0, .bool⟩
    return .next
  | .pop => do
    let _ ← pop
    return .next
  | .add => do
    binary fun a b => ⟨a.value + b.value, a.type⟩
    return .next
  | .sub => do
    binary fun a b => ⟨a.value - b.value, a.type⟩
    return .next
  | .mul => do
    binary fun a b => ⟨a.value * b.value, a.type⟩
    return .next
  | .eq => do
    binary fun a b => ⟨if a.value = b.value then 1 else 0, .bool⟩
    return .next
  | .copyLoc => do
    let a ← onLocals (copyLocal (reference i))
    push a
    return .next
  | .moveLoc => do
    let a ← onLocals (moveLocal (reference i))
    push a
    return .next
  | .stLoc => do
    let a ← pop
    onLocals (storeLocal (reference i) a)
    return .next
  | .brTrue => branchOn i 1
  | .brFalse => branchOn i 0
  | .branch => return .goto (.ofNat (reference i))
  | .ret => return .ret
  | .call => return .call (.ofNat (reference i))
  | .abort => do
    let code ← pop
    fun c => .error (.failure (.runtime (.abort (BitVec.ofNat 256 (code.value.val % 2 ^ 128))))) c
  | .undefined _ => fail .shouldNotReachHere

end Instructions

/-! ## Calls and returns -/

/-- A function at its start, with given operands for its first locals. -/
def Call.ofFunction (f : Function) (params : List (Operand p)) : Call p :=
  ⟨f, 0, (params.map some ++ List.replicate (f.locals - params.length) none).toArray⟩

def pushCall (call : Call p) : EStateM Halt (Configuration p) Unit := fun c =>
  match c.calls.push call with
  | .ok calls => .ok () { c with calls }
  | .error _ => fail .stackOverflow c

/-- Calls a function with the topmost operands, of which the topmost is the last. -/
def enter (program : Program) (index : UInt16) : EStateM Halt (Configuration p) Unit := do
  match program.function? index with
  | none => fail .outOfBounds
  | some f => do
    let params ← popMany f.params.length []
    pushCall (.ofFunction f params)

/-- Returns from the topmost function; its caller goes on behind the call.  Tells whether there was
none. -/
def leave : EStateM Halt (Configuration p) Bool := fun c =>
  match c.calls.pop with
  | .error _ => fail .stackUnderflow c
  | .ok (_, calls) =>
    match calls.top? with
    | none => .ok true { c with calls }
    | some caller =>
      .ok false { c with calls := calls.setTop { caller with pc := caller.pc + 1 } }

/-! ## Execution -/

section Execution

variable [Modulus p]

/-- **One instruction of the machine**; tells whether the last function has returned. -/
def step (program : Program) : EStateM Halt (Configuration p) Bool := fun c =>
  match c.calls.top? with
  | none => .ok true c
  | some call =>
    match call.function.code[call.pc.toNat]? with
    | none => fail .outOfBounds c
    | some i =>
      (do
        tick
        match ← perform i with
        | .next => do
          jump (call.pc + 1)
          return false
        | .goto pc => do
          jump pc
          return false
        | .call index => do
          enter program index
          return false
        | .ret => leave) c

/-- Instructions until the last function has returned, at most `fuel` many. -/
def loop (program : Program) : (fuel : ℕ) → EStateM Halt (Configuration p) Unit
  | 0, c => .error .outOfFuel c
  | fuel + 1, c =>
    match step program c with
    | .ok true c => .ok () c
    | .ok false c => loop program fuel c
    | .error e c => .error e c

/-- The machine before it runs.  A bound of zero stands for 256. -/
def Configuration.initial (config : Config) : Configuration p :=
  ⟨.ofCapacity (if config.evalSize = 0 then 256 else config.evalSize),
    .ofCapacity (if config.callSize = 0 then 256 else config.callSize), 0⟩

/-- The arguments of a function with their types. -/
def arguments (f : Function) (args : List (Scalar p)) : List (Operand p) :=
  args.zipWith Operand.mk f.params

omit [Modulus p] in
theorem length_arguments {f : Function} {args : List (Scalar p)}
    (h : args.length = f.params.length) : (arguments f args).length = f.params.length := by
  rw [arguments, List.length_zipWith, h, Nat.min_self]

/-- **Executes a function** with given arguments, and gives the topmost operands at its end. -/
def run (program : Program) (config : Config) (fuel : ℕ) (f : Function) (args : List (Scalar p)) :
    EStateM.Result Halt (Configuration p) (List (Operand p)) :=
  (do
    pushCall (.ofFunction f (arguments f args))
    loop program fuel
    popMany f.returns []) (.initial config)

/-! ## Given instructions -/

/-- An instruction with the call or return that it causes, where jumps lead nowhere. -/
def execute (program : Program) (i : Instruction) : EStateM Halt (Configuration p) Unit := do
  tick
  match ← perform i with
  | .next => return
  | .goto _ => return
  | .call index => enter program index
  | .ret => do
    let _ ← leave

/-- Given instructions one after the other. -/
def replay (program : Program) : List Instruction → EStateM Halt (Configuration p) Unit
  | [] => pure ()
  | i :: is => do
    execute program i
    replay program is

/-- **Executes given instructions** from the start of a function on, and gives the topmost operands
at their end. -/
def rerun (program : Program) (config : Config) (is : List Instruction) (f : Function)
    (args : List (Scalar p)) : EStateM.Result Halt (Configuration p) (List (Operand p)) :=
  (do
    pushCall (.ofFunction f (arguments f args))
    replay program is
    popMany f.returns []) (.initial config)

end Execution

end StackCircuit.Plain
