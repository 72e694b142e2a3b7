import StackCircuit.Bytecode.Instruction
import StackCircuit.Circuit.Recorder
import StackCircuit.Machine.Config
import StackCircuit.Machine.Failure
import StackCircuit.Value

/-!
# The journal

What happens while a circuit is built, in order.

* **`Event p`**: the things worth noting; `Event.text` is the line that reports one.
* **`Ledger σ p`**: what a gate writes to, namely a recorder and the journal.
* `Ledger.note`, `Ledger.record`: the ways to write.
-/

namespace StackCircuit

open Bytecode (Instruction Opcode)
open Circuit (Recorder CircuitError)
open Machine (Mode Failure)

/-- What can happen while a circuit is built. -/
inductive Event (p : Nat) where
  | run (function : String) (mode : Mode)
  | execute (function : String) (instruction : Instruction) (pc : UInt16) (step : Nat)
  | constant (label : String) (x : Scalar p) (type : ValueType)
  | guarded (label : String) (negated : Bool)
  | gateFailed (label : String) (opcode : Opcode) (cause : GateError)
  | materialise (function : String) (pc : UInt16) (depth : Nat)
  | switchArm (function : String) (pc : UInt16)
  | merge (function : String) (pc : UInt16) (depth : Nat)
  | call (function : String) (step depth : Nat)
  | failed (function : String) (step : Nat) (cause : Failure)
deriving Repr

variable {p : Nat} [Modulus p]

/-- The line that reports an event: its level, its message and its details in the order of their
names. -/
def Event.text : Event p → String
  | run function mode => s!"debug|run|function={function}|mode={mode.name}"
  | execute function instruction pc step =>
    s!"debug|execute|function={function}|insn={instruction.text}|pc={pc.toNat}|step={step}"
  | constant label x type => s!"trace|constant {x.decimal}:{type.name}|ns={label}"
  | guarded label negated => s!"trace|guarded operation|negated={negated}|ns={label}"
  | gateFailed label opcode cause => s!"error|{opcode.name} failed: {cause.text}|ns={label}"
  | materialise function pc depth =>
    s!"debug|materialise conditional branch|depth={depth}|function={function}|pc={pc.toNat}"
  | switchArm function pc => s!"debug|switch to second arm|function={function}|pc={pc.toNat}"
  | merge function pc depth =>
    s!"debug|merge conditional branch|depth={depth}|function={function}|pc={pc.toNat}"
  | call function step depth => s!"trace|call|depth={depth}|function={function}|step={step}"
  | failed function step cause => s!"debug|{cause.text}|function={function}|step={step}"

/-- What gates write to: the recorder, and the events so far. -/
structure Ledger (σ : Type) (p : Nat) where
  recorder : σ
  journal : Array (Event p)

namespace Ledger

variable {σ ε α : Type}

/-- A recorder with an empty journal. -/
def ofRecorder (recorder : σ) : Ledger σ p :=
  ⟨recorder, #[]⟩

/-- Notes an event. -/
def note (e : Event p) : EStateM ε (Ledger σ p) Unit :=
  fun ⟨recorder, journal⟩ => .ok () ⟨recorder, journal.push e⟩

/-- Writes to the recorder; a refusal becomes an error of the caller's kind. -/
def record (wrap : CircuitError → ε) (x : EStateM CircuitError σ α) : EStateM ε (Ledger σ p) α :=
  fun ⟨recorder, journal⟩ =>
    match x recorder with
    | .ok a recorder => .ok a ⟨recorder, journal⟩
    | .error e recorder => .error (wrap e) ⟨recorder, journal⟩

end Ledger

end StackCircuit
