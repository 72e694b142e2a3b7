import StackCircuit.BoundedStack
import StackCircuit.Circuit.System

/-!
# Failures

How an execution can fail, as a chain of causes that is worded from the outside in.

* `Status`: the kinds of run-time failures, encoded in one byte.
* `GateError`: why a gate cannot be recorded.
* `Report`: a run-time failure by itself.
* **`Failure`**: a chain of causes.  Two run-time failures count as the same if their status is.
* `Halt`: how an execution can stop short: by a failure, by a fault, or for lack of fuel.
-/

namespace StackCircuit

/-- The operand of a gate that is to blame. -/
inductive Side where
  | left | right
deriving DecidableEq, Repr

/-- Why a gate cannot be recorded. -/
inductive GateError where
  | operand (label : String) (side : Side)
  | circuit (label : String) (cause : Circuit.CircuitError)
deriving DecidableEq, Repr

namespace GateError

/-- The wording for an operand that is the invalid value. -/
def operandText : String :=
  "invalid operand"

/-- The wording of a gate error. -/
def text : GateError → String
  | operand label .left => s!"{label}: left operand: {operandText}"
  | operand label .right => s!"{label}: right operand: {operandText}"
  | circuit label cause => s!"{label}: {cause.text}"

end GateError

namespace Machine

/-! ## Status -/

/-- The kinds of run-time failures; `reserved` is a code without a name: zero, or `10 + index`. -/
inductive Status where
  | stackOverflow | stackUnderflow | outOfBounds | copyLocalError | moveLocalError | synthesisError
  | valueConversionError | programBlockError | shouldNotReachHere | moveAbort
  | reserved (index : Fin 246)
deriving DecidableEq, Repr

namespace Status

/-- The code of a status. -/
def code : Status → Nat
  | stackOverflow => 1
  | stackUnderflow => 2
  | outOfBounds => 3
  | copyLocalError => 4
  | moveLocalError => 5
  | synthesisError => 6
  | valueConversionError => 7
  | programBlockError => 8
  | shouldNotReachHere => 9
  | moveAbort => 10
  | reserved i => if i.val = 0 then 0 else 10 + i.val

/-- The named kinds in the order of their codes. -/
def named : List Status :=
  [stackOverflow, stackUnderflow, outOfBounds, copyLocalError, moveLocalError, synthesisError,
    valueConversionError, programBlockError, shouldNotReachHere, moveAbort]

/-- The status of a given code. -/
def ofCode (b : UInt8) : Status :=
  if h : 11 ≤ b.toNat then reserved ⟨b.toNat - 10, by have := b.toNat_lt; omega⟩
  else if b.toNat = 0 then reserved 0
  else (named[b.toNat - 1]?).getD moveAbort

/-- The text of a status. -/
def name : Status → String
  | stackOverflow => "StackOverflow"
  | stackUnderflow => "StackUnderflow"
  | outOfBounds => "OutOfBounds"
  | copyLocalError => "CopyLocalError"
  | moveLocalError => "MoveLocalError"
  | synthesisError => "SynthesisError"
  | valueConversionError => "ValueConversionError"
  | programBlockError => "ProgramBlockError"
  | shouldNotReachHere => "ShouldNotReachHere"
  | moveAbort => "MoveAbort"
  | s => s!"StatusCode({s.code})"

end Status

/-! ## Chains of causes -/

/-- A run-time failure by itself, with what is known besides, empty for nothing, and the code with which
a program stopped itself. -/
structure Report where
  status : Status
  message : String
  abortCode : Option (BitVec 256)
deriving DecidableEq, Repr

/-- The wording of a run-time failure by itself. -/
def Report.text (r : Report) : String :=
  if r.message.isEmpty then r.status.name else s!"{r.status.name}: {r.message}"

/-- The report of a program that stopped itself with a code. -/
def Report.abort (code : BitVec 256) : Report :=
  ⟨.moveAbort, "Move bytecode aborted with error code " ++ Numeral.decimal code.toNat, some code⟩

/-- A chain of causes, the outermost first. -/
inductive Failure where
  | plain (text : String)
  | stack (cause : StackError)
  | circuit (cause : Circuit.CircuitError)
  | gate (cause : GateError)
  | context (label : String) (cause : Failure)
  | runtime (report : Report)
  | caused (report : Report) (cause : Failure)
deriving DecidableEq, Repr

namespace Failure

/-- A run-time failure of which only the kind is known. -/
def bare (status : Status) : Failure :=
  runtime ⟨status, "", none⟩

/-- A run-time failure with a message. -/
def because (status : Status) (message : String) : Failure :=
  runtime ⟨status, message, none⟩

/-- The wording of a chain of causes. -/
def text : Failure → String
  | plain text => text
  | stack cause => cause.text
  | circuit cause => cause.text
  | gate cause => cause.text
  | context label cause => s!"{label}: {cause.text}"
  | runtime report => report.text
  | caused report cause => s!"{report.text}: {cause.text}"

/-- The run-time failures of a chain, the outermost first. -/
def reports : Failure → List Report
  | context _ cause => cause.reports
  | runtime report => [report]
  | caused report cause => report :: cause.reports
  | _ => []

/-- The outermost run-time failure of a chain. -/
def report? (f : Failure) : Option Report :=
  f.reports.head?

/-- The cause of the outermost run-time failure of a chain. -/
def cause? : Failure → Option Failure
  | context _ cause => cause.cause?
  | caused _ cause => some cause
  | _ => none

/-- The kind of the outermost run-time failure of a chain. -/
def status? (f : Failure) : Option Status :=
  f.report?.map (·.status)

/-- Whether a chain holds a run-time failure of the kind of another chain's outermost one. -/
def matchesStatus (f target : Failure) : Bool :=
  match target.status? with
  | none => false
  | some status => f.reports.any (·.status = status)

end Failure

/-- How an execution stops short. -/
inductive Halt where
  | failure (cause : Failure)
  | fault (cause : Fault)
  | outOfFuel
deriving DecidableEq, Repr

end Machine

end StackCircuit
