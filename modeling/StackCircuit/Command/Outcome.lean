import StackCircuit.Argument
import StackCircuit.Assembly.Parser
import StackCircuit.Bytecode.Listing
import StackCircuit.Circuit.Digest
import StackCircuit.Command.Folder
import StackCircuit.Command.Request
import StackCircuit.Machine.State
import StackCircuit.Source.Excerpt

/-!
# Outcomes of commands

What a command prints, and how it ends, as a function of the command line and the source file.

* `Ending`: how a command ends, with its exit code.
* **`Outcome`**: the ending, the text that is printed and the messages about it.
* `runOutcome`, `digestOutcome`, `disasmOutcome`: the commands.
* **`Outcome.ofWords`**: what a whole command line leads to.
-/

namespace StackCircuit.Command

open Bytecode (Function Program)
open Circuit (System)
open Machine (Config Halt Mode Setup)
open Text (Style Colour)

/-- How a command ends. -/
inductive Ending where
  | success | usage | badInput | notFound | syntaxError | failure | unsatisfied
deriving DecidableEq, Repr

/-- The exit code of an ending. -/
def Ending.code : Ending → Nat
  | success => 0
  | usage => 1
  | badInput => 2
  | notFound => 3
  | syntaxError => 4
  | failure => 5
  | unsatisfied => 6

/-- What a command leads to: how it ends, what it prints, and the messages that go elsewhere. -/
structure Outcome where
  ending : Ending
  output : String
  messages : List String
deriving DecidableEq, Repr

namespace Outcome

/-- The command ends well after printing a text. -/
def done (output : String) : Outcome :=
  ⟨.success, output, []⟩

/-- The command ends after printing a line that says why. -/
def stop (ending : Ending) (line : String) : Outcome :=
  ⟨ending, line ++ "\n", []⟩

/-- Puts a message in front of the others. -/
def noting (message : String) (o : Outcome) : Outcome :=
  { o with messages := message :: o.messages }

end Outcome

/-! ## Messages -/

/-- Whether a character may stand in a message without quotes around it. -/
def isBare (c : Char) : Bool :=
  c.isAlphanum || "-._/@^+".contains c

/-- A text as the value of a field of a message. -/
def messageValue (text : String) : String :=
  if text.all isBare then text else Text.quote text

/-- The message that a file is being assembled. -/
def assemblingMessage (file : String) : String :=
  "level=debug msg=" ++ messageValue ("assembling source file " ++ file)

/-- The message that an execution failed. -/
def failedMessage (text : String) (steps : Nat) : String :=
  "level=error msg=" ++ messageValue text ++ " step=" ++ Numeral.decimal steps

/-! ## Texts -/

/-- A reminder of the commands. -/
def usageText : String :=
  "Usage:\n  zkmove [command] [flags] file.zkm\n\nCommands:\n" ++
    "  digest  Compute the digest of a function's circuit structure.\n" ++
    "  disasm  Print the decoded instructions of every function.\n" ++
    "  run     Interpret a function whilst building its circuit.\n"

/-- The name of the program and its version. -/
def versionText : String :=
  "zkmove (unknown version)\n"

/-- The message that there is nothing to explain under given words. -/
def unknownTopicMessage (words : List String) : String :=
  "Unknown help topic [" ++ " ".intercalate (words.map Text.quoteRaw) ++ "]"

/-- A script that makes a shell complete the names of commands. -/
def completionText (shell : Shell) : String :=
  let names := " ".intercalate (Topic.program.below.filterMap (·.path.getLast?))
  match shell with
  | .bash => s!"complete -W \"{names}\" zkmove\n"
  | .fish => s!"complete -c zkmove -a \"{names}\"\n"
  | .powershell =>
    s!"Register-ArgumentCompleter -CommandName zkmove -ScriptBlock \x7b -split \"{names}\" \x7d\n"
  | .zsh => s!"compctl -k \"({names})\" zkmove\n"

/-! ## Parts of commands -/

/-- Assembles a source file, given its contents if it can be read. -/
def readProgram (file : String) (contents : Except ReadError (List Char)) (coloured : Bool) :
    Except Outcome Program :=
  match contents with
  | .error e => .error (.stop .notFound (e.text file))
  | .ok contents =>
    match Assembly.assemble ⟨file, contents⟩ with
    | .ok program => .ok program
    | .error e => .error ⟨.syntaxError, e.excerpt coloured, []⟩

/-- The index of the function to execute. -/
def findEntry (program : Program) (name : String) : Except Outcome UInt16 :=
  match program.find? name with
  | some index => .ok index
  | none => .error (.stop .notFound s!"unknown function \"{name}\"")

/-- The mode of a given name. -/
def findMode (name : String) : Except Outcome Mode :=
  match Mode.ofName? name with
  | some mode => .ok mode
  | none => .error (.stop .badInput (Mode.unknownText name))

/-- The outcome of an execution that stopped short after a number of steps. -/
def haltOutcome (steps : Nat) : Halt → Outcome
  | .failure cause => ⟨.failure, "", [failedMessage cause.text steps]⟩
  | .fault cause => ⟨.badInput, "", ["panic: " ++ cause.text]⟩
  | .outOfFuel => ⟨.failure, "", [failedMessage "out of fuel" steps]⟩

section

variable {p : Nat} [Modulus p]

/-- The arguments of the function to execute. -/
def findArguments (texts : List String) : Except Outcome (List (Scalar p)) :=
  match Argument.readAll texts with
  | .ok args => .ok args
  | .error e => .error (.stop .badInput e.text)

/-- Executes a function on a new system; gives the values it returns, the system and the number of
steps. -/
def execute (fuel : Nat) (setup : Setup) (index : UInt16) (args : List (Scalar p)) :
    Except Outcome (List (Value p) × System p × Nat) :=
  match Machine.State.run setup fuel index args
      (.initial setup.config (.ofRecorder System.initial)) with
  | .ok values machine => .ok (values, machine.store.ledger.recorder, machine.store.steps)
  | .error halt machine => .error (haltOutcome machine.store.steps halt)

/-- The digest of a system as text. -/
def digestText (s : System p) : String :=
  "0x" ++ Circuit.hex s.digest

/-- The verdict on the values of a system, in its colour. -/
def verdictText (s : System p) (coloured : Bool) : String :=
  let (text, colour) : String × Colour :=
    match s.check with
    | none => ("satisfied", .green)
    | some violation => (s!"unsatisfied ({violation.text})", .red)
  if coloured then (Style.plain.foreground colour.code).wrap text else text

/-- The lines that report an execution. -/
def runLines (values : List (Value p)) (s : System p) (steps : Nat) : List String :=
  values.zipIdx.map (fun (v, i) => s!"result[{i}] = {v.text}\n") ++
    [s!"steps: {steps}\n", s!"wires: {s.wires.size}\n", s!"constraints: {s.constraints.size}\n",
      s!"digest: {digestText s}\n"]

/-- The report of an execution; only in witness mode there is a verdict. -/
def runReport (mode : Mode) (values : List (Value p)) (s : System p) (steps : Nat)
    (coloured : Bool) : Outcome :=
  let text := String.join (runLines values s steps)
  if mode = .witness then
    ⟨if s.check.isNone then .success else .unsatisfied,
      text ++ s!"witness: {verdictText s coloured}\n", []⟩
  else .done text

end

/-! ## Commands -/

/-- Executes a function in a field and reports the circuit it builds. -/
def runOutcome (fuel : Nat) (f : ScalarField) (o : Options) (coloured : Bool) (program : Program) :
    Except Outcome Outcome := do
  let index ← findEntry program o.entry
  let mode ← findMode o.mode
  let args ← findArguments (p := f.modulus) o.arguments
  let (values, system, steps) ← execute fuel ⟨program, Config.standard.inMode mode⟩ index args
  return runReport mode values system steps coloured

/-- Builds the shape of a function's circuit in a field and reports its digest. -/
def digestOutcome (fuel : Nat) (f : ScalarField) (o : Options) (program : Program) :
    Except Outcome Outcome := do
  let index ← findEntry program o.entry
  let setup : Setup := ⟨program, Config.standard.inMode .shape⟩
  let (_, system, _) ← execute (p := f.modulus) fuel setup index []
  let counts := s!"({system.wires.size} wires, {system.constraints.size} constraints)"
  return .done (digestText system ++ " " ++ counts ++ "\n")

/-- Lists every function, with empty lines in between. -/
def disasmOutcome (coloured : Bool) (program : Program) : Outcome :=
  let listing := if coloured then Function.colouredListing else Function.listing
  .done ("\n".intercalate (program.functions.toList.map listing))

/-- The field of a given name. -/
def findField (name : String) : Except Outcome ScalarField :=
  match ScalarField.ofName? name with
  | some f => .ok f
  | none => .error (.stop .notFound s!"unknown field \"{name}\"")

/-- What a command does with a program.  Only listings do not depend on the field. -/
def action (fuel : Nat) (c : Subcommand) (o : Options) (coloured : Bool) :
    Except Outcome (Program → Except Outcome Outcome) :=
  match c with
  | .run => (findField o.field).map fun f => runOutcome fuel f o coloured
  | .digest => (findField o.field).map fun f => digestOutcome fuel f o
  | .disasm => .ok fun program => .ok (disasmOutcome coloured program)

/-- The outcome of steps that may have ended early. -/
def conclude : Except Outcome Outcome → Outcome
  | .ok o => o
  | .error o => o

namespace Outcome

/-- A command on a file, given its contents if it can be read, by at most `fuel` instructions.
Colours are used as the options say, or else on a terminal. -/
def ofCommand (fuel : Nat) (terminal : Bool) (c : Subcommand) (o : Options) (file : String)
    (contents : Except ReadError (List Char)) : Outcome :=
  let coloured := o.color.getD terminal
  match action fuel c o coloured with
  | .error outcome => outcome
  | .ok act =>
    let outcome := conclude (readProgram file contents coloured >>= act)
    if o.verbose then outcome.noting (assemblingMessage file) else outcome

/-- What a refused command line leads to. -/
def ofUsageError (e : UsageError) : Outcome :=
  ⟨.usage, "", ["Error: " ++ e.text]⟩

/-- What a command line leads to, given a way to read files. -/
def ofWords (fuel : Nat) (terminal : Bool) (read : String → Except ReadError (List Char))
    (words : List String) : Outcome :=
  match Request.ofWords words with
  | .error e => ofUsageError e
  | .ok .help => done usageText
  | .ok (.unknownTopic words) => (done "").noting (unknownTopicMessage words)
  | .ok .version => done versionText
  | .ok (.completion shell) => done (completionText shell)
  | .ok (.perform c o file) => ofCommand fuel terminal c o file (read file)

end Outcome

end StackCircuit.Command
