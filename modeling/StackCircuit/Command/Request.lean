import StackCircuit.Command.Options

/-!
# Requests

What a command line asks for.

* `Subcommand`: what can be done with a source file.
* `splitCommand`: finds the name of a command among the words.
* **`Topic.ofWords`**: the command that a command line names.
* **`Request.ofWords`**: reads a command line.
-/

namespace StackCircuit.Command

/-! ## Commands -/

/-- What can be done with a source file. -/
inductive Subcommand where
  | run | digest | disasm
deriving DecidableEq, Repr

/-- The name of a command. -/
def Subcommand.name : Subcommand → String
  | run => "run"
  | digest => "digest"
  | disasm => "disasm"

/-- The flags of a command. -/
def Subcommand.flags : Subcommand → List Flag
  | run => [.entry, .mode, .arg, .color, .help] ++ Flag.shared
  | digest => [.entry, .color, .help] ++ Flag.shared
  | disasm => [.color, .help] ++ Flag.shared

/-- The shells that can complete command lines. -/
inductive Shell where
  | bash | fish | powershell | zsh
deriving DecidableEq, Repr

/-- The name of a shell. -/
def Shell.name : Shell → String
  | bash => "bash"
  | fish => "fish"
  | powershell => "powershell"
  | zsh => "zsh"

/-- What a command line is about. -/
inductive Topic where
  | program
  | command (c : Subcommand)
  | help
  | completion (shell? : Option Shell)
deriving DecidableEq, Repr

namespace Topic

/-- The names that lead to a topic. -/
def path : Topic → List String
  | program => ["zkmove"]
  | command c => ["zkmove", c.name]
  | help => ["zkmove", "help"]
  | completion none => ["zkmove", "completion"]
  | completion (some shell) => ["zkmove", "completion", shell.name]

/-- The topics one level below a topic. -/
def below : Topic → List Topic
  | program => [command .run, command .digest, command .disasm, help, completion none]
  | completion none => [.bash, .fish, .powershell, .zsh].map fun shell => completion (some shell)
  | _ => []

/-- The flags that are known while the topic below is looked for. -/
def generalFlags : Topic → List Flag
  | program => .version :: Flag.shared
  | _ => Flag.shared

/-- The flags of a topic. -/
def flags : Topic → List Flag
  | program => [.version, .help] ++ Flag.shared
  | command c => c.flags
  | help | completion none => .help :: Flag.shared
  | completion (some _) => [.noDescriptions, .help] ++ Flag.shared

/-- The topic of a given name below a topic. -/
def next? (t : Topic) (name : String) : Option Topic :=
  t.below.find? fun u => u.path.getLast? == some name

end Topic

/-! ## Finding the command -/

/-- Whether a word is taken for a flag that has its value in the next word.  This holds of every
single flag that is not known to be a switch. -/
def takesNext (flags : List Flag) : List Char → Bool
  | '-' :: '-' :: name =>
    !name.contains '=' && !(Flag.ofName? flags (String.ofList name)).any (·.isSwitch)
  | ['-', c] => c ≠ '=' && c.toNat < 0x80 && !(Flag.ofLetter? flags c).any (·.isSwitch)
  | _ => false

/-- Whether a word can name a command. -/
def isOperand (word : List Char) : Bool :=
  word.head?.any (· ≠ '-')

/-- The first word that is neither a flag nor the value of one, and the other words; the first word
is passed over if `skip` says so. -/
def splitCommand (flags : List Flag) : (skip : Bool) → List String → Option (String × List String)
  | _, [] => none
  | true, word :: rest =>
    (splitCommand flags false rest).map fun (name, words) => (name, word :: words)
  | false, word :: rest =>
    if word = "--" then none
    else if isOperand word.toList then some (word, rest)
    else
      (splitCommand flags (takesNext flags word.toList) rest).map fun (name, words) =>
        (name, word :: words)

/-- The topic one level below that words name, and the other words. -/
def Topic.descend? (t : Topic) (words : List String) : Option (Topic × List String) := do
  let (name, rest) ← splitCommand t.generalFlags false words
  return (← t.next? name, rest)

/-- The topic of a command line, and the words other than those that name it.  The first word that
could name a command has to. -/
def Topic.ofWords (words : List String) : Except UsageError (Topic × List String) :=
  match splitCommand program.generalFlags false words with
  | none => .ok (program, words)
  | some (name, rest) =>
    match program.next? name with
    | none => .error (.unknownCommand name (" ".intercalate program.path))
    | some topic => .ok ((topic.descend? rest).getD (topic, rest))

/-! ## Reading a command line -/

/-- What a command line asks for. -/
inductive Request where
  | help
  | unknownTopic (words : List String)
  | version
  | completion (shell : Shell)
  | perform (command : Subcommand) (options : Options) (file : String)
deriving DecidableEq, Repr

namespace Request

/-- What the options and operands of a topic ask for. -/
def ofOperands (topic : Topic) (options : Options) (operands : List String) :
    Except UsageError Request :=
  match topic with
  | .program => .ok (if options.version then version else help)
  | .command c =>
    match operands with
    | [file] => .ok (perform c options file)
    | operands => .error (.operandCount operands.length)
  | .help =>
    match Topic.ofWords operands with
    | .ok _ => .ok help
    | .error _ => .ok (unknownTopic operands)
  | .completion none => .ok help
  | .completion (some shell) =>
    match operands with
    | [] => .ok (completion shell)
    | name :: _ => .error (.unknownCommand name (" ".intercalate topic.path))

/-- Reads a command line. -/
def ofWords (words : List String) : Except UsageError Request := do
  let (topic, words) ← Topic.ofWords words
  let (options, operands) ← Options.parse topic.flags {} words
  if options.help then return help else ofOperands topic options operands

end Request

end StackCircuit.Command
