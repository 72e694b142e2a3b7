import StackCircuit.Machine.Config
import StackCircuit.Scalar
import StackCircuit.Text.Quoted

/-!
# Options of the command line

* `Flag`: the flags; a switch needs no value, any other flag takes one.
* `UsageError`: why a command line is refused.
* **`Options`**: what the flags of a command line say.
* **`Options.parse`**: separates the flags of a command from its operands.  Flags may stand before
  and after operands, and the word `--` ends them.
-/

namespace StackCircuit.Command

/-! ## Flags -/

/-- The flags. -/
inductive Flag where
  | help | version | verbose | field | entry | mode | arg | color | noDescriptions
deriving DecidableEq, Repr

namespace Flag

/-- The name of a flag. -/
def name : Flag → String
  | help => "help"
  | version => "version"
  | verbose => "verbose"
  | field => "field"
  | entry => "entry"
  | mode => "mode"
  | arg => "arg"
  | color => "color"
  | noDescriptions => "no-descriptions"

/-- The letter that stands for a flag. -/
def letter? : Flag → Option Char
  | help => some 'h'
  | verbose => some 'v'
  | _ => none

/-- Whether a flag is on or off; the others carry a text. -/
def isSwitch : Flag → Bool
  | help | version | verbose | color | noDescriptions => true
  | _ => false

/-- How messages refer to a flag. -/
def title (f : Flag) : String :=
  match f.letter? with
  | some c => s!"-{c}, --{f.name}"
  | none => s!"--{f.name}"

/-- The flag of a given name. -/
def ofName? (flags : List Flag) (name : String) : Option Flag :=
  flags.find? (·.name == name)

/-- The flag of a given letter. -/
def ofLetter? (flags : List Flag) (c : Char) : Option Flag :=
  flags.find? (·.letter? == some c)

/-- The flags that every command has. -/
def shared : List Flag :=
  [verbose, field]

end Flag

/-! ## Refusals -/

/-- Why a command line is refused. -/
inductive UsageError where
  | unknownCommand (name path : String)
  | badSyntax (word : String)
  | unknownFlag (name : String)
  | unknownLetter (letter : Char) (rest : List Char)
  | missingValue (word : String)
  | badSwitch (flag : Flag) (value : String)
  | operandCount (count : Nat)
deriving DecidableEq, Repr

/-- The first byte of the encoding of a character, as a character. -/
def leadByte (c : Char) : Char :=
  let n := c.toNat
  if n < 0x80 then c
  else if n < 0x800 then Char.ofNat (0xc0 + n / 0x40)
  else if n < 0x10000 then Char.ofNat (0xe0 + n / 0x1000)
  else Char.ofNat (0xf0 + n / 0x40000)

/-- The wording of a refusal; of an unknown letter only the first byte is quoted. -/
def UsageError.text : UsageError → String
  | unknownCommand name path =>
    "unknown command " ++ Text.quote name ++ " for " ++ Text.quote path
  | badSyntax word => s!"bad flag syntax: {word}"
  | unknownFlag name => s!"unknown flag: --{name}"
  | unknownLetter letter rest =>
    "unknown shorthand flag: " ++ Text.quoteChar (leadByte letter) ++ " in -" ++
      String.ofList (letter :: rest)
  | missingValue word => s!"flag needs an argument: {word}"
  | badSwitch flag value =>
    "invalid argument " ++ Text.quote value ++ " for " ++ Text.quote flag.title ++
      " flag: strconv.ParseBool: parsing " ++ Text.quote value ++ ": invalid syntax"
  | operandCount count => s!"accepts 1 arg(s), received {count}"

/-! ## Options -/

/-- What the flags of a command line say. -/
structure Options where
  help : Bool := false
  version : Bool := false
  verbose : Bool := false
  color : Option Bool := none
  field : String := ScalarField.bls12377.name
  entry : String := "main"
  mode : String := Machine.Mode.witness.name
  args : List String := []
deriving DecidableEq, Repr

/-- The text with every line break that is written as a carriage return and a line feed reduced to
the line feed. -/
def plainBreaks : List Char → List Char
  | [] => []
  | '\r' :: '\n' :: rest => '\n' :: plainBreaks rest
  | c :: rest => c :: plainBreaks rest

/-- The arguments, which are handed over as one line of comma-separated fields.  The line of a
single empty text has no fields, and line breaks within fields become plain. -/
def Options.arguments (o : Options) : List String :=
  if o.args = [""] then [] else o.args.map fun text => String.ofList (plainBreaks text.toList)

/-- The truth value that a text denotes. -/
def truth? (text : String) : Option Bool :=
  if ["1", "t", "T", "true", "TRUE", "True"].contains text then some true
  else if ["0", "f", "F", "false", "FALSE", "False"].contains text then some false
  else none

/-- The value of a switch that is given without one. -/
def onText : String :=
  "true"

namespace Options

/-- Turns a switch on or off; the other flags stay as they are. -/
def switch (o : Options) (f : Flag) (on : Bool) : Options :=
  match f with
  | .help => { o with help := on }
  | .version => { o with version := on }
  | .verbose => { o with verbose := on }
  | .color => { o with color := some on }
  | _ => o

/-- Sets a flag to the value of a given text.  The last value of a flag counts, except that
arguments add up. -/
def set (o : Options) (f : Flag) (value : String) : Except UsageError Options :=
  match f with
  | .field => .ok { o with field := value }
  | .entry => .ok { o with entry := value }
  | .mode => .ok { o with mode := value }
  | .arg => .ok { o with args := o.args ++ [value] }
  | f =>
    match truth? value with
    | some on => .ok (o.switch f on)
    | none => .error (.badSwitch f value)

/-- Sets the flags that a run of letters stands for.  All of them are switches, and an equals sign
starts the value of the letter in front of it.  From `test.` on, the letters are an instruction to
those who test the program, and do not count. -/
def setLetters (flags : List Flag) (o : Options) : List Char → Except UsageError Options
  | [] => .ok o
  | 't' :: 'e' :: 's' :: 't' :: '.' :: _ => .ok o
  | c :: rest =>
    match Flag.ofLetter? flags c with
    | none => .error (.unknownLetter c rest)
    | some f =>
      match rest with
      | '=' :: v :: vs => o.set f (String.ofList (v :: vs))
      | rest => do setLetters flags (← o.set f onText) rest

end Options

/-! ## Words -/

/-- What a word of a command line is; `malformed` is two hyphens that no name follows. -/
inductive Word where
  | operand | terminator
  | named (name : String) (value? : Option String)
  | letters (cs : List Char)
  | malformed
deriving DecidableEq, Repr

/-- What the characters of a word make of it. -/
def Word.ofChars : List Char → Word
  | ['-', '-'] => terminator
  | '-' :: '-' :: cs =>
    let name := cs.takeWhile (· ≠ '=')
    if name.head? = none ∨ name.head? = some '-' then malformed
    else named (String.ofList name) ((cs.dropWhile (· ≠ '=')).tail?.map String.ofList)
  | '-' :: c :: cs => letters (c :: cs)
  | _ => operand

/-- Separates the flags of a command, on top of options so far, from its operands. -/
def Options.parse (flags : List Flag) (o : Options) :
    List String → Except UsageError (Options × List String)
  | [] => .ok (o, [])
  | word :: rest =>
    match Word.ofChars word.toList with
    | .operand => do
      let (o, operands) ← parse flags o rest
      return (o, word :: operands)
    | .terminator => .ok (o, rest)
    | .malformed => .error (.badSyntax word)
    | .letters cs => do parse flags (← o.setLetters flags cs) rest
    | .named name value? =>
      match Flag.ofName? flags name with
      | none => .error (.unknownFlag name)
      | some f =>
        match value? with
        | some value => do parse flags (← o.set f value) rest
        | none =>
          if f.isSwitch then do parse flags (← o.set f onText) rest
          else
            match rest with
            | [] => .error (.missingValue word)
            | value :: rest => do parse flags (← o.set f value) rest

end StackCircuit.Command
