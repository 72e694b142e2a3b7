import StackCircuit.Proofs.Assembly.Lexemes

/-!
# The grammar of the assembly language

What a source text says, apart from how a parser finds out.

* `Terminal`: what the grammar knows of a token: punctuation and keywords by their kind, names and
  numbers by their text.
* `Item`, **`Declaration`**: derivations of instructions, labels and functions; `sentence`: the terminals
  that a file of them spells.
* `Declaration.WellFormed`, **`WellFormed`**: the side conditions.
* `Declaration.function`, **`program`**: what a file means.
-/

namespace StackCircuit.Assembly

open Bytecode (Function Instruction Opcode Program)

/-- The symbols from which the grammar builds sentences: punctuation, keywords and the end of the file,
and names and numbers. -/
inductive Terminal where
  | symbol (kind : TokenKind)
  | name (text : String)
  | number (lexeme : List Char)
deriving DecidableEq, Repr

/-- What the grammar knows of a token. -/
def Token.terminal (t : Token) : Terminal :=
  match t.kind with
  | .identifier => .name t.text
  | .number => .number t.lexeme
  | kind => .symbol kind

/-! ## Instructions and labels -/

/-- A line in the body of a function: a label, or an instruction without an operand, with a number or
with the name of a function or a label. -/
inductive Item where
  | label (name : String)
  | plain (opcode : Opcode)
  | literal (opcode : Opcode) (lexeme : List Char)
  | reference (opcode : Opcode) (name : String)
deriving DecidableEq, Repr

namespace Item

/-- The terminals of an item.  A name in front of a colon is a label. -/
def terminals : Item → List Terminal
  | label name => [.name name, .symbol .colon]
  | plain opcode => [.name opcode.name]
  | literal opcode lexeme => [.name opcode.name, .number lexeme]
  | reference opcode name => [.name opcode.name, .name name]

/-- An instruction has a defined operation, and an operand if and only if the operation takes one: a
number of its width, or a name after a call or a jump. -/
def IsGrammatical : Item → Prop
  | label _ => True
  | plain opcode => opcode ∈ Opcode.defined ∧ opcode.hasOperand = false
  | literal opcode lexeme =>
    opcode ∈ Opcode.defined ∧ opcode.hasOperand ∧ denoted lexeme < 2 ^ opcode.operandWidth
  | reference opcode _ => opcode = .call ∨ opcode.isJump

/-- The label that an item declares. -/
def label? : Item → Option String
  | label name => some name
  | _ => none

/-- The instruction of an item, where `target` tells what names stand for. -/
def instruction? (target : Opcode → String → ℕ) : Item → Option Instruction
  | label _ => none
  | plain opcode => some (.ofNat opcode 0)
  | literal opcode lexeme => some (.ofNat opcode (denoted lexeme))
  | reference opcode name => some (.ofNat opcode (target opcode name))

/-- Whether an item is an instruction. -/
def isInstruction : Item → Bool
  | label _ => false
  | _ => true

end Item

/-- The labels that items declare. -/
def declared (items : List Item) : List String :=
  items.filterMap Item.label?

/-- The position of a label: the number of instructions before its declaration. -/
def position (items : List Item) (name : String) : ℕ :=
  (items.takeWhile (· ≠ .label name)).countP Item.isInstruction

/-- The instructions among items. -/
def instructions (target : Opcode → String → ℕ) (items : List Item) : List Instruction :=
  items.filterMap (Item.instruction? target)

/-! ## Functions -/

/-- The declaration of a function, with the number of results and of locals if they are given. -/
structure Declaration where
  name : String
  params : List ValueType
  returns : Option (List Char)
  locals : Option (List Char)
  items : List Item
deriving DecidableEq, Repr

/-- The types that have a name. -/
def knownTypes : List ValueType :=
  [.bool, .u8, .u64, .u128]

namespace Declaration

variable (d : Declaration) (functions : List String)

/-- The number of results, by default zero. -/
def returnCount : ℕ :=
  (d.returns.map denoted).getD 0

/-- The number of locals, by default the number of parameters. -/
def localCount : ℕ :=
  (d.locals.map denoted).getD d.params.length

/-- A count behind a word, if it is given. -/
def optional (word : TokenKind) : Option (List Char) → List Terminal
  | none => []
  | some lexeme => [.symbol word, .number lexeme]

/-- The terminals of a function from its name on. -/
def terminals : List Terminal :=
  [.name d.name, .symbol .parenOpen] ++
    (d.params.map fun type => Terminal.name type.name).intersperse (.symbol .comma) ++
    [.symbol .parenClose] ++ optional .arrow d.returns ++ [.symbol .braceOpen] ++
    optional .keywordLocals d.locals ++ d.items.flatMap Item.terminals ++ [.symbol .braceClose]

/-- What a name stands for after an operation: the index of a function among the functions of the file,
as a 16-bit number, or the position of a label. -/
def target (opcode : Opcode) (name : String) : ℕ :=
  if opcode = .call then functions.idxOf name % 65536 else position d.items name

/-- The side conditions on a function of a file with the given functions. -/
structure WellFormed : Prop where
  params_known : ∀ type ∈ d.params, type ∈ knownTypes
  returns_lt : ∀ lexeme ∈ d.returns, denoted lexeme < 2 ^ 16
  locals_lt : ∀ lexeme ∈ d.locals, denoted lexeme < 2 ^ 16
  params_le_locals : d.params.length ≤ d.localCount
  grammatical : ∀ i ∈ d.items, i.IsGrammatical
  size_le : d.items.countP Item.isInstruction ≤ 65536
  labels_nodup : (declared d.items).Nodup
  jumps_declared : ∀ opcode name, .reference opcode name ∈ d.items → opcode.isJump →
    name ∈ declared d.items
  calls_declared : ∀ name, .reference .call name ∈ d.items → name ∈ functions

/-- What a function means. -/
def function (h : d.params.length ≤ d.localCount) : Function :=
  ⟨d.name, d.params, d.localCount, d.returnCount, (instructions (d.target functions) d.items).toArray, h⟩

end Declaration

/-! ## Files -/

/-- The sentence that a file with the given functions spells. -/
def sentence (ds : List Declaration) : List Terminal :=
  ds.flatMap (fun d => .symbol .keywordFn :: d.terminals) ++ [.symbol .endOfFile]

/-- The side conditions on a file. -/
structure WellFormed (ds : List Declaration) : Prop where
  nodup : (ds.map Declaration.name).Nodup
  each : ∀ d ∈ ds, d.WellFormed (ds.map Declaration.name)

/-- What a file means. -/
def program (ds : List Declaration) (h : WellFormed ds) : Program :=
  ⟨(ds.pmap (fun d hd => d.function (ds.map Declaration.name) hd)
    fun d hd => (h.each d hd).params_le_locals).toArray⟩

end StackCircuit.Assembly
