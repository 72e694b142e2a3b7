import StackCircuit.Assembly.Labels
import StackCircuit.Assembly.Token
import StackCircuit.Bytecode.Program

/-!
# The assembler

Source text to programs.  A file is a list of functions; a function has parameter types, an optional
number of results, an optional number of locals, and instructions with labels between them.
Functions may be called before they are declared.

* `Problem`, `Complaint`: what can be wrong, and where.
* `Parser`: reads a value off the tokens ahead; `expect`, `accepts`, `literal`: of one token.
* `Draft`: a function whose calls are not linked yet.
* `parameters`, `body`, `declaration`, `function`, `functions`: the grammar, by recursion on the
  tokens.
* `link`: puts the indices of functions into the calls.
* **`assemble`**: the program of a file, or the one syntax error in it.
-/

namespace StackCircuit.Assembly

open Bytecode (Opcode Instruction Function Program)
open Source (File Span SyntaxError)

/-! ## Complaints -/

/-- What can be wrong with a source text; in a `fault` it is the assembler that is wrong. -/
inductive Problem where
  | unknownText | unknownDeclaration | unexpectedToken | duplicateFunction | unknownType
  | fewerLocals | missingBrace | duplicateLabel | unknownInstruction | functionTooLarge
  | invalidNumber
  | literalTooWide (bits : Nat)
  | unknownLabel | unknownFunction
  | fault (cause : Fault)
deriving DecidableEq, Repr

/-- The wording of a problem. -/
def Problem.text : Problem → String
  | unknownText => "unknown text encountered"
  | unknownDeclaration => "unknown declaration"
  | unexpectedToken => "unexpected token"
  | duplicateFunction => "duplicate function"
  | unknownType => "unknown type"
  | fewerLocals => "fewer locals than parameters"
  | missingBrace => "missing \"\x7d\""
  | duplicateLabel => "duplicate label"
  | unknownInstruction => "unknown instruction"
  | functionTooLarge => "function too large"
  | invalidNumber => "invalid number"
  | literalTooWide bits => s!"literal exceeds {bits} bits"
  | unknownLabel => "unknown label"
  | unknownFunction => "unknown function"
  | fault cause => cause.text

/-- A problem and the stretch of text it concerns; a fault concerns none. -/
structure Complaint where
  place : Option Span
  problem : Problem
deriving DecidableEq, Repr

/-- A fault of the assembler itself. -/
def Complaint.ofFault (cause : Fault) : Complaint :=
  ⟨none, .fault cause⟩

/-- A complaint about a token. -/
def Token.complain (t : Token) (problem : Problem) : Complaint :=
  ⟨some t.span, problem⟩

/-- A complaint as an error of its file; one without a place is shown at the end. -/
def Complaint.inFile (c : Complaint) (file : File) : SyntaxError :=
  let size := file.contents.length
  ⟨file, c.place.getD ⟨size, size, Int.le_refl _⟩, c.problem.text⟩

/-! ## Single tokens -/

/-- A parser reads a value off the front of the tokens ahead.  It leaves the rest, or when it gives up
the tokens from where it stood.  The last token ends the file, and to look beyond it is a fault. -/
abbrev Parser (α : Type) :=
  EStateM Complaint (List Token) α

/-- The next token, which has to be of a given kind. -/
def expect (kind : TokenKind) : Parser Token
  | [] => .error (.ofFault .indexOutOfRange) []
  | t :: rest =>
    if t.kind = kind then .ok t rest else .error (t.complain .unexpectedToken) (t :: rest)

/-- Moves past the next token if it is of a given kind, and tells whether it is. -/
def accepts (kind : TokenKind) : Parser Bool
  | [] => .error (.ofFault .indexOutOfRange) []
  | t :: rest => if t.kind = kind then .ok true rest else .ok false (t :: rest)

/-- The number that the characters of a number token denote; underscores do not count.  There may be
a sign in front of the digits, although no number token has one. -/
def number? (lexeme : List Char) : Option Int :=
  match lexeme.filter (· ≠ '_') with
  | '0' :: 'x' :: digits => Numeral.readInt? 16 digits
  | digits => Numeral.readInt? 10 digits

/-- The 256-bit word of a number; of a negative one, the two's complement. -/
def wordOf : Int → Nat
  | .ofNat n => n
  | .negSucc n => Nat.pow 2 256 - (n + 1)

/-- A number of at most `bits` bits. -/
def literal (bits : Nat) : Parser Nat := do
  let t ← expect .number
  match number? t.lexeme with
  | none => throw (t.complain .invalidNumber)
  | some n =>
    if n.natAbs < Nat.pow 2 bits then return wordOf n else throw (t.complain (.literalTooWide bits))

/-- A number of at most 16 bits. -/
def count : Parser Nat :=
  literal 16

/-- The name of a type. -/
def parameter : Parser ValueType := do
  let t ← expect .identifier
  match ValueType.ofName? t.text with
  | none => throw (t.complain .unknownType)
  | some type => return type

/-! ## Functions -/

/-- A function whose calls by name are not linked yet. -/
structure Draft where
  name : String
  params : List ValueType
  locals : Nat
  returns : Nat
  code : Array Instruction
  calls : Array Reference

namespace Draft

/-- The position of the next instruction. -/
def position (d : Draft) : UInt64 :=
  UInt64.ofNat d.code.size

/-- Adds an instruction. -/
def push (d : Draft) (i : Instruction) : Draft :=
  { d with code := d.code.push i }

/-- Adds a call by name. -/
def pushCall (d : Draft) (t : Token) : Draft :=
  { d.push ⟨.call, 0⟩ with calls := d.calls.push ⟨d.position, t.text, t.span⟩ }

end Draft

/-- The greatest number of instructions in a function. -/
def maxInstructions : Nat :=
  65536

/-- Parameter types up to the closing parenthesis, behind those already read (in reverse).  A type
takes one token, so the tokens behind it are also the tokens behind its name. -/
def parameters (types : List ValueType) :
    List Token → EStateM.Result Complaint (List Token) (List ValueType)
  | [] => .error (.ofFault .indexOutOfRange) []
  | t :: rest =>
    if t.kind = .parenClose then .ok types.reverse rest
    else if types.isEmpty then
      match parameter (t :: rest) with
      | .error e tokens => .error e tokens
      | .ok type _ => parameters (type :: types) rest
    else if t.kind ≠ .comma then .error (t.complain .unexpectedToken) (t :: rest)
    else
      match rest with
      | [] => .error (.ofFault .indexOutOfRange) []
      | t :: rest =>
        match parameter (t :: rest) with
        | .error e tokens => .error e tokens
        | .ok type _ => parameters (type :: types) rest

/-- Adds an instruction whose operand is the next token: the name of a function or a label where the
operation allows one, and otherwise a literal of the operation's width. -/
def operand (opcode : Opcode) (draft : Draft) (labels : Labels) : Parser (Draft × Labels)
  | [] => .error (.ofFault .indexOutOfRange) []
  | t :: rest =>
    if t.kind = .identifier ∧ opcode = .call then .ok (draft.pushCall t, labels) rest
    else if t.kind = .identifier ∧ opcode.isJump then
      .ok (draft.push ⟨opcode, 0⟩, labels.note ⟨draft.position, t.text, t.span⟩) rest
    else
      match literal opcode.operandWidth (t :: rest) with
      | .error e tokens => .error e tokens
      | .ok n tokens => .ok (draft.push (.ofNat opcode n), labels) tokens

/-- Instructions and labels up to the closing brace. -/
def body (draft : Draft) (labels : Labels) :
    List Token → EStateM.Result Complaint (List Token) (Draft × Labels)
  | [] => .error (.ofFault .indexOutOfRange) []
  | t :: rest =>
    if t.kind = .braceClose then .ok (draft, labels) rest
    else if t.kind = .endOfFile then .error (t.complain .missingBrace) (t :: rest)
    else if t.kind ≠ .identifier then .error (t.complain .unexpectedToken) (t :: rest)
    else
      match rest with
      | [] => .error (.ofFault .indexOutOfRange) []
      | next :: after =>
        if next.kind = .colon then
          match labels.declare t.text draft.position with
          | none => .error (t.complain .duplicateLabel) after
          | some labels => body draft labels after
        else
          match Opcode.ofName? t.text with
          | none => .error (t.complain .unknownInstruction) (next :: after)
          | some opcode =>
            if maxInstructions ≤ draft.code.size then
              .error (t.complain .functionTooLarge) (next :: after)
            else if opcode.hasOperand then
              -- An operand is one token.
              match operand opcode draft labels (next :: after) with
              | .error e tokens => .error e tokens
              | .ok (draft, labels) _ => body draft labels after
            else body (draft.push ⟨opcode, 0⟩) labels (next :: after)

/-- The declared number of locals, or one for each parameter. -/
def locals (params : Nat) : Parser Nat
  | [] => .error (.ofFault .indexOutOfRange) []
  | t :: rest =>
    if t.kind = .keywordLocals then
      match count rest with
      | .error e tokens => .error e tokens
      | .ok n tokens =>
        if n < params then .error (t.complain .fewerLocals) tokens else .ok n tokens
    else .ok params (t :: rest)

/-- A draft with its labels patched. -/
def Draft.resolve (draft : Draft) (labels : Labels) : Except Complaint Draft :=
  match labels.patch draft.code with
  | .error cause => .error (.ofFault cause)
  | .ok (_, some r) => .error ⟨some r.place, .unknownLabel⟩
  | .ok (code, none) => .ok { draft with code }

/-- The name of a function behind others. -/
def freshName (others : Array Draft) : Parser String := do
  let t ← expect .identifier
  if others.any (·.name == t.text) then throw (t.complain .duplicateFunction) else return t.text

/-- The number of results after an arrow, or none without one. -/
def results : Parser Nat := do
  if ← accepts .arrow then count else return 0

/-- A function behind others from its name on, with its labels patched. -/
def declaration (others : Array Draft) : Parser Draft := do
  let name ← freshName others
  let _ ← expect .parenOpen
  let params ← parameters []
  let returns ← results
  let _ ← expect .braceOpen
  let locals ← locals params.length
  let (draft, labels) ← body ⟨name, params, locals, returns, #[], #[]⟩ .empty
  MonadExcept.ofExcept (draft.resolve labels)

/-- A function behind others. -/
def function (others : Array Draft) : Parser Draft := do
  let _ ← expect .keywordFn
  declaration others

/-- The functions up to the end of the file, behind those already read.  A function takes at least
one token, so `fuel` many tokens hold fewer of them. -/
def functions : (fuel : Nat) → Array Draft → Parser (Array Draft)
  | 0, _, tokens => .error (.ofFault .indexOutOfRange) tokens
  | _ + 1, _, [] => .error (.ofFault .indexOutOfRange) []
  | fuel + 1, drafts, t :: rest =>
    if t.kind = .endOfFile then .ok drafts (t :: rest)
    else if t.kind ≠ .keywordFn then .error (t.complain .unknownDeclaration) (t :: rest)
    else
      match function drafts (t :: rest) with
      | .error e tokens => .error e tokens
      | .ok draft tokens => functions fuel (drafts.push draft) tokens

/-! ## Linking -/

/-- The index of the first function of a given name, as a 16-bit number. -/
def indexOf? (drafts : Array Draft) (name : String) : Option UInt16 :=
  (drafts.findIdx? (·.name == name)).map UInt16.ofNat

/-- A draft with its calls linked. -/
def Draft.link (drafts : Array Draft) (d : Draft) : Except Complaint Function :=
  match patchAll (fun name => (indexOf? drafts name).map (·.toUInt64)) d.calls.toList d.code with
  | .error cause => .error (.ofFault cause)
  | .ok (_, some r) => .error ⟨some r.place, .unknownFunction⟩
  | .ok (code, none) => (Function.ofParts d.name d.params d.locals d.returns code).mapError .ofFault

/-- The program of drafts whose calls refer to each other. -/
def link (drafts : Array Draft) : Except Complaint Program :=
  (drafts.mapM (Draft.link drafts)).map Program.mk

/-! ## Files -/

/-- The program that tokens spell. -/
def parse : Parser Program := do
  let tokens ← get
  let drafts ← functions tokens.length #[]
  MonadExcept.ofExcept (link drafts)

/-- The program of a file, or the syntax error in it. -/
def assemble (file : File) : Except SyntaxError Program :=
  match tokens file.contents with
  | .error span => .error (Complaint.inFile ⟨some span, .unknownText⟩ file)
  | .ok tokens =>
    match parse tokens with
    | .error complaint _ => .error (complaint.inFile file)
    | .ok program _ => .ok program

end StackCircuit.Assembly
