import StackCircuit.Lexical.Lexer

/-!
# Tokens of the assembly language

* `TokenKind`: the kinds of tokens, with the numbers by which reports show them.
* `Scan`: the scanners of the lexical grammar; `rules`: the rules in the order in which they are
  tried.
* **`tokens`**: the tokens of a file without blanks and comments, up to and including the end of the
  file, or the stretch that starts with no token.
-/

namespace StackCircuit.Assembly

open Lexical (Scanner Rule Lexer)
open Source (File Span)

/-- The kinds of tokens. -/
inductive TokenKind where
  | endOfFile | blank | comment | parenOpen | parenClose | braceOpen | braceClose | comma | colon
  | arrow | number | identifier | keywordFn | keywordLocals
deriving DecidableEq, Repr

/-- The number by which a kind is shown. -/
def TokenKind.code : TokenKind → Nat
  | endOfFile => 0
  | blank => 1
  | comment => 2
  | parenOpen => 3
  | parenClose => 4
  | braceOpen => 5
  | braceClose => 6
  | comma => 7
  | colon => 8
  | arrow => 9
  | number => 10
  | identifier => 20
  | keywordFn => 21
  | keywordLocals => 22

/-- A token of the assembly language. -/
abbrev Token := Lexical.Token Char TokenKind

/-- The text of a token. -/
def Token.text (t : Token) : String :=
  String.ofList t.lexeme

/-! ## The lexical grammar -/

namespace Scan

/-- A run of spaces, tabs and line ends. -/
def blank : Scanner :=
  .many (.any [.unit [' '], .unit ['\t'], .unit ['\r'], .unit ['\n']])

/-- A decimal digit. -/
def decimalDigit : Scanner :=
  .within '0' '9'

/-- A hexadecimal digit. -/
def hexDigit : Scanner :=
  .any [decimalDigit, .within 'A' 'F', .within 'a' 'f']

/-- A number: hexadecimal after `0x`, or decimal, with underscores after the first digit. -/
def number : Scanner :=
  .any [.sequence [.unit ['0', 'x'], hexDigit, .many (.any [hexDigit, .unit ['_']])],
    .sequence [decimalDigit, .many (.any [decimalDigit, .unit ['_']])]]

/-- A character that starts an identifier. -/
def identifierStart : Scanner :=
  .any [.unit ['_'], .within 'a' 'z', .within 'A' 'Z']

/-- A character that continues an identifier. -/
def identifierRest : Scanner :=
  .any [.unit ['_'], .within '0' '9', .within 'a' 'z', .within 'A' 'Z']

/-- An identifier. -/
def identifier : Scanner :=
  .sequence [identifierStart, .many identifierRest]

/-- A comment, up to the end of its line. -/
def comment : Scanner :=
  .sequence [.unit [';', ';'], .upTo '\n']

end Scan

/-- The scanners with their kinds, in the order in which they are tried. -/
def grammar : List (Scanner × TokenKind) :=
  [(Scan.comment, .comment), (.unit ['('], .parenOpen), (.unit [')'], .parenClose),
    (.unit ['\x7b'], .braceOpen), (.unit ['\x7d'], .braceClose), (.unit [','], .comma),
    (.unit [':'], .colon), (.unit ['-', '>'], .arrow), (Scan.blank, .blank),
    (Scan.number, .number), (.keyword ['f', 'n'] Scan.identifierRest, .keywordFn),
    (.keyword ['l', 'o', 'c', 'a', 'l', 's'] Scan.identifierRest, .keywordLocals),
    (Scan.identifier, .identifier), (.endOfText, .endOfFile)]

/-- The rules of the lexer. -/
def rules : List (Rule Char TokenKind) :=
  grammar.map fun (scanner, kind) => ⟨scanner.accept, kind⟩

/-! ## The tokens of a file -/

/-- The stretch of a file from a lexer's position on. -/
def restSpan (l : Lexer Char TokenKind) : Span :=
  ⟨l.index, l.index + l.remaining, by omega⟩

/-- The tokens of a text without blanks and comments, or the rest of it from the first position at
which no token starts. -/
def tokens (text : List Char) : Except Span (List Token) :=
  match Lexer.collect [.blank, .comment] (Lexer.start rules text) with
  | .error _ l => .error (restSpan l)
  | .ok found l => if l.remaining = 0 then .ok found else .error (restSpan l)

end StackCircuit.Assembly
