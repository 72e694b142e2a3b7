import StackCircuit.Fault

/-!
# Source files

Files as sequences of characters, spans of them, and the lines that error messages show.

* `wrap`: distances between positions are signed 64-bit words.
* `Span`: a stretch of a file; its ends may lie outside the file.
* `Line`, **`File.lineAt`**: the line on which a position lies.
* `SyntaxError`: a message about a span of a file.
-/

namespace StackCircuit.Source

/-- A distance as a signed 64-bit word: one that does not fit wraps around. -/
def wrap (distance : Int) : Int :=
  (Int64.ofInt distance).toInt

/-- A stretch of text from `start` up to but excluding `stop`. -/
structure Span where
  start : Int
  stop : Int
  start_le_stop : start ≤ stop
deriving DecidableEq, Repr

namespace Span

/-- The span between two positions. -/
def ofBounds (start stop : Int) : Except Fault Span :=
  if h : start ≤ stop then .ok ⟨start, stop, h⟩ else .error .invalidSpan

/-- The number of positions that a span covers. -/
def length (s : Span) : Int :=
  wrap (s.stop - s.start)

end Span

/-- A line of a file: its number, counted from one, the position of its first character, and its
characters without the newline. -/
structure Line where
  number : Nat
  start : Nat
  text : List Char
deriving DecidableEq, Repr

/-- A named sequence of characters. -/
structure File where
  name : String
  contents : List Char
deriving DecidableEq, Repr

/-- A stretch of a file as a line with a number. -/
def File.line (f : File) (number start stop : Nat) : Line :=
  ⟨number, start, (f.contents.drop start).take (stop - start)⟩

/-- The position at which a line ends, where the text behind `index` is still ahead. -/
def endOfLine (index : Nat) : (ahead : List Char) → Nat
  | [] => index
  | c :: ahead => if c = '\n' then index else endOfLine (index + 1) ahead

/-- Reads the text behind `index`, on a line with a given number and start, up to a position. -/
def File.lineFrom (f : File) (position : Int) (number start index : Nat) : (ahead : List Char) → Line
  | [] => f.line number start f.contents.length
  | c :: ahead =>
    if index = position then f.line number start (endOfLine index (c :: ahead))
    else if c = '\n' then f.lineFrom position (number + 1) (index + 1) (index + 1) ahead
    else f.lineFrom position number start (index + 1) ahead

/-- The line on which a position lies; a position outside the file counts as its end. -/
def File.lineAt (f : File) (position : Int) : Line :=
  f.lineFrom position 1 0 0 f.contents

/-- A message about a span of a file. -/
structure SyntaxError where
  file : File
  span : Span
  message : String
deriving DecidableEq, Repr

namespace SyntaxError

/-- The line on which the error starts. -/
def line (e : SyntaxError) : Line :=
  e.file.lineAt e.span.start

/-- The number of characters in front of the error on its line. -/
def offset (e : SyntaxError) : Int :=
  wrap (e.span.start - e.line.start)

/-- The column at which the error starts, counted from one. -/
def column (e : SyntaxError) : Int :=
  wrap (1 + e.offset)

/-- The error with its place, as `file:line:column: message`. -/
def text (e : SyntaxError) : String :=
  s!"{e.file.name}:{e.line.number}:{e.column}: {e.message}"

end SyntaxError

end StackCircuit.Source
