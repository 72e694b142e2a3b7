import StackCircuit.Source
import StackCircuit.Text.Style

/-!
# Excerpts

A syntax error shown together with its line, the offending characters underlined by carets.

* `SyntaxError.extent`: how many characters of the line are underlined.
* **`SyntaxError.excerpt`**: the error with its line.
-/

namespace StackCircuit.Source.SyntaxError

open Text (Style Colour)

/-- The number of characters to underline: those of the span that lie on its first line, but at
least one. -/
def extent (e : SyntaxError) : Int :=
  max 1 (min (e.line.text.length - e.offset) e.span.length)

/-- The carets that underline the error, bold red if colours are used. -/
def carets (e : SyntaxError) (coloured : Bool) : String :=
  let text := String.ofList (List.replicate e.extent.toNat '^')
  if coloured then (Style.plain.bold.foreground Colour.red.code).wrap text else text

/-- The error with its place and columns, an empty line, the line it is on, and carets under it. -/
def excerpt (e : SyntaxError) (coloured : Bool) : String :=
  let last := e.column + e.extent
  s!"{e.file.name}:{e.line.number}:{e.column}-{last} {e.message}\n\n" ++
    String.ofList (e.line.text ++ '\n' :: List.replicate e.offset.toNat ' ') ++
    e.carets coloured ++ "\n"

end StackCircuit.Source.SyntaxError
