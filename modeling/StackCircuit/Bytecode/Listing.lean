import StackCircuit.Bytecode.Program
import StackCircuit.Text.Quoted
import StackCircuit.Text.Style

/-!
# Listings

The text of a function, one line for its name and one for each instruction.

* `Function.header`, `Function.codeLines`, **`Function.listing`**: the plain listing.
* `Function.writeListing`: a listing written line by line to a place that takes so many lines only.
* **`Function.colouredListing`**: the listing with control flow highlighted.
-/

namespace StackCircuit.Bytecode.Function

open Text (Style Colour)

/-- The head line of a listing, without its newline. -/
def header (f : Function) : String :=
  s!"Bytecode of function {Text.quote f.name}:"

/-- The line of an instruction that is shown by a given text, without its newline. -/
def codeLine (position : Nat) (text : String) : String :=
  "#" ++ Numeral.decimal position ++ ", " ++ text

/-- The lines of the code, without their newlines. -/
def codeLines (f : Function) : List String :=
  f.code.toList.zipIdx.map fun (i, position) => codeLine position i.text

/-- The lines of a listing, each with its newline. -/
def lines (f : Function) : List String :=
  (f.header :: f.codeLines).map (· ++ "\n")

/-- The listing of a function. -/
def listing (f : Function) : String :=
  String.join f.lines

/-- Writes a listing to a place that takes `room` lines: the text that was written, and whether that
is all of it. -/
def writeListing (f : Function) (room : Nat) : String × Bool :=
  (String.join (f.lines.take room), f.lines.length ≤ room)

/-- The colour in which an operation is shown. -/
def colour? : Opcode → Option Colour
  | .brTrue | .brFalse | .branch => some .yellow
  | .call | .ret => some .cyan
  | .abort => some .red
  | _ => none

/-- The text of an instruction in its colour. -/
def colouredText (i : Instruction) : String :=
  match colour? i.opcode with
  | some c => (Style.plain.foreground c.code).wrap i.text
  | none => i.text

/-- The listing of a function with a bold head line and coloured control flow. -/
def colouredListing (f : Function) : String :=
  Style.plain.bold.wrap f.header ++ "\n" ++
    String.join (f.code.toList.zipIdx.map fun (i, position) =>
      codeLine position (colouredText i) ++ "\n")

end StackCircuit.Bytecode.Function
