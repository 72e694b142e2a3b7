/-!
# Terminal styles

Escape sequences that set attributes of the text that follows.

* **`Style`**: a list of attributes in the order in which they were added.
* `Style.code`: the escape sequence; `Style.wrap`: a text in that style, followed by a reset.
-/

namespace StackCircuit.Text

/-- A style: its attributes, in the order in which they were added. -/
structure Style where
  attributes : List String
deriving DecidableEq, Repr

/-- The colours that output uses, by their number. -/
inductive Colour where
  | red | green | yellow | cyan
deriving DecidableEq, Repr

/-- The number of a colour. -/
def Colour.code : Colour → UInt64
  | red => 1
  | green => 2
  | yellow => 3
  | cyan => 6

namespace Style

/-- The style without attributes. -/
def plain : Style :=
  ⟨[]⟩

/-- The style that clears every attribute. -/
def reset : Style :=
  ⟨["0"]⟩

/-- Adds an attribute. -/
def add (s : Style) (code : String) : Style :=
  ⟨s.attributes ++ [code]⟩

/-- Adds bold face. -/
def bold (s : Style) : Style :=
  s.add "1"

/-- Adds a foreground colour by its number, which is a 64-bit word. -/
def foreground (s : Style) (colour : UInt64) : Style :=
  s.add (toString (30 + colour).toNat)

/-- The escape sequence that sets this style. -/
def code (s : Style) : String :=
  "\x1b[" ++ ";".intercalate s.attributes ++ "m"

/-- A text in this style, followed by a reset. -/
def wrap (s : Style) (text : String) : String :=
  s.code ++ text ++ reset.code

end Style

end StackCircuit.Text
