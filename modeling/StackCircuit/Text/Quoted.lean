import StackCircuit.Text.Printable

/-!
# Quoted text

Text between double quotes, in which every character is printable.

* `Quoted.escape`: how one character is written.  Printable characters stand for themselves, the
  quote and the backslash follow a backslash, seven control characters have a letter of their own,
  and all others are written with their code point in hexadecimal.
* **`quote`**: the quoted form of a text; `quoteChar` is that of a single character.
* `quoteRaw`: the text between backquotes where that needs no escapes.
-/

namespace StackCircuit.Text

namespace Quoted

/-- The lowest `width` hexadecimal digits of a number, in front of `tail`. -/
def hexOnto : (width n : Nat) → (tail : List Char) → List Char
  | 0, _, tail => tail
  | width + 1, n, tail => hexOnto width (n / 16) (Nat.digitChar (n % 16) :: tail)

/-- How a character is written between quotes of a given kind. -/
def escape (delimiter c : Char) : List Char :=
  if c = delimiter ∨ c = '\\' then ['\\', c]
  else if isPrintable c then [c]
  else
    match c.toNat with
    | 0x07 => ['\\', 'a']
    | 0x08 => ['\\', 'b']
    | 0x0c => ['\\', 'f']
    | 0x0a => ['\\', 'n']
    | 0x0d => ['\\', 'r']
    | 0x09 => ['\\', 't']
    | 0x0b => ['\\', 'v']
    | code =>
      if code < 0x80 then '\\' :: 'x' :: hexOnto 2 code []
      else if code < 0x10000 then '\\' :: 'u' :: hexOnto 4 code []
      else '\\' :: 'U' :: hexOnto 8 code []

end Quoted

/-- The text between double quotes. -/
def quote (text : String) : String :=
  String.ofList ('"' :: text.toList.flatMap (Quoted.escape '"') ++ ['"'])

/-- The character between single quotes. -/
def quoteChar (c : Char) : String :=
  String.ofList ('\'' :: Quoted.escape '\'' c ++ ['\''])

/-- Whether a character can stand between backquotes, where nothing is escaped: neither a control
character other than the tab, nor the backquote, nor a byte order mark. -/
def Quoted.isRaw (c : Char) : Bool :=
  c = '\t' || (0x20 ≤ c.toNat && !([0x60, 0x7f, 0xfeff].contains c.toNat))

/-- The text between backquotes, or between double quotes if one of its characters asks for it. -/
def quoteRaw (text : String) : String :=
  if text.toList.all Quoted.isRaw then "\x60" ++ text ++ "\x60" else quote text

end StackCircuit.Text
