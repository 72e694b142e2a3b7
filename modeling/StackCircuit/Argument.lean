import StackCircuit.Scalar

/-!
# Arguments

The text of an argument denotes a residue: a decimal number, or a hexadecimal one after `0x`, with
at most one sign in front of the digits.

* `Argument.Error`: why a text is refused.
* `Argument.read`, **`Argument.readAll`**: the residues of one text and of a list of texts.
-/

namespace StackCircuit.Argument

/-- Why an argument is refused. -/
inductive Error where
  | malformed (text : String)
  | negative (text : String)
deriving DecidableEq, Repr

/-- The wording of a refusal. -/
def Error.text : Error → String
  | malformed text => s!"invalid argument \"{text}\""
  | negative text => s!"invalid argument \"{text}\": {Scalar.negativeText}"

/-- The number that the characters of an argument denote. -/
def number? : List Char → Option Int
  | '0' :: 'x' :: cs => Numeral.readInt? 16 cs
  | cs => Numeral.readInt? 10 cs

variable {p : Nat} [Modulus p]

/-- The residue that an argument denotes. -/
def read (text : String) : Except Error (Scalar p) :=
  match number? text.toList with
  | none => .error (.malformed text)
  | some n =>
    match Scalar.ofInt? n with
    | none => .error (.negative text)
    | some x => .ok x

/-- The residues that arguments denote, in order; the first refusal is the answer. -/
def readAll (texts : List String) : Except Error (List (Scalar p)) :=
  texts.mapM read

end StackCircuit.Argument
