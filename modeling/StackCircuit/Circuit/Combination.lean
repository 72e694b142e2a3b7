import StackCircuit.Scalar

/-!
# Linear combinations

Sums of multiples of wires, kept term by term in the order in which they were written.

* `Wire`: the number of a wire; `Wire.one` always carries the value one.
* **`Combination p`**: a list of terms; the empty one denotes zero.
* `Combination.constant`, `single`, `plus`, `minus`: the ways to build one.
* `Combination.eval`: its value under an assignment of all wires.
-/

namespace StackCircuit.Circuit

/-- The number of a wire. -/
abbrev Wire := UInt32

namespace Wire

/-- The wire that carries the value one. -/
def one : Wire :=
  0

/-- The text of a wire. -/
def text (w : Wire) : String :=
  if w = one then "one" else "w" ++ Numeral.decimal w.toNat

end Wire

/-- A multiple of a wire. -/
structure Term (p : Nat) where
  coeff : Scalar p
  wire : Wire
deriving DecidableEq, Repr

/-- A sum of multiples of wires. -/
abbrev Combination (p : Nat) := List (Term p)

variable {p : Nat} [Modulus p]

/-- The text of a term, in which a factor of one is left out. -/
def Term.text (t : Term p) : String :=
  if t.coeff = 1 then t.wire.text else t.coeff.decimal ++ "·" ++ t.wire.text

namespace Combination

/-- A multiple of the wire that carries one. -/
def constant (x : Scalar p) : Combination p :=
  [⟨x, Wire.one⟩]

/-- A wire by itself. -/
def single (w : Wire) : Combination p :=
  [⟨1, w⟩]

/-- The sum of two combinations. -/
def plus (a b : Combination p) : Combination p :=
  a ++ b

/-- The difference of two combinations. -/
def minus (a b : Combination p) : Combination p :=
  a ++ b.map fun t => ⟨0 - t.coeff, t.wire⟩

/-- The text of a combination. -/
def text (c : Combination p) : String :=
  if c.isEmpty then "0" else " + ".intercalate (c.map Term.text)

/-- The value of a combination under an assignment of all wires. -/
def eval (s : Wire → Scalar p) (c : Combination p) : Scalar p :=
  c.foldl (fun sum t => sum + t.coeff * s t.wire) 0

end Combination

end StackCircuit.Circuit
