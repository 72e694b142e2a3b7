/-!
# Numerals

Whole numbers as text in a base from 2 to 36, with the figures and then the small letters as digits.

* `digits`, `render`: the digits of a number, most significant first, and the text they spell.
* `readNat?`: the number that a non-empty run of digits denotes; capital letters count as small
  ones.
* `readInt?`: the same after at most one sign.
-/

namespace StackCircuit.Numeral

/-! ## Writing -/

/-- The character of a digit below 36. -/
def digitChar (d : Nat) : Char :=
  if d < 10 then Char.ofNat (48 + d) else Char.ofNat (87 + d)

/-- The digits of `n` in front of `tail`, where `fuel` bounds how often `n` is divided. -/
def digitsOnto (base : Nat) : (fuel n : Nat) → (tail : List Nat) → List Nat
  | 0, n, tail => n :: tail
  | fuel + 1, n, tail =>
    if n < base then n :: tail else digitsOnto base fuel (n / base) (n % base :: tail)

/-- The digits of `n` in a base of at least 2, most significant first; a number has no more digits
than bits. -/
def digits (base n : Nat) : List Nat :=
  digitsOnto base n.log2 n []

/-- The text of `n` in a base from 2 to 36. -/
def render (base n : Nat) : String :=
  String.ofList ((digits base n).map digitChar)

/-- The decimal text of `n`. -/
def decimal (n : Nat) : String :=
  render 10 n

/-! ## Reading -/

/-- The value of a character as a digit of `base`. -/
def digitValue? (base : Nat) (c : Char) : Option Nat :=
  let value :=
    if '0' ≤ c ∧ c ≤ '9' then some (c.toNat - 48)
    else if 'a' ≤ c ∧ c ≤ 'z' then some (c.toNat - 87)
    else if 'A' ≤ c ∧ c ≤ 'Z' then some (c.toNat - 55)
    else none
  value.filter (· < base)

/-- The number that digits denote after a number already read. -/
def readOnto? (base : Nat) : Nat → List Char → Option Nat
  | n, [] => some n
  | n, c :: cs =>
    match digitValue? base c with
    | none => none
    | some d => readOnto? base (n * base + d) cs

/-- The number denoted by one or more digits. -/
def readNat? (base : Nat) : List Char → Option Nat
  | [] => none
  | c :: cs => readOnto? base 0 (c :: cs)

/-- The number denoted by at most one sign and one or more digits. -/
def readInt? (base : Nat) : List Char → Option Int
  | '+' :: cs => (readNat? base cs).map Int.ofNat
  | '-' :: cs => (readNat? base cs).map fun n => -(n : Int)
  | cs => (readNat? base cs).map Int.ofNat

end StackCircuit.Numeral
