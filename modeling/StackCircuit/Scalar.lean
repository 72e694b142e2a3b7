import StackCircuit.Fault
import StackCircuit.Numeral

/-!
# Scalars

The elements of a prime field as residues, and the two fields that circuits are built over.

* `Modulus p`: what a modulus has to be for residues to exist.
* `ScalarField`: the supported fields with their names, moduli and widths.
* **`Scalar p`**: the residues modulo `p`, with their sums, products, negatives and differences, and in
  the order of their representatives.
* `Scalar.text`: the text of a residue in a base.  In base 10 alone, the residues just below the
  modulus are written as small negative numbers.
* `Scalar.bytes`, `Scalar.ofBytes`: big-endian bytes.
-/

namespace StackCircuit

/-- A positive number, so that there are residues modulo it. -/
class Modulus (p : Nat) : Prop where
  pos : 0 < p

/-! ## The supported fields -/

/-- The supported scalar fields, named for the curves they belong to. -/
inductive ScalarField where
  | bls12377 | bn254
deriving DecidableEq, Repr

namespace ScalarField

/-- The name by which a field is chosen. -/
def name : ScalarField → String
  | bls12377 => "BLS12_377"
  | bn254 => "BN254"

/-- The order of a field. -/
def modulus : ScalarField → Nat
  | bls12377 => 8444461749428370424248824938781546531375899335154063827935233455917409239041
  | bn254 => 21888242871839275222246405745257275088548364400416034343698204186575808495617

/-- The number of bits that the order of a field takes. -/
def bitWidth : ScalarField → Nat
  | bls12377 => 253
  | bn254 => 254

/-- Every supported field. -/
def all : List ScalarField :=
  [bls12377, bn254]

/-- The field of a given name. -/
def ofName? (name : String) : Option ScalarField :=
  all.find? (·.name == name)

instance (f : ScalarField) : Modulus f.modulus :=
  ⟨by cases f <;> decide⟩

end ScalarField

/-! ## Residues -/

/-- The residues modulo `p`, by their representatives below it. -/
structure Scalar (p : Nat) where
  val : Nat
  isLt : val < p
deriving DecidableEq, Repr

namespace Scalar

variable {p : Nat}

theorem modulus_pos (x : Scalar p) : 0 < p :=
  Nat.lt_of_le_of_lt (Nat.zero_le _) x.isLt

instance : Add (Scalar p) where
  add x y := ⟨(x.val + y.val) % p, Nat.mod_lt _ x.modulus_pos⟩

instance : Mul (Scalar p) where
  mul x y := ⟨x.val * y.val % p, Nat.mod_lt _ x.modulus_pos⟩

instance : Neg (Scalar p) where
  neg x := ⟨(p - x.val) % p, Nat.mod_lt _ x.modulus_pos⟩

instance : Sub (Scalar p) where
  sub x y := ⟨(x.val + (p - y.val)) % p, Nat.mod_lt _ x.modulus_pos⟩

/-- Residues are ordered as their representatives. -/
instance : Ord (Scalar p) where
  compare x y := compare x.val y.val

theorem compare_eq_eq_iff {x y : Scalar p} : compare x y = .eq ↔ x = y := by
  obtain ⟨m, hm⟩ := x
  obtain ⟨n, hn⟩ := y
  rw [Scalar.mk.injEq]
  exact Nat.compare_eq_eq

variable [Modulus p]

/-- The residue of a whole number. -/
def ofNat (n : Nat) : Scalar p :=
  ⟨n % p, Nat.mod_lt _ Modulus.pos⟩

instance : Zero (Scalar p) where
  zero := ofNat 0

instance : One (Scalar p) where
  one := ofNat 1

/-- One for true and zero for false. -/
def ofBool (b : Bool) : Scalar p :=
  if b then 1 else 0

/-- The residue of a number that is not negative. -/
def ofInt? (n : Int) : Option (Scalar p) :=
  if n < 0 then none else some (ofNat n.toNat)

/-- The wording for a number that has no residue. -/
def negativeText : String :=
  "negative value encountered"

/-- The largest distance below the modulus that is written as a negative number. -/
def negativeRange : Nat :=
  65535

/-- The decimal text: a residue at most `negativeRange` below the modulus is written as a negative
number, and any other as itself. -/
def decimal (x : Scalar p) : String :=
  if p - x.val ≤ negativeRange then "-" ++ Numeral.decimal (p - x.val) else Numeral.decimal x.val

/-- The text in a base from 2 to 36. -/
def text (base : Int) (x : Scalar p) : Except Fault String :=
  if base < 2 ∨ 36 < base then .error .invalidBase
  else if base = 10 then .ok x.decimal
  else .ok (Numeral.render base.toNat x.val)

/-! ## Bytes -/

/-- The lowest `width` bytes of a number, the most significant first, in front of `tail`. -/
def bytesOnto : (width n : Nat) → (tail : List UInt8) → List UInt8
  | 0, _, tail => tail
  | width + 1, n, tail => bytesOnto width (n / 256) (UInt8.ofNat (n % 256) :: tail)

/-- The 32 bytes of a residue, the most significant first. -/
def bytes (x : Scalar p) : List UInt8 :=
  bytesOnto 32 x.val []

/-- The number that bytes spell, the most significant first. -/
def natOfBytes (bytes : List UInt8) : Nat :=
  bytes.foldl (fun n b => n * 256 + b.toNat) 0

/-- The residue of the number that bytes spell. -/
def ofBytes (bytes : List UInt8) : Scalar p :=
  ofNat (natOfBytes bytes)

end Scalar

end StackCircuit
