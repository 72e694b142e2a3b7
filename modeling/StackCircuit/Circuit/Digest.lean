import StackCircuit.Circuit.Keccak
import StackCircuit.Circuit.System

/-!
# The digest of a circuit

A fingerprint of the shape of a constraint system: the number of wires and the terms of every
constraint.  Labels and values play no part, so a circuit has the same digest with and without a
witness.

* **`System.stream`**: the byte string that stands for the shape.
* `System.digest`: its Keccak-256 digest; `hex` writes bytes as text.
-/

namespace StackCircuit.Circuit

variable {p : Nat} [Modulus p]

/-- The four bytes of a number modulo 2³², the most significant first. -/
def word32 (n : Nat) : List UInt8 :=
  Scalar.bytesOnto 4 n []

/-- The bytes of a term: its wire and its factor. -/
def Term.stream (t : Term p) : List UInt8 :=
  word32 t.wire.toNat ++ t.coeff.bytes

/-- The bytes of a combination: the number of its terms and the terms. -/
def Combination.stream (c : Combination p) : List UInt8 :=
  word32 c.length ++ c.flatMap Term.stream

/-- The bytes of a constraint: its three sides. -/
def Constraint.stream (k : Constraint p) : List UInt8 :=
  k.sides.flatMap Combination.stream

namespace System

/-- The bytes of a system: the numbers of its wires and constraints, and the constraints. -/
def stream (s : System p) : List UInt8 :=
  word32 s.wires.size ++ word32 s.constraints.size ++
    s.constraints.toList.flatMap Constraint.stream

/-- The digest of the shape of a system. -/
def digest (s : System p) : List UInt8 :=
  Keccak.digest s.stream

end System

/-- Bytes as hexadecimal text. -/
def hex (bytes : List UInt8) : String :=
  String.ofList (bytes.flatMap fun b =>
    [Nat.digitChar (b.toNat / 16), Nat.digitChar (b.toNat % 16)])

end StackCircuit.Circuit
