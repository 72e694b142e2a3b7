/-!
# Decoding UTF-8

Bytes are decoded into characters; each byte that is not part of a well-formed sequence becomes the
replacement character.

* `Utf8.sequence?`: the well-formed sequence that starts with a given byte.
* **`Utf8.decode`**: the characters of any byte string.
-/

namespace StackCircuit.Text.Utf8

/-- The character that stands for a byte outside any well-formed sequence. -/
def replacement : Char :=
  '\uFFFD'

/-- The payload of a continuation byte. -/
def continuation? (b : UInt8) : Option Nat :=
  if b &&& 0xc0 = 0x80 then some (b &&& 0x3f).toNat else none

/-- The code point spelled by a lead payload and the next `count` continuation bytes. -/
def code? : (count payload : Nat) → List UInt8 → Option Nat
  | 0, payload, _ => some payload
  | _ + 1, _, [] => none
  | count + 1, payload, b :: rest =>
    match continuation? b with
    | none => none
    | some low => code? count (payload * 64 + low) rest

/-- The shape that a lead byte announces: how many continuation bytes follow, its payload and the
least code point that needs so many bytes. -/
def lead? (b : UInt8) : Option (Nat × Nat × Nat) :=
  if b < 0x80 then some (0, b.toNat, 0)
  else if b < 0xc0 then none
  else if b < 0xe0 then some (1, (b &&& 0x1f).toNat, 0x80)
  else if b < 0xf0 then some (2, (b &&& 0x0f).toNat, 0x800)
  else if b < 0xf8 then some (3, (b &&& 0x07).toNat, 0x10000)
  else none

/-- The character of the well-formed sequence that starts with `b`, and how many of the following
bytes belong to it. -/
def sequence? (b : UInt8) (rest : List UInt8) : Option (Char × Nat) :=
  match lead? b with
  | none => none
  | some (count, payload, least) =>
    match code? count payload rest with
    | none => none
    | some code =>
      if h : least ≤ code ∧ code.isValidChar then some (Char.ofNatAux code h.2, count) else none

/-- Decodes bytes behind characters already decoded (in reverse), where the first `skip` bytes
belong to the character decoded last. -/
def decodeOnto (decoded : List Char) : (skip : Nat) → List UInt8 → List Char
  | _, [] => decoded.reverse
  | skip + 1, _ :: rest => decodeOnto decoded skip rest
  | 0, b :: rest =>
    match sequence? b rest with
    | some (c, count) => decodeOnto (c :: decoded) count rest
    | none => decodeOnto (replacement :: decoded) 0 rest

/-- The characters of a byte string. -/
def decode (bytes : List UInt8) : List Char :=
  decodeOnto [] 0 bytes

end StackCircuit.Text.Utf8
