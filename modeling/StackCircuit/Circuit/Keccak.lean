/-!
# Keccak-256

The sponge over the permutation of 25 lanes of 64 bits, with a rate of 136 bytes, a padding that
starts with the bit one and a digest of 32 bytes.

* `Keccak.permute`: the 24 rounds.
* `Keccak.blocks`: the padded message in blocks of 17 lanes.
* **`Keccak.digest`**: the digest of a byte string.
-/

namespace StackCircuit.Circuit.Keccak

/-- The lanes of the state; lane `x + 5 y` stands at column `x` of row `y`. -/
abbrev Lanes := Array UInt64

/-- The lane at a position, or zero beyond the state. -/
def lane (s : Lanes) (i : Nat) : UInt64 :=
  s.getD i 0

/-- A word rotated to the left by less than 64 places. -/
def rotate (w : UInt64) (n : UInt64) : UInt64 :=
  if n = 0 then w else (w <<< n) ||| (w >>> (64 - n))

/-- The constants of the rounds. -/
def roundConstants : List UInt64 :=
  [0x0000000000000001, 0x0000000000008082, 0x800000000000808a, 0x8000000080008000,
    0x000000000000808b, 0x0000000080000001, 0x8000000080008081, 0x8000000000008009,
    0x000000000000008a, 0x0000000000000088, 0x0000000080008009, 0x000000008000000a,
    0x000000008000808b, 0x800000000000008b, 0x8000000000008089, 0x8000000000008003,
    0x8000000000008002, 0x8000000000000080, 0x000000000000800a, 0x800000008000000a,
    0x8000000080008081, 0x8000000000008080, 0x0000000080000001, 0x8000000080008008]

/-- The rotation of each lane. -/
def offsets : Array UInt64 :=
  #[0, 1, 62, 28, 27, 36, 44, 6, 55, 20, 3, 10, 43, 25, 39, 41, 45, 15, 21, 8, 18, 2, 61, 56, 14]

/-- Mixes every lane with the parities of two columns. -/
def theta (s : Lanes) : Lanes :=
  let parity := Array.ofFn fun x : Fin 5 =>
    lane s x ^^^ lane s (x + 5) ^^^ lane s (x + 10) ^^^ lane s (x + 15) ^^^ lane s (x + 20)
  Array.ofFn fun i : Fin 25 =>
    lane s i ^^^ lane parity ((i + 4) % 5) ^^^ rotate (lane parity ((i + 1) % 5)) 1

/-- Rotates every lane and moves it to its new place: column `y` of row `2 x + 3 y` takes the lane
at column `x` of row `y`. -/
def rhoPi (s : Lanes) : Lanes :=
  Array.ofFn fun i : Fin 25 =>
    let x := i.val % 5
    let y := i.val / 5
    let source := (x + 3 * y) % 5 + 5 * x
    rotate (lane s source) (lane offsets source)

/-- Combines every lane with the next two of its row. -/
def chi (s : Lanes) : Lanes :=
  Array.ofFn fun i : Fin 25 =>
    let row := 5 * (i.val / 5)
    lane s i ^^^ (~~~(lane s (row + (i.val + 1) % 5)) &&& lane s (row + (i.val + 2) % 5))

/-- One round of the permutation. -/
def round (s : Lanes) (constant : UInt64) : Lanes :=
  (chi (rhoPi (theta s))).modify 0 (· ^^^ constant)

/-- The permutation. -/
def permute (s : Lanes) : Lanes :=
  roundConstants.foldl round s

/-! ## The sponge -/

/-- The number of bytes that each application of the permutation takes in. -/
def rate : Nat :=
  136

/-- The padding after a message of a given length. -/
def padding (length : Nat) : List UInt8 :=
  let missing := rate - length % rate
  if missing = 1 then [0x81] else 0x01 :: List.replicate (missing - 2) 0 ++ [0x80]

/-- The word of eight bytes, the least significant first. -/
def word (bytes : List UInt8) : UInt64 :=
  bytes.foldr (fun b w => w <<< 8 ||| b.toUInt64) 0

/-- The words of a byte string, eight bytes each; `count` bounds their number. -/
def words : (count : Nat) → List UInt8 → List UInt64
  | 0, _ => []
  | count + 1, bytes => word (bytes.take 8) :: words count (bytes.drop 8)

/-- The state with a block of words added to its first lanes. -/
def absorb (s : Lanes) (block : List UInt64) : Lanes :=
  permute (block.zipIdx.foldl (fun s (w, i) => s.modify i (· ^^^ w)) s)

/-- The state after a number of blocks of bytes. -/
def absorbBlocks : (count : Nat) → Lanes → List UInt8 → Lanes
  | 0, s, _ => s
  | count + 1, s, bytes =>
    absorbBlocks count (absorb s (words (rate / 8) (bytes.take rate))) (bytes.drop rate)

/-- The bytes of a word, the least significant first. -/
def bytesOf (w : UInt64) : List UInt8 :=
  (List.range 8).map fun i => (w >>> UInt64.ofNat (8 * i)).toUInt8

/-- The digest of a byte string. -/
def digest (message : List UInt8) : List UInt8 :=
  let padded := message ++ padding message.length
  let final := absorbBlocks (padded.length / rate) (Array.replicate 25 0) padded
  (List.range 4).flatMap fun i => bytesOf (lane final i)

end StackCircuit.Circuit.Keccak
