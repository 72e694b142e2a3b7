import Mathlib.Data.List.Forall2
import StackCircuit.Circuit.Digest
import StackCircuit.Proofs.Field

/-!
# What a digest is taken of

The byte string that stands for a constraint system is a row of numbers of fixed width, with the length
of each list in front of it. So it can be read in one way only, and is the same for two systems if and
only if they have the same shape.

* **`Delimits`**: an encoding that shows where it ends, so that what was encoded and what follows it can
  be told; `delimits_bytesOnto`, `Delimits.flatMap`, `Delimits.counted`: numbers of a fixed width, lists
  of a known length, lists behind their length.
* `delimits_termStream`, `delimits_combinationStream`, `delimits_sidesStream`: the parts of a stream.
* `System.Counted`: the lengths fit into their fields; `System.SameShape`: systems are the same but for
  labels and values.
* **`System.stream_eq_iff`**: the stream determines the shape, and is determined by it.
-/

namespace StackCircuit.Circuit

variable {α : Type} {P : α → Prop} {f : α → List UInt8}

/-! ## Encodings that show their end -/

/-- **An encoding shows where it ends**: whatever follows the encodings of things with a given property,
from the whole one can tell the thing and what follows. -/
def Delimits (P : α → Prop) (f : α → List UInt8) : Prop :=
  ∀ ⦃x y⦄, P x → P y → ∀ ⦃rest rest'⦄, f x ++ rest = f y ++ rest' → x = y ∧ rest = rest'

theorem bytesOnto_append (width n : ℕ) (tail rest : List UInt8) :
    Scalar.bytesOnto width n tail ++ rest = Scalar.bytesOnto width n (tail ++ rest) := by
  induction width generalizing n tail with
  | zero => rfl
  | succ width ih => rw [Scalar.bytesOnto, ih, Scalar.bytesOnto, List.cons_append]

theorem bytesOnto_inj {width n m : ℕ} (hn : n < 256 ^ width) (hm : m < 256 ^ width)
    {tail tail' : List UInt8}
    (h : Scalar.bytesOnto width n tail = Scalar.bytesOnto width m tail') : n = m ∧ tail = tail' := by
  induction width generalizing n m tail tail' with
  | zero => exact ⟨by omega, h⟩
  | succ width ih =>
    rw [pow_succ] at hn hm
    obtain ⟨hquotient, htail⟩ := ih (by omega) (by omega) h
    obtain ⟨hbyte, htail⟩ := List.cons.inj htail
    have hremainder := congrArg UInt8.toNat hbyte
    rw [UInt8.toNat_ofNat', UInt8.toNat_ofNat'] at hremainder
    exact ⟨by omega, htail⟩

theorem delimits_bytesOnto (width : ℕ) :
    Delimits (· < 256 ^ width) fun n => Scalar.bytesOnto width n [] := by
  intro n m hn hm rest rest' h
  rw [bytesOnto_append, bytesOnto_append] at h
  exact bytesOnto_inj hn hm h

theorem delimits_word32 : Delimits (· < 2 ^ 32) word32 :=
  delimits_bytesOnto 4

namespace Delimits

theorem flatMap (h : Delimits P f) (n : ℕ) :
    Delimits (fun xs : List α => xs.length = n ∧ ∀ x ∈ xs, P x) (List.flatMap f) := by
  rintro xs ys ⟨rfl, hxs⟩ ⟨hlength, hys⟩ rest rest' heq
  induction xs generalizing ys with
  | nil =>
    obtain rfl := List.length_eq_zero_iff.mp hlength
    exact ⟨rfl, heq⟩
  | cons x xs ih =>
    obtain ⟨y, ys, rfl⟩ := List.exists_cons_of_length_eq_add_one hlength
    obtain ⟨hx, hxs⟩ := List.forall_mem_cons.mp hxs
    obtain ⟨hy, hys⟩ := List.forall_mem_cons.mp hys
    rw [List.flatMap_cons, List.flatMap_cons, List.append_assoc, List.append_assoc] at heq
    obtain ⟨hhead, htail⟩ := h hx hy heq
    obtain ⟨hxs', hrest⟩ := ih hxs (Nat.succ.inj hlength) hys htail
    exact ⟨by rw [hhead, hxs'], hrest⟩

theorem counted (h : Delimits P f) :
    Delimits (fun xs : List α => xs.length < 2 ^ 32 ∧ ∀ x ∈ xs, P x)
      fun xs => word32 xs.length ++ xs.flatMap f := by
  rintro xs ys ⟨hlt, hxs⟩ ⟨hlt', hys⟩ rest rest' heq
  rw [List.append_assoc, List.append_assoc] at heq
  obtain ⟨hlength, heq⟩ := delimits_word32 hlt hlt' heq
  exact h.flatMap xs.length ⟨rfl, hxs⟩ ⟨hlength.symm, hys⟩ heq

end Delimits

/-! ## The parts of a stream -/

variable {p : ℕ}

theorem delimits_termStream (hp : p ≤ 256 ^ 32) : Delimits (fun _ : Term p => True) Term.stream := by
  rintro ⟨coeff, wire⟩ ⟨coeff', wire'⟩ - - rest rest' heq
  rw [Term.stream, Term.stream, List.append_assoc, List.append_assoc] at heq
  obtain ⟨hwire, heq⟩ := delimits_word32 wire.toNat_lt wire'.toNat_lt heq
  obtain ⟨hcoeff, hrest⟩ :=
    delimits_bytesOnto 32 (coeff.isLt.trans_le hp) (coeff'.isLt.trans_le hp) heq
  exact ⟨by rw [Scalar.ext_val hcoeff, UInt32.toNat_inj.mp hwire], hrest⟩

theorem delimits_combinationStream (hp : p ≤ 256 ^ 32) :
    Delimits (fun c : Combination p => c.length < 2 ^ 32) Combination.stream := by
  intro c c' hc hc' rest rest' heq
  exact (delimits_termStream hp).counted ⟨hc, fun _ _ => trivial⟩ ⟨hc', fun _ _ => trivial⟩ heq

theorem delimits_sidesStream (hp : p ≤ 256 ^ 32) :
    Delimits (fun sides : List (Combination p) => sides.length = 3 ∧ ∀ c ∈ sides, c.length < 2 ^ 32)
      (List.flatMap Combination.stream) :=
  (delimits_combinationStream hp).flatMap 3

/-! ## Systems -/

/-- The same combinations, under whatever labels. -/
def Constraint.SameSides (k k' : Constraint p) : Prop :=
  k.a = k'.a ∧ k.b = k'.b ∧ k.c = k'.c

theorem Constraint.sides_inj {k k' : Constraint p} : k.sides = k'.sides ↔ k.SameSides k' := by
  simp only [sides, SameSides, List.cons.injEq, and_true]

namespace System

variable {s t : System p}

/-- The lengths that are written into the stream of a system fit into 32 bits. -/
structure Counted (s : System p) : Prop where
  wires_lt : s.wires.size < 2 ^ 32
  constraints_lt : s.constraints.size < 2 ^ 32
  terms_lt : ∀ k ∈ s.constraints, ∀ c ∈ k.sides, c.length < 2 ^ 32

/-- **Two systems have the same shape**: as many wires, and the same constraints in the same order, term
by term, under whatever labels. -/
structure SameShape (s t : System p) : Prop where
  wires : s.wires.size = t.wires.size
  constraints : List.Forall₂ Constraint.SameSides s.constraints.toList t.constraints.toList

theorem sameShape_iff : s.SameShape t ↔ s.wires.size = t.wires.size ∧
    s.constraints.toList.map Constraint.sides = t.constraints.toList.map Constraint.sides := by
  have hsides : List.Forall₂ Constraint.SameSides s.constraints.toList t.constraints.toList ↔
      s.constraints.toList.map Constraint.sides = t.constraints.toList.map Constraint.sides := by
    rw [← List.forall₂_eq_eq_eq, List.forall₂_map_left_iff, List.forall₂_map_right_iff]
    simp only [Constraint.sides_inj]
  exact ⟨fun h => ⟨h.wires, hsides.mp h.constraints⟩, fun h => ⟨h.1, hsides.mpr h.2⟩⟩

theorem stream_eq (s : System p) :
    s.stream = word32 s.wires.size ++
      (word32 (s.constraints.toList.map Constraint.sides).length ++
        (s.constraints.toList.map Constraint.sides).flatMap (List.flatMap Combination.stream)) := by
  rw [stream, List.append_assoc, List.length_map, Array.length_toList, List.flatMap_map]
  rfl

theorem SameShape.stream (h : s.SameShape t) : s.stream = t.stream := by
  obtain ⟨hwires, hconstraints⟩ := sameShape_iff.mp h
  rw [stream_eq, stream_eq, hwires, hconstraints]

theorem Counted.forall_sides (h : s.Counted) :
    ∀ sides ∈ s.constraints.toList.map Constraint.sides,
      sides.length = 3 ∧ ∀ c ∈ sides, c.length < 2 ^ 32 := by
  intro sides hsides
  obtain ⟨k, hk, rfl⟩ := List.mem_map.mp hsides
  exact ⟨rfl, h.terms_lt k (Array.mem_toList_iff.mp hk)⟩

theorem sameShape_of_stream (hp : p ≤ 256 ^ 32) (hs : s.Counted) (ht : t.Counted)
    (h : s.stream = t.stream) : s.SameShape t := by
  rw [stream_eq, stream_eq] at h
  obtain ⟨hwires, h⟩ := delimits_word32 hs.wires_lt ht.wires_lt h
  have hlength {u : System p} (hu : u.Counted) :
      (u.constraints.toList.map Constraint.sides).length < 2 ^ 32 := by
    rw [List.length_map, Array.length_toList]
    exact hu.constraints_lt
  have hconstraints := (delimits_sidesStream hp).counted ⟨hlength hs, hs.forall_sides⟩
    ⟨hlength ht, ht.forall_sides⟩ (congrArg (· ++ []) h)
  exact sameShape_iff.mpr ⟨hwires, hconstraints.1⟩

end System

theorem modulus_le (field : ScalarField) : field.modulus ≤ 256 ^ 32 := by
  cases field <;> decide

/-- **The bytes of which a digest is taken determine the shape of a system and nothing else**: two
systems over the same field have the same stream if and only if they have the same shape, and then they
have the same digest. -/
theorem System.stream_eq_iff (field : ScalarField) {s t : System field.modulus} (hs : s.Counted)
    (ht : t.Counted) :
    (s.stream = t.stream ↔ s.SameShape t) ∧ (s.SameShape t → s.digest = t.digest) :=
  ⟨⟨sameShape_of_stream (modulus_le field) hs ht, SameShape.stream⟩,
    fun h => congrArg Keccak.digest h.stream⟩

/-- A system of three wires and a constraint that the third is a given combination of the others. -/
def threeWires (label : String) (x y z : Option (Scalar ScalarField.bn254.modulus))
    (left : Combination ScalarField.bn254.modulus) : System ScalarField.bn254.modulus :=
  ⟨#[⟨"one", some 1⟩, ⟨"x", x⟩, ⟨"y", y⟩, ⟨"z", z⟩], #[⟨label, left, .constant 1, .single 3⟩]⟩

theorem counted_threeWires (label : String) (x y z : Option (Scalar ScalarField.bn254.modulus))
    {left : Combination ScalarField.bn254.modulus} (h : left.length = 2) :
    (threeWires label x y z left).Counted := by
  have hone : 1 < 2 ^ 32 := by decide
  have hfour : 4 < 2 ^ 32 := by decide
  refine ⟨hfour, hone, fun k hk c hc => ?_⟩
  obtain rfl := Array.mem_singleton.mp hk
  simp only [Constraint.sides, List.mem_cons, List.not_mem_nil, or_false] at hc
  rcases hc with rfl | rfl | rfl
  · rw [h]
    decide
  · exact hone
  · exact hone

/-- A sum has the same digest with values as without, under any label; with the operands in the other
order it has another stream. -/
theorem System.stream_eq_iff_sum :
    let sum : Combination ScalarField.bn254.modulus := (Combination.single 1).plus (.single 2)
    let swapped : Combination ScalarField.bn254.modulus := (Combination.single 2).plus (.single 1)
    (threeWires "sum" (some 2) (some 3) (some 5) sum).digest =
        (threeWires "" none none none sum).digest ∧
      (threeWires "sum" none none none sum).stream ≠
        (threeWires "sum" none none none swapped).stream := by
  intro sum swapped
  have hcounted (label : String) (x y z : Option (Scalar ScalarField.bn254.modulus)) :=
    @counted_threeWires label x y z sum rfl
  refine ⟨(stream_eq_iff .bn254 (hcounted _ _ _ _) (hcounted _ _ _ _)).2
    ⟨rfl, .cons ⟨rfl, rfl, rfl⟩ .nil⟩, fun h => ?_⟩
  have hshape := (stream_eq_iff .bn254 (hcounted _ _ _ _) (counted_threeWires _ _ _ _ rfl)).1.mp h
  have hleft : sum = swapped := (List.forall₂_cons.mp hshape.constraints).1.1
  have hwire : (1 : Wire) = 2 := congrArg (fun c => (c.map Term.wire).headD 0) hleft
  exact absurd hwire (by decide)

end StackCircuit.Circuit
