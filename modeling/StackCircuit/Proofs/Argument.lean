import Mathlib.Data.List.Forall2
import StackCircuit.Argument
import StackCircuit.Proofs.Numeral

/-!
# What arguments denote

* **`Denotes`**: the number that the text of an argument denotes.
* `read_eq_ok_iff`, `readAll_eq_ok_iff`, `exists_readAll_iff`: what is accepted are the numbers that are
  not negative, and they are reduced; `read_eq_negative`: the others are reported as negative.
* `denotes_hexadecimal`, `denotes_decimal`, `denotes_negative`: what the texts of a residue denote.
* **`readAll_text`**: the hexadecimal text of a residue reads back as the residue. The decimal text
  does, too, except for the residues just below the modulus, which are written with a minus.
-/

namespace StackCircuit.Argument

open Numeral (Signed)

/-- The number that the characters of an argument denote: at most one sign and decimal digits, or
`0x`, at most one sign and hexadecimal digits. -/
inductive Denotes : List Char → ℤ → Prop
  | decimal {cs : List Char} {n : ℤ} (h : Signed 10 cs n) : Denotes cs n
  | hexadecimal {cs : List Char} {n : ℤ} (h : Signed 16 cs n) : Denotes ('0' :: 'x' :: cs) n

/-! ## Reading -/

theorem not_signed_hexadecimal {cs : List Char} {n : ℤ} : ¬ Signed 10 ('0' :: 'x' :: cs) n := by
  intro h
  cases h with
  | bare h => exact absurd (h.forall_isDigit 'x' (by simp)) (by decide)

theorem number?_eq_some_iff {cs : List Char} {n : ℤ} : number? cs = some n ↔ Denotes cs n := by
  constructor
  · intro h
    fun_cases number? cs
    case case1 cs => exact .hexadecimal (Numeral.readInt?_eq_some_iff.mp h)
    case case2 hne =>
      rw [number?] at h
      · exact .decimal (Numeral.readInt?_eq_some_iff.mp h)
      · exact hne
  · intro h
    cases h with
    | decimal h =>
      rw [number?]
      · exact Numeral.readInt?_eq_some_iff.mpr h
      · rintro cs rfl
        exact not_signed_hexadecimal h
    | hexadecimal h => exact Numeral.readInt?_eq_some_iff.mpr h

variable {p : ℕ}

section

variable [Modulus p]

theorem ofInt?_natCast (n : ℕ) : Scalar.ofInt? (p := p) n = some (.ofNat n) := by
  rw [Scalar.ofInt?, if_neg (Int.not_lt.mpr (Int.natCast_nonneg n)), Int.toNat_natCast]

theorem read_eq_ok_iff {text : String} {x : Scalar p} :
    read text = .ok x ↔ ∃ n : ℕ, Denotes text.toList n ∧ x = .ofNat n := by
  constructor
  · intro h
    rw [read] at h
    split at h
    case h_1 => cases h
    case h_2 n hn =>
      by_cases hneg : n < 0
      · simp [Scalar.ofInt?, hneg] at h
      · lift n to ℕ using not_lt.mp hneg
        rw [ofInt?_natCast] at h
        exact ⟨n, number?_eq_some_iff.mp hn, (Except.ok.inj h).symm⟩
  · rintro ⟨n, hn, rfl⟩
    rw [read, number?_eq_some_iff.mpr hn]
    simp only [ofInt?_natCast]

theorem read_eq_negative {text : String} {n : ℤ} (h : Denotes text.toList n) (hn : n < 0) :
    read (p := p) text = .error (.negative text) := by
  simp [read, number?_eq_some_iff.mpr h, Scalar.ofInt?, hn]

theorem readAll_nil : readAll (p := p) [] = .ok [] :=
  rfl

theorem readAll_cons (text : String) (texts : List String) :
    readAll (p := p) (text :: texts) =
      match read text with
      | .error e => .error e
      | .ok x => (readAll texts).map (x :: ·) := by
  rw [readAll, List.mapM_cons]
  cases read (p := p) text with
  | error e => rfl
  | ok x =>
    rw [readAll]
    cases texts.mapM (read (p := p)) <;> rfl

/-- **Arguments are accepted one by one, in order.** -/
theorem readAll_eq_ok_iff {texts : List String} {xs : List (Scalar p)} :
    readAll texts = .ok xs ↔
      List.Forall₂ (fun text x => ∃ n : ℕ, Denotes text.toList n ∧ x = .ofNat n) texts xs := by
  simp only [← read_eq_ok_iff]
  induction texts generalizing xs with
  | nil => simp [readAll_nil, eq_comm]
  | cons text texts ih =>
    rw [readAll_cons, List.forall₂_cons_left_iff]
    simp only [← ih]
    cases read (p := p) text with
    | error e => simp
    | ok x => cases readAll (p := p) texts <;> simp [Except.map, eq_comm]

theorem exists_readAll_iff {texts : List String} :
    (∃ xs : List (Scalar p), readAll texts = .ok xs) ↔
      ∀ text ∈ texts, ∃ n : ℕ, Denotes text.toList n := by
  simp only [readAll_eq_ok_iff]
  induction texts with
  | nil => simp
  | cons text texts ih =>
    rw [List.forall_mem_cons, ← ih]
    constructor
    · rintro ⟨_, _ | ⟨⟨n, hn, -⟩, hrest⟩⟩
      exact ⟨⟨n, hn⟩, _, hrest⟩
    · rintro ⟨⟨n, hn⟩, xs, hxs⟩
      exact ⟨.ofNat n :: xs, .cons ⟨n, hn, rfl⟩ hxs⟩

end

/-! ## The texts of a residue -/

theorem denotes_hexadecimal (x : Scalar p) :
    Denotes ("0x" ++ Numeral.render 16 x.val).toList x.val := by
  rw [String.toList_append]
  exact .hexadecimal (Numeral.signed_render (by simp) (by simp) x.val)

theorem denotes_decimal {x : Scalar p} (h : Scalar.negativeRange < p - x.val) :
    Denotes x.decimal.toList x.val := by
  rw [Scalar.decimal, if_neg (not_le.mpr h)]
  exact .decimal (Numeral.signed_render (by simp) (by simp) x.val)

theorem denotes_negative {x : Scalar p} (h : p - x.val ≤ Scalar.negativeRange) :
    Denotes x.decimal.toList (-(p - x.val : ℕ)) := by
  rw [Scalar.decimal, if_pos h, String.toList_append]
  exact .decimal (Numeral.signed_minus_render (by simp) (by simp) (p - x.val))

section

variable [Modulus p]

theorem ofNat_val (x : Scalar p) : Scalar.ofNat x.val = x := by
  cases x with
  | mk n hn => simp [Scalar.ofNat, Nat.mod_eq_of_lt hn]

theorem readAll_of_denotes {text : String} {x : Scalar p} (h : Denotes text.toList x.val) :
    readAll [text] = .ok [x] :=
  readAll_eq_ok_iff.mpr (.cons ⟨x.val, h, (ofNat_val x).symm⟩ .nil)

theorem readAll_decimal (x : Scalar p) :
    readAll [x.decimal] = if 65535 < p - x.val then .ok [x] else .error (.negative x.decimal) := by
  split
  case isTrue h => exact readAll_of_denotes (denotes_decimal h)
  case isFalse h =>
    have hpos : 0 < p - x.val := Nat.sub_pos_of_lt x.isLt
    have hread := read_eq_negative (p := p) (denotes_negative (not_lt.mp h)) (by omega)
    rw [readAll_cons, hread]

end

/-- **Texts of residues as arguments.** In both fields, the hexadecimal text of a residue behind `0x`
reads back as the residue. The decimal text does if the residue is more than 65535 below the modulus,
and else is refused as negative. Of all texts, those are accepted that denote numbers which are not
negative; such numbers are reduced, in order. -/
theorem readAll_text (field : ScalarField) :
    (∀ x : Scalar field.modulus,
      (∃ t, x.text 16 = .ok t ∧ readAll ["0x" ++ t] = .ok [x]) ∧
        x.text 10 = .ok x.decimal ∧
        readAll [x.decimal] =
          if 65535 < field.modulus - x.val then .ok [x] else .error (.negative x.decimal)) ∧
      ∀ texts : List String,
        ((∃ xs : List (Scalar field.modulus), readAll texts = .ok xs) ↔
          ∀ text ∈ texts, ∃ n : ℕ, Denotes text.toList n) ∧
        ∀ xs : List (Scalar field.modulus), readAll texts = .ok xs ↔
          List.Forall₂ (fun text x => ∃ n : ℕ, Denotes text.toList n ∧ x = .ofNat n) texts xs := by
  refine ⟨fun x => ⟨⟨Numeral.render 16 x.val, rfl, ?_⟩, rfl, readAll_decimal x⟩, fun texts => ?_⟩
  · exact readAll_of_denotes (denotes_hexadecimal x)
  · exact ⟨exists_readAll_iff, fun xs => readAll_eq_ok_iff⟩

/-- The residue at a distance below the modulus. -/
def below (distance : ℕ) (h : 0 < distance) : Scalar ScalarField.bls12377.modulus :=
  ⟨ScalarField.bls12377.modulus - distance, Nat.sub_lt Modulus.pos h⟩

/-- The last residue that is refused is 65535 below the modulus. -/
theorem readAll_text_boundary :
    readAll (p := ScalarField.bls12377.modulus) ["-65535"] = .error (.negative "-65535") ∧
      readAll ["8444461749428370424248824938781546531375899335154063827935233455917409173505"] =
        .ok [below 65536 (by decide)] := by
  obtain ⟨htexts, -⟩ := readAll_text .bls12377
  have hrefused : (below 65535 (by decide)).decimal = "-65535" := by decide +kernel
  have haccepted : (below 65536 (by decide)).decimal =
      "8444461749428370424248824938781546531375899335154063827935233455917409173505" := by
    decide +kernel
  constructor
  · have hread := (htexts (below 65535 (by decide))).2.2
    rw [hrefused, if_neg (by decide +kernel)] at hread
    exact hread
  · have hread := (htexts (below 65536 (by decide))).2.2
    rw [haccepted, if_pos (by decide +kernel)] at hread
    exact hread

end StackCircuit.Argument
