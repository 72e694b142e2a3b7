import Mathlib.Data.Nat.Digits.Lemmas
import StackCircuit.Numeral

/-!
# Numerals and the numbers they denote

* `figure`: the digit that a character stands for.
* **`value`**: the number that characters denote in a base, as a sum over the powers of the base.
* `IsNumeral`: one or more digits; **`Signed`**: the number that they denote behind at most one sign.
* `readNat?_eq_some_iff`, **`readInt?_eq_some_iff`**: reading accepts these and gives that number.
* `isNumeral_render`, **`value_render`**: the text of a number is a numeral that denotes it;
  `signed_render`, `signed_minus_render`: also behind a sign.
-/

namespace StackCircuit.Numeral

/-- The digit that a character stands for, where capital letters count as small ones. -/
def figure (c : Char) : ℕ :=
  "0123456789abcdefghijklmnopqrstuvwxyz".toList.idxOf c.toLower

/-- The number that characters denote in a base, most significant first. -/
def value (base : ℕ) (cs : List Char) : ℕ :=
  Nat.ofDigits base (cs.map figure).reverse

/-- A letter or figure that is a digit of a base. -/
def IsDigit (base : ℕ) (c : Char) : Prop :=
  c.isAlphanum ∧ figure c < base

instance (base : ℕ) (c : Char) : Decidable (IsDigit base c) :=
  inferInstanceAs (Decidable (_ ∧ _))

/-- One or more digits of a base. -/
structure IsNumeral (base : ℕ) (cs : List Char) : Prop where
  ne_nil : cs ≠ []
  forall_isDigit : ∀ c ∈ cs, IsDigit base c

/-- The number that digits denote with at most one sign in front of them. -/
inductive Signed (base : ℕ) : List Char → ℤ → Prop
  | bare {cs : List Char} (h : IsNumeral base cs) : Signed base cs (value base cs)
  | plus {cs : List Char} (h : IsNumeral base cs) : Signed base ('+' :: cs) (value base cs)
  | minus {cs : List Char} (h : IsNumeral base cs) : Signed base ('-' :: cs) (-(value base cs))

/-! ## Reading -/

theorem forall_ascii {P : Char → Prop} (h : ∀ n < 128, P (.ofNat n)) {c : Char}
    (hc : c.toNat < 128) : P c := by
  have hP := h c.toNat hc
  rwa [Char.ofNat_toNat] at hP

theorem forall_alphanum {P : Char → Prop} (h : ∀ n < 128, (Char.ofNat n).isAlphanum → P (.ofNat n))
    {c : Char} (hc : c.isAlphanum) : P c := by
  have hlt : c.toNat < 128 := by
    delta Char.isAlphanum Char.isAlpha Char.isUpper Char.isLower Char.isDigit at hc
    simp [UInt32.le_iff_toNat_le] at hc
    omega
  exact forall_ascii (P := fun c => c.isAlphanum → P c) h hlt hc

theorem digitValue?_of_isAlphanum {c : Char} (hc : c.isAlphanum) :
    digitValue? 36 c = some (figure c) :=
  forall_alphanum (P := fun c => digitValue? 36 c = some (figure c)) (by decide +kernel) hc

theorem digitValue?_of_isDigit {base : ℕ} {c : Char} (h : IsDigit base c) :
    digitValue? base c = some (figure c) := by
  have hfigure := digitValue?_of_isAlphanum h.1
  rw [digitValue?, Option.filter_eq_some_iff] at hfigure ⊢
  exact ⟨hfigure.1, decide_eq_true h.2⟩

theorem isAlphanum_of_digitValue? {base d : ℕ} {c : Char} (h : digitValue? base c = some d) :
    c.isAlphanum := by
  have hvalue := (Option.filter_eq_some_iff.mp h).1
  delta Char.isAlphanum Char.isAlpha Char.isUpper Char.isLower Char.isDigit
  simp only [Bool.or_eq_true, Bool.and_eq_true, decide_eq_true_eq]
  split_ifs at hvalue with hfigure hsmall hcapital
  · exact .inr hfigure
  · exact .inl (.inr hsmall)
  · exact .inl (.inl hcapital)

theorem digitValue?_eq_some_iff {base d : ℕ} {c : Char} :
    digitValue? base c = some d ↔ IsDigit base c ∧ figure c = d := by
  constructor
  · intro h
    have hc := isAlphanum_of_digitValue? h
    obtain ⟨hd, hlt⟩ := Option.filter_eq_some_iff.mp h
    obtain ⟨hfigure, -⟩ := Option.filter_eq_some_iff.mp (digitValue?_of_isAlphanum hc)
    obtain rfl : figure c = d := Option.some.inj (hfigure.symm.trans hd)
    exact ⟨⟨hc, of_decide_eq_true hlt⟩, rfl⟩
  · rintro ⟨hc, rfl⟩
    exact digitValue?_of_isDigit hc

theorem value_append (base : ℕ) (cs ds : List Char) :
    value base (cs ++ ds) = value base ds + base ^ ds.length * value base cs := by
  simp [value, Nat.ofDigits_append]

theorem readOnto?_eq_value {base : ℕ} {cs : List Char} (h : ∀ c ∈ cs, IsDigit base c) (n : ℕ) :
    readOnto? base n cs = some (base ^ cs.length * n + value base cs) := by
  induction cs generalizing n with
  | nil => simp [readOnto?, value]
  | cons c cs ih =>
    obtain ⟨hc, hcs⟩ := List.forall_mem_cons.mp h
    have hvalue : value base (c :: cs) = value base cs + base ^ cs.length * figure c := by
      rw [← List.singleton_append, value_append]
      simp [value]
    rw [readOnto?, digitValue?_of_isDigit hc]
    simp only [ih hcs, hvalue, List.length_cons, Option.some.injEq]
    ring

theorem readNat?_eq_value {base : ℕ} {cs : List Char} (hne : cs ≠ [])
    (h : ∀ c ∈ cs, IsDigit base c) : readNat? base cs = some (value base cs) := by
  obtain ⟨c, cs, rfl⟩ := List.exists_cons_of_ne_nil hne
  simp [readNat?, readOnto?_eq_value h]

theorem forall_isDigit_of_readOnto? {base n m : ℕ} {cs : List Char}
    (h : readOnto? base n cs = some m) : ∀ c ∈ cs, IsDigit base c := by
  induction cs generalizing n with
  | nil => simp
  | cons c cs ih =>
    rw [readOnto?] at h
    split at h
    case h_1 => cases h
    case h_2 d hd =>
      exact List.forall_mem_cons.mpr ⟨(digitValue?_eq_some_iff.mp hd).1, ih h⟩

/-- **Without a sign, reading accepts numerals and gives the number they denote.** -/
theorem readNat?_eq_some_iff {base n : ℕ} {cs : List Char} :
    readNat? base cs = some n ↔ IsNumeral base cs ∧ value base cs = n := by
  constructor
  · intro h
    obtain _ | ⟨c, cs⟩ := cs
    · cases h
    have hcs : IsNumeral base (c :: cs) := ⟨List.cons_ne_nil c cs, forall_isDigit_of_readOnto? h⟩
    rw [readNat?_eq_value hcs.ne_nil hcs.forall_isDigit, Option.some.injEq] at h
    exact ⟨hcs, h⟩
  · rintro ⟨hcs, rfl⟩
    exact readNat?_eq_value hcs.ne_nil hcs.forall_isDigit

theorem readInt?_of_readNat? {base n : ℕ} {cs : List Char} (h : readNat? base cs = some n) :
    readInt? base cs = some (n : ℤ) := by
  fun_cases readInt? base cs
  case case1 => simp [readNat?, readOnto?, digitValue?] at h
  case case2 => simp [readNat?, readOnto?, digitValue?] at h
  case case3 => rw [h]; rfl

theorem readInt?_minus (base : ℕ) (cs : List Char) :
    readInt? base ('-' :: cs) = (readNat? base cs).map fun n : ℕ => -(n : ℤ) := by
  rw [readInt?]
  cases readNat? base cs <;> rfl

/-- **Reading accepts numerals with at most one sign and gives the number they denote.** -/
theorem readInt?_eq_some_iff {base : ℕ} {cs : List Char} {n : ℤ} :
    readInt? base cs = some n ↔ Signed base cs n := by
  constructor
  · intro h
    fun_cases readInt? base cs
    case case1 cs =>
      rw [readInt?] at h
      obtain ⟨m, hm, rfl⟩ := Option.map_eq_some_iff.mp h
      obtain ⟨hcs, rfl⟩ := readNat?_eq_some_iff.mp hm
      exact .plus hcs
    case case2 cs =>
      rw [readInt?_minus] at h
      obtain ⟨m, hm, rfl⟩ := Option.map_eq_some_iff.mp h
      obtain ⟨hcs, rfl⟩ := readNat?_eq_some_iff.mp hm
      exact .minus hcs
    case case3 hplus hminus =>
      rw [readInt?] at h
      · obtain ⟨m, hm, rfl⟩ := Option.map_eq_some_iff.mp h
        obtain ⟨hcs, rfl⟩ := readNat?_eq_some_iff.mp hm
        exact .bare hcs
      · exact hplus
      · exact hminus
  · intro h
    cases h with
    | bare h => exact readInt?_of_readNat? (readNat?_eq_some_iff.mpr ⟨h, rfl⟩)
    | plus h => rw [readInt?, readNat?_eq_some_iff.mpr ⟨h, rfl⟩]; rfl
    | minus h => rw [readInt?_minus, readNat?_eq_some_iff.mpr ⟨h, rfl⟩]; rfl

/-! ## Writing -/

theorem figure_digitChar {d : ℕ} (hd : d < 36) : figure (digitChar d) = d := by
  revert d
  decide +kernel

theorem isAlphanum_digitChar {d : ℕ} (hd : d < 36) : (digitChar d).isAlphanum := by
  revert d
  decide +kernel

theorem digitsOnto_eq {base : ℕ} (hbase : 1 < base) {fuel n : ℕ} (hfuel : n < 2 ^ (fuel + 1))
    (hn : n ≠ 0) (tail : List ℕ) :
    digitsOnto base fuel n tail = (base.digits n).reverse ++ tail := by
  induction fuel generalizing n tail with
  | zero =>
    have hlt : n < base := by omega
    simp [digitsOnto, Nat.digits_of_lt base n hn hlt]
  | succ fuel ih =>
    rw [digitsOnto]
    split
    case isTrue hlt => simp [Nat.digits_of_lt base n hn hlt]
    case isFalse hge =>
      have hquotient : n / base ≠ 0 := Nat.div_ne_zero_iff.mpr ⟨by omega, not_lt.mp hge⟩
      have hhalf : n / base < 2 ^ (fuel + 1) :=
        calc n / base ≤ n / 2 := Nat.div_le_div_left hbase two_pos
          _ < 2 ^ (fuel + 1) := Nat.div_lt_of_lt_mul (by rwa [pow_succ'] at hfuel)
      rw [ih hhalf hquotient, Nat.digits_def' hbase (Nat.pos_of_ne_zero hn)]
      simp

theorem reverse_digits {base : ℕ} (hbase : 1 < base) (n : ℕ) :
    (digits base n).reverse = if n = 0 then [0] else base.digits n := by
  rw [digits]
  split
  case isTrue h => simp [h, digitsOnto]
  case isFalse h => rw [digitsOnto_eq hbase Nat.lt_log2_self h]; simp

theorem lt_of_mem_digits {base n d : ℕ} (hbase : 1 < base) (hd : d ∈ digits base n) : d < base := by
  rw [← List.mem_reverse, reverse_digits hbase] at hd
  split at hd
  · obtain rfl := List.mem_singleton.mp hd
    omega
  · exact Nat.digits_lt_base hbase hd

theorem toList_render (base n : ℕ) : (render base n).toList = (digits base n).map digitChar :=
  String.toList_ofList

section

variable {base : ℕ} (hbase : 1 < base) (hle : base ≤ 36)
include hbase hle

theorem isNumeral_render (n : ℕ) : IsNumeral base (render base n).toList := by
  rw [toList_render]
  constructor
  · rw [Ne, List.map_eq_nil_iff, ← List.reverse_eq_nil_iff, reverse_digits hbase]
    split
    · simp
    case isFalse h => exact Nat.digits_ne_nil_iff_ne_zero.mpr h
  · intro c hc
    obtain ⟨d, hd, rfl⟩ := List.mem_map.mp hc
    have hlt := lt_of_mem_digits hbase hd
    exact ⟨isAlphanum_digitChar (by omega), by rwa [figure_digitChar (by omega)]⟩

/-- **The text of a number denotes it.** -/
theorem value_render (n : ℕ) : value base (render base n).toList = n := by
  have hfigures : ((digits base n).map digitChar).map figure = digits base n := by
    rw [List.map_map]
    exact (List.map_congr_left fun d hd => figure_digitChar
      ((lt_of_mem_digits hbase hd).trans_le hle)).trans (List.map_id _)
  rw [value, toList_render, hfigures, reverse_digits hbase]
  split
  case isTrue h => simp [h]
  case isFalse => exact Nat.ofDigits_digits base n

theorem signed_render (n : ℕ) : Signed base (render base n).toList n := by
  have hsigned := Signed.bare (isNumeral_render hbase hle n)
  rwa [value_render hbase hle] at hsigned

theorem signed_minus_render (n : ℕ) : Signed base ('-' :: (render base n).toList) (-n) := by
  have hsigned := Signed.minus (isNumeral_render hbase hle n)
  rwa [value_render hbase hle] at hsigned

end

theorem decimal_ne_nil (n : ℕ) : (decimal n).toList ≠ [] :=
  (isNumeral_render (by simp) (by simp) n).ne_nil

theorem isDigit_of_mem_decimal {n : ℕ} {c : Char} (h : c ∈ (decimal n).toList) : IsDigit 10 c :=
  (isNumeral_render (by simp) (by simp) n).forall_isDigit c h

theorem value_decimal (n : ℕ) : value 10 (decimal n).toList = n :=
  value_render (by simp) (by simp) n

end StackCircuit.Numeral
