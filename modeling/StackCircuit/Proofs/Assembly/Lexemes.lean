import Mathlib.Data.List.TakeWhile
import StackCircuit.Assembly.Parser
import StackCircuit.Proofs.Assembly.Tokens
import StackCircuit.Proofs.Numeral

/-!
# What tokens look like

* `isWord`, `isHexDigit`: classes of characters, with the scanners that spot them.
* **`IsNumber`**: the form of numbers; `denoted`: the number that such a text denotes.
* `isNumber_of_cuts`: number tokens have that form; `number?_of_isNumber`: and are read as the number
  they denote.
-/

namespace StackCircuit.Assembly

open Lexical (Cuts Scanner firstMatch)
open Lexical.Scanner (Spots runLength spots_unit spots_within spots_any_nil)
open Numeral (IsDigit)

/-! ## Classes of characters -/

/-- A character that starts a word. -/
def isWordStart (c : Char) : Bool :=
  c == '_' || c.isAlpha

/-- A character that continues a word. -/
def isWord (c : Char) : Bool :=
  c == '_' || c.isAlphanum

/-- A figure, or one of the first six letters. -/
def isHexDigit (c : Char) : Bool :=
  c.isDigit || ('A' ≤ c && c ≤ 'F' || 'a' ≤ c && c ≤ 'f')

theorem spots_decimalDigit : Spots Scan.decimalDigit Char.isDigit :=
  spots_within '0' '9'

theorem spots_lower : Spots (.within 'a' 'z') Char.isLower :=
  spots_within 'a' 'z'

theorem spots_upper : Spots (.within 'A' 'Z') Char.isUpper := by
  refine (funext fun c => ?_ : _ = Char.isUpper) ▸ spots_within 'A' 'Z'
  exact (Bool.decide_and _ _).symm

theorem spots_hexDigit : Spots Scan.hexDigit isHexDigit := by
  have h := spots_decimalDigit.any_cons
    ((spots_within 'A' 'F').any_cons ((spots_within 'a' 'f').any_cons spots_any_nil))
  refine (funext fun c => ?_ : _ = isHexDigit) ▸ h
  rw [isHexDigit, Bool.or_false]

theorem spots_identifierStart : Spots Scan.identifierStart isWordStart := by
  have h := (spots_unit '_').any_cons
    (spots_lower.any_cons (spots_upper.any_cons spots_any_nil))
  refine (funext fun c => ?_ : _ = isWordStart) ▸ h
  have halpha : c.isAlpha = (c.isUpper || c.isLower) := rfl
  rw [isWordStart, halpha, Bool.or_false, Bool.or_comm c.isLower]

theorem spots_identifierRest : Spots Scan.identifierRest isWord := by
  have h := (spots_unit '_').any_cons
    (spots_decimalDigit.any_cons (spots_lower.any_cons (spots_upper.any_cons spots_any_nil)))
  refine (funext fun c => ?_ : _ = isWord) ▸ h
  have halphanum : c.isAlphanum = ((c.isUpper || c.isLower) || c.isDigit) := rfl
  rw [isWord, halphanum, Bool.or_false, Bool.or_comm c.isLower, Bool.or_comm c.isDigit]

/-! ## Numbers -/

/-- Numbers are hexadecimal after `0x` or else decimal, with underscores after the first digit. -/
inductive IsNumber : List Char → Prop
  | hexadecimal {c : Char} {cs : List Char} (hc : isHexDigit c)
    (hcs : ∀ d ∈ cs, isHexDigit d || d == '_') : IsNumber ('0' :: 'x' :: c :: cs)
  | decimal {c : Char} {cs : List Char} (hc : c.isDigit) (hcs : ∀ d ∈ cs, d.isDigit || d == '_') :
    IsNumber (c :: cs)

/-- The number that a text denotes: in base 16 after `0x` or else in base 10, where underscores do not
count. -/
def denoted : List Char → ℕ
  | '0' :: 'x' :: digits => Numeral.value 16 (digits.filter (· ≠ '_'))
  | digits => Numeral.value 10 (digits.filter (· ≠ '_'))

theorem isDigit_of_isDigit {c : Char} (h : c.isDigit) : IsDigit 10 c :=
  Numeral.forall_alphanum (P := fun c => c.isDigit → IsDigit 10 c) (by decide +kernel)
    (by simp [Char.isAlphanum, h]) h

theorem isDigit_of_isHexDigit {c : Char} (h : isHexDigit c) : IsDigit 16 c := by
  have hlt : c.toNat < 128 := by
    have hle := h
    simp [isHexDigit, Char.isDigit, Char.le_def, UInt32.le_iff_toNat_le] at hle
    omega
  exact Numeral.forall_ascii (P := fun c => isHexDigit c → IsDigit 16 c) (by decide +kernel) hlt h

theorem ne_underscore_of_isDigit {c : Char} (h : c.isDigit) : c ≠ '_' := by
  rintro rfl
  simp at h

theorem isDigit_of_mem_filter {p : Char → Bool} {base : ℕ} (hp : ∀ c, p c → IsDigit base c)
    {cs : List Char} (hcs : ∀ d ∈ cs, p d || d == '_') : ∀ d ∈ cs.filter (· ≠ '_'), IsDigit base d := by
  intro d hd
  obtain ⟨hmem, hne⟩ := List.mem_filter.mp hd
  have h := hcs d hmem
  rw [Bool.or_eq_true, beq_iff_eq] at h
  exact hp d (h.resolve_right (of_decide_eq_true hne))

/-- **Numbers are read as what they denote.** -/
theorem number?_of_isNumber {cs : List Char} (h : IsNumber cs) :
    number? cs = some (denoted cs : ℤ) := by
  obtain @⟨c, cs, hc, hcs⟩ | @⟨c, cs, hc, hcs⟩ := h
  · have hdigits : ∀ d ∈ (c :: cs).filter (· ≠ '_'), IsDigit 16 d :=
      isDigit_of_mem_filter (fun _ => isDigit_of_isHexDigit)
        (List.forall_mem_cons.mpr ⟨by simp [hc], hcs⟩)
    have hne : (c :: cs).filter (· ≠ '_') ≠ [] := by
      rw [List.filter_cons_of_pos]
      · exact List.cons_ne_nil _ _
      · rw [decide_eq_true_eq]
        rintro rfl
        exact absurd hc (by decide)
    simpa [number?, denoted] using
      Numeral.readInt?_of_readNat? (Numeral.readNat?_eq_value hne hdigits)
  · have hdigits : ∀ d ∈ (c :: cs).filter (· ≠ '_'), IsDigit 10 d :=
      isDigit_of_mem_filter (fun _ => isDigit_of_isDigit)
        (List.forall_mem_cons.mpr ⟨by simp [hc], hcs⟩)
    have hne : (c :: cs).filter (· ≠ '_') ≠ [] := by
      rw [List.filter_cons_of_pos (by simpa using ne_underscore_of_isDigit hc)]
      exact List.cons_ne_nil _ _
    have hread := Numeral.readInt?_of_readNat? (Numeral.readNat?_eq_value hne hdigits)
    -- An `x` is no decimal digit, so there is no prefix, before and after the underscores go.
    have hx : ¬ IsDigit 10 'x' := by decide
    have hnumber : number? (c :: cs) = Numeral.readInt? 10 ((c :: cs).filter (· ≠ '_')) := by
      rw [number?]
      split
      case h_1 digits heq => exact absurd (hdigits 'x' (by rw [heq]; simp)) hx
      case h_2 => rfl
    have hdenoted : denoted (c :: cs) = Numeral.value 10 ((c :: cs).filter (· ≠ '_')) := by
      rw [denoted]
      rintro digits heq
      obtain ⟨-, rfl⟩ := List.cons.inj heq
      exact hx (hdigits 'x' (List.mem_filter.mpr ⟨by simp, by decide⟩))
    rw [hnumber, hdenoted, hread]

/-! ## Number tokens -/

theorem spots_orUnderscore {s : Scanner} {p : Char → Bool} (h : Spots s p) :
    Spots (.any [s, .unit ['_']]) fun c => p c || c == '_' := by
  have hany := h.any_cons ((spots_unit '_').any_cons spots_any_nil)
  simpa only [Bool.or_false] using hany

/-- The length of the digits of a hexadecimal number, and of a decimal one. -/
def hexLength (text : List Char) : ℕ :=
  runLength isHexDigit (fun c => isHexDigit c || c == '_') text

@[inherit_doc hexLength]
def decimalLength (text : List Char) : ℕ :=
  runLength Char.isDigit (fun c => c.isDigit || c == '_') text

theorem accept_number (text : List Char) :
    Scan.number.accept text =
      .ok (if ['0', 'x'] <+: text ∧ hexLength (text.drop 2) ≠ 0 then 2 + hexLength (text.drop 2)
        else decimalLength text) := by
  have hhex : (Scanner.sequence [.unit ['0', 'x'], Scan.hexDigit,
      .many (.any [Scan.hexDigit, .unit ['_']])]).accept text =
        .ok (if ['0', 'x'] <+: text ∧ hexLength (text.drop 2) ≠ 0 then 2 + hexLength (text.drop 2)
          else 0) :=
    spots_hexDigit.run_behind (spots_orUnderscore spots_hexDigit) (List.cons_ne_nil '0' ['x']) text
  rw [Scan.number, Lexical.Scanner.accept_any_pair hhex
    (spots_decimalDigit.run (spots_orUnderscore spots_decimalDigit) text)]
  by_cases h : ['0', 'x'] <+: text ∧ hexLength (text.drop 2) ≠ 0
  · have hne : 2 + hexLength (text.drop 2) ≠ 0 := by omega
    rw [if_pos h, if_neg hne, if_pos h]
  · rw [if_neg h, if_neg h, if_pos rfl]
    rfl

theorem exists_of_runLength {p q : Char → Bool} {text : List Char} {n : ℕ}
    (h : runLength p q text = n + 1) :
    ∃ c cs, text.take (n + 1) = c :: cs ∧ p c ∧ ∀ d ∈ cs, q d := by
  obtain _ | ⟨c, rest⟩ := text
  · cases h
  · rw [runLength] at h
    split at h
    case isTrue hc =>
      obtain rfl := Nat.succ.inj h
      refine ⟨c, rest.takeWhile q, ?_, hc, fun d hd => List.mem_takeWhile_imp hd⟩
      rw [List.take_succ_cons, ← List.prefix_iff_eq_take.mp (List.takeWhile_prefix q)]
    case isFalse => cases h

theorem isNumber_of_accept {text : List Char} {n : ℕ}
    (h : Scan.number.accept text = .ok (n + 1)) : IsNumber (text.take (n + 1)) := by
  rw [accept_number, Except.ok.injEq] at h
  split at h
  case isTrue hhex =>
    obtain ⟨⟨rest, rfl⟩, hlength⟩ := hhex
    obtain ⟨m, hm⟩ := Nat.exists_eq_add_one_of_ne_zero hlength
    obtain ⟨c, cs, htake, hc, hcs⟩ := exists_of_runLength hm
    obtain rfl : n = m + 2 := by omega
    have heq : (['0', 'x'] ++ rest).take (m + 2 + 1) = '0' :: 'x' :: c :: cs := by
      simpa using htake
    exact heq ▸ .hexadecimal hc hcs
  case isFalse =>
    obtain ⟨c, cs, htake, hc, hcs⟩ := exists_of_runLength h
    exact htake ▸ .decimal hc hcs

/-- **Number tokens are numbers.** -/
theorem isNumber_of_cuts {index : ℕ} {text : List Char} {ts : List Token}
    {l : Lexical.Lexer Char TokenKind} (h : Cuts rules index text ts l) :
    ∀ t ∈ ts, t.kind = .number → IsNumber t.lexeme := by
  intro t ht hkind
  obtain ⟨position, rest, hmatch⟩ := h.exists_firstMatch t ht
  obtain ⟨s, n, hs, hn, hlexeme⟩ := exists_entry_of_firstMatch hmatch
  obtain rfl : s = Scan.number := by
    simpa [grammar, hkind] using hs
  exact hlexeme ▸ isNumber_of_accept hn

theorem isNumber_of_tokens {text : List Char} {ts : List Token} (h : tokens text = .ok ts) :
    ∀ t ∈ ts, t.kind = .number → IsNumber t.lexeme := by
  obtain ⟨ts', l, hcuts, hsubset⟩ := exists_cuts_of_tokens h
  exact fun t ht => isNumber_of_cuts hcuts t (hsubset ht)

end StackCircuit.Assembly
