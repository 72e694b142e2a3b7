import Mathlib.Data.List.Basic
import StackCircuit.Proofs.Numeral
import StackCircuit.Text.Quoted
import StackCircuit.Text.Style

/-!
# Texts without their escape sequences

* **`withoutEscapes`**: a text without its escape sequences.
* `IsPlain`: a text in which no escape sequence starts; `withoutEscapes_append`: nothing of it is
  removed, also in front of another text.
* **`withoutEscapes_wrap`**: a styled text without its escape sequences is the text.
* `isPlain_decimal`, **`isPlain_quote`**: numbers and quoted texts are plain, whatever is quoted.
-/

namespace StackCircuit.Text

/-! ## Removing escape sequences -/

/-- The characters outside escape sequences. A sequence consists of an escape character, a bracket and
everything up to and including the next `m`. -/
def visible : List Char → List Char
  | [] => []
  | c :: cs =>
    if c = '\x1b' ∧ cs.head? = some '[' ∧ 'm' ∈ cs then
      visible (cs.dropWhile (· ≠ 'm')).tail
    else c :: visible cs
termination_by cs => cs.length
decreasing_by
  · have hle := (List.dropWhile_suffix (l := cs) (· ≠ 'm')).length_le
    rw [List.length_tail, List.length_cons]
    omega
  · exact Nat.lt_succ_self _

/-- A text without its escape sequences. -/
def withoutEscapes (text : String) : String :=
  String.ofList (visible text.toList)

/-- No escape sequence starts in the text. -/
def IsPlain (text : String) : Prop :=
  '\x1b' ∉ text.toList

instance (text : String) : Decidable (IsPlain text) :=
  inferInstanceAs (Decidable (_ ∉ _))

theorem visible_append {cs : List Char} (h : '\x1b' ∉ cs) (rest : List Char) :
    visible (cs ++ rest) = cs ++ visible rest := by
  induction cs with
  | nil => rfl
  | cons c cs ih =>
    rw [List.mem_cons, not_or] at h
    obtain ⟨hc, hcs⟩ := h
    rw [List.cons_append, visible, if_neg fun hstart => hc hstart.1.symm, ih hcs, List.cons_append]

theorem visible_sequence {cs : List Char} (h : 'm' ∉ cs) (rest : List Char) :
    visible ('\x1b' :: '[' :: (cs ++ 'm' :: rest)) = visible rest := by
  have hinner : ∀ c ∈ '[' :: cs, decide (c ≠ 'm') = true := by
    intro c hc
    rw [decide_eq_true_eq]
    rintro rfl
    exact h ((List.mem_cons.mp hc).resolve_left (by decide))
  have hend : ('[' :: (cs ++ 'm' :: rest)).dropWhile (· ≠ 'm') = 'm' :: rest := by
    rw [← List.cons_append, List.dropWhile_append_of_pos hinner]
    simp
  rw [visible, if_pos (by simp), hend, List.tail_cons]

theorem withoutEscapes_append {text : String} (h : IsPlain text) (rest : String) :
    withoutEscapes (text ++ rest) = text ++ withoutEscapes rest := by
  rw [withoutEscapes, String.toList_append, visible_append h, String.ofList_append,
    String.ofList_toList, withoutEscapes]

/-- The attributes of a style do not end an escape sequence. -/
def Style.IsProper (s : Style) : Prop :=
  ∀ code ∈ s.attributes, 'm' ∉ code.toList

instance (s : Style) : Decidable s.IsProper :=
  inferInstanceAs (Decidable (∀ code ∈ s.attributes, 'm' ∉ code.toList))

theorem not_mem_intercalate {c : Char} {separator : String} (hseparator : c ∉ separator.toList)
    {texts : List String} (h : ∀ text ∈ texts, c ∉ text.toList) :
    c ∉ (separator.intercalate texts).toList := by
  rw [String.toList_intercalate]
  induction texts with
  | nil => simp
  | cons text texts ih =>
    obtain ⟨htext, htexts⟩ := List.forall_mem_cons.mp h
    have hrest := ih htexts
    cases texts with
    | nil => simpa using htext
    | cons next texts =>
      rw [List.map_cons] at hrest
      rw [List.map_cons, List.map_cons, List.intercalate_cons_cons]
      simp [htext, hseparator, hrest]

theorem withoutEscapes_code {s : Style} (h : s.IsProper) (rest : String) :
    withoutEscapes (s.code ++ rest) = withoutEscapes rest := by
  have hcode : (s.code ++ rest).toList =
      '\x1b' :: '[' :: ((";".intercalate s.attributes).toList ++ 'm' :: rest.toList) := by
    simp [Style.code]
  rw [withoutEscapes, hcode, visible_sequence (not_mem_intercalate (by decide) h), withoutEscapes]

/-- **A styled text without its escape sequences is the text.** -/
theorem withoutEscapes_wrap {s : Style} {text : String} (hs : s.IsProper) (htext : IsPlain text)
    (rest : String) : withoutEscapes (s.wrap text ++ rest) = text ++ withoutEscapes rest := by
  have hreset : Style.reset.IsProper := by
    decide
  rw [Style.wrap, String.append_assoc, String.append_assoc, withoutEscapes_code hs,
    withoutEscapes_append htext, withoutEscapes_code hreset]

/-- A sequence that does not end is not one. -/
example : withoutEscapes "\x1b[1;33mRet\x1b[0m, \x1b[" = "Ret, \x1b[" := by
  cbv

/-! ## Plain texts -/

@[simp] theorem isPlain_append {s t : String} : IsPlain (s ++ t) ↔ IsPlain s ∧ IsPlain t := by
  simp [IsPlain, not_or]

theorem isPlain_decimal (n : ℕ) : IsPlain (Numeral.decimal n) := by
  intro hmem
  have hdigit := Numeral.isDigit_of_mem_decimal hmem
  exact absurd hdigit (by decide)

theorem not_mem_hexOnto {width n : ℕ} {tail : List Char} (h : '\x1b' ∉ tail) :
    '\x1b' ∉ Quoted.hexOnto width n tail := by
  induction width generalizing n tail with
  | zero => exact h
  | succ width ih =>
    have hdigit : ∀ d < 16, '\x1b' ≠ Nat.digitChar d := by decide
    refine ih (List.not_mem_cons_of_ne_of_not_mem (hdigit (n % 16) ?_) h)
    exact Nat.mod_lt n (by decide)

theorem not_mem_escape (c : Char) : '\x1b' ∉ Quoted.escape '"' c := by
  have hhex : ∀ width n, '\x1b' ∉ Quoted.hexOnto width n [] := fun _ _ => not_mem_hexOnto (by simp)
  rw [Quoted.escape]
  split
  case isTrue hdelimiter => rcases hdelimiter with rfl | rfl <;> decide
  split
  case isTrue hprintable =>
    rw [List.mem_singleton]
    rintro rfl
    exact absurd hprintable (by decide)
  split
  case h_8 => split_ifs <;> simp [hhex]
  all_goals decide

/-- **Quoted texts are plain.** -/
theorem isPlain_quote (text : String) : IsPlain (quote text) := by
  simp [IsPlain, quote, not_mem_escape]

end StackCircuit.Text
