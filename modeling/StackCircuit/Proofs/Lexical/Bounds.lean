import Mathlib.Algebra.GroupWithZero.Nat
import StackCircuit.Proofs.Assembly.Tokens

/-!
# Scanners do not overrun

* **`Rounds`**: the loop of a repetition, as the matches that it makes from a position on.
* `exists_rounds`, **`Rounds.accept_many`**: the loop of a scanner that keeps within the text ends, at
  what the repeated scanner accepts.
* `EndOnTop`: rules of which some match the end of the text, and none has it inside a scanner;
  `endOnTop_grammar`: those of the assembly language are such.
* **`scanners_keep_within`**: scanners without the end of the text accept no more than there is, and so
  do the rules, except at the end.
-/

namespace StackCircuit.Lexical

/-! ## Repetition -/

section

variable {α : Type}

/-- The matches that repetition makes from a position of the items on, one behind the other. -/
inductive Rounds (f : Accept α) (items : List α) : ℕ → List ℕ → Prop
  | finish {index : ℕ} (h : items.length ≤ index) : Rounds f items index []
  | stop {index : ℕ} (hindex : index < items.length) (h : f (items.drop index) = .ok 0) :
    Rounds f items index []
  | again {index n : ℕ} {ns : List ℕ} (hindex : index < items.length)
    (h : f (items.drop index) = .ok (n + 1)) (hrest : Rounds f items (index + (n + 1)) ns) :
    Rounds f items index ((n + 1) :: ns)

variable {f : Accept α} {items : List α} {index : ℕ} {ns : List ℕ}

theorem repeated_skip (accepted skip : ℕ) (items : List α) :
    Scanner.repeated f accepted skip items = Scanner.repeated f accepted 0 (items.drop skip) := by
  induction items generalizing skip with
  | nil => simp [Scanner.repeated]
  | cons a rest ih =>
    cases skip with
    | zero => rfl
    | succ skip => rw [Scanner.repeated, ih, List.drop_succ_cons]

namespace Rounds

theorem repeated (h : Rounds f items index ns) (accepted : ℕ) :
    Scanner.repeated f accepted 0 (items.drop index) = .ok (accepted + ns.sum) := by
  induction h generalizing accepted with
  | finish h => simp [List.drop_eq_nil_of_le h, Scanner.repeated]
  | stop hindex h =>
    rw [List.drop_eq_getElem_cons hindex] at h ⊢
    rw [Scanner.repeated, h]
    rfl
  | @again index n ns hindex h _ ih =>
    have hbehind : (items.drop (index + 1)).drop n = items.drop (index + (n + 1)) := by
      rw [List.drop_drop]
      congr 1
      omega
    rw [List.drop_eq_getElem_cons hindex] at h ⊢
    rw [Scanner.repeated, h]
    simp only [repeated_skip (accepted + (n + 1)) n, hbehind, ih, List.sum_cons, Nat.add_assoc]

/-- **What a repeated scanner accepts is what its rounds match.** -/
theorem accept_many {s : Scanner} {text : List Char} (h : Rounds s.accept text 0 ns) :
    (Scanner.many s).accept text = .ok ns.sum := by
  have hrepeated := h.repeated 0
  rwa [List.drop_zero, Nat.zero_add, ← Scanner.accept_many] at hrepeated

theorem length_le_sum (h : Rounds f items index ns) : ns.length ≤ ns.sum := by
  induction h with
  | finish | stop => exact Nat.le_refl _
  | again _ _ _ ih =>
    rw [List.length_cons, List.sum_cons]
    omega

end Rounds

theorem exists_rounds (hf : f.Modest) {index : ℕ} (hindex : index ≤ items.length) :
    ∃ ns, Rounds f items index ns ∧ index + ns.sum ≤ items.length := by
  obtain hinside | hend := Nat.lt_or_ge index items.length
  case inr => exact ⟨[], .finish hend, by simpa using hindex⟩
  obtain ⟨n, hn, haccept⟩ := hf (items.drop index)
  rw [List.length_drop] at hn
  obtain _ | n := n
  · exact ⟨[], .stop hinside haccept, by simpa using hindex⟩
  · have hnext : index + (n + 1) ≤ items.length := by omega
    obtain ⟨ns, hrounds, hsum⟩ := exists_rounds hf hnext
    exact ⟨(n + 1) :: ns, .again hinside haccept hrounds, by rw [List.sum_cons]; omega⟩
termination_by items.length - index

end

/-! ## Rules -/

section

variable {κ : Type} {entries : List (Scanner × κ)}

/-- Scanners with their kinds as rules. -/
def toRules (entries : List (Scanner × κ)) : List (Rule Char κ) :=
  entries.map fun (scanner, kind) => ⟨scanner.accept, kind⟩

/-- Some of the scanners may match the end of the text, but it is nowhere inside them. -/
def EndOnTop (entries : List (Scanner × κ)) : Prop :=
  ∀ entry ∈ entries, entry.1.EndFree ∨ entry.1 = .endOfText

theorem accept_endOfText (text : List Char) :
    Scanner.endOfText.accept text = .ok (if text.isEmpty then 1 else 0) := by
  rw [Scanner.accept]

theorem EndOnTop.accept (h : EndOnTop entries) (text : List Char) :
    ∀ entry ∈ entries, (∃ n ≤ text.length, entry.1.accept text = .ok n) ∨
      entry.1 = .endOfText ∧ text = [] ∧ entry.1.accept text = .ok 1 := by
  intro entry hentry
  obtain hfree | hend := h entry hentry
  · exact .inl (hfree.accepts text)
  · rw [hend, accept_endOfText]
    cases text with
    | nil => exact .inr ⟨rfl, rfl, rfl⟩
    | cons c rest => exact .inl ⟨0, Nat.zero_le _, rfl⟩

theorem EndOnTop.safe (h : EndOnTop entries) : ∀ r ∈ toRules entries, r.Safe := by
  intro r hr text
  obtain ⟨entry, hentry, rfl⟩ := List.mem_map.mp hr
  obtain ⟨n, -, hn⟩ | ⟨-, -, hend⟩ := h.accept text entry hentry
  · exact ⟨n, hn⟩
  · exact ⟨1, hend⟩

theorem EndOnTop.exists_delivers (h : EndOnTop entries) (text : List Char) :
    ∃ ts l, Lexer.Delivers (.start (toRules entries) text) ts l ∧ ts.length ≤ text.length + 1 ∧
      ∀ t ∈ ts, t.stop ≤ text.length := by
  obtain ⟨ts, l, hcuts⟩ := exists_cuts h.safe 0 text
  have hwithin := (hcuts.covers rfl (Nat.zero_le _)).1
  exact ⟨ts, l, hcuts.delivers, hcuts.length_le, fun t ht => (hwithin t ht).1⟩

end

theorem endOnTop_grammar : EndOnTop Assembly.grammar := by
  obtain ⟨entries, hgrammar, hentries⟩ := Assembly.grammar_eq
  intro entry hentry
  rw [hgrammar, List.mem_append, List.mem_singleton] at hentry
  obtain hentry | rfl := hentry
  · exact .inl (hentries entry hentry).1
  · exact .inr rfl

/-- **Scanners do not overrun.**  A scanner without the end of the text accepts no more characters
than there are, and repetition of it ends after at most as many rounds, each at a position inside the
text.  Where the end of the text stands among the scanners of a rule list, but in none of them, the
same holds, except that the end of the text accepts one character where there is none; a lexer
delivers all its tokens, at most one more than there are characters, and none ends beyond the text. -/
theorem scanners_keep_within :
    (∀ s : Scanner, s.EndFree → ∀ text : List Char,
      (∃ n ≤ text.length, s.accept text = .ok n) ∧
        ∃ ns, Rounds s.accept text 0 ns ∧ ns.length ≤ text.length ∧
          (Scanner.many s).accept text = .ok ns.sum) ∧
    (∀ (κ : Type) (entries : List (Scanner × κ)), EndOnTop entries → ∀ text : List Char,
      (∀ entry ∈ entries, (∃ n ≤ text.length, entry.1.accept text = .ok n) ∨
        entry.1 = .endOfText ∧ text = [] ∧ entry.1.accept text = .ok 1) ∧
      ∃ ts l, Lexer.Delivers (.start (toRules entries) text) ts l ∧ ts.length ≤ text.length + 1 ∧
        ∀ t ∈ ts, t.stop ≤ text.length) ∧
    Scanner.endOfText.accept [] = .ok 1 ∧
    Assembly.rules = toRules Assembly.grammar ∧ EndOnTop Assembly.grammar := by
  refine ⟨?scanners, ?rules, accept_endOfText [], rfl, endOnTop_grammar⟩
  case scanners =>
    intro s hs text
    obtain ⟨ns, hrounds, hsum⟩ := exists_rounds hs.accepts (Nat.zero_le text.length)
    have hlength := hrounds.length_le_sum
    exact ⟨hs.accepts text, ns, hrounds, by omega, hrounds.accept_many⟩
  case rules =>
    intro κ entries h text
    exact ⟨h.accept text, h.exists_delivers text⟩

/-- Repetition of a repetition keeps within `abbab`, and `fn` is at most three tokens of the assembly
language. -/
theorem scanners_keep_within_nested :
    (∃ ns, Rounds (Scanner.sequence [.unit ['a'], .many (.unit ['b'])]).accept
      ['a', 'b', 'b', 'a', 'b'] 0 ns ∧ ns.length ≤ 5) ∧
    ∃ ts l, Lexer.Delivers (.start Assembly.rules ['f', 'n']) ts l ∧ ts.length ≤ 3 := by
  obtain ⟨hscanners, hrules, -, hrules_eq, hgrammar⟩ := scanners_keep_within
  have hfree : (Scanner.sequence [.unit ['a'], .many (.unit ['b'])]).EndFree := by
    simp
  obtain ⟨-, ns, hrounds, hlength, -⟩ := hscanners _ hfree ['a', 'b', 'b', 'a', 'b']
  obtain ⟨-, ts, l, hdelivers, hcount, -⟩ := hrules _ Assembly.grammar hgrammar ['f', 'n']
  rw [hrules_eq]
  exact ⟨⟨ns, hrounds, hlength⟩, ts, l, hdelivers, hcount⟩

end StackCircuit.Lexical
