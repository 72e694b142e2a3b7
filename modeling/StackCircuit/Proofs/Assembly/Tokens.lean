import StackCircuit.Assembly.Token
import StackCircuit.Proofs.Lexical.Cuts
import StackCircuit.Proofs.Lexical.Scanners

/-!
# The tokens of a file

* `rules_safe`: the lexical rules give no fault, so they cut every text; `tokens_of_cuts`: the tokens
  of a text in terms of the cut.
* **`Ended`**: tokens of which the last, and no other, ends the file; `ended_of_tokens`: what a lexer
  delivers for a whole text.
-/

namespace StackCircuit.Assembly

open Lexical (Cuts Lexer Rule Scanner firstMatch)
open Lexical.Scanner (EndFree)

variable {index : ℕ} {text : List Char} {t : Token} {ts : List Token} {l : Lexer Char TokenKind}

/-! ## The rules -/

theorem grammar_eq : ∃ entries, grammar = entries ++ [(.endOfText, .endOfFile)] ∧
    ∀ entry ∈ entries, EndFree entry.1 ∧ entry.2 ≠ .endOfFile := by
  refine ⟨grammar.dropLast, rfl, ?_⟩
  simp [grammar, Scan.comment, Scan.blank, Scan.number, Scan.identifier, Scan.identifierStart,
    Scan.identifierRest, Scan.hexDigit, Scan.decimalDigit]

theorem rules_safe : ∀ r ∈ rules, r.Safe := by
  obtain ⟨entries, hgrammar, hentries⟩ := grammar_eq
  intro r hr text
  obtain ⟨⟨s, kind⟩, hs, rfl⟩ := List.mem_map.mp hr
  rw [hgrammar, List.mem_append, List.mem_singleton] at hs
  obtain hs | ⟨rfl, rfl⟩ := hs
  · obtain ⟨n, -, hn⟩ := (hentries _ hs).1.accepts text
    exact ⟨n, hn⟩
  · exact ⟨if text.isEmpty then 1 else 0, by simp only [Scanner.accept]⟩

theorem exists_entry_of_firstMatch (h : firstMatch index text rules = .ok (some t)) :
    ∃ s n, (s, t.kind) ∈ grammar ∧ s.accept text = .ok (n + 1) ∧ t.lexeme = text.take (n + 1) := by
  obtain ⟨r, hr, n, hn, rfl⟩ := Lexical.exists_rule_of_firstMatch h
  obtain ⟨⟨s, kind⟩, hs, rfl⟩ := List.mem_map.mp hr
  exact ⟨s, n, hs, hn, rfl⟩

theorem kind_of_firstMatch (h : firstMatch index text rules = .ok (some t)) :
    t.kind = .endOfFile ↔ text = [] := by
  obtain ⟨s, n, hs, hn, -⟩ := exists_entry_of_firstMatch h
  obtain ⟨entries, hgrammar, hentries⟩ := grammar_eq
  rw [hgrammar, List.mem_append, List.mem_singleton, Prod.mk.injEq] at hs
  obtain hs | ⟨rfl, hkind⟩ := hs
  · obtain ⟨hfree, hkind⟩ := hentries _ hs
    obtain ⟨k, hk, haccept⟩ := hfree.accepts text
    rw [hn, Except.ok.injEq] at haccept
    refine iff_of_false hkind fun hnil => ?_
    rw [hnil, List.length_nil] at hk
    omega
  · cases text <;> simp_all [Scanner.accept]

theorem firstMatch_nil_ne_none : firstMatch index [] rules ≠ .ok none := by
  intro h
  have hend := Lexical.accept_of_firstMatch_none h ⟨Scanner.endOfText.accept, .endOfFile⟩
    (List.mem_map.mpr ⟨(.endOfText, .endOfFile), by simp [grammar], rfl⟩)
  simp [Scanner.accept] at hend

/-! ## From start to end -/

/-- Tokens of which the last, and no other, ends the file. -/
def Ended (ts : List Token) : Prop :=
  ∃ before last, ts = before ++ [last] ∧ last.kind = .endOfFile ∧ ∀ t ∈ before, t.kind ≠ .endOfFile

theorem ended_cons (ht : t.kind ≠ .endOfFile) : Ended (t :: ts) ↔ Ended ts := by
  constructor
  · rintro ⟨_ | ⟨t', before⟩, last, heq, hlast, hbefore⟩
    · obtain ⟨rfl, -⟩ := List.cons.inj heq
      exact absurd hlast ht
    · obtain ⟨rfl, rfl⟩ := List.cons.inj heq
      exact ⟨before, last, rfl, hlast, fun t h => hbefore t (List.mem_cons_of_mem _ h)⟩
  · rintro ⟨before, last, rfl, hlast, hbefore⟩
    exact ⟨t :: before, last, rfl, hlast, List.forall_mem_cons.mpr ⟨ht, hbefore⟩⟩

theorem not_ended_nil : ¬ Ended [] := by
  rintro ⟨before, last, h, -⟩
  simp at h

theorem ended_of_kind (ht : t.kind = .endOfFile) : Ended (t :: ts) ↔ ts = [] := by
  constructor
  · rintro ⟨_ | ⟨t', before⟩, last, heq, -, hbefore⟩
    · exact (List.cons.inj heq).2
    · obtain ⟨rfl, -⟩ := List.cons.inj heq
      exact absurd ht (hbefore t List.mem_cons_self)
  · rintro rfl
    exact ⟨[], t, rfl, ht, by simp⟩

theorem Ended.filter (h : Ended ts) {p : Token → Bool} (hp : ∀ t, t.kind = .endOfFile → p t) :
    Ended (ts.filter p) := by
  obtain ⟨before, last, rfl, hlast, hbefore⟩ := h
  refine ⟨before.filter p, last, ?_, hlast, fun t ht => hbefore t (List.mem_filter.mp ht).1⟩
  rw [List.filter_append, List.filter_cons_of_pos (hp last hlast), List.filter_nil]

theorem ended_of_cuts (h : Cuts rules index text ts l) (hl : l.remaining = 0) : Ended ts := by
  induction h with
  | stuck h =>
    obtain rfl := List.length_eq_zero_iff.mp hl
    exact absurd h firstMatch_nil_ne_none
  | finish h => exact (ended_of_kind ((kind_of_firstMatch h).mpr rfl)).mpr rfl
  | step h _ ih =>
    exact (ended_cons (mt (kind_of_firstMatch h).mp (List.cons_ne_nil _ _))).mpr (ih hl)

/-- The kinds that do not reach the parser. -/
def isIgnored (kind : TokenKind) : Bool :=
  [TokenKind.blank, .comment].contains kind

theorem tokens_of_cuts (h : Cuts rules 0 text ts l) :
    tokens text = if l.remaining = 0 then .ok (ts.filter fun t => !isIgnored t.kind)
      else .error (restSpan l) := by
  rw [tokens, h.collect]
  rfl

/-- **A lexer delivers the end of the file, once and last.** -/
theorem ended_of_tokens (h : tokens text = .ok ts) : Ended ts := by
  obtain ⟨ts', l, hcuts⟩ := Lexical.exists_cuts rules_safe 0 text
  rw [tokens_of_cuts hcuts] at h
  split at h
  case isFalse => cases h
  case isTrue hl =>
    cases h
    exact (ended_of_cuts hcuts hl).filter fun t ht => by simp [ht, isIgnored]

theorem exists_cuts_of_collect {ignore : List TokenKind}
    (h : Lexer.collect ignore (.start rules text) = .ok ts l) :
    ∃ ts', Cuts rules 0 text ts' l ∧ ts ⊆ ts' := by
  obtain ⟨ts', l', hcuts⟩ := Lexical.exists_cuts rules_safe 0 text
  rw [hcuts.collect, EStateM.Result.ok.injEq] at h
  obtain ⟨rfl, rfl⟩ := h
  exact ⟨ts', hcuts, fun _ ht => (List.mem_filter.mp ht).1⟩

theorem exists_cuts_of_tokens (h : tokens text = .ok ts) :
    ∃ ts' l, Cuts rules 0 text ts' l ∧ ts ⊆ ts' := by
  rw [tokens] at h
  split at h
  case h_1 => cases h
  case h_2 found l hcollect =>
    split at h
    case isTrue =>
      cases h
      obtain ⟨ts', hcuts, hsubset⟩ := exists_cuts_of_collect hcollect
      exact ⟨ts', l, hcuts, hsubset⟩
    case isFalse => cases h

theorem covers_of_tokens (h : tokens text = .ok ts) :
    ∀ t ∈ ts, t.stop ≤ text.length ∧ t.lexeme <+: text.drop t.start := by
  obtain ⟨ts', l, hcuts, hsubset⟩ := exists_cuts_of_tokens h
  exact fun t ht => (hcuts.covers rfl (Nat.zero_le _)).1 t (hsubset ht)

theorem stop_of_tokens_error {s : Source.Span} (h : tokens text = .error s) :
    0 ≤ s.start ∧ s.stop = text.length := by
  obtain ⟨ts', l, hcuts⟩ := Lexical.exists_cuts rules_safe 0 text
  rw [tokens_of_cuts hcuts] at h
  split at h
  case isTrue => cases h
  case isFalse hl =>
    cases h
    obtain ⟨rules', position, _ | ahead, buffer⟩ := l
    · exact absurd rfl hl
    · obtain ⟨hposition, hahead⟩ := (hcuts.covers rfl (Nat.zero_le _)).2 ahead rfl
      simp only [restSpan, Lexer.remaining, ← hahead, List.length_drop] at hposition ⊢
      omega

end StackCircuit.Assembly
