import Mathlib.Data.Nat.Notation
import StackCircuit.Lexical.Lexer

/-!
# How a lexer cuts a text

* `Lexer.Delivers`: the tokens that a lexer delivers until there is none, and the lexer at the end.
* **`Cuts`**: the tokens that rules cut off a text one after the other, and the lexer at the end.
* `exists_cuts`: rules without faults cut every text; `Cuts.delivers`, `Cuts.collect`: and a lexer
  delivers the tokens they cut, less the ignored ones when it collects them.
* `Cuts.covers`: tokens lie within the text and show what stands there.
-/

namespace StackCircuit.Lexical

variable {α κ : Type} {rules : List (Rule α κ)} {index : ℕ} {items : List α} {t : Token α κ}
  {ts : List (Token α κ)} {l : Lexer α κ}

/-! ## One token -/

/-- A rule that gives no fault. -/
def Rule.Safe (r : Rule α κ) : Prop :=
  ∀ items, ∃ n, r.accept items = .ok n

theorem exists_firstMatch (h : ∀ r ∈ rules, r.Safe) (index : ℕ) (items : List α) :
    ∃ found, firstMatch index items rules = .ok found := by
  induction rules with
  | nil => exact ⟨none, rfl⟩
  | cons r rest ih =>
    obtain ⟨n, hn⟩ := h r List.mem_cons_self items
    obtain _ | n := n
    · obtain ⟨found, hrest⟩ := ih fun r hr => h r (List.mem_cons_of_mem _ hr)
      exact ⟨found, by rw [firstMatch, hn, ← hrest]⟩
    · exact ⟨some ⟨r.kind, index, items.take (n + 1)⟩, by rw [firstMatch, hn]⟩

theorem exists_append_of_firstMatch (h : firstMatch index items rules = .ok (some t)) :
    ∃ before r after n, rules = before ++ r :: after ∧ (∀ r' ∈ before, r'.accept items = .ok 0) ∧
      r.accept items = .ok (n + 1) ∧ t = ⟨r.kind, index, items.take (n + 1)⟩ := by
  induction rules with
  | nil => simp [firstMatch] at h
  | cons r rest ih =>
    rw [firstMatch] at h
    split at h
    case h_1 => cases h
    case h_2 hr =>
      obtain ⟨before, r', after, n, rfl, hbefore, hmatch⟩ := ih h
      exact ⟨r :: before, r', after, n, rfl, List.forall_mem_cons.mpr ⟨hr, hbefore⟩, hmatch⟩
    case h_3 n hn => exact ⟨[], r, rest, n, rfl, nofun, hn, by cases h; rfl⟩

theorem exists_rule_of_firstMatch (h : firstMatch index items rules = .ok (some t)) :
    ∃ r ∈ rules, ∃ n, r.accept items = .ok (n + 1) ∧
      t = ⟨r.kind, index, items.take (n + 1)⟩ := by
  obtain ⟨before, r, after, n, rfl, -, hmatch⟩ := exists_append_of_firstMatch h
  exact ⟨r, List.mem_append_right _ List.mem_cons_self, n, hmatch⟩

theorem accept_of_firstMatch_none (h : firstMatch index items rules = .ok none) :
    ∀ r ∈ rules, r.accept items = .ok 0 := by
  induction rules with
  | nil => simp
  | cons r rest ih =>
    rw [firstMatch] at h
    split at h
    case h_1 => cases h
    case h_2 hn => exact List.forall_mem_cons.mpr ⟨hn, ih h⟩
    case h_3 => cases h

theorem token_of_firstMatch (h : firstMatch index items rules = .ok (some t)) :
    t.start = index ∧ t.lexeme <+: items ∧ (items ≠ [] → 0 < t.lexeme.length) := by
  obtain ⟨r, -, n, -, rfl⟩ := exists_rule_of_firstMatch h
  exact ⟨rfl, List.take_prefix _ _, fun hitems => List.length_pos_iff.mpr (by simp [hitems])⟩

theorem drop_stop_of_firstMatch (h : firstMatch index items rules = .ok (some t)) {text : List α}
    (htext : text.drop index = items) (hindex : index ≤ text.length) :
    t.stop ≤ text.length ∧ text.drop t.stop = items.drop t.lexeme.length := by
  obtain ⟨rfl, hlexeme, -⟩ := token_of_firstMatch h
  have hle := hlexeme.length_le
  rw [← htext, List.length_drop] at hle
  rw [← htext, List.drop_drop, Token.stop]
  exact ⟨by omega, rfl⟩

/-! ## A lexer under way -/

namespace Lexer

/-- As long as there is a token, a lexer delivers it. -/
inductive Delivers : Lexer α κ → List (Token α κ) → Lexer α κ → Prop
  | done {l l' : Lexer α κ} (h : scanAhead l = .ok false l') : Delivers l [] l'
  | more {l scanned moved l' : Lexer α κ} {t : Token α κ} {ts : List (Token α κ)}
    (hscan : scanAhead l = .ok true scanned) (hnext : next scanned = .ok t moved)
    (hrest : Delivers moved ts l') : Delivers l (t :: ts) l'

theorem Delivers.collectOnto [BEq κ] {l' : Lexer α κ} (h : Delivers l ts l') (ignore : List κ)
    (collected : List (Token α κ)) {fuel : ℕ} (hfuel : ts.length < fuel) :
    Lexer.collectOnto ignore fuel collected l =
      .ok (collected.reverse ++ ts.filter fun t => !ignore.contains t.kind) l' := by
  induction h generalizing collected fuel with
  | done h =>
    obtain ⟨fuel, rfl⟩ := Nat.exists_eq_add_one_of_ne_zero (by omega : fuel ≠ 0)
    simp [Lexer.collectOnto, h]
  | @more _ _ _ _ t ts hscan hnext _ ih =>
    rw [List.length_cons] at hfuel
    obtain ⟨fuel, rfl⟩ := Nat.exists_eq_add_one_of_ne_zero (by omega : fuel ≠ 0)
    have hrest (collected : List (Token α κ)) := ih collected (by omega : ts.length < fuel)
    rw [Lexer.collectOnto]
    cases hkind : ignore.contains t.kind <;>
      simp [hscan, hnext, hrest, hkind, -List.contains_eq_mem]

end Lexer

/-! ## All tokens -/

/-- Rules cut `ts` off the items ahead at a position, and the lexer ends as `l`. -/
inductive Cuts (rules : List (Rule α κ)) :
    ℕ → List α → List (Token α κ) → Lexer α κ → Prop
  | stuck {index : ℕ} {items : List α} (h : firstMatch index items rules = .ok none) :
    Cuts rules index items [] ⟨rules, index, some items, none⟩
  | finish {index : ℕ} {t : Token α κ} (h : firstMatch index [] rules = .ok (some t)) :
    Cuts rules index [] [t] ⟨rules, index + 1, none, none⟩
  | step {index : ℕ} {a : α} {rest : List α} {t : Token α κ} {ts : List (Token α κ)} {l : Lexer α κ}
    (h : firstMatch index (a :: rest) rules = .ok (some t))
    (hrest : Cuts rules t.stop ((a :: rest).drop t.lexeme.length) ts l) :
    Cuts rules index (a :: rest) (t :: ts) l

theorem exists_cuts (h : ∀ r ∈ rules, r.Safe) (index : ℕ) (items : List α) :
    ∃ ts l, Cuts rules index items ts l := by
  obtain ⟨found, hfound⟩ := exists_firstMatch h index items
  obtain _ | t := found
  · exact ⟨[], _, .stuck hfound⟩
  obtain _ | ⟨a, rest⟩ := items
  · exact ⟨[t], _, .finish hfound⟩
  · have hlexeme := (token_of_firstMatch hfound).2.2 (List.cons_ne_nil a rest)
    obtain ⟨ts, l, hrest⟩ := exists_cuts h t.stop ((a :: rest).drop t.lexeme.length)
    exact ⟨t :: ts, l, .step hfound hrest⟩
termination_by items.length
decreasing_by simp only [List.length_drop, List.length_cons]; omega

namespace Cuts

/-- **A lexer delivers the tokens that its rules cut.** -/
theorem delivers (h : Cuts rules index items ts l) :
    Lexer.Delivers ⟨rules, index, some items, none⟩ ts l := by
  induction h with
  | stuck h => exact .done (by simp [Lexer.scanAhead, h])
  | @finish index t h =>
    have hscan : Lexer.scanAhead ⟨rules, index, some [], none⟩ =
        .ok true ⟨rules, index, some [], some t⟩ := by
      simp [Lexer.scanAhead, h]
    exact .more hscan rfl (.done rfl)
  | @step index a rest t ts l h _ ih =>
    have hscan : Lexer.scanAhead ⟨rules, index, some (a :: rest), none⟩ =
        .ok true ⟨rules, index, some (a :: rest), some t⟩ := by
      simp [Lexer.scanAhead, h]
    exact .more hscan rfl ih

theorem length_le (h : Cuts rules index items ts l) : ts.length ≤ items.length + 1 := by
  induction h with
  | stuck => exact Nat.zero_le _
  | finish => exact Nat.le_refl _
  | @step index a rest t ts l h _ ih =>
    have hlexeme := (token_of_firstMatch h).2.2 (List.cons_ne_nil a rest)
    rw [List.length_drop] at ih
    simp only [List.length_cons] at ih ⊢
    omega

/-- **Collecting delivers the tokens that are not ignored.** -/
theorem collect [BEq κ] (h : Cuts rules 0 items ts l) (ignore : List κ) :
    Lexer.collect ignore (Lexer.start rules items) =
      .ok (ts.filter fun t => !ignore.contains t.kind) l :=
  h.delivers.collectOnto ignore [] (Nat.lt_succ_of_le h.length_le)

theorem exists_firstMatch (h : Cuts rules index items ts l) :
    ∀ t ∈ ts, ∃ position rest, firstMatch position rest rules = .ok (some t) := by
  induction h with
  | stuck => simp
  | finish h => exact List.forall_mem_singleton.mpr ⟨_, _, h⟩
  | step h _ ih => exact List.forall_mem_cons.mpr ⟨⟨_, _, h⟩, ih⟩

/-- **Tokens show what stands in the text.** -/
theorem covers (h : Cuts rules index items ts l) {text : List α} (htext : text.drop index = items)
    (hindex : index ≤ text.length) :
    (∀ t ∈ ts, t.stop ≤ text.length ∧ t.lexeme <+: text.drop t.start) ∧
      ∀ ahead ∈ l.ahead, l.index ≤ text.length ∧ text.drop l.index = ahead := by
  induction h with
  | stuck h => simp [htext, hindex]
  | finish h =>
    obtain ⟨rfl, hlexeme, -⟩ := token_of_firstMatch h
    have hnil := List.prefix_nil.mp hlexeme
    simp [Token.stop, hnil, hindex]
  | @step index a rest t ts l h _ ih =>
    obtain ⟨hstop, hdrop⟩ := drop_stop_of_firstMatch h htext hindex
    obtain ⟨rfl, hlexeme, -⟩ := token_of_firstMatch h
    obtain ⟨hts, hl⟩ := ih hdrop hstop
    exact ⟨List.forall_mem_cons.mpr ⟨⟨hstop, htext ▸ hlexeme⟩, hts⟩, hl⟩

end Cuts

end StackCircuit.Lexical
