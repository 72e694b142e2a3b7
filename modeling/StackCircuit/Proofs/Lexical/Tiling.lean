import Mathlib.Data.List.Chain
import StackCircuit.Proofs.Lexical.Cuts

/-!
# Lexers tile their input

* `Token.IsSelected`: the first rule that matches where a token starts gives its kind and its end.
* **`Tiles`**: tokens side by side, from the start of the items up to where a lexer is left.
* `Cuts.isChain`, `Cuts.end_once`, `Cuts.left`, `Cuts.exists_start_or_left`, `Cuts.firstMatch_start`: where
  the tokens that rules cut start and end; **`Cuts.tiles`**: they tile the items.
* **`collect_tiles`**: a lexer delivers them and stops, whatever its rules accept.
-/

namespace StackCircuit.Lexical

variable {α κ : Type} {rules : List (Rule α κ)} {index : ℕ} {items ahead : List α} {t : Token α κ}
  {ts : List (Token α κ)} {l : Lexer α κ}

/-! ## Tiles -/

/-- The first rule that matches where a token starts gives its kind and its end.  A match that is too
long ends with the items. -/
def Token.IsSelected (rules : List (Rule α κ)) (items : List α) (t : Token α κ) : Prop :=
  ∃ before r after n, rules = before ++ r :: after ∧
    (∀ r' ∈ before, r'.accept (items.drop t.start) = .ok 0) ∧
    r.accept (items.drop t.start) = .ok (n + 1) ∧ t.kind = r.kind ∧
    t.stop = min items.length (t.start + (n + 1)) ∧ t.lexeme = (items.drop t.start).take (n + 1)

/-- Tokens that tile items, and how a lexer is left behind them: each token starts where the one before
it ends, takes something unless it is the one at the end, and is that of the first rule that matches.
Either the end was matched and nothing remains, or no rule matches behind the last token. -/
structure Tiles (rules : List (Rule α κ)) (items : List α) (ts : List (Token α κ))
    (l : Lexer α κ) : Prop where
  start_eq : ∀ t ∈ ts.head?, t.start = 0
  isChain : ts.IsChain fun t t' => t'.start = t.stop
  start_le : ∀ t ∈ ts, t.start ≤ items.length
  progress : ∀ t ∈ ts, t.start < items.length → t.start < t.stop ∧ t.stop ≤ items.length
  end_once : ts.countP (·.start = items.length) ≤ 1
  isSelected : ∀ t ∈ ts, t.IsSelected rules items
  left : ((∃ t ∈ ts, t.start = items.length) ∧ l.remaining = 0) ∨
    ((∀ r ∈ rules, r.accept (items.drop l.index) = .ok 0) ∧
      l.index = (ts.getLast?.map Token.stop).getD 0 ∧ l.remaining = (items.drop l.index).length)

/-! ## Cut tokens are tiles -/

theorem stop_add_length (h : firstMatch index ahead rules = .ok (some t)) :
    t.stop + (ahead.drop t.lexeme.length).length = index + ahead.length := by
  obtain ⟨rfl, hlexeme, -⟩ := token_of_firstMatch h
  have hle := hlexeme.length_le
  rw [List.length_drop, Token.stop]
  omega

namespace Cuts

theorem start_eq (h : Cuts rules index ahead ts l) : ∀ t ∈ ts.head?, t.start = index := by
  cases h with
  | stuck => nofun
  | finish h | step h =>
    rintro _ ⟨⟩
    exact (token_of_firstMatch h).1

theorem isChain (h : Cuts rules index ahead ts l) : ts.IsChain fun t t' => t'.start = t.stop := by
  induction h with
  | stuck => exact .nil
  | finish => exact .singleton _
  | step _ hrest ih => exact List.isChain_cons.mpr ⟨hrest.start_eq, ih⟩

theorem end_once (h : Cuts rules index ahead ts l) :
    ts.countP (·.start = index + ahead.length) ≤ 1 := by
  induction h with
  | stuck => exact Nat.zero_le _
  | finish => exact List.countP_le_length
  | @step index a rest t ts l h _ ih =>
    have hne : ¬ t.start = index + (a :: rest).length := by
      rw [(token_of_firstMatch h).1, List.length_cons]
      omega
    rw [stop_add_length h] at ih
    rwa [List.countP_cons_of_neg (by simpa using hne)]

theorem left (h : Cuts rules index ahead ts l) :
    ((∃ t ∈ ts, t.start = index + ahead.length) ∧ l.index = index + ahead.length + 1 ∧
      l.ahead = none) ∨
      ∃ rest, l.ahead = some rest ∧ firstMatch l.index rest rules = .ok none ∧
        l.index = (ts.getLast?.map Token.stop).getD index := by
  induction h with
  | stuck h => exact .inr ⟨_, rfl, h, rfl⟩
  | finish h => exact .inl ⟨⟨_, List.mem_singleton_self _, (token_of_firstMatch h).1⟩, rfl, rfl⟩
  | @step index a rest t ts l h _ ih =>
    rw [stop_add_length h] at ih
    refine ih.imp (And.imp_left fun ⟨t', ht', hstart⟩ => ⟨t', List.mem_cons_of_mem _ ht', hstart⟩) ?_
    rintro ⟨rest', hahead, hmatch, hindex⟩
    refine ⟨rest', hahead, hmatch, ?_⟩
    rw [hindex, List.getLast?_cons]
    cases ts.getLast? <;> rfl

theorem exists_start_or_left (h : Cuts rules index ahead ts l) {position : ℕ}
    (hposition : position = index ∨ ∃ t ∈ ts, position = t.stop) :
    (∃ t ∈ ts, t.start = position) ∨ l.index = position := by
  induction h with
  | stuck => exact .inr (by simpa [eq_comm] using hposition)
  | @finish index t h =>
    obtain ⟨rfl, hlexeme, -⟩ := token_of_firstMatch h
    have hstop : t.stop = t.start := by
      rw [Token.stop, List.prefix_nil.mp hlexeme]
      rfl
    exact .inl ⟨t, List.mem_singleton_self t, by simpa [hstop, eq_comm] using hposition⟩
  | step h _ ih =>
    obtain rfl | ⟨t', ht', rfl⟩ := hposition
    · exact .inl ⟨_, List.mem_cons_self, (token_of_firstMatch h).1⟩
    · have hrest := ih <| (List.mem_cons.mp ht').imp (congrArg Token.stop) fun hmem => ⟨t', hmem, rfl⟩
      refine hrest.imp_left ?_
      rintro ⟨t, ht, hstart⟩
      exact ⟨t, List.mem_cons_of_mem _ ht, hstart⟩

theorem firstMatch_start (h : Cuts rules index ahead ts l) (hahead : items.drop index = ahead)
    (hindex : index ≤ items.length) :
    ∀ t ∈ ts, t.start ≤ items.length ∧
      firstMatch t.start (items.drop t.start) rules = .ok (some t) := by
  induction h with
  | stuck => nofun
  | finish h =>
    obtain ⟨rfl, -⟩ := token_of_firstMatch h
    exact List.forall_mem_singleton.mpr ⟨hindex, hahead ▸ h⟩
  | step h _ ih =>
    obtain ⟨hstop, hdrop⟩ := drop_stop_of_firstMatch h hahead hindex
    obtain ⟨rfl, -⟩ := token_of_firstMatch h
    exact List.forall_mem_cons.mpr ⟨⟨hindex, hahead ▸ h⟩, ih hdrop hstop⟩

/-- **Cut tokens tile the items.** -/
theorem tiles (h : Cuts rules 0 items ts l) : Tiles rules items ts l where
  start_eq := h.start_eq
  isChain := h.isChain
  start_le t ht := (h.firstMatch_start rfl (Nat.zero_le _) t ht).1
  progress := by
    intro t ht hlt
    obtain ⟨-, hmatch⟩ := h.firstMatch_start rfl (Nat.zero_le _) t ht
    obtain ⟨-, -, hpos⟩ := token_of_firstMatch hmatch
    have hne : items.drop t.start ≠ [] := by simpa using hlt
    exact ⟨Nat.lt_add_of_pos_right (hpos hne), ((h.covers rfl (Nat.zero_le _)).1 t ht).1⟩
  end_once := by simpa using h.end_once
  isSelected := by
    intro t ht
    obtain ⟨hle, hmatch⟩ := h.firstMatch_start rfl (Nat.zero_le _) t ht
    obtain ⟨before, r, after, n, hrules, hbefore, hr, heq⟩ := exists_append_of_firstMatch hmatch
    have hlexeme : t.lexeme = (items.drop t.start).take (n + 1) := congrArg Token.lexeme heq
    refine ⟨before, r, after, n, hrules, hbefore, hr, congrArg Token.kind heq, ?_, hlexeme⟩
    rw [Token.stop, hlexeme, List.length_take, List.length_drop]
    omega
  left := by
    obtain ⟨⟨t, ht, hstart⟩, -, hahead⟩ | ⟨rest, hahead, hmatch, hindex⟩ := h.left
    · exact .inl ⟨⟨t, ht, by simpa using hstart⟩, by rw [Lexer.remaining, hahead]⟩
    · obtain ⟨-, hdrop⟩ := (h.covers rfl (Nat.zero_le _)).2 rest hahead
      exact .inr ⟨hdrop ▸ accept_of_firstMatch_none hmatch, hindex,
        by rw [Lexer.remaining, hahead, hdrop]⟩

end Cuts

/-! ## The result -/

/-- **A lexer tiles its input.**  With rules that give no fault, whatever they accept, a new lexer
delivers finitely many tokens and then has no more; the tokens tile the items.  Collecting gives these
tokens without those of the ignored kinds, and leaves the lexer where they end. -/
theorem collect_tiles [BEq κ] (rules : List (Rule α κ)) (hrules : ∀ r ∈ rules, r.Safe)
    (items : List α) :
    ∃ ts l, Lexer.Delivers (.start rules items) ts l ∧ Tiles rules items ts l ∧
      Lexer.collect [] (.start rules items) = .ok ts l ∧
      ∀ ignore, Lexer.collect ignore (.start rules items) =
        .ok (ts.filter fun t => !ignore.contains t.kind) l := by
  obtain ⟨ts, l, h⟩ := exists_cuts hrules 0 items
  exact ⟨ts, l, h.delivers, h.tiles, by simpa using h.collect [], h.collect⟩

/-- Rules of which the first accepts more than there may be, and the last the end. -/
def boundless : List (Rule ℕ String) :=
  [⟨fun items => .ok (if items.head? = some 0 then 5 else 0), "zero"⟩,
    ⟨fun items => .ok (if items.isEmpty then 0 else 1), "other"⟩,
    ⟨fun items => .ok (if items.isEmpty then 1 else 0), "end"⟩]

/-- A match that is too long ends with the items, and the end is a token behind it. -/
theorem collect_tiles_boundless :
    (∀ r ∈ boundless, r.Safe) ∧
      ∃ l, Tiles boundless [7, 0, 8] [⟨"other", 0, [7]⟩, ⟨"zero", 1, [0, 8]⟩, ⟨"end", 3, []⟩] l ∧
        Lexer.collect ["other"] (.start boundless [7, 0, 8]) =
          .ok [⟨"zero", 1, [0, 8]⟩, ⟨"end", 3, []⟩] l := by
  have hsafe : ∀ r ∈ boundless, r.Safe := by
    simp [boundless, Rule.Safe]
  obtain ⟨ts, l, -, htiles, hall, hignore⟩ := collect_tiles boundless hsafe [7, 0, 8]
  have hts : Lexer.collect [] (.start boundless [7, 0, 8]) =
      .ok [⟨"other", 0, [7]⟩, ⟨"zero", 1, [0, 8]⟩, ⟨"end", 3, []⟩] ⟨boundless, 4, none, none⟩ := rfl
  obtain ⟨rfl, rfl⟩ := EStateM.Result.ok.inj (hts.symm.trans hall)
  exact ⟨hsafe, _, htiles, hignore ["other"]⟩

end StackCircuit.Lexical
