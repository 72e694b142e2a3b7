import StackCircuit.Proofs.Assembly.Declarations
import StackCircuit.Proofs.Assembly.Total

/-!
# The assembler and the grammar

* `Shown`: what drafts say about the declarations read so far; **`shown_of_functions`**,
  **`functions_of_spells`**: the loop over functions reads exactly lists of declarations.
* `Shown.link_eq_ok`: the calls of a file are linked if and only if all functions called are declared.
* `parse_of_sentence`: sentences of well-formed declarations are parsed.
* **`assemble_eq_ok_iff`**: the assembler accepts exactly the texts whose tokens are such sentences, and
  gives the programs they mean.
-/

namespace StackCircuit.Assembly

open Bytecode (Function Program)
open Source (File)

variable {t : Token} {ts rest : List Token} {drafts : Array Draft} {xs : List Declaration}

/-! ## Functions -/

/-- Drafts show declarations of functions with different names, each well-formed in some file. -/
structure Shown (drafts : Array Draft) (xs : List Declaration) : Prop where
  shows : List.Forall₂ Draft.Shows drafts.toList xs
  nodup : (xs.map Declaration.name).Nodup
  each : ∀ x ∈ xs, ∃ functions, x.WellFormed functions

namespace Shown

theorem empty : Shown #[] [] :=
  ⟨.nil, List.nodup_nil, nofun⟩

theorem names_eq (h : Shown drafts xs) : names drafts = xs.map Declaration.name := by
  obtain ⟨hshows, -, -⟩ := h
  rw [names]
  generalize drafts.toList = ds at hshows ⊢
  induction hshows with
  | nil => rfl
  | cons hd _ ih => rw [List.map_cons, List.map_cons, hd.name_eq, ih]

theorem push (h : Shown drafts xs) {d : Draft} {x : Declaration} {functions : List String}
    (hd : d.Shows x) (hnew : x.name ∉ names drafts) (hx : x.WellFormed functions) :
    Shown (drafts.push d) (xs ++ [x]) where
  shows := by
    rw [Array.toList_push]
    exact List.rel_append h.shows (.cons hd .nil)
  nodup := by
    rw [List.map_append]
    exact List.nodup_append'.mpr
      ⟨h.nodup, List.nodup_singleton _, by simpa [h.names_eq] using hnew⟩
  each := by
    intro y hy
    obtain hy | hy := List.mem_append.mp hy
    · exact h.each y hy
    · obtain rfl := List.mem_singleton.mp hy
      exact ⟨functions, hx⟩

end Shown

theorem spells_sentence_cons {x : Declaration} :
    Spells (sentence (x :: xs)) ts rest ↔
      ∃ t after mid, ts = t :: after ∧ t.kind = .keywordFn ∧ Spells x.terminals after mid ∧
        Spells (sentence xs) mid rest := by
  have hsentence : sentence (x :: xs) = .symbol .keywordFn :: (x.terminals ++ sentence xs) := by
    simp [sentence]
  simp only [hsentence, spells_cons, spells_append, terminal_eq_symbol]
  constructor
  · rintro ⟨t, after, rfl, ⟨ht, -⟩, mid, hx, hxs⟩
    exact ⟨t, after, mid, rfl, ht, hx, hxs⟩
  · rintro ⟨t, after, mid, rfl, ht, hx, hxs⟩
    exact ⟨t, after, rfl, ⟨ht, by decide, by decide⟩, mid, hx, hxs⟩

/-- **What the loop over functions reads is a list of declarations.** -/
theorem shown_of_functions {fuel : ℕ} {drafts' : Array Draft} (h : Shown drafts xs)
    (hnumbered : Numbered ts) (hok : functions fuel drafts ts = .ok drafts' rest) :
    ∃ more, Spells (sentence more) ts rest.tail ∧ Shown drafts' (xs ++ more) := by
  induction fuel generalizing drafts xs ts with
  | zero => cases hok
  | succ fuel ih =>
    obtain _ | ⟨t, after⟩ := ts
    · cases hok
    rw [functions] at hok
    split at hok
    case isTrue hend =>
      cases hok
      refine ⟨[], spells_cons.mpr ⟨t, after, rfl, ?_, spells_nil.mpr rfl⟩, by simpa using h⟩
      exact terminal_eq_symbol.mpr ⟨hend, by decide, by decide⟩
    case isFalse =>
      split at hok
      case isTrue => cases hok
      case isFalse hfn =>
        have ht := not_not.mp hfn
        rw [function_cons drafts ht] at hok
        split at hok
        case h_1 => cases hok
        case h_2 d mid hd =>
          obtain ⟨x, hx, hshows, hnew, functions, hwf⟩ := shows_of_declaration hnumbered.tail hd
          obtain ⟨more, hmore, hshown⟩ :=
            ih (h.push hshows hnew hwf) (hnumbered.tail.of_spells hx) hok
          exact ⟨x :: more, spells_sentence_cons.mpr ⟨t, after, mid, rfl, ht, hx, hmore⟩,
            by simpa using hshown⟩

/-- **And every list of declarations is read.** -/
theorem functions_of_spells {fuel : ℕ} {more : List Declaration} {functions : List String}
    (h : Shown drafts xs) (hnumbered : Numbered ts) (hspells : Spells (sentence more) ts rest)
    (hnodup : ((xs ++ more).map Declaration.name).Nodup)
    (hmore : ∀ x ∈ more, x.WellFormed functions) (hfuel : ts.length ≤ fuel) :
    ∃ drafts' rest', Assembly.functions fuel drafts ts = .ok drafts' rest' ∧
      Shown drafts' (xs ++ more) := by
  induction more generalizing fuel drafts xs ts with
  | nil =>
    obtain ⟨t, after, rfl, ht, -⟩ := spells_cons.mp hspells
    obtain _ | fuel := fuel
    · exact absurd hfuel (Nat.not_succ_le_zero _)
    exact ⟨drafts, t :: after, if_pos (terminal_eq_symbol.mp ht).1, by simpa using h⟩
  | cons x more ih =>
    obtain ⟨t, after, mid, rfl, ht, hx, hrest⟩ := spells_sentence_cons.mp hspells
    obtain _ | fuel := fuel
    · exact absurd hfuel (Nat.not_succ_le_zero _)
    obtain ⟨hwf, hmore⟩ := List.forall_mem_cons.mp hmore
    have hnew : x.name ∉ names drafts := by
      rw [h.names_eq]
      rw [List.map_append, List.map_cons] at hnodup
      exact fun hmem => (List.nodup_append'.mp hnodup).2.2 hmem List.mem_cons_self
    obtain ⟨d, hd, hshows⟩ := declaration_of_spells hnumbered.tail hx hnew hwf
    have hmid : mid.length ≤ fuel := by
      obtain ⟨used, rfl, -⟩ := hx
      rw [List.length_cons, List.length_append] at hfuel
      omega
    rw [Assembly.functions, if_neg (by simp [ht]), if_neg (by simp [ht]), function_cons drafts ht, hd]
    have hassoc : xs ++ x :: more = xs ++ [x] ++ more := by simp
    rw [hassoc] at hnodup ⊢
    exact ih (h.push hshows hnew hwf) (hnumbered.tail.of_spells hx) hrest hnodup hmore hmid

/-! ## Linking -/

theorem mapM_link_eq_ok {ds : List Draft} (h : List.Forall₂ Draft.Shows ds xs)
    (hgrammatical : ∀ x ∈ xs, ∀ i ∈ x.items, i.IsGrammatical)
    (hparams : ∀ x ∈ xs, x.params.length ≤ x.localCount) (drafts : Array Draft) (fs : List Function) :
    ds.mapM (Draft.link drafts) = .ok fs ↔
      (∀ x ∈ xs, ∀ name, .reference .call name ∈ x.items → name ∈ names drafts) ∧
        fs = xs.pmap (fun x hx => x.function (names drafts) hx) hparams := by
  induction h generalizing fs with
  | nil => simp [pure, Except.pure, eq_comm]
  | cons hd _ ih =>
    obtain ⟨hi, hgrammatical⟩ := List.forall_mem_cons.mp hgrammatical
    obtain ⟨hle, hparams⟩ := List.forall_mem_cons.mp hparams
    rw [List.mapM_cons, List.forall_mem_cons]
    constructor
    · intro hfs
      cases hf : Draft.link drafts _ with
      | error c =>
        rw [hf] at hfs
        cases hfs
      | ok f =>
        rw [hf] at hfs
        cases hmore : List.mapM (Draft.link drafts) _ with
        | error c =>
          rw [hmore] at hfs
          cases hfs
        | ok fs' =>
          rw [hmore] at hfs
          obtain ⟨hcalls, rfl⟩ := (hd.link_eq_ok hi hle drafts).mp hf
          obtain ⟨hdeclared, rfl⟩ := (ih hgrammatical hparams fs').mp hmore
          exact ⟨⟨hcalls, hdeclared⟩, (Except.ok.inj hfs).symm⟩
    · rintro ⟨⟨hcalls, hmore⟩, rfl⟩
      rw [(hd.link_eq_ok hi hle drafts).mpr ⟨hcalls, rfl⟩,
        (ih hgrammatical hparams _).mpr ⟨hmore, rfl⟩]
      rfl

/-- **Calls are linked if and only if all functions called are declared.** -/
theorem Shown.link_eq_ok {p : Program} (h : Shown drafts xs) :
    link drafts = .ok p ↔ ∃ h : WellFormed xs, p = program xs h := by
  have hgrammatical : ∀ x ∈ xs, ∀ i ∈ x.items, i.IsGrammatical := fun x hx =>
    have ⟨_, hwf⟩ := h.each x hx
    hwf.grammatical
  have hparams : ∀ x ∈ xs, x.params.length ≤ x.localCount := fun x hx =>
    have ⟨_, hwf⟩ := h.each x hx
    hwf.params_le_locals
  have hlist := mapM_link_eq_ok h.shows hgrammatical hparams drafts
  rw [link, Array.mapM_eq_mapM_toList]
  constructor
  · intro hp
    cases hfs : drafts.toList.mapM (Draft.link drafts) with
    | error c =>
      rw [hfs] at hp
      cases hp
    | ok fs =>
      rw [hfs] at hp
      obtain ⟨hcalls, rfl⟩ := (hlist fs).mp hfs
      have hwf : ∀ x ∈ xs, x.WellFormed (xs.map Declaration.name) := fun x hx =>
        have ⟨_, hwf⟩ := h.each x hx
        hwf.move (h.names_eq ▸ hcalls x hx)
      refine ⟨⟨h.nodup, hwf⟩, ?_⟩
      rw [program, ← h.names_eq]
      exact (Except.ok.inj hp).symm
  · rintro ⟨hwf, rfl⟩
    have hcalls : ∀ x ∈ xs, ∀ name, .reference .call name ∈ x.items → name ∈ names drafts :=
      fun x hx => h.names_eq ▸ (hwf.each x hx).calls_declared
    rw [(hlist _).mpr ⟨hcalls, rfl⟩, program, ← h.names_eq]
    rfl

/-! ## Files -/

theorem parse_eq_ok {p : Program} :
    parse ts = .ok p rest ↔
      ∃ drafts, functions ts.length #[] ts = .ok drafts rest ∧ link drafts = .ok p := by
  have hget {p : Array Draft → Parser Program} :
      ((get : Parser (List Token)) >>= fun tokens => functions tokens.length #[] >>= p) ts =
        (functions ts.length #[] >>= p) ts := rfl
  rw [parse, hget, Parser.bind_eq_ok]
  simp only [Parser.ofExcept_eq_ok]
  constructor
  · rintro ⟨drafts, _, hfunctions, hlink, rfl⟩
    exact ⟨drafts, hfunctions, hlink⟩
  · rintro ⟨drafts, hfunctions, hlink⟩
    exact ⟨drafts, rest, hfunctions, hlink, rfl⟩

/-- **Sentences of well-formed declarations are parsed.** -/
theorem parse_of_sentence (hnumbered : Numbered ts) (hts : ts.map Token.terminal = sentence xs)
    (h : WellFormed xs) : ∃ rest, parse ts = .ok (program xs h) rest := by
  have hspells : Spells (sentence xs) ts [] := ⟨ts, (List.append_nil _).symm, hts⟩
  obtain ⟨drafts, rest, hfunctions, hshown⟩ :=
    functions_of_spells Shown.empty hnumbered hspells h.nodup h.each (Nat.le_refl _)
  exact ⟨rest, parse_eq_ok.mpr ⟨drafts, hfunctions, hshown.link_eq_ok.mpr ⟨h, rfl⟩⟩⟩

theorem eq_nil_of_spells_sentence (h : Ended ts) (hspells : Spells (sentence xs) ts rest) :
    rest = [] := by
  obtain ⟨_, ⟨used, rfl, -⟩, hend⟩ := spells_append.mp hspells
  obtain ⟨t, after, rfl, ht, hrest⟩ := spells_cons.mp hend
  obtain rfl := spells_nil.mp hrest
  obtain ⟨before, last, heq, -, hbefore⟩ := h
  obtain rfl | ⟨middle, last', rfl⟩ := List.eq_nil_or_concat after
  · rfl
  · have hsplit : (used ++ t :: middle) ++ [last'] = before ++ [last] := by simpa using heq
    have hmem : t ∈ before := by simp [← (List.append_inj' hsplit rfl).1]
    exact absurd (terminal_eq_symbol.mp ht).1 (hbefore t hmem)

theorem sentence_of_parse (hnumbered : Numbered ts) (hended : Ended ts) {p : Program}
    (h : parse ts = .ok p rest) :
    ∃ xs, ts.map Token.terminal = sentence xs ∧ ∃ h : WellFormed xs, p = program xs h := by
  obtain ⟨drafts, hfunctions, hlink⟩ := parse_eq_ok.mp h
  obtain ⟨xs, hspells, hshown⟩ := shown_of_functions Shown.empty hnumbered hfunctions
  rw [List.nil_append] at hshown
  rw [eq_nil_of_spells_sentence hended hspells] at hspells
  obtain ⟨used, hused, hterminals⟩ := hspells
  rw [List.append_nil] at hused
  exact ⟨xs, hused ▸ hterminals, hshown.link_eq_ok.mp hlink⟩

theorem assemble_eq_ok {file : File} {p : Program} :
    assemble file = .ok p ↔ ∃ ts rest, tokens file.contents = .ok ts ∧ parse ts = .ok p rest := by
  rw [assemble]
  cases tokens file.contents with
  | error s => simp
  | ok ts =>
    cases hparse : parse ts with
    | error c rest => simp [hparse]
    | ok p' rest => simp [hparse]

/-- **The assembler accepts exactly its grammar.**  There is a program if and only if the tokens of the
text are a sentence of well-formed declarations, and then it is what these mean. -/
theorem assemble_eq_ok_iff (file : File) (p : Program) :
    assemble file = .ok p ↔
      ∃ ts xs, tokens file.contents = .ok ts ∧ ts.map Token.terminal = sentence xs ∧
        ∃ h : WellFormed xs, p = program xs h := by
  rw [assemble_eq_ok]
  constructor
  · rintro ⟨ts, rest, htokens, hparse⟩
    obtain ⟨xs, hsentence, hp⟩ :=
      sentence_of_parse (isNumber_of_tokens htokens) (ended_of_tokens htokens) hparse
    exact ⟨ts, xs, htokens, hsentence, hp⟩
  · rintro ⟨ts, xs, htokens, hsentence, h, rfl⟩
    obtain ⟨rest, hparse⟩ := parse_of_sentence (isNumber_of_tokens htokens) hsentence h
    exact ⟨ts, rest, htokens, hparse⟩

end StackCircuit.Assembly
