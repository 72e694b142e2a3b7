import StackCircuit.Proofs.Assembly.Grammar

/-!
# Spelling

How to write a text so that the lexer finds the terminals that are meant.

* **`Lexes`**: a text is cut into tokens up to its end, and they have the given terminals;
  `tokens_of_lexes`: and the lexer delivers them.
* `Lexes.punctuation`, `Lexes.arrow`, `Lexes.blank`: what may stand in front of any text.
* **`Lexes.word`**, `Lexes.name`, `Lexes.number`: what may stand in front of a text that does not
  continue a word.
-/

namespace StackCircuit.Assembly

open Lexical (Cuts IsRun Scanner firstMatch)
open Lexical.Scanner (runLength spots_unit spots_any_nil)
open Numeral (IsDigit)

variable {index : ℕ} {c : Char} {w rest text : List Char} {s : List Terminal} {kind : TokenKind}

/-! ## Texts and terminals -/

/-- The terminals that a token adds to those behind it. -/
def shown (kind : TokenKind) (lexeme : List Char) : List Terminal :=
  if isIgnored kind then [] else [Token.terminal ⟨kind, 0, lexeme⟩]

/-- A text is cut into tokens up to its end, and these have the terminals. -/
inductive Lexes : List Char → List Terminal → Prop
  | finish : Lexes [] [.symbol .endOfFile]
  | step {kind : TokenKind} {lexeme rest : List Char} {s : List Terminal} (hne : lexeme ≠ [])
    (h : ∀ index, firstMatch index (lexeme ++ rest) rules = .ok (some ⟨kind, index, lexeme⟩))
    (hrest : Lexes rest s) : Lexes (lexeme ++ rest) (shown kind lexeme ++ s)

theorem Lexes.exists_cuts (h : Lexes text s) (index : ℕ) :
    ∃ ts l, Cuts rules index text ts l ∧ l.remaining = 0 ∧
      (ts.filter fun t => !isIgnored t.kind).map Token.terminal = s := by
  induction h generalizing index with
  | finish => exact ⟨_, _, .finish rfl, rfl, rfl⟩
  | @step kind lexeme rest s hne h _ ih =>
    obtain ⟨ts, l, hcuts, hl, rfl⟩ := ih (index + lexeme.length)
    obtain ⟨a, as, rfl⟩ := List.exists_cons_of_ne_nil hne
    refine ⟨⟨kind, index, a :: as⟩ :: ts, l, .step (h index) ?_, hl, ?_⟩
    · change Cuts rules _ ((a :: as ++ rest).drop (a :: as).length) ts l
      rwa [List.drop_left]
    · rw [shown]
      cases hkind : isIgnored kind
      · rw [List.filter_cons_of_pos (by simp [hkind])]
        rfl
      · rw [List.filter_cons_of_neg (by simp [hkind])]
        rfl

/-- **The lexer delivers tokens with these terminals.** -/
theorem tokens_of_lexes (h : Lexes text s) :
    ∃ ts, tokens text = .ok ts ∧ ts.map Token.terminal = s := by
  obtain ⟨ts, l, hcuts, hl, hs⟩ := h.exists_cuts 0
  exact ⟨_, by rw [tokens_of_cuts hcuts, if_pos hl], hs⟩

namespace Lexes

/-! ## Punctuation -/

theorem punctuation (h : Lexes rest s) (hc : (Scanner.unit [c], kind) ∈ grammar) :
    Lexes (c :: rest) (.symbol kind :: s) := by
  obtain ⟨hmatch, hshown⟩ :
      (∀ index, firstMatch index ([c] ++ rest) rules = .ok (some ⟨kind, index, [c]⟩)) ∧
        shown kind [c] = [.symbol kind] := by
    simp only [grammar, Scan.comment, Scan.blank, Scan.number, Scan.identifier, List.mem_cons,
      Prod.mk.injEq, reduceCtorEq, Scanner.unit.injEq, List.cons.injEq, false_and, false_or,
      List.not_mem_nil, or_false, and_true, and_false] at hc
    rcases hc with ⟨rfl, rfl⟩ | ⟨rfl, rfl⟩ | ⟨rfl, rfl⟩ | ⟨rfl, rfl⟩ | ⟨rfl, rfl⟩ | ⟨rfl, rfl⟩ <;>
      exact ⟨fun _ => rfl, rfl⟩
  have hstep := step (List.cons_ne_nil c []) hmatch h
  rwa [hshown] at hstep

theorem arrow (h : Lexes rest s) : Lexes ('-' :: '>' :: rest) (.symbol .arrow :: s) :=
  step (List.cons_ne_nil '-' ['>']) (fun _ => rfl) h

end Lexes

/-! ## Blanks -/

/-- A space, a tab or a line end. -/
def isBlank (c : Char) : Bool :=
  c == ' ' || (c == '\t' || (c == '\r' || c == '\n'))

theorem accept_blank (text : List Char) :
    Scan.blank.accept text = .ok (text.takeWhile isBlank).length := by
  have hblank := (spots_unit ' ').any_cons ((spots_unit '\t').any_cons
    ((spots_unit '\r').any_cons ((spots_unit '\n').any_cons spots_any_nil)))
  simp only [Bool.or_false] at hblank
  exact hblank.many text

theorem firstMatch_of_accept {entries later : List (Scanner × TokenKind)} {scanner : Scanner} {n : ℕ}
    (hgrammar : grammar = entries ++ (scanner, kind) :: later)
    (hentries : ∀ e ∈ entries, e.1.accept text = .ok 0)
    (haccept : scanner.accept text = .ok (n + 1)) :
    firstMatch index text rules = .ok (some ⟨kind, index, text.take (n + 1)⟩) := by
  rw [rules, hgrammar, List.map_append, List.map_cons]
  clear hgrammar
  induction entries with
  | nil => simp [firstMatch, haccept]
  | cons e entries ih =>
    obtain ⟨he, hentries⟩ := List.forall_mem_cons.mp hentries
    simpa [firstMatch, he] using ih hentries

theorem acceptUnit_of_ne {d : Char} {ds : List Char} (h : c ≠ d) :
    Scanner.acceptUnit (d :: ds) (c :: rest) = 0 := by
  simp [Scanner.acceptUnit, Ne.symm h]

theorem accept_of_mem_take (hc : c ∉ [';', '(', ')', '\x7b', '\x7d', ',', ':', '-'])
    (rest : List Char) :
    ∀ e ∈ grammar.take 8, e.1.accept (c :: rest) = .ok 0 := by
  simp only [List.mem_cons, List.not_mem_nil, or_false, not_or] at hc
  obtain ⟨h₁, h₂, h₃, h₄, h₅, h₆, h₇, h₈⟩ := hc
  simp [grammar, Scan.comment, Scanner.accept, Scanner.acceptSequence, acceptUnit_of_ne, *]

theorem firstMatch_blank (index : ℕ) (hc : isBlank c) (rest : List Char) :
    firstMatch index (c :: rest) rules = .ok (some ⟨.blank, index, c :: rest.takeWhile isBlank⟩) := by
  have hsymbol : c ∉ [';', '(', ')', '\x7b', '\x7d', ',', ':', '-'] := by
    simp only [isBlank, Bool.or_eq_true, beq_iff_eq] at hc
    rcases hc with rfl | rfl | rfl | rfl <;> decide
  have haccept : Scan.blank.accept (c :: rest) = .ok ((rest.takeWhile isBlank).length + 1) := by
    rw [accept_blank, List.takeWhile_cons_of_pos hc, List.length_cons]
  have hgrammar : grammar = grammar.take 8 ++ (Scan.blank, .blank) :: grammar.drop 9 := rfl
  rw [firstMatch_of_accept hgrammar (accept_of_mem_take hsymbol rest) haccept, List.take_succ_cons,
    ← List.prefix_iff_eq_take.mp (List.takeWhile_prefix _)]

namespace Lexes

theorem blank (h : Lexes rest s) (hc : isBlank c) : Lexes (c :: rest) s := by
  have hmatch (index : ℕ) := firstMatch_blank index hc rest
  have halone (hrest : rest.takeWhile isBlank = []) : Lexes (c :: rest) s := by
    rw [hrest] at hmatch
    exact step (List.cons_ne_nil c []) hmatch h
  cases h with
  | finish => exact halone rfl
  | @step kind lexeme rest s hne h hrest =>
    obtain ⟨a, as, rfl⟩ := List.exists_cons_of_ne_nil hne
    by_cases ha : isBlank a
    · have hfirst := (h 0).symm.trans (firstMatch_blank 0 ha (as ++ rest))
      simp only [Except.ok.injEq, Option.some.injEq, Lexical.Token.mk.injEq, true_and] at hfirst
      obtain ⟨rfl, hlexeme⟩ := hfirst
      rw [List.cons_append, List.takeWhile_cons_of_pos ha, ← hlexeme] at hmatch
      exact step (List.cons_ne_nil c (a :: as)) hmatch hrest
    · exact halone (by simp [ha])

end Lexes

/-! ## Words and numbers -/

/-- A text that does not continue a word. -/
def Breaks (text : List Char) : Prop :=
  text.head?.any isWord = false

theorem takeWhile_of_breaks {p : Char → Bool} (hp : ∀ c, p c → isWord c) (hw : ∀ c ∈ w, p c)
    (h : Breaks rest) : (w ++ rest).takeWhile p = w := by
  refine IsRun.takeWhile_eq ⟨hw, ?_⟩
  obtain _ | ⟨c, rest⟩ := rest
  · rfl
  · exact Bool.eq_false_iff.mpr fun hpc => by simp [Breaks, hp c hpc] at h

theorem accept_of_isWord (hc : isWord c) (rest : List Char) :
    ∀ e ∈ grammar.take 9, e.1.accept (c :: rest) = .ok 0 := by
  have hne {d : Char} (hd : isWord d = false) : c ≠ d := by
    rintro rfl
    simp [hd] at hc
  have hsymbol : c ∉ [';', '(', ')', '\x7b', '\x7d', ',', ':', '-'] := by
    simp only [List.mem_cons, List.not_mem_nil, or_false, not_or]
    exact ⟨hne rfl, hne rfl, hne rfl, hne rfl, hne rfl, hne rfl, hne rfl, hne rfl⟩
  have hblank : isBlank c = false := by
    simp only [isBlank, Bool.or_eq_false_iff, beq_eq_false_iff_ne]
    exact ⟨hne rfl, hne rfl, hne rfl, hne rfl⟩
  have haccept : Scan.blank.accept (c :: rest) = .ok 0 := by
    rw [accept_blank, List.takeWhile_cons_of_neg (by simp [hblank]), List.length_nil]
  have hgrammar : grammar.take 9 = grammar.take 8 ++ [(Scan.blank, .blank)] := rfl
  intro e he
  rw [hgrammar, List.mem_append, List.mem_singleton] at he
  obtain he | rfl := he
  · exact accept_of_mem_take hsymbol rest e he
  · exact haccept

theorem accept_keyword_append {word : List Char} (hword : word ≠ []) (rest : List Char) :
    (Scanner.keyword word Scan.identifierRest).accept (word ++ rest) =
      .ok (if rest.head?.any isWord then 0 else word.length) := by
  obtain ⟨a, as, rfl⟩ := List.exists_cons_of_ne_nil hword
  have hunit : Scanner.acceptUnit (a :: as) (a :: as ++ rest) = as.length + 1 :=
    if_pos (List.isPrefixOf_iff_prefix.mpr (List.prefix_append _ _))
  have hdrop : (a :: as ++ rest).drop (as.length + 1) = rest := List.drop_left
  simp only [Scanner.accept, hunit, hdrop]
  obtain _ | ⟨c, rest⟩ := rest
  · rfl
  · have hspots := spots_identifierRest (c :: rest)
    by_cases hc : isWord c <;> simp [hspots, hc]

theorem accept_keyword {word : List Char} (hne : word ≠ []) (hword : ∀ c ∈ word, isWord c)
    (hw : ∀ c ∈ w, isWord c) (h : Breaks rest) :
    (Scanner.keyword word Scan.identifierRest).accept (w ++ rest) =
      .ok (if w = word then w.length else 0) := by
  by_cases hstart : word <+: w ++ rest
  · obtain ⟨tail, htail⟩ := hstart
    have hlongest : word ++ tail.takeWhile isWord = w := by
      rw [← List.takeWhile_append_of_pos hword, htail, takeWhile_of_breaks (fun _ => id) hw h]
    rw [← htail, accept_keyword_append hne, ← hlongest]
    obtain _ | ⟨c, tail⟩ := tail
    · simp
    · by_cases hc : isWord c <;> simp [hc]
  · have hunit : Scanner.acceptUnit word (w ++ rest) = 0 :=
      if_neg (mt List.isPrefixOf_iff_prefix.mp hstart)
    have hw : w ≠ word := by
      rintro rfl
      exact hstart (List.prefix_append _ _)
    simp only [Scanner.accept, hunit, if_neg hw]

/-- A letter or an underscore, and letters, figures and underscores behind it. -/
def IsWord : List Char → Prop
  | [] => False
  | c :: cs => isWordStart c ∧ cs.all isWord

instance : DecidablePred IsWord
  | [] => inferInstanceAs (Decidable False)
  | _ :: _ => inferInstanceAs (Decidable (_ ∧ _))

/-- A word that is no keyword. -/
def IsName (name : String) : Prop :=
  IsWord name.toList ∧ name ≠ "fn" ∧ name ≠ "locals"

instance (name : String) : Decidable (IsName name) :=
  inferInstanceAs (Decidable (_ ∧ _))

theorem isWord_of_isWordStart (hc : isWordStart c) : isWord c := by
  simp only [isWordStart, isWord, Char.isAlphanum, Bool.or_eq_true] at hc ⊢
  exact hc.imp_right .inl

theorem IsWord.exists_cons (h : IsWord w) :
    ∃ c cs, w = c :: cs ∧ isWordStart c ∧ ∀ d ∈ cs, isWord d := by
  obtain _ | ⟨c, cs⟩ := w
  · exact h.elim
  · exact ⟨c, cs, rfl, h.1, List.all_eq_true.mp h.2⟩

theorem IsWord.forall_mem (h : IsWord w) : ∀ c ∈ w, isWord c := by
  obtain ⟨c, cs, rfl, hc, hcs⟩ := h.exists_cons
  exact List.forall_mem_cons.mpr ⟨isWord_of_isWordStart hc, hcs⟩

/-- The kind of a word. -/
def wordKind (w : List Char) : TokenKind :=
  if w = ['f', 'n'] then .keywordFn
  else if w = ['l', 'o', 'c', 'a', 'l', 's'] then .keywordLocals
  else .identifier

theorem accept_number_of_isWordStart (hc : isWordStart c) (text : List Char) :
    Scan.number.accept (c :: text) = .ok 0 := by
  have hdigit : c.isDigit = false := by
    rw [isWordStart, Bool.or_eq_true, beq_iff_eq] at hc
    obtain rfl | halpha := hc
    · rfl
    · have halphanum : c.isAlphanum := (Bool.or_eq_true _ _).mpr (.inl halpha)
      exact Numeral.forall_alphanum (P := fun c => c.isAlpha → c.isDigit = false)
        (by decide +kernel) halphanum halpha
  have hstart : ¬ ['0', 'x'] <+: c :: text := by
    intro h
    obtain rfl := (List.cons_prefix_cons.mp h).1
    exact absurd hdigit (by decide)
  rw [accept_number, if_neg fun h => hstart h.1, decimalLength, runLength, if_neg (by simp [hdigit])]

theorem firstMatch_word (hw : IsWord w) (h : Breaks rest) (index : ℕ) :
    firstMatch index (w ++ rest) rules = .ok (some ⟨wordKind w, index, w⟩) := by
  have hkeyword {word : List Char} (hne : word ≠ []) (hword : word.all isWord) :=
    accept_keyword hne (List.all_eq_true.mp hword) hw.forall_mem h
  have hfn := hkeyword (List.cons_ne_nil 'f' ['n']) (by decide)
  have hlocals := hkeyword (List.cons_ne_nil 'l' ['o', 'c', 'a', 'l', 's']) (by decide)
  obtain ⟨c, cs, rfl, hc, hcs⟩ := hw.exists_cons
  have hidentifier : Scan.identifier.accept (c :: cs ++ rest) = .ok (cs.length + 1) := by
    rw [Scan.identifier, spots_identifierStart.run spots_identifierRest, List.cons_append, runLength,
      if_pos hc, takeWhile_of_breaks (fun _ => id) hcs h]
  have htake : (c :: cs ++ rest).take (cs.length + 1) = c :: cs := by simp
  -- No rule before that of keywords accepts a word, and no keyword but itself.
  have hten : ∀ e ∈ grammar.take 10, e.1.accept (c :: cs ++ rest) = .ok 0 :=
    List.forall_mem_append.mpr ⟨accept_of_isWord (isWord_of_isWordStart hc) (cs ++ rest),
      List.forall_mem_singleton.mpr (accept_number_of_isWordStart hc (cs ++ rest))⟩
  rw [wordKind]
  split
  case isTrue heq =>
    rw [if_pos heq] at hfn
    have hgrammar : grammar = grammar.take 10 ++
      (.keyword ['f', 'n'] Scan.identifierRest, .keywordFn) :: grammar.drop 11 := rfl
    rw [firstMatch_of_accept hgrammar hten hfn, htake]
  case isFalse hne =>
    rw [if_neg hne] at hfn
    have heleven : ∀ e ∈ grammar.take 11, e.1.accept (c :: cs ++ rest) = .ok 0 :=
      List.forall_mem_append.mpr ⟨hten, List.forall_mem_singleton.mpr hfn⟩
    split
    case isTrue heq =>
      rw [if_pos heq] at hlocals
      have hgrammar : grammar = grammar.take 11 ++
        (.keyword ['l', 'o', 'c', 'a', 'l', 's'] Scan.identifierRest, .keywordLocals) ::
          grammar.drop 12 := rfl
      rw [firstMatch_of_accept hgrammar heleven hlocals, htake]
    case isFalse hne' =>
      rw [if_neg hne'] at hlocals
      have htwelve : ∀ e ∈ grammar.take 12, e.1.accept (c :: cs ++ rest) = .ok 0 :=
        List.forall_mem_append.mpr ⟨heleven, List.forall_mem_singleton.mpr hlocals⟩
      have hgrammar : grammar = grammar.take 12 ++
        (Scan.identifier, .identifier) :: grammar.drop 13 := rfl
      rw [firstMatch_of_accept hgrammar htwelve hidentifier, htake]

theorem isDigit_of_mem_decimal {n : ℕ} (hc : c ∈ (Numeral.decimal n).toList) : c.isDigit := by
  have h := Numeral.isDigit_of_mem_decimal hc
  exact Numeral.forall_alphanum (P := fun c => IsDigit 10 c → c.isDigit) (by decide +kernel) h.1 h

/-- **A number is denoted by its decimal text.** -/
theorem denoted_decimal (n : ℕ) : denoted (Numeral.decimal n).toList = n := by
  have hdigit {c : Char} (hc : c ∈ (Numeral.decimal n).toList) := isDigit_of_mem_decimal hc
  have hfilter : (Numeral.decimal n).toList.filter (· ≠ '_') = (Numeral.decimal n).toList :=
    List.filter_eq_self.mpr fun c hc => by simpa using ne_underscore_of_isDigit (hdigit hc)
  rw [denoted]
  · rw [hfilter, Numeral.value_decimal]
  · intro digits heq
    exact absurd (hdigit (heq ▸ List.mem_cons_of_mem _ List.mem_cons_self : 'x' ∈ _)) (by decide)

theorem isWord_of_isDigit (hc : c.isDigit) : isWord c := by
  simp [isWord, Char.isAlphanum, hc]

theorem firstMatch_number {n : ℕ} (hc : isWord c)
    (haccept : Scan.number.accept (c :: text) = .ok (n + 1)) (index : ℕ) :
    firstMatch index (c :: text) rules = .ok (some ⟨.number, index, (c :: text).take (n + 1)⟩) :=
  have hgrammar : grammar = grammar.take 9 ++ (Scan.number, .number) :: grammar.drop 10 := rfl
  firstMatch_of_accept hgrammar (accept_of_isWord hc text) haccept

theorem firstMatch_digits (hne : w ≠ []) (hw : ∀ c ∈ w, c.isDigit) (h : Breaks rest) (index : ℕ) :
    firstMatch index (w ++ rest) rules = .ok (some ⟨.number, index, w⟩) := by
  obtain ⟨c, cs, rfl⟩ := List.exists_cons_of_ne_nil hne
  obtain ⟨hc, hcs⟩ := List.forall_mem_cons.mp hw
  have hword {c : Char} (hc : c.isDigit || c == '_') : isWord c := by
    rw [isWord, Char.isAlphanum, Bool.or_eq_true, Bool.or_eq_true]
    exact (Bool.or_eq_true _ _ ▸ hc).symm.imp_right .inr
  -- An `x` behind a zero would continue the number.
  have hhex : ¬ ['0', 'x'] <+: c :: cs ++ rest := by
    intro hstart
    have hx := (List.cons_prefix_cons.mp hstart).2
    obtain _ | ⟨d, cs⟩ := cs
    · obtain ⟨tail, rfl⟩ := hx
      exact Bool.noConfusion (h : isWord 'x' = false)
    · obtain rfl := (List.cons_prefix_cons.mp hx).1
      exact absurd (hcs 'x' List.mem_cons_self) (by decide)
  have haccept : Scan.number.accept (c :: (cs ++ rest)) = .ok (cs.length + 1) := by
    rw [accept_number, if_neg fun h => hhex h.1, decimalLength, runLength, if_pos hc,
      takeWhile_of_breaks (fun _ => hword) (fun d hd => by simp [hcs d hd]) h]
  rw [List.cons_append, firstMatch_number (isWord_of_isDigit hc) haccept]
  simp

namespace Lexes

theorem word (h : Lexes rest s) (hw : IsWord w) (hrest : Breaks rest) :
    Lexes (w ++ rest) (Token.terminal ⟨wordKind w, 0, w⟩ :: s) := by
  have hshown : shown (wordKind w) w = [Token.terminal ⟨wordKind w, 0, w⟩] := by
    rw [shown, if_neg]
    rw [wordKind]
    split_ifs <;> decide
  have hne : w ≠ [] := by
    obtain ⟨c, cs, rfl, -⟩ := hw.exists_cons
    exact List.cons_ne_nil c cs
  have hstep := step hne (firstMatch_word hw hrest) h
  rwa [hshown] at hstep

theorem name (h : Lexes rest s) {name : String} (hname : IsName name) (hrest : Breaks rest) :
    Lexes (name.toList ++ rest) (.name name :: s) := by
  obtain ⟨hword, hfn, hlocals⟩ := hname
  have hfn' : name.toList ≠ ['f', 'n'] := fun h => hfn (String.toList_inj.mp h)
  have hlocals' : name.toList ≠ ['l', 'o', 'c', 'a', 'l', 's'] := fun h =>
    hlocals (String.toList_inj.mp h)
  have hlexes := h.word hword hrest
  rw [wordKind, if_neg hfn', if_neg hlocals'] at hlexes
  have hterminal : Token.terminal ⟨.identifier, 0, name.toList⟩ = .name name :=
    congrArg Terminal.name String.ofList_toList
  rwa [hterminal] at hlexes

theorem digits (h : Lexes rest s) (hne : w ≠ []) (hw : ∀ c ∈ w, c.isDigit) (hrest : Breaks rest) :
    Lexes (w ++ rest) (.number w :: s) :=
  step hne (firstMatch_digits hne hw hrest) h

theorem number (h : Lexes rest s) (n : ℕ) (hrest : Breaks rest) :
    Lexes ((Numeral.decimal n).toList ++ rest) (.number (Numeral.decimal n).toList :: s) :=
  h.digits (Numeral.decimal_ne_nil n) (fun _ hc => isDigit_of_mem_decimal hc) hrest

end Lexes

end StackCircuit.Assembly
