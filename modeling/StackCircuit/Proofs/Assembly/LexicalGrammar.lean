import StackCircuit.Proofs.Assembly.Spelling
import StackCircuit.Proofs.Lexical.Tiling

/-!
# The lexical grammar

Which token a text starts with, apart from the scanners that find it.

* **`IsLexeme`**: the forms of tokens, where runs are as long as they can be; `StartsToken`: texts that
  start with one of them.
* `IsLexeme.firstMatch`: a form is found where it stands; `startsToken_of_accept`: and nothing
  else is.
* `firstMatch_eq_some_iff`, `firstMatch_eq_none_iff`: what the rules find, by the forms.
* `IsStuck`: a token should start at a position, and none does.
* **`tokens_grammar`**: the lexer cuts a file into these forms, up to the first position where it is stuck.
-/

namespace StackCircuit.Assembly

open Lexical (Cuts IsRun Lexer Scanner Tiles exists_isRun firstMatch)
open Lexical.Scanner (runLength runLength_of_isRun)
open Source (File Span)

variable {index : ℕ} {c : Char} {text lexeme rest : List Char} {kind : TokenKind} {t : Token}
  {ts : List Token} {l : Lexer Char TokenKind}

/-! ## The forms of tokens -/

/-- The characters that are tokens by themselves, and the arrow. -/
def punctuation : List (List Char × TokenKind) :=
  [(['('], .parenOpen), ([')'], .parenClose), (['\x7b'], .braceOpen), (['\x7d'], .braceClose),
    ([','], .comma), ([':'], .colon), (['-', '>'], .arrow)]

/-- The text starts with the form of a hexadecimal number. -/
def StartsHex (text : List Char) : Prop :=
  ∃ c rest, text = '0' :: 'x' :: c :: rest ∧ isHexDigit c

/-- The lexical grammar: a text may start with a lexeme of a kind if `rest` is what is behind it. -/
inductive IsLexeme : TokenKind → (lexeme rest : List Char) → Prop
  | comment {body rest : List Char} (h : IsRun (· ≠ '\n') body rest) :
    IsLexeme .comment (';' :: ';' :: body) rest
  | punctuation {kind : TokenKind} {lexeme : List Char} (h : (lexeme, kind) ∈ punctuation)
    (rest : List Char) : IsLexeme kind lexeme rest
  | blank {c : Char} {cs rest : List Char} (hc : isBlank c) (h : IsRun isBlank cs rest) :
    IsLexeme .blank (c :: cs) rest
  | hexadecimal {c : Char} {cs rest : List Char} (hc : isHexDigit c)
    (h : IsRun (fun d => isHexDigit d || d == '_') cs rest) :
    IsLexeme .number ('0' :: 'x' :: c :: cs) rest
  | decimal {c : Char} {cs rest : List Char} (hc : c.isDigit)
    (h : IsRun (fun d => d.isDigit || d == '_') cs rest) (hhex : ¬ StartsHex (c :: (cs ++ rest))) :
    IsLexeme .number (c :: cs) rest
  | word {c : Char} {cs rest : List Char} (hc : isWordStart c) (h : IsRun isWord cs rest) :
    IsLexeme (wordKind (c :: cs)) (c :: cs) rest
  | endOfFile : IsLexeme .endOfFile [] []

/-- The text starts with a token. -/
def StartsToken (text : List Char) : Prop :=
  ∃ kind lexeme rest, text = lexeme ++ rest ∧ IsLexeme kind lexeme rest

/-! ## Forms are found -/

theorem accept_comment {body : List Char} (h : IsRun (· ≠ '\n') body rest) :
    Scan.comment.accept (';' :: ';' :: (body ++ rest)) = .ok (body.length + 2) := by
  have hunit : Scanner.acceptUnit [';', ';'] (';' :: ';' :: (body ++ rest)) = 2 := by
    simp [Scanner.acceptUnit]
  simp only [Scan.comment, Scanner.accept, Scanner.acceptSequence, hunit, Scanner.dropExactly?,
    h.takeWhile_eq]
  simp [Nat.add_comm]

theorem startsHex_iff :
    StartsHex text ↔ ['0', 'x'] <+: text ∧ hexLength (text.drop 2) ≠ 0 := by
  constructor
  · rintro ⟨c, rest, rfl, hc⟩
    exact ⟨List.prefix_append ['0', 'x'] _, by simp [hexLength, Scanner.runLength, hc]⟩
  · rintro ⟨⟨rest, rfl⟩, hlength⟩
    obtain _ | ⟨c, rest⟩ := rest
    · exact absurd rfl hlength
    · by_cases hc : isHexDigit c
      · exact ⟨c, rest, rfl, hc⟩
      · exact absurd (if_neg hc) hlength

/-- **Forms are found where they stand.** -/
theorem IsLexeme.firstMatch (h : IsLexeme kind lexeme rest) (index : ℕ) :
    firstMatch index (lexeme ++ rest) rules = .ok (some ⟨kind, index, lexeme⟩) := by
  cases h with
  | @comment body _ h =>
    have hgrammar : grammar = [] ++ (Scan.comment, .comment) :: grammar.drop 1 := rfl
    have hmatch : firstMatch index (';' :: ';' :: (body ++ rest)) rules =
        .ok (some ⟨.comment, index, (';' :: ';' :: (body ++ rest)).take (body.length + 2)⟩) :=
      firstMatch_of_accept hgrammar nofun (accept_comment h)
    simpa using hmatch
  | punctuation h =>
    simp only [Assembly.punctuation, List.mem_cons, Prod.mk.injEq, List.not_mem_nil, or_false] at h
    rcases h with ⟨rfl, rfl⟩ | ⟨rfl, rfl⟩ | ⟨rfl, rfl⟩ | ⟨rfl, rfl⟩ | ⟨rfl, rfl⟩ | ⟨rfl, rfl⟩ |
      ⟨rfl, rfl⟩ <;> rfl
  | blank hc h => rw [List.cons_append, firstMatch_blank index hc, h.takeWhile_eq]
  | @hexadecimal c cs _ hc h =>
    have hlength : hexLength (c :: (cs ++ rest)) = cs.length + 1 := runLength_of_isRun hc h
    have hhex : StartsHex ('0' :: 'x' :: c :: (cs ++ rest)) := ⟨c, _, rfl, hc⟩
    have haccept : Scan.number.accept ('0' :: 'x' :: c :: (cs ++ rest)) =
        .ok (cs.length + 2 + 1) := by
      rw [accept_number, if_pos (startsHex_iff.mp hhex), List.drop_succ_cons, List.drop_succ_cons,
        List.drop_zero, hlength, Nat.add_comm]
    simpa using firstMatch_number rfl haccept index
  | @decimal c cs _ hc h hhex =>
    have hlength : decimalLength (c :: (cs ++ rest)) = cs.length + 1 := runLength_of_isRun hc h
    have haccept : Scan.number.accept (c :: (cs ++ rest)) = .ok (cs.length + 1) := by
      rw [accept_number, if_neg (mt startsHex_iff.mpr hhex), hlength]
    simpa using firstMatch_number (isWord_of_isDigit hc) haccept index
  | @word c cs _ hc h =>
    have hword : IsWord (c :: cs) := And.intro hc (List.all_eq_true.mpr h.forall_mem)
    exact firstMatch_word hword h.breaks index
  | endOfFile => rfl

/-! ## Nothing else is found -/

theorem exists_cons_of_runLength {p q : Char → Bool} {n : ℕ}
    (h : runLength p q text = n + 1) : ∃ c rest, text = c :: rest ∧ p c := by
  obtain ⟨c, cs, htake, hc, -⟩ := exists_of_runLength h
  exact ⟨c, cs ++ text.drop (n + 1), by rw [← List.cons_append, ← htake, List.take_append_drop], hc⟩

namespace StartsToken

theorem comment (rest : List Char) : StartsToken (';' :: ';' :: rest) := by
  obtain ⟨body, rest, rfl, h⟩ := exists_isRun (· ≠ '\n') rest
  exact ⟨_, _, rest, rfl, .comment h⟩

theorem punctuation (h : (lexeme, kind) ∈ Assembly.punctuation) (rest : List Char) :
    StartsToken (lexeme ++ rest) :=
  ⟨kind, lexeme, rest, rfl, .punctuation h rest⟩

theorem blank (hc : isBlank c) (rest : List Char) : StartsToken (c :: rest) := by
  obtain ⟨cs, rest, rfl, h⟩ := exists_isRun isBlank rest
  exact ⟨_, _, rest, rfl, .blank hc h⟩

theorem word (hc : isWordStart c) (rest : List Char) : StartsToken (c :: rest) := by
  obtain ⟨cs, rest, rfl, h⟩ := exists_isRun isWord rest
  exact ⟨_, _, rest, rfl, .word hc h⟩

theorem hexadecimal (h : StartsHex text) : StartsToken text := by
  obtain ⟨c, rest, rfl, hc⟩ := h
  obtain ⟨cs, rest, rfl, h⟩ := exists_isRun (fun d => isHexDigit d || d == '_') rest
  exact ⟨_, _, rest, rfl, .hexadecimal hc h⟩

theorem digit (hc : c.isDigit) (rest : List Char) : StartsToken (c :: rest) := by
  by_cases hhex : StartsHex (c :: rest)
  · exact hexadecimal hhex
  · obtain ⟨cs, rest, rfl, h⟩ := exists_isRun (fun d => d.isDigit || d == '_') rest
    exact ⟨_, _, rest, rfl, .decimal hc h hhex⟩

end StartsToken

theorem prefix_of_acceptUnit {chars : List Char} {n : ℕ}
    (h : Scanner.acceptUnit chars text = n + 1) : chars <+: text := by
  rw [Scanner.acceptUnit] at h
  split at h
  case isTrue hstart => exact List.isPrefixOf_iff_prefix.mp hstart
  case isFalse => cases h

theorem prefix_of_accept_keyword {word : List Char} {rest : Scanner} {n : ℕ}
    (h : (Scanner.keyword word rest).accept text = .ok (n + 1)) : word <+: text := by
  rw [Scanner.accept] at h
  split at h
  case h_1 => cases h
  case h_2 hunit => exact prefix_of_acceptUnit hunit

theorem startsToken_of_accept_number {n : ℕ} (h : Scan.number.accept text = .ok (n + 1)) :
    StartsToken text := by
  rw [accept_number, Except.ok.injEq] at h
  split at h
  case isTrue hhex => exact .hexadecimal (startsHex_iff.mpr hhex)
  case isFalse =>
    obtain ⟨c, rest, rfl, hc⟩ := exists_cons_of_runLength h
    exact .digit hc rest

/-- **Only what starts a token is accepted.** -/
theorem startsToken_of_accept {s : Scanner} (hs : (s, kind) ∈ grammar) {n : ℕ}
    (h : s.accept text = .ok (n + 1)) : StartsToken text := by
  have hgrammar : grammar = (Scan.comment, .comment) ::
      (punctuation.map (fun e => (Scanner.unit e.1, e.2)) ++
        [(Scan.blank, .blank), (Scan.number, .number),
          (.keyword ['f', 'n'] Scan.identifierRest, .keywordFn),
          (.keyword ['l', 'o', 'c', 'a', 'l', 's'] Scan.identifierRest, .keywordLocals),
          (Scan.identifier, .identifier), (.endOfText, .endOfFile)]) := rfl
  simp only [hgrammar, List.mem_cons, List.mem_append, List.mem_map, Prod.mk.injEq, Prod.exists,
    List.not_mem_nil, or_false] at hs
  obtain ⟨rfl, -⟩ | ⟨chars, kind', hchars, rfl, -⟩ | ⟨rfl, -⟩ | ⟨rfl, -⟩ | ⟨rfl, -⟩ | ⟨rfl, -⟩ |
    ⟨rfl, -⟩ | ⟨rfl, -⟩ := hs
  · by_cases hstart : [';', ';'] <+: text
    · obtain ⟨rest, rfl⟩ := hstart
      exact .comment rest
    · simp [Scan.comment, Scanner.accept, Scanner.acceptSequence, Scanner.acceptUnit, hstart] at h
  · rw [Scanner.accept, Except.ok.injEq] at h
    obtain ⟨rest, rfl⟩ := prefix_of_acceptUnit h
    exact .punctuation hchars rest
  · rw [accept_blank, Except.ok.injEq] at h
    obtain _ | ⟨c, rest⟩ := text
    · cases h
    · by_cases hc : isBlank c
      · exact .blank hc rest
      · simp [hc] at h
  · exact startsToken_of_accept_number h
  · obtain ⟨rest, rfl⟩ := prefix_of_accept_keyword h
    exact .word rfl _
  · obtain ⟨rest, rfl⟩ := prefix_of_accept_keyword h
    exact .word rfl _
  · rw [Scan.identifier, spots_identifierStart.run spots_identifierRest, Except.ok.injEq] at h
    obtain ⟨c, rest, rfl, hc⟩ := exists_cons_of_runLength h
    exact .word hc rest
  · obtain _ | ⟨c, rest⟩ := text
    · exact ⟨.endOfFile, [], [], rfl, .endOfFile⟩
    · simp [Scanner.accept] at h

/-! ## What the rules find -/

theorem firstMatch_eq_some_iff :
    firstMatch index text rules = .ok (some t) ↔
      t.start = index ∧ ∃ rest, text = t.lexeme ++ rest ∧ IsLexeme t.kind t.lexeme rest := by
  constructor
  · intro h
    obtain ⟨s, n, hs, hn, -⟩ := exists_entry_of_firstMatch h
    obtain ⟨kind, lexeme, rest, rfl, hlexeme⟩ := startsToken_of_accept hs hn
    rw [hlexeme.firstMatch, Except.ok.injEq, Option.some.injEq] at h
    obtain rfl := h
    exact ⟨rfl, rest, rfl, hlexeme⟩
  · rintro ⟨rfl, rest, rfl, hlexeme⟩
    exact hlexeme.firstMatch t.start

theorem firstMatch_eq_none_iff : firstMatch index text rules = .ok none ↔ ¬ StartsToken text := by
  constructor
  · rintro h ⟨kind, lexeme, rest, rfl, hlexeme⟩
    have hfound := h.symm.trans (hlexeme.firstMatch index)
    cases hfound
  · intro h
    obtain ⟨_ | t, hfound⟩ := Lexical.exists_firstMatch rules_safe index text
    · exact hfound
    · obtain ⟨-, rest, heq, hlexeme⟩ := firstMatch_eq_some_iff.mp hfound
      exact absurd ⟨_, _, rest, heq, hlexeme⟩ h

/-! ## The result -/

/-- A token should start at a position, as it is the start of the text or the end of a token, but the
text that is left there does not start with one. -/
structure IsStuck (text : List Char) (ts : List Token) (position : ℕ) : Prop where
  reached : position = 0 ∨ ∃ t ∈ ts, position = t.stop
  lt_length : position < text.length
  not_startsToken : ¬ StartsToken (text.drop position)

theorem index_of_isStuck (h : Cuts rules 0 text ts l) {position : ℕ}
    (hstuck : IsStuck text ts position) : l.index = position := by
  obtain ⟨t, ht, rfl⟩ | hindex := h.exists_start_or_left hstuck.reached
  · obtain ⟨-, hmatch⟩ := h.firstMatch_start rfl (Nat.zero_le _) t ht
    obtain ⟨-, rest, heq, hlexeme⟩ := firstMatch_eq_some_iff.mp hmatch
    exact absurd ⟨_, _, rest, heq, hlexeme⟩ hstuck.not_startsToken
  · exact hindex

theorem isStuck_index_iff (h : Cuts rules 0 text ts l) :
    IsStuck text ts l.index ↔ l.remaining ≠ 0 := by
  obtain ⟨-, hindex, hahead⟩ | ⟨rest, hahead, hmatch, hindex⟩ := h.left
  · refine iff_of_false (fun hstuck => ?_) (by simp [Lexer.remaining, hahead])
    have hlt := hstuck.lt_length
    omega
  · obtain ⟨hle, hdrop⟩ := (h.covers rfl (Nat.zero_le _)).2 rest hahead
    have hremaining : l.remaining = text.length - l.index := by
      rw [Lexer.remaining, hahead, ← List.length_drop, hdrop]
    constructor
    · intro hstuck
      have hlt := hstuck.lt_length
      omega
    · intro hne
      refine ⟨?_, by omega, hdrop ▸ firstMatch_eq_none_iff.mp hmatch⟩
      cases hlast : ts.getLast? with
      | none => exact .inl (by rw [hindex, hlast]; rfl)
      | some t => exact .inr ⟨t, List.mem_of_getLast? hlast, by rw [hindex, hlast]; rfl⟩

theorem tokens_eq_error_iff (h : Cuts rules 0 text ts l) (s : Span) :
    tokens text = .error s ↔ ∃ position, IsStuck text ts position ∧
      (∀ other, IsStuck text ts other → position ≤ other) ∧
      s.start = position ∧ s.stop = text.length := by
  constructor
  · intro hs
    obtain ⟨-, hstop⟩ := stop_of_tokens_error hs
    rw [tokens_of_cuts h] at hs
    split at hs
    case isTrue => cases hs
    case isFalse hne =>
      obtain rfl := Except.error.inj hs
      exact ⟨l.index, (isStuck_index_iff h).mpr hne, fun other hother => (index_of_isStuck h hother).le,
        rfl, hstop⟩
  · rintro ⟨position, hstuck, -, hstart, hstop⟩
    obtain rfl := index_of_isStuck h hstuck
    have hne := (isStuck_index_iff h).mp hstuck
    have herror : tokens text = .error (restSpan l) := by rw [tokens_of_cuts h, if_neg hne]
    obtain ⟨-, hend⟩ := stop_of_tokens_error herror
    obtain ⟨start, stop, hle⟩ := s
    rw [herror, Except.error.injEq, restSpan, Span.mk.injEq]
    exact ⟨hstart.symm, hend.trans hstop.symm⟩

theorem tokens_eq_ok_iff (h : Cuts rules 0 text ts l) (found : List Token) :
    tokens text = .ok found ↔ (∀ position, ¬ IsStuck text ts position) ∧
      found = ts.filter fun t => !isIgnored t.kind := by
  have hstuck : (∀ position, ¬ IsStuck text ts position) ↔ l.remaining = 0 := by
    rw [← not_iff_not, not_forall_not, ← ne_eq, ← isStuck_index_iff h]
    exact ⟨fun ⟨_, hstuck⟩ => index_of_isStuck h hstuck ▸ hstuck, fun hstuck => ⟨_, hstuck⟩⟩
  rw [hstuck, tokens_of_cuts h]
  split
  case isTrue hl => simp [hl, eq_comm]
  case isFalse hl => simp [hl]

/-- **The lexer implements the lexical grammar.**  It cuts a file into tokens side by side, each of the
form of its kind where it starts.  If it is stuck nowhere, the tokens but blanks and comments are
delivered; and it fails if and only if it is stuck, with the stretch from the first such position to the
end of the file for the only error. -/
theorem tokens_grammar (file : File) :
    ∃ ts l, Lexer.collect [] (.start rules file.contents) = .ok ts l ∧
      Tiles rules file.contents ts l ∧
      (∀ t ∈ ts, ∃ rest, file.contents.drop t.start = t.lexeme ++ rest ∧
        IsLexeme t.kind t.lexeme rest) ∧
      (∀ found, tokens file.contents = .ok found ↔
        (∀ position, ¬ IsStuck file.contents ts position) ∧
          found = ts.filter fun t => !isIgnored t.kind) ∧
      (∀ s, tokens file.contents = .error s ↔ ∃ position, IsStuck file.contents ts position ∧
        (∀ other, IsStuck file.contents ts other → position ≤ other) ∧
        s.start = position ∧ s.stop = file.contents.length) ∧
      ∀ s, tokens file.contents = .error s →
        assemble file = .error ⟨file, s, Problem.unknownText.text⟩ := by
  obtain ⟨ts, l, h⟩ := Lexical.exists_cuts rules_safe 0 file.contents
  refine ⟨ts, l, by simpa using h.collect [], h.tiles, fun t ht => ?_, tokens_eq_ok_iff h,
    tokens_eq_error_iff h, fun s hs => by rw [assemble, hs]; rfl⟩
  obtain ⟨-, hmatch⟩ := h.firstMatch_start rfl (Nat.zero_le _) t ht
  obtain ⟨-, hlexeme⟩ := firstMatch_eq_some_iff.mp hmatch
  exact hlexeme

end StackCircuit.Assembly
