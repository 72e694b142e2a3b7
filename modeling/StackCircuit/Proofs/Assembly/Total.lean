import Mathlib.Logic.Basic
import StackCircuit.Proofs.Assembly.Parsers
import StackCircuit.Proofs.Assembly.Tokens

/-!
# The assembler is total

Parsers look one token ahead without asking whether there is one.  The last token ends the file and
is never consumed, so there always is.

* `Complaint.Concerns`: a complaint about a token of the file, and not a fault.
* **`Parser.Keeps`**: from tokens that end, a parser comes to tokens that end, with a value or a
  complaint; one lemma for each parser.
* `Reference.Fits`, `Drafted`: what is patched later is there.
* **`assemble_total`**: a file gives a program or one error within it.
-/

namespace StackCircuit

/-- The span lies within the file. -/
def Source.Span.Within (s : Source.Span) (file : Source.File) : Prop :=
  0 ≤ s.start ∧ s.start ≤ s.stop ∧ s.stop ≤ file.contents.length

namespace Assembly

open Bytecode (Function Instruction Opcode Program)
open Source (File Span SyntaxError)

variable {α β : Type} {file ts ts' rest : List Token} {t : Token}

/-- The complaint is about a token of the file, and not a fault. -/
def Complaint.Concerns (file : List Token) (c : Complaint) : Prop :=
  (∃ t ∈ file, c.place = some t.span) ∧ ∀ cause, c.problem ≠ .fault cause

theorem Token.complain_concerns (ht : t ∈ file) {problem : Problem}
    (h : ∀ cause, problem ≠ .fault cause := by simp) : (t.complain problem).Concerns file :=
  ⟨⟨t, ht, rfl⟩, h⟩

theorem Ended.tail (h : Ended (t :: ts)) {kind : TokenKind} (ht : t.kind = kind)
    (hkind : kind ≠ .endOfFile := by decide) : Ended ts :=
  (ended_cons (ht ▸ hkind)).mp h

/-! ## Parsers that keep the end -/

namespace Parser

/-- The parser has come from `ts` to tokens that end: with a value for which `P` holds, or with a
complaint. -/
def Stays (file ts : List Token) (P : α → Prop) :
    EStateM.Result Complaint (List Token) α → Prop
  | .ok a rest => P a ∧ rest <:+ ts ∧ Ended rest
  | .error c rest => c.Concerns file ∧ rest <:+ ts ∧ Ended rest

/-- From tokens at the end of the file that end, the parser comes to tokens that end. -/
def Keeps (file : List Token) (x : Parser α) (P : α → Prop) : Prop :=
  ∀ ts, ts <:+ file → Ended ts → Stays file ts P (x ts)

variable {x : Parser α} {P : α → Prop} {R : β → Prop}

theorem Stays.mono {r : EStateM.Result Complaint (List Token) α} (h : Stays file ts P r)
    (hts : ts <:+ ts') : Stays file ts' P r := by
  cases r <;> exact ⟨h.1, h.2.1.trans hts, h.2.2⟩

theorem Keeps.stays (hx : Keeps file x P) {r : EStateM.Result Complaint (List Token) α}
    (hr : x ts = r) (hts : ts <:+ file) (hended : Ended ts) : Stays file ts P r :=
  hr ▸ hx ts hts hended

theorem keeps_pure {a : α} (h : P a) : Keeps file (pure a) P :=
  fun _ _ hended => ⟨h, List.suffix_rfl, hended⟩

theorem keeps_throw {c : Complaint} (h : c.Concerns file) : Keeps file (throw c : Parser α) P :=
  fun _ _ hended => ⟨h, List.suffix_rfl, hended⟩

theorem Stays.bind {f : α → Parser β} (h : Stays file ts P (x ts))
    (hf : ∀ a, P a → Keeps file (f a) R) (hts : ts <:+ file) :
    Stays file ts R ((x >>= f) ts) := by
  simp only [Bind.bind, EStateM.bind]
  cases hx : x ts with
  | ok a rest =>
    rw [hx] at h
    obtain ⟨ha, hrest, hended⟩ := h
    exact (hf a ha rest (hrest.trans hts) hended).mono hrest
  | error c rest => rwa [hx] at h

theorem Keeps.bind {f : α → Parser β} (hx : Keeps file x P) (hf : ∀ a, P a → Keeps file (f a) R) :
    Keeps file (x >>= f) R :=
  fun ts hts hended => (hx ts hts hended).bind hf hts

theorem keeps_of_cons
    (h : ∀ t ∈ file, ∀ rest, (t :: rest) <:+ file → Ended (t :: rest) →
      Stays file (t :: rest) P (x (t :: rest))) :
    Keeps file x P := by
  intro ts hts hended
  obtain _ | ⟨t, rest⟩ := ts
  · exact absurd hended not_ended_nil
  · exact h t (hts.mem List.mem_cons_self) rest hts hended

end Parser

open StackCircuit.Assembly.Parser (Stays Keeps)

/-! ## Single tokens -/

theorem keeps_expect {kind : TokenKind} (hkind : kind ≠ .endOfFile) :
    Keeps file (expect kind) (· ∈ file) := by
  refine Parser.keeps_of_cons fun t ht rest _ hended => ?_
  by_cases h : t.kind = kind
  · rw [expect, if_pos h]
    exact ⟨ht, List.suffix_cons t rest, hended.tail h hkind⟩
  · rw [expect, if_neg h]
    exact ⟨t.complain_concerns ht, List.suffix_rfl, hended⟩

theorem keeps_accepts {kind : TokenKind} (hkind : kind ≠ .endOfFile) :
    Keeps file (accepts kind) fun _ => True := by
  refine Parser.keeps_of_cons fun t _ rest _ hended => ?_
  by_cases h : t.kind = kind
  · rw [accepts, if_pos h]
    exact ⟨trivial, List.suffix_cons t rest, hended.tail h hkind⟩
  · rw [accepts, if_neg h]
    exact ⟨trivial, List.suffix_rfl, hended⟩

theorem keeps_literal (bits : ℕ) : Keeps file (literal bits) fun _ => True := by
  refine (keeps_expect (by decide : TokenKind.number ≠ .endOfFile)).bind fun t ht => ?_
  split
  · exact Parser.keeps_throw (t.complain_concerns ht)
  · split
    · exact Parser.keeps_pure trivial
    · exact Parser.keeps_throw (t.complain_concerns ht)

theorem keeps_parameter : Keeps file parameter fun _ => True := by
  refine (keeps_expect (by decide : TokenKind.identifier ≠ .endOfFile)).bind fun t ht => ?_
  split
  · exact Parser.keeps_throw (t.complain_concerns ht)
  · exact Parser.keeps_pure trivial

/-! ## Uses of names -/

/-- The use is at one of the first `size` positions, and stands in the file. -/
def Reference.Fits (file : List Token) (size : ℕ) (r : Reference) : Prop :=
  r.position.toNat < size ∧ ∃ t ∈ file, r.place = t.span

theorem Reference.Fits.mono {size size' : ℕ} {r : Reference} (h : r.Fits file size)
    (hsize : size ≤ size') : r.Fits file size' :=
  ⟨Nat.lt_of_lt_of_le h.1 hsize, h.2⟩

theorem patchAll_of_fits (value? : String → Option UInt64) {uses : List Reference}
    {code : Array Instruction} (h : ∀ r ∈ uses, r.Fits file code.size) :
    ∃ code' missing, patchAll value? uses code = .ok (code', missing) ∧ code'.size = code.size ∧
      ∀ r ∈ missing, r ∈ uses := by
  induction uses generalizing code with
  | nil => exact ⟨code, none, rfl, rfl, nofun⟩
  | cons r rest ih =>
    obtain ⟨⟨hposition, -⟩, hrest⟩ := List.forall_mem_cons.mp h
    rw [patchAll]
    split
    · exact ⟨code, some r, rfl, rfl, by simp⟩
    · rw [if_pos hposition]
      obtain ⟨code', missing, hpatch, hsize, hmissing⟩ := ih (Array.size_modify ▸ hrest)
      exact ⟨code', missing, hpatch, by simpa using hsize,
        fun r hr => List.mem_cons_of_mem _ (hmissing r hr)⟩

/-- A function under way whose uses of names fit. -/
structure Drafted (file : List Token) (d : Draft) (l : Labels) : Prop where
  size_le : d.code.size ≤ maxInstructions
  calls : ∀ r ∈ d.calls, r.Fits file d.code.size
  jumps : ∀ r ∈ l.references, r.Fits file d.code.size
  params_le : d.params.length ≤ d.locals

namespace Drafted

variable {d : Draft} {l l' : Labels}

theorem toNat_position (h : Drafted file d l) : d.position.toNat = d.code.size :=
  UInt64.toNat_ofNat_of_lt' (Nat.lt_of_le_of_lt h.size_le (by decide))

theorem push (h : Drafted file d l) (hsize : d.code.size < maxInstructions) (i : Instruction) :
    Drafted file (d.push i) l where
  size_le := by simpa [Draft.push] using Nat.succ_le_of_lt hsize
  calls r hr := (h.calls r hr).mono (by simp [Draft.push])
  jumps r hr := (h.jumps r hr).mono (by simp [Draft.push])
  params_le := h.params_le

theorem fits_position (h : Drafted file d l) (ht : t ∈ file) (i : Instruction) :
    Reference.Fits file (d.push i).code.size ⟨d.position, t.text, t.span⟩ :=
  ⟨by simp [h.toNat_position, Draft.push], t, ht, rfl⟩

theorem pushCall (h : Drafted file d l) (hsize : d.code.size < maxInstructions) (ht : t ∈ file) :
    Drafted file (d.pushCall t) l :=
  { h.push hsize ⟨.call, 0⟩ with
    calls := fun r hr => by
      obtain hr | rfl := Array.mem_push.mp hr
      · exact (h.push hsize ⟨.call, 0⟩).calls r hr
      · exact h.fits_position ht ⟨.call, 0⟩ }

theorem note (h : Drafted file d l) (hsize : d.code.size < maxInstructions) (ht : t ∈ file)
    (i : Instruction) : Drafted file (d.push i) (l.note ⟨d.position, t.text, t.span⟩) :=
  { h.push hsize i with
    jumps := fun r hr => by
      obtain hr | rfl := Array.mem_push.mp hr
      · exact (h.push hsize i).jumps r hr
      · exact h.fits_position ht i }

theorem declare (h : Drafted file d l) {name : String} {position : UInt64}
    (hdeclare : l.declare name position = some l') : Drafted file d l' := by
  have hsame : l'.references = l.references := by
    rw [Labels.declare] at hdeclare
    split at hdeclare
    · cases hdeclare; rfl
    · split at hdeclare
      · cases hdeclare
      · cases hdeclare; rfl
  exact { h with jumps := hsame ▸ h.jumps }

end Drafted

/-! ## Functions -/

theorem keeps_parameters (types : List ValueType) :
    Keeps file (parameters types) fun _ => True := by
  intro ts hts hended
  fun_induction parameters types ts with
  | case1 => exact absurd hended not_ended_nil
  | case2 types t rest h => exact ⟨trivial, List.suffix_cons t rest, hended.tail h⟩
  | case3 types t rest _ _ c after h => exact keeps_parameter.stays h hts hended
  | case4 types t rest _ _ type after h ih =>
    obtain ⟨_, heq, ht, -⟩ := parameter_eq_ok.mp h
    obtain ⟨rfl, rfl⟩ := List.cons.inj heq
    have hrest := List.suffix_cons t rest
    exact (ih (hrest.trans hts) (hended.tail ht)).mono hrest
  | case5 types t rest =>
    exact ⟨t.complain_concerns (hts.mem List.mem_cons_self), List.suffix_rfl, hended⟩
  | case6 types t _ _ h => exact absurd (hended.tail (not_not.mp h)) not_ended_nil
  | case7 types t _ _ h t' rest c after hc =>
    have hrest := List.suffix_cons t (t' :: rest)
    exact (keeps_parameter.stays hc (hrest.trans hts) (hended.tail (not_not.mp h))).mono hrest
  | case8 types t _ _ h t' rest type after hok ih =>
    obtain ⟨_, heq, ht', -⟩ := parameter_eq_ok.mp hok
    obtain ⟨rfl, rfl⟩ := List.cons.inj heq
    have hrest := (List.suffix_cons t' rest).trans (List.suffix_cons t _)
    exact (ih (hrest.trans hts) ((hended.tail (not_not.mp h)).tail ht')).mono hrest

theorem rest_of_operand {opcode : Opcode} {d : Draft} {l : Labels} {p : Draft × Labels}
    (h : operand opcode d l (t :: ts) = .ok p rest) : rest = ts := by
  rw [operand] at h
  split at h
  · cases h; rfl
  · split at h
    · cases h; rfl
    · split at h
      · cases h
      case h_2 n tokens hn =>
        obtain ⟨_, _, heq, -⟩ := literal_eq_ok.mp hn
        cases h
        exact (List.cons.inj heq).2.symm

theorem keeps_operand {d : Draft} {l : Labels} (h : Drafted file d l)
    (hsize : d.code.size < maxInstructions) (opcode : Opcode) :
    Keeps file (operand opcode d l) fun p => Drafted file p.1 p.2 := by
  refine Parser.keeps_of_cons fun t ht rest hts hended => ?_
  have hrest := List.suffix_cons t rest
  rw [operand]
  split
  case isTrue hcall => exact ⟨h.pushCall hsize ht, hrest, hended.tail hcall.1⟩
  case isFalse =>
    split
    case isTrue hjump => exact ⟨h.note hsize ht _, hrest, hended.tail hjump.1⟩
    case isFalse =>
      have hliteral := keeps_literal opcode.operandWidth _ hts hended
      split
      case h_1 hc => rwa [hc] at hliteral
      case h_2 n tokens hn =>
        rw [hn] at hliteral
        exact ⟨h.push hsize _, hliteral.2⟩

theorem keeps_body (draft : Draft) (labels : Labels) (h : Drafted file draft labels) :
    Keeps file (body draft labels) fun p => Drafted file p.1 p.2 := by
  intro ts hts hended
  fun_induction body draft labels ts with
  | case1 => exact absurd hended not_ended_nil
  | case2 draft labels t rest hbrace =>
    exact ⟨h, List.suffix_cons t rest, hended.tail hbrace⟩
  | case3 draft labels t | case4 draft labels t =>
    exact ⟨t.complain_concerns (hts.mem List.mem_cons_self), List.suffix_rfl, hended⟩
  | case5 draft labels t _ _ hname =>
    exact absurd (hended.tail (not_not.mp hname)) not_ended_nil
  | case6 draft labels t _ _ hname next after hcolon =>
    exact ⟨t.complain_concerns (hts.mem List.mem_cons_self), List.suffix_append [t, next] after,
      (hended.tail (not_not.mp hname)).tail hcolon⟩
  | case7 draft labels t _ _ hname next after hcolon labels' hdeclare ih =>
    have hafter := List.suffix_append [t, next] after
    have hended' := (hended.tail (not_not.mp hname)).tail hcolon
    exact (ih (h.declare hdeclare) (hafter.trans hts) hended').mono hafter
  | case8 draft labels t _ _ hname next after | case9 draft labels t _ _ hname next after =>
    exact ⟨t.complain_concerns (hts.mem List.mem_cons_self), List.suffix_cons t _,
      hended.tail (not_not.mp hname)⟩
  | case10 draft labels t _ _ hname next after _ opcode _ hsize _ c tokens hc =>
    have hrest := List.suffix_cons t (next :: after)
    exact ((keeps_operand h (Nat.not_le.mp hsize) opcode).stays hc (hrest.trans hts)
      (hended.tail (not_not.mp hname))).mono hrest
  | case11 draft labels t _ _ hname next after _ opcode _ hsize _ draft' labels' tokens hok ih =>
    have hrest := List.suffix_cons t (next :: after)
    obtain ⟨hdrafted, hafter, hended'⟩ := (keeps_operand h (Nat.not_le.mp hsize) opcode).stays hok
      (hrest.trans hts) (hended.tail (not_not.mp hname))
    obtain rfl := rest_of_operand hok
    exact (ih hdrafted ((hafter.trans hrest).trans hts) hended').mono (hafter.trans hrest)
  | case12 draft labels t _ _ hname next after _ opcode _ hsize _ ih =>
    have hrest := List.suffix_cons t (next :: after)
    exact (ih (h.push (Nat.not_le.mp hsize) _) (hrest.trans hts)
      (hended.tail (not_not.mp hname))).mono hrest

theorem keeps_locals (params : ℕ) : Keeps file (locals params) (params ≤ ·) := by
  refine Parser.keeps_of_cons fun t ht rest hts hended => ?_
  have hrest := List.suffix_cons t rest
  rw [locals]
  split
  case isTrue hkind =>
    have hcount := keeps_literal 16 _ (hrest.trans hts) (hended.tail hkind)
    rw [count]
    split
    case h_1 hc => exact (hc ▸ hcount).mono hrest
    case h_2 n tokens hn =>
      rw [hn] at hcount
      obtain ⟨-, htokens, hended'⟩ := hcount
      split
      · exact ⟨t.complain_concerns ht, htokens.trans hrest, hended'⟩
      case isFalse hle => exact ⟨Nat.not_lt.mp hle, htokens.trans hrest, hended'⟩
  case isFalse => exact ⟨Nat.le_refl _, List.suffix_rfl, hended⟩

/-- A function whose calls fit. -/
structure Draft.Linkable (file : List Token) (d : Draft) : Prop where
  calls : ∀ r ∈ d.calls, r.Fits file d.code.size
  params_le : d.params.length ≤ d.locals

theorem Drafted.resolve {d : Draft} {l : Labels} (h : Drafted file d l) :
    Keeps file (MonadExcept.ofExcept (d.resolve l)) (Draft.Linkable file) := by
  obtain ⟨code, missing, hpatch, hsize, hmissing⟩ :=
    patchAll_of_fits l.position? fun r hr => h.jumps r (Array.mem_toList_iff.mp hr)
  rw [Draft.resolve, Labels.patch, hpatch]
  cases missing with
  | none =>
    exact Parser.keeps_pure ⟨fun r hr => (h.calls r hr).mono (Nat.le_of_eq hsize.symm), h.params_le⟩
  | some r =>
    obtain ⟨-, t, ht, hplace⟩ := h.jumps r (by simpa using hmissing r rfl)
    exact Parser.keeps_throw ⟨⟨t, ht, congrArg some hplace⟩, by simp⟩

theorem keeps_freshName (others : Array Draft) : Keeps file (freshName others) fun _ => True := by
  refine (keeps_expect (by decide : TokenKind.identifier ≠ .endOfFile)).bind fun t ht => ?_
  split
  · exact Parser.keeps_throw (t.complain_concerns ht)
  · exact Parser.keeps_pure trivial

theorem keeps_results : Keeps file results fun _ => True := by
  refine (keeps_accepts (by decide : TokenKind.arrow ≠ .endOfFile)).bind fun arrow _ => ?_
  split
  · exact keeps_literal 16
  · exact Parser.keeps_pure trivial

theorem keeps_declaration (others : Array Draft) :
    Keeps file (declaration others) (Draft.Linkable file) := by
  refine (keeps_freshName others).bind fun name _ => ?_
  refine (keeps_expect (by decide : TokenKind.parenOpen ≠ .endOfFile)).bind fun _ _ => ?_
  refine (keeps_parameters []).bind fun params _ => ?_
  refine keeps_results.bind fun returns _ => ?_
  refine (keeps_expect (by decide : TokenKind.braceOpen ≠ .endOfFile)).bind fun _ _ => ?_
  refine (keeps_locals params.length).bind fun locals hlocals => ?_
  have hempty : Drafted file ⟨name, params, locals, returns, #[], #[]⟩ .empty :=
    ⟨Nat.zero_le _, nofun, nofun, hlocals⟩
  exact (keeps_body _ _ hempty).bind fun (draft, labels) h => h.resolve

theorem function_cons (others : Array Draft) (ht : t.kind = .keywordFn) :
    function others (t :: rest) = declaration others rest := by
  simp [function, bind, EStateM.bind, expect, ht]

theorem keeps_functions {fuel : ℕ} {drafts : Array Draft} (h : ∀ d ∈ drafts, d.Linkable file)
    (hts : ts <:+ file) (hended : Ended ts) (hfuel : ts.length ≤ fuel) :
    Stays file ts (fun drafts => ∀ d ∈ drafts, d.Linkable file) (functions fuel drafts ts) := by
  induction fuel generalizing drafts ts with
  | zero =>
    obtain rfl := List.length_eq_zero_iff.mp (Nat.le_zero.mp hfuel)
    exact absurd hended not_ended_nil
  | succ fuel ih =>
    obtain _ | ⟨t, rest⟩ := ts
    · exact absurd hended not_ended_nil
    rw [functions]
    split
    case isTrue => exact ⟨h, List.suffix_rfl, hended⟩
    case isFalse =>
      split
      case isTrue =>
        exact ⟨t.complain_concerns (hts.mem List.mem_cons_self), List.suffix_rfl, hended⟩
      case isFalse hfn =>
        have ht := not_not.mp hfn
        have hrest := List.suffix_cons t rest
        have hstays := keeps_declaration drafts rest (hrest.trans hts) (hended.tail ht)
        rw [function_cons drafts ht]
        split
        case h_1 hc => exact (hc ▸ hstays).mono hrest
        case h_2 d tokens hd =>
          rw [hd] at hstays
          obtain ⟨hlink, htokens, hended'⟩ := hstays
          have hdrafts : ∀ d' ∈ drafts.push d, d'.Linkable file := fun d' hd' => by
            obtain hd' | rfl := Array.mem_push.mp hd'
            · exact h d' hd'
            · exact hlink
          have hlength : tokens.length ≤ fuel :=
            Nat.le_trans htokens.length_le (Nat.le_of_succ_le_succ hfuel)
          exact (ih hdrafts ((htokens.trans hrest).trans hts) hended' hlength).mono
            (htokens.trans hrest)

/-! ## Files -/

theorem Draft.Linkable.link {d : Draft} (h : d.Linkable file) (drafts : Array Draft) :
    (∃ f, d.link drafts = .ok f) ∨ ∃ c, d.link drafts = .error c ∧ c.Concerns file := by
  obtain ⟨code, missing, hpatch, -, hmissing⟩ :=
    patchAll_of_fits (fun name => (indexOf? drafts name).map (·.toUInt64))
      fun r hr => h.calls r (Array.mem_toList_iff.mp hr)
  rw [Draft.link, hpatch]
  cases missing with
  | none =>
    exact .inl ⟨⟨d.name, d.params, d.locals, d.returns, code, h.params_le⟩, by
      simp only [Function.ofParts, dif_pos h.params_le]; rfl⟩
  | some r =>
    obtain ⟨-, t, ht, hplace⟩ := h.calls r (by simpa using hmissing r rfl)
    exact .inr ⟨_, rfl, ⟨t, ht, congrArg some hplace⟩, nofun⟩

theorem keeps_link {drafts : Array Draft} (h : ∀ d ∈ drafts, d.Linkable file) :
    Keeps file (MonadExcept.ofExcept (link drafts)) fun _ => True := by
  have hlist (ds : List Draft) (hds : ∀ d ∈ ds, d.Linkable file) :
      (∃ fs, ds.mapM (Draft.link drafts) = .ok fs) ∨
        ∃ c, ds.mapM (Draft.link drafts) = .error c ∧ c.Concerns file := by
    induction ds with
    | nil => exact .inl ⟨[], rfl⟩
    | cons d ds ih =>
      obtain ⟨hd, hds⟩ := List.forall_mem_cons.mp hds
      rw [List.mapM_cons]
      obtain ⟨f, hf⟩ | ⟨c, hc, hconcerns⟩ := hd.link drafts
      · obtain ⟨fs, hfs⟩ | ⟨c, hc, hconcerns⟩ := ih hds
        · exact .inl ⟨f :: fs, by rw [hf, hfs]; rfl⟩
        · exact .inr ⟨c, by rw [hf, hc]; rfl, hconcerns⟩
      · exact .inr ⟨c, by rw [hc]; rfl, hconcerns⟩
  rw [link, Array.mapM_eq_mapM_toList]
  obtain ⟨fs, hfs⟩ | ⟨c, hc, hconcerns⟩ := hlist drafts.toList (by simpa using h)
  · rw [hfs]
    exact Parser.keeps_pure trivial
  · rw [hc]
    exact Parser.keeps_throw hconcerns

theorem stays_parse (hended : Ended file) : Stays file file (fun _ => True) (parse file) := by
  have hnone : ∀ d ∈ (#[] : Array Draft), d.Linkable file := nofun
  exact (keeps_functions hnone List.suffix_rfl hended (Nat.le_refl _)).bind
    (fun _ h => keeps_link h) List.suffix_rfl

/-- **The assembler is total.**  The lexer gives no fault.  Either no token starts somewhere, which is
the one error; or the tokens have the end of the file once, as the last of them, the parser leaves
tokens with that end, and there is a program or the one error, which is no fault.  An error lies within
the file. -/
theorem assemble_total (file : File) :
    (∃ found l, Lexical.Lexer.collect [.blank, .comment] (.start rules file.contents) =
      .ok found l) ∧
    ((∃ s, tokens file.contents = .error s ∧ s.Within file ∧
        assemble file = .error ⟨file, s, Problem.unknownText.text⟩) ∨
      ∃ ts rest, tokens file.contents = .ok ts ∧ Ended ts ∧ rest <:+ ts ∧ Ended rest ∧
        ((∃ p, parse ts = .ok p rest ∧ assemble file = .ok p) ∨
          ∃ s problem, parse ts = .error ⟨some s, problem⟩ rest ∧ s.Within file ∧
            (∀ cause, problem ≠ .fault cause) ∧
            assemble file = .error ⟨file, s, problem.text⟩)) := by
  refine ⟨?_, ?_⟩
  · obtain ⟨ts, l, hcuts⟩ := Lexical.exists_cuts rules_safe 0 file.contents
    exact ⟨_, l, hcuts.collect _⟩
  cases htokens : tokens file.contents with
  | error s =>
    obtain ⟨hstart, hstop⟩ := stop_of_tokens_error htokens
    exact .inl ⟨s, rfl, ⟨hstart, s.start_le_stop, Int.le_of_eq hstop⟩, by rw [assemble, htokens]; rfl⟩
  | ok ts =>
    have hended := ended_of_tokens htokens
    have hstays := stays_parse hended
    cases hparse : parse ts with
    | ok p rest =>
      rw [hparse] at hstays
      obtain ⟨-, hrest, hended'⟩ := hstays
      exact .inr ⟨ts, rest, rfl, hended, hrest, hended', .inl ⟨p, hparse, by
        rw [assemble, htokens]; simp only [hparse]⟩⟩
    | error c rest =>
      rw [hparse] at hstays
      obtain ⟨⟨⟨t, ht, hplace⟩, hfault⟩, hrest, hended'⟩ := hstays
      obtain ⟨hstop, -⟩ := covers_of_tokens htokens t ht
      obtain ⟨place, problem⟩ := c
      obtain rfl : place = some t.span := hplace
      refine .inr ⟨ts, rest, rfl, hended, hrest, hended', .inr ⟨t.span, problem, hparse,
        ⟨Int.natCast_nonneg _, t.span.start_le_stop, Int.ofNat_le.mpr hstop⟩, hfault, ?_⟩⟩
      rw [assemble, htokens]
      simp only [hparse]
      rfl

end Assembly

end StackCircuit
