import StackCircuit.Proofs.Assembly.RoundTrip

/-!
# Branch targets

The position of a label is patched into an operand of 256 bits, and a jump reads the lowest 16 of them.

* `position_of_eq_append`: the position of a label is the number of instructions before it.
* `getElem?_instructions`: where the code has the instruction of an item.
* `target_ofNat_eq_iff`: the positions that fit into 16 bits.
* `Declares`: the declarations that a file spells.
* `Item.chars`, **`lexes_items`**: the text of a body, and what the lexer finds there.
* `paddedFile`: a file with a jump over any number of instructions.
* **`target_eq_iff_of_assemble`**: jumps go to their labels, unless these are at position 65536.
-/

namespace StackCircuit.Assembly

open Bytecode (Function Instruction Opcode Program)
open Source (File)

variable {items before after front back : List Item} {name : String} {opcode : Opcode}

/-! ## Positions -/

theorem position_of_eq_append (hitems : items = front ++ .label name :: back)
    (hnodup : (declared items).Nodup) :
    .label name ∉ front ++ back ∧ position items name = front.countP Item.isInstruction := by
  rw [List.append_cons] at hitems
  have hdeclared : declared items = declared front ++ name :: declared back := by
    rw [hitems, declared, List.filterMap_append, ← declared, ← declared, declared_append_label,
      List.append_assoc]
    rfl
  obtain ⟨hfront, hback⟩ : name ∉ declared front ∧ name ∉ declared back := by
    rw [hdeclared, List.nodup_append', List.nodup_cons] at hnodup
    exact ⟨fun hmem => hnodup.2.2 hmem List.mem_cons_self, hnodup.2.1.1⟩
  constructor
  · rw [List.mem_append, ← mem_declared, ← mem_declared]
    exact not_or.mpr ⟨hfront, hback⟩
  · have hmem : name ∈ declared (front ++ [.label name]) := by
      rw [declared_append_label]
      exact List.mem_append_right _ (List.mem_singleton_self _)
    rw [hitems, position_append hmem, position_label hfront]

theorem getElem?_instructions {target : Opcode → String → ℕ} {i : Item} {instruction : Instruction}
    (hi : i.instruction? target = some instruction) :
    (instructions target (before ++ i :: after))[before.countP Item.isInstruction]? =
      some instruction := by
  have hsplit : instructions target (before ++ i :: after) =
      instructions target before ++ instruction :: instructions target after := by
    rw [instructions, List.filterMap_append, List.filterMap_cons_some hi]
    rfl
  rw [hsplit, ← length_instructions target before, List.getElem?_append_right (Nat.le_refl _),
    Nat.sub_self, List.getElem?_cons_zero]

theorem target_ofNat_eq_iff {n : ℕ} (h : n ≤ 65536) :
    (Instruction.ofNat opcode n).target.toNat = n ↔ n ≠ 65536 := by
  have htarget : (Instruction.ofNat opcode n).target.toNat = n % 65536 := by
    rw [Instruction.target, Instruction.ofNat, UInt16.toNat_ofNat', BitVec.toNat_ofNat]
    omega
  omega

/-! ## Jumps -/

section

variable {x : Declaration} {functions : List String}

theorem size_code (hle : x.params.length ≤ x.localCount) :
    (x.function functions hle).code.size = x.items.countP Item.isInstruction :=
  length_instructions _ _

theorem Declaration.WellFormed.exists_label (h : x.WellFormed functions)
    (hle : x.params.length ≤ x.localCount)
    (hitems : x.items = before ++ .reference opcode name :: after) (hjump : opcode.isJump) :
    ∃ front back, x.items = front ++ .label name :: back ∧ .label name ∉ front ++ back ∧
      (x.function functions hle).code[before.countP Item.isInstruction]? =
        some (.ofNat opcode (front.countP Item.isInstruction)) := by
  have hreference : .reference opcode name ∈ x.items :=
    hitems ▸ List.mem_append_right _ List.mem_cons_self
  obtain ⟨front, back, hlabel⟩ :=
    List.append_of_mem (mem_declared.mp (h.jumps_declared opcode name hreference hjump))
  obtain ⟨honce, hposition⟩ := position_of_eq_append hlabel h.labels_nodup
  refine ⟨front, back, hlabel, honce, ?_⟩
  have hcall : opcode ≠ .call := by
    rintro rfl
    cases hjump
  rw [Declaration.function, List.getElem?_toArray]
  -- The position of the label is about the same items, so they are split on the left only.
  conv_lhs => rw [hitems]
  refine getElem?_instructions ?_
  rw [Item.instruction?, Declaration.target, if_neg hcall, hposition]

end

/-! ## Files -/

variable {file : File} {p : Program} {xs : List Declaration}

/-- The tokens of a file are a sentence of well-formed declarations. -/
structure Declares (file : File) (xs : List Declaration) : Prop where
  wellFormed : WellFormed xs
  spelled : ∃ ts, tokens file.contents = .ok ts ∧ ts.map Token.terminal = sentence xs

theorem Declares.assemble_eq (h : Declares file xs) :
    assemble file = .ok (program xs h.wellFormed) := by
  obtain ⟨ts, htokens, hts⟩ := h.spelled
  obtain ⟨rest, hparse⟩ := parse_of_sentence (isNumber_of_tokens htokens) hts h.wellFormed
  exact assemble_eq_ok.mpr ⟨ts, rest, htokens, hparse⟩

theorem exists_declares (h : assemble file = .ok p) : ∃ xs, Declares file xs := by
  obtain ⟨ts, rest, htokens, hparse⟩ := assemble_eq_ok.mp h
  obtain ⟨xs, hts, hwf, -⟩ :=
    sentence_of_parse (isNumber_of_tokens htokens) (ended_of_tokens htokens) hparse
  exact ⟨xs, hwf, ts, htokens, hts⟩

/-! ## Texts of bodies -/

namespace Item

/-- The text of an item, with a space behind it. -/
def chars : Item → List Char
  | label name => name.toList ++ [':', ' ']
  | plain opcode => opcode.name.toList ++ [' ']
  | literal opcode lexeme => opcode.name.toList ++ ' ' :: (lexeme ++ [' '])
  | reference opcode name => opcode.name.toList ++ ' ' :: (name.toList ++ [' '])

/-- Items that can be written: names are no keywords, and numbers have figures only. -/
def IsSpelled : Item → Prop
  | label name => IsName name
  | plain opcode => opcode ∈ Opcode.defined
  | literal opcode lexeme => opcode ∈ Opcode.defined ∧ lexeme ≠ [] ∧ lexeme.all Char.isDigit
  | reference opcode name => opcode ∈ Opcode.defined ∧ IsName name

instance : DecidablePred IsGrammatical
  | label _ => inferInstanceAs (Decidable True)
  | plain _ => inferInstanceAs (Decidable (_ ∧ _))
  | literal _ _ => inferInstanceAs (Decidable (_ ∧ _ ∧ _))
  | reference _ _ => inferInstanceAs (Decidable (_ ∨ _))

instance : DecidablePred IsSpelled
  | label name => inferInstanceAs (Decidable (IsName name))
  | plain opcode => inferInstanceAs (Decidable (opcode ∈ Opcode.defined))
  | literal _ _ => inferInstanceAs (Decidable (_ ∧ _))
  | reference _ _ => inferInstanceAs (Decidable (_ ∧ _))

end Item

variable {rest : List Char} {s : List Terminal}

theorem lexes_item (h : Lexes rest s) {i : Item} (hi : i.IsSpelled) :
    Lexes (i.chars ++ rest) (i.terminals ++ s) := by
  have hspace : Lexes (' ' :: rest) s := h.blank rfl
  cases i with
  | label name =>
    rw [Item.chars, List.append_assoc]
    exact (hspace.punctuation (by simp [grammar])).name hi rfl
  | plain opcode =>
    rw [Item.chars, List.append_assoc]
    exact hspace.name (isName_of_mem_defined opcode hi) rfl
  | literal opcode lexeme =>
    obtain ⟨hopcode, hne, hdigits⟩ := hi
    have hnumber := hspace.digits hne (List.all_eq_true.mp hdigits) rfl
    have hname := (hnumber.blank (c := ' ') rfl).name (isName_of_mem_defined opcode hopcode) rfl
    simpa [Item.chars, Item.terminals] using hname
  | reference opcode name =>
    obtain ⟨hopcode, hname⟩ := hi
    have hname := ((hspace.name hname rfl).blank (c := ' ') rfl).name
      (isName_of_mem_defined opcode hopcode) rfl
    simpa [Item.chars, Item.terminals] using hname

/-- **The lexer finds the items of a body in its text.** -/
theorem lexes_items (h : Lexes rest s) (hitems : ∀ i ∈ items, i.IsSpelled) :
    Lexes (items.flatMap Item.chars ++ rest) (items.flatMap Item.terminals ++ s) := by
  induction items with
  | nil => exact h
  | cons i items ih =>
    obtain ⟨hi, hitems⟩ := List.forall_mem_cons.mp hitems
    simpa using lexes_item (ih hitems) hi

/-! ## A padded function -/

section

variable {n : ℕ}

/-- If a parameter is true, it is set to false. -/
def paddedStart : List Item :=
  [.literal .copyLoc ['0'], .reference .brTrue "body", .plain .ret, .label "body", .plain .ldFalse,
    .literal .stLoc ['0']]

/-- Behind the start, a jump leads over `n` instructions to the end. -/
def paddedItems (n : ℕ) : List Item :=
  paddedStart ++ .reference .branch "end" :: (List.replicate n (.plain .ret) ++ [.label "end"])

/-- The declaration of a function with these items. -/
def padded (n : ℕ) : Declaration :=
  ⟨"main", [.bool], some ['0'], none, paddedItems n⟩

/-- A file with this function. -/
def paddedFile (n : ℕ) : File :=
  ⟨"padded.zkm", "fn main(bool) -> 0 \x7b".toList ++
    ' ' :: ((paddedItems n).flatMap Item.chars ++ ['\x7d'])⟩

theorem countP_paddedItems (n : ℕ) : (paddedItems n).countP Item.isInstruction = n + 6 := by
  have hstart : paddedStart.countP Item.isInstruction = 5 := rfl
  simp only [paddedItems, hstart, List.countP_append, List.countP_cons, List.countP_replicate,
    List.countP_nil, Item.isInstruction, Bool.false_eq_true, if_true, if_false]
  omega

theorem declared_paddedItems (n : ℕ) : declared (paddedItems n) = ["body", "end"] := by
  have hstart : paddedStart.filterMap Item.label? = ["body"] := rfl
  simp [paddedItems, hstart, declared, List.filterMap_cons, Item.label?]

theorem forall_mem_paddedItems {P : Item → Prop} (h : ∀ i ∈ paddedItems 1, P i) :
    ∀ i ∈ paddedItems n, P i := by
  intro i hi
  refine h i ?_
  simp only [paddedItems, List.mem_append, List.mem_cons, List.mem_replicate] at hi ⊢
  exact hi.imp_right (Or.imp_right (Or.imp_left fun hret => ⟨one_ne_zero, hret.2⟩))

theorem wellFormed_padded (hn : n + 6 ≤ 65536) : WellFormed [padded n] where
  nodup := List.nodup_singleton _
  each := by
    refine List.forall_mem_singleton.mpr ⟨?_, ?_, nofun, Nat.le_refl _, ?_, ?_, ?_, ?_, ?_⟩
    · exact (by decide : ∀ type ∈ [.bool], type ∈ knownTypes)
    · exact (by decide : ∀ lexeme ∈ some ['0'], denoted lexeme < 2 ^ 16)
    · exact forall_mem_paddedItems (by decide)
    · exact (countP_paddedItems n).trans_le hn
    · exact (declared_paddedItems n).symm ▸ by decide
    · intro opcode name hmem _
      have hname : name = "body" ∨ name = "end" := by
        simp only [padded, paddedItems, paddedStart, List.mem_append, List.mem_cons,
          List.mem_replicate, Item.reference.injEq, reduceCtorEq, List.not_mem_nil, and_false,
          false_or, or_false] at hmem
        exact hmem.imp And.right And.right
      simpa [padded, declared_paddedItems] using hname
    · intro name hmem
      simp [padded, paddedItems, paddedStart] at hmem

/-- **The file declares the function.** -/
theorem declares_padded (hn : n + 6 ≤ 65536) : Declares (paddedFile n) [padded n] where
  wellFormed := wellFormed_padded hn
  spelled := by
    have hclose : Lexes ['\x7d'] [.symbol .braceClose, .symbol .endOfFile] :=
      Lexes.finish.punctuation (by simp [grammar])
    have hitems := lexes_items hclose (forall_mem_paddedItems (n := n) (by decide))
    have hwritable : Function.Writable ⟨"main", [.bool], 1, 0, #[], by decide⟩ :=
      ⟨by decide, by decide, by decide, by decide, by decide, by decide⟩
    have hopening := lexes_opening (hitems.blank (c := ' ') rfl) hwritable
    have htext : (Function.opening ⟨"main", [.bool], 1, 0, #[], by decide⟩).toList =
        "fn main(bool) -> 0 \x7b".toList := by decide +kernel
    have hzero : (Numeral.decimal 0).toList = ['0'] := by decide +kernel
    rw [htext] at hopening
    obtain ⟨ts, htokens, hts⟩ := tokens_of_lexes hopening
    refine ⟨ts, htokens, ?_⟩
    rw [hts]
    simp [sentence, padded, Declaration.terminals, Declaration.optional, hzero]

theorem eq_append_end (n : ℕ) :
    ∃ front, paddedItems n = front ++ .label "end" :: [] ∧ .label "end" ∉ front ∧
      front.countP Item.isInstruction = n + 6 := by
  refine ⟨paddedStart ++ .reference .branch "end" :: List.replicate n (.plain .ret), ?_, ?_, ?_⟩
  · simp [paddedItems]
  · simp [paddedStart]
  · rw [← countP_paddedItems, paddedItems]
    simp [List.countP_cons, Item.isInstruction]

theorem getElem?_code_padded (functions : List String) (n : ℕ)
    (hle : (padded n).params.length ≤ (padded n).localCount) :
    ((padded n).function functions hle).code[5]? = some (.ofNat .branch (n + 6)) := by
  obtain ⟨front, hitems, -, hcount⟩ := eq_append_end n
  have hnodup : (declared (paddedItems n)).Nodup := (declared_paddedItems n).symm ▸ by decide
  have hposition := (position_of_eq_append hitems hnodup).2.trans hcount
  have hstart : 5 = paddedStart.countP Item.isInstruction := rfl
  rw [Declaration.function, List.getElem?_toArray, hstart]
  refine getElem?_instructions ?_
  rw [Item.instruction?, Declaration.target, if_neg (by decide), padded, hposition]

end

/-! ## The result -/

/-- **Jumps go to their labels, unless a label is behind the last of 65536 instructions.**  A file that
is accepted declares its functions; each jump to a label there is one in the code, at the position of the
number of instructions before it.  Its operand is the number of instructions before the only declaration
of the label, and so is its target, if and only if that number is not 65536. -/
theorem target_eq_iff_of_assemble (file : File) (p : Program) (h : assemble file = .ok p) :
    (∃ xs, Declares file xs) ∧ ∀ xs, Declares file xs →
      p.functions.toList.map Function.name = xs.map Declaration.name ∧
      ∀ (n : ℕ) (f : Function) (x : Declaration), p.functions[n]? = some f → xs[n]? = some x →
        f.code.size = x.items.countP Item.isInstruction ∧
        ∀ before opcode name after, x.items = before ++ .reference opcode name :: after →
          opcode.isJump →
          ∃ (i : Instruction) (front back : List Item),
            f.code[before.countP Item.isInstruction]? = some i ∧ i.opcode = opcode ∧
            x.items = front ++ .label name :: back ∧ .label name ∉ front ++ back ∧
            i.operand.toNat = front.countP Item.isInstruction ∧
            (i.target.toNat = front.countP Item.isInstruction ↔
              ¬ (front.countP Item.isInstruction = f.code.size ∧ f.code.size = 65536)) := by
  refine ⟨exists_declares h, fun xs hxs => ?_⟩
  obtain rfl : program xs hxs.wellFormed = p := Except.ok.inj (hxs.assemble_eq.symm.trans h)
  refine ⟨?_, fun n f x hf hx => ?_⟩
  · rw [program, List.map_pmap]
    exact List.pmap_eq_map _
  have hwf := hxs.wellFormed.each x (List.mem_of_getElem? hx)
  obtain rfl : x.function _ hwf.params_le_locals = f := by
    simpa [program, List.getElem?_pmap, hx] using hf
  refine ⟨size_code _, fun before opcode name after hitems hjump => ?_⟩
  obtain ⟨front, back, hlabel, honce, hcode⟩ :=
    hwf.exists_label hwf.params_le_locals hitems hjump
  have hfront : front.countP Item.isInstruction ≤ x.items.countP Item.isInstruction := by
    rw [hlabel, List.countP_append]
    exact Nat.le_add_right _ _
  have hsize := hwf.size_le
  refine ⟨_, front, back, hcode, rfl, hlabel, honce, ?_, ?_⟩
  · rw [Instruction.ofNat, BitVec.toNat_ofNat]
    omega
  · rw [target_ofNat_eq_iff (hfront.trans hsize), size_code]
    omega

/-- With 65535 instructions, the jump goes to its label behind all of them. -/
theorem target_eq_iff_padded :
    ∃ (p : Program) (f : Function) (i : Instruction) (front back : List Item),
      assemble (paddedFile 65529) = .ok p ∧ p.functions[0]? = some f ∧ f.code.size = 65535 ∧
        f.code[5]? = some i ∧ i.opcode = .branch ∧
        (padded 65529).items = front ++ .label "end" :: back ∧ .label "end" ∉ front ++ back ∧
        i.target.toNat = front.countP Item.isInstruction := by
  have hxs : Declares (paddedFile 65529) [padded 65529] := declares_padded (by decide)
  have hle := (hxs.wellFormed.each (padded 65529) List.mem_cons_self).params_le_locals
  obtain ⟨-, hall⟩ := target_eq_iff_of_assemble _ _ hxs.assemble_eq
  obtain ⟨hsize, hjump⟩ :=
    (hall _ hxs).2 0 ((padded 65529).function ["main"] hle) (padded 65529) rfl rfl
  replace hsize := hsize.trans (countP_paddedItems 65529)
  obtain ⟨i, front, back, hi, hopcode, hitems, honce, -, htarget⟩ :=
    hjump paddedStart .branch "end" _ rfl rfl
  exact ⟨_, _, i, front, back, hxs.assemble_eq, rfl, hsize, hi, hopcode, hitems, honce,
    htarget.mpr fun h => absurd (hsize.symm.trans h.2) (by decide)⟩

/-- **A jump past the last of 65536 instructions goes to the first.**  The assembler accepts the file,
all instructions of the function are in front of the label `end`, and the target of the jump to it is
zero. -/
theorem not_target_padded :
    Declares (paddedFile 65530) [padded 65530] ∧
      ∃ (p : Program) (f : Function) (i : Instruction) (front : List Item),
        assemble (paddedFile 65530) = .ok p ∧ p.functions[0]? = some f ∧ f.code.size = 65536 ∧
          f.code[5]? = some i ∧ i.opcode = .branch ∧
          (padded 65530).items = front ++ [.label "end"] ∧ .label "end" ∉ front ∧
          front.countP Item.isInstruction = 65536 ∧ i.target = 0 := by
  have hxs : Declares (paddedFile 65530) [padded 65530] := declares_padded (by decide)
  obtain ⟨front, hitems, honce, hcount⟩ := eq_append_end 65530
  exact ⟨hxs, _, _, _, front, hxs.assemble_eq, rfl, (size_code _).trans (countP_paddedItems 65530),
    getElem?_code_padded _ _ _, rfl, hitems, honce, hcount, by decide⟩

end StackCircuit.Assembly
