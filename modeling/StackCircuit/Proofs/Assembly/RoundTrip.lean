import StackCircuit.Proofs.Assembly.Files
import StackCircuit.Proofs.Assembly.Spelling

/-!
# Programs as source texts

* **`Program.source`**: a source text of a program, with the lines of its listing as instructions.
* `Function.Writable`: functions that have one.
* `Declaration.ofFunction`: what the text of a function says; `lexes_source`: the lexer finds it there.
* **`assemble_source`**: assembling the text of a program gives back the program.
-/

namespace StackCircuit

/-! ## Source texts -/

namespace Bytecode

/-- A text with spaces for opening brackets, and without closing ones. -/
def unbracket (text : List Char) : List Char :=
  (text.map fun c => if c = '(' then ' ' else c).filter (· ≠ ')')

/-- The line of an instruction: its text with a space in front of the operand, and no brackets. -/
def Instruction.line (i : Instruction) : String :=
  String.ofList (unbracket i.text.toList)

/-- The line that opens a function. -/
def Function.opening (f : Function) : String :=
  String.join ["fn ", f.name, "(", ", ".intercalate (f.params.map ValueType.name), ") -> ",
    Numeral.decimal f.returns, " \x7b"]

/-- A source text of a function, by lines. -/
def Function.source (f : Function) : String :=
  String.join ((f.opening :: ("locals " ++ Numeral.decimal f.locals) ::
    (f.code.toList.map Instruction.line ++ ["\x7d"])).map (· ++ "\n"))

/-- A source text of a program. -/
def Program.source (p : Program) : String :=
  String.join (p.functions.toList.map Function.source)

open Assembly (IsName knownTypes)

/-- An instruction that can be written: a defined operation with an operand of its width, or zero for
an operation without operand, of which the width is zero. -/
def Instruction.Writable (i : Instruction) : Prop :=
  i.opcode ∈ Opcode.defined ∧ i.operand.toNat < 2 ^ i.opcode.operandWidth

instance (i : Instruction) : Decidable i.Writable :=
  inferInstanceAs (Decidable (_ ∧ _))

/-- A function that can be written. -/
structure Function.Writable (f : Function) : Prop where
  isName : IsName f.name
  params_known : ∀ type ∈ f.params, type ∈ knownTypes
  returns_lt : f.returns < 2 ^ 16
  locals_lt : f.locals < 2 ^ 16
  size_le : f.code.size ≤ 65536
  code : ∀ i ∈ f.code, i.Writable

end Bytecode

namespace Assembly

open Bytecode (Function Instruction Opcode Program unbracket)
open Source (File)

/-! ## What the text of a function says -/

/-- The item of an instruction. -/
def Item.ofInstruction (i : Instruction) : Item :=
  if i.opcode.hasOperand then .literal i.opcode (Numeral.decimal i.operand.toNat).toList
  else .plain i.opcode

/-- The declaration of a function. -/
def Declaration.ofFunction (f : Function) : Declaration :=
  ⟨f.name, f.params, some (Numeral.decimal f.returns).toList, some (Numeral.decimal f.locals).toList,
    f.code.toList.map Item.ofInstruction⟩

variable {f : Function} {i : Instruction} {rest : List Char} {s : List Terminal}

theorem isGrammatical_ofInstruction (h : i.Writable) : (Item.ofInstruction i).IsGrammatical := by
  obtain ⟨hdefined, hlt⟩ := h
  rw [Item.ofInstruction]
  split
  case isTrue hoperand => exact ⟨hdefined, hoperand, (denoted_decimal _).symm ▸ hlt⟩
  case isFalse hoperand => exact ⟨hdefined, Bool.eq_false_iff.mpr hoperand⟩

theorem operandWidth_eq_zero {opcode : Opcode} (h : opcode.hasOperand = false) :
    opcode.operandWidth = 0 := by
  cases opcode <;> first | rfl | cases h

theorem instruction?_ofInstruction (h : i.Writable) (target : Opcode → String → ℕ) :
    (Item.ofInstruction i).instruction? target = some i := by
  obtain ⟨opcode, operand⟩ := i
  have hofNat : Instruction.ofNat opcode operand.toNat = ⟨opcode, operand⟩ := by
    simp [Instruction.ofNat]
  rw [Item.ofInstruction]
  split
  case isTrue => rw [Item.instruction?, denoted_decimal, hofNat]
  case isFalse hoperand =>
    have hlt : operand.toNat < 2 ^ opcode.operandWidth := h.2
    rw [operandWidth_eq_zero (Bool.eq_false_iff.mpr hoperand)] at hlt
    rw [Item.instruction?, ← Nat.lt_one_iff.mp hlt, hofNat]

theorem instructions_ofInstruction (target : Opcode → String → ℕ) {is : List Instruction}
    (h : ∀ i ∈ is, i.Writable) :
    instructions target (is.map Item.ofInstruction) = is := by
  rw [instructions, List.filterMap_map]
  refine (List.filterMap_congr fun i hi => ?_).trans List.filterMap_some
  exact instruction?_ofInstruction (h i hi) target

theorem declared_ofInstruction (is : List Instruction) :
    declared (is.map Item.ofInstruction) = [] := by
  rw [declared, List.filterMap_map, List.filterMap_eq_nil_iff]
  intro i _
  rw [Function.comp_apply, Item.ofInstruction]
  split <;> rfl

theorem not_mem_ofInstruction (is : List Instruction) (opcode : Opcode) (name : String) :
    .reference opcode name ∉ is.map Item.ofInstruction := by
  rw [List.mem_map]
  rintro ⟨i, -, h⟩
  rw [Item.ofInstruction] at h
  split at h <;> cases h

/-- **The declaration of a function is well-formed.** -/
theorem wellFormed_ofFunction (h : f.Writable) (functions : List String) :
    (Declaration.ofFunction f).WellFormed functions where
  params_known := h.params_known
  returns_lt := by
    rintro _ ⟨⟩
    rw [denoted_decimal]
    exact h.returns_lt
  locals_lt := by
    rintro _ ⟨⟩
    rw [denoted_decimal]
    exact h.locals_lt
  params_le_locals := by
    change f.params.length ≤ denoted _
    rw [denoted_decimal]
    exact f.params_le_locals
  grammatical := by
    intro item hitem
    obtain ⟨i, hi, rfl⟩ := List.mem_map.mp hitem
    exact isGrammatical_ofInstruction (h.code i (Array.mem_toList_iff.mp hi))
  size_le := by
    refine List.countP_le_length.trans ?_
    rw [Declaration.ofFunction, List.length_map]
    exact h.size_le
  labels_nodup := by
    rw [Declaration.ofFunction, declared_ofInstruction]
    exact List.nodup_nil
  jumps_declared := fun opcode name hname => absurd hname (not_mem_ofInstruction _ opcode name)
  calls_declared := fun name hname => absurd hname (not_mem_ofInstruction _ .call name)

/-- **The declaration of a function means the function.** -/
theorem function_ofFunction (h : f.Writable) (functions : List String)
    (hparams : (Declaration.ofFunction f).params.length ≤ (Declaration.ofFunction f).localCount) :
    (Declaration.ofFunction f).function functions hparams = f := by
  have hcode : ∀ i ∈ f.code.toList, i.Writable := fun i hi =>
    h.code i (Array.mem_toList_iff.mp hi)
  obtain ⟨name, params, locals, returns, code, hle⟩ := f
  simp only [Declaration.function, Declaration.ofFunction, Declaration.localCount,
    Declaration.returnCount, instructions_ofInstruction _ hcode, Option.map_some, Option.getD_some,
    denoted_decimal]

/-! ## What the lexer finds in the text -/

theorem isName_of_mem_defined : ∀ opcode ∈ Opcode.defined, IsName opcode.name := by
  decide

theorem isName_of_mem_knownTypes : ∀ type ∈ knownTypes, IsName type.name := by
  decide

theorem unbracket_append (w w' : List Char) : unbracket (w ++ w') = unbracket w ++ unbracket w' := by
  simp [unbracket]

theorem unbracket_of_isWord {w : List Char} (h : ∀ c ∈ w, isWord c) : unbracket w = w := by
  have hne {c d : Char} (hc : c ∈ w) (hd : isWord d = false) : c ≠ d := by
    rintro rfl
    simp [h c hc] at hd
  have hmap : w.map (fun c => if c = '(' then ' ' else c) = w :=
    (List.map_congr_left fun c hc => if_neg (hne hc rfl)).trans (List.map_id w)
  rw [unbracket, hmap, List.filter_eq_self]
  exact fun c hc => decide_eq_true (hne hc rfl)

theorem toList_line (h : i.Writable) :
    i.line.toList = i.opcode.name.toList ++
      if i.opcode.hasOperand then ' ' :: (Numeral.decimal i.operand.toNat).toList else [] := by
  have hname := unbracket_of_isWord (isName_of_mem_defined _ h.1).1.forall_mem
  have hword : ∀ c ∈ (Numeral.decimal i.operand.toNat).toList, isWord c := fun _ hc =>
    isWord_of_isDigit (isDigit_of_mem_decimal hc)
  have hoperand := unbracket_of_isWord hword
  have hopen : unbracket "(".toList = [' '] := by decide
  have hclose : unbracket ")".toList = [] := by decide
  rw [Instruction.line, String.toList_ofList, Instruction.text]
  split
  · simp only [String.toList_append, unbracket_append, hname, hopen, hoperand, hclose]
    simp
  · rw [hname, List.append_nil]

theorem lexes_line (h : Lexes rest s) (hi : i.Writable) :
    Lexes (i.line.toList ++ '\n' :: rest) ((Item.ofInstruction i).terminals ++ s) := by
  have hend : Lexes ('\n' :: rest) s := h.blank rfl
  rw [toList_line hi, Item.ofInstruction]
  split
  case isTrue =>
    rw [List.append_assoc]
    exact ((hend.number i.operand.toNat rfl).blank rfl).name (isName_of_mem_defined _ hi.1) rfl
  case isFalse =>
    rw [List.append_nil]
    exact hend.name (isName_of_mem_defined _ hi.1) rfl

theorem lexes_lines (h : Lexes rest s) {is : List Instruction} (his : ∀ i ∈ is, i.Writable) :
    Lexes (is.flatMap (fun i => i.line.toList ++ ['\n']) ++ rest)
      ((is.map Item.ofInstruction).flatMap Item.terminals ++ s) := by
  induction is with
  | nil => exact h
  | cons i is ih =>
    obtain ⟨hi, his⟩ := List.forall_mem_cons.mp his
    simpa using lexes_line (ih his) hi

/-- The text of types behind others. -/
def textBehind (types : List ValueType) : List Char :=
  types.flatMap fun type => ',' :: ' ' :: type.name.toList

theorem toList_intercalate_types (type : ValueType) (types : List ValueType) :
    (", ".intercalate ((type :: types).map ValueType.name)).toList =
      type.name.toList ++ textBehind types := by
  rw [String.toList_intercalate, List.map_map, textBehind]
  induction types generalizing type with
  | nil => simp
  | cons type' types ih =>
    have hcons := ih type'
    simp only [List.map_cons, Function.comp_apply, List.flatMap_cons] at hcons ⊢
    rw [List.intercalate_cons_cons, hcons, List.append_assoc]
    rfl

theorem breaks_textBehind (types : List ValueType) (rest : List Char) :
    Breaks (textBehind types ++ ')' :: rest) := by
  cases types <;> rfl

theorem lexes_textBehind (h : Lexes rest s) {types : List ValueType}
    (htypes : ∀ type ∈ types, type ∈ knownTypes) :
    Lexes (textBehind types ++ ')' :: rest) (behind types ++ .symbol .parenClose :: s) := by
  induction types with
  | nil => exact h.punctuation (by simp [grammar])
  | cons type types ih =>
    obtain ⟨htype, htypes⟩ := List.forall_mem_cons.mp htypes
    have hname := (ih htypes).name (isName_of_mem_knownTypes type htype) (breaks_textBehind types rest)
    have hcomma : Lexes (',' :: ' ' :: _) (.symbol .comma :: _) :=
      (hname.blank rfl).punctuation (by simp [grammar])
    simpa [textBehind, behind] using hcomma

theorem lexes_types (h : Lexes rest s) {types : List ValueType}
    (htypes : ∀ type ∈ types, type ∈ knownTypes) :
    Lexes ((", ".intercalate (types.map ValueType.name)).toList ++ ')' :: rest)
      ((types.map fun type => Terminal.name type.name).intersperse (.symbol .comma) ++
        .symbol .parenClose :: s) := by
  cases types with
  | nil => exact h.punctuation (by simp [grammar])
  | cons type types =>
    obtain ⟨htype, htypes⟩ := List.forall_mem_cons.mp htypes
    rw [toList_intercalate_types, List.append_assoc, intersperse_eq_behind]
    exact (lexes_textBehind h htypes).name (isName_of_mem_knownTypes type htype)
      (breaks_textBehind types rest)

theorem lexes_opening (h : Lexes rest s) (hf : f.Writable) :
    Lexes (f.opening.toList ++ rest)
      (.symbol .keywordFn :: .name f.name :: .symbol .parenOpen ::
        ((f.params.map fun type => Terminal.name type.name).intersperse (.symbol .comma) ++
          .symbol .parenClose :: .symbol .arrow :: .number (Numeral.decimal f.returns).toList ::
            .symbol .braceOpen :: s)) := by
  have hbrace : Lexes ('\x7b' :: rest) (.symbol .braceOpen :: s) := h.punctuation (by simp [grammar])
  have hreturns := ((hbrace.blank (c := ' ') rfl).number f.returns rfl).blank (c := ' ') rfl
  have hparams := lexes_types (hreturns.arrow.blank (c := ' ') rfl) hf.params_known
  have hname : Lexes (f.name.toList ++ '(' :: _) (.name f.name :: .symbol .parenOpen :: _) :=
    (hparams.punctuation (by simp [grammar])).name hf.isName rfl
  have hfn : Lexes ("fn".toList ++ _) (.symbol .keywordFn :: _) :=
    (hname.blank (c := ' ') rfl).word (by decide) rfl
  simpa [Function.opening] using hfn

/-- **The lexer finds the declaration of a function in its text.** -/
theorem lexes_source (h : Lexes rest s) (hf : f.Writable) :
    Lexes (f.source.toList ++ rest)
      (.symbol .keywordFn :: (Declaration.ofFunction f).terminals ++ s) := by
  have hcode : ∀ i ∈ f.code.toList, i.Writable := fun i hi =>
    hf.code i (Array.mem_toList_iff.mp hi)
  have hclose : Lexes ('\x7d' :: '\n' :: rest) (.symbol .braceClose :: s) :=
    (h.blank rfl).punctuation (by simp [grammar])
  have hlines := (lexes_lines hclose hcode).blank (c := '\n') rfl
  have hlocals : Lexes ("locals".toList ++ _) (.symbol .keywordLocals :: _) :=
    ((hlines.number f.locals rfl).blank (c := ' ') rfl).word (by decide) rfl
  have hopening := lexes_opening (hlocals.blank (c := '\n') rfl) hf
  simpa [Function.source, List.flatMap_map, Declaration.terminals, Declaration.ofFunction,
    Declaration.optional] using hopening

/-- **The lexer finds the sentence of a program in its text.** -/
theorem lexes_sources {fs : List Function} (hfs : ∀ f ∈ fs, f.Writable) :
    Lexes (String.join (fs.map Function.source)).toList
      (sentence (fs.map Declaration.ofFunction)) := by
  induction fs with
  | nil => exact .finish
  | cons f fs ih =>
    obtain ⟨hf, hfs⟩ := List.forall_mem_cons.mp hfs
    simpa [sentence] using lexes_source (ih hfs) hf

/-! ## Assembling the text -/

theorem wellFormed_ofFunctions {fs : List Function} (hnodup : (fs.map Function.name).Nodup)
    (hfs : ∀ f ∈ fs, f.Writable) : WellFormed (fs.map Declaration.ofFunction) where
  nodup := by
    rw [List.map_map]
    exact hnodup
  each := by
    intro x hx
    obtain ⟨f, hf, rfl⟩ := List.mem_map.mp hx
    exact wellFormed_ofFunction (hfs f hf) _

theorem program_ofFunctions {fs : List Function} (hfs : ∀ f ∈ fs, f.Writable)
    (h : WellFormed (fs.map Declaration.ofFunction)) :
    program (fs.map Declaration.ofFunction) h = ⟨fs.toArray⟩ := by
  rw [program, List.pmap_map]
  refine congrArg (fun fs => Program.mk (List.toArray fs)) ?_
  calc
    _ = fs.pmap (fun f (_ : True) => id f) fun _ _ => trivial :=
      List.pmap_congr_left fs fun f hf hparams _ => function_ofFunction (hfs f hf) _ hparams
    _ = fs := by rw [List.pmap_eq_map, List.map_id]

/-- **Assembling the text of a program gives back the program.** -/
theorem assemble_source (name : String) (p : Program)
    (hnames : (p.functions.toList.map Function.name).Nodup) (h : ∀ f ∈ p.functions, f.Writable) :
    assemble ⟨name, p.source.toList⟩ = .ok p := by
  have hfs : ∀ f ∈ p.functions.toList, f.Writable := fun f hf => h f (Array.mem_toList_iff.mp hf)
  have hwf := wellFormed_ofFunctions hnames hfs
  obtain ⟨ts, htokens, hts⟩ := tokens_of_lexes (lexes_sources hfs)
  obtain ⟨rest, hparse⟩ := parse_of_sentence (isNumber_of_tokens htokens) hts hwf
  rw [program_ofFunctions hfs hwf] at hparse
  exact assemble_eq_ok.mpr ⟨ts, rest, htokens, hparse⟩

/-- A function may have the name of an operation. -/
theorem assemble_source_call :
    assemble ⟨"call.zkm",
        "fn Call(u64, u8) -> 1 \x7b\nlocals 3\nLdU64 10\nCall 0\nRet\n\x7d\n".toList⟩ =
      .ok ⟨#[⟨"Call", [.u64, .u8], 3, 1, #[⟨.ldU64, 10⟩, ⟨.call, 0⟩, ⟨.ret, 0⟩], by decide⟩]⟩ := by
  have hwritable : ∀ f ∈ #[Function.mk "Call" [.u64, .u8] 3 1
      #[⟨.ldU64, 10⟩, ⟨.call, 0⟩, ⟨.ret, 0⟩] (by decide)], f.Writable := by
    intro f hf
    obtain rfl := Array.mem_singleton.mp hf
    exact ⟨by decide, by decide, by decide, by decide, by decide, by decide⟩
  have hsource : Program.source ⟨#[⟨"Call", [.u64, .u8], 3, 1,
      #[⟨.ldU64, 10⟩, ⟨.call, 0⟩, ⟨.ret, 0⟩], by decide⟩]⟩ =
        "fn Call(u64, u8) -> 1 \x7b\nlocals 3\nLdU64 10\nCall 0\nRet\n\x7d\n" := by
    decide +kernel
  rw [← hsource]
  exact assemble_source "call.zkm" _ (by decide) hwritable

end Assembly

end StackCircuit
