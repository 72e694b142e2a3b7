import StackCircuit.Proofs.Assembly.Targets

/-!
# Calls by name

A call by name is linked with the index of the function, which has 16 bits.

* `Declaration.chars`: the text of a declaration; **`declares_text`**: a file with the texts of
  well-formed declarations declares them.
* `rivals`: any number of functions that call the last of them; `declares_rivals`: a file of these.
* `getElem?_code_call`: calls by name in the code.
* **`selects_of_lookup`**: looking for a name and calling by name select a function of the name, unless the
  first one is behind 65536 others.
-/

namespace StackCircuit.Assembly

open Bytecode (Function Instruction IsFirst Opcode Program)
open Source (File)

variable {rest : List Char} {s : List Terminal}

/-! ## Texts of declarations -/

namespace Declaration

/-- The text of a count behind a word, if it is given. -/
def countChars (word : List Char) : Option (List Char) → List Char
  | none => []
  | some lexeme => ' ' :: (word ++ ' ' :: lexeme)

/-- The text of a declaration. -/
def chars (d : Declaration) : List Char :=
  "fn ".toList ++ (d.name.toList ++ '(' :: ((", ".intercalate (d.params.map ValueType.name)).toList ++
    ')' :: (countChars ['-', '>'] d.returns ++ ' ' :: '\x7b' ::
      (countChars "locals".toList d.locals ++ ' ' :: (d.items.flatMap Item.chars ++ ['\x7d', '\n'])))))

/-- Declarations that can be written: names are no keywords, and numbers have figures only. -/
structure IsSpelled (d : Declaration) : Prop where
  isName : IsName d.name
  params_known : ∀ type ∈ d.params, type ∈ knownTypes
  returns : ∀ lexeme ∈ d.returns, lexeme ≠ [] ∧ ∀ c ∈ lexeme, c.isDigit
  locals : ∀ lexeme ∈ d.locals, lexeme ≠ [] ∧ ∀ c ∈ lexeme, c.isDigit
  items : ∀ i ∈ d.items, i.IsSpelled

end Declaration

theorem lexes_count (w : List Char) (word : TokenKind) {o : Option (List Char)}
    (hword : ∀ {rest s}, Lexes rest s → Breaks rest → Lexes (w ++ rest) (.symbol word :: s))
    (h : Lexes (' ' :: rest) s)
    (ho : ∀ lexeme ∈ o, lexeme ≠ [] ∧ ∀ c ∈ lexeme, c.isDigit) :
    Lexes (Declaration.countChars w o ++ ' ' :: rest) (Declaration.optional word o ++ s) := by
  cases o with
  | none => exact h
  | some lexeme =>
    obtain ⟨hne, hdigits⟩ := ho lexeme rfl
    have hnumber := (h.digits hne hdigits rfl).blank (c := ' ') rfl
    simpa [Declaration.countChars, Declaration.optional] using (hword hnumber rfl).blank (c := ' ') rfl

theorem lexes_declaration (h : Lexes rest s) {x : Declaration} (hx : x.IsSpelled) :
    Lexes (x.chars ++ rest) (.symbol .keywordFn :: x.terminals ++ s) := by
  have hclose : Lexes ('\x7d' :: '\n' :: rest) (.symbol .braceClose :: s) :=
    (h.blank rfl).punctuation (by simp [grammar])
  have hlocals := lexes_count "locals".toList .keywordLocals (fun h hrest => h.word (by decide) hrest)
    ((lexes_items hclose hx.items).blank (c := ' ') rfl) hx.locals
  have hbrace : Lexes ('\x7b' :: _) (.symbol .braceOpen :: _) :=
    hlocals.punctuation (by simp [grammar])
  have hreturns := lexes_count ['-', '>'] .arrow (fun h _ => h.arrow) (hbrace.blank (c := ' ') rfl)
    hx.returns
  have hname : Lexes (x.name.toList ++ '(' :: _) (.name x.name :: .symbol .parenOpen :: _) :=
    ((lexes_types hreturns hx.params_known).punctuation (by simp [grammar])).name hx.isName rfl
  have hfn : Lexes ("fn".toList ++ _) (.symbol .keywordFn :: _) :=
    (hname.blank (c := ' ') rfl).word (by decide) rfl
  simpa [Declaration.chars, Declaration.terminals] using hfn

/-- **A file with the texts of well-formed declarations declares them.** -/
theorem declares_text (name : String) {xs : List Declaration} (h : WellFormed xs)
    (hxs : ∀ x ∈ xs, x.IsSpelled) : Declares ⟨name, xs.flatMap Declaration.chars⟩ xs where
  wellFormed := h
  spelled := by
    refine tokens_of_lexes ?_
    clear h
    induction xs with
    | nil => exact .finish
    | cons x xs ih =>
      obtain ⟨hx, hxs⟩ := List.forall_mem_cons.mp hxs
      simpa [sentence] using lexes_declaration (ih hxs) hx

/-! ## Functions that call the last -/

section

variable {n : ℕ}

/-- The name of a function with a number. -/
def rivalName (n : ℕ) : String :=
  "g" ++ Numeral.decimal n

/-- The declaration of a function with a number that calls another one. -/
def rival (callee k : ℕ) : Declaration :=
  ⟨rivalName k, [], none, none, [.reference .call (rivalName callee)]⟩

/-- Functions with the numbers up to `n` that all call the last of them. -/
def rivals (n : ℕ) : List Declaration :=
  (List.range (n + 1)).map (rival n)

/-- A file with these functions. -/
def rivalsFile (n : ℕ) : File :=
  ⟨"rivals.zkm", (rivals n).flatMap Declaration.chars⟩

theorem rivalName_injective : Function.Injective rivalName := by
  intro k n h
  have hdecimal : (Numeral.decimal k).toList = (Numeral.decimal n).toList := by
    simpa [rivalName] using congrArg String.toList h
  rw [← Numeral.value_decimal k, hdecimal, Numeral.value_decimal]

theorem isName_rivalName (n : ℕ) : IsName (rivalName n) := by
  have htext : (rivalName n).toList = 'g' :: (Numeral.decimal n).toList := by simp [rivalName]
  have hne (name : String) (hname : name.toList.head? ≠ some 'g') : rivalName n ≠ name := by
    rintro rfl
    simp [htext] at hname
  refine ⟨?_, hne "fn" (by decide), hne "locals" (by decide)⟩
  rw [htext]
  exact ⟨by decide, List.all_eq_true.mpr fun c hc => isWord_of_isDigit (isDigit_of_mem_decimal hc)⟩

theorem names_rivals (n : ℕ) : (rivals n).map Declaration.name = (List.range (n + 1)).map rivalName := by
  rw [rivals, List.map_map]
  rfl

theorem getElem?_rivals {k : ℕ} (hk : k ≤ n) : (rivals n)[k]? = some (rival n k) := by
  rw [rivals, List.getElem?_map, List.getElem?_range (Nat.lt_succ_of_le hk), Option.map_some]

theorem isFirst_rivals (n : ℕ) : IsFirst ((rivals n).map Declaration.name) (rivalName n) n where
  getElem?_eq := by rw [List.getElem?_map, getElem?_rivals (Nat.le_refl n)]; rfl
  not_mem_take := by
    rw [names_rivals, ← List.map_take, List.take_range, List.mem_map]
    rintro ⟨k, hk, hname⟩
    obtain rfl := rivalName_injective hname
    simp at hk

theorem wellFormed_rivals (n : ℕ) : WellFormed (rivals n) where
  nodup := by
    rw [names_rivals]
    exact List.nodup_range.map rivalName_injective
  each := by
    rw [names_rivals]
    intro x hx
    obtain ⟨k, -, rfl⟩ := List.mem_map.mp hx
    have hitem (i : Item) (hi : i ∈ (rival n k).items) : i = .reference .call (rivalName n) :=
      List.mem_singleton.mp hi
    refine ⟨nofun, nofun, nofun, Nat.le_refl _, ?_, ?_, List.nodup_nil, ?_, ?_⟩
    · intro i hi
      obtain rfl := hitem i hi
      exact .inl rfl
    · exact (by decide : 1 ≤ 65536)
    · intro opcode name hname hjump
      obtain ⟨rfl, -⟩ := Item.reference.inj (hitem _ hname)
      cases hjump
    · intro name hname
      obtain ⟨-, rfl⟩ := Item.reference.inj (hitem _ hname)
      exact List.mem_map_of_mem List.self_mem_range_succ

/-- **The file declares the functions.** -/
theorem declares_rivals (n : ℕ) : Declares (rivalsFile n) (rivals n) := by
  refine declares_text _ (wellFormed_rivals n) fun x hx => ?_
  obtain ⟨k, -, rfl⟩ := List.mem_map.mp hx
  refine ⟨isName_rivalName k, nofun, nofun, nofun, fun i hi => ?_⟩
  obtain rfl := List.mem_singleton.mp hi
  exact ⟨by decide, isName_rivalName n⟩

end

/-! ## Calls in the code -/

variable {file : File} {p : Program} {xs : List Declaration}

theorem names_program (h : WellFormed xs) : (program xs h).names = xs.map Declaration.name := by
  rw [Program.names, program, List.map_pmap]
  exact List.pmap_eq_map _

theorem getElem?_program (h : WellFormed xs) {k : ℕ} {x : Declaration} (hx : xs[k]? = some x)
    (hle : x.params.length ≤ x.localCount) :
    (program xs h).functions[k]? = some (x.function (xs.map Declaration.name) hle) := by
  simp [program, List.getElem?_pmap, hx]

theorem getElem?_code_call (functions : List String) {x : Declaration}
    (hle : x.params.length ≤ x.localCount) {before after : List Item} {name : String}
    (hitems : x.items = before ++ .reference .call name :: after) :
    (x.function functions hle).code[before.countP Item.isInstruction]? =
      some (.ofNat .call (functions.idxOf name % 65536)) := by
  rw [Declaration.function, List.getElem?_toArray]
  conv_lhs => rw [hitems]
  refine getElem?_instructions ?_
  rw [Item.instruction?, Declaration.target, if_pos rfl]

theorem index_ofNat_mod (n : ℕ) : (Instruction.ofNat .call (n % 65536)).index = .ofNat n := by
  have hlt : n % 65536 < 2 ^ 256 := (Nat.mod_lt n (by decide)).trans_le (by decide)
  rw [Instruction.index, Instruction.ofNat, BitVec.toNat_ofNat, Nat.mod_eq_of_lt hlt,
    ← UInt16.toNat_inj, UInt16.toNat_ofNat', UInt16.toNat_ofNat']
  omega

/-! ## The result -/

/-- **Looking for a name and calling by name select the named function, unless it is behind 65536
others.**  A name is found in a program if and only if a function has it.  A file that is accepted
declares its functions; each call by name there is one in the code, at the position of the number of
instructions before it.  What is found and what is called is the function at the lowest 16 bits of the
first position of the name. -/
theorem selects_of_lookup (m : Program) (name : String) (file : File) (p : Program) :
    (m.find? name = none ↔ name ∉ m.names) ∧ (∀ i, m.find? name = some i → m.Selects name i) ∧
      (assemble file = .ok p → (∃ xs, Declares file xs) ∧ ∀ xs, Declares file xs →
        p.names = xs.map Declaration.name ∧ p.names.Nodup ∧
        ∀ (k : ℕ) (f : Function) (x : Declaration), p.functions[k]? = some f → xs[k]? = some x →
          ∀ before callee after, x.items = before ++ .reference .call callee :: after →
            ∃ i : Instruction, f.code[before.countP Item.isInstruction]? = some i ∧
              i.opcode = .call ∧ p.Selects callee i.index) := by
  refine ⟨Program.find?_eq_none_iff, fun i => Program.selects_of_find?,
    fun h => ⟨exists_declares h, fun xs hxs => ?_⟩⟩
  obtain rfl : program xs hxs.wellFormed = p := Except.ok.inj (hxs.assemble_eq.symm.trans h)
  have hnames := names_program hxs.wellFormed
  refine ⟨hnames, hnames ▸ hxs.wellFormed.nodup, fun k f x hf hx before callee after hitems => ?_⟩
  have hwf := hxs.wellFormed.each x (List.mem_of_getElem? hx)
  rw [getElem?_program hxs.wellFormed hx hwf.params_le_locals] at hf
  obtain rfl := Option.some.inj hf
  have hcallee : callee ∈ xs.map Declaration.name :=
    hwf.calls_declared callee (hitems ▸ List.mem_append_right _ List.mem_cons_self)
  refine ⟨_, getElem?_code_call _ hwf.params_le_locals hitems, rfl, ?_⟩
  rw [index_ofNat_mod, ← hnames]
  exact Program.selects_ofNat (Bytecode.isFirst_idxOf (hnames ▸ hcallee))

/-- With 65535 functions before it, the function of a name is found and called. -/
theorem selects_of_lookup_rivals :
    ∃ (p : Program) (f g : Function) (i : Instruction), assemble (rivalsFile 65535) = .ok p ∧
      p.functions[0]? = some f ∧ f.code[0]? = some i ∧ i.opcode = .call ∧
      p.find? (rivalName 65535) = some i.index ∧ p.function? i.index = some g ∧
      g.name = rivalName 65535 := by
  have hxs := declares_rivals 65535
  have hx := getElem?_rivals (Nat.zero_le 65535)
  have hwf := hxs.wellFormed.each _ (List.mem_of_getElem? hx)
  obtain ⟨-, -, hcall⟩ :=
    selects_of_lookup (program _ hxs.wellFormed) (rivalName 65535) _ (program _ hxs.wellFormed)
  obtain ⟨hnames, -, hcode⟩ := (hcall hxs.assemble_eq).2 _ hxs
  obtain ⟨i, hi, hopcode, n, g, hn, hindex, hg, hname⟩ :=
    hcode 0 _ _ (getElem?_program hxs.wellFormed hx hwf.params_le_locals) hx [] (rivalName 65535) [] rfl
  rw [hnames] at hn
  obtain rfl : 65535 = n := (isFirst_rivals 65535).idxOf_eq.symm.trans hn.idxOf_eq
  have hfound := Program.find?_of_isFirst (hnames.symm ▸ hn)
  refine ⟨_, _, g, i, hxs.assemble_eq, getElem?_program hxs.wellFormed hx hwf.params_le_locals, hi,
    hopcode, ?_, hg, hname.mpr (by decide)⟩
  rw [hfound, ← UInt16.ofNat_toNat (x := i.index), hindex]

/-- **The function behind 65536 others is neither found nor called.**  The assembler accepts the file; its
last function has the name that is looked for and called, but the index is that of the first one. -/
theorem not_selects_rivals :
    Declares (rivalsFile 65536) (rivals 65536) ∧
      ∃ (p : Program) (f g : Function) (i : Instruction), assemble (rivalsFile 65536) = .ok p ∧
        p.functions[65536]? = some g ∧ g.name = rivalName 65536 ∧
        p.find? (rivalName 65536) = some 0 ∧ p.function? 0 = some f ∧ f.name = rivalName 0 ∧
        f.name ≠ rivalName 65536 ∧ (rival 65536 0).items = [.reference .call (rivalName 65536)] ∧
        f.code[0]? = some i ∧ i.opcode = .call ∧ i.index = 0 := by
  have hxs := declares_rivals 65536
  have hfirst := isFirst_rivals 65536
  have hle (k : ℕ) : (rival 65536 k).params.length ≤ (rival 65536 k).localCount := Nat.le_refl 0
  have hf := getElem?_program hxs.wellFormed (getElem?_rivals (Nat.zero_le 65536)) (hle 0)
  have hg := getElem?_program hxs.wellFormed (getElem?_rivals (Nat.le_refl 65536)) (hle 65536)
  have hfound := Program.find?_of_isFirst ((names_program hxs.wellFormed).symm ▸ hfirst)
  have hitems : (rival 65536 0).items = [] ++ .reference .call (rivalName 65536) :: [] := rfl
  have hi := getElem?_code_call ((rivals 65536).map Declaration.name) (hle 0) hitems
  rw [hfirst.idxOf_eq] at hi
  exact ⟨hxs, _, _, _, _, hxs.assemble_eq, hg, rfl, hfound, hf, rfl,
    fun hname => absurd (rivalName_injective hname) (by decide), hitems, hi, rfl, index_ofNat_mod 65536⟩

end StackCircuit.Assembly
