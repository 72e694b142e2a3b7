import StackCircuit.Proofs.Assembly.Grammar
import StackCircuit.Proofs.Assembly.LabelTable
import StackCircuit.Proofs.Assembly.Parsers

/-!
# Bodies of functions

* `Spells`: tokens that spell terminals, up to a rest.
* `Reads`: what a draft and its labels say about the items read so far; one lemma for each kind of item.
* **`reads_of_body`**, **`body_of_spells`**: the parser of bodies reads exactly sequences of items.
-/

namespace StackCircuit.Assembly

open Bytecode (Instruction Opcode)

variable {t : Token} {ts mid rest : List Token} {items : List Item} {i : Item} {name : String}

/-! ## Tokens and terminals -/

theorem terminal_eq_name : t.terminal = .name name ↔ t.kind = .identifier ∧ t.text = name := by
  cases h : t.kind <;> simp [Token.terminal, h]

theorem terminal_eq_number {lexeme : List Char} :
    t.terminal = .number lexeme ↔ t.kind = .number ∧ t.lexeme = lexeme := by
  cases h : t.kind <;> simp [Token.terminal, h]

theorem terminal_eq_symbol {kind : TokenKind} :
    t.terminal = .symbol kind ↔ t.kind = kind ∧ kind ≠ .identifier ∧ kind ≠ .number := by
  cases h : t.kind <;> simp [Token.terminal, h] <;> rintro rfl <;> simp

/-- The tokens spell the terminals, up to the rest. -/
def Spells (s : List Terminal) (ts rest : List Token) : Prop :=
  ∃ used, ts = used ++ rest ∧ used.map Token.terminal = s

@[simp] theorem spells_nil : Spells [] ts rest ↔ ts = rest := by
  simp [Spells]

theorem spells_cons {s : Terminal} {ss : List Terminal} :
    Spells (s :: ss) ts rest ↔ ∃ t mid, ts = t :: mid ∧ t.terminal = s ∧ Spells ss mid rest := by
  constructor
  · rintro ⟨used, rfl, h⟩
    obtain ⟨t, used, rfl, ht, hused⟩ := List.map_eq_cons_iff.mp h
    exact ⟨t, used ++ rest, rfl, ht, used, rfl, hused⟩
  · rintro ⟨t, _, rfl, rfl, used, rfl, rfl⟩
    exact ⟨t :: used, rfl, rfl⟩

theorem spells_append {s s' : List Terminal} :
    Spells (s ++ s') ts rest ↔ ∃ mid, Spells s ts mid ∧ Spells s' mid rest := by
  constructor
  · rintro ⟨used, rfl, h⟩
    obtain ⟨first, second, rfl, hfirst, hsecond⟩ := List.map_eq_append_iff.mp h
    exact ⟨second ++ rest, ⟨first, List.append_assoc .., hfirst⟩, second, rfl, hsecond⟩
  · rintro ⟨mid, ⟨first, rfl, rfl⟩, second, rfl, rfl⟩
    exact ⟨first ++ second, (List.append_assoc ..).symm, List.map_append⟩

/-! ## Instructions, labels and uses among items -/

/-- The name that an item uses after an operation with a given property. -/
def Item.use? (p : Opcode → Bool) : Item → Option String
  | .reference opcode name => if p opcode then some name else none
  | _ => none

/-- The names that items use after operations with a given property, with the positions of the
instructions that use them, counted from `n`. -/
def usesFrom (p : Opcode → Bool) : ℕ → List Item → List (ℕ × String)
  | _, [] => []
  | n, i :: rest => ((i.use? p).map (n, ·)).toList ++ usesFrom p (n + i.isInstruction.toNat) rest

theorem usesFrom_append (p : Opcode → Bool) (n : ℕ) (items items' : List Item) :
    usesFrom p n (items ++ items') =
      usesFrom p n items ++ usesFrom p (n + items.countP Item.isInstruction) items' := by
  induction items generalizing n with
  | nil => rfl
  | cons i rest ih =>
    have hcount : (i :: rest).countP Item.isInstruction =
        i.isInstruction.toNat + rest.countP Item.isInstruction := by
      cases hi : i.isInstruction <;> simp [hi, Nat.add_comm]
    rw [List.cons_append, usesFrom, usesFrom, ih, hcount, List.append_assoc, Nat.add_assoc]

theorem isSome_instruction? (target : Opcode → String → ℕ) (i : Item) :
    (i.instruction? target).isSome = i.isInstruction := by
  cases i <;> rfl

theorem label?_eq_none_of_instruction? {target : Opcode → String → ℕ} {instruction : Instruction}
    (h : i.instruction? target = some instruction) : i.label? = none := by
  cases i <;> first | rfl | cases h

theorem length_instructions (target : Opcode → String → ℕ) (items : List Item) :
    (instructions target items).length = items.countP Item.isInstruction := by
  rw [instructions, List.length_filterMap_eq_countP]
  exact List.countP_congr fun i _ => by rw [isSome_instruction?]

theorem mem_declared : name ∈ declared items ↔ .label name ∈ items := by
  simp only [declared, List.mem_filterMap]
  constructor
  · rintro ⟨i, hi, h⟩
    cases i <;> simp_all [Item.label?]
  · exact fun h => ⟨_, h, rfl⟩

theorem position_append (h : name ∈ declared items) (items' : List Item) :
    position (items ++ items') name = position items name := by
  have hshort : (items.takeWhile (· ≠ .label name)).length ≠ items.length := by
    intro hlength
    have hall := List.takeWhile_eq_self_iff.mp
      ((List.takeWhile_prefix _).eq_of_length hlength) _ (mem_declared.mp h)
    simp at hall
  rw [position, position, List.takeWhile_append, if_neg hshort]

theorem position_label (h : name ∉ declared items) :
    position (items ++ [.label name]) name = items.countP Item.isInstruction := by
  have hall : ∀ i ∈ items, decide (i ≠ .label name) = true := fun i hi =>
    decide_eq_true fun heq => h (mem_declared.mpr (heq ▸ hi))
  rw [position, List.takeWhile_append_of_pos hall]
  simp

/-- The positions of the labels that items declare. -/
def place? (items : List Item) (name : String) : Option UInt64 :=
  if name ∈ declared items then some (UInt64.ofNat (position items name)) else none

theorem declared_append_of_label?_eq_none (h : i.label? = none) :
    declared (items ++ [i]) = declared items := by
  simp [declared, h]

theorem declared_append_label (items : List Item) (name : String) :
    declared (items ++ [.label name]) = declared items ++ [name] := by
  simp [declared, Item.label?]

theorem place?_append_of_label?_eq_none (h : i.label? = none) :
    place? (items ++ [i]) = place? items := by
  funext name
  rw [place?, place?, declared_append_of_label?_eq_none h]
  split
  case isTrue hmem => rw [position_append hmem]
  case isFalse => rfl

theorem place?_append_label (h : name ∉ declared items) :
    place? (items ++ [.label name]) = Function.update (place? items) name
      (some (UInt64.ofNat (items.countP Item.isInstruction))) := by
  funext m
  rw [place?, declared_append_label]
  by_cases hm : m = name
  · subst hm
    rw [Function.update_self, if_pos (by simp), position_label h]
  · rw [Function.update_of_ne hm, place?]
    by_cases hmem : m ∈ declared items
    · rw [if_pos (by simp [hmem]), if_pos hmem, position_append hmem]
    · rw [if_neg (by simp [hm, hmem]), if_neg hmem]

/-! ## Drafts and the items read so far -/

/-- The use of a name, without the place in the source. -/
def Reference.use (r : Reference) : ℕ × String :=
  (r.position.toNat, r.name)

/-- A draft that began as `start`, and its labels, show the items read since then: the code has zero in
place of names, and the uses of names are noted. -/
structure Reads (start : Draft) (items : List Item) (d : Draft) (l : Labels) : Prop where
  head : d = { start with code := d.code, calls := d.calls }
  code : d.code.toList = instructions (fun _ _ => 0) items
  calls : d.calls.toList.map Reference.use = usesFrom (· == .call) 0 items
  jumps : l.references.toList.map Reference.use = usesFrom Opcode.isJump 0 items
  labels : l.Holds (place? items)
  nodup : (declared items).Nodup
  size_le : d.code.size ≤ maxInstructions

namespace Reads

variable {start d d' : Draft} {l l' : Labels} {opcode : Opcode}

theorem size_eq (h : Reads start items d l) : d.code.size = items.countP Item.isInstruction := by
  rw [← Array.length_toList, h.code, length_instructions]

theorem toNat_position (h : Reads start items d l) : d.position.toNat = d.code.size :=
  UInt64.toNat_ofNat_of_lt' (Nat.lt_of_le_of_lt h.size_le (by decide))

theorem position_ne_undeclared (h : Reads start items d l) : d.position ≠ Label.undeclared := by
  intro heq
  have hsize := h.toNat_position
  have hle := h.size_le
  rw [heq] at hsize
  rw [← hsize] at hle
  exact absurd hle (by decide)

theorem add (h : Reads start items d l) (hsize : d.code.size < maxInstructions)
    {instruction : Instruction} (hi : i.instruction? (fun _ _ => 0) = some instruction)
    (hhead : d' = { d with code := d.code.push instruction, calls := d'.calls })
    (hcalls : d'.calls.toList.map Reference.use = d.calls.toList.map Reference.use ++
      ((i.use? (· == .call)).map (d.code.size, ·)).toList)
    (hjumps : l'.references.toList.map Reference.use = l.references.toList.map Reference.use ++
      ((i.use? Opcode.isJump).map (d.code.size, ·)).toList)
    (hlabels : l'.Holds (place? items)) : Reads start (items ++ [i]) d' l' where
  head := by rw [hhead, h.head]
  code := by
    rw [hhead, Array.toList_push, h.code, instructions, instructions, List.filterMap_append,
      List.filterMap_cons_some hi, List.filterMap_nil]
  calls := by rw [hcalls, h.calls, usesFrom_append, Nat.zero_add, ← h.size_eq]; simp [usesFrom]
  jumps := by rw [hjumps, h.jumps, usesFrom_append, Nat.zero_add, ← h.size_eq]; simp [usesFrom]
  labels := by rwa [place?_append_of_label?_eq_none (label?_eq_none_of_instruction? hi)]
  nodup := by
    rw [declared_append_of_label?_eq_none (label?_eq_none_of_instruction? hi)]
    exact h.nodup
  size_le := by rw [hhead, Array.size_push]; exact hsize

theorem plain (h : Reads start items d l) (hsize : d.code.size < maxInstructions) (opcode : Opcode) :
    Reads start (items ++ [.plain opcode]) (d.push ⟨opcode, 0⟩) l :=
  h.add hsize rfl rfl (by simp [Item.use?, Draft.push]) (by simp [Item.use?]) h.labels

theorem literal (h : Reads start items d l) (hsize : d.code.size < maxInstructions) (opcode : Opcode)
    (lexeme : List Char) :
    Reads start (items ++ [.literal opcode lexeme]) (d.push (.ofNat opcode (denoted lexeme))) l :=
  h.add hsize rfl rfl (by simp [Item.use?, Draft.push]) (by simp [Item.use?]) h.labels

theorem call (h : Reads start items d l) (hsize : d.code.size < maxInstructions) (t : Token) :
    Reads start (items ++ [.reference .call t.text]) (d.pushCall t) l :=
  h.add hsize rfl rfl
    (by simp [Item.use?, Draft.pushCall, Reference.use, h.toNat_position])
    (by simp [Item.use?, Opcode.isJump]) h.labels

theorem jump (h : Reads start items d l) (hsize : d.code.size < maxInstructions)
    (hjump : opcode.isJump) (t : Token) :
    Reads start (items ++ [.reference opcode t.text]) (d.push ⟨opcode, 0⟩)
      (l.note ⟨d.position, t.text, t.span⟩) := by
  have hcall : opcode ≠ .call := by
    rintro rfl
    cases hjump
  exact h.add hsize rfl rfl (by simp [Item.use?, Draft.push, hcall])
    (by simp [Item.use?, Labels.note, Reference.use, h.toNat_position, hjump])
    (h.labels.note _)

theorem declare (h : Reads start items d l) (name : String) :
    (name ∈ declared items ∧ l.declare name d.position = none) ∨
      (name ∉ declared items ∧ ∃ l', l.declare name d.position = some l' ∧
        Reads start (items ++ [.label name]) d l') := by
  have hplace : place? items name = none ↔ name ∉ declared items := by
    simp [place?]
  obtain ⟨hne, hdeclare⟩ | ⟨heq, l', hdeclare, hreferences, hholds⟩ :=
    h.labels.declare name h.position_ne_undeclared
  · exact .inl ⟨not_not.mp (mt hplace.mpr hne), hdeclare⟩
  · have hnew := hplace.mp heq
    refine .inr ⟨hnew, l', hdeclare, ⟨h.head, ?_, ?_, ?_, ?_, ?_, h.size_le⟩⟩
    · rw [h.code, instructions, instructions, List.filterMap_append]
      simp [Item.instruction?]
    · rw [h.calls, usesFrom_append]
      simp [usesFrom, Item.use?]
    · rw [hreferences, h.jumps, usesFrom_append]
      simp [usesFrom, Item.use?]
    · rw [place?_append_label hnew, ← h.size_eq]
      exact hholds
    · rw [declared_append_label]
      exact List.nodup_append'.mpr ⟨h.nodup, List.nodup_singleton _, by simpa using hnew⟩

end Reads

/-! ## Operands -/

theorem ofName?_eq_some {opcode : Opcode} :
    Opcode.ofName? name = some opcode ↔ opcode ∈ Opcode.defined ∧ opcode.name = name := by
  constructor
  · intro h
    rw [Opcode.ofName?] at h
    exact ⟨List.mem_of_find?_eq_some h, by simpa using List.find?_some h⟩
  · rintro ⟨h, rfl⟩
    revert opcode
    decide

/-- Number tokens are numbers. -/
def Numbered (ts : List Token) : Prop :=
  ∀ t ∈ ts, t.kind = .number → IsNumber t.lexeme

theorem Numbered.tail (h : Numbered (t :: ts)) : Numbered ts :=
  fun t' ht' => h t' (List.mem_cons_of_mem _ ht')

theorem Numbered.of_spells (h : Numbered ts) {s : List Terminal} (hs : Spells s ts rest) :
    Numbered rest := by
  obtain ⟨used, rfl, -⟩ := hs
  exact fun t ht => h t (List.mem_append_right _ ht)

theorem literal_eq_ok_of_numbered (h : Numbered ts) {bits n : ℕ} :
    literal bits ts = .ok n rest ↔
      ∃ t, ts = t :: rest ∧ t.kind = .number ∧ n = denoted t.lexeme ∧ n < 2 ^ bits := by
  rw [literal_eq_ok]
  refine exists_congr fun t => ⟨?_, ?_⟩
  · rintro ⟨m, rfl, hkind, hm, hlt, rfl⟩
    rw [number?_of_isNumber (h t List.mem_cons_self hkind)] at hm
    obtain rfl := Option.some.inj hm
    exact ⟨rfl, hkind, rfl, hlt⟩
  · rintro ⟨rfl, hkind, rfl, hlt⟩
    exact ⟨_, rfl, hkind, number?_of_isNumber (h t List.mem_cons_self hkind), hlt, rfl⟩

section

variable {start d : Draft} {l : Labels} {opcode : Opcode}

theorem reads_of_operand (h : Reads start items d l) (hsize : d.code.size < maxInstructions)
    (hdefined : opcode ∈ Opcode.defined) (hoperand : opcode.hasOperand) (hnumbered : Numbered ts)
    {p : Draft × Labels} (hok : operand opcode d l ts = .ok p rest) :
    ∃ t i, ts = t :: rest ∧ i.IsGrammatical ∧
      Item.terminals i = [.name opcode.name, t.terminal] ∧ Reads start (items ++ [i]) p.1 p.2 := by
  obtain _ | ⟨t, rest'⟩ := ts
  · cases hok
  rw [operand] at hok
  split at hok
  case isTrue hcall =>
    cases hok
    obtain ⟨hkind, rfl⟩ := hcall
    exact ⟨t, .reference .call t.text, rfl, .inl rfl, by
      rw [Item.terminals, terminal_eq_name.mpr ⟨hkind, rfl⟩], h.call hsize t⟩
  case isFalse =>
    split at hok
    case isTrue hjump =>
      cases hok
      obtain ⟨hkind, hjump⟩ := hjump
      exact ⟨t, .reference opcode t.text, rfl, .inr hjump, by
        rw [Item.terminals, terminal_eq_name.mpr ⟨hkind, rfl⟩], h.jump hsize hjump t⟩
    case isFalse =>
      split at hok
      case h_1 => cases hok
      case h_2 n tokens hn =>
        cases hok
        obtain ⟨t', hts, hkind, rfl, hlt⟩ := (literal_eq_ok_of_numbered hnumbered).mp hn
        obtain ⟨rfl, rfl⟩ := List.cons.inj hts
        exact ⟨t, .literal opcode t.lexeme, rfl, ⟨hdefined, hoperand, hlt⟩, by
          rw [Item.terminals, terminal_eq_number.mpr ⟨hkind, rfl⟩], h.literal hsize opcode _⟩

theorem defined_of_reference (h : opcode = .call ∨ opcode.isJump) :
    opcode ∈ Opcode.defined ∧ opcode.hasOperand := by
  obtain rfl | h := h
  · decide
  · cases opcode <;> first | decide | cases h

theorem operand_of_literal (h : Reads start items d l) (hsize : d.code.size < maxInstructions)
    (hnumbered : Numbered (t :: rest)) {lexeme : List Char} (ht : t.terminal = .number lexeme)
    (hlt : denoted lexeme < 2 ^ opcode.operandWidth) :
    ∃ p, operand opcode d l (t :: rest) = .ok p rest ∧
      Reads start (items ++ [.literal opcode lexeme]) p.1 p.2 := by
  obtain ⟨hkind, rfl⟩ := terminal_eq_number.mp ht
  have hn := (literal_eq_ok_of_numbered hnumbered).mpr ⟨t, rfl, hkind, rfl, hlt⟩
  refine ⟨(d.push (.ofNat opcode (denoted t.lexeme)), l), ?_, h.literal hsize opcode _⟩
  simp [operand, hkind, hn]

theorem operand_of_reference (h : Reads start items d l) (hsize : d.code.size < maxInstructions)
    (ht : t.terminal = .name name) (hopcode : opcode = .call ∨ opcode.isJump) (rest : List Token) :
    ∃ p, operand opcode d l (t :: rest) = .ok p rest ∧
      Reads start (items ++ [.reference opcode name]) p.1 p.2 := by
  obtain ⟨hkind, rfl⟩ := terminal_eq_name.mp ht
  by_cases hcall : opcode = .call
  · subst hcall
    exact ⟨_, by rw [operand, if_pos ⟨hkind, rfl⟩], h.call hsize t⟩
  · have hjump := hopcode.resolve_left hcall
    exact ⟨_, by rw [operand, if_neg fun h => hcall h.2, if_pos ⟨hkind, hjump⟩],
      h.jump hsize hjump t⟩

/-! ## Bodies -/

/-- **What the parser reads is a sequence of items.** -/
theorem reads_of_body (h : Reads start items d l) (hnumbered : Numbered ts) {p : Draft × Labels}
    (hok : body d l ts = .ok p rest) :
    ∃ more, (∀ i ∈ more, Item.IsGrammatical i) ∧
      Spells (more.flatMap Item.terminals ++ [.symbol .braceClose]) ts rest ∧
      Reads start (items ++ more) p.1 p.2 := by
  fun_induction body d l ts generalizing items with
  | case1 | case3 | case4 | case5 | case6 | case8 | case9 | case10 => cases hok
  | case2 d l t ts hbrace =>
    cases hok
    refine ⟨[], nofun, ?_, by simpa using h⟩
    simpa [spells_cons, terminal_eq_symbol] using hbrace
  | case7 d l t _ _ hname next after hcolon l' hdeclare ih =>
    obtain ⟨-, hnone⟩ | ⟨-, l'', hsome, hreads⟩ := h.declare t.text
    · rw [hnone] at hdeclare
      cases hdeclare
    obtain rfl : l'' = l' := Option.some.inj (hsome.symm.trans hdeclare)
    obtain ⟨more, hmore, hspells, hreads'⟩ := ih hreads hnumbered.tail.tail hok
    refine ⟨.label t.text :: more, List.forall_mem_cons.mpr ⟨trivial, hmore⟩, ?_,
      by simpa using hreads'⟩
    simp only [List.flatMap_cons, Item.terminals, List.cons_append, List.nil_append]
    exact spells_cons.mpr ⟨t, _, rfl, terminal_eq_name.mpr ⟨not_not.mp hname, rfl⟩,
      spells_cons.mpr ⟨next, _, rfl, terminal_eq_symbol.mpr ⟨hcolon, nofun, nofun⟩, hspells⟩⟩
  | case11 d l t _ _ hname next after _ opcode hopcode hsize hoperand d' l' tokens hok' ih =>
    obtain ⟨hdefined, hopname⟩ := ofName?_eq_some.mp hopcode
    obtain ⟨_, i, hts, hi, hterminals, hreads⟩ := reads_of_operand h (Nat.not_le.mp hsize) hdefined
      hoperand hnumbered.tail hok'
    obtain ⟨rfl, rfl⟩ := List.cons.inj hts
    obtain ⟨more, hmore, hspells, hreads'⟩ := ih hreads hnumbered.tail.tail hok
    refine ⟨i :: more, List.forall_mem_cons.mpr ⟨hi, hmore⟩, ?_, by simpa using hreads'⟩
    simp only [List.flatMap_cons, hterminals, List.cons_append, List.nil_append]
    exact spells_cons.mpr ⟨t, _, rfl, terminal_eq_name.mpr ⟨not_not.mp hname, hopname.symm⟩,
      spells_cons.mpr ⟨next, _, rfl, rfl, hspells⟩⟩
  | case12 d l t _ _ hname next after _ opcode hopcode hsize hoperand ih =>
    obtain ⟨hdefined, hopname⟩ := ofName?_eq_some.mp hopcode
    obtain ⟨more, hmore, hspells, hreads'⟩ := ih (h.plain (Nat.not_le.mp hsize) opcode)
      hnumbered.tail hok
    refine ⟨.plain opcode :: more, List.forall_mem_cons.mpr
      ⟨⟨hdefined, Bool.eq_false_iff.mpr hoperand⟩, hmore⟩, ?_, by simpa using hreads'⟩
    simp only [List.flatMap_cons, Item.terminals, List.cons_append, List.nil_append]
    exact spells_cons.mpr ⟨t, _, rfl, terminal_eq_name.mpr ⟨not_not.mp hname, hopname.symm⟩, hspells⟩

theorem exists_cons_of_spells {more : List Item}
    (h : Spells (more.flatMap Item.terminals ++ [.symbol .braceClose]) ts rest) :
    ∃ next after, ts = next :: after ∧ next.kind ≠ .colon ∧ next.kind ≠ .keywordLocals := by
  have hkind {s : Terminal} {ss : List Terminal} (hs : Spells (s :: ss) ts rest)
      (hne : s ≠ .symbol .colon) (hne' : s ≠ .symbol .keywordLocals) :
      ∃ next after, ts = next :: after ∧ next.kind ≠ .colon ∧ next.kind ≠ .keywordLocals := by
    obtain ⟨next, after, rfl, hnext, -⟩ := spells_cons.mp hs
    exact ⟨next, after, rfl,
      fun hcolon => hne (hnext ▸ terminal_eq_symbol.mpr ⟨hcolon, nofun, nofun⟩),
      fun hlocals => hne' (hnext ▸ terminal_eq_symbol.mpr ⟨hlocals, nofun, nofun⟩)⟩
  obtain _ | ⟨i, more⟩ := more
  · exact hkind h nofun nofun
  · cases i <;> exact hkind h nofun nofun

theorem body_brace (ht : t.kind = .braceClose) : body d l (t :: rest) = .ok (d, l) rest := by
  cases rest <;> simp [body, ht]

section

variable {next : Token} {after : List Token}

theorem body_label (ht : t.kind = .identifier) {l' : Labels} (hnext : next.kind = .colon)
    (hdeclare : l.declare t.text d.position = some l') :
    body d l (t :: next :: after) = body d l' after := by
  simp [body, ht, hnext, hdeclare]

variable (ht : t.terminal = .name opcode.name) (hdefined : opcode ∈ Opcode.defined)
  (hnext : next.kind ≠ .colon) (hsize : d.code.size < maxInstructions)
include ht hdefined hnext hsize

theorem body_plain (hoperand : opcode.hasOperand = false) :
    body d l (t :: next :: after) = body (d.push ⟨opcode, 0⟩) l (next :: after) := by
  obtain ⟨hkind, hname⟩ := terminal_eq_name.mp ht
  have hopcode := ofName?_eq_some.mpr ⟨hdefined, hname.symm⟩
  simp [body, hkind, hnext, hopcode, hoperand, Nat.not_le.mpr hsize]

theorem body_operand (hoperand : opcode.hasOperand) {p : Draft × Labels}
    (hok : operand opcode d l (next :: after) = .ok p after) :
    body d l (t :: next :: after) = body p.1 p.2 after := by
  obtain ⟨hkind, hname⟩ := terminal_eq_name.mp ht
  have hopcode := ofName?_eq_some.mpr ⟨hdefined, hname.symm⟩
  simp [body, hkind, hnext, hopcode, hoperand, Nat.not_le.mpr hsize, hok]

end

theorem body_item {next : Token} {after : List Token} (h : Reads start items d l)
    (hnumbered : Numbered ts) (hi : i.IsGrammatical) (hspells : Spells i.terminals ts (next :: after))
    (hnext : next.kind ≠ .colon) (hroom : i.isInstruction → d.code.size < maxInstructions)
    (hnew : ∀ name ∈ i.label?, name ∉ declared items) :
    ∃ p : Draft × Labels, body d l ts = body p.1 p.2 (next :: after) ∧
      Reads start (items ++ [i]) p.1 p.2 := by
  cases i with
  | label name =>
    obtain ⟨t, _, rfl, ht, hmid⟩ := spells_cons.mp hspells
    obtain ⟨colon, _, rfl, hcolon, hafter⟩ := spells_cons.mp hmid
    obtain rfl := spells_nil.mp hafter
    obtain ⟨hkind, rfl⟩ := terminal_eq_name.mp ht
    obtain ⟨hmem, -⟩ | ⟨-, l', hdeclare, hreads⟩ := h.declare t.text
    · exact absurd hmem (hnew t.text rfl)
    · exact ⟨(d, l'), body_label hkind (terminal_eq_symbol.mp hcolon).1 hdeclare, hreads⟩
  | plain opcode =>
    obtain ⟨t, _, rfl, ht, hafter⟩ := spells_cons.mp hspells
    obtain rfl := spells_nil.mp hafter
    exact ⟨(d.push ⟨opcode, 0⟩, l), body_plain ht hi.1 hnext (hroom rfl) hi.2,
      h.plain (hroom rfl) opcode⟩
  | literal opcode lexeme =>
    obtain ⟨t, _, rfl, ht, hmid⟩ := spells_cons.mp hspells
    obtain ⟨number, _, rfl, hnumber, hafter⟩ := spells_cons.mp hmid
    obtain rfl := spells_nil.mp hafter
    obtain ⟨hdefined, hoperand, hlt⟩ := hi
    obtain ⟨p, hp, hreads⟩ := operand_of_literal h (hroom rfl) hnumbered.tail hnumber hlt
    have hcolon : number.kind ≠ .colon := by
      rw [(terminal_eq_number.mp hnumber).1]; nofun
    exact ⟨p, body_operand ht hdefined hcolon (hroom rfl) hoperand hp, hreads⟩
  | reference opcode name =>
    obtain ⟨t, _, rfl, ht, hmid⟩ := spells_cons.mp hspells
    obtain ⟨operand, _, rfl, hname, hafter⟩ := spells_cons.mp hmid
    obtain rfl := spells_nil.mp hafter
    obtain ⟨hdefined, hoperand⟩ := defined_of_reference hi
    obtain ⟨p, hp, hreads⟩ := operand_of_reference h (hroom rfl) hname hi (next :: after)
    have hcolon : operand.kind ≠ .colon := by
      rw [(terminal_eq_name.mp hname).1]; nofun
    exact ⟨p, body_operand ht hdefined hcolon (hroom rfl) hoperand hp, hreads⟩

/-- **And every sequence of items is read.** -/
theorem body_of_spells {more : List Item} (h : Reads start items d l) (hnumbered : Numbered ts)
    (hmore : ∀ i ∈ more, Item.IsGrammatical i)
    (hspells : Spells (more.flatMap Item.terminals ++ [.symbol .braceClose]) ts rest)
    (hnodup : (declared (items ++ more)).Nodup)
    (hsize : (items ++ more).countP Item.isInstruction ≤ maxInstructions) :
    ∃ p, body d l ts = .ok p rest ∧ Reads start (items ++ more) p.1 p.2 := by
  induction more generalizing items d l ts with
  | nil =>
    obtain ⟨t, mid, rfl, ht, hmid⟩ := spells_cons.mp hspells
    obtain rfl := spells_nil.mp hmid
    exact ⟨(d, l), body_brace (terminal_eq_symbol.mp ht).1, by simpa using h⟩
  | cons i more ih =>
    obtain ⟨hi, hrest⟩ := List.forall_mem_cons.mp hmore
    rw [List.flatMap_cons, List.append_assoc] at hspells
    obtain ⟨mid, hitem, hmid⟩ := spells_append.mp hspells
    obtain ⟨next, after, rfl, hnext, -⟩ := exists_cons_of_spells hmid
    have hassoc : items ++ i :: more = (items ++ [i]) ++ more := by simp
    rw [hassoc] at hnodup hsize ⊢
    have hroom (hi : i.isInstruction) : d.code.size < maxInstructions := by
      rw [List.countP_append, List.countP_append, List.countP_singleton, if_pos hi,
        ← h.size_eq] at hsize
      omega
    have hnew : ∀ name ∈ i.label?, name ∉ declared items := by
      intro name hname hmem
      rw [declared, List.filterMap_append, List.filterMap_append] at hnodup
      exact (List.nodup_append'.mp (List.nodup_append'.mp hnodup).1).2.2 hmem
        (List.mem_filterMap.mpr ⟨i, List.mem_singleton_self i, hname⟩)
    obtain ⟨p, hbody, hreads⟩ := body_item h hnumbered hi hitem hnext hroom hnew
    rw [hbody]
    exact ih hreads (hnumbered.of_spells hitem) hrest hmid hnodup hsize

end

end StackCircuit.Assembly
