import StackCircuit.Proofs.Assembly.Bodies
import StackCircuit.Proofs.Bytecode.Lookup

/-!
# Patches

Once a body is read, its jumps are patched, and once a file is read, its calls.

* **`patchAll_eq_ok`**: patching succeeds if every name stands for something, and gives the code in which
  names stand for that.
* `Draft.Shows`: what a draft says about a declaration; `Reads.resolve` and `Draft.Shows.link`: patching
  the jumps and the calls.
-/

namespace StackCircuit.Assembly

open Bytecode (Function Instruction Opcode)

variable {items : List Item} {name : String}

theorem instructions_congr {target target' : Opcode → String → ℕ}
    (h : ∀ opcode name, .reference opcode name ∈ items → target opcode name = target' opcode name) :
    instructions target items = instructions target' items := by
  refine List.filterMap_congr fun i hi => ?_
  cases i with
  | reference opcode name => rw [Item.instruction?, Item.instruction?, h opcode name hi]
  | _ => rfl

theorem instructions_cons (target : Opcode → String → ℕ) (i : Item) (items : List Item) :
    instructions target (i :: items) = (i.instruction? target).toList ++ instructions target items := by
  cases h : i.instruction? target <;> simp [instructions, h]

/-- What names stand for after patching: something new after operations with a given property. -/
def patched (value? : String → Option UInt64) (p : Opcode → Bool) (target : Opcode → String → ℕ)
    (opcode : Opcode) (name : String) : ℕ :=
  if p opcode then ((value? name).getD 0).toNat else target opcode name

variable {value? : String → Option UInt64} {p : Opcode → Bool} {target : Opcode → String → ℕ}

theorem instruction?_patched {i : Item} (h : i.use? p = none) :
    i.instruction? (patched value? p target) = i.instruction? target := by
  cases i with
  | reference opcode name =>
    have hp : p opcode = false := by simpa [Item.use?] using h
    simp [Item.instruction?, patched, hp]
  | _ => rfl

theorem eq_reference_of_use? {i : Item} (h : i.use? p = some name) :
    ∃ opcode, i = .reference opcode name ∧ p opcode := by
  cases i with
  | reference opcode name' =>
    obtain ⟨hp, rfl⟩ : p opcode ∧ name' = name := by simpa [Item.use?] using h
    exact ⟨opcode, rfl, hp⟩
  | _ => cases h

theorem forall_reference_cons {i : Item} {P : String → Prop} :
    (∀ opcode name, .reference opcode name ∈ i :: items → p opcode → P name) ↔
      (∀ name ∈ i.use? p, P name) ∧
        ∀ opcode name, .reference opcode name ∈ items → p opcode → P name := by
  constructor
  · refine fun h => ⟨fun name huse => ?_, fun o n hn => h o n (List.mem_cons_of_mem _ hn)⟩
    obtain ⟨opcode, rfl, hp⟩ := eq_reference_of_use? huse
    exact h opcode name List.mem_cons_self hp
  · rintro ⟨hi, hitems⟩ opcode name hname hp
    obtain rfl | hname := List.mem_cons.mp hname
    · exact hi name (by simp [Item.use?, hp])
    · exact hitems opcode name hname hp

/-- **Patching gives names what they stand for.** -/
theorem patchAll_eq_ok {uses : List Reference} {before : List Instruction}
    {code code' : Array Instruction}
    (huses : uses.map Reference.use = usesFrom p before.length items)
    (hcode : code.toList = before ++ instructions target items) :
    patchAll value? uses code = .ok (code', none) ↔
      (∀ opcode name, .reference opcode name ∈ items → p opcode → (value? name).isSome) ∧
        code'.toList = before ++ instructions (patched value? p target) items := by
  induction items generalizing uses before code with
  | nil =>
    obtain rfl := List.map_eq_nil_iff.mp huses
    simp only [patchAll, Except.ok.injEq, Prod.mk.injEq, and_true, List.not_mem_nil, false_imp_iff,
      implies_true, true_and]
    rw [← Array.toList_inj, hcode, eq_comm]
    rfl
  | cons i rest ih =>
    have hlength : (before ++ (i.instruction? target).toList).length =
        before.length + i.isInstruction.toNat := by
      cases i <;> simp [Item.instruction?, Item.isInstruction]
    rw [usesFrom] at huses
    rw [instructions_cons, ← List.append_assoc] at hcode
    rw [forall_reference_cons, instructions_cons]
    cases huse : i.use? p with
    | none =>
      rw [huse, ← hlength] at huses
      rw [ih huses hcode, instruction?_patched huse, List.append_assoc]
      simp
    | some name =>
      obtain ⟨opcode, rfl, hp⟩ := eq_reference_of_use? huse
      obtain ⟨r, uses, rfl, hr, huses⟩ := List.map_eq_cons_iff.mp (by rw [huses, huse]; rfl)
      obtain ⟨hposition, rfl⟩ := Prod.mk.inj hr
      have hsize : r.position.toNat < code.size := by
        rw [hposition, ← Array.length_toList, hcode]
        simp [Item.instruction?]
      rw [patchAll]
      cases hvalue : value? r.name with
      | none =>
        refine iff_of_false (by simp) fun h => ?_
        simpa [hvalue] using h.1.1 r.name rfl
      | some v =>
        have hmodify : (code.modify r.position.toNat fun i =>
            { i with operand := BitVec.ofNat 256 v.toNat }).toList =
              (before ++ [Instruction.ofNat opcode v.toNat]) ++ instructions target rest := by
          rw [Array.toList_modify, hcode, hposition, List.modify_eq_take_drop]
          simp [Item.instruction?, Instruction.ofNat]
        simp only [if_pos hsize]
        rw [ih (by simpa [Item.isInstruction] using huses) hmodify, List.append_assoc]
        simp [Item.instruction?, patched, hp, hvalue]

theorem patchAll_code_eq_ok {uses : List Reference} {code code' : Array Instruction}
    (huses : uses.map Reference.use = usesFrom p 0 items)
    (hcode : code.toList = instructions target items) :
    patchAll value? uses code = .ok (code', none) ↔
      (∀ opcode name, .reference opcode name ∈ items → p opcode → (value? name).isSome) ∧
        code' = (instructions (patched value? p target) items).toArray := by
  have huses' : uses.map Reference.use = usesFrom p ([] : List Instruction).length items := huses
  have hcode' : code.toList = [] ++ instructions target items := hcode
  rw [patchAll_eq_ok huses' hcode', ← Array.toList_inj]
  rfl

/-! ## Jumps -/

theorem position_le (items : List Item) (name : String) :
    position items name ≤ items.countP Item.isInstruction :=
  (List.takeWhile_sublist _).countP_le

/-- **Jumps are patched if and only if their labels are declared.** -/
theorem Reads.resolve_eq_ok {start d d' : Draft} {l : Labels} (h : Reads start items d l) :
    d.resolve l = .ok d' ↔
      (∀ opcode name, .reference opcode name ∈ items → opcode.isJump → name ∈ declared items) ∧
        d' = { d with
          code := (instructions (fun o n => if o.isJump then position items n else 0) items).toArray } := by
  have hresolve : d.resolve l = .ok d' ↔
      ∃ code', l.patch d.code = .ok (code', none) ∧ d' = { d with code := code' } := by
    rw [Draft.resolve]
    rcases l.patch d.code with _ | ⟨code', _ | r⟩ <;> simp [eq_comm]
  simp only [hresolve, Labels.patch, h.labels.position?, patchAll_code_eq_ok h.jumps h.code]
  have hsome (name : String) : (place? items name).isSome ↔ name ∈ declared items := by
    rw [place?]; split <;> simp [*]
  simp only [hsome]
  have hpatched (hdeclared : ∀ opcode name, .reference opcode name ∈ items → opcode.isJump →
      name ∈ declared items) :
      instructions (patched (place? items) Opcode.isJump fun _ _ => 0) items =
        instructions (fun o n => if o.isJump then position items n else 0) items := by
    refine instructions_congr fun o n hn => ?_
    by_cases ho : o.isJump
    · have hlt : position items n < UInt64.size :=
        (position_le items n).trans_lt (h.size_eq ▸ h.size_le.trans_lt (by decide))
      rw [patched, if_pos ho, if_pos ho, place?, if_pos (hdeclared o n hn ho), Option.getD_some,
        UInt64.toNat_ofNat_of_lt' hlt]
    · rw [patched, if_neg ho, if_neg ho]
  constructor
  · rintro ⟨_, ⟨hdeclared, rfl⟩, rfl⟩
    exact ⟨hdeclared, by rw [hpatched hdeclared]⟩
  · rintro ⟨hdeclared, rfl⟩
    exact ⟨_, ⟨hdeclared, rfl⟩, by rw [hpatched hdeclared]⟩

/-! ## Calls -/

/-- The names of functions, in order. -/
def names (drafts : Array Draft) : List String :=
  drafts.toList.map Draft.name

theorem indexOf?_eq (drafts : Array Draft) (name : String) :
    indexOf? drafts name =
      if name ∈ names drafts then some (UInt16.ofNat ((names drafts).idxOf name)) else none := by
  rw [indexOf?, Bytecode.findIdx?_name, ← names]
  split <;> rfl

/-- A draft with its jumps patched shows a declaration, and says where calls are to be patched. -/
structure Draft.Shows (d : Draft) (x : Declaration) : Prop where
  name_eq : d.name = x.name
  params_eq : d.params = x.params
  locals_eq : d.locals = x.localCount
  returns_eq : d.returns = x.returnCount
  code : d.code.toList =
    instructions (fun o n => if o.isJump then Assembly.position x.items n else 0) x.items
  calls : d.calls.toList.map Reference.use = usesFrom (· == .call) 0 x.items

/-- **Calls are linked if and only if their functions are declared.** -/
theorem Draft.Shows.link_eq_ok {d : Draft} {x : Declaration} (h : d.Shows x)
    (hgrammatical : ∀ i ∈ x.items, i.IsGrammatical) (hparams : x.params.length ≤ x.localCount)
    (drafts : Array Draft) {f : Function} :
    d.link drafts = .ok f ↔
      (∀ name, .reference .call name ∈ x.items → name ∈ names drafts) ∧
        f = x.function (names drafts) hparams := by
  have hlink : d.link drafts = .ok f ↔
      ∃ code, patchAll (fun name => (indexOf? drafts name).map (·.toUInt64)) d.calls.toList d.code =
        .ok (code, none) ∧
          Function.ofParts d.name d.params d.locals d.returns code = .ok f := by
    rw [Draft.link]
    rcases patchAll _ d.calls.toList d.code with _ | ⟨code, _ | r⟩
    · simp
    · cases hparts : Function.ofParts d.name d.params d.locals d.returns code <;>
        simp [Except.mapError, hparts]
    · simp
  have hsome (name : String) :
      ((indexOf? drafts name).map (·.toUInt64)).isSome ↔ name ∈ names drafts := by
    rw [indexOf?_eq]
    split <;> simp [*]
  have hpatched (hdeclared : ∀ name, .reference .call name ∈ x.items → name ∈ names drafts) :
      instructions (patched (fun name => (indexOf? drafts name).map (·.toUInt64)) (· == .call)
        fun o n => if o.isJump then Assembly.position x.items n else 0) x.items =
          instructions (x.target (names drafts)) x.items := by
    refine instructions_congr fun o n hn => ?_
    obtain rfl | hjump : o = .call ∨ o.isJump := hgrammatical _ hn
    · rw [patched, if_pos (beq_self_eq_true _), indexOf?_eq, if_pos (hdeclared n hn),
        Declaration.target, if_pos rfl]
      simp
    · have hcall : o ≠ .call := by
        rintro rfl
        cases hjump
      rw [patched, if_neg (by simpa using hcall), if_pos hjump, Declaration.target, if_neg hcall]
  have hparts : Function.ofParts d.name d.params d.locals d.returns
      (instructions (x.target (names drafts)) x.items).toArray =
        .ok (x.function (names drafts) hparams) := by
    rw [h.name_eq, h.params_eq, h.locals_eq, h.returns_eq]
    exact dif_pos hparams
  simp only [hlink, patchAll_code_eq_ok h.calls h.code, hsome, beq_iff_eq]
  constructor
  · rintro ⟨_, ⟨hcalls, rfl⟩, hf⟩
    have hdeclared (name : String) (hname : .reference .call name ∈ x.items) :
        name ∈ names drafts := hcalls _ name hname rfl
    rw [hpatched hdeclared, hparts] at hf
    exact ⟨hdeclared, (Except.ok.inj hf).symm⟩
  · rintro ⟨hdeclared, rfl⟩
    refine ⟨_, ⟨?_, rfl⟩, by rw [hpatched hdeclared, hparts]⟩
    rintro _ name hname rfl
    exact hdeclared name hname

end StackCircuit.Assembly
