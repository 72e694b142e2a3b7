import StackCircuit.Proofs.Bytecode.Structured

/-!
# Structured code as choices between bodies

Structured code is another spelling of a tree: instructions that do not jump follow each other, and a
conditional chooses between two bodies. The jumps are gone from the tree.

* `Body`: the trees.
* **`Reads p code body`**: the code at a position of a function, read as a body.
* `Structured.exists_reads`, `Reads.unique`: there is one way to read structured code.
* `Program.IsReadAs`: all functions of a program, read as bodies; **`Program.IsStructured.reading`**: there
  is one way to do this for a structured program.
-/

namespace StackCircuit.Bytecode

/-- **A body**: instructions that do not jump, with their positions, one after the other, and choices
between two bodies, of which the first is for a condition with a given value. -/
inductive Body where
  | done
  | plain (pc : ℕ) (i : Instruction) (rest : Body)
  | choice (onTrue : Bool) (first second rest : Body)
deriving DecidableEq, Repr

/-- **Code at a position, read as a body.** A conditional with one arm has nothing else to choose. -/
inductive Reads : ℕ → List Instruction → Body → Prop
  | done {p : ℕ} : Reads p [] .done
  | plain {p : ℕ} {i : Instruction} {code : List Instruction} {rest : Body}
      (hi : i.opcode.isJump = false) (hrest : Reads (p + 1) code rest) :
    Reads p (i :: code) (.plain p i rest)
  | oneArmed {p : ℕ} {branch jump : Instruction} {arm code : List Instruction} {first rest : Body}
      (hbranch : branch.opcode.isConditionalBranch = true) (hstart : branch.target.toNat = p + 2)
      (hjump : jump.opcode = .branch) (hjoin : jump.target.toNat = p + 2 + arm.length)
      (hne : arm ≠ []) (harm : Reads (p + 2) arm first)
      (hrest : Reads (p + 2 + arm.length) code rest) :
    Reads p (branch :: jump :: (arm ++ code)) (.choice (branch.opcode = .brTrue) first .done rest)
  | twoArmed {p : ℕ} {branch jump skip : Instruction} {arm arm' code : List Instruction}
      {first second rest : Body}
      (hbranch : branch.opcode.isConditionalBranch = true) (hstart : branch.target.toNat = p + 2)
      (hjump : jump.opcode = .branch) (helse : jump.target.toNat = p + 3 + arm.length)
      (hskip : skip.opcode = .branch)
      (hjoin : skip.target.toNat = p + 3 + arm.length + arm'.length)
      (hne : arm ≠ []) (hfirst : Reads (p + 2) arm first)
      (hne' : arm' ≠ []) (hsecond : Reads (p + 3 + arm.length) arm' second)
      (hrest : Reads (p + 3 + arm.length + arm'.length) code rest) :
    Reads p (branch :: jump :: (arm ++ skip :: (arm' ++ code)))
      (.choice (branch.opcode = .brTrue) first second rest)

variable {p : ℕ} {code : List Instruction} {body body' : Body}

theorem Reads.structured (h : Reads p code body) : Structured p code := by
  induction h with
  | done => exact .nil
  | plain hi _ ih => exact .plain hi ih
  | oneArmed hbranch hstart hjump hjoin hne _ _ iharm ihrest =>
    exact .oneArmed hbranch hstart hjump hjoin hne iharm ihrest
  | twoArmed hbranch hstart hjump helse hskip hjoin hne _ hne' _ _ ihfirst ihsecond ihrest =>
    exact .twoArmed hbranch hstart hjump helse hskip hjoin hne ihfirst hne' ihsecond ihrest

theorem Structured.exists_reads (h : Structured p code) : ∃ body, Reads p code body := by
  induction h with
  | nil => exact ⟨_, .done⟩
  | plain hi _ ih =>
    obtain ⟨rest, hrest⟩ := ih
    exact ⟨_, .plain hi hrest⟩
  | oneArmed hbranch hstart hjump hjoin hne _ _ iharm ihrest =>
    obtain ⟨first, hfirst⟩ := iharm
    obtain ⟨rest, hrest⟩ := ihrest
    exact ⟨_, .oneArmed hbranch hstart hjump hjoin hne hfirst hrest⟩
  | twoArmed hbranch hstart hjump helse hskip hjoin hne _ hne' _ _ ihfirst ihsecond ihrest =>
    obtain ⟨first, hfirst⟩ := ihfirst
    obtain ⟨second, hsecond⟩ := ihsecond
    obtain ⟨rest, hrest⟩ := ihrest
    exact ⟨_, .twoArmed hbranch hstart hjump helse hskip hjoin hne hfirst hne' hsecond hrest⟩

theorem Reads.ne_append_jump {skip : Instruction} {arm code code' : List Instruction}
    (h : Reads p arm body) (hskip : skip.opcode = .branch) {first : List Instruction}
    (hlength : arm.length = first.length + 1) (hcode : arm ++ code = first ++ skip :: code') :
    False := by
  have harm : arm = first ++ [skip] :=
    (List.append_inj (hcode.trans (List.append_cons first skip code')) (by simp [hlength])).1
  have hjump := h.structured.getLast_isJump (i := skip) (by rw [harm, List.getLast?_concat])
  rw [hskip] at hjump
  cases hjump

/-- **There is one way to read code.** What stands in front of the end of the first arm tells whether
there is a second one. -/
theorem Reads.unique (h : Reads p code body) (h' : Reads p code body') : body = body' := by
  induction h generalizing body' with
  | done =>
    cases h'
    rfl
  | plain hi _ ih =>
    have hno := (Opcode.isJump_eq_false_iff _).mp hi
    cases h' with
    | plain _ hrest => rw [ih hrest]
    | oneArmed hbranch => exact absurd hbranch hno.1
    | twoArmed hbranch => exact absurd hbranch hno.1
  | @oneArmed p branch jump arm code first rest hbranch _ _ hjoin _ harm _ iharm ihrest =>
    generalize hlist : branch :: jump :: (arm ++ code) = list at h'
    cases h' with
    | done => cases hlist
    | plain hi =>
      cases hlist
      exact absurd hbranch ((Opcode.isJump_eq_false_iff _).mp hi).1
    | oneArmed _ _ _ hjoin' _ harm' hrest' =>
      obtain ⟨rfl, rfl, hcode⟩ : _ ∧ _ ∧ _ := by simpa using hlist
      obtain ⟨rfl, rfl⟩ := List.append_inj hcode (by omega)
      rw [iharm harm', ihrest hrest']
    | twoArmed _ _ _ helse' hskip' _ _ _ _ _ _ =>
      obtain ⟨rfl, rfl, hcode⟩ : _ ∧ _ ∧ _ := by simpa using hlist
      exact (harm.ne_append_jump hskip' (by omega) hcode).elim
  | @twoArmed p branch jump skip arm arm' code first second rest hbranch _ _ helse hskip hjoin _ _ _ _ _
      ihfirst ihsecond ihrest =>
    generalize hlist : branch :: jump :: (arm ++ skip :: (arm' ++ code)) = list at h'
    cases h' with
    | done => cases hlist
    | plain hi =>
      cases hlist
      exact absurd hbranch ((Opcode.isJump_eq_false_iff _).mp hi).1
    | oneArmed _ _ _ hjoin' _ harm' hrest' =>
      obtain ⟨rfl, rfl, hcode⟩ : _ ∧ _ ∧ _ := by simpa using hlist
      exact (harm'.ne_append_jump hskip (by omega) hcode.symm).elim
    | twoArmed _ _ _ helse' _ hjoin' _ hfirst' _ hsecond' hrest' =>
      obtain ⟨rfl, rfl, hcode⟩ : _ ∧ _ ∧ _ := by simpa using hlist
      obtain ⟨rfl, htail⟩ := List.append_inj hcode (by omega)
      obtain ⟨rfl, hsecond⟩ := List.cons_eq_cons.mp htail
      obtain ⟨rfl, rfl⟩ := List.append_inj hsecond (by omega)
      rw [ihfirst hfirst', ihsecond hsecond', ihrest hrest']

/-! ## Programs -/

/-- **A program whose functions are read as given bodies.** -/
def Program.IsReadAs (m : Program) (bodies : UInt16 → Body) : Prop :=
  ∀ index f, m.function? index = some f → f.code.size ≤ 65535 ∧ Reads 0 f.code.toList (bodies index)

/-- **The functions of a structured program can be read as bodies, in one way.** -/
theorem Program.IsStructured.reading {m : Program} (h : m.IsStructured) :
    ∃ bodies, m.IsReadAs bodies ∧ ∀ bodies', m.IsReadAs bodies' →
      ∀ index f, m.function? index = some f → bodies' index = bodies index := by
  have hbody (index : UInt16) : ∃ body, ∀ f, m.function? index = some f →
      f.code.size ≤ 65535 ∧ Reads 0 f.code.toList body := by
    cases hf : m.function? index with
    | none => exact ⟨.done, nofun⟩
    | some f =>
      obtain ⟨hsize, hstructured⟩ := h f (Array.mem_of_getElem? hf)
      obtain ⟨body, hbody⟩ := hstructured.exists_reads
      exact ⟨body, fun g hg => by cases hg; exact ⟨hsize, hbody⟩⟩
  choose bodies hbodies using hbody
  refine ⟨bodies, hbodies, fun bodies' hbodies' index f hf => ?_⟩
  exact (hbodies' index f hf).2.unique (hbodies index f hf).2

end StackCircuit.Bytecode
