import StackCircuit.Proofs.Bytecode.Structured

/-!
# Where control goes in structured code

Control only moves forward in structured code, whichever of its conditions are known: a known
condition selects an arm within the running block, an unknown one has all arms executed.

* **`Flows f q e`**: from position `q` on, control gets to position `e` in all of these ways.
* `Flows.plain_inv`, `Flows.jump_inv`, `Flows.conditional_inv`: where it goes in one step.
* `Flows.trans`: from one place to the next.
* **`Flows.of_structured`**: control gets through structured code.
-/

namespace StackCircuit.Machine

open Bytecode (Function Instruction Structured)

/-- **Control gets from one position to another**, whichever conditions on the way are known. -/
inductive Flows (f : Function) : ℕ → ℕ → Prop
  | done {e : ℕ} : Flows f e e
  | plain {q e : ℕ} {i : Instruction} (hi : f.code[q]? = some i) (hjump : i.opcode.isJump = false)
      (hnext : Flows f (q + 1) e) : Flows f q e
  | jump {q e : ℕ} {i : Instruction} (hi : f.code[q]? = some i) (hop : i.opcode = .branch)
      (hlt : q < i.target.toNat) (hnext : Flows f i.target.toNat e) : Flows f q e
  -- A conditional with one arm, which is executed or not.
  | oneArmed {q e : ℕ} {i : Instruction} {start stop : UInt16} (hi : f.code[q]? = some i)
      (hop : i.opcode.isConditionalBranch = true) (htarget : i.target.toNat = q + 2)
      (hbounds : Frame.armBounds f (.ofNat q) = .ok ((start, stop), none))
      (hstart : start.toNat = q + 2) (hne : q + 2 ≤ stop.toNat)
      (harm : Flows f (q + 2) (stop.toNat + 1)) (hrest : Flows f (stop.toNat + 1) e)
      (helse : Flows f (q + 1) e) : Flows f q e
  -- A conditional with two arms, of which one or both are executed.
  | twoArmed {q e : ℕ} {i : Instruction} {start stop start' stop' : UInt16}
      (hi : f.code[q]? = some i) (hop : i.opcode.isConditionalBranch = true)
      (htarget : i.target.toNat = q + 2)
      (hbounds : Frame.armBounds f (.ofNat q) = .ok ((start, stop), some (start', stop')))
      (hstart : start.toNat = q + 2) (hne : q + 2 ≤ stop.toNat) (hstart' : q + 2 ≤ start'.toNat)
      (hne' : start'.toNat ≤ stop'.toNat) (hfirst : Flows f (q + 2) (stop.toNat + 1))
      (hskip : Flows f (stop.toNat + 1) (stop'.toNat + 1))
      (hsecond : Flows f start'.toNat (stop'.toNat + 1)) (hrest : Flows f (stop'.toNat + 1) e)
      (helse : Flows f (q + 1) e) : Flows f q e

namespace Flows

variable {f : Function} {q e e' : ℕ} {i : Instruction}

theorem le (h : Flows f q e) : q ≤ e := by
  induction h with
  | done => exact Nat.le_refl _
  | plain _ _ _ ih => omega
  | jump _ _ hlt _ ih => omega
  | oneArmed _ _ _ _ _ _ _ _ _ _ _ ih => omega
  | twoArmed _ _ _ _ _ _ _ _ _ _ _ _ _ _ _ _ _ ih => omega

theorem trans (h : Flows f q e) (h' : Flows f e e') : Flows f q e' := by
  induction h with
  | done => exact h'
  | plain hi hjump _ ih => exact .plain hi hjump (ih h')
  | jump hi hop hlt _ ih => exact .jump hi hop hlt (ih h')
  | oneArmed hi hop htarget hbounds hstart hne harm _ _ _ ihrest ihelse =>
    exact .oneArmed hi hop htarget hbounds hstart hne harm (ihrest h') (ihelse h')
  | twoArmed hi hop htarget hbounds hstart hne hstart' hne' hfirst hskip hsecond _ _ _ _ _ ihrest
      ihelse =>
    exact .twoArmed hi hop htarget hbounds hstart hne hstart' hne' hfirst hskip hsecond (ihrest h')
      (ihelse h')

/-! ## One step -/

theorem plain_inv (h : Flows f q e) (hlt : q < e) (hi : f.code[q]? = some i)
    (hjump : i.opcode.isJump = false) : Flows f (q + 1) e := by
  have conditional {j : Instruction} (hj : f.code[q]? = some j)
      (hop : j.opcode.isConditionalBranch = true) : False := by
    rw [hi] at hj
    cases hj
    exact absurd hop (i.opcode.isJump_eq_false_iff.mp hjump).1
  cases h with
  | done => omega
  | plain _ _ hnext => exact hnext
  | jump hj hop =>
    rw [hi] at hj
    cases hj
    rw [hop] at hjump
    cases hjump
  | oneArmed hj hop => exact (conditional hj hop).elim
  | twoArmed hj hop => exact (conditional hj hop).elim

theorem jump_inv (h : Flows f q e) (hlt : q < e) (hi : f.code[q]? = some i)
    (hop : i.opcode = .branch) : q < i.target.toNat ∧ Flows f i.target.toNat e := by
  have conditional {j : Instruction} (hj : f.code[q]? = some j)
      (hcond : j.opcode.isConditionalBranch = true) : False := by
    rw [hi] at hj
    cases hj
    rw [hop] at hcond
    cases hcond
  cases h with
  | done => omega
  | plain hj hjump =>
    rw [hi] at hj
    cases hj
    rw [hop] at hjump
    cases hjump
  | jump hj _ hlt hnext =>
    rw [hi] at hj
    cases hj
    exact ⟨hlt, hnext⟩
  | oneArmed hj hcond => exact (conditional hj hcond).elim
  | twoArmed hj hcond => exact (conditional hj hcond).elim

theorem conditional_inv (h : Flows f q e) (hlt : q < e) (hi : f.code[q]? = some i)
    (hop : i.opcode.isConditionalBranch = true) :
    i.target.toNat = q + 2 ∧ Flows f (q + 1) e ∧
      ((∃ start stop, Frame.armBounds f (.ofNat q) = .ok ((start, stop), none) ∧
        start.toNat = q + 2 ∧ q + 2 ≤ stop.toNat ∧ Flows f (q + 2) (stop.toNat + 1) ∧
        Flows f (stop.toNat + 1) e) ∨
      ∃ start stop start' stop',
        Frame.armBounds f (.ofNat q) = .ok ((start, stop), some (start', stop')) ∧
        start.toNat = q + 2 ∧ q + 2 ≤ stop.toNat ∧ q + 2 ≤ start'.toNat ∧
        start'.toNat ≤ stop'.toNat ∧ Flows f (q + 2) (stop.toNat + 1) ∧
        Flows f (stop.toNat + 1) (stop'.toNat + 1) ∧
        Flows f start'.toNat (stop'.toNat + 1) ∧ Flows f (stop'.toNat + 1) e) := by
  cases h with
  | done => omega
  | plain hj hjump =>
    rw [hi] at hj
    cases hj
    exact absurd hop (i.opcode.isJump_eq_false_iff.mp hjump).1
  | jump hj hbranch =>
    rw [hi] at hj
    cases hj
    rw [hbranch] at hop
    cases hop
  | oneArmed hj _ htarget hbounds hstart hne harm hrest helse =>
    rw [hi] at hj
    cases hj
    exact ⟨htarget, helse, .inl ⟨_, _, hbounds, hstart, hne, harm, hrest⟩⟩
  | twoArmed hj _ htarget hbounds hstart hne hstart' hne' hfirst hskip hsecond hrest helse =>
    rw [hi] at hj
    cases hj
    exact ⟨htarget, helse,
      .inr ⟨_, _, _, _, hbounds, hstart, hne, hstart', hne', hfirst, hskip, hsecond, hrest⟩⟩

theorem first_arm (h : Flows f q e) (hlt : q < e) (hi : f.code[q]? = some i)
    (hop : i.opcode.isConditionalBranch = true) : Flows f (q + 2) e := by
  obtain ⟨-, -, ⟨_, _, -, -, -, harm, hrest⟩ |
    ⟨_, _, _, _, -, -, -, -, -, hfirst, hskip, -, hrest⟩⟩ := h.conditional_inv hlt hi hop
  · exact harm.trans hrest
  · exact hfirst.trans (hskip.trans hrest)

theorem next_inv (h : Flows f q e) (hlt : q < e) (hi : f.code[q]? = some i)
    (hop : i.opcode ≠ .branch) : Flows f (q + 1) e := by
  by_cases hcond : i.opcode.isConditionalBranch = true
  · exact (h.conditional_inv hlt hi hcond).2.1
  · exact h.plain_inv hlt hi (i.opcode.isJump_eq_false_iff.mpr ⟨hcond, hop⟩)

theorem target_inv (h : Flows f q e) (hlt : q < e) (hi : f.code[q]? = some i)
    (hop : i.opcode.isJump = true) : q ≤ i.target.toNat ∧ Flows f i.target.toNat e := by
  rcases i.opcode.isJump_iff.mp hop with hcond | hbranch
  · rw [(h.conditional_inv hlt hi hcond).1]
    exact ⟨Nat.le_add_right q 2, h.first_arm hlt hi hcond⟩
  · obtain ⟨hlt', hnext⟩ := h.jump_inv hlt hi hbranch
    exact ⟨Nat.le_of_lt hlt', hnext⟩

/-! ## Structured code -/

theorem exists_toNat_eq (hsize : f.code.size < UInt16.size) (hi : f.code[q]? = some i) :
    ∃ pc : UInt16, pc.toNat = q := by
  have hlt := (Array.getElem?_eq_some_iff.mp hi).1
  exact ⟨.ofNat q, UInt16.toNat_ofNat_of_lt' (Nat.lt_trans hlt hsize)⟩

section Conditionals

variable {branch jump skip : Instruction} {arm first second : List Instruction}

theorem of_oneArmed (hsize : f.code.size < UInt16.size)
    (hcode : f.HasCode q (branch :: jump :: arm)) (hbranch : branch.opcode.isConditionalBranch = true)
    (hstart : branch.target.toNat = q + 2) (hjump : jump.opcode = .branch)
    (hjoin : jump.target.toNat = q + 2 + arm.length) (hne : arm ≠ [])
    (harm : Structured (q + 2) arm) (hflow : Flows f (q + 2) (q + 2 + arm.length))
    (hout : Flows f (q + 2 + arm.length) e) : Flows f q e := by
  obtain ⟨pc, rfl⟩ := exists_toNat_eq hsize hcode.head
  obtain ⟨start, stop, hbounds, hs, he⟩ :=
    Frame.armBounds_oneArmed hsize hcode hbranch hstart hjump hjoin hne harm
  rw [← @UInt16.ofNat_toNat pc] at hbounds
  have hpos := List.length_pos_iff.mpr hne
  rw [← he] at hflow hout hjoin
  refine .oneArmed hcode.head hbranch hstart hbounds hs (by omega) hflow hout ?_
  refine .jump hcode.tail.head hjump (by omega) ?_
  rwa [hjoin]

theorem of_twoArmed (hsize : f.code.size < UInt16.size)
    (hcode : f.HasCode q (branch :: jump :: (first ++ skip :: second)))
    (hbranch : branch.opcode.isConditionalBranch = true) (hstart : branch.target.toNat = q + 2)
    (hjump : jump.opcode = .branch) (helse : jump.target.toNat = q + 3 + first.length)
    (hskip : skip.opcode = .branch)
    (hjoin : skip.target.toNat = q + 3 + first.length + second.length) (hne : first ≠ [])
    (hne' : second ≠ []) (hfirst : Flows f (q + 2) (q + 2 + first.length))
    (hsecond : Flows f (q + 3 + first.length) (q + 3 + first.length + second.length))
    (hout : Flows f (q + 3 + first.length + second.length) e) : Flows f q e := by
  obtain ⟨pc, rfl⟩ := exists_toNat_eq hsize hcode.head
  obtain ⟨start, stop, start', stop', hbounds, hs, he, hs', he'⟩ :=
    Frame.armBounds_twoArmed hsize hcode hbranch hstart hjump helse hskip hjoin hne hne'
  rw [← @UInt16.ofNat_toNat pc] at hbounds
  have hpos := List.length_pos_iff.mpr hne
  have hpos' := List.length_pos_iff.mpr hne'
  have hmiddle : f.code[stop.toNat + 1]? = some skip := by
    rw [he]
    exact hcode.tail.tail.right.head
  rw [← he', ← hs'] at hsecond
  rw [← he'] at hout hjoin
  rw [← hs'] at helse
  rw [← he] at hfirst
  refine .twoArmed hcode.head hbranch hstart hbounds hs (by omega) (by omega) (by omega) hfirst ?_
    hsecond hout ?_
  · refine .jump hmiddle hskip (by omega) ?_
    rw [hjoin]
    exact .done
  · refine .jump hcode.tail.head hjump (by omega) ?_
    rw [helse]
    exact hsecond.trans hout

end Conditionals

/-- **Control gets through structured code.** -/
theorem of_structured {code : List Instruction} (hs : Structured q code)
    (hsize : f.code.size < UInt16.size) (hcode : f.HasCode q code)
    (hrest : Flows f (q + code.length) e) : Flows f q e := by
  induction hs generalizing e with
  | nil => exact hrest
  | @plain q i rest hi _ ih =>
    refine .plain hcode.head hi (ih hcode.tail ?_)
    rwa [Nat.add_assoc, Nat.add_comm 1]
  | @oneArmed q branch jump arm rest hbranch hstart hjump hjoin hne harm _ iharm ihrest =>
    rw [← List.cons_append, ← List.cons_append] at hcode
    have hlen : q + (branch :: jump :: arm).length = q + 2 + arm.length := by simp; omega
    have hright := hcode.right
    rw [hlen] at hright
    refine of_oneArmed hsize hcode.left hbranch hstart hjump hjoin hne harm
      (iharm hcode.left.tail.tail .done) (ihrest hright ?_)
    rwa [show q + 2 + arm.length + rest.length = q + (branch :: jump :: (arm ++ rest)).length by
      simp; omega]
  | @twoArmed q branch jump skip first second rest hbranch hstart hjump helse hskip hjoin hne hfirst
      hne' hsecond hrest ihfirst ihsecond ihrest =>
    have hcode' : f.HasCode q ((branch :: jump :: (first ++ skip :: second)) ++ rest) := by
      simpa using hcode
    have hlen : q + (branch :: jump :: (first ++ skip :: second)).length =
        q + 3 + first.length + second.length := by simp; omega
    have hright := hcode'.right
    rw [hlen] at hright
    have harms := hcode'.left.tail.tail
    have hsecond' := harms.right.tail
    rw [show q + 1 + 1 + first.length + 1 = q + 3 + first.length by omega] at hsecond'
    refine of_twoArmed hsize hcode'.left hbranch hstart hjump helse hskip hjoin hne hne'
      (ihfirst harms.left .done) (ihsecond hsecond' .done) (ihrest hright ?_)
    rwa [show q + 3 + first.length + second.length + rest.length =
      q + (branch :: jump :: (first ++ skip :: (second ++ rest))).length by simp; omega]

end Flows

end StackCircuit.Machine
