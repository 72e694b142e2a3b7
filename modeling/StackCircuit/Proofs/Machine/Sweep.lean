import StackCircuit.Proofs.Bytecode.Structured
import StackCircuit.Proofs.Machine.Layers

/-!
# The sweep over structured code

A frame whose conditions are all unknown goes through structured code once, from its beginning to its
end: the first arm, the second arm, and what follows. At each position, what remains of the running
block is structured, and so is what remains of each block around it.

* **`Fits f id q code n`**: at position `q`, `code` remains of the running block of the nesting `n`.
* `Fits.skip`: what remains behind a part of it.
* `Fits.enter`: what remains in the arms of a conditional.
* **`Fits.settle`**: where the sweep goes on when arms end.
-/

namespace StackCircuit.Machine

open Bytecode (Function Instruction Structured)

/-- **What remains of the running block of a nesting**, in a function whose locals have a given
identifier. -/
inductive Fits (f : Function) (id : ℕ) : ℕ → List Instruction → Nesting → Prop
  | body {q : ℕ} {code : List Instruction} {b : Block} (hcode : f.HasCode q code)
      (hs : Structured q code) (hend : q + code.length = f.code.size) (hb : b.stop = none)
      (hid : b.localsId = id) : Fits f id q code ⟨b, []⟩
  -- The last arm of a conditional is running.
  | last {q : ℕ} {code rest : List Instruction} {body : Block} {l : Layer} {ls : List Layer}
      (hl : l.isLast = true) (hcode : f.HasCode q code) (hs : Structured q code)
      (hstop : l.running.EndsAt (q + code.length)) (hid : l.running.localsId = id)
      (hdepth : ls.length < q) (hout : Fits f id (q + code.length) rest ⟨body, ls⟩) :
    Fits f id q code ⟨body, l :: ls⟩
  -- The first of two arms is running.
  | first {q : ℕ} {code second rest : List Instruction} {skip : Instruction}
      {body b b' : Block} {ls : List Layer} (hcode : f.HasCode q (code ++ skip :: second))
      (hskip : skip.opcode = .branch) (hs : Structured q code)
      (hs' : Structured (q + code.length + 1) second) (hne : second ≠ [])
      (hstop : b.EndsAt (q + code.length)) (hid : b.localsId = id)
      (hpc : b'.pc.toNat = q + code.length + 1)
      (hstop' : b'.EndsAt (q + code.length + 1 + second.length)) (hid' : b'.localsId = id)
      (hdepth : ls.length < q)
      (hout : Fits f id (q + code.length + 1 + second.length) rest ⟨body, ls⟩) :
    Fits f id q code ⟨body, .first b b' :: ls⟩

namespace Fits

variable {f : Function} {id q : ℕ} {code : List Instruction} {n : Nesting}

theorem hasCode (h : Fits f id q code n) : f.HasCode q code := by
  cases h with
  | body hcode => exact hcode
  | last _ hcode => exact hcode
  | first hcode => exact hcode.left

theorem structured (h : Fits f id q code n) : Structured q code := by
  cases h with
  | body _ hs => exact hs
  | last _ _ hs => exact hs
  | first _ _ hs => exact hs

theorem localsId (h : Fits f id q code n) : n.running.localsId = id := by
  cases h with
  | body _ _ _ _ hid => exact hid
  | last _ _ _ _ hid => exact hid
  | first _ _ _ _ _ _ hid => exact hid

theorem stop_body (h : Fits f id q code n) : n.body.stop = none := by
  induction h with
  | body _ _ _ hb => exact hb
  | last _ _ _ _ _ _ _ ih => exact ih
  | first _ _ _ _ _ _ _ _ _ _ _ _ ih => exact ih

theorem le_size (h : Fits f id q code n) : q + code.length ≤ f.code.size := by
  induction h with
  | body _ _ hend => exact Nat.le_of_eq hend
  | last _ _ _ _ _ _ _ ih => omega
  | first _ _ _ _ _ _ _ _ _ _ _ _ ih => omega

theorem depth_le (h : Fits f id q code n) : n.layers.length ≤ q := by
  cases h with
  | body => exact Nat.zero_le _
  | last _ _ _ _ _ hdepth => exact hdepth
  | first _ _ _ _ _ _ _ _ _ _ hdepth => exact hdepth

theorem endsAt (h : Fits f id q code n) (hn : n.layers ≠ []) :
    n.running.EndsAt (q + code.length) := by
  cases h with
  | body => exact absurd rfl hn
  | last _ _ _ hstop => exact hstop
  | first _ _ _ _ _ hstop => exact hstop

theorem setPc (h : Fits f id q code n) (pc : UInt16) : Fits f id q code (n.setPc pc) := by
  cases h with
  | body hcode hs hend hb hid => exact .body hcode hs hend hb hid
  | @last _ _ rest body l ls hl hcode hs hstop hid hdepth hout =>
    refine .last ?_ hcode hs ?_ ?_ hdepth hout
    · cases l <;> exact hl
    · rw [l.running_setPc]; exact hstop
    · rw [l.running_setPc]; exact hid
  | first hcode hskip hs hs' hne hstop hid hpc hstop' hid' hdepth hout =>
    exact .first hcode hskip hs hs' hne hstop hid hpc hstop' hid' hdepth hout

/-- **What remains behind a part.** -/
theorem skip {part rest : List Instruction} (h : Fits f id q (part ++ rest) n)
    (hrest : Structured (q + part.length) rest) : Fits f id (q + part.length) rest n := by
  have hlen : q + (part ++ rest).length = q + part.length + rest.length := by
    rw [List.length_append, Nat.add_assoc]
  cases h with
  | body hcode hs hend hb hid => exact .body hcode.right hrest (hlen ▸ hend) hb hid
  | last hl hcode hs hstop hid hdepth hout =>
    rw [hlen] at hstop hout
    exact .last hl hcode.right hrest hstop hid (by omega) hout
  | first hcode hskip hs hs' hne hstop hid hpc hstop' hid' hdepth hout =>
    rw [hlen] at hs' hstop hpc hstop' hout
    rw [List.append_assoc] at hcode
    exact .first hcode.right hskip hrest hs' hne hstop hid hpc hstop' hid' (by omega) hout

theorem next {i : Instruction} (h : Fits f id q (i :: code) n) (hi : i.opcode.isJump = false) :
    Fits f id (q + 1) code n := by
  have hpart : Fits f id q ([i] ++ code) n := h
  exact hpart.skip (h.structured.tail hi)

theorem outer {body : Block} {l : Layer} {ls : List Layer} (h : Fits f id q [] ⟨body, l :: ls⟩)
    (hl : l.isLast = true) : ∃ rest, Fits f id q rest ⟨body, ls⟩ := by
  cases h with
  | last _ _ _ _ _ _ hout => exact ⟨_, hout⟩
  | first => cases hl

theorem stop_eq_iff {pc : UInt16} (h : Fits f id q code n) (hpc : pc.toNat + 1 = q) :
    n.running.stop = some pc ↔ n.layers ≠ [] ∧ code = [] := by
  obtain ⟨body, _ | ⟨l, ls⟩⟩ := n
  · have hbody : (Nesting.running ⟨body, []⟩).stop = none := h.stop_body
    simp [hbody]
  · obtain ⟨stop, hstop, hend⟩ := h.endsAt (by simp)
    rw [hstop]
    constructor
    · intro heq
      cases heq
      exact ⟨by simp, List.eq_nil_of_length_eq_zero (by omega)⟩
    · rintro ⟨-, rfl⟩
      refine congrArg some (UInt16.toNat_inj.mp ?_)
      rw [List.length_nil] at hend
      omega

/-- **Where the sweep goes on when arms end**: something remains of the arm that it gets to, and in
linear code it is the same position. -/
theorem settle {p : ℕ} {pc : UInt16} {n' : Nesting} {events : List (Event p)}
    (hsize : f.code.size < UInt16.size) (h : Fits f id q [] n) (hpc : pc.toNat + 1 = q)
    (hset : Activation.Settles f pc n n' events) :
    ∃ q' code', Fits f id q' code' n' ∧ n'.running.pc.toNat = q' ∧ (n'.layers ≠ [] → code' ≠ []) ∧
      f.linearPosition q' = f.linearPosition q := by
  have hle := h.le_size
  have hnext : (pc + 1).toNat = q := by
    rw [Frame.toNat_add_of_lt (by change pc.toNat + 1 < _; simp at hle; omega)]
    exact hpc
  induction hset with
  | @switch body b b' ls =>
    cases h with
    | last hl => cases hl
    | @first _ _ second rest skip _ _ _ _ hcode hskip hs hs' hne hstop hid hpc' hstop' hid' hdepth
        hout =>
      rw [List.length_nil, Nat.add_zero] at *
      refine ⟨q + 1, second, .last rfl hcode.tail hs' hstop' hid' (by omega) hout, hpc',
        fun _ => hne, ?_⟩
      have hnone : skip.straightened = none := by rw [Instruction.straightened, hskip]
      rw [Bytecode.Function.linearPosition_succ hcode.head, hnone]
      rfl
  | @resume body l ls hl hstop =>
    obtain ⟨rest, hout⟩ := h.outer hl
    refine ⟨q, rest, hout.setPc _, ?_, fun hne hrest => ?_, rfl⟩
    · rw [Nesting.running_setPc]
      exact hnext
    · refine hstop ((hout.stop_eq_iff hpc).mpr ⟨?_, hrest⟩)
      rwa [← List.length_pos_iff, Nesting.length_layers_setPc, List.length_pos_iff] at hne
  | @cascade body l ls n' events hl hstop _ ih =>
    obtain ⟨rest, hout⟩ := h.outer hl
    obtain ⟨-, rfl⟩ := (hout.stop_eq_iff hpc).mp hstop
    exact ih (hout.setPc pc)

theorem linearPosition_conditional {branch jump : Instruction}
    (hcode : f.HasCode q (branch :: jump :: code))
    (hb : branch.opcode.isConditionalBranch = true) (hj : jump.opcode = .branch) :
    f.linearPosition (q + 2) = f.linearPosition q + 1 := by
  have hnone : jump.straightened = none := by rw [Instruction.straightened, hj]
  rw [Bytecode.Function.linearPosition_succ hcode.tail.head, hnone,
    Bytecode.Function.linearPosition_succ hcode.head, Instruction.straightened_of_conditional hb]
  rfl

/-- **Where the sweep goes on when arms start.** -/
theorem enter {pc : UInt16} {branch : Instruction} (hsize : f.code.size < UInt16.size)
    (h : Fits f id pc.toNat (branch :: code) n)
    (hb : branch.opcode.isConditionalBranch = true) :
    ∃ bounds arm, Frame.armBounds f pc = .ok bounds ∧
      Fits f id (pc.toNat + 2) arm (n.enter (.ofBounds id bounds)) ∧ arm ≠ [] ∧
      (Layer.ofBounds id bounds).running.pc.toNat = pc.toNat + 2 ∧
      f.linearPosition (pc.toNat + 2) = f.linearPosition pc.toNat + 1 := by
  have hdepth := h.depth_le
  have hcode := h.hasCode
  cases h.structured with
  | plain hi =>
    exfalso
    cases hop : branch.opcode <;> rw [hop] at hb hi <;> cases hb <;> cases hi
  | @oneArmed _ _ jump arm rest hbranch hstart hjump hjoin hne harm hrest =>
    rw [← List.cons_append, ← List.cons_append] at hcode
    obtain ⟨start, stop, hbounds, hs, he⟩ :=
      Frame.armBounds_oneArmed hsize hcode.left hb hstart hjump hjoin hne harm
    refine ⟨_, arm, hbounds, ?_, hne, hs, linearPosition_conditional hcode.left hb hjump⟩
    have hout : Fits f id (pc.toNat + 2 + arm.length) rest n := by
      have hpart : Fits f id pc.toNat ((branch :: jump :: arm) ++ rest) n := h
      have hlen : pc.toNat + (branch :: jump :: arm).length = pc.toNat + 2 + arm.length := by
        simp only [List.length_cons]
        omega
      rw [← hlen] at hrest ⊢
      exact hpart.skip hrest
    exact .last rfl hcode.left.tail.tail harm ⟨stop, rfl, he⟩ rfl (by omega) hout
  | @twoArmed _ _ jump skip first second rest hbranch hstart hjump helse hskip hjoin hne hfirst
      hne' hsecond hrest =>
    have hpart : Fits f id pc.toNat ((branch :: jump :: (first ++ skip :: second)) ++ rest) n := by
      simpa using h
    have hcode' := hpart.hasCode.left
    obtain ⟨start, stop, start', stop', hbounds, hs, he, hs', he'⟩ :=
      Frame.armBounds_twoArmed hsize hcode' hb hstart hjump helse hskip hjoin hne hne'
    refine ⟨_, first, hbounds, ?_, hne, hs, linearPosition_conditional hcode' hb hjump⟩
    have hpos : pc.toNat + 2 + first.length + 1 = pc.toNat + 3 + first.length := by omega
    have hout : Fits f id (pc.toNat + 3 + first.length + second.length) rest n := by
      have hlen : pc.toNat + (branch :: jump :: (first ++ skip :: second)).length =
          pc.toNat + 3 + first.length + second.length := by
        simp only [List.length_cons, List.length_append]
        omega
      rw [← hlen] at hrest ⊢
      exact hpart.skip hrest
    rw [← hpos] at hsecond hs' he' hout
    exact .first hcode'.tail.tail hskip hfirst hsecond hne' ⟨stop, rfl, he⟩ rfl hs'
      ⟨stop', rfl, he'⟩ rfl (by omega) hout

end Fits

end StackCircuit.Machine
