import StackCircuit.Proofs.Bytecode.Structured
import StackCircuit.Proofs.Machine.Failures

/-!
# Arms read off the code

The arms of a conditional branch are not given by the code, they are recovered from where its jumps
lead. The positions are numbers of 16 bits there; in functions of fewer than 2¹⁶ instructions this
makes no difference.

* **`ArmsAt f pc arms`**: the code at position `pc` is a conditional branch with the given arms.
* `ArmsAt.laidOut`: arms are stretches of the code behind the branch, in order.
* `Frame.exists_armsAt_of_armBounds`, `ArmsAt.exists_armBounds`: what a frame reads off is this.
* `Frame.addArms`: a frame with the blocks of new arms.
* **`Activation.prepare_exact`**: a frame recovers the arms if the code has this shape, and otherwise
  fails and stays as it is.
-/

namespace StackCircuit.Machine

open Bytecode (Function Instruction Opcode)

variable {f : Function} {pc second : ℕ} {arms : List (ℕ × ℕ)}

/-! ## The shape of arms -/

/-- **A conditional branch begins at a position**: it leads behind the jump that follows it, and this
jump leads to an instruction, or to the end of the code. -/
structure Forks (f : Function) (pc second : ℕ) : Prop where
  branch : ∃ i, f.code[pc]? = some i ∧ i.opcode.isConditionalBranch = true ∧
    i.target.toNat = pc + 2
  jump : ∃ i, f.code[pc + 1]? = some i ∧ i.opcode = .branch ∧ i.target.toNat = second
  pos : 1 ≤ second
  le : second ≤ f.code.size

/-- **The arms of the conditional branch at a position**, by the positions of their first and last
instructions. -/
inductive ArmsAt (f : Function) (pc : ℕ) : List (ℕ × ℕ) → Prop
  -- The first arm ends without a jump, and is the only one.
  | only {second : ℕ} {ending : Instruction} (hforks : Forks f pc second)
      (hending : f.code[second - 1]? = some ending) (hop : ending.opcode ≠ .branch)
      (hne : pc + 2 ≤ second - 1) : ArmsAt f pc [(pc + 2, second - 1)]
  -- The first arm ends with a jump over the second one, which may be empty.
  | skip {second : ℕ} {ending : Instruction} (hforks : Forks f pc second)
      (hending : f.code[second - 1]? = some ending) (hop : ending.opcode = .branch)
      (hne : pc + 2 < second - 1) (hle : second ≤ ending.target.toNat)
      (hsize : ending.target.toNat ≤ f.code.size) :
    ArmsAt f pc ((pc + 2, second - 2) ::
      if second < ending.target.toNat then [(second, ending.target.toNat - 1)] else [])

theorem ArmsAt.exists_forks {f : Function} {pc : ℕ} {arms : List (ℕ × ℕ)} (h : ArmsAt f pc arms) :
    ∃ second, Forks f pc second := by
  cases h with
  | only hforks => exact ⟨_, hforks⟩
  | skip hforks => exact ⟨_, hforks⟩

/-- Stretches of code behind the jump of a branch: none is empty, and one starts behind the other. -/
structure LaidOut (f : Function) (pc : ℕ) (arms : List (ℕ × ℕ)) : Prop where
  inside : ∀ a ∈ arms, pc + 1 < a.1 ∧ a.1 ≤ a.2 ∧ a.2 < f.code.size
  ordered : arms.Pairwise fun a b => a.2 < b.1

/-- **Arms are laid out behind their branch.** -/
theorem ArmsAt.laidOut (h : ArmsAt f pc arms) : LaidOut f pc arms := by
  cases h with
  | @only second ending hforks hending hop hne =>
    have hle := hforks.le
    refine ⟨fun a ha => ?_, List.pairwise_singleton _ _⟩
    rw [List.mem_singleton.mp ha]
    dsimp only
    omega
  | @skip second ending hforks hending hop hne hle hsize =>
    split
    · constructor
      · intro a ha
        rcases List.mem_pair.mp ha with rfl | rfl
        all_goals dsimp only; omega
      · refine List.pairwise_pair.mpr ?_
        dsimp only
        omega
    · refine ⟨fun a ha => ?_, List.pairwise_singleton _ _⟩
      rw [List.mem_singleton.mp ha]
      dsimp only
      omega

/-! ## What a frame reads off -/

namespace Frame

variable {pc : UInt16} {bounds : (UInt16 × UInt16) × Option (UInt16 × UInt16)}

/-- The positions of the arms, the first one first. -/
def positions (bounds : (UInt16 × UInt16) × Option (UInt16 × UInt16)) : List (ℕ × ℕ) :=
  (bounds.1 :: bounds.2.toList).map fun a => (a.1.toNat, a.2.toNat)

theorem positions_only (start stop : UInt16) :
    positions ((start, stop), none) = [(start.toNat, stop.toNat)] := rfl

theorem positions_both (start stop start' stop' : UInt16) :
    positions ((start, stop), some (start', stop')) =
      [(start.toNat, stop.toNat), (start'.toNat, stop'.toNat)] := rfl

theorem forks_of_armBounds (hsize : f.code.size ≤ 65535) (h : armBounds f pc = .ok bounds) :
    ∃ second, Forks f pc.toNat second := by
  unfold armBounds at h
  by_cases hlt : f.code.size ≤ pc.toNat + 1
  · rw [if_pos hlt] at h
    cases h
  have hnext : (pc + 1).toNat = pc.toNat + 1 :=
    toNat_add_of_lt (show pc.toNat + 1 < 65536 by omega)
  have hstart : (pc + 2).toNat = pc.toNat + 2 :=
    toNat_add_of_lt (show pc.toNat + 2 < 65536 by omega)
  obtain ⟨branch, hbranch⟩ : ∃ i, f.code[pc.toNat]? = some i :=
    ⟨_, Array.getElem?_eq_getElem (by omega)⟩
  obtain ⟨jump, hjump⟩ : ∃ i, f.code[pc.toNat + 1]? = some i :=
    ⟨_, Array.getElem?_eq_getElem (by omega)⟩
  rw [if_neg hlt, hbranch, hnext, hjump] at h
  dsimp only at h
  by_cases hcond : branch.opcode.isConditionalBranch = true
  swap
  · rw [if_pos (by rw [Bool.eq_false_iff.mpr hcond]; rfl)] at h
    cases h
  rw [if_neg (by rw [hcond]; exact Bool.false_ne_true)] at h
  by_cases hop : jump.opcode = .branch
  swap
  · rw [if_pos hop] at h
    cases h
  rw [if_neg (not_not.mpr hop)] at h
  by_cases htarget : branch.target = pc + 2
  swap
  · rw [if_pos htarget] at h
    cases h
  rw [if_neg (not_not.mpr htarget)] at h
  by_cases hsecond : jump.target = 0 ∨ f.code.size < jump.target.toNat
  · rw [if_pos hsecond] at h
    cases h
  obtain ⟨hzero, hle⟩ := not_or.mp hsecond
  refine ⟨jump.target.toNat, ⟨branch, hbranch, hcond, ?_⟩, ⟨jump, hjump, hop, rfl⟩, ?_, by omega⟩
  · rw [htarget, hstart]
  · exact Nat.pos_of_ne_zero fun h => hzero (UInt16.toNat_inj.mp h)

/-- **What a frame reads off** where a conditional branch begins: it depends on the last instruction
before the position that the jump leads to. -/
theorem armBounds_of_forks (hsize : f.code.size ≤ 65535) (h : Forks f pc.toNat second) :
    ∃ (start stop other : UInt16) (ending : Instruction), f.code[second - 1]? = some ending ∧
      start.toNat = pc.toNat + 2 ∧ stop.toNat = second - 1 ∧ other.toNat = second ∧
      armBounds f pc =
        if ending.opcode ≠ .branch then
          if stop < start then .error (malformed f pc "empty branch") else .ok ((start, stop), none)
        else if stop ≤ start ∨ ending.target < other ∨ f.code.size < ending.target.toNat then
          .error (malformed f pc "invalid branch arms")
        else if ending.target = other then .ok ((start, stop - 1), none)
        else .ok ((start, stop - 1), some (other, ending.target - 1)) := by
  obtain ⟨⟨branch, hbranch, hcond, hstart⟩, ⟨jump, hjump, hop, rfl⟩, hpos, hle⟩ := h
  obtain ⟨ending, hending⟩ : ∃ ending, f.code[jump.target.toNat - 1]? = some ending :=
    ⟨_, Array.getElem?_eq_getElem (by omega)⟩
  refine ⟨branch.target, jump.target - 1, jump.target, ending, hending, hstart, toNat_sub_one hpos,
    rfl, ?_⟩
  rw [armBounds_eq (show _ < 65536 by omega) hbranch hcond hjump hop hstart hpos hle, hending]

/-- **Arms are read off nothing but a conditional branch.** -/
theorem exists_armsAt_of_armBounds (hsize : f.code.size ≤ 65535) (h : armBounds f pc = .ok bounds) :
    ∃ arms, ArmsAt f pc.toNat arms := by
  obtain ⟨second, hforks⟩ := forks_of_armBounds hsize h
  obtain ⟨start, stop, other, ending, hending, hstart, hstop, hother, heq⟩ :=
    armBounds_of_forks hsize hforks
  rw [heq] at h
  split at h
  · rename_i hop
    split at h
    · cases h
    rename_i hlt
    rw [UInt16.lt_iff_toNat_lt] at hlt
    exact ⟨_, .only hforks hending hop (by omega)⟩
  · rename_i hop
    split at h
    · cases h
    rename_i hbounds
    rw [UInt16.le_iff_toNat_le, UInt16.lt_iff_toNat_lt] at hbounds
    exact ⟨_, .skip hforks hending (not_not.mp hop) (by omega) (by omega) (by omega)⟩

end Frame

/-- **The arms of a branch are read off.** -/
theorem ArmsAt.exists_armBounds {pc : UInt16} (hsize : f.code.size ≤ 65535)
    (h : ArmsAt f pc.toNat arms) :
    ∃ bounds, Frame.armBounds f pc = .ok bounds ∧ Frame.positions bounds = arms := by
  cases h with
  | @only second ending hforks hending hop hne =>
    obtain ⟨start, stop, other, ending', hending', hstart, hstop, hother, heq⟩ :=
      Frame.armBounds_of_forks hsize hforks
    cases hending.symm.trans hending'
    rw [if_pos hop, if_neg (by rw [UInt16.lt_iff_toNat_lt]; omega)] at heq
    exact ⟨_, heq, by rw [Frame.positions_only, hstart, hstop]⟩
  | @skip second ending hforks hending hop hne hle hm =>
    obtain ⟨start, stop, other, ending', hending', hstart, hstop, hother, heq⟩ :=
      Frame.armBounds_of_forks hsize hforks
    cases hending.symm.trans hending'
    have hlast : (stop - 1).toNat = second - 2 := by
      rw [Frame.toNat_sub_one (by omega)]
      omega
    rw [if_neg (not_not.mpr hop), if_neg (by
      rw [UInt16.le_iff_toNat_le, UInt16.lt_iff_toNat_lt]; omega)] at heq
    by_cases hjoin : ending.target = other
    · rw [if_pos hjoin] at heq
      rw [if_neg (by rw [hjoin]; omega)]
      exact ⟨_, heq, by rw [Frame.positions_only, hstart, hlast]⟩
    · have hne' : ending.target.toNat ≠ other.toNat := fun h => hjoin (UInt16.toNat_inj.mp h)
      have hend : (ending.target - 1).toNat = ending.target.toNat - 1 :=
        Frame.toNat_sub_one (by omega)
      rw [if_neg hjoin] at heq
      rw [if_pos (by omega)]
      exact ⟨_, heq, by rw [Frame.positions_both, hstart, hlast, hother, hend]⟩

/-! ## New blocks -/

/-- Arms whose blocks are numbered from `n` on, of which the first is running. -/
def Conditional.entering (n : ℕ) : List (ℕ × ℕ) → Conditional
  | _ :: _ :: _ => .both ⟨n, true⟩ ⟨n + 1, false⟩
  | _ => .onTrue ⟨n, true⟩

/-- The frame with new blocks behind those that it has, one for each arm. -/
def Frame.addArms (f : Frame) (arms : List (ℕ × ℕ)) : Frame :=
  { f with
    blocks := f.blocks ++ (arms.map fun a =>
      .ofStart (.ofNat a.1) (some (.ofNat a.2)) f.localsId).toArray }

theorem Frame.addArms_positions (f : Frame)
    (bounds : (UInt16 × UInt16) × Option (UInt16 × UInt16)) :
    f.addArms (positions bounds) =
      { f with
        blocks := f.blocks ++ ((bounds.1 :: bounds.2.toList).map fun a =>
          Block.ofStart a.1 (some a.2) f.localsId).toArray } := by
  unfold addArms positions
  simp only [List.map_map, Function.comp_def, UInt16.ofNat_toNat]

theorem Frame.arms_eq_ok {f : Frame} {pc : UInt16}
    {bounds : (UInt16 × UInt16) × Option (UInt16 × UInt16)}
    (h : armBounds f.function pc = .ok bounds) :
    f.arms pc = .ok (.entering f.blocks.size (positions bounds), f.addArms (positions bounds)) := by
  rw [addArms_positions, arms, h]
  obtain ⟨⟨start, stop⟩, _ | ⟨start', stop'⟩⟩ := bounds
  · dsimp only
    rw [Array.push_eq_append]
    rfl
  · dsimp only
    rw [Array.push_eq_append, Array.push_eq_append, Array.append_assoc]
    rfl

variable {σ : Type} {p : ℕ}

/-- **Arms are recovered exactly, or nothing changes.** In a function of fewer than 2¹⁶ instructions a
frame finds arms if and only if the code has the shape of arms; then it has a new block for each of
them, and is otherwise as it was. -/
theorem Activation.prepare_exact (f : Frame) (s : Store σ p) (pc : UInt16)
    (hsize : f.function.code.size ≤ 65535) :
    ((∃ c a, prepare pc ⟨f, s⟩ = .ok c a) ↔ ∃ arms, ArmsAt f.function pc.toNat arms) ∧
      (∀ arms, ArmsAt f.function pc.toNat arms → LaidOut f.function pc.toNat arms ∧
        prepare pc ⟨f, s⟩ = .ok (.entering f.blocks.size arms) ⟨f.addArms arms, s⟩) ∧
      ((¬ ∃ arms, ArmsAt f.function pc.toNat arms) → ∃ e, e.status? = some .programBlockError ∧
        prepare pc ⟨f, s⟩ = .error (.failure e) ⟨f, s⟩) := by
  have hfound (arms : List (ℕ × ℕ)) (h : ArmsAt f.function pc.toNat arms) :
      prepare pc ⟨f, s⟩ = .ok (.entering f.blocks.size arms) ⟨f.addArms arms, s⟩ := by
    obtain ⟨bounds, hbounds, rfl⟩ := h.exists_armBounds hsize
    simp only [prepare, bind, EStateM.bind, ofFrame, Frame.arms_eq_ok hbounds]
    rfl
  have hrefused (h : ¬ ∃ arms, ArmsAt f.function pc.toNat arms) :
      ∃ e, e.status? = some .programBlockError ∧
        prepare pc ⟨f, s⟩ = .error (.failure e) ⟨f, s⟩ := by
    cases hbounds : Frame.armBounds f.function pc with
    | ok bounds => exact absurd (Frame.exists_armsAt_of_armBounds hsize hbounds) h
    | error e =>
      obtain ⟨message, rfl⟩ := Frame.armBounds_eq_error hbounds
      refine ⟨Frame.malformed f.function pc message, ?_, ?_⟩
      · simp [Frame.malformed, Failure.because, Failure.status?, Failure.report?, Failure.reports]
      · simp only [prepare, bind, EStateM.bind, ofFrame, Frame.arms, hbounds]
  refine ⟨⟨?_, ?_⟩, fun arms h => ⟨h.laidOut, hfound arms h⟩, hrefused⟩
  · rintro ⟨c, a, hok⟩
    by_contra h
    obtain ⟨e, -, herror⟩ := hrefused h
    cases hok.symm.trans herror
  · rintro ⟨arms, h⟩
    exact ⟨_, _, hfound arms h⟩

/-! ## A choice between two numbers -/

/-- A function that gives one of two numbers. -/
def chooseNumber : Function :=
  ⟨"choose", [.bool], 1, 1,
    #[.ofNat .copyLoc 0, .ofNat .brTrue 3, .ofNat .branch 5, .ofNat .ldU8 1, .ofNat .branch 6,
      .ofNat .ldU8 2, .ofNat .ret 0], by decide⟩

/-- Its branch has two arms, and the number in the first of them is no branch. -/
theorem Activation.prepare_exact_chooseNumber :
    let f := Frame.ofFunction 0 chooseNumber 0
    let s : Store (Circuit.System ScalarField.bn254.modulus) ScalarField.bn254.modulus :=
      .initial (.ofRecorder .initial) 16
    chooseNumber.code.size ≤ 65535 ∧
      prepare 1 ⟨f, s⟩ =
        .ok (.both ⟨1, true⟩ ⟨2, false⟩)
          ⟨{ f with
            blocks := #[.ofStart 0 none 0, .ofStart 3 (some 3) 0, .ofStart 5 (some 5) 0] }, s⟩ ∧
      ∃ e, e.status? = some .programBlockError ∧ prepare 3 ⟨f, s⟩ = .error (.failure e) ⟨f, s⟩ := by
  intro f s
  have hsize : chooseNumber.code.size ≤ 65535 := by decide
  have harms : ArmsAt chooseNumber 1 [(3, 3), (5, 5)] :=
    @ArmsAt.skip chooseNumber 1 5 (.ofNat .branch 6)
      ⟨⟨.ofNat .brTrue 3, rfl, rfl, rfl⟩, ⟨.ofNat .branch 5, rfl, rfl, rfl⟩, by decide, by decide⟩
      rfl rfl (by decide) (by decide) (by decide)
  refine ⟨hsize, ((prepare_exact f s 1 hsize).2.1 _ harms).2,
    (prepare_exact f s 3 hsize).2.2 ?_⟩
  rintro ⟨arms, h⟩
  obtain ⟨second, ⟨i, hi, hcond, -⟩, -⟩ := h.exists_forks
  cases hi
  cases hcond

end StackCircuit.Machine
