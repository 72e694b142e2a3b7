import StackCircuit.Proofs.Machine.Step

/-!
# The locals of a frame

All blocks of a frame work on the locals of the frame, whatever arms are entered and left.

* **`Frame.Uniform`**: a frame and its blocks have one identifier of locals.
* `Frame.Stable`: a property of frames that moving counters, adding arms and removing them keep;
  `Frame.Stable.follow`, `Frame.Stable.advance`: control within a frame keeps it.
* `uniform_follow`, `uniform_advance`: where control goes within a frame, it stays uniform.
-/

namespace StackCircuit.Machine

open Bytecode (Function Instruction)

variable {σ : Type} {p : ℕ} {α : Type} {id : ℕ}

/-- **A frame and its blocks have one identifier of locals.** -/
structure Frame.Uniform (id : ℕ) (f : Frame) : Prop where
  frame : f.localsId = id
  blocks : ∀ b ∈ f.blocks, b.localsId = id

namespace Frame.Uniform

variable {f : Frame}

theorem ofFunction (index : UInt16) (f : Function) (id : ℕ) :
    (Frame.ofFunction index f id).Uniform id := by
  refine ⟨rfl, fun b hb => ?_⟩
  rw [List.mem_singleton.mp (Array.mem_toList_iff.mpr hb)]
  rfl

theorem self (h : f.Uniform id) : f.Uniform f.localsId := by
  rw [h.frame]
  exact h

theorem running (h : f.Uniform id) {n : ℕ} {b : Block} (hb : f.running = .ok (n, b)) :
    b.localsId = id := by
  unfold Frame.running at hb
  cases hr : f.current.running? with
  | none => rw [hr] at hb; cases hb
  | some i =>
    simp only [hr] at hb
    cases hi : f.blocks[i]? with
    | none => rw [hi] at hb; cases hb
    | some b' =>
      rw [hi] at hb
      cases hb
      exact h.blocks b (Array.mem_of_getElem? hi)

theorem setBlockPc (h : f.Uniform id) (n : ℕ) (pc : UInt16) : (f.setBlockPc n pc).Uniform id := by
  refine ⟨h.frame, fun b hb => ?_⟩
  obtain ⟨j, hj⟩ := Array.mem_iff_getElem?.mp hb
  rw [Frame.setBlockPc, Array.getElem?_modify] at hj
  split at hj
  · obtain ⟨b', hb', rfl⟩ := Option.map_eq_some_iff.mp hj
    exact h.blocks b' (Array.mem_of_getElem? hb')
  · exact h.blocks b (Array.mem_of_getElem? hj)

theorem push (h : f.Uniform id) (start : UInt16) (stop : Option UInt16) :
    Uniform id { f with blocks := f.blocks.push (.ofStart start stop f.localsId) } := by
  refine ⟨h.frame, fun b hb => ?_⟩
  rcases Array.mem_push.mp hb with hb | rfl
  · exact h.blocks b hb
  · exact h.frame

theorem arms (h : f.Uniform id) {pc : UInt16} {c : Conditional} {f' : Frame}
    (ha : f.arms pc = .ok (c, f')) : f'.Uniform id := by
  unfold Frame.arms at ha
  split at ha
  · cases ha
  · cases ha
    exact h.push _ _
  · cases ha
    exact (h.push _ _).push _ _

theorem take (h : f.Uniform id) (n : ℕ) (suspended : BoundedStack ProgramBlock)
    (current : ProgramBlock) :
    Uniform id { f with suspended, current, blocks := f.blocks.take n } := by
  refine ⟨h.frame, fun b hb => h.blocks b ?_⟩
  rw [Array.take_eq_extract] at hb
  obtain ⟨j, hj⟩ := Array.mem_iff_getElem?.mp hb
  rw [Array.getElem?_extract] at hj
  split at hj
  · exact Array.mem_of_getElem? hj
  · cases hj

end Frame.Uniform

/-! ## Control within a frame -/

/-- The frame at work has a property. -/
def Activation.Shows (P : Frame → Prop) (a : Activation σ p) : Prop := P a.frame

/-- **A property of frames that control within a frame keeps**: counters move, arms are added, and
arms are removed. -/
structure Frame.Stable (P : Frame → Prop) : Prop where
  setBlockPc {f : Frame} (n : ℕ) (pc : UInt16) : P f → P (f.setBlockPc n pc)
  arms {f f' : Frame} {pc : UInt16} {c : Conditional} : P f → f.arms pc = .ok (c, f') → P f'
  suspend {f : Frame} (suspended : BoundedStack ProgramBlock) (current : ProgramBlock) :
    P f → P { f with suspended, current }
  take {f : Frame} (n : ℕ) (suspended : BoundedStack ProgramBlock) (current : ProgramBlock) :
    P f → P { f with suspended, current, blocks := f.blocks.take n }

theorem Frame.stable_uniform (id : ℕ) : Frame.Stable (Frame.Uniform id) :=
  ⟨fun n pc h => h.setBlockPc n pc, fun h ha => h.arms ha, fun _ _ h => ⟨h.frame, h.blocks⟩,
    fun n suspended current h => h.take n suspended current⟩

namespace Frame.Stable

variable {P : Frame → Prop}

theorem getFrame :
    Keeps (Activation.Shows P) (Activation.getFrame : EStateM Halt (Activation σ p) Frame) P :=
  fun _ ha => ⟨ha, ha⟩

theorem setFrame {f : Frame} (hf : P f) :
    Keeps (Activation.Shows P) (Activation.setFrame f : EStateM Halt (Activation σ p) Unit)
      fun _ => True :=
  fun _ _ => ⟨hf, trivial⟩

theorem ofFrame {x : Frame → Except Failure α} {V : α → Prop} (h : ∀ f a, P f → x f = .ok a → V a) :
    Keeps (Activation.Shows P) (Activation.ofFrame x : EStateM Halt (Activation σ p) α) V := by
  intro a ha
  unfold Activation.ofFrame
  cases hx : x a.frame with
  | ok b => exact ⟨ha, h _ b ha hx⟩
  | error e => exact ha

theorem onStore (x : EStateM Halt (Store σ p) α) :
    Keeps (Activation.Shows P) (Activation.onStore x) fun _ => True := by
  rintro ⟨frame, store⟩ ha
  simp only [Activation.onStore]
  cases x store with
  | ok a s' => exact ⟨ha, trivial⟩
  | error e s' => exact ha

variable (hP : Frame.Stable P)
include hP

theorem materialise (pc : UInt16) (cond : Value p) :
    Keeps (Activation.Shows P)
      (Activation.materialise pc cond : EStateM Halt (Activation σ p) Unit) fun _ => True := by
  refine Keeps.bind (V := fun _ => True) ?_ fun arms _ => getFrame.bind fun frame hf => ?_
  · refine (ofFrame (V := fun r => P r.2) fun f r hf hr => hP.arms hf hr).bind fun r hr => ?_
    exact (setFrame hr).bind fun _ _ => Keeps.pure trivial
  · refine (onStore _).bind fun _ _ => (onStore _).bind fun _ _ => ?_
    cases frame.suspended.push frame.current with
    | error e => exact Keeps.fail _
    | ok suspended => exact setFrame (hP.suspend _ _ hf)

theorem merge (pc : UInt16) (arms : Conditional) :
    Keeps (Activation.Shows P)
      (Activation.merge pc arms : EStateM Halt (Activation σ p) Unit) fun _ => True := by
  refine getFrame.bind fun frame hf => ?_
  cases frame.suspended.pop with
  | error e => exact Keeps.fail _
  | ok r =>
    refine Keeps.bind (setFrame (hP.suspend r.2 frame.current hf)) fun _ _ => ?_
    refine (onStore _).bind fun _ _ => ?_
    refine (setFrame (hP.take _ _ _ hf)).bind fun _ _ => ?_
    exact onStore _

theorem endArms (pc : UInt16) (rounds : ℕ) :
    Keeps (Activation.Shows P)
      (Activation.endArms pc rounds : EStateM Halt (Activation σ p) Unit) fun _ => True := by
  induction rounds with
  | zero => exact fun _ ha => ha
  | succ rounds ih =>
    refine getFrame.bind fun frame hf => ?_
    cases frame.current.conditional? with
    | none => exact Keeps.fail _
    | some arms =>
      dsimp only
      cases arms.afterArm with
      | idle => exact Keeps.fail _
      | second arms =>
        refine Keeps.bind (setFrame (hP.suspend frame.suspended _ hf)) fun _ _ => ?_
        exact (onStore _).bind fun _ _ => onStore _
      | done =>
        refine (hP.merge pc arms).bind fun _ _ => getFrame.bind fun frame hf => ?_
        refine (ofFrame (V := fun _ => True) fun _ _ _ _ => trivial).bind fun r _ => ?_
        by_cases h : r.2.stop = some pc
        · rw [if_pos h]
          exact (setFrame (hP.setBlockPc _ _ hf)).bind fun _ _ => ih
        · rw [if_neg h]
          exact setFrame (hP.setBlockPc _ _ hf)

theorem endArm (pc : UInt16) :
    Keeps (Activation.Shows P)
      (Activation.endArm pc : EStateM Halt (Activation σ p) Unit) fun _ => True :=
  getFrame.bind fun _ _ => hP.endArms pc _

/-- **A frame that goes on keeps a stable property.** -/
theorem advance :
    Keeps (Activation.Shows P)
      (Activation.advance : EStateM Halt (Activation σ p) Unit) fun _ => True := by
  refine getFrame.bind fun frame hf => ?_
  refine (ofFrame (V := fun _ => True) fun _ _ _ _ => trivial).bind fun r _ => ?_
  by_cases h : r.2.atEnd = true
  · dsimp only
    rw [if_pos h]
    exact hP.endArm _
  · dsimp only
    rw [if_neg h]
    exact setFrame (hP.setBlockPc _ _ hf)

/-- **Wherever control goes within a frame**, it keeps a stable property. -/
theorem follow {f : Frame} (hf : P f) (n : ℕ) (t : Transition p) :
    Keeps (Activation.Shows P)
      (Activation.follow f n t : EStateM Halt (Activation σ p) (Option Departure))
      fun _ => True := by
  cases t with
  | goto pc => exact (setFrame (hP.setBlockPc n pc hf)).bind fun _ _ => Keeps.pure trivial
  | exit e =>
    cases e with
    | ret => exact Keeps.pure trivial
    | call function => exact Keeps.pure trivial
    | conditional pc cond => exact (hP.materialise pc cond).bind fun _ _ => Keeps.pure trivial
    | armEnd pc => exact (hP.endArm pc).bind fun _ _ => Keeps.pure trivial

end Frame.Stable

/-- **A frame that goes on stays uniform.** -/
theorem uniform_advance :
    Keeps (Activation.Shows (Frame.Uniform id))
      (Activation.advance : EStateM Halt (Activation σ p) Unit) fun _ => True :=
  (Frame.stable_uniform id).advance

/-- **Wherever control goes within a frame**, the frame stays uniform. -/
theorem uniform_follow {f : Frame} (hf : f.Uniform id) (n : ℕ) (t : Transition p) :
    Keeps (Activation.Shows (Frame.Uniform id))
      (Activation.follow f n t : EStateM Halt (Activation σ p) (Option Departure))
      fun _ => True :=
  (Frame.stable_uniform id).follow hf n t

end StackCircuit.Machine
