import StackCircuit.Proofs.Machine.Relate
import StackCircuit.Proofs.Machine.Sweep

/-!
# Structured and linear code side by side

While no condition is known, structured code and the linear code made of it are executed in step: the
machine does the same to the stack, the locals and the record in each instruction.

* `Frame.linear`: the frame of linear code at the place that corresponds to a position.
* `Mirrors`: a frame of structured code beside that of linear code.
* **`Related`**: two machines that execute structured and linear code.
* `related_ret`, `agree_call`, `related_enter`: what changes the frames on both sides.
* **`related_step`**: one instruction of both.
-/

namespace StackCircuit.Machine

open Bytecode (Function Instruction Program Structured)
open Circuit (Recorder)

/-! ## Frames side by side -/

/-- The frame of linear code at the place that corresponds to a position. -/
def Frame.linear (index : UInt16) (f : Function) (id q : ℕ) : Frame :=
  .ofNesting index f.linearised id ⟨⟨UInt16.ofNat (f.linearPosition q), 0, none, id⟩, []⟩

/-- **A frame of structured code beside that of linear code**, where given code remains of the
running block. -/
inductive Mirrors (code : List Instruction) : Frame → Frame → Prop
  | mk {index : UInt16} {f : Function} {id q : ℕ} {n : Nesting} (hsize : f.code.size < UInt16.size)
      (hfits : Fits f id q code n) (hpc : n.running.pc.toNat = q)
      (hne : n.layers ≠ [] → code ≠ []) :
    Mirrors code (.ofNesting index f id n) (.linear index f id q)

namespace Mirrors

variable {σ : Type} {p : ℕ} {code : List Instruction} {f f' : Frame} {s : Store σ p}
  {guards : List (Guard p)}

theorem advance_linear (index : UInt16) (f : Function) (id q : ℕ) (s : Store σ p) {q' : ℕ}
    (hq : f.linearPosition q' = f.linearPosition q + 1) :
    Activation.advance ⟨Frame.linear index f id q, s⟩ = .ok () ⟨Frame.linear index f id q', s⟩ := by
  have hpc : UInt16.ofNat (f.linearPosition q) + 1 = UInt16.ofNat (f.linearPosition q') := by
    rw [hq, UInt16.ofNat_add]
    rfl
  unfold Frame.linear
  rw [Activation.advance_ofNesting, ← hpc]
  rfl

/-- **Both frames go on to the next instruction**; in the structured one arms may end. -/
theorem advance {i : Instruction} (h : Mirrors (i :: code) f f') (hi : i.opcode.isJump = false)
    (hs : s.conditions = ⟨guards, none⟩) (hguards : f.depth ≤ guards.length) :
    ∃ g g' t, Activation.advance ⟨f, s⟩ = .ok () ⟨g, t⟩ ∧
      (∀ s' : Store σ p, Activation.advance ⟨f', s'⟩ = .ok () ⟨g', s'⟩) ∧
      (∃ code', Mirrors code' g g') ∧ t.core = s.core ∧
      ∃ guards', t.conditions = ⟨guards', none⟩ ∧
        guards'.length + f.depth = guards.length + g.depth := by
  obtain @⟨index, f, id, q, n, hsize, hfits, hpc, hne⟩ := h
  rw [Frame.depth_ofNesting] at hguards ⊢
  have hlinear : f.linearPosition (q + 1) = f.linearPosition q + 1 := by
    rw [Bytecode.Function.linearPosition_succ hfits.hasCode.head,
      Instruction.straightened_of_isJump hi]
    rfl
  have hdepth : n.layers.length ≤ f.code.size :=
    Nat.le_trans hfits.depth_le (Nat.le_of_add_right_le hfits.le_size)
  have hnext := hfits.next hi
  have hpc₁ : n.running.pc.toNat + 1 = q + 1 := by rw [hpc]
  have hstop := hnext.stop_eq_iff hpc₁
  rw [Activation.advance_ofNesting]
  by_cases hend : n.running.atEnd = true
  · rw [if_pos hend]
    obtain ⟨hlayers, rfl⟩ := hstop.mp (of_decide_eq_true hend)
    obtain ⟨n', events, t, hok, hset, hcore, -, guards', ht, hcount⟩ :=
      Activation.endArms_ofNesting index f id n.running.pc hs hlayers hguards
        (Nat.le_succ _) hnext.stop_body (Nat.le_succ_of_le hdepth)
    obtain ⟨q', code', hfits', hpc', hne', hq'⟩ := hnext.settle hsize hpc₁ hset
    refine ⟨_, Frame.linear index f id q', t, hok, fun s' => ?_, ⟨code', hsize, hfits', hpc', hne'⟩,
      hcore, guards', ht, ?_⟩
    · exact advance_linear index f id q s' (hq'.trans hlinear)
    · rw [Frame.depth_ofNesting]
      exact hcount
  · rw [if_neg hend]
    have hpc' : (n.setPc (n.running.pc + 1)).running.pc.toNat = q + 1 := by
      rw [Nesting.running_setPc]
      change (n.running.pc + 1).toNat = q + 1
      have := hnext.le_size
      rw [Frame.toNat_add_of_lt (by change n.running.pc.toNat + 1 < _; omega), hpc]
      rfl
    refine ⟨_, Frame.linear index f id (q + 1), s, rfl,
      fun s' => advance_linear index f id q s' hlinear, ⟨code, hsize, hnext.setPc _, hpc', ?_⟩, rfl,
      guards, hs, ?_⟩
    · intro hlayers hcode
      refine hend (decide_eq_true (hstop.mpr ⟨?_, hcode⟩))
      rwa [← List.length_pos_iff, Nesting.length_layers_setPc, List.length_pos_iff] at hlayers
    · rw [Frame.depth_ofNesting, Nesting.length_layers_setPc]

end Mirrors

/-! ## Machines side by side -/

section Machine

variable {σ : Type} {p : ℕ} {α : Type}

/-- A caller in structured code beside that in linear code: both are at a call. -/
def Waits (f f' : Frame) : Prop := ∃ i code, i.opcode = .call ∧ Mirrors (i :: code) f f'

/-- Call stacks side by side. -/
inductive Chained : List Frame → List Frame → Prop
  | nil : Chained [] []
  -- The topmost functions are at corresponding places, and all others wait.
  | cons {code : List Instruction} {f f' : Frame} {fs fs' : List Frame} (h : Mirrors code f f')
      (hs : List.Forall₂ Waits fs fs') : Chained (f :: fs) (f' :: fs')

/-- **Machines that execute structured and linear code**: they have the same core and frames at
corresponding places, and the guards of the first are those of its arms. -/
structure Related (m m' : State σ p) : Prop where
  core : m.store.core = m'.store.core
  frames : Chained m.frames.items m'.frames.items
  room : m.frames.room = m'.frames.room
  -- There is a guard for each conditional under execution.
  guards : ∃ guards, m.store.conditions = ⟨guards, none⟩ ∧
    guards.length = (m.frames.items.map Frame.depth).sum

/-- Stops that count as the same: failures with the same status. -/
def Halt.Same : Halt → Halt → Prop
  | .failure e, .failure e' => e.status? = e'.status?
  | h, h' => h = h'

theorem Halt.Same.refl (h : Halt) : h.Same h := by
  cases h <;> rfl

/-- How steps of two machines end alike. -/
abbrev StepsAlike (r r' : EStateM.Result Halt (State σ p) Bool) : Prop :=
  SameEnd (fun b b' m m' => b = b' ∧ Related m m')
    (fun e e' m m' => e.Same e' ∧ m.store.core = m'.store.core) r r'

/-- Machines with stores of the same core, and given guards and frames. -/
def State.Alike (g g' : BoundedStack (Guard p)) (frames frames' : BoundedStack Frame)
    (m m' : State σ p) : Prop :=
  Store.Alike g g' m.store m'.store ∧ m.frames = frames ∧ m'.frames = frames'

theorem Blind.onMachineStore {x : EStateM Halt (Store σ p) α} (hx : Blind x)
    (g g' : BoundedStack (Guard p)) (frames frames' : BoundedStack Frame) :
    Agree (State.Alike g g' frames frames') (State.onStore x) (State.onStore x)
      (fun a a' m m' => a = a' ∧ State.Alike g g' frames frames' m m')
      fun e e' m m' => e = e' ∧ State.Alike g g' frames frames' m m' := by
  rintro ⟨s, _⟩ ⟨s', _⟩ ⟨hs, rfl, rfl⟩
  dsimp only [State.onStore]
  obtain ⟨a, t, a', t', h, h', rfl, ht⟩ | ⟨e, t, e', t', h, h', rfl, ht⟩ := (hx g g' s s' hs).split
  · rw [h, h']
    exact ⟨rfl, ht, rfl, rfl⟩
  · rw [h, h']
    exact ⟨rfl, ht, rfl, rfl⟩

/-! ## Returning -/

variable {s s' : Store σ p} {guards : List (Guard p)} {room : Option ℕ}

theorem related_resume {fs fs' : List Frame} (hcore : s.core = s'.core)
    (hfs : List.Forall₂ Waits fs fs') (hs : s.conditions = ⟨guards, none⟩)
    (hguards : guards.length = (fs.map Frame.depth).sum) :
    StepsAlike ((do return (← State.onTop Activation.advance).isNone) ⟨s, ⟨fs, room⟩⟩)
      ((do return (← State.onTop Activation.advance).isNone) ⟨s', ⟨fs', room⟩⟩) := by
  cases hfs with
  | nil => exact ⟨rfl, hcore, .nil, rfl, guards, hs, hguards⟩
  | @cons f f' fs fs' hf hfs =>
    obtain ⟨i, code, hi, hf⟩ := hf
    rw [List.map_cons, List.sum_cons] at hguards
    obtain ⟨g, g', t, hok, hok', ⟨code', hg⟩, ht, guards', hguards', hcount⟩ :=
      hf.advance (s := s) (by rw [hi]; rfl) hs (by omega)
    simp only [bind, EStateM.bind, State.onTop, BoundedStack.top?, List.head?_cons, hok, hok']
    refine ⟨rfl, ht.trans hcore, .cons hg hfs, rfl, guards', hguards', ?_⟩
    simp only [BoundedStack.setTop, List.map_cons, List.sum_cons]
    omega

theorem Mirrors.structured {code : List Instruction} {f f' : Frame} (h : Mirrors code f f') :
    ∃ q, Structured q code := by
  obtain ⟨-, hfits, -, -⟩ := h
  exact ⟨_, hfits.structured⟩

theorem Mirrors.localsId_eq {code : List Instruction} {f f' : Frame} (h : Mirrors code f f') :
    f.localsId = f'.localsId := by
  cases h
  rfl

theorem Mirrors.depth_linear {code : List Instruction} {f f' : Frame} (h : Mirrors code f f') :
    f'.depth = 0 := by
  cases h
  rfl

/-- **Both machines return.** -/
theorem related_ret {code : List Instruction} {f f' : Frame} {fs fs' : List Frame}
    (hf : Mirrors code f f') (hfs : List.Forall₂ Waits fs fs') (hcore : s.core = s'.core)
    (hs : s.conditions = ⟨guards, none⟩)
    (hguards : guards.length = ((f :: fs).map Frame.depth).sum) :
    StepsAlike (State.ret ⟨s, ⟨f :: fs, room⟩⟩) (State.ret ⟨s', ⟨f' :: fs', room⟩⟩) := by
  rw [List.map_cons, List.sum_cons] at hguards
  have hpop := Store.popGuards_eq hs (k := f.depth) (by omega)
  have hpop' : Store.popGuards f'.depth s' = .ok () s' := by rw [hf.depth_linear]; rfl
  have hrel := blind_releaseLocals f.localsId _ _ (s.withGuards (guards.drop f.depth)) s'
    ⟨hcore, rfl, rfl⟩
  simp only [State.ret, bind, EStateM.bind, State.popFrame, BoundedStack.pop, State.onStore, hpop,
    hpop', ← hf.localsId_eq]
  obtain ⟨u, t, u', t', hr, hr', -, ht, htg, -⟩ | ⟨e, t, e', t', hr, hr', rfl, ht, -, -⟩ := hrel.split
  · rw [hr, hr']
    exact related_resume ht hfs htg (by rw [List.length_drop]; omega)
  · rw [hr, hr']
    exact ⟨.refl e, ht⟩

/-! ## Calling -/

/-- The setup with the linear program. -/
def Setup.linearised (setup : Setup) : Setup := ⟨setup.program.linearised, setup.config⟩

theorem mirrors_ofFunction {f : Function} (hsize : f.code.size ≤ 65535)
    (hf : Structured 0 f.code.toList) (index : UInt16) (id : ℕ) :
    Mirrors f.code.toList (.ofFunction index f id) (.ofFunction index f.linearised id) := by
  rw [Frame.ofFunction_eq_ofNesting, Frame.ofFunction_eq_ofNesting]
  refine .mk (q := 0) (Nat.lt_succ_of_le hsize) (.body (fun k _ => ?_) hf ?_ rfl rfl) rfl
    fun h => absurd rfl h
  · rw [Nat.zero_add, Array.getElem?_toList]
  · rw [Nat.zero_add, Array.length_toList]

theorem agree_releasing {P : State σ p → State σ p → Prop} {g g' : BoundedStack (Guard p)}
    {frames frames' : BoundedStack Frame} {x x' : EStateM Halt (State σ p) α} (id : ℕ)
    {Q : α → α → State σ p → State σ p → Prop}
    (hx : Agree P x x' Q fun e e' m m' => e = e' ∧ State.Alike g g' frames frames' m m') :
    Agree P (State.releasing id x) (State.releasing id x') Q
      fun e e' m m' => e = e' ∧ State.Alike g g' frames frames' m m' := by
  intro m m' hm
  unfold State.releasing
  obtain ⟨a, t, a', t', h, h', ht⟩ | ⟨e, t, e', t', h, h', rfl, ht⟩ := (hx m m' hm).split
  · rw [h, h']
    exact ht
  · rw [h, h']
    have hr := (blind_releaseLocals id).onMachineStore g g' frames frames' t t' ht
    dsimp only
    obtain ⟨u, r, u', r', h, h', -, hr⟩ | ⟨e, r, e', r', h, h', rfl, hr⟩ := hr.split
    · rw [h, h']
      exact ⟨rfl, hr⟩
    · rw [h, h']
      exact ⟨rfl, hr⟩

/-- Machines with one more frame each. -/
def State.Pushed (g g' : BoundedStack (Guard p)) (fs fs' : List Frame) (m m' : State σ p) : Prop :=
  Store.Alike g g' m.store m'.store ∧ m.frames.items = fs ∧ m'.frames.items = fs' ∧
    m.frames.room = m'.frames.room

theorem agree_pushFrame (g g' : BoundedStack (Guard p)) (f f' : Frame) (fs fs' : List Frame)
    (room : Option ℕ) :
    Agree (State.Alike (σ := σ) g g' ⟨fs, room⟩ ⟨fs', room⟩) (State.pushFrame f) (State.pushFrame f')
      (fun _ _ m m' => State.Pushed g g' (f :: fs) (f' :: fs') m m')
      fun e e' m m' => e = e' ∧ State.Alike g g' ⟨fs, room⟩ ⟨fs', room⟩ m m' := by
  rintro ⟨s, _⟩ ⟨s', _⟩ ⟨hs, rfl, rfl⟩
  match room with
  | none => exact ⟨hs, rfl, rfl, rfl⟩
  | some 0 => exact ⟨rfl, hs, rfl, rfl⟩
  | some (k + 1) => exact ⟨hs, rfl, rfl, rfl⟩

/-- **Both machines call a function.** -/
theorem agree_call {setup : Setup} (hprog : setup.program.IsStructured) (index : UInt16)
    (g g' : BoundedStack (Guard p)) (fs fs' : List Frame) (room : Option ℕ) :
    Agree (State.Alike (σ := σ) g g' ⟨fs, room⟩ ⟨fs', room⟩) (State.call setup index)
      (State.call setup.linearised index)
      (fun _ _ m m' => ∃ code f f', Mirrors code f f' ∧ f.depth = 0 ∧
        State.Pushed g g' (f :: fs) (f' :: fs') m m')
      fun e e' m m' => e = e' ∧ m.store.core = m'.store.core := by
  unfold State.call
  rw [show setup.linearised.program.function? index = (setup.program.function? index).map
    Function.linearised from Bytecode.Program.function?_linearised _ _]
  cases hf : setup.program.function? index with
  | none => exact fun m m' h => ⟨rfl, h.1.1⟩
  | some f =>
    obtain ⟨hsize, hstruct⟩ := hprog f (Array.mem_of_getElem? hf)
    have hcore : ∀ (e e' : Halt) (m m' : State σ p),
        e = e' ∧ State.Alike g g' ⟨fs, room⟩ ⟨fs', room⟩ m m' →
        e = e' ∧ m.store.core = m'.store.core := fun _ _ _ _ h => ⟨h.1, h.2.1.1⟩
    refine (((blind_allocLocals f.locals).onMachineStore g g' _ _).weaken hcore).bind fun id id' => ?_
    rintro m m' ⟨rfl, hm⟩
    have hpush : Agree (State.Alike (σ := σ) g g' ⟨fs, room⟩ ⟨fs', room⟩)
        (do
          State.onStore (State.popParams id f.params.length)
          State.pushFrame (.ofFunction index f id))
        (do
          State.onStore (State.popParams id f.params.length)
          State.pushFrame (.ofFunction index f.linearised id))
        (fun _ _ m m' => State.Pushed g g' (.ofFunction index f id :: fs)
          (.ofFunction index f.linearised id :: fs') m m')
        fun e e' m m' => e = e' ∧ State.Alike g g' ⟨fs, room⟩ ⟨fs', room⟩ m m' := by
      refine ((blind_popParams id f.params.length).onMachineStore g g' _ _).bind fun _ _ => ?_
      exact fun m m' h => agree_pushFrame g g' _ _ fs fs' room m m' h.2
    refine ((agree_releasing id hpush).weaken hcore).bind (fun _ _ => ?_) m m' hm
    rintro ⟨s, frames⟩ ⟨s', frames'⟩ ⟨hs, hframes⟩
    exact ⟨_, _, _, mirrors_ofFunction hsize hstruct index id, rfl,
      ⟨hs.1, hs.2.1, hs.2.2⟩, hframes⟩

/-! ## Steps -/

variable {setup : Setup} {code : List Instruction} {i : Instruction} {f f' : Frame}
  {fs fs' : List Frame} {k k' : ℕ} {b b' : Block}

theorem related_advance (hf : Mirrors (i :: code) f f') (hi : i.opcode.isJump = false)
    (hfs : List.Forall₂ Waits fs fs') (hcore : s.core = s'.core)
    (hs : s.conditions = ⟨guards, none⟩)
    (hguards : guards.length = ((f :: fs).map Frame.depth).sum) (hb : f.running = .ok (k, b))
    (hb' : f'.running = .ok (k', b')) :
    StepsAlike (State.conclude setup fs room (Activation.follow f k b.advance ⟨f, s⟩))
      (State.conclude setup.linearised fs' room (Activation.follow f' k' b'.advance ⟨f', s'⟩)) := by
  rw [List.map_cons, List.sum_cons] at hguards
  obtain ⟨g, g', t, hok, hok', ⟨code', hg⟩, ht, guards', hguards', hcount⟩ :=
    hf.advance hi hs (by omega)
  rw [Activation.follow_advance hb, Activation.follow_advance hb', hok, hok']
  refine ⟨rfl, ht.trans hcore, .cons hg hfs, rfl, guards', hguards', ?_⟩
  simp only [List.map_cons, List.sum_cons]
  omega

/-- **Both machines follow an instruction that does not jump.** -/
theorem related_passes (hprog : setup.program.IsStructured) (hf : Mirrors (i :: code) f f')
    (hi : i.opcode.isJump = false) (hfs : List.Forall₂ Waits fs fs') (hcore : s.core = s'.core)
    (hs : s.conditions = ⟨guards, none⟩)
    (hguards : guards.length = ((f :: fs).map Frame.depth).sum) (hb : f.running = .ok (k, b))
    (hb' : f'.running = .ok (k', b')) {t t' : Transition p} (ht : Passes b b' i t t') :
    StepsAlike (State.conclude setup fs room (Activation.follow f k t ⟨f, s⟩))
      (State.conclude setup.linearised fs' room (Activation.follow f' k' t' ⟨f', s'⟩)) := by
  cases ht with
  | advance => exact related_advance hf hi hfs hcore hs hguards hb hb'
  | ret => exact related_ret hf hfs hcore hs hguards
  | call hcall =>
    have h := agree_call hprog i.index s.conditions s'.conditions (f :: fs) (f' :: fs') room
      ⟨s, ⟨f :: fs, room⟩⟩ ⟨s', ⟨f' :: fs', room⟩⟩ ⟨⟨hcore, rfl, rfl⟩, rfl, rfl⟩
    change StepsAlike (State.depart setup (some (.call i.index)) ⟨s, ⟨f :: fs, room⟩⟩)
      (State.depart setup.linearised (some (.call i.index)) ⟨s', ⟨f' :: fs', room⟩⟩)
    simp only [State.depart, bind, EStateM.bind]
    obtain ⟨u, m, u', m', hc, hc', code', g, g', hg, hdepth, ⟨hm, hconds, -⟩, hitems, hitems',
      hroom⟩ | ⟨e, m, e', m', hc, hc', rfl, hm⟩ := h.split
    · rw [hc, hc']
      refine ⟨rfl, hm, ?_, hroom, guards, hconds.trans hs, ?_⟩
      · rw [hitems, hitems']
        exact .cons hg (.cons ⟨i, code, hcall, hf⟩ hfs)
      · rw [hitems, hguards]
        simp only [List.map_cons, List.sum_cons, hdepth]
        omega
    · rw [hc, hc']
      exact ⟨.refl e, hm⟩

/-- **The arms of a conditional start** where linear code goes on. -/
theorem related_enter {index : UInt16} {h : Function} {id : ℕ} {n : Nesting} {cond : Value p}
    (hsize : h.code.size < UInt16.size) (hfits : Fits h id n.running.pc.toNat (i :: code) n)
    (hi : i.opcode.isConditionalBranch = true) (hfs : List.Forall₂ Waits fs fs')
    (hcore : s.core = s'.core) (hs : s.conditions = ⟨guards, none⟩)
    (hguards : guards.length = ((.ofNesting index h id n :: fs).map Frame.depth).sum)
    (hb' : (Frame.linear index h id n.running.pc.toNat).running = .ok (k', b')) :
    StepsAlike
      (State.conclude setup fs room (Activation.follow (.ofNesting index h id n) k
        (.exit (.conditional n.running.pc cond)) ⟨.ofNesting index h id n, s⟩))
      (State.conclude setup.linearised fs' room
        (Activation.follow (.linear index h id n.running.pc.toNat) k' b'.advance
          ⟨.linear index h id n.running.pc.toNat, s'⟩)) := by
  obtain ⟨bounds, arm, hbounds, harm, hne, hpc, hlinear⟩ := hfits.enter hsize hi
  have hdepth : n.layers.length ≤ h.code.size :=
    Nat.le_trans hfits.depth_le (Nat.le_of_add_right_le hfits.le_size)
  rw [Activation.follow_advance hb', Mirrors.advance_linear index h id _ s' hlinear]
  simp only [Activation.follow, bind, EStateM.bind,
    Activation.materialise_ofNesting hbounds hs hdepth]
  rw [List.map_cons, List.sum_cons, Frame.depth_ofNesting] at hguards
  refine ⟨rfl, hcore, .cons (.mk hsize harm hpc fun _ => hne) hfs, rfl, _, rfl, ?_⟩
  simp only [List.length_cons, List.map_cons, List.sum_cons, Frame.depth_ofNesting, Nesting.enter]
  omega

variable [Modulus p] [Recorder σ p]

theorem Frame.running_linear (index : UInt16) (f : Function) (id q : ℕ) :
    (Frame.linear index f id q).running =
      .ok (0, ⟨UInt16.ofNat (f.linearPosition q), 0, none, id⟩) := rfl

theorem toNat_linearPosition {f : Function} {q : ℕ} (hsize : f.code.size < UInt16.size)
    (hq : q ≤ f.code.size) : (UInt16.ofNat (f.linearPosition q)).toNat = f.linearPosition q := by
  have hle := f.linearPosition_le q
  have hlt : f.linearPosition q < UInt16.size := by omega
  exact UInt16.toNat_ofNat_of_lt' hlt

theorem Mirrors.running {code : List Instruction} {f f' : Frame} (h : Mirrors code f f') :
    ∃ k k' b b', f.running = .ok (k, b) ∧ f'.running = .ok (k', b') ∧ b.localsId = b'.localsId ∧
      (code = [] → f.function.code[b.pc.toNat]? = none ∧ f'.function.code[b'.pc.toNat]? = none) ∧
      ∀ i rest j, code = i :: rest → i.straightened = some j →
        f.function.code[b.pc.toNat]? = some i ∧ f'.function.code[b'.pc.toNat]? = some j := by
  obtain @⟨index, f, id, q, n, hsize, hfits, hpc, hne⟩ := h
  have hpc' := toNat_linearPosition hsize (Nat.le_of_add_right_le hfits.le_size)
  refine ⟨_, _, _, _, Frame.running_ofNesting, Frame.running_linear index f id q, hfits.localsId, ?_, ?_⟩
  · rintro rfl
    obtain ⟨body, _ | ⟨l, ls⟩⟩ := n
    · cases hfits with
      | body _ _ hend =>
        rw [List.length_nil, Nat.add_zero] at hend
        rw [hpc, hpc', hend]
        exact ⟨Array.getElem?_size, Bytecode.Function.code_linearised_size⟩
    · exact absurd rfl (hne (by simp))
  · rintro i rest j rfl hj
    rw [hpc, hpc']
    exact ⟨hfits.hasCode.head,
      Bytecode.Function.code_linearised_linearPosition hfits.hasCode.head hj⟩

omit [Modulus p] [Recorder σ p] in
theorem Store.alike_fetch (hcore : s.core = s'.core) (h h' : Function) (i i' : Instruction)
    (pc pc' : UInt16) :
    Store.Alike s.conditions s'.conditions (s.fetch h i pc) (s'.fetch h' i' pc') := by
  obtain ⟨ledger, stack, locals, conditions, steps⟩ := s
  obtain ⟨ledger', stack', locals', conditions', steps'⟩ := s'
  simp only [Store.core, Core.mk.injEq] at hcore
  obtain ⟨hr, rfl, rfl, rfl⟩ := hcore
  refine ⟨?_, rfl, rfl⟩
  simp only [Store.core, Store.fetch, hr]

omit [Modulus p] [Recorder σ p] in
theorem related_error {e e' : Halt} (he : e.Same e') (hcore : s.core = s'.core) :
    StepsAlike (State.conclude setup fs room (.error e ⟨f, s⟩))
      (State.conclude setup.linearised fs' room (.error e' ⟨f', s'⟩)) := by
  refine ⟨he, ?_⟩
  rw [State.core_noted, State.core_noted]
  exact hcore

/-- **Both machines execute an instruction that does not jump.** -/
theorem related_plain (hprog : setup.program.IsStructured) (hf : Mirrors (i :: code) f f')
    (hi : i.opcode.isJump = false) (hfs : List.Forall₂ Waits fs fs') (hcore : s.core = s'.core)
    (hs : s.conditions = ⟨guards, none⟩)
    (hguards : guards.length = ((f :: fs).map Frame.depth).sum) (hb : f.running = .ok (k, b))
    (hb' : f'.running = .ok (k', b')) (hid : b.localsId = b'.localsId) (h h' : Function)
    (step : ℕ) {mode : Mode} :
    StepsAlike
      (State.conclude setup fs room
        (match b.perform mode h i step s with
        | .ok t s => Activation.follow f k t ⟨f, s⟩
        | .error e s => .error e ⟨f, s⟩))
      (State.conclude setup.linearised fs' room
        (match b'.perform mode h' i step s' with
        | .ok t s => Activation.follow f' k' t ⟨f', s⟩
        | .error e s => .error e ⟨f', s⟩)) := by
  have hperform := agree_perform mode h h' step hi hid s.conditions s'.conditions s s'
    ⟨hcore, rfl, rfl⟩
  obtain ⟨t, r, t', r', hp, hp', hpass, hr, hconds, -⟩ | ⟨e, r, e', r', hp, hp', rfl, hr, -, -⟩ :=
    hperform.split
  · rw [hp, hp']
    exact related_passes hprog hf hi hfs hr (hconds.trans hs) hguards hb hb' hpass
  · rw [hp, hp']
    exact related_error (.refl e) hr

/-- **A conditional branch starts its arms where linear code drops the condition.** -/
theorem related_conditional {mode : Mode} (hmode : mode ≠ .witness) {j : Instruction}
    (hj : j.opcode = .pop) (hf : Mirrors (i :: code) f f')
    (hi : i.opcode.isConditionalBranch = true) (hfs : List.Forall₂ Waits fs fs')
    (hcore : s.core = s'.core) (hs : s.conditions = ⟨guards, none⟩)
    (hguards : guards.length = ((f :: fs).map Frame.depth).sum) (hb : f.running = .ok (k, b))
    (hb' : f'.running = .ok (k', b')) (h h' : Function) (step : ℕ)
    (hunknown : ∀ v, s.stack.top? = some v → v.value? = none) :
    StepsAlike
      (State.conclude setup fs room
        (match b.perform mode h i step s with
        | .ok t s => Activation.follow f k t ⟨f, s⟩
        | .error e s => .error e ⟨f, s⟩))
      (State.conclude setup.linearised fs' room
        (match b'.perform mode h' j step s' with
        | .ok t s => Activation.follow f' k' t ⟨f', s⟩
        | .error e s => .error e ⟨f', s⟩)) := by
  have hpop := blind_pop s.conditions s'.conditions s s' ⟨hcore, rfl, rfl⟩
  rw [Block.perform_pop hj]
  obtain ⟨v, r, v', r', hp, hp', rfl, hr, hconds, -⟩ | ⟨e, r, e', r', hp, hp', rfl, hr, -, -⟩ :=
    hpop.split
  · rw [hp', Block.perform_unknown hmode hi hp (hunknown v (Store.top?_of_pop hp))]
    obtain @⟨index, h, id, q, n, hsize, hfits, rfl, -⟩ := hf
    rw [Frame.running_ofNesting] at hb
    cases hb
    exact related_enter hsize hfits hi hfs hr (hconds.trans hs) hguards hb'
  · rw [hp', Block.perform_conditional_error hi hp]
    exact related_error (.refl e) hr

/-- **One instruction of both machines.** -/
theorem related_step (hmode : setup.config.mode ≠ .witness) (hprog : setup.program.IsStructured)
    {m m' : State σ p} (h : Related m m')
    (hunknown : ∀ i, m.instruction? = some i → i.opcode.isConditionalBranch = true →
      ∀ v, m.store.stack.top? = some v → v.value? = none) :
    StepsAlike (State.step setup m) (State.step setup.linearised m') := by
  obtain ⟨s, fs₀, room⟩ := m
  obtain ⟨s', fs₀', room'⟩ := m'
  obtain ⟨hcore, hframes, rfl, guards, hs, hguards⟩ := h
  dsimp only at hcore hframes hs hguards
  cases hframes with
  | nil => exact ⟨rfl, hcore, .nil, rfl, guards, hs, hguards⟩
  | @cons code f f' fs fs' hf hfs =>
    obtain ⟨k, k', b, b', hb, hb', hid, hnil, hcons⟩ := hf.running
    have hlocals : s.locals = s'.locals := congrArg Core.locals hcore
    have hsteps : s.steps = s'.steps := congrArg Core.steps hcore
    rw [State.step_cons, State.step_cons, Activation.step_eq hb, Activation.step_eq hb']
    by_cases hk : s.locals.knows b.localsId = true
    · have hk' : s'.locals.knows b'.localsId = true := by rw [← hlocals, ← hid]; exact hk
      cases code with
      | nil =>
        obtain ⟨hb₀, hb₀'⟩ := hnil rfl
        rw [Block.step_eq_beyond hk hb₀, Block.step_eq_beyond hk' hb₀']
        exact related_error rfl hcore
      | cons i rest =>
        cases hjump : i.opcode.isJump with
        | false =>
          obtain ⟨hi, hi'⟩ := hcons i rest i rfl (Instruction.straightened_of_isJump hjump)
          rw [Block.step_eq hk hi, Block.step_eq hk' hi', ← hsteps]
          exact related_plain hprog hf hjump hfs (Store.alike_fetch hcore _ _ _ _ _ _).1 hs hguards
            hb hb' hid _ _ _
        | true =>
          obtain ⟨q, hstruct⟩ := hf.structured
          have hcond := hstruct.head hjump
          obtain ⟨hi, hi'⟩ := hcons i rest _ rfl (Instruction.straightened_of_conditional hcond)
          rw [Block.step_eq hk hi, Block.step_eq hk' hi', ← hsteps]
          refine related_conditional hmode rfl hf hcond hfs (Store.alike_fetch hcore _ _ _ _ _ _).1
            hs hguards hb hb' _ _ _ fun v hv => hunknown i ?_ hcond v hv
          rw [State.instruction?_cons hb]
          exact hi
    · have hk₀ : s.locals.knows b.localsId = false := Bool.eq_false_iff.mpr hk
      have hk' : s'.locals.knows b'.localsId = false := by rw [← hlocals, ← hid]; exact hk₀
      rw [Block.step_eq_unknown hk₀, Block.step_eq_unknown hk']
      exact related_error rfl hcore

end Machine

end StackCircuit.Machine
