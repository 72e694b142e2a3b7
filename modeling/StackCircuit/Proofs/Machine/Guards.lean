import Mathlib.Data.List.DropRight
import StackCircuit.Proofs.Machine.Completion
import StackCircuit.Proofs.Machine.Failures

/-!
# Arms and their guards

The frames of a machine and its stack of guards fit together at all times, whatever the code is: a
frame has one guard for each conditional branch whose arms it executes.

* `Frame.Coherent`: the program blocks of a frame are the body and one conditional for each of its
  guards, its blocks are the body and the arms of these, and each branch is still where it was.
* `Pending`: the states between the instructions of an execution, with the unknown conditions whose
  arms are under execution.
* `Nested`, `Frame.Guarded`, `State.Watched`: the same in terms of layers, which steps keep.
* **`guards_coherent`**: the guards hold the pending conditions, the frames are coherent, and the
  failure that blames the state of the machine is left to undefined operations and full frames.
-/

namespace StackCircuit.Machine

open Bytecode (Function Instruction)
open Circuit (Recorder System)

variable {σ : Type} {p : ℕ}

/-! ## Coherent frames -/

/-- The arms of a conditional, that for a true condition first. -/
def Conditional.toList : Conditional → List Arm
  | onTrue t => [t]
  | onFalse f => [f]
  | both t f => [t, f]

/-- Whether the second arm is running. -/
def Conditional.runsSecond : Conditional → Bool
  | both _ f => f.running
  | _ => false

/-- The bounds of a block. -/
def Block.span (b : Block) : UInt16 × Option UInt16 := (b.start, b.stop)

/-- The bounds of arms in order. -/
def Frame.spans (bounds : (UInt16 × UInt16) × Option (UInt16 × UInt16)) :
    List (UInt16 × Option UInt16) :=
  (bounds.1 :: bounds.2.toList).map fun b => (b.1, some b.2)

/-- **A conditional under execution**: the block that waits for it is at a conditional branch, whose
arms are those of the code, and the guard tells which of them is running. -/
def Level (f : Function) (blocks : List Block) (parent : ProgramBlock) (c : Conditional)
    (g : Guard p) : Prop :=
  ∃ n b i bounds, parent.running? = some n ∧ blocks[n]? = some b ∧
    f.code[b.pc.toNat]? = some i ∧ i.opcode.isConditionalBranch = true ∧
    Frame.armBounds f b.pc = .ok bounds ∧
    c.toList.map (fun a => blocks[a.block]?.map Block.span) = (Frame.spans bounds).map some ∧
    g.cond.value? = none ∧ g.negated = (decide (i.opcode = .brFalse) ^^ c.runsSecond)

/-- **A frame that executes given conditionals**, the outermost first, under given guards, the
innermost first. -/
structure Frame.Coherent (f : Frame) (cs : List Conditional) (guards : List (Guard p)) : Prop where
  program : f.suspended.toList ++ [f.current] = .simple 0 :: cs.map .conditional
  length : cs.length = f.depth
  length_guards : guards.length = f.depth
  running : ∀ c ∈ cs, c.toList.countP Arm.running = 1
  -- The body comes first, then the arms of one conditional after the other.
  blocks : 0 :: cs.flatMap (fun c => c.toList.map Arm.block) = List.range f.blocks.size
  body : f.blocks[0]?.map Block.span = some (0, none)
  level {j : ℕ} {parent : ProgramBlock} {c : Conditional} {g : Guard p} :
    f.suspended.toList[j]? = some parent → cs[j]? = some c → guards.reverse[j]? = some g →
      Level f.function f.blocks.toList parent c g

/-- The unknown condition that the next instruction branches on. -/
def State.unknown? (m : State σ p) : Option (Value p) := do
  let i ← m.instruction?
  let v ← m.store.stack.top?
  if i.opcode.isConditionalBranch ∧ v.value?.isNone then some v else none

/-- The number of conditionals under execution in all frames. -/
def State.depth (m : State σ p) : ℕ := (m.frames.items.map Frame.depth).sum

/-- **The states between the instructions of an execution, with its pending conditions**: an unknown
condition is pending from the branch on it until its conditional has ended. -/
inductive Pending [Modulus p] [Recorder σ p] (setup : Setup) (index : UInt16)
    (args : List (Scalar p)) (m₀ : State σ p) : State σ p → List (Value p) → Prop
  | start {f : Function} {m : State σ p} (he : State.eligible setup index args = .ok f)
      (hm : State.start setup index f args m₀ = .ok () m) : Pending setup index args m₀ m []
  | step {m m' : State σ p} {conds : List (Value p)} {done : Bool}
      (h : Pending setup index args m₀ m conds) (hm : State.step setup m = .ok done m') :
    Pending setup index args m₀ m' ((m.unknown?.toList ++ conds).rtake m'.depth)

/-! ## Layers under guards -/

namespace Layer

/-- Whether the second arm is running. -/
def isSecond : Layer → Bool
  | second _ _ => true
  | _ => false

/-- The bounds of the arms. -/
def spans (l : Layer) : List (UInt16 × Option UInt16) := l.blocks.map Block.span

theorem spans_ofBounds (id : ℕ) (bounds : (UInt16 × UInt16) × Option (UInt16 × UInt16)) :
    (ofBounds id bounds).spans = Frame.spans bounds := by
  obtain ⟨first, _ | second⟩ := bounds <;> rfl

theorem isSecond_ofBounds (id : ℕ) (bounds : (UInt16 × UInt16) × Option (UInt16 × UInt16)) :
    (ofBounds id bounds).isSecond = false := by
  obtain ⟨first, _ | second⟩ := bounds <;> rfl

theorem spans_setPc (l : Layer) (pc : UInt16) : (l.setPc pc).spans = l.spans := by
  cases l <;> rfl

theorem isSecond_setPc (l : Layer) (pc : UInt16) : (l.setPc pc).isSecond = l.isSecond := by
  cases l <;> rfl

theorem countP_running_arms (l : Layer) (n : ℕ) : (l.arms n).toList.countP Arm.running = 1 := by
  cases l <;> rfl

theorem runsSecond_arms (l : Layer) (n : ℕ) : (l.arms n).runsSecond = l.isSecond := by
  cases l <;> rfl

theorem blocks_arms (l : Layer) (n : ℕ) :
    (l.arms n).toList.map Arm.block = List.range' n l.blocks.length := by
  cases l <;> rfl

end Layer

/-- **Layers under guards**: each was entered at a conditional branch on an unknown condition, where
the block around it still is. -/
inductive Nested (f : Function) (body : Block) : List Layer → List (Guard p) → Prop
  | nil : Nested f body [] []
  | cons {l : Layer} {ls : List Layer} {g : Guard p} {guards : List (Guard p)} {i : Instruction}
      {bounds : (UInt16 × UInt16) × Option (UInt16 × UInt16)} (h : Nested f body ls guards)
      (hi : f.code[(Nesting.running ⟨body, ls⟩).pc.toNat]? = some i)
      (hcond : i.opcode.isConditionalBranch = true)
      (hbounds : Frame.armBounds f (Nesting.running ⟨body, ls⟩).pc = .ok bounds)
      (hl : l.spans = Frame.spans bounds) (hg : g.cond.value? = none)
      (hneg : g.negated = (decide (i.opcode = .brFalse) ^^ l.isSecond)) :
    Nested f body (l :: ls) (g :: guards)

section Nested

variable {f : Function} {body : Block} {ls : List Layer} {guards : List (Guard p)} {n : Nesting}

theorem Nested.length (h : Nested f body ls guards) : guards.length = ls.length := by
  induction h with
  | nil => rfl
  | cons _ _ _ _ _ _ _ ih => rw [List.length_cons, List.length_cons, ih]

theorem Nested.setPc (h : Nested f n.body n.layers guards) (pc : UInt16) :
    Nested f (n.setPc pc).body (n.setPc pc).layers guards := by
  obtain ⟨body, _ | ⟨l, ls⟩⟩ := n
  · cases h
    exact .nil
  · cases h with
    | cons h hi hcond hbounds hl hg hneg =>
      exact .cons h hi hcond hbounds ((l.spans_setPc pc).trans hl) hg
        (hneg.trans (by rw [l.isSecond_setPc]))

theorem Nested.switch {b b' : Block} {g : Guard p}
    (h : Nested f body (.first b b' :: ls) (g :: guards)) :
    Nested f body (.second b b' :: ls) (g.flip :: guards) := by
  cases h with
  | cons h hi hcond hbounds hl hg hneg =>
    refine .cons h hi hcond hbounds hl hg ?_
    simp only [Guard.flip, hneg, Layer.isSecond, Bool.xor_false, Bool.xor_true]

/-! ## From layers to frames -/

namespace Nesting

/-- The conditionals of layers, the outermost first. -/
def conditionals (body : Block) : List Layer → List Conditional
  | [] => []
  | l :: ls => conditionals body ls ++ [l.arms (arena body ls).length]

theorem length_conditionals (body : Block) (ls : List Layer) :
    (conditionals body ls).length = ls.length := by
  induction ls with
  | nil => rfl
  | cons l ls ih => rw [conditionals, List.length_append, ih]; rfl

theorem reverse_waiting (body : Block) (ls : List Layer) :
    (waiting body ls).reverse ++ [program body ls] =
      .simple 0 :: (conditionals body ls).map .conditional := by
  induction ls with
  | nil => rfl
  | cons l ls ih =>
    rw [waiting, List.reverse_cons, ih, conditionals, List.map_append]
    rfl

theorem countP_running_conditionals (body : Block) (ls : List Layer) :
    ∀ c ∈ conditionals body ls, c.toList.countP Arm.running = 1 := by
  induction ls with
  | nil => exact fun _ h => nomatch h
  | cons l ls ih =>
    intro c hc
    rcases List.mem_append.mp hc with hc | hc
    · exact ih c hc
    · rw [List.mem_singleton.mp hc]
      exact l.countP_running_arms _

theorem blocks_conditionals (body : Block) (ls : List Layer) :
    0 :: (conditionals body ls).flatMap (fun c => c.toList.map Arm.block) =
      List.range (arena body ls).length := by
  induction ls with
  | nil => rfl
  | cons l ls ih =>
    rw [conditionals, List.flatMap_append, ← List.cons_append, ih, List.flatMap_singleton,
      l.blocks_arms, arena, List.length_append, List.range_eq_range', List.range_eq_range',
      ← List.range'_append_1, Nat.zero_add]

theorem getElem?_zero_arena (body : Block) (ls : List Layer) : (arena body ls)[0]? = some body := by
  induction ls with
  | nil => rfl
  | cons l ls ih =>
    rw [arena, List.getElem?_append_left ((List.getElem?_eq_some_iff.mp ih).1), ih]

end Nesting

theorem Layer.spans_arms (l : Layer) (bs rest : List Block) :
    (l.arms bs.length).toList.map (fun a => (bs ++ l.blocks ++ rest)[a.block]?.map Block.span) =
      l.spans.map some := by
  have h0 : (bs ++ l.blocks ++ rest)[bs.length]? = (l.blocks ++ rest)[0]? := by
    rw [List.append_assoc, List.getElem?_append_right (Nat.le_refl _), Nat.sub_self]
  have h1 : (bs ++ l.blocks ++ rest)[bs.length + 1]? = (l.blocks ++ rest)[1]? := by
    rw [List.append_assoc, List.getElem?_append_right (Nat.le_add_right _ _),
      Nat.add_sub_cancel_left]
  cases l with
  | only b => simp only [arms, Conditional.toList, List.map_cons, List.map_nil, h0]; rfl
  | first b b' => simp only [arms, Conditional.toList, List.map_cons, List.map_nil, h0, h1]; rfl
  | second b b' => simp only [arms, Conditional.toList, List.map_cons, List.map_nil, h0, h1]; rfl

/-- **Each layer is a conditional under execution**, seen among the blocks of all layers. -/
theorem Nested.level (h : Nested f body ls guards) (rest : List Block) {j : ℕ} {parent : ProgramBlock}
    {c : Conditional} {g : Guard p} (hparent : (Nesting.waiting body ls).reverse[j]? = some parent)
    (hc : (Nesting.conditionals body ls)[j]? = some c) (hg : guards.reverse[j]? = some g) :
    Level f (Nesting.arena body ls ++ rest) parent c g := by
  induction h generalizing rest with
  | nil => cases hc
  | @cons l ls g' guards i bounds h hi hcond hbounds hl hunknown hneg ih =>
    have hlen := h.length
    rw [Nesting.waiting, List.reverse_cons] at hparent
    rw [Nesting.conditionals] at hc
    rw [List.reverse_cons] at hg
    rcases Nat.lt_or_ge j ls.length with hj | hj
    · -- The conditional is further out, and its blocks come before those of this layer.
      rw [List.getElem?_append_left (by rwa [List.length_reverse, Nesting.length_waiting])]
        at hparent
      rw [List.getElem?_append_left (by rwa [Nesting.length_conditionals])] at hc
      rw [List.getElem?_append_left (by rwa [List.length_reverse, hlen])] at hg
      rw [Nesting.arena, List.append_assoc]
      exact ih (l.blocks ++ rest) hparent hc hg
    · rw [List.getElem?_append_right (by rwa [List.length_reverse, Nesting.length_waiting]),
        List.getElem?_singleton, List.length_reverse, Nesting.length_waiting] at hparent
      rw [List.getElem?_append_right (by rwa [Nesting.length_conditionals]),
        List.getElem?_singleton, Nesting.length_conditionals] at hc
      rw [List.getElem?_append_right (by rwa [List.length_reverse, hlen]),
        List.getElem?_singleton, List.length_reverse, hlen] at hg
      by_cases hj' : j - ls.length = 0
      · rw [if_pos hj'] at hparent hc hg
        cases hparent
        cases hc
        cases hg
        have hrunning := Nesting.getElem?_arena ⟨body, ls⟩
        refine ⟨_, _, i, bounds, Nesting.running?_program ⟨body, ls⟩, ?_, hi, hcond, hbounds, ?_,
          hunknown, ?_⟩
        · rw [Nesting.arena, List.append_assoc,
            List.getElem?_append_left ((List.getElem?_eq_some_iff.mp hrunning).1)]
          exact hrunning
        · rw [← hl]
          exact l.spans_arms _ rest
        · rw [hneg, l.runsSecond_arms]
      · rw [if_neg hj'] at hc
        cases hc

end Nested

/-- **A frame with its guards**, in terms of layers. -/
inductive Frame.Guarded : Frame → List (Guard p) → Prop
  | intro {index : UInt16} {f : Function} {id : ℕ} {n : Nesting} {guards : List (Guard p)}
      (hbody : n.body.span = (0, none)) (hlayers : n.layers.length ≤ f.code.size + 1)
      (h : Nested f n.body n.layers guards) : Guarded (.ofNesting index f id n) guards

theorem Frame.Guarded.depth {f : Frame} {guards : List (Guard p)} (h : f.Guarded guards) :
    guards.length = f.depth := by
  obtain ⟨hbody, hlayers, h⟩ := h
  rw [Frame.depth_ofNesting, h.length]

theorem Frame.Guarded.running {f : Frame} {guards : List (Guard p)} (h : f.Guarded guards) :
    ∃ number b, f.running = .ok (number, b) := by
  cases h
  exact ⟨_, _, Frame.running_ofNesting⟩

/-- **A frame of layers under guards is coherent.** -/
theorem Frame.Guarded.coherent {f : Frame} {guards : List (Guard p)} (h : f.Guarded guards) :
    ∃ cs, f.Coherent cs guards := by
  obtain @⟨index, f, id, n, guards, hbody, hlayers, h⟩ := h
  have hdepth : (Frame.ofNesting index f id n).depth = n.layers.length := Frame.depth_ofNesting
  refine ⟨Nesting.conditionals n.body n.layers, ?_, ?_, ?_, ?_, ?_, ?_, ?_⟩
  · exact Nesting.reverse_waiting n.body n.layers
  · rw [hdepth, Nesting.length_conditionals]
  · rw [hdepth, h.length]
  · exact Nesting.countP_running_conditionals n.body n.layers
  · exact Nesting.blocks_conditionals n.body n.layers
  · simp only [Frame.ofNesting, List.getElem?_toArray, Nesting.getElem?_zero_arena,
      Option.map_some, hbody]
  · intro j parent c g hparent hc hg
    have hlevel := h.level [] hparent hc hg
    rwa [List.append_nil] at hlevel

/-! ## Entering and leaving arms -/

section Arms

variable {index : UInt16} {f : Function} {id : ℕ} {n : Nesting} {s : Store σ p} {pc : UInt16}
  {guards rest : List (Guard p)} {frame : Frame}

theorem span_body_setPc (n : Nesting) (pc : UInt16) : (n.setPc pc).body.span = n.body.span := by
  obtain ⟨body, ls⟩ := n
  cases ls <;> rfl

theorem Frame.Guarded.setPc (hbody : n.body.span = (0, none))
    (hlayers : n.layers.length ≤ f.code.size + 1) (h : Nested f n.body n.layers guards)
    (index : UInt16) (id : ℕ) (pc : UInt16) :
    Frame.Guarded (.ofNesting index f id (n.setPc pc)) guards :=
  ⟨(span_body_setPc n pc).trans hbody, (n.length_layers_setPc pc).le.trans hlayers, h.setPc pc⟩

/-- The rest of the pending conditions, when some conditionals have ended. -/
def Ended (guards guards' : List (Guard p)) : Prop :=
  guards'.map Guard.cond <:+ guards.map Guard.cond

/-- **The end of an arm**: guards go with the layers that end, and one is flipped where the second
arm starts. -/
theorem Nested.endArms (h : Nested f n.body n.layers guards) {rounds : ℕ}
    (hbody : n.body.span = (0, none)) (hlayers : n.layers.length ≤ f.code.size + 1)
    (hne : n.layers ≠ []) (hrounds : n.layers.length ≤ rounds)
    (hs : s.conditions = ⟨guards ++ rest, none⟩) :
    ∃ frame s' guards', Activation.endArms pc rounds ⟨.ofNesting index f id n, s⟩ =
        .ok () ⟨frame, s'⟩ ∧ frame.Guarded guards' ∧ s'.conditions = ⟨guards' ++ rest, none⟩ ∧
      Ended guards guards' := by
  induction rounds generalizing n s guards with
  | zero => exact absurd (List.eq_nil_of_length_eq_zero (Nat.le_zero.mp hrounds)) hne
  | succ rounds ih =>
    obtain ⟨body, _ | ⟨l, ls⟩⟩ := n
    · exact absurd rfl hne
    obtain _ | ⟨g, guards⟩ := guards
    · cases h
    simp only [List.length_cons] at hrounds hlayers
    cases hl : l.isLast with
    | false =>
      obtain ⟨b, b', rfl⟩ : ∃ b b', l = .first b b' := by
        cases l with
        | only b => cases hl
        | first b b' => exact ⟨b, b', rfl⟩
        | second b b' => cases hl
      exact ⟨_, _, g.flip :: guards, Activation.endArms_first rounds hs,
        ⟨hbody, hlayers, h.switch⟩, rfl, List.suffix_rfl⟩
    | true =>
      have hls : Nested f body ls guards := by
        cases h
        assumption
      have hended : Ended (g :: guards) guards := List.suffix_cons _ _
      rw [Activation.endArms_last rounds hl hs (by omega)]
      by_cases hstop : (Nesting.running ⟨body, ls⟩).stop = some pc
      · -- The block around the arms is an arm that ends as well: the body has no end.
        have hne' : ls ≠ [] := by
          rintro rfl
          have hnone : body.stop = none := congrArg Prod.snd hbody
          exact absurd (hnone.symm.trans hstop) (by simp)
        have hlen := Nesting.length_layers_setPc ⟨body, ls⟩ pc
        have hne'' : (Nesting.setPc pc ⟨body, ls⟩).layers ≠ [] := by
          rw [← List.length_pos_iff, hlen]
          exact List.length_pos_iff.mpr hne'
        obtain ⟨frame, s', guards', hend, hframe, hs', hsuffix⟩ :=
          ih (n := Nesting.setPc pc ⟨body, ls⟩)
            (s := (s.withGuards (guards ++ rest)).withEvent (.merge f.name pc ls.length))
            (Nested.setPc (n := ⟨body, ls⟩) hls pc) ((span_body_setPc _ pc).trans hbody)
            (by rw [hlen]; dsimp only; omega) hne'' (by rw [hlen]; dsimp only; omega) rfl
        simp only [if_pos hstop]
        exact ⟨frame, s', guards', hend, hframe, hs', hsuffix.trans hended⟩
      · simp only [if_neg hstop]
        have hframe := Frame.Guarded.setPc (n := ⟨body, ls⟩) hbody (by dsimp only; omega) hls index
          id (pc + 1)
        exact ⟨_, _, guards, rfl, hframe, rfl, hended⟩

/-- **Going on to the next instruction.** -/
theorem Frame.Guarded.advance (h : frame.Guarded guards)
    (hs : s.conditions = ⟨guards ++ rest, none⟩) :
    ∃ frame' s' guards', Activation.advance ⟨frame, s⟩ = .ok () ⟨frame', s'⟩ ∧
      frame'.Guarded guards' ∧ s'.conditions = ⟨guards' ++ rest, none⟩ ∧ Ended guards guards' := by
  obtain @⟨index, f, id, n, guards, hbody, hlayers, h⟩ := h
  rw [Activation.advance_ofNesting]
  by_cases hend : n.running.atEnd = true
  · have hne : n.layers ≠ [] := by
      obtain ⟨body, _ | ⟨l, ls⟩⟩ := n
      · have hnone : body.stop = none := congrArg Prod.snd hbody
        simp [Nesting.running, Block.atEnd, hnone] at hend
      · exact List.cons_ne_nil l ls
    rw [if_pos hend]
    exact h.endArms hbody hlayers hne (Nat.le_succ _) hs
  · rw [if_neg hend]
    exact ⟨_, s, guards, rfl, Frame.Guarded.setPc hbody hlayers h index id _, hs, List.suffix_rfl⟩

theorem Activation.materialise_malformed {cond : Value p} {e : Failure}
    (h : Frame.armBounds f pc = .error e) :
    materialise pc cond ⟨.ofNesting index f id n, s⟩ =
      .error (.failure e) ⟨.ofNesting index f id n, s⟩ := by
  have harms : (Frame.ofNesting index f id n).arms pc = .error e := by
    simp only [Frame.arms, Frame.ofNesting, h]
  simp only [materialise, prepare, bind, EStateM.bind, ofFrame, harms]

theorem Activation.materialise_full (index : UInt16) (id : ℕ) (cond : Value p)
    {bounds : (UInt16 × UInt16) × Option (UInt16 × UInt16)}
    (h : Frame.armBounds f pc = .ok bounds) (hs : s.conditions = ⟨guards, none⟩)
    (hfull : n.layers.length = f.code.size + 1) :
    ∃ e a, materialise pc cond ⟨.ofNesting index f id n, s⟩ = .error e a := by
  have hguard (e : Event p) := Store.pushGuard_eq (s := s.withEvent e) hs
  have hroom : f.code.size + 1 - n.layers.length = 0 := by omega
  have hpush : (Frame.ofNesting index f id n).suspended.push (Frame.ofNesting index f id n).current =
      .error .overflow := by
    simp only [Frame.ofNesting, hroom, BoundedStack.push]
  simp only [materialise, prepare, bind, EStateM.bind, ofFrame, Frame.arms_ofNesting h, setFrame,
    getFrame, pure, EStateM.pure, onStore, Store.note_eq, hguard, hpush]
  exact ⟨_, _, rfl⟩

end Arms

/-! ## What control does to layers -/

/-- **Going on behind an instruction**: to the next one, or out of the arms that end with it. -/
inductive Nesting.GoesOn (f : Function) (n : Nesting) : Nesting → Prop
  | next : GoesOn f n (n.setPc (n.running.pc + 1))
  | settle {n' : Nesting} {events : List (Event p)}
      (h : Activation.Settles f n.running.pc n n' events) : GoesOn f n n'

/-- **Where control goes within a frame**: on, to a target, or into arms. -/
inductive Nesting.Follows (f : Function) (id : ℕ) (i : Instruction) (n : Nesting) :
    Transition p → Nesting → Prop
  | goesOn {t : Transition p} {n' : Nesting} (h : Nesting.GoesOn (p := p) f n n') :
    Follows f id i n t n'
  | goto (hjump : i.opcode.isJump = true) : Follows f id i n (.goto i.target) (n.setPc i.target)
  | enter {bounds : (UInt16 × UInt16) × Option (UInt16 × UInt16)}
      (hbounds : Frame.armBounds f n.running.pc = .ok bounds) (v : Value p) :
    Follows f id i n (.exit (.conditional n.running.pc v)) (n.enter (.ofBounds id bounds))

section Follows

variable {index : UInt16} {f : Function} {id number : ℕ} {n : Nesting} {s s' : Store σ p}
  {guards rest : List (Guard p)} {b : Block} {i : Instruction} {t : Transition p} {g : Frame}

theorem Nesting.layers_ne_nil (n : Nesting) (hbody : n.body.stop = none)
    (hend : n.running.atEnd = true) : n.layers ≠ [] := by
  obtain ⟨body, ls⟩ := n
  rintro rfl
  have hstop : body.stop = some body.pc := of_decide_eq_true hend
  exact nomatch hbody.symm.trans hstop

theorem Frame.Guarded.depth_le {f : Frame} (h : f.Guarded guards) :
    f.depth ≤ f.function.code.size + 1 := by
  obtain ⟨hbody, hlayers, -⟩ := h
  rw [Frame.depth_ofNesting]
  exact hlayers

theorem Frame.Guarded.goesOn (hf : (Frame.ofNesting index f id n).Guarded guards)
    (hbody : n.body.stop = none) (hs : s.conditions = ⟨guards ++ rest, none⟩) {u : Unit}
    (hok : Activation.advance ⟨.ofNesting index f id n, s⟩ = .ok u ⟨g, s'⟩) :
    ∃ n', g = .ofNesting index f id n' ∧ n'.body.stop = none ∧ Nesting.GoesOn (p := p) f n n' := by
  have hdepth := hf.depth
  have hle := hf.depth_le
  rw [Frame.depth_ofNesting] at hdepth hle
  rw [Activation.advance_ofNesting] at hok
  by_cases hend : n.running.atEnd = true
  · obtain ⟨n', events, s₁, hok', hsettles, -⟩ := Activation.endArms_ofNesting index f id
      n.running.pc hs (n.layers_ne_nil hbody hend) (by rw [List.length_append]; omega)
      (Nat.le_succ _) hbody hle
    rw [if_pos hend, hok'] at hok
    cases hok
    exact ⟨n', rfl, hsettles.stop_body hbody, .settle hsettles⟩
  · rw [if_neg hend] at hok
    cases hok
    exact ⟨_, rfl, (n.stop_body_setPc _).trans hbody, .next⟩

theorem Frame.Guarded.follows (hf : (Frame.ofNesting index f id n).Guarded guards)
    (hbody : n.body.stop = none) (hs : s.conditions = ⟨guards ++ rest, none⟩)
    (hb : (Frame.ofNesting index f id n).running = .ok (number, b)) (ht : Leads b i t)
    (hok : Activation.follow (.ofNesting index f id n) number t ⟨.ofNesting index f id n, s⟩ =
      .ok none ⟨g, s'⟩) :
    ∃ n', g = .ofNesting index f id n' ∧ n'.body.stop = none ∧ n.Follows f id i t n' := by
  cases ht with
  | ret => cases hok
  | call hop => cases hok
  | advance hret hbranch =>
    rw [Activation.follow_advance hb] at hok
    cases hadvance : Activation.advance ⟨.ofNesting index f id n, s⟩ with
    | error e a => rw [hadvance] at hok; cases hok
    | ok u a =>
      rw [hadvance] at hok
      cases hok
      obtain ⟨n', hg, hbody', hgoes⟩ := hf.goesOn hbody hs hadvance
      exact ⟨n', hg, hbody', .goesOn hgoes⟩
  | goto hjump =>
    rw [Frame.running_ofNesting] at hb
    cases hb
    simp only [Activation.follow, bind, EStateM.bind, Activation.setFrame,
      Frame.setBlockPc_ofNesting] at hok
    cases hok
    exact ⟨_, rfl, (n.stop_body_setPc _).trans hbody, .goto hjump⟩
  | enter hcond v =>
    have hle := hf.depth_le
    rw [Frame.depth_ofNesting] at hle
    rw [Frame.running_ofNesting] at hb
    cases hb
    obtain ⟨u, a, hmat, hrest⟩ := bind_eq_ok hok
    cases hrest
    cases hbounds : Frame.armBounds f n.running.pc with
    | error e => rw [Activation.materialise_malformed hbounds] at hmat; cases hmat
    | ok bounds =>
      rcases Nat.lt_or_ge n.layers.length (f.code.size + 1) with hroom | hfull
      · rw [Activation.materialise_ofNesting hbounds hs (Nat.le_of_lt_succ hroom)] at hmat
        cases hmat
        exact ⟨_, rfl, hbody, .enter hbounds v⟩
      · obtain ⟨e, a, hfail⟩ := Activation.materialise_full (n := n) index id v hbounds hs
          (Nat.le_antisymm hle hfull)
        rw [hfail] at hmat
        cases hmat

end Follows

/-! ## The machine -/

/-- A result with `Q`, or a failure that is regular unless `blame` holds. -/
def Lawful {τ α : Type} (blame : Prop) (Q : τ → Prop) : EStateM.Result Halt τ α → Prop
  | .ok _ s => Q s
  | .error (.failure e) _ => e.IsRegular ∨ blame
  | .error _ _ => True

theorem Lawful.of_error {τ α : Type} {blame : Prop} {Q : τ → Prop} {e : Halt} {s : τ}
    (h : ∀ f, e = .failure f → f.IsRegular ∨ blame) :
    Lawful (α := α) blame Q (.error e s) := by
  cases e with
  | failure f => exact h f rfl
  | fault _ => exact trivial
  | outOfFuel => exact trivial

/-- **The frames of a machine with their guards**, one list for each frame. -/
structure State.Watched (m : State σ p) (gs : List (List (Guard p))) : Prop where
  conditions : m.store.conditions = ⟨gs.flatten, none⟩
  frames : List.Forall₂ Frame.Guarded m.frames.items gs

/-- The next states are watched, and the guards hold the conditions that were pending before. -/
def State.Follows (conds : List (Value p)) (m : State σ p) : Prop :=
  ∃ gs, m.Watched gs ∧ gs.flatten.map Guard.cond <:+ conds

theorem State.Follows.mono {m : State σ p} {conds conds' : List (Value p)} (h : m.Follows conds)
    (hconds : conds <:+ conds') : m.Follows conds' := by
  obtain ⟨gs, hm, hgs⟩ := h
  exact ⟨gs, hm, hgs.trans hconds⟩

theorem Lawful.mono {τ α : Type} {blame blame' : Prop} {Q Q' : τ → Prop}
    {r : EStateM.Result Halt τ α} (h : Lawful blame Q r) (hblame : blame → blame')
    (hQ : ∀ s, Q s → Q' s) : Lawful blame' Q' r := by
  cases r with
  | ok a s => exact hQ s h
  | error e s =>
    cases e with
    | failure f => exact Or.imp_right hblame h
    | fault _ => exact trivial
    | outOfFuel => exact trivial

/-- What the failure that blames the state of the machine is about: an undefined operation, or an
unknown condition where no more arms fit into the frame. -/
def State.Blamed (m : State σ p) : Prop :=
  (∃ i n, m.instruction? = some i ∧ i.opcode = .undefined n) ∨
    m.unknown?.isSome ∧ ∃ f, m.frames.top? = some f ∧ f.suspended.room = some 0

theorem Frame.Guarded.ofFunction (index : UInt16) (f : Function) (id : ℕ) :
    Frame.Guarded (p := p) (.ofFunction index f id) [] :=
  Frame.Guarded.intro (n := ⟨.ofStart 0 none id, []⟩) rfl (Nat.zero_le _) .nil

namespace State.Watched

variable {m m' : State σ p} {gs : List (List (Guard p))} {blame : Prop} {s s' : Store σ p}
  {f g : Frame} {fs : List Frame} {room room' : Option ℕ} {guards guards' : List (Guard p)}

theorem depth (h : m.Watched gs) : gs.flatten.length = m.depth := by
  obtain ⟨s, fs, room⟩ := m
  have hframes := h.frames
  unfold State.depth
  dsimp only at hframes ⊢
  clear h
  induction hframes with
  | nil => rfl
  | cons hf _ ih =>
    rw [List.flatten_cons, List.length_append, List.map_cons, List.sum_cons, hf.depth, ih]

theorem guarded (h : m.Watched gs) (hf : f ∈ m.frames.items) :
    ∃ guards : List (Guard p), f.Guarded guards := by
  obtain ⟨-, hframes⟩ := h
  generalize m.frames.items = fs at hf hframes
  induction hframes with
  | nil => cases hf
  | cons hg _ ih =>
    rcases List.mem_cons.mp hf with rfl | hf
    · exact ⟨_, hg⟩
    · exact ih hf

theorem stay (h : State.Watched ⟨s, ⟨f :: fs, room⟩⟩ (guards :: gs)) (conds : List (Value p))
    (hg : g.Guarded guards') (hs : s'.conditions = ⟨guards' ++ gs.flatten, none⟩)
    (hconds : guards'.map Guard.cond <:+ conds ++ guards.map Guard.cond) :
    State.Follows (conds ++ (guards :: gs).flatten.map Guard.cond) ⟨s', ⟨g :: fs, room'⟩⟩ := by
  obtain ⟨ended, hended⟩ := hconds
  refine ⟨guards' :: gs, ⟨hs, .cons hg (List.forall₂_cons.mp h.frames).2⟩, ended, ?_⟩
  simp only [List.flatten_cons, List.map_append, ← List.append_assoc, hended]

/-- **A call** adds a frame without guards. -/
theorem call (h : m.Watched gs) (blame : Prop) (setup : Setup) (index : UInt16) :
    Lawful blame (State.Follows (gs.flatten.map Guard.cond)) (State.call setup index m) := by
  cases hm : State.call setup index m with
  | error e m' =>
    refine .of_error fun f hf => .inl ?_
    rw [hf] at hm
    exact State.regular_call setup index m f m' hm
  | ok u m' =>
    obtain ⟨k, -, id, hitems⟩ := State.frames_call hm
    have hstill := (effects_still (σ := σ) isArm_of_isGate m.store.conditions m.store.arms).call
      setup index (fun _ _ _ => still_note rfl) m ⟨rfl, rfl⟩
    rw [hm] at hstill
    refine ⟨[] :: gs, ⟨hstill.1.1.trans h.conditions, ?_⟩, List.suffix_rfl⟩
    rw [hitems]
    exact .cons (.ofFunction index k id) h.frames

/-- **A return** takes the guards of its frame away, and the caller goes on. -/
theorem ret (h : m.Watched gs) :
    Lawful blame (State.Follows (gs.flatten.map Guard.cond)) (State.ret m) := by
  obtain ⟨s, fs, room⟩ := m
  obtain ⟨hconds, hframes⟩ := h
  dsimp only at hconds hframes
  cases hframes with
  | nil => exact .inl (by simp)
  | @cons f guards fs gs hf hfs =>
    have hpop := Store.popGuards_eq hconds (k := f.depth)
      (by rw [List.flatten_cons, List.length_append, ← hf.depth]; omega)
    rw [List.flatten_cons, ← hf.depth, List.drop_left, hf.depth] at hpop
    let s₁ := s.withGuards gs.flatten
    have hstill := (effects_still (σ := σ) isArm_of_isGate s₁.conditions s₁.arms).releaseLocals
      f.localsId s₁ ⟨rfl, rfl⟩
    have hended : gs.flatten.map Guard.cond <:+ (guards :: gs).flatten.map Guard.cond := by
      rw [List.flatten_cons, List.map_append]
      exact List.suffix_append _ _
    simp only [State.ret, bind, EStateM.bind, State.popFrame, BoundedStack.pop, State.onStore, hpop]
    cases hr : Store.releaseLocals f.localsId s₁ with
    | error e s₂ =>
      refine .of_error fun f' hf' => .inl ?_
      rw [hf'] at hr
      exact regular_releaseLocals _ _ _ _ hr
    | ok u s₂ =>
      rw [hr] at hstill
      obtain ⟨⟨hs₂, -⟩, -⟩ := hstill
      cases hfs with
      | nil => exact ⟨[], ⟨hs₂, .nil⟩, hended⟩
      | @cons g guards' gs' gs hg hgs =>
        obtain ⟨g', s₃, guards₃, hok, hg', hs₃, hsuffix⟩ := hg.advance hs₂
        simp only [State.onTop, BoundedStack.top?, List.head?_cons, hok]
        have hw : State.Watched ⟨s₂, ⟨g :: gs', room⟩⟩ (guards' :: gs) := ⟨hs₂, .cons hg hgs⟩
        exact (hw.stay [] hg' hs₃ hsuffix).mono hended

/-! ## Steps -/

variable [Modulus p] {i : Instruction} {b : Block} {t : Transition p} {number count : ℕ}
  {setup : Setup}

omit [Modulus p] in
/-- **Arms are entered**, or no more of them fit. -/
theorem enter (h : State.Watched ⟨s, ⟨f :: fs, room⟩⟩ (guards :: gs))
    (hb : f.running = .ok (number, b)) (hi : f.function.code[b.pc.toNat]? = some i)
    (hcond : i.opcode.isConditionalBranch = true) {v : Value p} (hv : v.value? = none) :
    Lawful (f.suspended.room = some 0)
      (State.Follows ([v] ++ (guards :: gs).flatten.map Guard.cond))
      (State.conclude setup fs room
        (Activation.follow f number (.exit (.conditional b.pc v)) ⟨f, s⟩)) := by
  have hconds := h.conditions
  obtain @⟨index, k, id, n, guards, hbody, hlayers, hn⟩ := (List.forall₂_cons.mp h.frames).1
  rw [Frame.running_ofNesting] at hb
  cases hb
  simp only [Activation.follow, bind, EStateM.bind]
  cases hbounds : Frame.armBounds k n.running.pc with
  | error e =>
    rw [Activation.materialise_malformed hbounds]
    exact .of_error fun f hf => .inl (by cases hf; exact Frame.isRegular_armBounds hbounds)
  | ok bounds =>
    rcases Nat.lt_or_ge n.layers.length (k.code.size + 1) with hlt | hge
    · rw [Activation.materialise_ofNesting hbounds hconds (by omega)]
      have hcode : k.code[n.running.pc.toNat]? = some i := hi
      refine h.stay [v] (Frame.Guarded.intro (n := n.enter (.ofBounds id bounds)) hbody hlt
        (.cons hn hi hcond hbounds (Layer.spans_ofBounds id bounds) hv ?_)) rfl List.suffix_rfl
      rw [hcode, Option.any_some, Layer.isSecond_ofBounds, Bool.xor_false]
    · obtain ⟨e, a, hfull⟩ := Activation.materialise_full (n := n) index id v hbounds hconds
        (by omega)
      rw [hfull]
      refine .of_error fun f _ => .inr ?_
      simp only [Frame.ofNesting, Option.some.injEq]
      omega

omit [Modulus p] in
/-- **Control follows an instruction.** -/
theorem follow (h : State.Watched ⟨s, ⟨f :: fs, room⟩⟩ (guards :: gs)) (conds : List (Value p))
    (hb : f.running = .ok (number, b)) (hi : f.function.code[b.pc.toNat]? = some i)
    (ht : Leads b i t)
    (hconds : ∀ v, t = .exit (.conditional b.pc v) → v.value? = none ∧ conds = [v]) :
    Lawful (conds ≠ [] ∧ f.suspended.room = some 0)
      (State.Follows (conds ++ (guards :: gs).flatten.map Guard.cond))
      (State.conclude setup fs room (Activation.follow f number t ⟨f, s⟩)) := by
  have hmore : (guards :: gs).flatten.map Guard.cond <:+
      conds ++ (guards :: gs).flatten.map Guard.cond := List.suffix_append _ _
  have hf := (List.forall₂_cons.mp h.frames).1
  cases ht with
  | ret => exact Lawful.mono h.ret id fun _ hm => hm.mono hmore
  | call hop =>
    have hcall := h.call (conds ≠ [] ∧ f.suspended.room = some 0) setup i.index
    change Lawful _ _ ((do State.call setup i.index; return false : EStateM Halt (State σ p) Bool) _)
    simp only [bind, EStateM.bind]
    cases hm : State.call setup i.index ⟨s, ⟨f :: fs, room⟩⟩ with
    | ok u m' => rw [hm] at hcall; exact State.Follows.mono hcall hmore
    | error e m' => rw [hm] at hcall; exact .of_error fun f hf => by cases hf; exact hcall
  | advance hret hbranch =>
    obtain ⟨g, s', guards', hok, hg, hs', hsuffix⟩ := hf.advance h.conditions
    rw [Activation.follow_advance hb, hok]
    exact (h.stay [] hg hs' hsuffix).mono hmore
  | goto hjump =>
    have hconditions := h.conditions
    obtain @⟨index, k, id, n, guards, hbody, hlayers, hn⟩ := hf
    rw [Frame.running_ofNesting] at hb
    cases hb
    simp only [Activation.follow, bind, EStateM.bind, Activation.setFrame,
      Frame.setBlockPc_ofNesting]
    exact (h.stay [] (Frame.Guarded.setPc hbody hlayers hn index id i.target) hconditions
      List.suffix_rfl).mono hmore
  | enter hcond v =>
    obtain ⟨hv, rfl⟩ := hconds v rfl
    exact (h.enter hb hi hcond hv).mono (fun hroom => ⟨by simp, hroom⟩) fun _ hm => hm

end State.Watched

section Steps

variable [Modulus p] [Recorder σ p] {mode : Mode} {f : Function} {b : Block} {i : Instruction}
  {s s' : Store σ p} {count : ℕ} {setup : Setup} {m m' : State σ p} {gs : List (List (Guard p))}

theorem Block.perform_enter {pc : UInt16} {v : Value p} (hcond : i.opcode.isConditionalBranch = true)
    (hok : b.perform mode f i count s = .ok (.exit (.conditional pc v)) s') :
    s.stack.top? = some v ∧ v.value? = none ∧ mode ≠ .witness := by
  rw [Block.perform_conditional hcond] at hok
  obtain ⟨cond, hpop, ⟨-, ht⟩ | ⟨-, ht⟩ | ⟨hv, hmode, ht⟩⟩ := Block.branchOn_eq_ok hok
  · cases ht
  · rw [Block.advance] at ht
    split at ht <;> cases ht
  · cases ht
    exact ⟨Store.top?_of_pop hpop, hv, hmode⟩

theorem State.unknown?_eq_some {fs : List Frame} {room : Option ℕ} {frame : Frame} {v : Value p}
    (hnext : State.instruction? ⟨s, ⟨frame :: fs, room⟩⟩ = some i)
    (hok : b.perform mode f i count (s.fetch f i b.pc) = .ok (.exit (.conditional b.pc v)) s') :
    v.value? = none ∧ State.unknown? ⟨s, ⟨frame :: fs, room⟩⟩ = some v ∧ mode ≠ .witness := by
  have hcond : i.opcode.isConditionalBranch = true := by
    have hleads := Block.perform_leads hok
    generalize ht : Transition.exit (.conditional b.pc v) = t at hleads
    cases hleads with
    | enter hcond v => exact hcond
    | advance =>
      rw [Block.advance] at ht
      split at ht <;> cases ht
    | _ => cases ht
  obtain ⟨htop, hv, hmode⟩ := Block.perform_enter hcond hok
  have htop' : s.stack.top? = some v := htop
  exact ⟨hv, by simp [State.unknown?, hnext, htop', hcond, hv], hmode⟩

/-- **A step of the machine** keeps frames and guards together. -/
theorem State.Watched.step (h : m.Watched gs) (setup : Setup) :
    Lawful m.Blamed (State.Follows (m.unknown?.toList ++ gs.flatten.map Guard.cond))
      (State.step setup m) := by
  obtain ⟨s, fs, room⟩ := m
  have hframes := h.frames
  dsimp only at hframes
  cases hframes with
  | nil => exact ⟨[], h, List.nil_suffix⟩
  | @cons f guards fs gs hf hfs =>
    obtain ⟨number, b, hb⟩ := hf.running
    have hnext : State.instruction? ⟨s, ⟨f :: fs, room⟩⟩ = f.function.code[b.pc.toNat]? :=
      State.instruction?_cons hb
    rw [State.step_cons, Activation.step_eq hb]
    by_cases hk : s.locals.knows b.localsId = true
    · cases hi : f.function.code[b.pc.toNat]? with
      | none =>
        rw [Block.step_eq_beyond hk hi]
        exact .inl (by simp)
      | some i =>
        rw [hi] at hnext
        rw [Block.step_eq hk hi]
        have hstill := (effects_still (σ := σ) isArm_of_isGate s.conditions s.arms).perform
          setup.config.mode f.function b (i := i) (s.steps + 1)
          (fun g _ => still_binary isArm_of_isGate _ _ g) (s.fetch f.function i b.pc)
          ⟨rfl, filter_push rfl⟩
        cases hp : b.perform setup.config.mode f.function i (s.steps + 1)
          (s.fetch f.function i b.pc) with
        | error e s₁ =>
          refine .of_error fun e' he => ?_
          rw [he] at hp
          by_cases hdefined : ∃ n, i.opcode = .undefined n
          · obtain ⟨n, hn⟩ := hdefined
            exact .inr (.inl ⟨i, n, hnext, hn⟩)
          · exact .inl (Block.regular_perform _ (fun n hn => hdefined ⟨n, hn⟩) _ _ _ hp)
        | ok t s₁ =>
          rw [hp] at hstill
          have hw : State.Watched ⟨s₁, ⟨f :: fs, room⟩⟩ (guards :: gs) :=
            ⟨hstill.1.1.trans h.conditions, h.frames⟩
          have hleads := Block.perform_leads hp
          refine (hw.follow (State.unknown? ⟨s, ⟨f :: fs, room⟩⟩).toList hb hi hleads
            fun v ht => ?_).mono ?_ fun _ hm => hm
          · obtain ⟨hv, hm, -⟩ := State.unknown?_eq_some hnext (ht ▸ hp)
            exact ⟨hv, by rw [hm]; rfl⟩
          · rintro ⟨hne, hroom⟩
            refine .inr ⟨?_, f, rfl, hroom⟩
            cases hm : State.unknown? ⟨s, ⟨f :: fs, room⟩⟩ with
            | none => rw [hm] at hne; exact absurd rfl hne
            | some v => rfl
    · rw [Block.step_eq_unknown (Bool.eq_false_iff.mpr hk)]
      exact trivial

/-! ## Executions -/

variable {index : UInt16} {args : List (Scalar p)} {m₀ : State σ p} {conds : List (Value p)}

/-- **Frames and guards stay together** in all states of an execution, and the guards hold the
pending conditions. -/
theorem Pending.watched (h : Pending setup index args m₀ m conds) :
    ∃ gs, m.Watched gs ∧ gs.flatten.map Guard.cond = conds := by
  induction h with
  | @start f m he hm =>
    obtain ⟨⟨id, hitems⟩, hconds⟩ := State.start_still hm
    refine ⟨[[]], ⟨hconds, ?_⟩, rfl⟩
    rw [hitems]
    exact .cons (.ofFunction index f id) .nil
  | @step m m' conds done _ hm ih =>
    obtain ⟨gs, hw, rfl⟩ := ih
    have hstep := hw.step setup
    rw [hm] at hstep
    obtain ⟨gs', hw', hsuffix⟩ := hstep
    refine ⟨gs', hw', ?_⟩
    have hlen : (gs'.flatten.map Guard.cond).length = m'.depth := by
      rw [List.length_map, hw'.depth]
    rw [List.rtake, ← hlen]
    exact List.suffix_iff_eq_drop.mp hsuffix

theorem Reached.pending (h : Reached setup index args m₀ m) :
    ∃ conds, Pending setup index args m₀ m conds := by
  induction h with
  | start he hm => exact ⟨_, .start he hm⟩
  | step _ hm ih =>
    obtain ⟨conds, hpending⟩ := ih
    exact ⟨_, hpending.step hm⟩

theorem State.reached_of_run_error {fuel : ℕ} {e : Failure}
    (hm : State.run setup fuel index args m₀ = .error (.failure e) m') (he : ¬ e.IsRegular) :
    ∃ m, Reached setup index args m₀ m ∧ State.step setup m = .error (.failure e) m' := by
  unfold State.run at hm
  cases hf : State.eligible setup index args with
  | error e' =>
    rw [hf] at hm
    cases hm
    exact absurd (State.isRegular_eligible hf) he
  | ok f =>
    simp only [hf, bind, EStateM.bind] at hm
    cases hs : State.start setup index f args m₀ with
    | error e' m₁ =>
      rw [hs] at hm
      cases hm
      exact absurd (State.regular_start setup index f args m₀ e _ hs) he
    | ok u m₁ =>
      rw [hs] at hm
      dsimp only at hm
      have hcases := (Reached.start hf hs).loop_cases fuel
      cases hl : State.loop setup fuel m₁ with
      | error e' m₂ =>
        rw [hl] at hm hcases
        cases hm
        exact hcases.resolve_right fun h => Halt.noConfusion h.1
      | ok u m₂ =>
        rw [hl] at hm
        exact absurd (State.regular_onStore (State.regular_popResults f.returns []) m₂ e m' hm) he

theorem State.run_error {fuel : ℕ} {e : Failure}
    (hm : State.run setup fuel index args m₀ = .error (.failure e) m') (he : ¬ e.IsRegular) :
    ∃ m conds, Pending setup index args m₀ m conds ∧
      State.step setup m = .error (.failure e) m' := by
  obtain ⟨m, hr, hstep⟩ := State.reached_of_run_error hm he
  obtain ⟨conds, h⟩ := hr.pending
  exact ⟨m, conds, h, hstep⟩

end Steps

/-- **Frames and guards**: in every state of every execution there is one guard for each conditional
under execution, which holds the pending condition of its branch; the frames are coherent; and an
execution fails as if this were not so only for an undefined operation, or where the arms of another
branch do not fit into a frame. -/
theorem guards_coherent [Modulus p] [Recorder σ p] (setup : Setup) (index : UInt16)
    (args : List (Scalar p)) (m₀ : State σ p) :
    (∀ m conds, Pending setup index args m₀ m conds →
      m.store.conditions.size = (m.frames.items.map Frame.depth).sum ∧
      m.store.conditions.items.map Guard.cond = conds ∧
      ∃ gs, m.store.conditions.items = gs.flatten ∧
        List.Forall₂ (fun f guards => ∃ cs, Frame.Coherent f cs guards) m.frames.items gs) ∧
    ∀ fuel e m', State.run setup fuel index args m₀ = .error (.failure e) m' →
      e.status? = some .shouldNotReachHere →
      ∃ m conds, Pending setup index args m₀ m conds ∧
        State.step setup m = .error (.failure e) m' ∧ m.Blamed := by
  refine ⟨fun m conds h => ?_, fun fuel e m' hm he => ?_⟩
  · obtain ⟨gs, hw, rfl⟩ := h.watched
    have hitems : m.store.conditions.items = gs.flatten := congrArg BoundedStack.items hw.conditions
    refine ⟨?_, by rw [hitems], gs, hitems, hw.frames.imp fun f guards hf => hf.coherent⟩
    rw [BoundedStack.size, hitems, hw.depth]
    rfl
  · obtain ⟨m, conds, h, hs⟩ := State.run_error hm fun hregular => hregular he
    obtain ⟨gs, hw, -⟩ := h.watched
    have hstep := hw.step setup
    rw [hs] at hstep
    exact ⟨m, conds, h, hs, hstep.resolve_left fun hregular => hregular he⟩

/-! ## Arms within arms -/

/-- The pending conditions after a step. -/
def State.pendingAfter [Modulus p] [Recorder σ p] (m m' : State σ p) (conds : List (Value p)) :
    List (Value p) :=
  (m.unknown?.toList ++ conds).rtake m'.depth

/-- The shape of a circuit that starts over within an arm, as long as arms fit into its frame. -/
def startOver : Setup :=
  .ofCode 1 0
    #[.ofNat .copyLoc 0, .ofNat .brFalse 3, .ofNat .branch 5, .ofNat .branch 0, .ofNat .pop 0,
      .ofNat .ret 0]

/-- Whether a run fails as if the machine were in a state that it should not be in. -/
def isBlaming {τ α : Type} : EStateM.Result Halt τ α → Bool
  | .error (.failure e) _ => e.status? = some .shouldNotReachHere
  | _ => false

/-- After five instructions an arm within an arm is under execution, and later on there is no more
room. -/
theorem guards_coherent_startOver :
    (∃ (m : State (System ScalarField.bn254.modulus) _) (v : Value _),
      Pending startOver 0 [] (.new startOver) m [v, v] ∧ m.depth = 2 ∧
      m.store.conditions.items.map Guard.cond = [v, v] ∧
      ∃ gs, m.store.conditions.items = gs.flatten ∧
        List.Forall₂ (fun f guards => ∃ cs, Frame.Coherent f cs guards) m.frames.items gs) ∧
    ∃ (m m' : State (System ScalarField.bn254.modulus) _) (e : Failure),
      State.run startOver 30 0 [] (.new startOver) = .error (.failure e) m' ∧
      e.status? = some .shouldNotReachHere ∧ State.step startOver m = .error (.failure e) m' ∧
      m.Blamed := by
  obtain ⟨hall, herror⟩ := guards_coherent (p := ScalarField.bn254.modulus) startOver 0 []
    (.new startOver)
  constructor
  · have hcheck : (State.started? (p := ScalarField.bn254.modulus) startOver 0 []
        (.new startOver)).any (fun m =>
          (State.track startOver State.pendingAfter 5 (m, [])).1.depth = 2 &&
          (State.track startOver State.pendingAfter 5 (m, [])).2 =
            .replicate 2 (.wired 1 none .u64)) = true := by
      decide +kernel
    rw [Option.any_eq_true] at hcheck
    obtain ⟨m, hm, hcheck⟩ := hcheck
    rw [Bool.and_eq_true, decide_eq_true_eq, decide_eq_true_eq] at hcheck
    obtain ⟨f, he, hs⟩ := State.started?_eq_some hm
    have hpending := State.track_keeps State.pendingAfter
      (P := Pending startOver 0 [] (.new startOver)) (fun _ _ _ h hm => h.step hm) (.start he hs) 5
    rw [hcheck.2] at hpending
    exact ⟨_, _, hpending, hcheck.1, (hall _ _ hpending).2⟩
  · have hcheck : isBlaming (State.run (p := ScalarField.bn254.modulus) startOver 30 0 []
        (.new startOver)) = true := by
      decide +kernel
    unfold isBlaming at hcheck
    split at hcheck
    · rename_i e m' hrun
      have hstatus := of_decide_eq_true hcheck
      obtain ⟨m, conds, -, hstep, hblamed⟩ := herror 30 e m' hrun hstatus
      exact ⟨m, m', e, hrun, hstatus, hstep, hblamed⟩
    · cases hcheck

end StackCircuit.Machine
