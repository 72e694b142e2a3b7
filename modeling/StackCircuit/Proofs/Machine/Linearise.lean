import StackCircuit.Proofs.Machine.Gates
import StackCircuit.Proofs.Machine.Mirror
import StackCircuit.Proofs.Machine.Start

/-!
# Structured code runs as linear code

A run of structured code whose conditions are all unknown is a run of the linear code made of it.

* `eligible_linearised`: linear functions take the same arguments.
* `related_start`, `related_loop`: the machines are related from the start to the end.
* `Place`, `State.places`: the places that a run gets to, one after the other.
* **`linearise_run`**: both runs end in the same way, after as many steps and with the same record,
  and get to corresponding places.
-/

namespace StackCircuit.Machine

open Bytecode (Function Instruction)
open Circuit (Recorder System)

variable {σ : Type} {p : ℕ} {setup : Setup} {index : UInt16} {args : List (Scalar p)}

theorem State.eligible_linearised (setup : Setup) (index : UInt16) (args : List (Scalar p)) :
    State.eligible setup.linearised index args =
      (State.eligible setup index args).map Function.linearised := by
  unfold State.eligible
  rw [show setup.linearised.program.function? index = (setup.program.function? index).map
    Function.linearised from Bytecode.Program.function?_linearised _ _]
  cases setup.program.function? index with
  | none => rfl
  | some f =>
    dsimp only [Option.map_some]
    by_cases h : setup.config.mode = .witness ∧ args.length ≠ f.params.length
    · rw [if_pos h]
      exact if_pos h
    · rw [if_neg h]
      exact if_neg h

/-- A place that control gets to: the number of functions under execution, the one that runs, and the
position in it. -/
structure Place where
  depth : ℕ
  function : Function
  position : ℕ

/-- The place in linear code. -/
def Place.linearised (x : Place) : Place :=
  ⟨x.depth, x.function.linearised, x.function.linearPosition x.position⟩

/-- The place of the next instruction. -/
def State.place? (m : State σ p) : Option Place := do
  let f ← m.frames.top?
  let r ← f.running.toOption
  return ⟨m.frames.size, f.function, r.2.pc.toNat⟩

variable [Modulus p] [Recorder σ p]

/-- The places that an execution gets to, one after the other. -/
def State.trail (setup : Setup) : ℕ → State σ p → List Place
  | 0, _ => []
  | fuel + 1, m =>
    m.place?.toList ++
      match State.step setup m with
      | .ok false m' => trail setup fuel m'
      | _ => []

omit [Modulus p] in
/-- **Both machines enter a function.** -/
theorem related_start (setup : Setup) (index : UInt16) (args : List (Scalar p)) {f : Function}
    (hsize : f.code.size ≤ 65535)
    (hf : Bytecode.Structured 0 f.code.toList) (m : State σ p) :
    SameEnd (fun _ _ m m' => Related m m') (fun e e' m m' => e = e' ∧ m.store.core = m'.store.core)
      (State.start setup index f args m)
      (State.start setup.linearised index f.linearised args m) := by
  let g : BoundedStack (Guard p) := .unbounded
  let frames := State.noFrames setup.config
  have hcore : ∀ (e e' : Halt) (m m' : State σ p), e = e' ∧ State.Alike g g frames frames m m' →
      e = e' ∧ m.store.core = m'.store.core := fun _ _ _ _ h => ⟨h.1, h.2.1.1⟩
  have hrest : Agree (State.Alike (σ := σ) g g frames frames)
      (do
        let id ← State.onStore (Store.allocLocals f.locals)
        State.onStore (State.allocInputs id 0 (State.inputs setup.config.mode f args))
        State.pushFrame (.ofFunction index f id)
        State.onStore (Store.note (.run f.name setup.config.mode)))
      (do
        let id ← State.onStore (Store.allocLocals f.locals)
        State.onStore (State.allocInputs id 0 (State.inputs setup.config.mode f args))
        State.pushFrame (.ofFunction index f.linearised id)
        State.onStore (Store.note (.run f.name setup.config.mode)))
      (fun _ _ m m' => Related m m') fun e e' m m' => e = e' ∧ m.store.core = m'.store.core := by
    refine (((blind_allocLocals f.locals).onMachineStore g g _ _).weaken hcore).bind fun id id' => ?_
    rintro m m' ⟨rfl, hm⟩
    refine (((blind_allocInputs id 0 _).onMachineStore g g _ _).weaken hcore).bind
      (fun _ _ => ?_) m m' hm
    rintro m m' ⟨-, hm⟩
    refine ((agree_pushFrame g g _ _ [] [] frames.room).weaken hcore).bind (fun _ _ => ?_) m m' hm
    rintro ⟨s, frames⟩ ⟨s', frames'⟩ ⟨hs, hitems, hitems', hroom⟩
    dsimp only at hitems hitems'
    refine ⟨hs.1, ?_, hroom, [], hs.2.1, ?_⟩
    · dsimp only
      rw [hitems, hitems']
      exact .cons (mirrors_ofFunction hsize hf index id) .nil
    · dsimp only
      rw [hitems]
      rfl
  let m' : State σ p := .initial setup.config m.store.ledger
  exact hrest m' m' ⟨⟨rfl, rfl, rfl⟩, rfl, rfl⟩

/-- **Both machines execute instructions** until their functions return. -/
theorem related_loop (hmode : setup.config.mode ≠ .witness) (hprog : setup.program.IsStructured)
    {m₀ : State σ p}
    (hunknown : ∀ m i v, Reached setup index args m₀ m → m.instruction? = some i →
      i.opcode.isConditionalBranch = true → m.store.stack.top? = some v → v.value? = none)
    (fuel : ℕ) {m m' : State σ p} (hm : Reached setup index args m₀ m) (h : Related m m') :
    SameEnd (fun _ _ m m' => Related m m')
      (fun e e' m m' => e.Same e' ∧ m.store.core = m'.store.core)
      (State.loop setup fuel m) (State.loop setup.linearised fuel m') := by
  induction fuel generalizing m m' with
  | zero => exact ⟨rfl, h.core⟩
  | succ fuel ih =>
    have hstep := related_step hmode hprog h fun i hi hb v hv => hunknown m i v hm hi hb hv
    rw [State.loop, State.loop]
    obtain ⟨b, r, b', r', hs, hs', rfl, hr⟩ | ⟨e, r, e', r', hs, hs', he⟩ := hstep.split
    · rw [hs, hs']
      cases b with
      | true => exact hr
      | false => exact ih (hm.step hs) hr
    · rw [hs, hs']
      exact he

omit [Modulus p] [Recorder σ p] in
theorem related_results {m m' : State σ p} (h : Related m m') (n : ℕ) :
    SameEnd (fun v v' m m' => v = v' ∧ m.store.core = m'.store.core)
      (fun e e' m m' => e = e' ∧ m.store.core = m'.store.core)
      (State.onStore (State.popResults n []) m) (State.onStore (State.popResults n []) m') := by
  have hpop := (blind_popResults n []).onMachineStore m.store.conditions m'.store.conditions m.frames
    m'.frames m m' ⟨⟨h.core, rfl, rfl⟩, rfl, rfl⟩
  obtain ⟨v, r, v', r', hr, hr', rfl, hr₀⟩ | ⟨e, r, e', r', hr, hr', rfl, hr₀⟩ := hpop.split
  · rw [hr, hr']
    exact ⟨rfl, hr₀.1.1⟩
  · rw [hr, hr']
    exact ⟨rfl, hr₀.1.1⟩

/-- **Both machines run.** -/
theorem related_run (hmode : setup.config.mode ≠ .witness) (hprog : setup.program.IsStructured)
    {m₀ : State σ p}
    (hunknown : ∀ m i v, Reached setup index args m₀ m → m.instruction? = some i →
      i.opcode.isConditionalBranch = true → m.store.stack.top? = some v → v.value? = none)
    (fuel : ℕ) :
    SameEnd (fun v v' m m' => v = v' ∧ m.store.core = m'.store.core)
      (fun e e' m m' => e.Same e' ∧ m.store.core = m'.store.core)
      (State.run setup fuel index args m₀) (State.run setup.linearised fuel index args m₀) := by
  unfold State.run
  rw [State.eligible_linearised]
  cases he : State.eligible setup index args with
  | error e => exact ⟨Halt.Same.refl _, rfl⟩
  | ok f =>
    obtain ⟨hsize, hf⟩ := hprog f (State.eligible_mem he)
    have hstart := related_start setup index args hsize hf m₀
    simp only [Except.map, bind, EStateM.bind]
    obtain ⟨u, m, u', m', hs, hs', hm⟩ | ⟨e, m, e', m', hs, hs', rfl, hm⟩ := hstart.split
    · have hloop := related_loop hmode hprog hunknown fuel (.start he hs) hm
      rw [hs, hs']
      dsimp only
      obtain ⟨u, m, u', m', hl, hl', hm⟩ | ⟨e, m, e', m', hl, hl', he, hm⟩ := hloop.split
      · rw [hl, hl']
        have hpop := related_results hm f.returns
        dsimp only
        obtain ⟨v, r, v', r', hr, hr', hv⟩ | ⟨e, r, e', r', hr, hr', rfl, hr₀⟩ := hpop.split
        · rw [hr, show State.onStore (State.popResults f.linearised.returns []) m' = _ from hr']
          exact hv
        · rw [hr, show State.onStore (State.popResults f.linearised.returns []) m' = _ from hr']
          exact ⟨.refl e, hr₀⟩
      · rw [hl, hl']
        exact ⟨he, hm⟩
    · rw [hs, hs']
      exact ⟨.refl e, hm⟩

/-! ## Places -/

omit [Modulus p] [Recorder σ p] in
theorem Chained.length_eq {fs fs' : List Frame} (h : Chained fs fs') : fs.length = fs'.length := by
  cases h with
  | nil => rfl
  | cons _ hs => rw [List.length_cons, List.length_cons, hs.length_eq]

omit [Modulus p] [Recorder σ p] in
theorem Related.place? {m m' : State σ p} (h : Related m m') :
    m'.place? = m.place?.map Place.linearised := by
  obtain ⟨s, fs, room⟩ := m
  obtain ⟨s', fs', room'⟩ := m'
  have hframes := h.frames
  have hsize := hframes.length_eq
  dsimp only at hframes hsize
  cases hframes with
  | nil => rfl
  | cons hf _ =>
    obtain @⟨index, f, id, q, n, hcode, hfits, hpc, -⟩ := hf
    have hq := toNat_linearPosition hcode (Nat.le_of_add_right_le hfits.le_size)
    simp only [State.place?, BoundedStack.top?, BoundedStack.size, List.head?_cons, bind, Option.bind,
      Frame.running_ofNesting, Frame.running_linear, Except.toOption, pure, Option.map_some, hq,
      ← hsize, Place.linearised, hpc]
    rfl

/-- **Both machines get to corresponding places in the same order.** -/
theorem related_trail (hmode : setup.config.mode ≠ .witness) (hprog : setup.program.IsStructured)
    {m₀ : State σ p}
    (hunknown : ∀ m i v, Reached setup index args m₀ m → m.instruction? = some i →
      i.opcode.isConditionalBranch = true → m.store.stack.top? = some v → v.value? = none)
    (fuel : ℕ) {m m' : State σ p} (hm : Reached setup index args m₀ m) (h : Related m m') :
    State.trail setup.linearised fuel m' = (State.trail setup fuel m).map Place.linearised := by
  induction fuel generalizing m m' with
  | zero => rfl
  | succ fuel ih =>
    have hstep := related_step hmode hprog h fun i hi hb v hv => hunknown m i v hm hi hb hv
    rw [State.trail, State.trail, List.map_append, h.place?, ← Option.toList_map]
    congr 1
    obtain ⟨b, r, b', r', hs, hs', rfl, hr⟩ | ⟨e, r, e', r', hs, hs', -⟩ := hstep.split
    · rw [hs, hs']
      cases b with
      | true => rfl
      | false => exact ih (hm.step hs) hr
    · rw [hs, hs']
      rfl

/-- The places that a run gets to. -/
def State.places (setup : Setup) (fuel : ℕ) (index : UInt16) (args : List (Scalar p))
    (m : State (System p) p) : List Place :=
  (State.started? setup index args m).elim [] (State.trail setup fuel)

theorem places_linearised (hmode : setup.config.mode ≠ .witness)
    (hprog : setup.program.IsStructured) {m₀ : State (System p) p}
    (hunknown : ∀ m i v, Reached setup index args m₀ m → m.instruction? = some i →
      i.opcode.isConditionalBranch = true → m.store.stack.top? = some v → v.value? = none)
    (fuel : ℕ) :
    State.places setup.linearised fuel index args m₀ =
      (State.places setup fuel index args m₀).map Place.linearised := by
  unfold State.places State.started?
  rw [State.eligible_linearised]
  cases he : State.eligible setup index args with
  | error e => rfl
  | ok f =>
    obtain ⟨hsize, hf⟩ := hprog f (State.eligible_mem he)
    have hstart := related_start setup index args hsize hf m₀
    simp only [Except.map]
    obtain ⟨u, m, u', m', hs, hs', hm⟩ | ⟨e, m, e', m', hs, hs', -⟩ := hstart.split
    · rw [hs, hs']
      exact related_trail hmode hprog hunknown fuel (.start he hs) hm
    · rw [hs, hs']
      rfl

/-- **Structured code runs as linear code**: if all conditions are unknown, both programs return the
same values or fail with the same status, after as many steps and with the same record. Control gets
to each place of the linear code when it is at the place in structured code that this was made of. -/
theorem linearise_run {setup : Setup} {index : UInt16} {args : List (Scalar p)}
    (hmode : setup.config.mode ≠ .witness) (hprog : setup.program.IsStructured)
    (hunknown : ∀ m i v, Reached (σ := System p) setup index args (.new setup) m →
      m.instruction? = some i → i.opcode.isConditionalBranch = true →
      m.store.stack.top? = some v → v.value? = none)
    (fuel : ℕ) :
    (∃ m m' : State (System p) p,
      ((∃ values, State.run setup fuel index args (.new setup) = .ok values m ∧
          State.run setup.linearised fuel index args (.new setup.linearised) = .ok values m') ∨
        ∃ e e', e.Same e' ∧ State.run setup fuel index args (.new setup) = .error e m ∧
          State.run setup.linearised fuel index args (.new setup.linearised) = .error e' m') ∧
      m.store.steps = m'.store.steps ∧ m.store.ledger.recorder = m'.store.ledger.recorder) ∧
    State.places setup.linearised fuel index args (.new setup.linearised) =
      (State.places setup fuel index args (.new setup)).map Place.linearised := by
  refine ⟨?_, places_linearised hmode hprog hunknown fuel⟩
  obtain ⟨v, m, v', m', h, h', rfl, hm⟩ | ⟨e, m, e', m', h, h', he, hm⟩ :=
    (related_run hmode hprog hunknown fuel).split
  · exact ⟨m, m', .inl ⟨v, h, h'⟩, congrArg Core.steps hm, congrArg Core.recorder hm⟩
  · exact ⟨m, m', .inr ⟨e, e', he, h, h'⟩, congrArg Core.steps hm, congrArg Core.recorder hm⟩

/-- The shape of a circuit that takes the square of its parameter if that is true, and doubles it
otherwise. -/
def squareOrDouble : Setup :=
  .ofCode 1 2
    #[.ofNat .copyLoc 0, .ofNat .brTrue 3, .ofNat .branch 7, .ofNat .copyLoc 0, .ofNat .copyLoc 0,
      .ofNat .mul 0, .ofNat .branch 10, .ofNat .copyLoc 0, .ofNat .copyLoc 0, .ofNat .add 0,
      .ofNat .ret 0]

/-- Whether the condition is unknown where a conditional branch is next. -/
def State.isUndecided (m : State (System p) p) : Bool :=
  match m.instruction?, m.store.stack.top? with
  | some i, some v => !i.opcode.isConditionalBranch || v.value?.isNone
  | _, _ => true

theorem squareOrDouble_isStructured : squareOrDouble.program.IsStructured := by
  have harms := @Bytecode.Structured.twoArmed 1 (.ofNat .brTrue 3) (.ofNat .branch 7)
    (.ofNat .branch 10) [.ofNat .copyLoc 0, .ofNat .copyLoc 0, .ofNat .mul 0]
    [.ofNat .copyLoc 0, .ofNat .copyLoc 0, .ofNat .add 0] [.ofNat .ret 0] rfl rfl rfl rfl rfl rfl
    (by simp) (.plain rfl (.plain rfl (.plain rfl .nil))) (by simp)
    (.plain rfl (.plain rfl (.plain rfl .nil))) (.plain rfl .nil)
  intro f hf
  obtain rfl := List.mem_singleton.mp (Array.mem_def.mp hf)
  exact ⟨by decide, .plain rfl harms⟩

theorem squareOrDouble_undecided
    {m : State (System ScalarField.bn254.modulus) ScalarField.bn254.modulus}
    (h : Reached squareOrDouble 0 [] (.new squareOrDouble) m) : m.isUndecided = true := by
  have hchecks : (State.started? (p := ScalarField.bn254.modulus) squareOrDouble 0 []
      (.new squareOrDouble)).all (State.checks squareOrDouble State.isUndecided 20) = true := by
    decide +kernel
  refine h.of_checks 20 fun f m he hs => ?_
  rw [State.started?, he] at hchecks
  simp only [hs] at hchecks
  exact hchecks

/-- The record of both arms. -/
def squareOrDoubleShape : System ScalarField.bn254.modulus :=
  (finalState (State.run squareOrDouble 20 0 [] (.new squareOrDouble))).store.ledger.recorder

/-- The record of linear code. -/
def squareOrDoubleLinear : System ScalarField.bn254.modulus :=
  (finalState (State.run squareOrDouble.linearised 20 0 []
    (.new squareOrDouble.linearised))).store.ledger.recorder

/-- Both arms are built, as by code that holds one after the other. -/
theorem linearise_run_squareOrDouble :
    squareOrDoubleShape.constraints.size = 2 ∧ squareOrDoubleShape = squareOrDoubleLinear := by
  have hunknown : ∀ m i v,
      Reached (p := ScalarField.bn254.modulus) squareOrDouble 0 [] (.new squareOrDouble) m →
      m.instruction? = some i → i.opcode.isConditionalBranch = true →
      m.store.stack.top? = some v → v.value? = none := by
    intro m i v hm hi hb hv
    have hcheck := squareOrDouble_undecided hm
    simpa [State.isUndecided, hi, hv, hb] using hcheck
  have hmode : squareOrDouble.config.mode ≠ .witness := by decide
  have h := linearise_run hmode squareOrDouble_isStructured hunknown 20
  obtain ⟨⟨m, m', hends, -, hsys⟩, -⟩ := h
  refine ⟨by decide +kernel, ?_⟩
  unfold squareOrDoubleShape squareOrDoubleLinear
  obtain ⟨v, hr, hr'⟩ | ⟨e, e', -, hr, hr'⟩ := hends
  · rw [hr, hr']
    exact hsys
  · rw [hr, hr']
    exact hsys

end StackCircuit.Machine
