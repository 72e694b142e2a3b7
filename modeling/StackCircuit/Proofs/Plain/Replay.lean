import StackCircuit.Proofs.Circuit.Meaning
import StackCircuit.Proofs.Machine.Linearise
import StackCircuit.Proofs.Machine.Uniform
import StackCircuit.Proofs.Plain.Calls

/-!
# Executions replayed by the plain machine

Whatever arms a machine executes, the plain machine can execute the same instructions in the same
order, as if there were no jumps among them. If gates compute the numbers of their results, it gets
the same operands.

* `Place.instruction?`, **`State.executed`**: the instructions that a run executes, in order.
* `Transition.Stays`, `Transition.Parallels`: where control goes, as far as it concerns calls.
* **`replay_step`**, `replay_loop`: one instruction after the other is replayed.
* **`replay_run`**: the results of a run are those of the replay.
-/

namespace StackCircuit.Machine

open Bytecode (Function Instruction)
open Circuit (System)
open Plain (Operand Call Configuration Locals Flow)

variable {p : ℕ}

/-- The instruction at a place. -/
def Place.instruction? (x : Place) : Option Instruction := x.function.code[x.position]?

/-- **The instructions that a run executes**, in order. -/
def State.executed [Modulus p] (setup : Setup) (fuel : ℕ) (index : UInt16) (args : List (Scalar p))
    (m : State (System p) p) : List Instruction :=
  (State.places setup fuel index args m).filterMap Place.instruction?

/-- A frame stands for a call if it is uniform; where it is does not matter. -/
def Frame.Works (frame : Frame) (_ : Call p) : Prop := frame.Uniform frame.localsId

/-! ## Instructions -/

/-- Control stays in its frame. -/
def Transition.Stays : Transition p → Prop
  | .exit .ret => False
  | .exit (.call _) => False
  | _ => True

/-- Where control goes, as far as it concerns calls. -/
inductive Transition.Parallels : Transition p → Flow → Prop
  | ret : Parallels (.exit .ret) .ret
  | call (function : UInt16) : Parallels (.exit (.call function)) (.call function)
  | next {t : Transition p} (ht : t.Stays) : Parallels t .next
  | goto {t : Transition p} (ht : t.Stays) (pc : UInt16) : Parallels t (.goto pc)

theorem Block.stays_advance (b : Block) : (b.advance : Transition p).Stays := by
  unfold Block.advance
  split <;> exact trivial

section Instructions

variable [Modulus p] {num : Value p → Scalar p} {es : List (ℕ × Call p)} {cs : List (Call p)}
  {room : Option ℕ} {id : ℕ} {f f' : Function} {pc : UInt16} {s s' : Store (System p) p}
  {c : Configuration p} {i : Instruction} {b : Block} {mode : Mode} {t : Transition p}

omit [Modulus p] in
theorem replay_branchOn (taken : Scalar p) (h : s.TracksTop num es cs room id f pc c)
    (hp : b.branchOn mode f' i taken s = .ok t s') :
    ∃ flow c', Plain.branchOn i taken c = .ok flow c' ∧ t.Parallels flow ∧
      s'.TracksTop num es cs room id f pc c' := by
  obtain ⟨v, hpop, hbranches⟩ := Block.branchOn_eq_ok hp
  have hpops : InStep (Store.TracksTop num es cs room id f pc) Store.pop Plain.pop _ :=
    .exists fun _ => tracks_pop
  have hsame := hpops s c h
  rw [hpop] at hsame
  obtain ⟨v', t', a, c₁, hx, hx', -, ht⟩ | ⟨e, t', e', c₁, hx, -⟩ := hsame.split
  swap
  · cases hx
  cases hx
  have hstays : t.Stays := by
    obtain ⟨-, rfl⟩ | ⟨-, rfl⟩ | ⟨-, -, rfl⟩ := hbranches
    · exact trivial
    · exact b.stays_advance
    · exact trivial
  simp only [Plain.branchOn, Plain.ofNat_reference, bind, EStateM.bind, hx']
  refine ⟨_, c₁, rfl, ?_, ht⟩
  by_cases ha : a.value = taken
  · rw [if_pos ha]
    exact .goto hstays _
  · rw [if_neg ha]
    exact .next hstays

/-- **An instruction that succeeds is replayed.** -/
theorem replay_perform (hnum : ∀ x type, num (.constant x type none) = x) (hid : b.localsId = id)
    {step : ℕ} (hg : s.Grounded)
    (hf : ∀ g, Gate.ofOpcode? i.opcode = some g → s.Faithful num s!"step#{step}" i.opcode g)
    (h : s.TracksTop num es cs room id f pc c) (hp : b.perform mode f' i step s = .ok t s') :
    ∃ flow c', Plain.perform i c = .ok flow c' ∧ t.Parallels flow ∧
      s'.TracksTop num es cs room id f pc c' := by
  by_cases hi : i.opcode.isBranch = true
  · unfold Block.perform at hp
    unfold Plain.perform
    cases hop : i.opcode with
    | brTrue =>
      rw [hop] at hp
      exact replay_branchOn 1 h hp
    | brFalse =>
      rw [hop] at hp
      exact replay_branchOn 0 h hp
    | branch =>
      rw [hop] at hp
      cases hp
      rw [Plain.ofNat_reference]
      exact ⟨_, c, rfl, .goto (t := .goto i.target) trivial _, h⟩
    | ret =>
      rw [hop] at hp
      cases hp
      exact ⟨_, c, rfl, .ret, h⟩
    | call =>
      rw [hop] at hp
      cases hp
      rw [Plain.ofNat_reference]
      exact ⟨_, c, rfl, .call _, h⟩
    | abort =>
      rw [hop] at hp
      obtain ⟨v, s₁, -, hrest⟩ := bind_eq_ok hp
      cases hv : v.value? with
      | some x => rw [hv] at hrest; cases hrest
      | none => rw [hv] at hrest; cases hrest
    | _ => rw [hop] at hi; cases hi
  · have hsame : SameEnd _ _ (b.perform mode f' i step s) _ :=
      tracks_perform hnum (Bool.eq_false_iff.mpr hi) hid mode step hg hf h
    rw [hp] at hsame
    obtain ⟨t', s₁, flow, c', hx, hx', ⟨rfl, rfl⟩, ht⟩ | ⟨e, s₁, e', c', hx, -⟩ := hsame.split
    · cases hx
      exact ⟨_, c', hx', .next b.stays_advance, ht⟩
    · cases hx

end Instructions

/-! ## Steps -/

section Steps

variable {num : Value p → Scalar p} {es : List (ℕ × Call p)} {room : Option ℕ} {id : ℕ}
  {s s' : Store (System p) p} {c : Configuration p} {fs : List Frame} {frame : Frame}
  {m m' : State (System p) p} {done : Bool} {call : Call p} {setup : Setup}

/-- **A return that succeeds is replayed.** -/
theorem replay_ret (hframes : FramesTrack Frame.Works fs es) (hid : frame.localsId = id)
    (h : s.Tracks num ((id, call) :: es) ⟨call :: es.map Prod.snd, room⟩ c)
    (hs : State.ret ⟨s, ⟨frame :: fs, room⟩⟩ = .ok done m') :
    ∃ done' c', Plain.leave c = .ok done' c' ∧ m'.Tracks num Frame.Works c' := by
  obtain ⟨stack, calls, steps⟩ := c
  obtain rfl : calls = _ := h.calls
  simp only [State.ret, bind, EStateM.bind, State.popFrame, BoundedStack.pop, State.onStore] at hs
  have hkeeps := (keepsCore_popGuards frame.depth s.core).final (s := s) rfl
  cases hg : Store.popGuards frame.depth s with
  | error e s₁ => rw [hg] at hs; cases hs
  | ok u s₁ =>
    rw [hg] at hs hkeeps
    have hcore : s₁.core = s.core := hkeeps
    obtain ⟨s₂, hs₂, h₂⟩ := (h.of_core hcore).release
    rw [← hid] at hs₂
    simp only [hs₂] at hs
    simp only [Plain.leave, BoundedStack.pop]
    cases hframes with
    | nil =>
      cases hs
      exact ⟨true, _, rfl, [], .nil, h₂.withCalls⟩
    | @cons g e fs es hg hrest =>
      obtain ⟨id', caller⟩ := e
      obtain ⟨hid', hworks⟩ := hg
      have hcore' := (keepsCore_advance s₂.core).final (s := ⟨g, s₂⟩) rfl
      have huniform := uniform_advance.final (s := ⟨g, s₂⟩) hworks
      simp only [State.onTop, BoundedStack.top?, List.head?_cons, List.map_cons] at hs ⊢
      cases ha : Activation.advance ⟨g, s₂⟩ with
      | error e a => rw [ha] at hs; cases hs
      | ok u a =>
        obtain ⟨g', s₃⟩ := a
        rw [ha] at hs hcore' huniform
        cases hs
        have hg' : g'.Uniform g.localsId := huniform
        refine ⟨false, _, rfl, (id', { caller with pc := caller.pc + 1 }) :: es, ?_, ?_⟩
        · exact .cons ⟨hg'.frame.trans hid', hg'.self⟩ hrest
        · exact (h₂.of_core hcore').moveTo _ _

theorem replay_call {function : UInt16} (hframes : FramesTrack Frame.Works fs es)
    (h : s.Tracks num es ⟨es.map Prod.snd, room⟩ c)
    (hs : State.call setup function ⟨s, ⟨fs, room⟩⟩ = .ok () m') :
    ∃ c', Plain.enter setup.program function c = .ok () c' ∧ m'.Tracks num Frame.Works c' := by
  have hcall : SameEnd _ _ (State.call setup function ⟨s, ⟨fs, room⟩⟩) _ :=
    tracks_call setup function h
  rw [hs] at hcall
  obtain ⟨u, m₁, u', c', hx, hx', id, f, params, room', hm, ht⟩ | ⟨e, m₁, e', c', hx, -⟩ :=
    hcall.split
  · cases hx
    obtain ⟨s', frames⟩ := m'
    cases hm
    have huniform := Frame.Uniform.ofFunction function f id
    exact ⟨c', hx', (id, .ofFunction f params) :: es, .cons ⟨rfl, huniform⟩ hframes, ht⟩
  · cases hx

theorem replay_stay {t : Transition p} (ht : t.Stays) {n : ℕ} (hframe : frame.Uniform id)
    (hframes : FramesTrack Frame.Works fs es)
    (h : s.Tracks num ((id, call) :: es) ⟨call :: es.map Prod.snd, room⟩ c)
    (hs : State.conclude setup fs room (Activation.follow frame n t ⟨frame, s⟩) = .ok done m') :
    m'.Tracks num Frame.Works c := by
  have hcore := (keepsCore_follow frame n t s.core).final (s := ⟨frame, s⟩) rfl
  have huniform := (uniform_follow hframe n t).final (s := ⟨frame, s⟩) hframe
  have hnone : ∀ d a, Activation.follow frame n t ⟨frame, s⟩ = .ok d a → d = none := by
    intro d a hfollow
    match t with
    | .goto pc => cases hfollow; rfl
    | .exit .ret => exact ht.elim
    | .exit (.call _) => exact ht.elim
    | .exit (.conditional pc v) =>
      obtain ⟨_, _, -, hpure⟩ := bind_eq_ok hfollow
      cases hpure
      rfl
    | .exit (.armEnd pc) =>
      obtain ⟨_, _, -, hpure⟩ := bind_eq_ok hfollow
      cases hpure
      rfl
  cases hfollow : Activation.follow frame n t ⟨frame, s⟩ with
  | error e a => rw [hfollow] at hs; cases hs
  | ok d a =>
    obtain ⟨frame', s'⟩ := a
    rw [hfollow] at hs hcore huniform
    rw [hnone d _ hfollow] at hs
    cases hs
    have hframe' : frame'.Uniform id := huniform
    exact ⟨(id, call) :: es, .cons ⟨hframe'.frame, hframe'.self⟩ hframes, h.of_core hcore⟩

variable [Modulus p]

theorem faithful_of_step {n : ℕ} {b : Block} {i : Instruction} (hb : frame.running = .ok (n, b))
    (hi : frame.function.code[b.pc.toNat]? = some i) (hk : s.locals.knows b.localsId = true)
    (hs : State.step setup ⟨s, ⟨frame :: fs, room⟩⟩ = .ok done m')
    (hf : ∀ op, State.operation? ⟨s, ⟨frame :: fs, room⟩⟩ m' = some op → op.Faithful num) (g : Gate)
    (hg : Gate.ofOpcode? i.opcode = some g) :
    (s.fetch frame.function i b.pc).Faithful num s!"step#{s.steps + 1}" i.opcode g := by
  rintro op rest rfl happ
  have hnext : State.instruction? ⟨s, ⟨frame :: fs, room⟩⟩ = some i :=
    (State.instruction?_cons hb).trans hi
  rw [State.step_cons, Activation.step_eq hb, Block.step_eq hk hi, Block.perform_gate hg] at hs
  cases hbinary : Store.binary s!"step#{s.steps + 1}" i.opcode op.gate
      (s.fetch frame.function i b.pc) with
  | error e s₁ => rw [hbinary] at hs; cases hs
  | ok u s₁ =>
    rw [hbinary] at hs happ
    have hcore := (keepsCore_follow frame n (b.advance : Transition p) s₁.core).final
      (s := ⟨frame, s₁⟩) rfl
    dsimp only at hs
    cases hfollow : Activation.follow frame n b.advance ⟨frame, s₁⟩ with
    | error e a => rw [hfollow] at hs; cases hs
    | ok d a =>
      rw [hfollow] at hs hcore
      rw [follow_advance_ok hfollow] at hs
      cases hs
      exact hf op (State.operation?_of_applies hnext hg (happ.of_core ⟨rfl, rfl, rfl⟩ hcore))

/-- **A step that succeeds is replayed.** -/
theorem replay_step (hnum : ∀ x type, num (.constant x type none) = x) (hg : m.store.Grounded)
    (hf : ∀ op, m.operation? m' = some op → op.Faithful num) (h : m.Tracks num Frame.Works c)
    (hs : State.step setup m = .ok done m') {i : Instruction} (hi : m.instruction? = some i) :
    ∃ c', Plain.execute setup.program i c = .ok () c' ∧ m'.Tracks num Frame.Works c' := by
  obtain ⟨s, fs, room⟩ := m
  obtain ⟨stack, calls, steps⟩ := c
  obtain ⟨es, hframes, htracks⟩ := h
  obtain rfl : calls = _ := htracks.calls
  cases hframes with
  | nil => cases hi
  | @cons frame e fs es hframe hrest =>
    obtain ⟨id, f, pc, L⟩ := e
    obtain ⟨hlocalsId, hworks⟩ := hframe
    have hid : frame.localsId = id := hlocalsId
    have huniform : frame.Uniform id := by
      rw [← hid]
      exact hworks
    cases hb : frame.running with
    | error e =>
      rw [State.step_cons, Activation.step_eq_error hb] at hs
      cases hs
    | ok r =>
      obtain ⟨n, b⟩ := r
      have hcode : frame.function.code[b.pc.toNat]? = some i :=
        (State.instruction?_cons hb).symm.trans hi
      have hlocals : b.localsId = id := huniform.running hb
      have hk : s.locals.knows b.localsId = true := by
        rw [hlocals]
        exact decide_eq_true (LocalsTable.lt_size_of_operands? (htracks.locals _ List.mem_cons_self))
      have hfaithful := faithful_of_step hb hcode hk hs hf
      have hfetch : (s.fetch frame.function i b.pc).TracksTop num es (es.map Prod.snd) room id f pc
          ⟨stack, ⟨⟨f, pc, L⟩ :: es.map Prod.snd, room⟩, steps + 1⟩ :=
        ⟨L, htracks.stack, htracks.room, htracks.locals, htracks.nodup, htracks.free, rfl,
          congrArg (· + 1) htracks.steps⟩
      have hg' : (s.fetch frame.function i b.pc).Grounded := hg
      rw [State.step_cons, Activation.step_eq hb, Block.step_eq hk hcode] at hs
      cases hp : b.perform setup.config.mode frame.function i (s.steps + 1)
          (s.fetch frame.function i b.pc) with
      | error e s₁ => rw [hp] at hs; cases hs
      | ok t s₁ =>
        rw [hp] at hs
        obtain ⟨flow, c₁, hflow, hparallel, L₁, ht⟩ :=
          replay_perform hnum hlocals hg' hfaithful hfetch hp
        simp only [Plain.execute, bind, EStateM.bind, Plain.tick, List.map_cons, hflow]
        cases hparallel with
        | next hstays => exact ⟨c₁, rfl, replay_stay hstays huniform hrest ht hs⟩
        | goto hstays target => exact ⟨c₁, rfl, replay_stay hstays huniform hrest ht hs⟩
        | ret =>
          obtain ⟨done', c', hleave, hm⟩ := replay_ret hrest hid ht hs
          simp only [EStateM.bind, hleave]
          exact ⟨c', rfl, hm⟩
        | call function =>
          obtain ⟨u, m₁, hcall, hpure⟩ := bind_eq_ok hs
          cases hpure
          have hframes : FramesTrack Frame.Works (frame :: fs)
              ((id, (⟨f, pc, L₁⟩ : Call p)) :: es) :=
            .cons ⟨hid, hworks⟩ hrest
          exact replay_call hframes ht hcall

end Steps

/-! ## Runs -/

section Runs

variable [Modulus p] {num : Value p → Scalar p} {c : Configuration p} {m m' : State (System p) p}
  {setup : Setup} {done : Bool}

omit [Modulus p] in
theorem State.instruction?_place? (m : State (System p) p) :
    m.place?.toList.filterMap Place.instruction? = m.instruction?.toList := by
  unfold State.place? State.instruction?
  cases m.frames.top? with
  | none => rfl
  | some f =>
    simp only [bind, Option.bind_some]
    cases f.running with
    | error e => rfl
    | ok r =>
      simp only [Except.toOption, Option.bind_some, pure, Option.toList_some, List.filterMap_cons,
        List.filterMap_nil, Place.instruction?]
      cases f.function.code[r.2.pc.toNat]? <;> rfl

theorem State.step_instruction? (hs : State.step setup m = .ok done m') :
    (∃ i, m.instruction? = some i) ∨ m.instruction? = none ∧ done = true ∧ m' = m := by
  obtain ⟨s, fs, room⟩ := m
  cases fs with
  | nil =>
    cases hs
    exact .inr ⟨rfl, rfl, rfl⟩
  | cons frame fs =>
    rw [State.step_cons] at hs
    cases hb : frame.running with
    | error e =>
      rw [Activation.step_eq_error hb] at hs
      cases hs
    | ok r =>
      obtain ⟨n, b⟩ := r
      rw [State.instruction?_cons hb]
      cases hi : frame.function.code[b.pc.toNat]? with
      | some i => exact .inl ⟨i, rfl⟩
      | none =>
        rw [Activation.step_eq hb] at hs
        by_cases hk : s.locals.knows b.localsId = true
        · rw [Block.step_eq_beyond hk hi] at hs
          cases hs
        · rw [Block.step_eq_unknown (Bool.eq_false_iff.mpr hk)] at hs
          cases hs

/-- **Executions are replayed** one instruction after the other. -/
theorem replay_loop (hnum : ∀ x type, num (.constant x type none) = x) (fuel : ℕ)
    (hg : m.store.Grounded) (hf : ∀ op ∈ State.operations setup fuel m, op.Faithful num)
    (h : m.Tracks num Frame.Works c) (hs : State.loop setup fuel m = .ok () m') :
    ∃ c', Plain.replay setup.program ((State.trail setup fuel m).filterMap Place.instruction?) c =
        .ok () c' ∧ m'.Tracks num Frame.Works c' := by
  induction fuel generalizing m c with
  | zero => cases hs
  | succ fuel ih =>
    rw [State.loop] at hs
    rw [State.operations] at hf
    rw [State.trail, List.filterMap_append, State.instruction?_place?]
    have hground := (Invariant.of_grounded setup.config.mode).step hg
    cases hstep : State.step setup m with
    | error e m₁ => rw [hstep] at hs; cases hs
    | ok done m₁ =>
      rw [hstep] at hs hf hground
      have hop : ∀ op, m.operation? m₁ = some op → op.Faithful num := fun op hop =>
        hf op (List.mem_append_left _ (by
          rw [finalState, hop]
          exact List.mem_singleton_self op))
      obtain ⟨i, hi⟩ | ⟨hi, rfl, rfl⟩ := State.step_instruction? hstep
      · obtain ⟨c₁, hc₁, hm₁⟩ := replay_step hnum hg hop h hstep hi
        rw [hi]
        simp only [Option.toList_some, List.cons_append, List.nil_append, Plain.replay, bind,
          EStateM.bind, hc₁]
        cases done with
        | true =>
          cases hs
          exact ⟨c₁, rfl, hm₁⟩
        | false =>
          exact ih hground (fun op hmem => hf op (List.mem_append_right _ hmem)) hm₁ hs
      · cases hs
        rw [hi]
        exact ⟨c, rfl, h⟩

/-- **The results of a run are those of its replay** on given numbers of the inputs. -/
theorem replay_run (hnum : ∀ x type, num (.constant x type none) = x) {fuel : ℕ} {index : UInt16}
    {f : Function} {args₀ args : List (Scalar p)} {m₀ : State (System p) p} {vs : List (Value p)}
    (he : State.eligible setup index args₀ = .ok f) (hargs : args.length = f.params.length)
    (hvalues : (inputValues m₀.store.ledger.recorder.wires.size
      (State.inputs setup.config.mode f args₀)).map (·.operand? num) =
      (Plain.arguments f args).map some)
    (hf : ∀ op ∈ State.runOperations setup fuel index args₀ m₀, op.Faithful num)
    (hs : State.run setup fuel index args₀ m₀ = .ok vs m) :
    ∃ as c, Plain.rerun setup.program setup.config
        (State.executed setup fuel index args₀ m₀) f args = .ok as c ∧
      vs.map (·.operand? num) = as.map some := by
  obtain ⟨m₁, c₁, id, room, hm₁, hc₁, hframes, h₁⟩ :=
    tracks_start setup index f args₀ m₀ (Plain.length_arguments hargs) hvalues
  have hground : m₁.store.Grounded :=
    (Invariant.of_grounded setup.config.mode).of_start (fun _ h v _ hv => absurd hv (h v)) hm₁
  have htracks : m₁.Tracks num Frame.Works c₁ := by
    obtain ⟨s₁, frames⟩ := m₁
    cases hframes
    exact ⟨_, .cons ⟨rfl, Frame.Uniform.ofFunction index f id⟩ .nil, h₁⟩
  have hstarted : State.started? setup index args₀ m₀ = some m₁ := by
    simp only [State.started?, he, hm₁]
  rw [State.runOperations, hstarted] at hf
  rw [State.executed, State.places, hstarted]
  simp only [State.run, he, bind, EStateM.bind, hm₁] at hs
  simp only [Plain.rerun, bind, EStateM.bind, hc₁]
  cases hloop : State.loop setup fuel m₁ with
  | error e m₂ => rw [hloop] at hs; cases hs
  | ok u m₂ =>
    obtain ⟨c₂, hc₂, es, hes, h₂⟩ := replay_loop hnum fuel hground hf htracks hloop
    rw [hloop] at hs
    simp only [Option.elim_some, hc₂]
    obtain ⟨s₂, fs₂⟩ := m₂
    have hnil : ([] : List (Value p)).map (·.operand? num) =
        ([] : List (Operand p)).map some := rfl
    have hpop := tracks_popResults f.returns hnil s₂ c₂ h₂
    dsimp only [State.onStore] at hs
    obtain ⟨vs', s₃, as, c₃, hy, hy', hvs, -⟩ | ⟨e, s₃, e', c₃, hy, -⟩ := hpop.split
    · rw [hy] at hs
      cases hs
      exact ⟨as, c₃, hy', hvs⟩
    · rw [hy] at hs
      cases hs

end Runs

end StackCircuit.Machine
