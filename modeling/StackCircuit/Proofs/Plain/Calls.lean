import StackCircuit.Proofs.Plain.Tracking

/-!
# Calls of both machines

A machine stands for a plain one if its store does and each of its frames stands for a call. What
that takes of a frame is left open here.

* **`State.Tracks`**: a machine stands for a configuration.
* **`tracks_call`**: both machines call a function, or both fail to.
* `inputValues`: the values that parameters get at the start; **`tracks_start`**: both machines enter
  a function.
-/

namespace StackCircuit.Machine

open Bytecode (Function Instruction)
open Circuit (System)
open Plain (Operand Call Configuration Locals Flow)

variable {p : ℕ}

/-- Frames stand for calls in the sense of `F`, one by one, and have their identifiers. -/
abbrev FramesTrack (F : Frame → Call p → Prop) (fs : List Frame) (es : List (ℕ × Call p)) : Prop :=
  List.Forall₂ (fun frame e => frame.localsId = e.1 ∧ F frame e.2) fs es

/-- **A machine stands for a configuration**, where `F` tells which frames stand for which calls. -/
def State.Tracks (num : Value p → Scalar p) (F : Frame → Call p → Prop) (m : State (System p) p)
    (c : Configuration p) : Prop :=
  ∃ es : List (ℕ × Call p), FramesTrack F m.frames.items es ∧
    m.store.Tracks num es ⟨es.map Prod.snd, m.frames.room⟩ c

theorem replicate_locals (f : Function) :
    (Array.replicate f.locals none : Locals p) = (List.replicate f.params.length none ++
      (([] : List (Operand p)).map some ++
        List.replicate (f.locals - f.params.length) none)).toArray := by
  have hle := f.params_le_locals
  rw [List.map_nil, List.nil_append, List.replicate_append_replicate, ← List.toArray_replicate]
  congr 2
  omega

section Calls

variable {num : Value p → Scalar p} {es : List (ℕ × Call p)} {s : Store (System p) p}
  {c : Configuration p} {fs : List Frame} {cs : List (Call p)} {room : Option ℕ}

theorem Store.Tracks.of_core {s' : Store (System p) p} {calls : BoundedStack (Call p)}
    (h : s.Tracks num es calls c) (hcore : s'.core = s.core) : s'.Tracks num es calls c :=
  h.congr (congrArg Core.stack hcore) (congrArg Core.locals hcore) (congrArg Core.steps hcore)

theorem Store.Tracks.withCalls {calls calls' : BoundedStack (Call p)} (h : s.Tracks num es calls c) :
    s.Tracks num es calls' { c with calls := calls' } :=
  ⟨h.stack, h.room, h.locals, h.nodup, h.free, rfl, h.steps⟩

theorem Store.Tracks.moveTo {id : ℕ} {call : Call p} {calls : BoundedStack (Call p)}
    (h : s.Tracks num ((id, call) :: es) calls c) (pc : UInt16) (calls' : BoundedStack (Call p)) :
    s.Tracks num ((id, { call with pc }) :: es) calls' { c with calls := calls' } := by
  refine ⟨h.stack, h.room, List.forall_mem_cons.mpr ⟨?_, fun e he => ?_⟩, h.nodup, h.free, rfl,
    h.steps⟩
  · exact h.locals (id, call) List.mem_cons_self
  · exact h.locals e (List.mem_cons_of_mem _ he)

theorem tracks_pushFrame (index : UInt16) (f : Function) (fs : List Frame) {id : ℕ} {call : Call p}
    (h : s.Tracks num ((id, call) :: es) ⟨cs, room⟩ c) :
    SameEnd (fun _ _ m' c' => ∃ room', m'.frames = ⟨.ofFunction index f id :: fs, room'⟩ ∧
        m'.store.Tracks num ((id, call) :: es) ⟨call :: cs, room'⟩ c')
      (fun e e' m' c' => e.Agrees e' ∧ m'.frames = ⟨fs, room⟩ ∧
        m'.store.Tracks num ((id, call) :: es) ⟨cs, room⟩ c')
      (State.pushFrame (.ofFunction index f id) ⟨s, ⟨fs, room⟩⟩) (Plain.pushCall call c) := by
  obtain ⟨stack, calls, steps⟩ := c
  obtain rfl : calls = _ := h.calls
  match room with
  | none => exact ⟨_, rfl, h.withCalls⟩
  | some 0 => exact ⟨rfl, rfl, h⟩
  | some (n + 1) => exact ⟨_, rfl, h.withCalls⟩

/-- **Both machines call a function** with the same parameters, or both fail to and are as they were,
except that parameters may be gone. -/
theorem tracks_call (setup : Setup) (index : UInt16) (h : s.Tracks num es ⟨cs, room⟩ c) :
    SameEnd (fun _ _ m' c' => ∃ id f params room',
        m'.frames = ⟨.ofFunction index f id :: fs, room'⟩ ∧
        m'.store.Tracks num ((id, .ofFunction f params) :: es)
          ⟨.ofFunction f params :: cs, room'⟩ c')
      (fun e e' m' c' => e.Agrees e' ∧ m'.frames = ⟨fs, room⟩ ∧
        m'.store.Tracks num es ⟨cs, room⟩ c')
      (State.call setup index ⟨s, ⟨fs, room⟩⟩) (Plain.enter setup.program index c) := by
  unfold State.call Plain.enter
  cases setup.program.function? index with
  | none => exact ⟨rfl, rfl, h⟩
  | some f =>
    have h₁ := h.alloc f f.locals
    rw [replicate_locals f] at h₁
    have hparams := tracks_popParams f f.params.length (f.locals - f.params.length) [] _ c h₁
    simp only [bind, EStateM.bind, State.onStore, Store.allocLocals]
    obtain ⟨u, s₂, params, c₂, hx, hx', hlen, h₂⟩ | ⟨e, s₂, e', c₂, hx, hx', he, call, h₂⟩ :=
      hparams.split
    · have hcall : (⟨f, 0, (params.map some ++
          List.replicate (f.locals - f.params.length) none).toArray⟩ : Call p) =
          .ofFunction f params := by
        rw [Call.ofFunction, hlen]
        rfl
      rw [hcall] at h₂
      simp only [State.releasing, EStateM.bind, State.onStore, hx, hx']
      have hpush := tracks_pushFrame index f fs h₂
      obtain ⟨u, m₃, u', c₃, hy, hy', room', hm, h₃⟩ | ⟨e, m₃, e', c₃, hy, hy', he, hm, h₃⟩ :=
        hpush.split
      · rw [hy, hy']
        exact ⟨_, f, params, room', hm, h₃.congr rfl rfl rfl⟩
      · obtain ⟨s₄, hs₄, h₄⟩ := h₃.release
        rw [hy, hy']
        simp only [hs₄]
        exact ⟨he, hm, h₄⟩
    · obtain ⟨s₃, hs₃, h₃⟩ := h₂.release
      simp only [State.releasing, EStateM.bind, State.onStore, hx, hx', hs₃]
      exact ⟨he, rfl, h₃⟩

end Calls

/-! ## Entering a function at the start -/

/-- The values that inputs get, whose wires are numbered from `n` on. -/
def inputValues : ℕ → List (ValueType × Option (Scalar p)) → List (Value p)
  | _, [] => []
  | n, (type, x) :: rest => .wired (UInt32.ofNat n) x type :: inputValues (n + 1) rest

section Start

variable {num : Value p → Scalar p} {s : Store (System p) p} {c : Configuration p}
  {calls : BoundedStack (Call p)}

/-- **Inputs go into the first slots**, one after the other. -/
theorem tracks_allocInputs {id n : ℕ} {f : Function} {inputs : List (ValueType × Option (Scalar p))}
    {before as : List (Operand p)} {k : ℕ} (hn : s.ledger.recorder.wires.size = n)
    (hvalues : (inputValues n inputs).map (·.operand? num) = as.map some)
    (h : s.Tracks num [(id, ⟨f, 0, (before.map some ++
      List.replicate (as.length + k) none).toArray⟩)] calls c) :
    ∃ s', State.allocInputs id before.length inputs s = .ok () s' ∧
      s'.Tracks num [(id, ⟨f, 0, ((before ++ as).map some ++ List.replicate k none).toArray⟩)]
        calls c := by
  induction inputs generalizing n before as s with
  | nil =>
    obtain rfl : as = [] := by simpa [inputValues] using hvalues.symm
    refine ⟨s, rfl, ?_⟩
    rw [List.length_nil, Nat.zero_add] at h
    rw [List.append_nil]
    exact h
  | cons input rest ih =>
    obtain ⟨type, x⟩ := input
    obtain _ | ⟨a, as⟩ := as
    · cases hvalues
    rw [inputValues, List.map_cons, List.map_cons, List.cons.injEq] at hvalues
    have halloc :=
      (Invariant.rearranges_allocInput id before.length s!"arg#{before.length}" x type s).1
    have h₁ : Store.Tracks num _ calls
        (s.withRecord (s.ledger.recorder.addWire s!"arg#{before.length}" x)) c :=
      h.congr rfl rfl rfl
    have hs₂ := h₁.storeLocal_eq (j := before.length) (by simp) (.wired (UInt32.ofNat n) x type)
    have h₂ := h₁.write before.length (.wired (UInt32.ofNat n) x type)
    have hset : (before.map some ++ List.replicate ((a :: as).length + k) none).toArray.setIfInBounds
        before.length (Value.operand? num (.wired (UInt32.ofNat n) x type)) =
        ((before ++ [a]).map some ++ List.replicate (as.length + k) none).toArray := by
      have hlen : (a :: as).length + k = (as.length + k) + 1 := by rw [List.length_cons]; omega
      rw [hvalues.1, hlen, List.replicate_succ, List.setIfInBounds_toArray,
        List.set_append_right _ _ (by simp)]
      simp
    rw [hset] at h₂
    have hsize : (s.ledger.recorder.addWire s!"arg#{before.length}" x).wires.size = n + 1 := by
      rw [← hn]
      exact Array.size_push _
    obtain ⟨s₃, hs₃, h₃⟩ := ih hsize hvalues.2 h₂
    refine ⟨s₃, ?_, ?_⟩
    · rw [hn] at halloc
      simp only [State.allocInputs, bind, EStateM.bind, halloc, hs₂]
      rw [List.length_append] at hs₃
      exact hs₃
    · rw [List.append_assoc] at h₃
      exact h₃

/-- **Both machines enter a function.** -/
theorem tracks_start (setup : Setup) (index : UInt16) (f : Function) (args : List (Scalar p))
    (m : State (System p) p) {as : List (Operand p)} (hlen : as.length = f.params.length)
    (hvalues : (inputValues m.store.ledger.recorder.wires.size
      (State.inputs setup.config.mode f args)).map (·.operand? num) = as.map some) :
    ∃ m' c' id room, State.start setup index f args m = .ok () m' ∧
      Plain.pushCall (.ofFunction f as) (.initial setup.config) = .ok () c' ∧
      m'.frames = ⟨[.ofFunction index f id], room⟩ ∧
      m'.store.Tracks num [(id, .ofFunction f as)] ⟨[.ofFunction f as], room⟩ c' := by
  obtain ⟨room, hroom⟩ : ∃ room, State.noFrames setup.config = ⟨[], room⟩ := ⟨_, rfl⟩
  have h₀ : Store.Tracks num [] ⟨[], room⟩
      (State.initial setup.config m.store.ledger).store (.initial setup.config) := by
    rw [Plain.initial_eq]
    exact ⟨rfl, rfl, (fun _ h => nomatch h), List.nodup_nil, (fun _ h => nomatch h),
      congrArg (BoundedStack.mk []) (congrArg BoundedStack.room hroom), rfl⟩
  let s₁ : Store (System p) p :=
    { (State.initial setup.config m.store.ledger).store with
      locals := ⟨#[some (Array.replicate f.locals .invalid)], []⟩ }
  have h₁ : s₁.Tracks num [(0, ⟨f, 0, (([] : List (Operand p)).map some ++
      List.replicate (as.length + (f.locals - as.length)) none).toArray⟩)] ⟨[], room⟩
      (.initial setup.config) := by
    have h := h₀.alloc f f.locals
    rw [replicate_locals f, ← hlen] at h
    rw [List.map_nil, List.nil_append, ← List.replicate_append_replicate]
    exact h
  obtain ⟨s₂, hs₂, h₂⟩ := tracks_allocInputs (s := s₁) rfl hvalues h₁
  have hlocals : State.onStore (Store.allocLocals f.locals)
      (.initial setup.config m.store.ledger) = .ok 0 ⟨s₁, ⟨[], room⟩⟩ := by rw [← hroom]; rfl
  obtain ⟨frames, hframes, -⟩ := push_noFrames setup.config (Frame.ofFunction index f 0)
  have hframe : State.pushFrame (.ofFunction index f 0) ⟨s₂, ⟨[], room⟩⟩ = .ok () ⟨s₂, frames⟩ := by
    unfold State.pushFrame
    rw [← hroom, hframes]
  rw [List.length_nil] at hs₂
  simp only [State.start, bind, EStateM.bind, State.reset, hlocals]
  simp only [State.onStore, hs₂, hframe]
  have hpush := tracks_pushFrame index f [] h₂
  rw [hframe] at hpush
  obtain ⟨u, m₃, u', c₃, hy, hy', room', hm, h₃⟩ | ⟨e, m₃, e', c₃, hy, -⟩ := hpush.split
  · cases hy
    exact ⟨_, c₃, 0, room', rfl, hy', hm, h₃.congr rfl rfl rfl⟩
  · cases hy

end Start

end StackCircuit.Machine
