import StackCircuit.Proofs.Machine.Layers
import StackCircuit.Proofs.Machine.Step

/-!
# Machines without arms

As long as every condition is known no arms are entered, and a frame is just a place in a function
with its locals. Control then stays in simple frames.

* **`Frame.flat`**: the frame at a position of a function without arms.
* `Transition.IsPlain`: control that leads into no arms.
* **`State.step_flat`**, `State.conclude_call`, `State.ret_flat`: a step from such a frame.
-/

namespace StackCircuit.Machine

open Bytecode (Function Instruction)
open Circuit (Recorder)

/-- **The frame at a position of a function**, without arms. -/
def Frame.flat (index : UInt16) (f : Function) (id : ℕ) (pc : UInt16) : Frame :=
  .ofNesting index f id ⟨⟨pc, 0, none, id⟩, []⟩

/-- A frame without arms. -/
def Frame.IsFlat (f : Frame) : Prop := ∃ index h id pc, f = .flat index h id pc

/-- The body of a function at a position. -/
def Block.body (id : ℕ) (pc : UInt16) : Block := ⟨pc, 0, none, id⟩

/-- Control that leads into no arms. -/
inductive Transition.IsPlain {p : ℕ} : Transition p → Prop
  | goto (pc : UInt16) : IsPlain (.goto pc)
  | ret : IsPlain (.exit .ret)
  | call (function : UInt16) : IsPlain (.exit (.call function))

section Flat

variable {σ : Type} {p : ℕ} {index : UInt16} {f : Function} {id : ℕ} {pc : UInt16} {s : Store σ p}
  {fs : List Frame} {room : Option ℕ}

theorem Frame.isFlat_ofFunction (index : UInt16) (f : Function) (id : ℕ) :
    (Frame.ofFunction index f id).IsFlat :=
  ⟨_, _, _, _, rfl⟩

theorem Frame.running_flat : (Frame.flat index f id pc).running = .ok (0, .body id pc) := rfl

theorem Frame.localsId_flat : (Frame.flat index f id pc).localsId = id := rfl

theorem Activation.advance_flat :
    Activation.advance ⟨.flat index f id pc, s⟩ = .ok () ⟨.flat index f id (pc + 1), s⟩ :=
  Activation.advance_ofNesting s

theorem State.conclude_call {setup : Setup} (function : UInt16) :
    State.conclude setup fs room (Activation.follow (.flat index f id pc) 0
      (.exit (.call function)) ⟨.flat index f id pc, s⟩) =
      match State.call setup function ⟨s, ⟨.flat index f id pc :: fs, room⟩⟩ with
      | .ok _ m => .ok false m
      | .error e m => .error e m := by
  change (State.call setup function >>= fun _ => pure false : EStateM Halt (State σ p) Bool) _ = _
  simp only [bind, EStateM.bind]
  cases State.call setup function ⟨s, ⟨.flat index f id pc :: fs, room⟩⟩ <;> rfl

/-- **A return** gives the locals back, and the caller goes on behind its call. -/
theorem State.ret_flat :
    State.ret ⟨s, ⟨.flat index f id pc :: fs, room⟩⟩ =
      match Store.releaseLocals id s with
      | .error e s' => .error e ⟨s', ⟨fs, room.map (· + 1)⟩⟩
      | .ok _ s' =>
        match State.onTop Activation.advance ⟨s', ⟨fs, room.map (· + 1)⟩⟩ with
        | .ok a m => .ok a.isNone m
        | .error e m => .error e m := by
  have hguards : Store.popGuards (Frame.flat index f id pc).depth s = .ok () s := rfl
  simp only [State.ret, bind, EStateM.bind, State.popFrame, BoundedStack.pop, State.onStore, hguards,
    Frame.localsId_flat]
  cases Store.releaseLocals id s with
  | error e s' => rfl
  | ok u s' =>
    dsimp only
    cases State.onTop Activation.advance ⟨s', ⟨fs, room.map (· + 1)⟩⟩ <;> rfl

theorem State.resume_flat (s : Store σ p) (room : Option ℕ) :
    State.onTop Activation.advance ⟨s, ⟨.flat index f id pc :: fs, room⟩⟩ =
      .ok (some ()) ⟨s, ⟨.flat index f id (pc + 1) :: fs, room⟩⟩ := by
  simp only [State.onTop, BoundedStack.top?, List.head?_cons, Activation.advance_flat]
  rfl

variable [Modulus p] [Recorder σ p] {setup : Setup}

/-- **A step from a frame without arms**: its body makes a step, and control follows. -/
theorem State.step_flat :
    State.step setup ⟨s, ⟨.flat index f id pc :: fs, room⟩⟩ =
      State.conclude setup fs room
        (match (Block.body id pc).step setup.config.mode f s with
        | .ok t s' => Activation.follow (.flat index f id pc) 0 t ⟨.flat index f id pc, s'⟩
        | .error e s' => .error e ⟨.flat index f id pc, s'⟩) := by
  rw [State.step_cons]
  exact congrArg (State.conclude setup fs room) (Activation.step_eq Frame.running_flat)

variable {i : Instruction} {s' : Store σ p}

theorem State.step_flat_perform {t : Transition p} (hk : s.locals.knows id = true)
    (hi : f.code[pc.toNat]? = some i)
    (hp : (Block.body id pc).perform setup.config.mode f i (s.steps + 1) (s.fetch f i pc) =
      .ok t s') :
    State.step setup ⟨s, ⟨.flat index f id pc :: fs, room⟩⟩ = State.conclude setup fs room
      (Activation.follow (.flat index f id pc) 0 t ⟨.flat index f id pc, s'⟩) := by
  rw [State.step_flat, Block.step_eq (b := .body id pc) hk hi]
  change State.conclude setup fs room
    (match (Block.body id pc).perform setup.config.mode f i (s.steps + 1) (s.fetch f i pc) with
    | .ok t s' => Activation.follow (.flat index f id pc) 0 t ⟨.flat index f id pc, s'⟩
    | .error e s' => .error e ⟨.flat index f id pc, s'⟩) = _
  rw [hp]

theorem State.step_flat_error {e : Halt} (hk : s.locals.knows id = true)
    (hi : f.code[pc.toNat]? = some i)
    (hp : (Block.body id pc).perform setup.config.mode f i (s.steps + 1) (s.fetch f i pc) =
      .error e s') :
    State.step setup ⟨s, ⟨.flat index f id pc :: fs, room⟩⟩ =
      .error e ⟨State.noted (.flat index f id pc) e s', ⟨.flat index f id pc :: fs, room⟩⟩ := by
  rw [State.step_flat, Block.step_eq (b := .body id pc) hk hi]
  change State.conclude setup fs room
    (match (Block.body id pc).perform setup.config.mode f i (s.steps + 1) (s.fetch f i pc) with
    | .ok t s' => Activation.follow (.flat index f id pc) 0 t ⟨.flat index f id pc, s'⟩
    | .error e s' => .error e ⟨.flat index f id pc, s'⟩) = _
  rw [hp]
  rfl

/-- **Control stays in the frame** unless it returns or calls. -/
theorem State.step_flat_goto {pc' : UInt16} (hk : s.locals.knows id = true)
    (hi : f.code[pc.toNat]? = some i)
    (hp : (Block.body id pc).perform setup.config.mode f i (s.steps + 1) (s.fetch f i pc) =
      .ok (.goto pc') s') :
    State.step setup ⟨s, ⟨.flat index f id pc :: fs, room⟩⟩ =
      .ok false ⟨s', ⟨.flat index f id pc' :: fs, room⟩⟩ := by
  rw [State.step_flat_perform hk hi hp]
  rfl

/-- **The frame returns.** -/
theorem State.step_flat_ret (hk : s.locals.knows id = true) (hi : f.code[pc.toNat]? = some i)
    (hop : i.opcode = .ret) :
    State.step setup ⟨s, ⟨.flat index f id pc :: fs, room⟩⟩ =
      State.ret ⟨s.fetch f i pc, ⟨.flat index f id pc :: fs, room⟩⟩ := by
  have hp : (Block.body id pc).perform setup.config.mode f i (s.steps + 1) (s.fetch f i pc) =
      .ok (.exit .ret) (s.fetch f i pc) := by
    simp only [Block.perform, hop]
    rfl
  rw [State.step_flat_perform hk hi hp]
  rfl

end Flat

end StackCircuit.Machine
