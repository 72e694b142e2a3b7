import StackCircuit.Proofs.Machine.Effects

/-!
# Which failures instructions have

One kind of failure stands for states that the machine should not get into. The effects of
instructions never fail in this way, so it is left to undefined operations and to the bookkeeping of
arms.

* **`Regular x`**: the failures of the computation `x` are of other kinds.
* `Block.regular_perform`: instructions are regular, undefined ones apart.
* `regular_call`, `regular_start`, `regular_popResults`: so are calls, and the start and the end of
  a run.
-/

namespace StackCircuit.Machine

open Bytecode (Function Instruction)
open Circuit (Recorder)

section Regular

variable {τ α β : Type} {x : EStateM Halt τ α}

/-- A failure that does not blame the state of the machine. -/
def Failure.IsRegular (e : Failure) : Prop := e.status? ≠ some .shouldNotReachHere

@[simp]
theorem Failure.isRegular_because {status : Status} {message : String} :
    (because status message).IsRegular ↔ status ≠ .shouldNotReachHere := by
  simp [IsRegular, because, status?, report?, reports]

@[simp]
theorem Failure.isRegular_bare {status : Status} :
    (bare status).IsRegular ↔ status ≠ .shouldNotReachHere := by
  simp [IsRegular, bare, status?, report?, reports]

@[simp]
theorem Failure.isRegular_caused {report : Report} {cause : Failure} :
    (caused report cause).IsRegular ↔ report.status ≠ .shouldNotReachHere := by
  simp [IsRegular, status?, report?, reports]

/-- **A computation whose failures do not blame the state of the machine.** -/
def Regular (x : EStateM Halt τ α) : Prop :=
  ∀ s e s', x s = .error (.failure e) s' → e.IsRegular

theorem regular_iff_ends :
    Regular x ↔ Ends (fun _ => True) (fun e _ => ∀ f, e = .failure f → f.IsRegular) x
      fun _ => True := by
  constructor
  · intro h s _
    cases hxs : x s with
    | ok a s' => exact ⟨trivial, trivial⟩
    | error e s' => rintro f rfl; exact h s f s' hxs
  · intro h s e s' hxs
    have hs := h s trivial
    rw [hxs] at hs
    exact hs e rfl

theorem Regular.pure (a : α) : Regular (Pure.pure a : EStateM Halt τ α) :=
  fun _ _ _ h => nomatch h

theorem Regular.fail {e : Failure} (he : e.IsRegular) :
    Regular (Store.fail e : EStateM Halt τ α) := by
  intro s e' s' h
  cases h
  exact he

theorem Regular.bind {f : α → EStateM Halt τ β} (hx : Regular x) (hf : ∀ a, Regular (f a)) :
    Regular (x >>= f) := by
  intro s e s' h
  simp only [Bind.bind, EStateM.bind] at h
  cases hxs : x s with
  | ok a t => rw [hxs] at h; exact hf a t e s' h
  | error e' t => rw [hxs] at h; cases h; exact hx s e _ hxs

theorem Regular.get : Regular (get : EStateM Halt τ τ) := fun _ _ _ h => nomatch h

end Regular

/-! ## Effects -/

variable {σ : Type} {p : ℕ} {α : Type}

theorem regular_push (v : Value p) : Regular (Store.push v : EStateM Halt (Store σ p) Unit) := by
  intro s e s' h
  unfold Store.push at h
  split at h <;> cases h
  simp

theorem regular_pop : Regular (Store.pop : EStateM Halt (Store σ p) (Value p)) := by
  intro s e s' h
  unfold Store.pop at h
  split at h <;> cases h
  simp

theorem regular_note (e : Event p) : Regular (Store.note e : EStateM Halt (Store σ p) Unit) :=
  fun _ _ _ h => nomatch h

theorem regular_allocLocals (n : ℕ) :
    Regular (Store.allocLocals n : EStateM Halt (Store σ p) ℕ) :=
  fun _ _ _ h => nomatch h

theorem regular_releaseLocals (id : ℕ) :
    Regular (Store.releaseLocals id : EStateM Halt (Store σ p) Unit) := by
  intro s e s' h
  unfold Store.releaseLocals at h
  split at h <;> cases h

namespace LocalsTable

variable {t : LocalsTable p} {id j : ℕ} {e : Failure}

theorem isRegular_read {status : Status} (hstatus : status ≠ .shouldNotReachHere)
    (h : t.read status id j = .error (.failure e)) : e.IsRegular := by
  unfold read at h
  split at h
  · cases h
  · split at h <;> cases h
    · simp [outOfBounds]
    · simpa using hstatus

theorem isRegular_store {v : Value p} (h : t.store id j v = .error (.failure e)) :
    e.IsRegular := by
  unfold store at h
  split at h
  · cases h
  · split at h <;> cases h
    simp [outOfBounds]

end LocalsTable

theorem regular_copyLocal (id j : ℕ) :
    Regular (Store.copyLocal id j : EStateM Halt (Store σ p) (Value p)) := by
  intro s e s' h
  unfold Store.copyLocal LocalsTable.copy at h
  cases hr : s.locals.read .copyLocalError id j with
  | ok v => rw [hr] at h; cases h
  | error e' => rw [hr] at h; cases h; exact LocalsTable.isRegular_read (by simp) hr

theorem regular_moveLocal (id j : ℕ) :
    Regular (Store.moveLocal id j : EStateM Halt (Store σ p) (Value p)) := by
  intro s e s' h
  unfold Store.moveLocal LocalsTable.move at h
  cases hr : s.locals.read .moveLocalError id j with
  | ok v => rw [hr] at h; cases h
  | error e' => rw [hr] at h; cases h; exact LocalsTable.isRegular_read (by simp) hr

theorem regular_storeLocal (id j : ℕ) (v : Value p) :
    Regular (Store.storeLocal id j v : EStateM Halt (Store σ p) Unit) := by
  intro s e s' h
  unfold Store.storeLocal at h
  split at h <;> cases h
  exact LocalsTable.isRegular_store ‹_›

theorem regular_record (label : String) (opcode : Bytecode.Opcode)
    (x : EStateM GateError (Ledger σ p) α) : Regular (Store.record label opcode x) := by
  rintro ⟨ledger, stack, locals, conditions, steps⟩ e s' h
  dsimp only [Store.record] at h
  split at h <;> cases h
  simp

/-! ## Instructions -/

section Instructions

variable [Modulus p]

theorem regular_binary [Recorder σ p] (label : String) (opcode : Bytecode.Opcode) (g : Gate) :
    Regular (Store.binary label opcode g : EStateM Halt (Store σ p) Unit) :=
  regular_pop.bind fun _ => regular_pop.bind fun _ => Regular.get.bind fun _ =>
    (regular_record _ _ _).bind regular_push

omit [Modulus p] in
theorem regular_parts (id : ℕ) :
    Parts id (fun _ : Store σ p => True) (fun e _ => ∀ f, e = .failure f → f.IsRegular)
      fun _ => True where
  push {v} _ := regular_iff_ends.mp (regular_push v)
  pop := regular_iff_ends.mp regular_pop
  copyLocal j := regular_iff_ends.mp (regular_copyLocal id j)
  moveLocal j := regular_iff_ends.mp (regular_moveLocal id j)
  storeLocal j v _ := regular_iff_ends.mp (regular_storeLocal id j v)
  constant _ _ _ _ _ := ⟨trivial, trivial⟩
  unknown _ _ _ := by rintro f ⟨⟩; simp
  aborted _ _ _ := by
    rintro f ⟨⟩
    simp [Failure.IsRegular, Failure.status?, Failure.report?, Failure.reports, Report.abort]

/-- **Instructions are regular**, undefined ones apart. -/
theorem Block.regular_perform [Recorder σ p] {mode : Mode} {f : Function} {b : Block}
    {i : Instruction} (step : ℕ) (hi : ∀ n, i.opcode ≠ .undefined n) :
    Regular (b.perform mode f i step : EStateM Halt (Store σ p) (Transition p)) :=
  regular_iff_ends.mpr <| (regular_parts b.localsId).perform mode f step
    (fun g _ => regular_iff_ends.mp (regular_binary _ _ g)) fun n _ hop => absurd hop (hi n)

end Instructions

/-! ## Calls and runs -/

namespace State

theorem regular_onStore {x : EStateM Halt (Store σ p) α} (hx : Regular x) :
    Regular (State.onStore x) := by
  rintro ⟨s, frames⟩ e m' h
  dsimp only [State.onStore] at h
  cases hxs : x s with
  | ok a s' => rw [hxs] at h; cases h
  | error e' s' => rw [hxs] at h; cases h; exact hx s e s' hxs

theorem regular_pushFrame (f : Frame) :
    Regular (State.pushFrame f : EStateM Halt (State σ p) Unit) := by
  intro m e m' h
  unfold State.pushFrame at h
  split at h <;> cases h
  simp

theorem regular_releasing {id : ℕ} {x : EStateM Halt (State σ p) α} (hx : Regular x) :
    Regular (State.releasing id x) := by
  intro m e m' h
  unfold State.releasing at h
  cases hxm : x m with
  | ok a m₁ => rw [hxm] at h; cases h
  | error e₁ m₁ =>
    rw [hxm] at h
    dsimp only at h
    cases hr : State.onStore (Store.releaseLocals id) m₁ with
    | ok u m₂ => rw [hr] at h; cases h; exact hx m e m₁ hxm
    | error e₂ m₂ =>
      rw [hr] at h
      cases h
      exact regular_onStore (regular_releaseLocals id) m₁ e _ hr

theorem regular_popParams (id n : ℕ) :
    Regular (State.popParams id n : EStateM Halt (Store σ p) Unit) := by
  induction n with
  | zero => exact .pure _
  | succ n ih => exact regular_pop.bind fun v => (regular_storeLocal id n v).bind fun _ => ih

theorem regular_call (setup : Setup) (index : UInt16) :
    Regular (State.call setup index : EStateM Halt (State σ p) Unit) := by
  unfold State.call
  cases setup.program.function? index with
  | none => exact .fail (by simp [unknownFunction])
  | some f =>
    refine (regular_onStore (regular_allocLocals _)).bind fun id => ?_
    refine Regular.bind (regular_releasing ?_) fun _ => ?_
    · exact (regular_onStore (regular_popParams id _)).bind fun _ => regular_pushFrame _
    · exact Regular.get.bind fun m => regular_onStore (regular_note _)

theorem regular_popResults (n : ℕ) (values : List (Value p)) :
    Regular (State.popResults n values : EStateM Halt (Store σ p) (List (Value p))) := by
  induction n generalizing values with
  | zero => exact .pure _
  | succ n ih => exact regular_pop.bind fun v => ih (v :: values)

theorem regular_allocInputs [Recorder σ p] (id i : ℕ)
    (inputs : List (ValueType × Option (Scalar p))) :
    Regular (State.allocInputs id i inputs : EStateM Halt (Store σ p) Unit) := by
  induction inputs generalizing i with
  | nil => exact .pure _
  | cons input rest ih =>
    refine Regular.bind ?_ fun v => (regular_storeLocal id i v).bind fun _ => ih (i + 1)
    refine Regular.bind ?_ fun w => .pure _
    rintro ⟨⟨recorder, journal⟩, stack, locals, conditions, steps⟩ e s' h
    dsimp only [Store.onLedger, Ledger.record] at h
    cases hx : (Recorder.alloc s!"arg#{i}" (.ofOption input.2) :
      EStateM Circuit.CircuitError σ Circuit.Wire) recorder with
    | ok w recorder' => rw [hx] at h; cases h
    | error e' recorder' => rw [hx] at h; cases h; simp

theorem regular_start [Recorder σ p] (setup : Setup) (index : UInt16) (f : Function)
    (args : List (Scalar p)) :
    Regular (State.start setup index f args : EStateM Halt (State σ p) Unit) := by
  refine Regular.bind (fun _ _ _ h => nomatch h) fun _ => ?_
  refine (regular_onStore (regular_allocLocals _)).bind fun id => ?_
  refine (regular_onStore (regular_allocInputs id 0 _)).bind fun _ => ?_
  exact (regular_pushFrame _).bind fun _ => regular_onStore (regular_note _)

theorem isRegular_eligible {setup : Setup} {index : UInt16} {args : List (Scalar p)} {e : Failure}
    (h : State.eligible setup index args = .error e) : e.IsRegular := by
  unfold State.eligible at h
  split at h
  · cases h
    simp [unknownFunction]
  · split at h <;> cases h
    simp

end State

/-! ## The shape of arms -/

theorem Frame.armBounds_eq_error {f : Function} {pc : UInt16} {e : Failure}
    (h : Frame.armBounds f pc = .error e) : ∃ message, e = Frame.malformed f pc message := by
  unfold Frame.armBounds at h
  dsimp only at h
  repeat' split at h
  all_goals first | (cases h; exact ⟨_, rfl⟩) | cases h

theorem Frame.isRegular_armBounds {f : Function} {pc : UInt16} {e : Failure}
    (h : Frame.armBounds f pc = .error e) : e.IsRegular := by
  obtain ⟨message, rfl⟩ := Frame.armBounds_eq_error h
  simp [Frame.malformed]

end StackCircuit.Machine
