import StackCircuit.Proofs.Machine.Keeps

/-!
# One instruction of the machine

The machine fetches an instruction, performs it on the store, and then lets control follow. Here
these three parts are told apart, so that later proofs treat each of them by itself.

* `State.instruction?`: the instruction that the machine executes next.
* `Store.fetch`: the store on which an instruction is performed.
* `Activation.follow`, `State.depart`: where control goes within a frame, and between frames;
  `State.conclude`: a step of the machine after that of its topmost frame.
* `Block.step_eq`, `Activation.step_eq`, **`State.step_cons`**: the parts together are one step;
  `State.step_eq_ok`: what a step has done that goes through.
* **`Reached`**: the states between the instructions of an execution; `Reached.exists_run`: a run is at
  each of them once it has fuel for it.
* `State.track`: an execution with something that follows along; **`State.track_keeps`**: what its steps
  keep.
-/

namespace StackCircuit.Machine

open Bytecode (Function Instruction)
open Circuit (Recorder)

variable {σ : Type} {p : ℕ} [Modulus p]

/-! ## Blocks -/

/-- The store on which an instruction is performed: it is counted and noted. -/
def Store.fetch (s : Store σ p) (f : Function) (i : Instruction) (pc : UInt16) : Store σ p :=
  { s with
    ledger := ⟨s.ledger.recorder, s.ledger.journal.push (.execute f.name i pc (s.steps + 1))⟩
    steps := s.steps + 1 }

omit [Modulus p] in
theorem Store.top?_of_pop {v : Value p} {s s' : Store σ p} (h : Store.pop s = .ok v s') :
    s.stack.top? = some v := by
  obtain ⟨ledger, ⟨_ | ⟨w, stack⟩, room⟩, locals, conditions, steps⟩ := s
  · cases h
  · cases h
    rfl

namespace Block

variable [Recorder σ p] {mode : Mode} {f : Function} {b : Block} {s : Store σ p}

theorem step_eq {i : Instruction} (hk : s.locals.knows b.localsId = true)
    (hi : f.code[b.pc.toNat]? = some i) :
    b.step mode f s = perform mode f b i (s.steps + 1) (s.fetch f i b.pc) := by
  simp only [step, bind, EStateM.bind, Store.requireLocals, hk, hi, if_true]
  rfl

theorem step_eq_beyond (hk : s.locals.knows b.localsId = true) (hi : f.code[b.pc.toNat]? = none) :
    b.step mode f s = .error (.failure (.because .outOfBounds
      s!"pc {b.pc.toNat} beyond end of function {f.name}")) s := by
  simp only [step, bind, EStateM.bind, Store.requireLocals, hk, hi, if_true]
  rfl

theorem step_eq_unknown (hk : s.locals.knows b.localsId = false) :
    b.step mode f s = .error (.fault .indexOutOfRange) s := by
  simp only [step, bind, EStateM.bind, Store.requireLocals, hk]
  rfl

/-! A conditional branch pops its condition first, and an unknown one leaves the block. -/

variable {i : Instruction} {step : ℕ} {s' : Store σ p}

theorem perform_conditional (hi : i.opcode.isConditionalBranch = true) :
    b.perform mode f i step s = b.branchOn mode f i (.ofBool (i.opcode = .brTrue)) s := by
  unfold perform
  cases hop : i.opcode with
  | brTrue => rfl
  | brFalse => rfl
  | _ => rw [hop] at hi; cases hi

omit [Modulus p] [Recorder σ p] in
theorem branchOn_eq_ok {taken : Scalar p} {t : Transition p}
    (h : b.branchOn mode f i taken s = .ok t s') :
    ∃ v, Store.pop s = .ok v s' ∧
      (v.value? = some taken ∧ t = .goto i.target ∨
        (∃ x, v.value? = some x ∧ x ≠ taken) ∧ t = b.advance ∨
        v.value? = none ∧ mode ≠ .witness ∧ t = .exit (.conditional b.pc v)) := by
  obtain ⟨v, s₁, hpop, h⟩ := bind_eq_ok h
  cases hv : v.value? with
  | some x =>
    simp only [hv] at h
    by_cases hx : x = taken
    · rw [if_pos hx] at h
      cases h
      exact ⟨v, hpop, .inl ⟨hv.trans (congrArg some hx), rfl⟩⟩
    · rw [if_neg hx] at h
      cases h
      exact ⟨v, hpop, .inr (.inl ⟨⟨x, hv, hx⟩, rfl⟩)⟩
  | none =>
    simp only [hv] at h
    by_cases hmode : mode = .witness
    · rw [if_pos hmode] at h
      cases h
    · rw [if_neg hmode] at h
      cases h
      exact ⟨v, hpop, .inr (.inr ⟨hv, hmode, rfl⟩)⟩

theorem perform_conditional_error {e : Halt} (hi : i.opcode.isConditionalBranch = true)
    (hpop : Store.pop s = .error e s') : b.perform mode f i step s = .error e s' := by
  rw [perform_conditional hi]
  simp only [branchOn, bind, EStateM.bind, hpop]

theorem perform_unknown {v : Value p} (hmode : mode ≠ .witness)
    (hi : i.opcode.isConditionalBranch = true) (hpop : Store.pop s = .ok v s')
    (hv : v.value? = none) :
    b.perform mode f i step s = .ok (.exit (.conditional b.pc v)) s' := by
  rw [perform_conditional hi]
  simp only [branchOn, bind, EStateM.bind, hpop, hv, if_neg hmode]
  rfl

theorem perform_pop (hi : i.opcode = .pop) :
    b.perform mode f i step s =
      match Store.pop s with
      | .ok _ s' => .ok b.advance s'
      | .error e s' => .error e s' := by
  simp only [perform, hi, bind, EStateM.bind]
  cases Store.pop s <;> rfl

end Block

/-! ## Frames -/

namespace Activation

/-- Where control goes within a frame after an instruction of its block number `n`. -/
def follow (frame : Frame) (n : ℕ) :
    Transition p → EStateM Halt (Activation σ p) (Option Departure)
  | .goto pc => do
    setFrame (frame.setBlockPc n pc)
    return none
  | .exit .ret => return some .ret
  | .exit (.call function) => return some (.call function)
  | .exit (.conditional pc cond) => do
    materialise pc cond
    return none
  | .exit (.armEnd pc) => do
    endArm pc
    return none

omit [Modulus p] in
theorem follow_advance {frame : Frame} {n : ℕ} {b : Block} (h : frame.running = .ok (n, b))
    (s : Store σ p) :
    follow frame n b.advance ⟨frame, s⟩ =
      match advance ⟨frame, s⟩ with
      | .ok _ a => .ok none a
      | .error e a => .error e a := by
  simp only [advance, bind, EStateM.bind, getFrame, ofFrame, h]
  unfold Block.advance
  by_cases hb : b.atEnd = true
  · simp only [if_pos hb]
    simp only [follow, bind, EStateM.bind]
    cases endArm b.pc ⟨frame, s⟩ with
    | ok u a => rfl
    | error e a => rfl
  · simp only [if_neg hb]
    rfl

variable [Recorder σ p] {mode : Mode} {frame : Frame} {s : Store σ p}

theorem step_eq {n : ℕ} {b : Block} (h : frame.running = .ok (n, b)) :
    step mode ⟨frame, s⟩ =
      match b.step mode frame.function s with
      | .ok t s' => follow frame n t ⟨frame, s'⟩
      | .error e s' => .error e ⟨frame, s'⟩ := by
  simp only [step, bind, EStateM.bind, getFrame, ofFrame, h, onStore]
  cases b.step mode frame.function s with
  | error e s' => rfl
  | ok t s' =>
    cases t with
    | goto pc => rfl
    | exit e => cases e <;> rfl

theorem step_eq_error {e : Failure} (h : frame.running = .error e) :
    step mode ⟨frame, s⟩ = .error (.failure e) ⟨frame, s⟩ := by
  simp only [step, bind, EStateM.bind, getFrame, ofFrame, h]

end Activation

/-! ## The machine -/

namespace State

/-- The instruction that the machine executes next. -/
def instruction? (m : State σ p) : Option Instruction := do
  let f ← m.frames.top?
  let r ← f.running.toOption
  f.function.code[r.2.pc.toNat]?

omit [Modulus p] in
theorem instruction?_cons {s : Store σ p} {f : Frame} {fs : List Frame} {room : Option ℕ} {n : ℕ}
    {b : Block} (h : f.running = .ok (n, b)) :
    instruction? ⟨s, ⟨f :: fs, room⟩⟩ = f.function.code[b.pc.toNat]? := by
  simp only [instruction?, BoundedStack.top?, List.head?_cons, h, bind, Option.bind,
    Except.toOption]

/-- Where control goes between frames. -/
def depart (setup : Setup) : Option Departure → EStateM Halt (State σ p) Bool
  | none => return false
  | some .ret => ret
  | some (.call index) => do
    call setup index
    return false

/-- The store after a failure of a frame was noted. -/
def noted (f : Frame) : Halt → Store σ p → Store σ p
  | .failure e, s =>
    { s with ledger :=
        ⟨s.ledger.recorder, s.ledger.journal.push (.failed f.function.name s.steps e)⟩ }
  | _, s => s

omit [Modulus p] in
theorem core_noted (f : Frame) (e : Halt) (s : Store σ p) : (noted f e s).core = s.core := by
  cases e <;> rfl

/-- The rest of a step of the machine after its topmost frame has made one, above other frames. -/
def conclude (setup : Setup) (fs : List Frame) (room : Option ℕ) :
    EStateM.Result Halt (Activation σ p) (Option Departure) → EStateM.Result Halt (State σ p) Bool
  | .ok d ⟨f, s⟩ => depart setup d ⟨s, ⟨f :: fs, room⟩⟩
  | .error e ⟨f, s⟩ => .error e ⟨noted f e s, ⟨f :: fs, room⟩⟩

variable [Recorder σ p] {setup : Setup}

/-- **A step of the machine** is a step of its topmost frame, after which control may pass to
another frame. -/
theorem step_cons {s : Store σ p} {f : Frame} {fs : List Frame} {room : Option ℕ} :
    step setup ⟨s, ⟨f :: fs, room⟩⟩ =
      conclude setup fs room (Activation.step setup.config.mode ⟨f, s⟩) := by
  simp only [step, bind, EStateM.bind, noteFailure, onTop, BoundedStack.top?, List.head?_cons]
  cases Activation.step setup.config.mode ⟨f, s⟩ with
  | ok d a =>
    cases d with
    | none => rfl
    | some d => cases d <;> rfl
  | error e a => cases e <;> rfl

/-- **What a step that goes through has done**: an instruction of the topmost frame was performed,
and control went where it leads. -/
theorem step_eq_ok {s : Store σ p} {f : Frame} {fs : List Frame} {room : Option ℕ} {done : Bool}
    {m' : State σ p} (h : step setup ⟨s, ⟨f :: fs, room⟩⟩ = .ok done m') :
    ∃ number b i t s', f.running = .ok (number, b) ∧ f.function.code[b.pc.toNat]? = some i ∧
      b.perform setup.config.mode f.function i (s.steps + 1) (s.fetch f.function i b.pc) =
        .ok t s' ∧
      conclude setup fs room (Activation.follow f number t ⟨f, s'⟩) = .ok done m' := by
  rw [step_cons] at h
  cases hb : f.running with
  | error e => rw [Activation.step_eq_error hb] at h; cases h
  | ok r =>
    obtain ⟨number, b⟩ := r
    rw [Activation.step_eq hb] at h
    by_cases hk : s.locals.knows b.localsId = true
    · cases hi : f.function.code[b.pc.toNat]? with
      | none => rw [Block.step_eq_beyond hk hi] at h; cases h
      | some i =>
        rw [Block.step_eq hk hi] at h
        cases hp : b.perform setup.config.mode f.function i (s.steps + 1)
          (s.fetch f.function i b.pc) with
        | error e s' => rw [hp] at h; cases h
        | ok t s' => rw [hp] at h; exact ⟨number, b, i, t, s', rfl, hi, hp, h⟩
    · rw [Block.step_eq_unknown (Bool.eq_false_iff.mpr hk)] at h
      cases h

end State

omit [Modulus p] in
theorem State.function?_of_eligible {setup : Setup} {index : UInt16} {args : List (Scalar p)}
    {f : Function} (h : State.eligible setup index args = .ok f) :
    setup.program.function? index = some f := by
  unfold State.eligible at h
  cases hf : setup.program.function? index with
  | none => rw [hf] at h; cases h
  | some g =>
    rw [hf] at h
    dsimp only at h
    split at h
    · cases h
    · cases h
      rfl

omit [Modulus p] in
theorem State.eligible_mem {setup : Setup} {index : UInt16} {args : List (Scalar p)} {f : Function}
    (h : State.eligible setup index args = .ok f) :
    f ∈ setup.program.functions :=
  Array.mem_of_getElem? (State.function?_of_eligible h)

/-- **The states between the instructions of an execution.** -/
inductive Reached [Recorder σ p] (setup : Setup) (index : UInt16) (args : List (Scalar p))
    (m₀ : State σ p) : State σ p → Prop
  | start {f : Function} {m : State σ p} (he : State.eligible setup index args = .ok f)
      (hm : State.start setup index f args m₀ = .ok () m) : Reached setup index args m₀ m
  | step {m m' : State σ p} (h : Reached setup index args m₀ m)
      (hm : State.step setup m = .ok false m') : Reached setup index args m₀ m'

/-- **How the instructions of an execution end**: with one that returns from the last function, with
one that fails, or for lack of fuel. -/
theorem Reached.loop_cases [Recorder σ p] {setup : Setup} {index : UInt16} {args : List (Scalar p)}
    {m₀ m : State σ p} (h : Reached setup index args m₀ m) (fuel : ℕ) :
    match State.loop setup fuel m with
    | .ok _ m' => ∃ m₁, Reached setup index args m₀ m₁ ∧ State.step setup m₁ = .ok true m'
    | .error e m' => (∃ m₁, Reached setup index args m₀ m₁ ∧ State.step setup m₁ = .error e m') ∨
        e = .outOfFuel ∧ Reached setup index args m₀ m' := by
  induction fuel generalizing m with
  | zero => exact .inr ⟨rfl, h⟩
  | succ fuel ih =>
    rw [State.loop]
    cases hs : State.step setup m with
    | error e m' => exact .inl ⟨m, h, hs⟩
    | ok done m' =>
      cases done with
      | true => exact ⟨m, h, hs⟩
      | false => exact ih (h.step hs)

theorem Reached.exists_run [Recorder σ p] {setup : Setup} {index : UInt16} {args : List (Scalar p)}
    {m₀ m : State σ p} (h : Reached setup index args m₀ m) :
    ∃ (k : Function) (used : ℕ), State.eligible setup index args = .ok k ∧
      ∀ fuel, State.run setup (used + fuel) index args m₀ =
        (do State.loop setup fuel; State.onStore (State.popResults k.returns []) :
          EStateM Halt (State σ p) (List (Value p))) m := by
  induction h with
  | @start k m he hm =>
    refine ⟨k, 0, he, fun fuel => ?_⟩
    simp only [State.run, he, bind, EStateM.bind, hm, Nat.zero_add]
  | @step m m' h hm ih =>
    obtain ⟨k, used, he, hrun⟩ := ih
    refine ⟨k, used + 1, he, fun fuel => ?_⟩
    have hloop : State.loop setup (fuel + 1) m = State.loop setup fuel m' := by
      rw [State.loop, hm]
    rw [Nat.add_assoc, Nat.add_comm 1 fuel, hrun (fuel + 1)]
    simp only [bind, EStateM.bind, hloop]

/-! ## Following an execution -/

/-- The state after a step that neither fails nor returns from the last function. -/
def State.next? [Recorder σ p] (setup : Setup) (m : State σ p) : Option (State σ p) :=
  match State.step setup m with
  | .ok false m' => some m'
  | _ => none

theorem State.next?_eq_some [Recorder σ p] {setup : Setup} {m m' : State σ p}
    (h : m.next? setup = some m') : State.step setup m = .ok false m' := by
  unfold State.next? at h
  split at h
  · rename_i heq
    cases h
    exact heq
  · cases h

/-- The state after a number of such steps, or where the execution ends, with what follows along. -/
def State.track [Recorder σ p] {γ : Type} (setup : Setup) (follow : State σ p → State σ p → γ → γ) :
    ℕ → State σ p × γ → State σ p × γ
  | 0, x => x
  | n + 1, (m, g) =>
    match m.next? setup with
    | none => (m, g)
    | some m' => track setup follow n (m', follow m m' g)

/-- **What every step keeps holds after any number of them.** -/
theorem State.track_keeps [Recorder σ p] {γ : Type} {setup : Setup}
    (follow : State σ p → State σ p → γ → γ) {P : State σ p → γ → Prop}
    (hstep : ∀ m m' g, P m g → State.step setup m = .ok false m' → P m' (follow m m' g))
    {m : State σ p} {g : γ} (h : P m g) (n : ℕ) :
    P (State.track setup follow n (m, g)).1 (State.track setup follow n (m, g)).2 := by
  induction n generalizing m g with
  | zero => exact h
  | succ n ih =>
    rw [State.track]
    cases hm : m.next? setup with
    | none => exact h
    | some m' => exact ih (hstep m m' g h (State.next?_eq_some hm))

/-- The state alone. -/
def State.walk [Recorder σ p] (setup : Setup) (n : ℕ) (m : State σ p) : State σ p :=
  (State.track setup (fun _ _ => id) n (m, ())).1

theorem Reached.walk [Recorder σ p] {setup : Setup} {index : UInt16} {args : List (Scalar p)}
    {m₀ m : State σ p} (h : Reached setup index args m₀ m) (n : ℕ) :
    Reached setup index args m₀ (m.walk setup n) :=
  State.track_keeps _ (P := fun m _ => Reached setup index args m₀ m) (fun _ _ _ h hm => h.step hm) h n

/-- Whether all states from a given one on pass a check, of which there are at most `fuel`. -/
def State.checks [Recorder σ p] (setup : Setup) (check : State σ p → Bool) : ℕ → State σ p → Bool
  | 0, _ => false
  | fuel + 1, m =>
    check m &&
      match State.step setup m with
      | .ok false m' => State.checks setup check fuel m'
      | _ => true

/-- **What holds of all states of an execution can be checked** by executing it. -/
theorem Reached.of_checks [Recorder σ p] {setup : Setup} {index : UInt16} {args : List (Scalar p)}
    {m₀ : State σ p} {check : State σ p → Bool} (fuel : ℕ)
    (hstart : ∀ f m, State.eligible setup index args = .ok f →
      State.start setup index f args m₀ = .ok () m → m.checks setup check fuel = true)
    {m : State σ p} (h : Reached setup index args m₀ m) : check m = true := by
  have hsome : ∃ n, m.checks setup check n = true := by
    induction h with
    | start he hm => exact ⟨fuel, hstart _ _ he hm⟩
    | @step m m' _ hm ih =>
      obtain ⟨_ | n, hn⟩ := ih
      · cases hn
      · rw [State.checks, hm, Bool.and_eq_true] at hn
        exact ⟨n, hn.2⟩
  obtain ⟨_ | n, hn⟩ := hsome
  · cases hn
  · rw [State.checks, Bool.and_eq_true] at hn
    exact hn.1

end StackCircuit.Machine
