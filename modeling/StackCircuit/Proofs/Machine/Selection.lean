import Mathlib.Logic.Relation
import StackCircuit.Proofs.Bytecode.Selection
import StackCircuit.Proofs.Machine.Echo
import StackCircuit.Proofs.Machine.Faultless
import StackCircuit.Proofs.Machine.Resumption

/-!
# Structured code chooses between bodies

Structured code is executed as it reads: a conditional pops its condition and executes one of two
bodies, and then what follows it. That execution knows no jumps, no positions to go to and no frames;
calls are nested executions. A machine that computes a witness does the same.

* `Selection.exec`, `Selection.call`, **`Selection.run`**: the execution of bodies.
* `Realises`: a machine makes steps to an end that fits to that of such an execution.
* `realises_test`, `realises_perform`: the steps of a conditional and of other instructions.
* **`realises_exec`**, `realises_call`: the induction on bodies, and on the calls that fit.
* **`run_structured`**: the machine and the execution of bodies end in the same way.
-/

namespace StackCircuit.Machine

open Bytecode (Body Function Instruction Program Reads)
open Circuit (Recorder System)

variable {σ : Type} {p : ℕ} {α β : Type}

/-! ## The execution of bodies -/

namespace Selection

/-- How the execution of a body ends. -/
inductive Ending where
  | through | returned
deriving DecidableEq, Repr

/-- Gives the locals back if what follows fails. -/
def releasing (id : ℕ) (x : EStateM Halt (Store σ p) α) : EStateM Halt (Store σ p) α := fun s =>
  match x s with
  | .ok a s => .ok a s
  | .error e s =>
    match Store.releaseLocals id s with
    | .ok _ s => .error e s
    | .error e s => .error e s

/-- Takes locals for a function and pops its parameters, if there is room for another call. -/
def enter (m : Program) (room : ℕ) (index : UInt16) : EStateM Halt (Store σ p) (Function × ℕ) := do
  match m.function? index with
  | none => Store.fail (State.unknownFunction index)
  | some f => do
    let id ← Store.allocLocals f.locals
    releasing id do
      State.popParams id f.params.length
      if room = 0 then Store.fail (.because .stackOverflow "call stack")
    return (f, id)

variable [Modulus p]

/-- Pops a condition; tells whether it has a given value. -/
def test (f : Function) (onTrue : Bool) : EStateM Halt (Store σ p) Bool := do
  let cond ← Store.pop
  match cond.value? with
  | some x => return x = .ofBool onTrue
  | none => Store.fail (.because .valueConversionError s!"unknown branch condition in {f.name}")

variable [Recorder σ p]

/-- An instruction that does not jump: it is counted, noted and performed. -/
def perform (f : Function) (id pc : ℕ) (i : Instruction) :
    EStateM Halt (Store σ p) (Transition p) := do
  let step ← Store.nextStep
  Store.note (.execute f.name i (UInt16.ofNat pc) step)
  (Block.body id (UInt16.ofNat pc)).perform .witness f i step

/-- **A body of a function.** A conditional executes the first or the second of its bodies, and then
what follows it. -/
def exec (call : UInt16 → EStateM Halt (Store σ p) Unit) (f : Function) (id : ℕ) :
    Body → EStateM Halt (Store σ p) Ending
  | .done => return .through
  | .plain pc i rest => do
    match ← perform f id pc i with
    | .exit .ret => return .returned
    | .exit (.call index) => do
      call index
      exec call f id rest
    | _ => exec call f id rest
  | .choice onTrue first second rest => do
    let chosen ← test f onTrue
    let ending ← (if chosen then exec call f id first else exec call f id second)
    match ending with
    | .returned => return .returned
    | .through => exec call f id rest

/-- The body of a function with given locals, which are given back when it returns. -/
def activate (call : UInt16 → EStateM Halt (Store σ p) Unit) (f : Function) (id : ℕ) (body : Body) :
    EStateM Halt (Store σ p) Unit := do
  match ← exec call f id body with
  | .returned => Store.releaseLocals id
  | .through => Store.fail (.because .outOfBounds s!"end of function {f.name}")

/-- **A call**, if there is room for a number of calls inside each other. -/
def call (m : Program) (bodies : UInt16 → Body) :
    (room : ℕ) → UInt16 → EStateM Halt (Store σ p) Unit
  | 0, index => do
    let _ ← enter m 0 index
  | room + 1, index => do
    let (f, id) ← enter m (room + 1) index
    activate (call m bodies room) f id (bodies index)

/-- Takes the locals of a function on an empty stack, and binds its parameters to wires. -/
def start (setup : Setup) (f : Function) (args : List (Scalar p)) :
    EStateM Halt (Store σ p) ℕ := do
  modify fun s => .initial s.ledger (Config.capacityOf setup.config.evalSize)
  let id ← Store.allocLocals f.locals
  State.allocInputs id 0 (State.inputs setup.config.mode f args)
  return id

/-- How many calls fit into each other besides the function that a run executes. -/
def room (setup : Setup) : ℕ := Config.capacityOf setup.config.callSize - 1

/-- **Executes a function whose code is read as a body**, and gives the values it returns. -/
def run (setup : Setup) (bodies : UInt16 → Body) (index : UInt16) (args : List (Scalar p)) :
    EStateM Halt (Store σ p) (List (Value p)) := do
  match State.eligible setup index args with
  | .error e => Store.fail e
  | .ok f => do
    let id ← start setup f args
    activate (call setup.program bodies (room setup)) f id (bodies index)
    State.popResults f.returns []

end Selection

/-! ## Realising an execution -/

section Realising

variable [Modulus p] {setup : Setup} {m m' : State (System p) p}

/-- A machine makes steps. -/
abbrev State.Steps (setup : Setup) : State (System p) p → State (System p) p → Prop :=
  Relation.ReflTransGen fun m m' => State.step setup m = .ok false m'

/-- **A machine realises how an execution of bodies ends**: after a result its own state fits to it, and
after a failure it fails with the same status. -/
def Realises (setup : Setup) (Q : α → Store (System p) p → State (System p) p → Prop)
    (m : State (System p) p) : EStateM.Result Halt (Store (System p) p) α → Prop
  | .ok a s => ∃ m', State.Steps setup m m' ∧ Q a s m'
  | .error e s => ∃ e' m₁ m', State.Steps setup m m₁ ∧ State.step setup m₁ = .error e' m' ∧
      e'.Same e ∧ m'.store.Echoes s

variable {Q : α → Store (System p) p → State (System p) p → Prop}
  {W : β → Store (System p) p → State (System p) p → Prop}

theorem Realises.of_steps {r : EStateM.Result Halt (Store (System p) p) α}
    (hm : State.Steps setup m m') (h : Realises setup Q m' r) : Realises setup Q m r := by
  cases r with
  | ok a s =>
    obtain ⟨m₁, hm₁, hQ⟩ := h
    exact ⟨m₁, hm.trans hm₁, hQ⟩
  | error e s =>
    obtain ⟨e', m₁, m₂, hm₁, hrest⟩ := h
    exact ⟨e', m₁, m₂, hm.trans hm₁, hrest⟩

theorem Realises.continue {r : EStateM.Result Halt (Store (System p) p) α}
    {Q' : α → Store (System p) p → State (System p) p → Prop} (h : Realises setup Q m r)
    (hQ : ∀ a t m', State.Steps setup m m' → Q a t m' → ∃ m'', State.Steps setup m' m'' ∧ Q' a t m'') :
    Realises setup Q' m r := by
  cases r with
  | ok a t =>
    obtain ⟨m₁, hm₁, h⟩ := h
    obtain ⟨m₂, hm₂, hQ'⟩ := hQ a t m₁ hm₁ h
    exact ⟨m₂, hm₁.trans hm₂, hQ'⟩
  | error e t => exact h

/-- **One execution after another.** -/
theorem Realises.bind {x : EStateM Halt (Store (System p) p) α}
    {f : α → EStateM Halt (Store (System p) p) β} {s : Store (System p) p}
    (hx : Realises setup Q m (x s))
    (hf : ∀ a t m', State.Steps setup m m' → Q a t m' → Realises setup W m' (f a t)) :
    Realises setup W m ((x >>= f) s) := by
  simp only [Bind.bind, EStateM.bind]
  cases hs : x s with
  | ok a t =>
    rw [hs] at hx
    obtain ⟨m₁, hm₁, hQ⟩ := hx
    exact (hf a t m₁ hm₁ hQ).of_steps hm₁
  | error e t =>
    rw [hs] at hx
    exact hx

theorem Reached.steps {index : UInt16} {args : List (Scalar p)} {m₀ : State (System p) p}
    (h : Reached setup index args m₀ m) (hm : State.Steps setup m m') :
    Reached setup index args m₀ m' := by
  induction hm with
  | refl => exact h
  | tail _ hstep ih => exact ih.step hstep

end Realising

/-! ## Instructions -/

section Instructions

variable [Modulus p] {setup : Setup} {index start : UInt16} {args : List (Scalar p)}
  {m₀ : State (System p) p} {f : Function} {id q room : ℕ} {fs : List Frame} {i : Instruction}
  {s s' : Store (System p) p}

/-- The machine at a position of a function. -/
def State.atPosition (index : UInt16) (f : Function) (id : ℕ) (fs : List Frame) (room q : ℕ)
    (s : Store (System p) p) : State (System p) p :=
  ⟨s, ⟨.flat index f id (UInt16.ofNat q) :: fs, some room⟩⟩

omit [Modulus p] in
theorem Store.Echoes.fetch (h : s.Echoes s') (f : Function) (i : Instruction) (pc : UInt16) :
    (s.fetch f i pc).Echoes (s'.fetch f i pc) :=
  ⟨h.ledger.note rfl, h.stack, h.locals⟩

omit [Modulus p] in
theorem Store.Echoes.fetchJump (h : s.Echoes s') (hi : i.opcode.isJump = true) (f : Function)
    (pc : UInt16) : (s.fetch f i pc).Echoes s' := by
  refine ⟨h.ledger.noteLeft ?_, h.stack, h.locals⟩
  rw [Event.executed?, if_pos hi]

omit [Modulus p] in
theorem Store.Echoes.noted (h : s.Echoes s') (frame : Frame) (e : Halt) :
    (State.noted frame e s).Echoes s' := by
  cases e with
  | failure e => exact ⟨h.ledger.noteLeft rfl, h.stack, h.locals⟩
  | fault e => exact h
  | outOfFuel => exact h

theorem Selection.perform_eq (f : Function) (id pc : ℕ) (i : Instruction) (s : Store (System p) p) :
    Selection.perform f id pc i s = (Block.body id (UInt16.ofNat pc)).perform .witness f i (s.steps + 1)
      (s.fetch f i (UInt16.ofNat pc)) := rfl

omit [Modulus p] in
theorem Block.advance_body (id q : ℕ) :
    (Block.body id (UInt16.ofNat q)).advance (p := p) = .goto (UInt16.ofNat (q + 1)) := by
  rw [UInt16.ofNat_add]
  rfl

theorem getElem?_toNat_ofNat (hsize : f.code.size ≤ 65535) (hi : f.code[q]? = some i) :
    f.code[(UInt16.ofNat q).toNat]? = some i := by
  have hlt := (Array.getElem?_eq_some_iff.mp hi).1
  have hq : (UInt16.ofNat q).toNat = q := UInt16.toNat_ofNat_of_lt (by change q < 65536; omega)
  rwa [hq]

theorem Reached.knows_atPosition
    (hr : Reached setup start args m₀ (.atPosition index f id fs room q s)) :
    s.locals.knows id = true :=
  hr.knows rfl Frame.running_flat

variable (hmode : setup.config.mode = .witness) (hsize : f.code.size ≤ 65535) (hs : s.Echoes s')
  (hr : Reached setup start args m₀ (.atPosition index f id fs room q s))

include hmode hsize hs hr

/-- **A conditional** goes on at its first body or at the jump behind it. -/
theorem realises_test (hi : f.code[q]? = some i) (hop : i.opcode.isConditionalBranch = true) :
    Realises setup (fun chosen t m => ∃ s, s.Echoes t ∧ m = State.atPosition index f id fs room
        (if chosen then i.target.toNat else q + 1) s)
      (.atPosition index f id fs room q s) (Selection.test f (i.opcode = .brTrue) s') := by
  have hi' := getElem?_toNat_ofNat hsize hi
  have hk := hr.knows_atPosition
  have hjump : i.opcode.isJump = true := i.opcode.isJump_iff.mpr (.inl hop)
  have hfetch := hs.fetchJump hjump f (UInt16.ofNat q)
  have hp : (Block.body id (UInt16.ofNat q)).perform setup.config.mode f i (s.steps + 1)
      (s.fetch f i (UInt16.ofNat q)) = _ :=
    Block.perform_conditional hop
  unfold Block.branchOn at hp
  simp only [Bind.bind, EStateM.bind] at hp
  simp only [Selection.test, Bind.bind, EStateM.bind]
  obtain ⟨v, t, v', t', hx, hx', rfl, ht⟩ | ⟨e, t, e', t', hx, hx', he, ht⟩ :=
    (echo_pop _ _ hfetch).split
  · rw [hx] at hp
    rw [hx']
    dsimp only at hp ⊢
    cases hv : v.value? with
    | none =>
      rw [hv, if_pos hmode] at hp
      exact ⟨_, _, _, .refl, State.step_flat_error hk hi' hp, rfl, ht.noted _ (.failure _)⟩
    | some x =>
      rw [hv] at hp
      by_cases hchosen : x = .ofBool (i.opcode = .brTrue)
      · simp only [if_pos hchosen] at hp
        refine ⟨_, .single (State.step_flat_goto hk hi' hp), t, ht, ?_⟩
        rw [decide_eq_true hchosen, if_pos rfl, State.atPosition, UInt16.ofNat_toNat]
      · simp only [if_neg hchosen] at hp
        rw [Block.advance_body] at hp
        refine ⟨_, .single (State.step_flat_goto hk hi' hp), t, ht, ?_⟩
        rw [decide_eq_false hchosen, if_neg Bool.false_ne_true]
        rfl
  · rw [hx] at hp
    rw [hx']
    exact ⟨_, _, _, .refl, State.step_flat_error hk hi' hp, he, ht.noted _ _⟩

omit hmode in
/-- **A jump** goes to its target. -/
theorem steps_branch (hi : f.code[q]? = some i) (hop : i.opcode = .branch) :
    ∃ t, State.Steps setup (.atPosition index f id fs room q s)
      (.atPosition index f id fs room i.target.toNat t) ∧ t.Echoes s' := by
  have hi' := getElem?_toNat_ofNat hsize hi
  have hp : (Block.body id (UInt16.ofNat q)).perform setup.config.mode f i (s.steps + 1)
      (s.fetch f i (UInt16.ofNat q)) = .ok (.goto i.target) (s.fetch f i (UInt16.ofNat q)) := by
    simp only [Block.perform, hop]
    rfl
  have hstep : State.step setup (.atPosition index f id fs room q s) =
      .ok false (.atPosition index f id fs room i.target.toNat (s.fetch f i (UInt16.ofNat q))) := by
    unfold State.atPosition
    rw [UInt16.ofNat_toNat]
    exact State.step_flat_goto hr.knows_atPosition hi' hp
  exact ⟨_, .single hstep, hs.fetchJump (by rw [hop]; rfl) f (UInt16.ofNat q)⟩

/-- Where the machine is after an instruction that does not jump. -/
inductive Selection.Performed (setup : Setup) (index : UInt16) (f : Function) (id : ℕ) (fs : List Frame)
    (room q : ℕ) (i : Instruction) : Transition p → Store (System p) p → State (System p) p → Prop
  | next {s t : Store (System p) p} (hs : s.Echoes t) :
    Selection.Performed setup index f id fs room q i (.goto (UInt16.ofNat (q + 1))) t
      (.atPosition index f id fs room (q + 1) s)
  -- The step that returns is about to follow.
  | ret {s t : Store (System p) p} {m : State (System p) p} {pc : UInt16} (hs : s.Echoes t)
      (hm : State.step setup m = State.ret ⟨s, ⟨.flat index f id pc :: fs, some room⟩⟩) :
    Selection.Performed setup index f id fs room q i (.exit .ret) t m
  -- And so is the one that calls.
  | call {s t : Store (System p) p} {m : State (System p) p} (hs : s.Echoes t)
      (hm : State.step setup m = (do State.call setup i.index; return false :
        EStateM Halt (State (System p) p) Bool) (.atPosition index f id fs room q s)) :
    Selection.Performed setup index f id fs room q i (.exit (.call i.index)) t m

/-- **An instruction that does not jump.** -/
theorem realises_perform (hi : f.code[q]? = some i) (hop : i.opcode.isJump = false) :
    Realises setup (Selection.Performed setup index f id fs room q i)
      (.atPosition index f id fs room q s) (Selection.perform f id q i s') := by
  have hi' := getElem?_toNat_ofNat hsize hi
  have hk := hr.knows_atPosition
  have hecho := echo_perform .witness f (Block.body id (UInt16.ofNat q)) hop (s.steps + 1)
    (s'.steps + 1) _ _ (hs.fetch f i (UInt16.ofNat q))
  rw [Selection.perform_eq]
  obtain ⟨t, u, t', u', hx, hx', rfl, hu⟩ | ⟨e, u, e', u', hx, hx', he, hu⟩ := hecho.split
  · rw [hx']
    rw [← hmode] at hx
    have hstep : State.step setup (.atPosition index f id fs room q s) = _ :=
      State.step_flat_perform hk hi' hx
    cases Block.perform_leads hx with
    | ret => exact ⟨_, .refl, .ret hu hstep⟩
    | call => exact ⟨_, .refl, .call hu hstep⟩
    | advance =>
      rw [Block.advance_body] at hx ⊢
      exact ⟨_, .single (State.step_flat_goto hk hi' hx), .next hu⟩
    | goto hjump => rw [hop] at hjump; cases hjump
    | enter hcond => rw [i.opcode.isJump_iff.mpr (.inl hcond)] at hop; cases hop
  · rw [hx']
    rw [← hmode] at hx
    exact ⟨_, _, _, .refl, State.step_flat_error hk hi' hx, he, hu.noted _ _⟩

end Instructions

/-! ## Bodies -/

section Bodies

variable [Modulus p] {setup : Setup} {index start : UInt16} {args : List (Scalar p)}
  {m₀ : State (System p) p} {f : Function} {id q room : ℕ} {fs : List Frame}
  {s s' : Store (System p) p}

/-- Where the machine is when the execution of a body has ended. -/
inductive Selection.Ended (setup : Setup) (index : UInt16) (f : Function) (id : ℕ) (fs : List Frame)
    (room q : ℕ) : Selection.Ending → Store (System p) p → State (System p) p → Prop
  | through {s t : Store (System p) p} (hs : s.Echoes t) :
    Selection.Ended setup index f id fs room q .through t (.atPosition index f id fs room q s)
  -- The step that returns is about to follow.
  | returned {s t : Store (System p) p} {m : State (System p) p} {pc : UInt16} (hs : s.Echoes t)
      (hm : State.step setup m = State.ret ⟨s, ⟨.flat index f id pc :: fs, some room⟩⟩) :
    Selection.Ended setup index f id fs room q .returned t m

/-- **Calls that a machine realises**, wherever they are made: the machine goes on behind them. -/
def RealisesCalls (setup : Setup) (start : UInt16) (args : List (Scalar p)) (m₀ : State (System p) p)
    (room : ℕ) (call : UInt16 → EStateM Halt (Store (System p) p) Unit) : Prop :=
  ∀ {index : UInt16} {f : Function} {id q : ℕ} {fs : List Frame} {callee : UInt16}
    {s s' : Store (System p) p} {m : State (System p) p}, s.Echoes s' →
    Reached setup start args m₀ m →
    State.step setup m = (do State.call setup callee; return false :
      EStateM Halt (State (System p) p) Bool) (.atPosition index f id fs room q s) →
    Realises setup (fun _ t m => ∃ s, s.Echoes t ∧ m = .atPosition index f id fs room (q + 1) s) m
      (call callee s')

/-- **A body is executed by the machine.** -/
theorem realises_exec (hmode : setup.config.mode = .witness) (hsize : f.code.size ≤ 65535)
    {call : UInt16 → EStateM Halt (Store (System p) p) Unit}
    (hcall : RealisesCalls setup start args m₀ room call) {code : List Instruction} {body : Body}
    (h : Reads q code body) (hcode : f.HasCode q code) (hs : s.Echoes s')
    (hr : Reached setup start args m₀ (.atPosition index f id fs room q s)) :
    Realises setup (Selection.Ended setup index f id fs room (q + code.length))
      (.atPosition index f id fs room q s) (Selection.exec call f id body s') := by
  induction h generalizing s s' with
  | done => exact ⟨_, .refl, .through hs⟩
  | @plain q i code rest hi _ ih =>
    rw [List.length_cons, Nat.add_comm code.length 1, ← Nat.add_assoc]
    refine (realises_perform hmode hsize hs hr hcode.head hi).bind fun t u m hm ht => ?_
    cases ht with
    | next hs => exact ih hcode.tail hs (hr.steps hm)
    | ret hs hstep => exact ⟨_, .refl, .returned hs hstep⟩
    | call hs hstep =>
      refine (hcall hs (hr.steps hm) hstep).bind fun _ u m' hm' hu => ?_
      obtain ⟨s, hs, rfl⟩ := hu
      exact ih hcode.tail hs ((hr.steps hm).steps hm')
  | @oneArmed q branch jump arm code first rest hbranch hstart hjump hjoin hne _ _ iharm ihrest =>
    have hlength : q + (branch :: jump :: (arm ++ code)).length =
        q + 2 + arm.length + code.length := by
      simp only [List.length_cons, List.length_append]
      omega
    rw [hlength]
    refine (realises_test hmode hsize hs hr hcode.head hbranch).bind fun chosen t m hm ht => ?_
    obtain ⟨s₁, hs₁, rfl⟩ := ht
    have hr₁ := hr.steps hm
    refine Realises.bind (Q := Selection.Ended setup index f id fs room (q + 2 + arm.length)) ?_
      fun ending u m' hm' hu => ?_
    · cases chosen with
      | true =>
        rw [if_pos rfl, hstart] at hr₁ ⊢
        exact iharm hcode.tail.tail.left hs₁ hr₁
      | false =>
        rw [if_neg Bool.false_ne_true] at hr₁ ⊢
        obtain ⟨s₂, hsteps, hs₂⟩ := steps_branch hsize hs₁ hr₁ hcode.tail.head hjump
        rw [hjoin] at hsteps
        exact ⟨_, hsteps, .through hs₂⟩
    · cases hu with
      | through hs => exact ihrest hcode.tail.tail.right hs (hr₁.steps hm')
      | returned hs hstep => exact ⟨_, .refl, .returned hs hstep⟩
  | @twoArmed q branch jump skip arm arm' code first second rest hbranch hstart hjump helse hskip hjoin
      hne _ hne' _ _ ihfirst ihsecond ihrest =>
    have hlength : q + (branch :: jump :: (arm ++ skip :: (arm' ++ code))).length =
        q + 3 + arm.length + arm'.length + code.length := by
      simp only [List.length_cons, List.length_append]
      omega
    rw [hlength]
    have hend := hcode.tail.tail.right
    have hother : f.HasCode (q + 3 + arm.length) (arm' ++ code) := by
      have htail := hend.tail
      rwa [show q + 1 + 1 + arm.length + 1 = q + 3 + arm.length by omega] at htail
    refine (realises_test hmode hsize hs hr hcode.head hbranch).bind fun chosen t m hm ht => ?_
    obtain ⟨s₁, hs₁, rfl⟩ := ht
    have hr₁ := hr.steps hm
    refine Realises.bind (Q := Selection.Ended setup index f id fs room
      (q + 3 + arm.length + arm'.length)) ?_ fun ending u m' hm' hu => ?_
    · cases chosen with
      | true =>
        rw [if_pos rfl, hstart] at hr₁ ⊢
        refine (ihfirst hcode.tail.tail.left hs₁ hr₁).continue fun ending u m' hm' hu => ?_
        cases hu with
        | through hs =>
          obtain ⟨s₂, hsteps, hs₂⟩ := steps_branch hsize hs (hr₁.steps hm') hend.head hskip
          rw [hjoin] at hsteps
          exact ⟨_, hsteps, .through hs₂⟩
        | returned hs hstep => exact ⟨_, .refl, .returned hs hstep⟩
      | false =>
        rw [if_neg Bool.false_ne_true] at hr₁ ⊢
        obtain ⟨s₂, hsteps, hs₂⟩ := steps_branch hsize hs₁ hr₁ hcode.tail.head hjump
        rw [helse] at hsteps
        exact (ihsecond hother.left hs₂ (hr₁.steps hsteps)).of_steps hsteps
    · cases hu with
      | through hs => exact ihrest hother.right hs (hr₁.steps hm')
      | returned hs hstep => exact ⟨_, .refl, .returned hs hstep⟩

/-- What is left of the machine when the topmost function has returned: its caller goes on. -/
def State.resumed (fs : List Frame) (room : ℕ) (s : Store (System p) p) :
    EStateM.Result Halt (State (System p) p) Bool :=
  match State.onTop Activation.advance ⟨s, ⟨fs, some (room + 1)⟩⟩ with
  | .ok a m => .ok a.isNone m
  | .error e m => .error e m

/-- **The body of a function is executed by the machine**, and the step that returns is about to
follow. -/
theorem realises_activate (hmode : setup.config.mode = .witness)
    {call : UInt16 → EStateM Halt (Store (System p) p) Unit}
    (hcall : RealisesCalls setup start args m₀ room call) {body : Body} (hsize : f.code.size ≤ 65535)
    (h : Reads 0 f.code.toList body) (hs : s.Echoes s')
    (hr : Reached setup start args m₀ (.atPosition index f id fs room 0 s)) :
    Realises setup (fun _ t m => ∃ s, s.Echoes t ∧ State.step setup m = State.resumed fs room s)
      (.atPosition index f id fs room 0 s) (Selection.activate call f id body s') := by
  have hcode : f.HasCode 0 f.code.toList := fun k _ => by rw [Nat.zero_add, Array.getElem?_toList]
  refine (realises_exec hmode hsize hcall h hcode hs hr).bind fun ending t m hm ht => ?_
  cases ht with
  | @through s _ hs =>
    rw [Nat.zero_add, Array.length_toList] at hm ⊢
    have hk : s.locals.knows id = true := (hr.steps hm).knows_atPosition
    have hq : (UInt16.ofNat f.code.size).toNat = f.code.size :=
      UInt16.toNat_ofNat_of_lt (by change f.code.size < 65536; omega)
    have hbeyond : f.code[(Block.body id (UInt16.ofNat f.code.size)).pc.toNat]? = none := by
      change f.code[(UInt16.ofNat f.code.size).toNat]? = none
      rw [hq]
      exact Array.getElem?_eq_none (Nat.le_refl _)
    have hstep : State.step setup (.atPosition index f id fs room f.code.size s) = _ := State.step_flat
    rw [Block.step_eq_beyond hk hbeyond] at hstep
    exact ⟨_, _, _, .refl, hstep, rfl, hs.noted _ (.failure _)⟩
  | @returned s t m pc hs hstep =>
    rw [State.ret_flat] at hstep
    change Realises setup _ m (Store.releaseLocals id t)
    obtain ⟨u, v, u', v', hx, hx', -, hv⟩ | ⟨e, v, e', v', hx, hx', he, hv⟩ :=
      ((onValues_releaseLocals id).echo _ _ hs).split
    · rw [hx']
      rw [hx] at hstep
      refine ⟨_, .refl, v, hv, hstep.trans ?_⟩
      unfold State.resumed
      dsimp only [Option.map]
      cases State.onTop Activation.advance ⟨v, ⟨fs, some (room + 1)⟩⟩ <;> rfl
    · rw [hx']
      rw [hx] at hstep
      exact ⟨_, _, _, .refl, hstep, he, hv⟩

end Bodies

/-! ## Calls -/

section Calls

variable [Modulus p] {setup : Setup} {start : UInt16} {args : List (Scalar p)}
  {m₀ : State (System p) p} {bodies : UInt16 → Body}

/-- A store beside that of a machine with given frames. -/
def State.Beside (frames : BoundedStack Frame) (m : State (System p) p) (s : Store (System p) p) :
    Prop :=
  m.store.Echoes s ∧ m.frames = frames

omit [Modulus p] in
theorem agree_onStore_beside {x x' : EStateM Halt (Store (System p) p) α} (hx : Echo x x')
    (frames : BoundedStack Frame) :
    Agree (State.Beside frames) (State.onStore x) x'
      (fun a a' m s => a = a' ∧ m.Beside frames s) fun e e' m s => e.Same e' ∧ m.Beside frames s := by
  rintro ⟨s, _⟩ s' ⟨hs, rfl⟩
  dsimp only [State.onStore]
  obtain ⟨a, t, a', t', h, h', ha, ht⟩ | ⟨e, t, e', t', h, h', he, ht⟩ := (hx s s' hs).split
  · rw [h, h']
    exact ⟨ha, ht, rfl⟩
  · rw [h, h']
    exact ⟨he, ht, rfl⟩

omit [Modulus p] in
theorem agree_releasing_beside {frames : BoundedStack Frame} {x : EStateM Halt (State (System p) p) α}
    {x' : EStateM Halt (Store (System p) p) β} (id : ℕ)
    {Q : α → β → State (System p) p → Store (System p) p → Prop}
    (hx : Agree (State.Beside frames) x x' Q fun e e' m s => e.Same e' ∧ m.Beside frames s) :
    Agree (State.Beside frames) (State.releasing id x) (Selection.releasing id x') Q
      fun e e' m s => e.Same e' ∧ m.Beside frames s := by
  intro m s hm
  unfold State.releasing Selection.releasing
  obtain ⟨a, t, a', t', h, h', ht⟩ | ⟨e, t, e', t', h, h', he, ht⟩ := (hx m s hm).split
  · rw [h, h']
    exact ht
  · rw [h, h']
    dsimp only
    obtain ⟨u, r, u', r', h, h', -, hr⟩ | ⟨e, r, e', r', h, h', he, hr⟩ :=
      (agree_onStore_beside (onValues_releaseLocals id).echo frames t t' ht).split
    · rw [h, h']
      exact ⟨he, hr⟩
    · rw [h, h']
      exact ⟨he, hr⟩

omit [Modulus p] in
/-- **The machine enters a function.** -/
theorem agree_enter (index : UInt16) (fs : List Frame) (room : ℕ) :
    Agree (State.Beside (p := p) ⟨fs, some room⟩) (State.call setup index)
      (Selection.enter setup.program room index)
      (fun _ r m s => setup.program.function? index = some r.1 ∧
        ∃ k, room = k + 1 ∧ m.Beside ⟨.ofFunction index r.1 r.2 :: fs, some k⟩ s)
      fun e e' m s => e.Same e' ∧ m.store.Echoes s := by
  unfold State.call Selection.enter
  cases hf : setup.program.function? index with
  | none => exact fun m s hm => ⟨rfl, hm.1⟩
  | some f =>
    have hstore : ∀ (e e' : Halt) (m : State (System p) p) (s : Store (System p) p),
        e.Same e' ∧ m.Beside ⟨fs, some room⟩ s → e.Same e' ∧ m.store.Echoes s :=
      fun _ _ _ _ h => ⟨h.1, h.2.1⟩
    refine ((agree_onStore_beside (onValues_allocLocals f.locals).echo _).weaken hstore).bind fun id id' => ?_
    rintro m s ⟨rfl, hm⟩
    have hpush : Agree (State.Beside (p := p) ⟨fs, some room⟩)
        (do
          State.onStore (State.popParams id f.params.length)
          State.pushFrame (.ofFunction index f id))
        (do
          State.popParams id f.params.length
          if room = 0 then Store.fail (.because .stackOverflow "call stack"))
        (fun _ _ m s => ∃ k, room = k + 1 ∧ m.Beside ⟨.ofFunction index f id :: fs, some k⟩ s)
        fun e e' m s => e.Same e' ∧ m.Beside ⟨fs, some room⟩ s := by
      refine (agree_onStore_beside (onValues_popParams id f.params.length).echo _).bind fun _ _ => ?_
      rintro ⟨t, _⟩ t' ⟨-, ht, rfl⟩
      cases room with
      | zero => exact ⟨rfl, ht, rfl⟩
      | succ k => exact ⟨k, rfl, ht, rfl⟩
    refine ((agree_releasing_beside id hpush).weaken hstore).bind (fun _ _ => ?_) m s hm
    rintro ⟨t, frames⟩ t' ⟨k, hk, ht, hframes⟩
    exact ⟨rfl, k, hk, ⟨ht.ledger.noteLeft rfl, ht.stack, ht.locals⟩, hframes⟩

theorem realises_enter {index callee : UInt16} {f : Function} {id q room : ℕ} {fs : List Frame}
    {s s' : Store (System p) p} {m : State (System p) p} (hs : s.Echoes s')
    (hstep : State.step setup m = (do State.call setup callee; return false :
      EStateM Halt (State (System p) p) Bool) (.atPosition index f id fs room q s)) :
    Realises setup (fun r t m' => setup.program.function? callee = some r.1 ∧
        ∃ k s, room = k + 1 ∧ s.Echoes t ∧
          m' = .atPosition callee r.1 r.2 (.flat index f id (UInt16.ofNat q) :: fs) k 0 s)
      m (Selection.enter setup.program room callee s') := by
  simp only [bind, EStateM.bind] at hstep
  obtain ⟨u, ⟨t, frames⟩, r, t', hx, hx', hr, k, hk, ht, rfl⟩ | ⟨e, t, e', t', hx, hx', he, ht⟩ :=
    (agree_enter callee (.flat index f id (UInt16.ofNat q) :: fs) room
      (.atPosition index f id fs room q s) s' ⟨hs, rfl⟩).split
  · rw [hx] at hstep
    rw [hx']
    exact ⟨_, .single hstep, hr, k, t, hk, ht, rfl⟩
  · rw [hx] at hstep
    rw [hx']
    exact ⟨e, m, t, .refl, hstep, he, ht⟩

omit [Modulus p] in
theorem State.resumed_flat (index : UInt16) (f : Function) (id q : ℕ) (fs : List Frame) (room : ℕ)
    (s : Store (System p) p) :
    State.resumed (.flat index f id (UInt16.ofNat q) :: fs) room s =
      .ok false (.atPosition index f id fs (room + 1) (q + 1) s) := by
  unfold State.resumed State.atPosition
  rw [State.resume_flat, UInt16.ofNat_add]
  rfl

/-- **Calls are realised**, by induction on how many fit into each other. -/
theorem realises_call (hmode : setup.config.mode = .witness) (hprog : setup.program.IsReadAs bodies)
    (room : ℕ) :
    RealisesCalls setup start args m₀ room (Selection.call setup.program bodies room) := by
  induction room with
  | zero =>
    intro index f id q fs callee s s' m hs hr hstep
    refine (realises_enter hs hstep).bind fun r t m' hm hm' => ?_
    obtain ⟨-, k, s, hk, -⟩ := hm'
    cases hk
  | succ room ih =>
    intro index f id q fs callee s s' m hs hr hstep
    refine (realises_enter hs hstep).bind fun r t m' hm hm' => ?_
    obtain ⟨hcallee, k, s, hk, hs, rfl⟩ := hm'
    cases hk
    obtain ⟨hsize, hbody⟩ := hprog callee r.1 hcallee
    refine (realises_activate hmode ih hsize hbody hs (hr.steps hm)).continue fun _ u m' hm' hu => ?_
    obtain ⟨s, hs, hstep⟩ := hu
    rw [State.resumed_flat] at hstep
    exact ⟨_, .single hstep, s, hs, rfl⟩

end Calls

/-! ## Runs -/

section Runs

variable [Modulus p] {setup : Setup} {bodies : UInt16 → Body}

/-- **Ends that are the same**: the same values, or failures with the same status, and stores that are
the same up to the numbers of steps. -/
def EndsAlike : EStateM.Result Halt (State (System p) p) (List (Value p)) →
    EStateM.Result Halt (Store (System p) p) (List (Value p)) → Prop
  | .ok values m, .ok values' s => values = values' ∧ m.store.Echoes s
  | .error (.failure e) m, .error (.failure e') s => e.status? = e'.status? ∧ m.store.Echoes s
  | _, _ => False

omit [Modulus p] in
theorem endsAlike_of_same {e e' : Halt} {m : State (System p) p} {s : Store (System p) p}
    {blame : Prop} (he : e.IsFailure blame) (hsame : e.Same e') (hs : m.store.Echoes s) :
    EndsAlike (.error e m) (.error e' s) := by
  cases e with
  | failure e =>
    cases e' with
    | failure e' => exact ⟨hsame, hs⟩
    | fault c => cases hsame
    | outOfFuel => cases hsame
  | fault c => exact he.elim
  | outOfFuel => exact he.elim

omit [Modulus p] in
theorem endsAlike_popResults {m : State (System p) p} {s : Store (System p) p} (hs : m.store.Echoes s)
    (n : ℕ) : EndsAlike (State.onStore (State.popResults n []) m) (State.popResults n [] s) := by
  have hsound := (safe_popResults False n []).sound (s := m.store) trivial
  dsimp only [State.onStore]
  obtain ⟨values, t, values', t', hx, hx', hv, ht⟩ | ⟨e, t, e', t', hx, hx', he, ht⟩ :=
    ((onValues_popResults n []).echo _ _ hs).split
  · rw [hx, hx']
    exact ⟨hv, ht⟩
  · rw [hx] at hsound ⊢
    rw [hx']
    exact endsAlike_of_same hsound.1 he ht

omit [Modulus p] in
theorem agree_start (setup : Setup) (index : UInt16) (f : Function) (args : List (Scalar p))
    (m₀ : State (System p) p) :
    SameEnd (fun _ id m s => ∃ t, t.Echoes s ∧
        m = .atPosition index f id [] (Selection.room setup) 0 t)
      (fun e e' m s => e.Same e' ∧ m.store.Echoes s)
      (State.start setup index f args m₀) (Selection.start setup f args m₀.store) := by
  let s₁ : Store (System p) p :=
    { Store.initial m₀.store.ledger (Config.capacityOf setup.config.evalSize) with
      locals := (LocalsTable.empty.alloc f.locals).2 }
  have hstart : State.start setup index f args m₀ = (do
      State.onStore (State.allocInputs 0 0 (State.inputs setup.config.mode f args))
      State.pushFrame (.ofFunction index f 0)
      State.onStore (Store.note (.run f.name setup.config.mode)) :
        EStateM Halt (State (System p) p) Unit) ⟨s₁, State.noFrames setup.config⟩ := rfl
  have hstart' : Selection.start setup f args m₀.store = (do
      State.allocInputs 0 0 (State.inputs setup.config.mode f args)
      return 0 : EStateM Halt (Store (System p) p) ℕ) s₁ := rfl
  rw [hstart, hstart']
  simp only [bind, EStateM.bind, State.onStore]
  cases State.allocInputs 0 0 (State.inputs setup.config.mode f args) s₁ with
  | error e s => exact ⟨.refl e, .refl s⟩
  | ok u s =>
    simp only [State.pushFrame, push_noFrames_eq]
    refine ⟨_, ?_, rfl⟩
    exact ⟨(Store.Echoes.refl s).ledger.noteLeft rfl, rfl, rfl⟩

/-- **A run of a function ends like the execution of its body.** -/
theorem run_endsAlike (hmode : setup.config.mode = .witness) (hprog : setup.program.IsReadAs bodies)
    {index : UInt16} {args : List (Scalar p)} {f : Function} {m₀ : State (System p) p}
    (he : State.eligible setup index args = .ok f) :
    ∃ limit, ∀ fuel ≥ limit,
      EndsAlike (State.run setup fuel index args m₀)
        (Selection.run setup bodies index args m₀.store) := by
  obtain ⟨hsize, hbody⟩ := hprog index f (State.function?_of_eligible he)
  obtain ⟨u, m, id, s', hx, hx', s, hs, rfl⟩ | ⟨e, m, e', s', hx, -⟩ :=
    (agree_start setup index f args m₀).split
  · have hr := Reached.start he hx
    have hreal := realises_activate hmode (realises_call hmode hprog _) hsize hbody hs hr
    simp only [Selection.run, he, bind, EStateM.bind, hx']
    cases hy : Selection.activate (Selection.call setup.program bodies (Selection.room setup)) f id
        (bodies index) s' with
    | ok u t =>
      rw [hy] at hreal
      obtain ⟨m₁, hsteps, s₁, hs₁, hstep⟩ := hreal
      obtain ⟨k, limit, hk, hreturns⟩ := (hr.steps hsteps).returns hstep
      cases he.symm.trans hk
      refine ⟨limit, fun fuel hfuel => ?_⟩
      rw [hreturns fuel hfuel]
      exact endsAlike_popResults hs₁ f.returns
    | error e t =>
      rw [hy] at hreal
      obtain ⟨e', m₁, m', hsteps, hstep, hsame, ht⟩ := hreal
      obtain ⟨limit, hfails⟩ := (hr.steps hsteps).fails hstep
      have hsound := (hr.steps hsteps).step_sound
      rw [hstep] at hsound
      refine ⟨limit, fun fuel hfuel => ?_⟩
      rw [hfails fuel hfuel]
      exact endsAlike_of_same hsound.1 hsame ht
  · obtain ⟨m', hstart, -⟩ := State.start_eq he m₀
    rw [hx] at hstart
    cases hstart

/-- **Structured code is executed as it reads.** The functions of a structured program can be read as
bodies, in one way. A machine that computes a witness then ends like the execution of these bodies, as soon as it
has fuel for it: with the same values or with a failure of the same status, with the same values on the
stack and in the locals, with the same wires and constraints up to the numbers of steps in labels, and
after the same instructions, jumps apart. -/
theorem run_structured (hprog : setup.program.IsStructured) (hmode : setup.config.mode = .witness) :
    (∃ bodies, setup.program.IsReadAs bodies ∧ ∀ bodies', setup.program.IsReadAs bodies' →
        ∀ index f, setup.program.function? index = some f → bodies' index = bodies index) ∧
      ∀ bodies, setup.program.IsReadAs bodies →
        ∀ (index : UInt16) (args : List (Scalar p)) (m₀ : State (System p) p),
          ∃ limit, ∀ fuel ≥ limit, EndsAlike (State.run setup fuel index args m₀)
            (Selection.run setup bodies index args m₀.store) := by
  refine ⟨hprog.reading, fun bodies hbodies index args m₀ => ?_⟩
  cases he : State.eligible setup index args with
  | error e =>
    refine ⟨0, fun fuel _ => ?_⟩
    simp only [State.run, Selection.run, he]
    exact ⟨rfl, .refl m₀.store⟩
  | ok f => exact run_endsAlike hmode hbodies he

end Runs

/-! ## A conditional at the end of an arm -/

/-- A function that doubles one if its first parameter is true, and again unless its second one is;
otherwise it gives seven. -/
def doublingCode : List Instruction :=
  [.ofNat .ldU128 1, .ofNat .copyLoc 0, .ofNat .brTrue 4, .ofNat .branch 10, .ofNat .call 1,
    .ofNat .copyLoc 1, .ofNat .brFalse 8, .ofNat .branch 9, .ofNat .call 1, .ofNat .branch 12,
    .ofNat .pop 0, .ofNat .ldU128 7, .ofNat .ret 0]

/-- The body that this code is read as. -/
def doublingBody : Body :=
  .plain 0 (.ofNat .ldU128 1) <| .plain 1 (.ofNat .copyLoc 0) <| .choice true
    (.plain 4 (.ofNat .call 1) <| .plain 5 (.ofNat .copyLoc 1) <|
      .choice false (.plain 8 (.ofNat .call 1) .done) .done .done)
    (.plain 10 (.ofNat .pop 0) <| .plain 11 (.ofNat .ldU128 7) .done)
    (.plain 12 (.ofNat .ret 0) .done)

theorem reads_doublingCode : Reads 0 doublingCode doublingBody := by
  have hinner := @Reads.oneArmed 6 (.ofNat .brFalse 8) (.ofNat .branch 9) [.ofNat .call 1] [] _ _ rfl
    rfl rfl rfl (by simp) (.plain rfl .done) .done
  have houter := @Reads.twoArmed 2 (.ofNat .brTrue 4) (.ofNat .branch 10) (.ofNat .branch 12)
    [.ofNat .call 1, .ofNat .copyLoc 1, .ofNat .brFalse 8, .ofNat .branch 9, .ofNat .call 1]
    [.ofNat .pop 0, .ofNat .ldU128 7] [.ofNat .ret 0] _ _ _ rfl rfl rfl rfl rfl rfl (by simp)
    (.plain rfl (.plain rfl hinner)) (by simp) (.plain rfl (.plain rfl .done)) (.plain rfl .done)
  exact .plain rfl (.plain rfl houter)

/-- A function that adds its parameter to itself. -/
def doubleCode : List Instruction :=
  [.ofNat .copyLoc 0, .ofNat .moveLoc 0, .ofNat .add 0, .ofNat .ret 0]

/-- The body of it. -/
def doubleBody : Body :=
  .plain 0 (.ofNat .copyLoc 0) <| .plain 1 (.ofNat .moveLoc 0) <| .plain 2 (.ofNat .add 0) <|
    .plain 3 (.ofNat .ret 0) .done

theorem reads_doubleCode : Reads 0 doubleCode doubleBody :=
  .plain rfl (.plain rfl (.plain rfl (.plain rfl .done)))

/-- The witness of a program of both. -/
def doubling : Setup :=
  ⟨⟨#[⟨"main", [.bool, .bool], 2, 1, doublingCode.toArray, le_rfl⟩,
    ⟨"double", [.u128], 1, 1, doubleCode.toArray, le_rfl⟩]⟩, .standard⟩

/-- The bodies of its functions. -/
def doublingBodies (index : UInt16) : Body := if index = 0 then doublingBody else doubleBody

theorem doubling_isReadAs : doubling.program.IsReadAs doublingBodies := by
  intro index f hf
  have hlt : index.toNat < 2 := (Array.getElem?_eq_some_iff.mp hf).1
  obtain hindex | hindex : index = 0 ∨ index = 1 := by
    rw [← UInt16.toNat_inj, ← UInt16.toNat_inj]
    change index.toNat = 0 ∨ index.toNat = 1
    omega
  · subst hindex
    cases hf
    exact ⟨by decide, reads_doublingCode⟩
  · subst hindex
    cases hf
    exact ⟨by decide, reads_doubleCode⟩

theorem doubling_isStructured : doubling.program.IsStructured := by
  intro f hf
  obtain rfl | rfl : f = _ ∨ f = _ := by simpa [doubling] using hf
  · exact ⟨by decide, reads_doublingCode.structured⟩
  · exact ⟨by decide, reads_doubleCode.structured⟩

/-- One is doubled twice where the first parameter is true and the second one is not. -/
theorem run_structured_doubling :
    ∃ limit, ∀ fuel ≥ limit, ∃ (v : Value ScalarField.bn254.modulus)
      (m : State (System ScalarField.bn254.modulus) ScalarField.bn254.modulus),
      State.run doubling fuel 0 [1, 0] (.new doubling) = .ok [v] m ∧ v.value? = some 4 := by
  obtain ⟨-, hends⟩ := run_structured (p := ScalarField.bn254.modulus) doubling_isStructured rfl
  obtain ⟨limit, hends⟩ := hends doublingBodies doubling_isReadAs 0 [1, 0] (.new doubling)
  refine ⟨limit, fun fuel hfuel => ?_⟩
  have h := hends fuel hfuel
  have hvalues : (match Selection.run doubling doublingBodies 0 [1, 0]
      (State.new (p := ScalarField.bn254.modulus) doubling).store with
      | .ok values _ => values.map Value.value?
      | .error _ _ => []) = [some 4] := by
    decide +kernel
  cases hbody : Selection.run doubling doublingBodies 0 [1, 0]
      (State.new (p := ScalarField.bn254.modulus) doubling).store with
  | error e s => rw [hbody] at hvalues; cases hvalues
  | ok values s =>
    rw [hbody] at hvalues h
    obtain ⟨v, rfl, hv⟩ := List.map_eq_singleton_iff.mp hvalues
    cases hrun : State.run doubling fuel 0 [(1 : BnScalar), 0] (.new doubling) with
    | error e m =>
      rw [hrun] at h
      cases e <;> exact h.elim
    | ok values m =>
      rw [hrun] at h
      obtain ⟨rfl, -⟩ := h
      exact ⟨v, m, rfl, hv⟩

end StackCircuit.Machine
