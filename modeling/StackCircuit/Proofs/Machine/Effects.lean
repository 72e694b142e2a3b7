import StackCircuit.Proofs.Machine.Step

/-!
# The effects of instructions

All instructions but gates are made of a few effects on the store. How these end, instructions end,
and what they keep, instructions keep, and so do calls.

* `Gate.ofOpcode?`: the gate that an operation applies.
* `Parts id I E V`: the parts of instructions end as `I`, `E` and `V` say.
* **`Parts.perform`**: so do instructions, if their gates and undefined operations do.
* **`Effects I V`**: an invariant `I` that all effects keep, where `V` holds of the values they give.
* **`Effects.perform`**: instructions keep it; `Effects.call`: so do calls; `Effects.depart`: so does
  the passing of control between frames.
* `Effects.of_indifferent`: what depends neither on the stack nor on the locals is such an invariant.
-/

namespace StackCircuit

/-- The gate that an operation applies. -/
def Gate.ofOpcode? : Bytecode.Opcode → Option Gate
  | .add => some .add
  | .sub => some .sub
  | .mul => some .mul
  | .eq => some .eq
  | _ => none

namespace Machine

open Bytecode (Function Instruction)
open Circuit (Recorder)

variable {σ : Type} {p : ℕ} {α : Type} {I : Store σ p → Prop}

/-! ## Machines -/

section Control

variable {V : α → Prop}

/-- A property of the store of a machine. -/
def State.Has (I : Store σ p → Prop) (m : State σ p) : Prop := I m.store

theorem Keeps.onMachineStore {x : EStateM Halt (Store σ p) α} (hx : Keeps I x V) :
    Keeps (State.Has I) (State.onStore x) V := by
  rintro ⟨store, frames⟩ hs
  have h := hx store hs
  simp only [State.onStore]
  cases hxs : x store with
  | ok a s' => rw [hxs] at h; exact h
  | error e s' => rw [hxs] at h; exact h

theorem Keeps.onTop {x : EStateM Halt (Activation σ p) α} (hx : Keeps (Activation.Has I) x V) :
    Keeps (State.Has I) (State.onTop x) fun a? => ∀ a, a? = some a → V a := by
  rintro ⟨store, frames⟩ hs
  simp only [State.onTop]
  cases frames.top? with
  | none => exact ⟨hs, by intro a h; cases h⟩
  | some frame =>
    have h := hx ⟨frame, store⟩ hs
    dsimp only
    cases hxs : x ⟨frame, store⟩ with
    | ok a s' =>
      rw [hxs] at h
      exact ⟨h.1, fun _ ha => Option.some.inj ha ▸ h.2⟩
    | error e s' => rw [hxs] at h; exact h

theorem Keeps.pushFrame (f : Frame) : Keeps (State.Has I) (State.pushFrame f) fun _ => True := by
  intro m hm
  unfold State.pushFrame
  cases m.frames.push f with
  | ok frames => exact ⟨hm, trivial⟩
  | error e => exact hm

theorem Keeps.popFrame : Keeps (State.Has I) State.popFrame fun _ => True := by
  intro m hm
  unfold State.popFrame
  cases m.frames.pop with
  | ok r => exact ⟨hm, trivial⟩
  | error e => exact hm

theorem Keeps.releasing {id : ℕ} {x : EStateM Halt (State σ p) α} (hx : Keeps (State.Has I) x V)
    (hr : Keeps I (Store.releaseLocals id) fun _ => True) :
    Keeps (State.Has I) (State.releasing id x) V := by
  intro m hm
  have h := hx m hm
  unfold State.releasing
  cases hxm : x m with
  | ok a m' => rw [hxm] at h; exact h
  | error e m' =>
    rw [hxm] at h
    have h' := Keeps.onMachineStore hr m' h
    dsimp only
    cases hr' : State.onStore (Store.releaseLocals id) m' with
    | ok a m'' => rw [hr'] at h'; exact h'.1
    | error e m'' => rw [hr'] at h'; exact h'

end Control

/-! ## Instructions -/

section Instructions

variable {id : ℕ} {E : Halt → Store σ p → Prop} {V : Value p → Prop}

/-- **How the parts of instructions end**: the effects of a block with given locals, and the failures
that are neither those of an effect nor those of a gate. -/
structure Parts (id : ℕ) (I : Store σ p → Prop) (E : Halt → Store σ p → Prop)
    (V : Value p → Prop) : Prop where
  push {v : Value p} : V v → Ends I E (Store.push v) fun _ => True
  pop : Ends I E Store.pop V
  copyLocal (j : ℕ) : Ends I E (Store.copyLocal id j) V
  moveLocal (j : ℕ) : Ends I E (Store.moveLocal id j) V
  storeLocal (j : ℕ) {v : Value p} : V v → Ends I E (Store.storeLocal id j v) fun _ => True
  constant (label : String) (x : Scalar p) (type : ValueType) :
    Ends I E (Store.onLedger (Gate.constant label x type)) V
  unknown (message : String) (s : Store σ p) :
    I s → E (.failure (.because .valueConversionError message)) s
  aborted (code : BitVec 256) (s : Store σ p) : I s → E (.failure (.runtime (.abort code))) s

namespace Parts

theorem load [Modulus p] (h : Parts id I E V) (label : String) (type : ValueType) (n : ℕ) :
    Ends I E (Store.load label type n) fun _ => True :=
  (h.constant label (.ofNat n) type).bind fun _ hv => h.push hv

theorem branchOn (h : Parts id I E V) (mode : Mode) (f : Function) (b : Block) (i : Instruction)
    (taken : Scalar p) : Ends I E (b.branchOn mode f i taken) fun _ => True := by
  refine h.pop.bind fun cond _ => ?_
  cases cond.value? with
  | some x => exact Ends.pure trivial
  | none =>
    by_cases hm : mode = .witness
    · simp only [if_pos hm]
      exact h.unknown _
    · simp only [if_neg hm]
      exact Ends.pure trivial

theorem abort (h : Parts id I E V) :
    Ends I E (Block.abort : EStateM Halt (Store σ p) (Transition p)) fun _ => True := by
  refine h.pop.bind fun code _ => ?_
  cases code.value? with
  | some x => exact h.aborted _
  | none => exact h.unknown _

/-- **An instruction ends as its parts do.** -/
theorem perform [Modulus p] [Recorder σ p] {b : Block} (h : Parts b.localsId I E V) (mode : Mode)
    (f : Function) {i : Instruction} (step : ℕ)
    (hgate : ∀ g, Gate.ofOpcode? i.opcode = some g →
      Ends I E (Store.binary s!"step#{step}" i.opcode g) fun _ => True)
    (hundefined : ∀ n message, i.opcode = .undefined n → ∀ s, I s →
      E (.failure (.because .shouldNotReachHere message)) s) :
    Ends I E (b.perform mode f i step) fun _ => True := by
  have done {x : EStateM Halt (Store σ p) Unit} (hx : Ends I E x fun _ => True) :
      Ends I E (do x; return (b.advance : Transition p)) fun _ => True :=
    hx.bind fun _ _ => Ends.pure trivial
  unfold Block.perform
  cases hi : i.opcode with
  | ldU8 => exact done (h.load _ _ _)
  | ldU64 => exact done (h.load _ _ _)
  | ldU128 => exact done (h.load _ _ _)
  | ldTrue => exact done (h.load _ _ _)
  | ldFalse => exact done (h.load _ _ _)
  | pop => exact h.pop.bind fun _ _ => Ends.pure trivial
  | add => exact done (by simpa only [hi] using hgate .add (by rw [hi]; rfl))
  | sub => exact done (by simpa only [hi] using hgate .sub (by rw [hi]; rfl))
  | mul => exact done (by simpa only [hi] using hgate .mul (by rw [hi]; rfl))
  | eq => exact done (by simpa only [hi] using hgate .eq (by rw [hi]; rfl))
  | copyLoc => exact (h.copyLocal _).bind fun v hv => done (h.push hv)
  | moveLoc => exact (h.moveLocal _).bind fun v hv => done (h.push hv)
  | stLoc => exact h.pop.bind fun v hv => done (h.storeLocal _ hv)
  | brTrue => exact h.branchOn mode f b i 1
  | brFalse => exact h.branchOn mode f b i 0
  | branch => exact Ends.pure trivial
  | ret => exact Ends.pure trivial
  | call => exact Ends.pure trivial
  | abort => exact h.abort
  | undefined n => exact hundefined n _ hi

end Parts

end Instructions

/-! ## Effects -/

variable {V : Value p → Prop}

/-- **An invariant that the effects of instructions keep**, with what holds of the values they
give. -/
structure Effects (I : Store σ p → Prop) (V : Value p → Prop) : Prop where
  push {v : Value p} : V v → Keeps I (Store.push v) fun _ => True
  pop : Keeps I Store.pop V
  copyLocal (id j : ℕ) : Keeps I (Store.copyLocal id j) V
  moveLocal (id j : ℕ) : Keeps I (Store.moveLocal id j) V
  storeLocal (id j : ℕ) {v : Value p} : V v → Keeps I (Store.storeLocal id j v) fun _ => True
  allocLocals (n : ℕ) : Keeps I (Store.allocLocals n) fun _ => True
  releaseLocals (id : ℕ) : Keeps I (Store.releaseLocals id) fun _ => True
  constant (label : String) (x : Scalar p) (type : ValueType) :
    Keeps I (Store.onLedger (Gate.constant label x type)) V

namespace Effects

theorem of_indifferent (h : ∀ s stack locals, I s → I { s with stack, locals })
    (hconstant : ∀ label (x : Scalar p) type,
      Keeps I (Store.onLedger (Gate.constant label x type)) fun _ => True) :
    Effects I fun _ => True where
  push := by
    intro v _ s hs
    unfold Store.push
    cases s.stack.push v with
    | ok stack => exact ⟨h s stack s.locals hs, trivial⟩
    | error e => exact hs
  pop := by
    intro s hs
    unfold Store.pop
    cases s.stack.pop with
    | ok r => exact ⟨h s r.2 s.locals hs, trivial⟩
    | error e => exact hs
  copyLocal id j := by
    intro s hs
    unfold Store.copyLocal
    cases s.locals.copy id j with
    | ok v => exact ⟨hs, trivial⟩
    | error e => exact hs
  moveLocal id j := by
    intro s hs
    unfold Store.moveLocal
    cases s.locals.move id j with
    | ok r => exact ⟨h s s.stack r.2 hs, trivial⟩
    | error e => exact hs
  storeLocal id j v _ := by
    intro s hs
    unfold Store.storeLocal
    cases s.locals.store id j v with
    | ok locals => exact ⟨h s s.stack locals hs, trivial⟩
    | error e => exact hs
  allocLocals n := fun s hs => ⟨h s s.stack _ hs, trivial⟩
  releaseLocals id := by
    intro s hs
    unfold Store.releaseLocals
    cases s.locals.release id with
    | ok locals => exact ⟨h s s.stack locals hs, trivial⟩
    | error e => exact hs
  constant := hconstant

theorem popParams (h : Effects I V) (id n : ℕ) :
    Keeps I (State.popParams id n) fun _ => True := by
  induction n with
  | zero => exact Keeps.pure trivial
  | succ n ih =>
    refine h.pop.bind fun v hv => ?_
    exact (h.storeLocal id n hv).bind fun _ _ => ih

theorem popResults (h : Effects I V) (n : ℕ) (values : List (Value p)) :
    Keeps I (State.popResults n values) fun _ => True := by
  induction n generalizing values with
  | zero => exact Keeps.pure trivial
  | succ n ih => exact h.pop.bind fun v _ => ih (v :: values)

/-- **What the effects keep, calls keep.** -/
theorem call (h : Effects I V) (setup : Setup) (index : UInt16)
    (hnote : ∀ name step depth, Keeps I (Store.note (.call name step depth)) fun _ => True) :
    Keeps (State.Has I) (State.call setup index) fun _ => True := by
  unfold State.call
  cases setup.program.function? index with
  | none => exact Keeps.fail _
  | some f =>
    refine (Keeps.onMachineStore (h.allocLocals _)).bind fun id _ => ?_
    refine Keeps.bind (V := fun _ => True) (Keeps.releasing ?_ (h.releaseLocals id)) fun _ _ => ?_
    · exact (Keeps.onMachineStore (h.popParams id _)).bind fun _ _ => Keeps.pushFrame _
    · exact Keeps.bind (V := fun _ => True) (fun _ hm => ⟨hm, trivial⟩) fun m _ =>
        Keeps.onMachineStore (hnote _ _ _)

/-- **What the effects keep, returns keep**, if it depends on the core alone. -/
theorem ret (h : Effects I V) (hcore : ∀ s s', s'.core = s.core → I s → I s') :
    Keeps (State.Has I) (State.ret : EStateM Halt (State σ p) Bool) fun _ => True := by
  refine Keeps.bind Keeps.popFrame fun frame _ => ?_
  refine Keeps.bind (Keeps.onMachineStore ((keepsCore_popGuards _).keeps hcore)) fun _ _ => ?_
  refine Keeps.bind (Keeps.onMachineStore (h.releaseLocals _)) fun _ _ => ?_
  exact Keeps.bind (Keeps.onTop (keepsCore_advance.keeps hcore)) fun _ _ => Keeps.pure trivial

/-- **What the effects keep is kept where control passes between frames.** -/
theorem depart (h : Effects I V) (hcore : ∀ s s', s'.core = s.core → I s → I s') (setup : Setup)
    (d : Option Departure) : Keeps (State.Has I) (State.depart setup d) fun _ => True := by
  match d with
  | none => exact Keeps.pure trivial
  | some .ret => exact h.ret hcore
  | some (.call index) =>
    exact (h.call setup index fun _ _ _ => (keepsCore_note _).keeps hcore).bind
      fun _ _ => Keeps.pure trivial

theorem parts (h : Effects I V) (id : ℕ) : Parts id I (fun _ => I) V where
  push hv := h.push hv
  pop := h.pop
  copyLocal := h.copyLocal id
  moveLocal := h.moveLocal id
  storeLocal j _ hv := h.storeLocal id j hv
  constant := h.constant
  unknown _ _ hs := hs
  aborted _ _ hs := hs

/-- **What the effects keep, instructions keep**, if their gates keep it. -/
theorem perform [Modulus p] [Recorder σ p] (h : Effects I V) (mode : Mode) (f : Function) (b : Block)
    {i : Instruction} (step : ℕ)
    (hgate : ∀ g, Gate.ofOpcode? i.opcode = some g →
      Keeps I (Store.binary s!"step#{step}" i.opcode g) fun _ => True) :
    Keeps I (b.perform mode f i step) fun _ => True :=
  (h.parts b.localsId).perform mode f step hgate fun _ _ _ _ hs => hs

end Effects

end Machine

end StackCircuit
