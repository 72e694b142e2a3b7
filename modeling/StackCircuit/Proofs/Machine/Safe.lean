import StackCircuit.Proofs.Machine.Effects

/-!
# Computations that do not go wrong

A computation ends with a result, or with a failure of the program under execution, or else with a
fault or for lack of fuel. The last two are no fault of the program, and safe computations never end
in that way.

* `Halt.IsFailure`: the program failed; if the recorder refused to go on, there is an excuse for it.
* **`Safe blame I x V`**: from states with `I`, the computation `x` gives a result with `V` or fails,
  and `I` goes on to hold; `Sound` says the same of a single end.
* `Works`: the effects that a block with given locals has on the store are safe.
* **`Works.perform`**: so are its instructions, gates apart.
-/

namespace StackCircuit.Machine

open Bytecode (Function Instruction)
open Circuit (Recorder)

section Safe

variable {τ α β : Type} {blame : Prop} {I : τ → Prop} {V : α → Prop} {W : β → Prop}
  {x : EStateM Halt τ α}

/-- **A failure of the program**, where a refusal of the recorder needs an excuse. -/
def Halt.IsFailure (blame : Prop) : Halt → Prop
  | .failure e => ∀ r ∈ e.reports, r.status = .synthesisError → blame
  | _ => False

theorem Halt.isFailure_runtime {report : Report} (h : report.status ≠ .synthesisError) :
    (Halt.failure (.runtime report)).IsFailure blame := by
  intro r hr hs
  rw [List.mem_singleton.mp hr] at hs
  exact absurd hs h

theorem Halt.isFailure_because {status : Status} {message : String}
    (h : status ≠ .synthesisError) : (Halt.failure (.because status message)).IsFailure blame :=
  Halt.isFailure_runtime h

theorem Halt.isFailure_bare {status : Status} (h : status ≠ .synthesisError) :
    (Halt.failure (.bare status)).IsFailure blame :=
  Halt.isFailure_runtime h

theorem Halt.isFailure_stack {report : Report} {cause : StackError}
    (h : report.status ≠ .synthesisError) :
    (Halt.failure (.caused report (.stack cause))).IsFailure blame :=
  Halt.isFailure_runtime h

/-- An end with a result or with a failure, in a state with `Q`. -/
def Sound (blame : Prop) (Q : τ → Prop) : EStateM.Result Halt τ α → Prop
  | .ok _ s => Q s
  | .error e s => e.IsFailure blame ∧ Q s

theorem Sound.mono {Q Q' : τ → Prop} {r : EStateM.Result Halt τ α} (h : Sound blame Q r)
    (hQ : ∀ s, Q s → Q' s) : Sound blame Q' r := by
  cases r with
  | ok a s => exact hQ s h
  | error e s => exact ⟨h.1, hQ s h.2⟩

theorem Sound.final {Q : τ → Prop} {r : EStateM.Result Halt τ α} (h : Sound blame Q r) :
    Q (finalState r) := by
  cases r with
  | ok a s => exact h
  | error e s => exact h.2

theorem Sound.of_final {Q : τ → Prop} {r : EStateM.Result Halt τ α}
    (h : Sound blame (fun _ => True) r) (hQ : Q (finalState r)) : Sound blame Q r := by
  cases r with
  | ok a s => exact hQ
  | error e s => exact ⟨h.1, hQ⟩

theorem Sound.ends {Q : τ → Prop} {r : EStateM.Result Halt τ α} (h : Sound blame Q r) :
    (∃ a s, r = .ok a s) ∨ ∃ e s, r = .error (.failure e) s := by
  cases r with
  | ok a s => exact .inl ⟨a, s, rfl⟩
  | error e s =>
    cases e with
    | failure e => exact .inr ⟨e, s, rfl⟩
    | fault c => exact h.1.elim
    | outOfFuel => exact h.1.elim

/-- **A computation that does not go wrong** in states with an invariant, which it keeps. -/
def Safe (blame : Prop) (I : τ → Prop) (x : EStateM Halt τ α) (V : α → Prop) : Prop :=
  ∀ s, I s → match x s with
    | .ok a s' => I s' ∧ V a
    | .error e s' => e.IsFailure blame ∧ I s'

theorem Safe.sound (h : Safe blame I x V) {s : τ} (hs : I s) : Sound blame I (x s) := by
  have hx := h s hs
  cases hxs : x s with
  | ok a s' => rw [hxs] at hx; exact hx.1
  | error e s' => rw [hxs] at hx; exact hx

theorem safe_iff_ends :
    Safe blame I x V ↔ Ends I (fun e s => e.IsFailure blame ∧ I s) x V := by
  refine forall₂_congr fun s _ => ?_
  cases x s <;> rfl

theorem Safe.keeps (h : Safe True I x V) : Keeps I x V := by
  intro s hs
  have hx := h s hs
  cases hxs : x s with
  | ok a s' => rw [hxs] at hx; exact hx
  | error e s' => rw [hxs] at hx; exact hx.2

theorem Safe.pure {a : α} (h : V a) : Safe blame I (Pure.pure a) V :=
  safe_iff_ends.mpr (Ends.pure h)

theorem Safe.fail {e : Failure} (h : (Halt.failure e).IsFailure blame) :
    Safe blame I (Store.fail e : EStateM Halt τ α) V :=
  fun _ hs => ⟨h, hs⟩

theorem Safe.bind {f : α → EStateM Halt τ β} (hx : Safe blame I x V)
    (hf : ∀ a, V a → Safe blame I (f a) W) : Safe blame I (x >>= f) W :=
  safe_iff_ends.mpr (Ends.bind (safe_iff_ends.mp hx) fun a ha => safe_iff_ends.mp (hf a ha))

end Safe

/-! ## Instructions -/

variable {σ : Type} {p : ℕ} {blame : Prop} {id : ℕ} {I : Store σ p → Prop} {V : Value p → Prop}

/-- **The effects of a block with given locals are safe**, with what holds of the values they
give. -/
structure Works (blame : Prop) (id : ℕ) (I : Store σ p → Prop) (V : Value p → Prop) : Prop where
  push {v : Value p} : V v → Safe blame I (Store.push v) fun _ => True
  pop : Safe blame I Store.pop V
  copyLocal (j : ℕ) : Safe blame I (Store.copyLocal id j) V
  moveLocal (j : ℕ) : Safe blame I (Store.moveLocal id j) V
  storeLocal (j : ℕ) {v : Value p} : V v → Safe blame I (Store.storeLocal id j v) fun _ => True
  constant (label : String) (x : Scalar p) (type : ValueType) :
    Safe blame I (Store.onLedger (Gate.constant label x type)) V

namespace Works

theorem popParams (h : Works blame id I V) (n : ℕ) :
    Safe blame I (State.popParams id n) fun _ => True := by
  induction n with
  | zero => exact Safe.pure trivial
  | succ n ih =>
    refine h.pop.bind fun v hv => ?_
    exact (h.storeLocal n hv).bind fun _ _ => ih

theorem parts (h : Works blame id I V) :
    Parts id I (fun e s => e.IsFailure blame ∧ I s) V where
  push hv := safe_iff_ends.mp (h.push hv)
  pop := safe_iff_ends.mp h.pop
  copyLocal j := safe_iff_ends.mp (h.copyLocal j)
  moveLocal j := safe_iff_ends.mp (h.moveLocal j)
  storeLocal j _ hv := safe_iff_ends.mp (h.storeLocal j hv)
  constant label x type := safe_iff_ends.mp (h.constant label x type)
  unknown _ _ hs := ⟨Halt.isFailure_because (by simp), hs⟩
  aborted _ _ hs := ⟨Halt.isFailure_runtime (by simp [Report.abort]), hs⟩

/-- **The instructions of a block are safe**, gates apart. -/
theorem perform [Modulus p] [Recorder σ p] {b : Block} (h : Works blame b.localsId I V) (mode : Mode)
    (f : Function) {i : Instruction} (step : ℕ) (hi : Gate.ofOpcode? i.opcode = none) :
    Safe blame I (b.perform mode f i step) fun _ => True := by
  refine safe_iff_ends.mpr (h.parts.perform mode f step (fun g hg => ?_) fun _ _ _ _ hs =>
    ⟨Halt.isFailure_because (by simp), hs⟩)
  rw [hi] at hg
  cases hg

end Works

end StackCircuit.Machine
