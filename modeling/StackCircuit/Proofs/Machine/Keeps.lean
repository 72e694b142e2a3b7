import Mathlib.Data.Nat.Notation
import StackCircuit.Machine.State

/-!
# What computations keep

A computation of the machine ends well or with an error, and in both cases it leaves a state behind.
Statements about every end are phrased as invariants.

* `finalState`: the state in which a computation ends.
* `Ends I E x V`: from states with `I`, the computation `x` ends with `I` and a result with `V`, or
  with an error as `E` has it.
* **`Keeps I x V`**: from states with `I`, the computation `x` ends with `I`, and gives results
  with `V`.
* `Core`, `Store.core`: the part of a store that instructions compute with, which leaves out the
  journal and the guards.
* `keepsCore_endArm`, `keepsCore_materialise`, `keepsCore_advance`: entering and leaving arms does
  not touch the core.
-/

namespace StackCircuit.Machine

open Circuit (Recorder)

section Ends

variable {ε τ α β : Type}

/-- **The ends of a computation** in states with an invariant, which it keeps unless it fails; its
results and its failures are as described. -/
def Ends (I : τ → Prop) (E : ε → τ → Prop) (x : EStateM ε τ α) (V : α → Prop) : Prop :=
  ∀ s, I s → match x s with
    | .ok a s' => I s' ∧ V a
    | .error e s' => E e s'

variable {I : τ → Prop} {E : ε → τ → Prop} {x : EStateM ε τ α} {V : α → Prop} {W : β → Prop}

theorem Ends.pure {a : α} (h : V a) : Ends I E (Pure.pure a) V :=
  fun _ hs => ⟨hs, h⟩

theorem Ends.bind {f : α → EStateM ε τ β} (hx : Ends I E x V) (hf : ∀ a, V a → Ends I E (f a) W) :
    Ends I E (x >>= f) W := by
  intro s hs
  have h := hx s hs
  simp only [Bind.bind, EStateM.bind]
  cases hxs : x s with
  | ok a s' => rw [hxs] at h; exact hf a h.2 s' h.1
  | error e s' => rw [hxs] at h; exact h

end Ends

section Keeps

variable {ε τ α β : Type}

/-- The state in which a computation ends. -/
def finalState : EStateM.Result ε τ α → τ
  | .ok _ s => s
  | .error _ s => s

/-- **A computation keeps an invariant**, however it ends, and its results are as described. -/
def Keeps (I : τ → Prop) (x : EStateM ε τ α) (V : α → Prop) : Prop :=
  ∀ s, I s → match x s with
    | .ok a s' => I s' ∧ V a
    | .error _ s' => I s'

variable {I : τ → Prop} {x : EStateM ε τ α} {V : α → Prop} {W : β → Prop}

theorem Keeps.final (h : Keeps I x V) {s : τ} (hs : I s) : I (finalState (x s)) := by
  have h' := h s hs
  cases hx : x s with
  | ok a s' => rw [hx] at h'; exact h'.1
  | error e s' => rw [hx] at h'; exact h'

theorem keeps_iff_ends : Keeps I x V ↔ Ends I (fun _ => I) x V :=
  Iff.rfl

theorem Keeps.pure {a : α} (h : V a) : Keeps I (Pure.pure a : EStateM ε τ α) V :=
  keeps_iff_ends.mpr (Ends.pure h)

theorem Keeps.bind {f : α → EStateM ε τ β} (hx : Keeps I x V) (hf : ∀ a, V a → Keeps I (f a) W) :
    Keeps I (x >>= f) W :=
  keeps_iff_ends.mpr (Ends.bind hx hf)

theorem get_apply (s : τ) : (get : EStateM ε τ τ) s = .ok s s :=
  rfl

theorem bind_eq_ok {f : α → EStateM ε τ β} {b : β} {s s' : τ} (h : (x >>= f) s = .ok b s') :
    ∃ a t, x s = .ok a t ∧ f a t = .ok b s' := by
  simp only [Bind.bind, EStateM.bind] at h
  cases hx : x s with
  | ok a t => rw [hx] at h; exact ⟨a, t, rfl, h⟩
  | error e t => rw [hx] at h; cases h

theorem Keeps.fail (e : Failure) : Keeps I (Store.fail e : EStateM Halt τ α) V :=
  fun _ hs => hs

end Keeps

/-! ## The core of a store -/

variable {σ : Type} {p : ℕ} {α : Type}

/-- What instructions compute with: everything but the journal and the guards. -/
structure Core (σ : Type) (p : ℕ) where
  recorder : σ
  stack : BoundedStack (Value p)
  locals : LocalsTable p
  steps : ℕ

/-- The core of a store. -/
def Store.core (s : Store σ p) : Core σ p := ⟨s.ledger.recorder, s.stack, s.locals, s.steps⟩

/-- A computation leaves the core of the store as it is. -/
def KeepsCore (x : EStateM Halt (Store σ p) α) : Prop :=
  ∀ k, Keeps (fun s => s.core = k) x fun _ => True

theorem KeepsCore.keeps {I : Store σ p → Prop} {x : EStateM Halt (Store σ p) α} (hx : KeepsCore x)
    (hI : ∀ s s', s'.core = s.core → I s → I s') : Keeps I x fun _ => True := by
  intro s hs
  have h := hx s.core s rfl
  cases hxs : x s with
  | ok a s' => rw [hxs] at h; exact ⟨hI s s' h.1 hs, trivial⟩
  | error e s' => rw [hxs] at h; exact hI s s' h hs

theorem keepsCore_note (e : Event p) : KeepsCore (Store.note e : EStateM Halt (Store σ p) Unit) :=
  fun _ _ hs => ⟨hs, trivial⟩

theorem keepsCore_pushGuard (g : Guard p) :
    KeepsCore (Store.pushGuard g : EStateM Halt (Store σ p) Unit) := by
  intro k s hs
  unfold Store.pushGuard
  cases s.conditions.push g with
  | ok conditions => exact ⟨hs, trivial⟩
  | error e => exact hs

theorem keepsCore_popGuard : KeepsCore (Store.popGuard : EStateM Halt (Store σ p) Unit) := by
  intro k s hs
  unfold Store.popGuard
  cases s.conditions.pop with
  | ok r => exact ⟨hs, trivial⟩
  | error e => exact hs

theorem keepsCore_flipGuard : KeepsCore (Store.flipGuard : EStateM Halt (Store σ p) Unit) := by
  intro k s hs
  unfold Store.flipGuard
  cases s.conditions.top? with
  | some g => exact ⟨hs, trivial⟩
  | none => exact hs

theorem keepsCore_popGuards (n : ℕ) :
    KeepsCore (Store.popGuards n : EStateM Halt (Store σ p) Unit) := by
  intro k
  induction n with
  | zero => exact Keeps.pure trivial
  | succ n ih => exact Keeps.bind (keepsCore_popGuard k) fun _ _ => ih

/-! ## Arms and the core -/

section Activation

variable {I : Store σ p → Prop} {V : α → Prop}

/-- A property of the store of a frame at work. -/
def Activation.Has (I : Store σ p → Prop) (a : Activation σ p) : Prop := I a.store

theorem Keeps.onFrameStore {x : EStateM Halt (Store σ p) α} (hx : Keeps I x V) :
    Keeps (Activation.Has I) (Activation.onStore x) V := by
  rintro ⟨frame, store⟩ hs
  have h := hx store hs
  simp only [Activation.onStore]
  cases hxs : x store with
  | ok a s' => rw [hxs] at h; exact h
  | error e s' => rw [hxs] at h; exact h

theorem Keeps.getFrame :
    Keeps (Activation.Has I) Activation.getFrame fun _ => True :=
  fun _ hs => ⟨hs, trivial⟩

theorem Keeps.setFrame (frame : Frame) :
    Keeps (Activation.Has I) (Activation.setFrame frame) fun _ => True :=
  fun _ hs => ⟨hs, trivial⟩

theorem Keeps.ofFrame (x : Frame → Except Failure α) :
    Keeps (Activation.Has I) (Activation.ofFrame x) fun _ => True := by
  intro a hs
  unfold Activation.ofFrame
  cases x a.frame with
  | ok b => exact ⟨hs, trivial⟩
  | error e => exact hs

/-- A computation on a frame leaves the core of the store as it is. -/
def FrameKeepsCore (x : EStateM Halt (Activation σ p) α) : Prop :=
  ∀ k, Keeps (Activation.Has fun s => s.core = k) x fun _ => True

theorem FrameKeepsCore.keeps {x : EStateM Halt (Activation σ p) α} (hx : FrameKeepsCore x)
    (hI : ∀ s s', s'.core = s.core → I s → I s') : Keeps (Activation.Has I) x fun _ => True := by
  intro a ha
  have h := hx a.store.core a rfl
  cases hxa : x a with
  | ok b a' => rw [hxa] at h; exact ⟨hI _ _ h.1 ha, trivial⟩
  | error e a' => rw [hxa] at h; exact hI _ _ h ha

theorem keepsCore_materialise (pc : UInt16) (cond : Value p) :
    FrameKeepsCore (Activation.materialise pc cond : EStateM Halt (Activation σ p) Unit) := by
  intro k
  refine Keeps.bind (V := fun _ => True) ?_ fun arms _ => Keeps.bind Keeps.getFrame fun frame _ => ?_
  · exact Keeps.bind (Keeps.ofFrame _) fun _ _ =>
      Keeps.bind (Keeps.setFrame _) fun _ _ => Keeps.pure trivial
  · refine Keeps.bind (Keeps.onFrameStore (keepsCore_note _ k)) fun _ _ => ?_
    refine Keeps.bind (Keeps.onFrameStore (keepsCore_pushGuard _ k)) fun _ _ => ?_
    cases frame.suspended.push frame.current with
    | error e => exact Keeps.fail _
    | ok suspended => exact Keeps.setFrame _

theorem keepsCore_merge (pc : UInt16) (arms : Conditional) :
    FrameKeepsCore (Activation.merge pc arms : EStateM Halt (Activation σ p) Unit) := by
  intro k
  refine Keeps.bind Keeps.getFrame fun frame _ => ?_
  cases frame.suspended.pop with
  | error e => exact Keeps.fail _
  | ok r =>
    refine Keeps.bind (Keeps.setFrame _) fun _ _ => ?_
    refine Keeps.bind (Keeps.onFrameStore (keepsCore_popGuard k)) fun _ _ => ?_
    refine Keeps.bind (Keeps.setFrame _) fun _ _ => ?_
    exact Keeps.onFrameStore (keepsCore_note _ k)

theorem keepsCore_endArms (pc : UInt16) (rounds : ℕ) :
    FrameKeepsCore (Activation.endArms pc rounds : EStateM Halt (Activation σ p) Unit) := by
  intro k
  induction rounds with
  | zero => exact fun _ hs => hs
  | succ rounds ih =>
    refine Keeps.bind Keeps.getFrame fun frame _ => ?_
    cases frame.current.conditional? with
    | none => exact Keeps.fail _
    | some arms =>
      dsimp only
      cases arms.afterArm with
      | idle => exact Keeps.fail _
      | second arms =>
        refine Keeps.bind (Keeps.setFrame _) fun _ _ => ?_
        refine Keeps.bind (Keeps.onFrameStore (keepsCore_note _ k)) fun _ _ => ?_
        exact Keeps.onFrameStore (keepsCore_flipGuard k)
      | done =>
        refine Keeps.bind (keepsCore_merge pc arms k) fun _ _ => ?_
        refine Keeps.bind Keeps.getFrame fun frame _ => ?_
        refine Keeps.bind (Keeps.ofFrame _) fun r _ => ?_
        by_cases h : r.2.stop = some pc
        · rw [if_pos h]
          exact Keeps.bind (Keeps.setFrame _) fun _ _ => ih
        · rw [if_neg h]
          exact Keeps.setFrame _

theorem keepsCore_endArm (pc : UInt16) :
    FrameKeepsCore (Activation.endArm pc : EStateM Halt (Activation σ p) Unit) :=
  fun k => Keeps.bind Keeps.getFrame fun _ _ => keepsCore_endArms pc _ k

theorem keepsCore_advance :
    FrameKeepsCore (Activation.advance : EStateM Halt (Activation σ p) Unit) := by
  intro k
  refine Keeps.bind Keeps.getFrame fun frame _ => Keeps.bind (Keeps.ofFrame _) fun r _ => ?_
  dsimp only
  by_cases h : r.2.atEnd = true
  · rw [if_pos h]; exact keepsCore_endArm _ k
  · rw [if_neg h]; exact Keeps.setFrame _

end Activation

end StackCircuit.Machine
