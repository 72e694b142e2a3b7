import StackCircuit.Proofs.Machine.Effects
import StackCircuit.Proofs.Machine.Layers

/-!
# What instructions note

The journal tells what happens to arms and which instructions are executed, among other things.
Apart from that, instructions note only what their gates do, and leave the guards alone.

* `Store.view φ`: the events of a kind `φ` in the journal.
* `Event.isGate`: the events that gates note.
* **`effects_still`**, `still_binary`: effects and gates change neither the guards nor what the
  journal tells of other kinds.
-/

namespace StackCircuit

/-- Whether an event is one that gates note. -/
def Event.isGate {p : ℕ} : Event p → Bool
  | .constant _ _ _ => true
  | .guarded _ _ => true
  | .gateFailed _ _ _ => true
  | _ => false

namespace Machine

open Circuit (Recorder)

variable {σ : Type} {p : ℕ} {α : Type} {φ : Event p → Bool} {events : List (Event p)}
  {g : BoundedStack (Guard p)} {s : Store σ p}

/-- The events of a kind in the journal. -/
def Store.view (φ : Event p → Bool) (s : Store σ p) : List (Event p) :=
  s.ledger.journal.toList.filter φ

/-- A store with given guards and events of a kind. -/
def Store.Still (φ : Event p → Bool) (g : BoundedStack (Guard p)) (events : List (Event p))
    (s : Store σ p) : Prop :=
  s.conditions = g ∧ s.view φ = events

theorem filter_push {journal : Array (Event p)} {e : Event p} (he : φ e = false) :
    (journal.push e).toList.filter φ = journal.toList.filter φ := by
  rw [Array.toList_push, List.filter_append, List.filter_cons, if_neg (by simp [he]),
    List.filter_nil, List.append_nil]

theorem still_note {e : Event p} (he : φ e = false) :
    Keeps (Store.Still (σ := σ) φ g events) (Store.note e) fun _ => True :=
  fun _ hs => ⟨⟨hs.1, (filter_push he).trans hs.2⟩, trivial⟩

/-- **Effects change neither the guards nor what is told of other kinds.** -/
theorem effects_still (hφ : ∀ e : Event p, e.isGate = true → φ e = false)
    (g : BoundedStack (Guard p)) (events : List (Event p)) :
    Effects (Store.Still (σ := σ) φ g events) fun _ => True :=
  .of_indifferent (fun _ _ _ hs => hs) fun _ _ _ _ hs =>
    ⟨⟨hs.1, (filter_push (hφ _ rfl)).trans hs.2⟩, trivial⟩

/-! ## Gates -/

/-- A ledger whose journal has given events of a kind. -/
def Ledger.Tells (φ : Event p → Bool) (events : List (Event p)) (l : Ledger σ p) : Prop :=
  l.journal.toList.filter φ = events

theorem tells_record {ε : Type} (wrap : Circuit.CircuitError → ε)
    (x : EStateM Circuit.CircuitError σ α) :
    Keeps (Ledger.Tells (σ := σ) φ events) (Ledger.record wrap x) fun _ => True := by
  rintro ⟨recorder, journal⟩ hl
  dsimp only [Ledger.record]
  cases x recorder with
  | ok a recorder => exact ⟨hl, trivial⟩
  | error e recorder => exact hl

variable [Recorder σ p]

theorem still_allocInputs (id i : ℕ) (inputs : List (ValueType × Option (Scalar p)))
    (hφ : ∀ e : Event p, e.isGate = true → φ e = false) :
    Keeps (Store.Still (σ := σ) φ g events) (State.allocInputs id i inputs) fun _ => True := by
  induction inputs generalizing i with
  | nil => exact Keeps.pure trivial
  | cons input rest ih =>
    obtain ⟨type, x⟩ := input
    refine Keeps.bind (V := fun _ => True) ?_ fun v _ =>
      ((effects_still hφ g events).storeLocal id i trivial).bind fun _ _ => ih (i + 1)
    refine Keeps.bind (V := fun _ => True) ?_ fun w _ => Keeps.pure trivial
    rintro ⟨ledger, stack, locals, conditions, steps⟩ hs
    have htells : Ledger.Tells φ events ledger := hs.2
    have hrecord := tells_record Store.synthesisFailure
      (Recorder.alloc s!"arg#{i}" (.ofOption x)) ledger htells
    dsimp only [Store.onLedger]
    cases hx : Ledger.record Store.synthesisFailure (Recorder.alloc s!"arg#{i}" (.ofOption x)) ledger with
    | ok w l =>
      rw [hx] at hrecord
      exact ⟨⟨hs.1, hrecord.1⟩, trivial⟩
    | error e l =>
      rw [hx] at hrecord
      exact ⟨hs.1, hrecord⟩

theorem tells_apply [Modulus p] (hφ : ∀ e : Event p, e.isGate = true → φ e = false) (gate : Gate)
    (label : String) (a b : Value p) (guard : Option (Guard p)) :
    Keeps (Ledger.Tells (σ := σ) φ events) (gate.apply label a b guard) fun _ => True := by
  unfold Gate.apply
  cases a.combination? with
  | none => exact fun _ hl => hl
  | some left =>
    cases b.combination? with
    | none => exact fun _ hl => hl
    | some right =>
      have hrest : Keeps (Ledger.Tells (σ := σ) φ events)
          (gate.synthesise label left right (gate.result? a b) (gate.resultType a))
          fun _ => True := by
        refine (tells_record _ _).bind fun wire _ => ?_
        exact (tells_record _ _).bind fun _ _ => Keeps.pure trivial
      cases guard with
      | none => exact hrest
      | some guard =>
        have hnote : Keeps (Ledger.Tells (σ := σ) φ events)
            (Ledger.note (.guarded label guard.negated) : EStateM GateError (Ledger σ p) Unit)
            fun _ => True :=
          fun _ hl => ⟨(filter_push (hφ _ rfl)).trans hl, trivial⟩
        exact hnote.bind fun _ _ => hrest

/-- **Gates change neither the guards nor what is told of other kinds.** -/
theorem still_binary [Modulus p] (hφ : ∀ e : Event p, e.isGate = true → φ e = false)
    (label : String) (opcode : Bytecode.Opcode) (gate : Gate) :
    Keeps (Store.Still (σ := σ) φ g events) (Store.binary label opcode gate) fun _ => True := by
  have heffects := effects_still (σ := σ) hφ g events
  refine heffects.pop.bind fun right _ => heffects.pop.bind fun left _ => ?_
  refine Keeps.bind (V := fun _ => True) (fun _ hs => ⟨hs, trivial⟩) fun s _ => ?_
  refine Keeps.bind (V := fun _ => True) ?_ fun v _ => heffects.push trivial
  rintro ⟨ledger, stack, locals, conditions, steps⟩ hs
  have hgate := tells_apply hφ gate label left right s.conditions.top? ledger hs.2
  dsimp only [Store.record]
  cases hx : gate.apply label left right s.conditions.top? ledger with
  | ok v l =>
    rw [hx] at hgate
    exact ⟨⟨hs.1, hgate.1⟩, trivial⟩
  | error e l =>
    rw [hx] at hgate
    exact ⟨hs.1, (filter_push (hφ _ rfl)).trans hgate⟩

end Machine

end StackCircuit
