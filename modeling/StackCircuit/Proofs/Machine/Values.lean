import StackCircuit.Proofs.Machine.Effects

/-!
# Where values come from

Apart from gates, instructions only move values around: what the stack and the locals hold after a
step, they held before, or it is bound to no wire.

* `LocalsTable.slot?`: the value of a live local; `Store.Holds`: the values on the stack and in the
  live locals.
* **`Store.Rearranges`**: a store with the same record, whose values were there before or are bound
  to no wire.
* `effects_rearranges`, `rearranges_depart`: what instructions and the passing of control between
  frames do.
* **`State.rearranges_step`**: a step that applies no gate rearranges the store.
-/

namespace StackCircuit

namespace Machine

open Bytecode (Function Instruction Opcode)
open Circuit (Recorder)

variable {σ : Type} {p : ℕ} {α : Type}

/-! ## Values in locals -/

namespace LocalsTable

variable {t : LocalsTable p}

/-- The value of a live local. -/
def slot? (t : LocalsTable p) (id j : ℕ) : Option (Value p) := do
  let slots ← (← t.entries[id]?)
  slots[j]?

theorem slot?_eq_some {id j : ℕ} {v : Value p} :
    t.slot? id j = some v ↔ ∃ slots, t.entries[id]? = some (some slots) ∧ slots[j]? = some v := by
  simp only [slot?, bind, Option.bind_eq_some_iff]
  constructor
  · rintro ⟨_, h, slots, rfl, hv⟩
    exact ⟨slots, h, hv⟩
  · rintro ⟨slots, h, hv⟩
    exact ⟨some slots, h, slots, rfl, hv⟩

theorem slot?_empty (id j : ℕ) : (empty : LocalsTable p).slot? id j = none := by
  simp [slot?, empty]

theorem slot?_replicate {n j : ℕ} {v : Value p}
    (h : (Array.replicate n (.invalid : Value p))[j]? = some v) : v = .invalid := by
  rw [Array.getElem?_replicate] at h
  split at h
  · exact (Option.some.inj h).symm
  · exact absurd h (by simp)

theorem slot?_alloc {n id j : ℕ} {v : Value p} (h : (t.alloc n).2.slot? id j = some v) :
    t.slot? id j = some v ∨ v = .invalid := by
  obtain ⟨slots, hs, hv⟩ := slot?_eq_some.mp h
  unfold alloc at hs
  cases hf : t.free with
  | nil =>
    rw [hf] at hs
    rw [Array.getElem?_push] at hs
    split at hs
    · cases hs
      exact .inr (slot?_replicate hv)
    · exact .inl (slot?_eq_some.mpr ⟨slots, hs, hv⟩)
  | cons id' rest =>
    rw [hf] at hs
    rw [Array.getElem?_setIfInBounds] at hs
    split at hs
    · split at hs
      · cases hs
        exact .inr (slot?_replicate hv)
      · cases hs
    · exact .inl (slot?_eq_some.mpr ⟨slots, hs, hv⟩)

theorem slot?_release {t' : LocalsTable p} {id id' j : ℕ} {v : Value p}
    (hr : t.release id' = .ok t') (h : t'.slot? id j = some v) : t.slot? id j = some v := by
  unfold release at hr
  split at hr
  · cases hr
    obtain ⟨slots, hs, hv⟩ := slot?_eq_some.mp h
    rw [Array.getElem?_setIfInBounds] at hs
    split at hs
    · split at hs <;> cases hs
    · exact slot?_eq_some.mpr ⟨slots, hs, hv⟩
  · cases hr

theorem slot?_write {id id' j j' : ℕ} {v v' : Value p}
    (h : (t.write id' j' v').slot? id j = some v) : t.slot? id j = some v ∨ v = v' := by
  obtain ⟨slots, hs, hv⟩ := slot?_eq_some.mp h
  rw [write, Array.getElem?_modify] at hs
  split at hs
  · obtain ⟨slots?, ho, hm⟩ := Option.map_eq_some_iff.mp hs
    obtain ⟨old, rfl, rfl⟩ := Option.map_eq_some_iff.mp hm
    rw [Array.getElem?_setIfInBounds] at hv
    split at hv
    · split at hv
      · exact .inr (Option.some.inj hv).symm
      · cases hv
    · exact .inl (slot?_eq_some.mpr ⟨old, ho, hv⟩)
  · exact .inl (slot?_eq_some.mpr ⟨slots, hs, hv⟩)

theorem slot?_of_read {status : Status} {id j : ℕ} {v : Value p}
    (h : t.read status id j = .ok v) : t.slot? id j = some v := by
  unfold read slots at h
  cases he : t.entries[id]? with
  | none => simp [he] at h
  | some slots? =>
    cases slots? with
    | none => simp [he] at h
    | some slots =>
      refine slot?_eq_some.mpr ⟨slots, he, ?_⟩
      simp only [he] at h
      cases hj : slots[j]? with
      | none => rw [hj] at h; cases h
      | some u =>
        rw [hj] at h
        cases u <;> cases h <;> rfl

end LocalsTable

/-! ## Rearranging -/

namespace Store

/-- A value on the stack or in a live local. -/
def Holds (s : Store σ p) (v : Value p) : Prop :=
  v ∈ s.stack.items ∨ ∃ id j, s.locals.slot? id j = some v

/-- A value that a store holds, or one that is bound to no wire. -/
def Offers (s : Store σ p) (v : Value p) : Prop := s.Holds v ∨ v.wire? = none

/-- **A store with the same record, whose values another store offers.** -/
structure Rearranges (s₀ s : Store σ p) : Prop where
  recorder : s.ledger.recorder = s₀.ledger.recorder
  values : ∀ v, s.Holds v → s₀.Offers v

variable {s₀ s s' : Store σ p}

theorem holds_congr (h : s'.core = s.core) {v : Value p} : s'.Holds v ↔ s.Holds v := by
  have h1 : s'.stack = s.stack := congrArg Core.stack h
  have h2 : s'.locals = s.locals := congrArg Core.locals h
  unfold Holds
  rw [h1, h2]

theorem not_holds_initial {ledger : Ledger σ p} {size : ℕ} {v : Value p} :
    ¬ (Store.initial ledger size).Holds v := by
  rintro (hv | ⟨id, j, hv⟩)
  · cases hv
  · rw [Store.initial, LocalsTable.slot?_empty] at hv
    cases hv

theorem rearranges_refl (s : Store σ p) : s.Rearranges s := ⟨rfl, fun _ => .inl⟩

theorem Rearranges.trans {s₁ s₂ : Store σ p} (h₁ : s₀.Rearranges s₁) (h₂ : s₁.Rearranges s₂) :
    s₀.Rearranges s₂ := by
  refine ⟨h₂.recorder.trans h₁.recorder, fun v hv => ?_⟩
  rcases h₂.values v hv with h | h
  · exact h₁.values v h
  · exact .inr h

theorem Rearranges.of_core (h : s₀.Rearranges s) (hc : s'.core = s.core) : s₀.Rearranges s' :=
  ⟨(congrArg Core.recorder hc).trans h.recorder, fun v hv => h.values v ((holds_congr hc).mp hv)⟩

theorem rearranges_of_core (hc : s.core = s₀.core) : s₀.Rearranges s :=
  (rearranges_refl s₀).of_core hc

theorem Rearranges.of_stack (h : s₀.Rearranges s) {stack : BoundedStack (Value p)}
    (hs : ∀ v ∈ stack.items, s₀.Offers v) : s₀.Rearranges { s with stack } := by
  refine ⟨h.recorder, fun v hv => ?_⟩
  rcases hv with hv | hv
  · exact hs v hv
  · exact h.values v (.inr hv)

theorem Rearranges.of_locals (h : s₀.Rearranges s) {locals : LocalsTable p}
    (hs : ∀ id j v, locals.slot? id j = some v → s₀.Offers v) : s₀.Rearranges { s with locals } := by
  refine ⟨h.recorder, fun v hv => ?_⟩
  rcases hv with hv | ⟨id, j, hv⟩
  · exact h.values v (.inl hv)
  · exact hs id j v hv

end Store

open Store (Rearranges)

/-! ## Effects of instructions -/

section Effects

variable {s₀ : Store σ p}

theorem KeepsCore.rearranges {x : EStateM Halt (Store σ p) α} (h : KeepsCore x) :
    Keeps s₀.Rearranges x fun _ => True :=
  h.keeps fun _ _ hc hs => hs.of_core hc

theorem FrameKeepsCore.rearranges {x : EStateM Halt (Activation σ p) α} (h : FrameKeepsCore x) :
    Keeps (Activation.Has s₀.Rearranges) x fun _ => True :=
  h.keeps fun _ _ hc hs => hs.of_core hc

theorem rearranges_push {v : Value p} (hv : s₀.Offers v) :
    Keeps s₀.Rearranges (Store.push v) fun _ => True := by
  intro s hs
  unfold Store.push
  cases hp : s.stack.push v with
  | error e => exact hs
  | ok stack =>
    refine ⟨hs.of_stack fun u hu => ?_, trivial⟩
    have hl := BoundedStack.toList_push hp
    simp only [BoundedStack.toList] at hl
    rw [← List.mem_reverse, hl] at hu
    rcases List.mem_append.mp hu with hu | hu
    · exact hs.values u (.inl (List.mem_reverse.mp hu))
    · rw [List.mem_singleton.mp hu]
      exact hv

theorem rearranges_pop : Keeps s₀.Rearranges Store.pop s₀.Offers := by
  rintro ⟨ledger, ⟨items, room⟩, locals, conditions, steps⟩ hs
  cases items with
  | nil => exact hs
  | cons v rest =>
    refine ⟨hs.of_stack fun u hu => ?_, ?_⟩
    · exact hs.values u (.inl (List.mem_cons_of_mem v hu))
    · exact hs.values v (.inl List.mem_cons_self)

theorem rearranges_copyLocal (id j : ℕ) :
    Keeps s₀.Rearranges (Store.copyLocal id j) s₀.Offers := by
  intro s hs
  unfold Store.copyLocal
  cases hc : s.locals.copy id j with
  | error e => exact hs
  | ok v => exact ⟨hs, hs.values v (.inr ⟨id, j, LocalsTable.slot?_of_read hc⟩)⟩

theorem Rearranges.write {s : Store σ p} (hs : s₀.Rearranges s) (id j : ℕ) {v : Value p}
    (hv : s₀.Offers v) : s₀.Rearranges { s with locals := s.locals.write id j v } := by
  refine hs.of_locals fun id' j' u hu => ?_
  rcases LocalsTable.slot?_write hu with hu | rfl
  · exact hs.values u (.inr ⟨id', j', hu⟩)
  · exact hv

theorem rearranges_moveLocal (id j : ℕ) :
    Keeps s₀.Rearranges (Store.moveLocal id j) s₀.Offers := by
  intro s hs
  unfold Store.moveLocal LocalsTable.move
  cases hr : s.locals.read .moveLocalError id j with
  | error e => exact hs
  | ok v =>
    exact ⟨Rearranges.write hs id j (.inr rfl),
      hs.values v (.inr ⟨id, j, LocalsTable.slot?_of_read hr⟩)⟩

theorem rearranges_storeLocal (id j : ℕ) {v : Value p} (hv : s₀.Offers v) :
    Keeps s₀.Rearranges (Store.storeLocal id j v) fun _ => True := by
  intro s hs
  unfold Store.storeLocal LocalsTable.store
  cases s.locals.slots id with
  | error e => exact hs
  | ok slots =>
    by_cases hj : j < slots.size
    · simp only [if_pos hj]
      exact ⟨Rearranges.write hs id j hv, trivial⟩
    · simp only [if_neg hj]
      exact hs

theorem rearranges_allocLocals (n : ℕ) :
    Keeps s₀.Rearranges (Store.allocLocals n) fun _ => True := by
  intro s hs
  refine ⟨hs.of_locals fun id j v hv => ?_, trivial⟩
  rcases LocalsTable.slot?_alloc hv with hv | rfl
  · exact hs.values v (.inr ⟨id, j, hv⟩)
  · exact .inr rfl

theorem rearranges_releaseLocals (id : ℕ) :
    Keeps s₀.Rearranges (Store.releaseLocals id) fun _ => True := by
  intro s hs
  unfold Store.releaseLocals
  cases hr : s.locals.release id with
  | error e => exact hs
  | ok locals =>
    refine ⟨hs.of_locals fun id' j v hv => ?_, trivial⟩
    exact hs.values v (.inr ⟨id', j, LocalsTable.slot?_release hr hv⟩)

/-- **The effects of instructions rearrange the store.** -/
theorem effects_rearranges : Effects s₀.Rearranges s₀.Offers where
  push hv := rearranges_push hv
  pop := rearranges_pop
  copyLocal := rearranges_copyLocal
  moveLocal := rearranges_moveLocal
  storeLocal id j _ hv := rearranges_storeLocal id j hv
  allocLocals := rearranges_allocLocals
  releaseLocals := rearranges_releaseLocals
  constant _ _ _ _ hs := ⟨hs.of_core rfl, .inr rfl⟩

end Effects

/-! ## Control between frames -/

section Control

variable {s₀ : Store σ p}

theorem rearranges_depart (setup : Setup) (d : Option Departure) :
    Keeps (State.Has s₀.Rearranges) (State.depart setup d) fun _ => True :=
  effects_rearranges.depart (fun _ _ hc hs => hs.of_core hc) setup d

end Control

/-! ## Steps -/

section Step

variable [Modulus p]

theorem Block.perform_gate [Recorder σ p] {mode : Mode} {f : Function} {b : Block} {i : Instruction}
    {step : ℕ} {g : Gate} (hg : Gate.ofOpcode? i.opcode = some g) (s : Store σ p) :
    b.perform mode f i step s =
      match Store.binary s!"step#{step}" i.opcode g s with
      | .ok _ s' => .ok b.advance s'
      | .error e s' => .error e s' := by
  have done (x : EStateM Halt (Store σ p) Unit) :
      (do x; return (b.advance : Transition p)) s =
        match x s with
        | .ok _ s' => .ok b.advance s'
        | .error e s' => .error e s' := by
    simp only [bind, EStateM.bind]
    cases x s <;> rfl
  unfold Block.perform
  cases hi : i.opcode <;> rw [hi] at hg <;> cases hg <;> exact done _

omit [Modulus p] in
theorem keepsCore_follow (frame : Frame) (n : ℕ) (t : Transition p) :
    FrameKeepsCore (Activation.follow frame n t : EStateM Halt (Activation σ p) _) := by
  intro k
  match t with
  | .goto pc => exact (Keeps.setFrame _).bind fun _ _ => Keeps.pure trivial
  | .exit .ret => exact Keeps.pure trivial
  | .exit (.call function) => exact Keeps.pure trivial
  | .exit (.conditional pc cond) =>
    exact (keepsCore_materialise pc cond k).bind fun _ _ => Keeps.pure trivial
  | .exit (.armEnd pc) => exact (keepsCore_endArm pc k).bind fun _ _ => Keeps.pure trivial

omit [Modulus p] in
theorem follow_advance_ok {frame : Frame} {n : ℕ} {b : Block} {d : Option Departure}
    {a a' : Activation σ p} (h : Activation.follow frame n b.advance a = .ok d a') : d = none := by
  unfold Block.advance at h
  by_cases hb : b.atEnd = true
  · rw [if_pos hb] at h
    simp only [Activation.follow, bind, EStateM.bind] at h
    cases he : Activation.endArm b.pc a with
    | ok u a'' => rw [he] at h; cases h; rfl
    | error e a'' => rw [he] at h; cases h
  · rw [if_neg hb] at h
    cases h
    rfl

variable [Recorder σ p]

theorem rearranges_frame_step {mode : Mode} {frame : Frame} {s : Store σ p}
    (hi : ∀ n b i, frame.running = .ok (n, b) → frame.function.code[b.pc.toNat]? = some i →
      Gate.ofOpcode? i.opcode = none) :
    s.Rearranges (finalState (Activation.step mode ⟨frame, s⟩)).store := by
  cases hr : frame.running with
  | error e =>
    rw [Activation.step_eq_error hr]
    exact Store.rearranges_refl s
  | ok r =>
    obtain ⟨n, b⟩ := r
    have hb : s.Rearranges (finalState (b.step mode frame.function s)) := by
      by_cases hk : s.locals.knows b.localsId = true
      · cases hc : frame.function.code[b.pc.toNat]? with
        | none =>
          rw [Block.step_eq_beyond hk hc]
          exact Store.rearranges_refl s
        | some i =>
          rw [Block.step_eq hk hc]
          have hgate := hi n b i hr hc
          refine (effects_rearranges.perform mode _ b _ fun g hg => ?_).final ?_
          · rw [hgate] at hg
            cases hg
          exact ⟨rfl, fun _ => .inl⟩
      · rw [Block.step_eq_unknown (Bool.eq_false_iff.mpr hk)]
        exact Store.rearranges_refl s
    rw [Activation.step_eq hr]
    cases hs : b.step mode frame.function s with
    | error e s' => rw [hs] at hb; exact hb
    | ok t s' =>
      rw [hs] at hb
      exact (keepsCore_follow frame n t).rearranges.final (I := Activation.Has _) hb

/-- **A step that applies no gate rearranges the store.** -/
theorem State.rearranges_step (setup : Setup) {m : State σ p}
    (hi : ∀ i, m.instruction? = some i → Gate.ofOpcode? i.opcode = none) :
    m.store.Rearranges (finalState (State.step setup m)).store := by
  obtain ⟨s, frames, room⟩ := m
  cases frames with
  | nil => exact Store.rearranges_refl s
  | cons f fs =>
    rw [State.step_cons]
    have hf : s.Rearranges (finalState (Activation.step setup.config.mode ⟨f, s⟩)).store := by
      refine rearranges_frame_step fun n b i hr hc => hi i ?_
      rw [State.instruction?_cons hr, hc]
    cases hs : Activation.step setup.config.mode ⟨f, s⟩ with
    | error e a =>
      rw [hs] at hf
      exact Rearranges.of_core hf (State.core_noted _ _ _)
    | ok d a =>
      rw [hs] at hf
      exact (rearranges_depart setup d).final (I := State.Has _) hf

/-- **A step that applies a gate** applies it to the store as it was, unless the locals of the
function are unknown. -/
theorem State.core_step_gate (setup : Setup) {m : State σ p} {i : Instruction} {g : Gate}
    (hi : m.instruction? = some i) (hg : Gate.ofOpcode? i.opcode = some g) :
    (finalState (State.step setup m)).store.core = m.store.core ∨
      ∃ f pc, (finalState (State.step setup m)).store.core =
        (finalState (Store.binary s!"step#{m.store.steps + 1}" i.opcode g
          (m.store.fetch f i pc))).core := by
  obtain ⟨s, frames, room⟩ := m
  cases frames with
  | nil => cases hi
  | cons f fs =>
    simp only [State.instruction?, BoundedStack.top?, List.head?_cons, bind, Option.bind] at hi
    cases hr : f.running with
    | error e => rw [hr] at hi; cases hi
    | ok r =>
      obtain ⟨n, b⟩ := r
      rw [hr] at hi
      rw [State.step_cons, Activation.step_eq hr]
      by_cases hk : s.locals.knows b.localsId = true
      · refine .inr ⟨f.function, b.pc, ?_⟩
        rw [Block.step_eq hk hi, Block.perform_gate hg]
        cases Store.binary s!"step#{s.steps + 1}" i.opcode g (s.fetch f.function i b.pc) with
        | error e s' => exact State.core_noted _ _ _
        | ok u s' =>
          have hc := (keepsCore_follow f n (b.advance : Transition p) s'.core).final (s := ⟨f, s'⟩) rfl
          dsimp only
          cases hf : Activation.follow f n b.advance ⟨f, s'⟩ with
          | error e a =>
            rw [hf] at hc
            exact (State.core_noted _ _ _).trans hc
          | ok d a =>
            rw [hf] at hc
            rw [follow_advance_ok hf]
            exact hc
      · rw [Block.step_eq_unknown (Bool.eq_false_iff.mpr hk)]
        exact .inl rfl

end Step

end Machine

end StackCircuit
