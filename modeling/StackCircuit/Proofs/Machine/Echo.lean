import Mathlib.Data.List.Forall2
import StackCircuit.Proofs.Machine.Mirror

/-!
# Executions up to the numbers of steps

The number of a step shows in the label of what it records, and nowhere else. So instructions do the
same whatever their numbers, up to those labels.

* `LabelsMatch`: labels that are the same up to the number of a step.
* `Circuit.System.Echoes`, `Ledger.Echoes`, **`Store.Echoes`**: the same records, stores with the same
  stack and locals, and the same instructions executed, up to those labels.
* **`Echo x x'`**: two computations end in the same way from such stores.
* **`echo_perform`**: instructions that do not jump do the same at different steps.
-/

namespace StackCircuit

open Bytecode (Function Instruction Opcode)
open Circuit (Combination Constraint Recorder Resolution System WireEntry)

variable {p : ℕ}

/-- **Labels that are the same up to the number of a step.** -/
inductive LabelsMatch : String → String → Prop
  | refl (label : String) : LabelsMatch label label
  | step (m n : ℕ) : LabelsMatch s!"step#{m}" s!"step#{n}"

/-! ## Records -/

namespace Circuit

/-- Wires with the same value under matching labels. -/
inductive WireEntry.Echoes : WireEntry p → WireEntry p → Prop
  | mk {label label' : String} (h : LabelsMatch label label') (value : Option (Scalar p)) :
    Echoes ⟨label, value⟩ ⟨label', value⟩

/-- The same constraint under matching labels. -/
inductive Constraint.Echoes : Constraint p → Constraint p → Prop
  | mk {label label' : String} (h : LabelsMatch label label') (a b c : Combination p) :
    Echoes ⟨label, a, b, c⟩ ⟨label', a, b, c⟩

/-- **Records that are the same up to the numbers of steps in labels.** -/
structure System.Echoes (s s' : System p) : Prop where
  wires : List.Forall₂ WireEntry.Echoes s.wires.toList s'.wires.toList
  constraints : List.Forall₂ Constraint.Echoes s.constraints.toList s'.constraints.toList

namespace System.Echoes

variable {s s' : System p}

theorem refl (s : System p) : s.Echoes s := by
  refine ⟨List.forall₂_same.mpr fun w _ => ?_, List.forall₂_same.mpr fun k _ => ?_⟩
  · exact .mk (.refl w.label) w.value
  · exact .mk (.refl k.label) k.a k.b k.c

theorem size_wires (h : s.Echoes s') : s.wires.size = s'.wires.size := by
  rw [← Array.length_toList, ← Array.length_toList, h.wires.length_eq]

theorem unknownWire? (h : s.Echoes s') (label label' : String) (a b c : Combination p) :
    s.unknownWire? ⟨label, a, b, c⟩ = s'.unknownWire? ⟨label', a, b, c⟩ := by
  unfold System.unknownWire? System.hasWire
  rw [h.size_wires]
  rfl

theorem forall₂_push {α : Type} {R : α → α → Prop} {xs xs' : Array α} {x x' : α}
    (h : List.Forall₂ R xs.toList xs'.toList) (hx : R x x') :
    List.Forall₂ R (xs.push x).toList (xs'.push x').toList := by
  rw [Array.toList_push, Array.toList_push]
  exact List.rel_append h (.cons hx .nil)

end System.Echoes

end Circuit

/-! ## Ledgers -/

/-- What is told of an instruction that does not jump: its function, its position and itself. -/
def Event.executed? : Event p → Option (String × UInt16 × Instruction)
  | .execute function i pc _ => if i.opcode.isJump then none else some (function, pc, i)
  | _ => none

/-- **The instructions executed so far**, without jumps. -/
def Ledger.trace {σ : Type} (l : Ledger σ p) : List (String × UInt16 × Instruction) :=
  l.journal.toList.filterMap Event.executed?

theorem Ledger.trace_push {σ : Type} (recorder : σ) (journal : Array (Event p)) (e : Event p) :
    Ledger.trace ⟨recorder, journal.push e⟩ =
      Ledger.trace ⟨recorder, journal⟩ ++ e.executed?.toList := by
  unfold Ledger.trace
  rw [Array.toList_push, List.filterMap_append, List.filterMap_cons]
  cases e.executed? <;> rfl

/-- **Ledgers that tell the same up to the numbers of steps.** -/
structure Ledger.Echoes (l l' : Ledger (System p) p) : Prop where
  recorder : l.recorder.Echoes l'.recorder
  trace : l.trace = l'.trace

namespace Ledger.Echoes

variable {l l' : Ledger (System p) p}

theorem note (h : l.Echoes l') {e e' : Event p} (he : e.executed? = e'.executed?) :
    Echoes ⟨l.recorder, l.journal.push e⟩ ⟨l'.recorder, l'.journal.push e'⟩ := by
  refine ⟨h.recorder, ?_⟩
  rw [trace_push, trace_push, he]
  exact congrArg (· ++ e'.executed?.toList) h.trace

theorem noteLeft (h : l.Echoes l') {e : Event p} (he : e.executed? = none) :
    Echoes ⟨l.recorder, l.journal.push e⟩ l' := by
  refine ⟨h.recorder, ?_⟩
  rw [trace_push, he, Option.toList_none, List.append_nil]
  exact h.trace

theorem noteRight (h : l.Echoes l') {e : Event p} (he : e.executed? = none) :
    l.Echoes ⟨l'.recorder, l'.journal.push e⟩ := by
  refine ⟨h.recorder, ?_⟩
  rw [trace_push, he, Option.toList_none, List.append_nil]
  exact h.trace

theorem withRecorder (h : l.Echoes l') {s s' : System p} (hs : s.Echoes s') :
    Echoes ⟨s, l.journal⟩ ⟨s', l'.journal⟩ :=
  ⟨hs, h.trace⟩

end Ledger.Echoes

namespace Machine

variable {α β : Type}

/-! ## Gates -/

/-- Computations on ledgers that do the same up to the numbers of steps. -/
def LedgerEcho {ε : Type} (x x' : EStateM ε (Ledger (System p) p) α) : Prop :=
  Agree Ledger.Echoes x x' (fun a a' l l' => a = a' ∧ l.Echoes l') fun _ _ l l' => l.Echoes l'

section Gates

variable {label label' : String}

theorem ledgerEcho_alloc {ε : Type} (wrap wrap' : Circuit.CircuitError → ε)
    (h : LabelsMatch label label') (r : Resolution p) :
    LedgerEcho (Ledger.record wrap (Recorder.alloc label r))
      (Ledger.record wrap' (Recorder.alloc label' r)) := by
  intro l l' hl
  have hsize := hl.recorder.size_wires
  have push (value : Option (Scalar p)) :
      Ledger.Echoes
        ⟨⟨l.recorder.wires.push ⟨label, value⟩, l.recorder.constraints⟩, l.journal⟩
        ⟨⟨l'.recorder.wires.push ⟨label', value⟩, l'.recorder.constraints⟩, l'.journal⟩ :=
    hl.withRecorder ⟨System.Echoes.forall₂_push hl.recorder.wires (.mk h value),
      hl.recorder.constraints⟩
  cases r with
  | known x => exact ⟨congrArg UInt32.ofNat hsize, push (some x)⟩
  | missing => exact ⟨congrArg UInt32.ofNat hsize, push none⟩
  | failed reason => exact hl

theorem ledgerEcho_enforce {ε : Type} (wrap wrap' : Circuit.CircuitError → ε)
    (h : LabelsMatch label label') (a b c : Combination p) :
    LedgerEcho (Ledger.record wrap (Recorder.enforce label a b c))
      (Ledger.record wrap' (Recorder.enforce label' a b c)) := by
  rintro ⟨s, journal⟩ ⟨s', journal'⟩ hl
  have hunknown := hl.recorder.unknownWire? label label' a b c
  dsimp only at hunknown
  change SameEnd _ _ (Ledger.record wrap (System.enforce label a b c) ⟨s, journal⟩)
    (Ledger.record wrap' (System.enforce label' a b c) ⟨s', journal'⟩)
  dsimp only [Ledger.record, System.enforce]
  rw [hunknown]
  cases s'.unknownWire? ⟨label', a, b, c⟩ with
  | some w => exact hl
  | none =>
    exact ⟨rfl, hl.withRecorder ⟨hl.recorder.wires,
      System.Echoes.forall₂_push hl.recorder.constraints (.mk h a b c)⟩⟩

variable [Modulus p]

theorem ledgerEcho_synthesise (h : LabelsMatch label label') (g : Gate) (a b : Combination p)
    (result : Option (Scalar p)) (type : ValueType) :
    LedgerEcho (g.synthesise label a b result type) (g.synthesise label' a b result type) := by
  refine (ledgerEcho_alloc _ _ h _).bind fun wire wire' => ?_
  rintro l l' ⟨rfl, hl⟩
  refine (ledgerEcho_enforce _ _ h _ _ _).bind (fun u u' => ?_) l l' hl
  rintro l l' ⟨-, hl⟩
  exact ⟨rfl, hl⟩

/-- **A gate records the same under matching labels**, whatever guards are noted. -/
theorem ledgerEcho_apply (h : LabelsMatch label label') (g : Gate) (a b : Value p)
    (guard guard' : Option (Guard p)) :
    LedgerEcho (g.apply label a b guard) (g.apply label' a b guard') := by
  intro l l' hl
  unfold Gate.apply
  cases a.combination? with
  | none => exact hl
  | some left =>
    cases b.combination? with
    | none => exact hl
    | some right =>
      have hrest := ledgerEcho_synthesise h g left right (g.result? a b) (g.resultType a)
      cases guard with
      | none =>
        cases guard' with
        | none => exact hrest _ _ hl
        | some guard' => exact hrest _ _ (hl.noteRight rfl)
      | some guard =>
        cases guard' with
        | none => exact hrest _ _ (hl.noteLeft rfl)
        | some guard' => exact hrest _ _ (hl.note rfl)

end Gates

/-! ## Stores -/

/-- **Stores that are the same up to the numbers of steps**: they hold the same values, and what they
have recorded and executed is the same up to labels. -/
structure Store.Echoes (s s' : Store (System p) p) : Prop where
  ledger : s.ledger.Echoes s'.ledger
  stack : s.stack = s'.stack
  locals : s.locals = s'.locals

theorem Store.Echoes.refl (s : Store (System p) p) : s.Echoes s :=
  ⟨⟨.refl _, rfl⟩, rfl, rfl⟩

/-- **Computations that do the same up to the numbers of steps**; failures have the same status. -/
def Echo (x x' : EStateM Halt (Store (System p) p) α) : Prop :=
  Agree Store.Echoes x x' (fun a a' s s' => a = a' ∧ s.Echoes s')
    fun e e' s s' => e.Same e' ∧ s.Echoes s'

theorem Echo.bind {x x' : EStateM Halt (Store (System p) p) α}
    {f f' : α → EStateM Halt (Store (System p) p) β} (hx : Echo x x') (hf : ∀ a, Echo (f a) (f' a)) :
    Echo (x >>= f) (x' >>= f') := by
  refine Agree.bind hx fun a a' s s' h => ?_
  obtain ⟨rfl, hs⟩ := h
  exact hf a s s' hs

theorem OnValues.echo {x : EStateM Halt (Store (System p) p) α} (hx : OnValues x) : Echo x x := by
  intro s s' hs
  have hmoved {t t' : Store (System p) p} (h : s.Moved s' t t') : t.Echoes t' := by
    obtain ⟨stack, locals, rfl, rfl⟩ := h
    exact ⟨hs.ledger, rfl, rfl⟩
  obtain ⟨a, t, a', t', h, h', ha, ht⟩ | ⟨e, t, e', t', h, h', rfl, ht⟩ :=
    (hx s s' hs.stack hs.locals).split
  · rw [h, h']
    exact ⟨ha, hmoved ht⟩
  · rw [h, h']
    exact ⟨.refl e, hmoved ht⟩

theorem echo_push (v : Value p) : Echo (Store.push v) (Store.push v) := (onValues_push v).echo

theorem echo_pop : Echo (Store.pop (p := p)) Store.pop := onValues_pop.echo

section Effects

variable [Modulus p] {label label' : String}

theorem echo_load (type : ValueType) (n : ℕ) :
    Echo (Store.load (p := p) label type n) (Store.load label' type n) := by
  refine Echo.bind (fun s s' h => ?_) echo_push
  exact ⟨rfl, h.ledger.note rfl, h.stack, h.locals⟩

theorem echo_binary (h : LabelsMatch label label') (opcode : Opcode) (g : Gate) :
    Echo (Store.binary (p := p) label opcode g) (Store.binary label' opcode g) := by
  refine echo_pop.bind fun right => echo_pop.bind fun left => ?_
  rintro ⟨ledger, stack, locals, k, steps⟩ ⟨ledger', stack', locals', k', steps'⟩ ⟨hl, rfl, rfl⟩
  have hgate := ledgerEcho_apply h g left right k.top? k'.top? ledger ledger' hl
  dsimp only [Bind.bind, EStateM.bind, get_apply, Store.record]
  obtain ⟨v, l, v', l', hx, hx', rfl, hl⟩ | ⟨e, l, e', l', hx, hx', hl⟩ := hgate.split
  · rw [hx, hx']
    exact echo_push v _ _ ⟨hl, rfl, rfl⟩
  · rw [hx, hx']
    exact ⟨rfl, hl.note rfl, rfl, rfl⟩

end Effects

/-! ## Instructions -/

section Instructions

variable [Modulus p]

omit [Modulus p] in
theorem Echo.paired {x x' : EStateM Halt (Store (System p) p) α} (hx : Echo x x')
    {V : α → α → Prop} (hV : ∀ a, V a a) :
    Paired Store.Echoes (fun e e' s s' => e.Same e' ∧ s.Echoes s') x x' V :=
  Paired.mono (V := Eq) hx fun a _ ha => ha ▸ hV a

theorem echo_parts (id : ℕ) {label label' : String} (h : LabelsMatch label label') :
    PairedParts (Store.Echoes (p := p)) (fun e e' s s' => e.Same e' ∧ s.Echoes s') Eq id label
      label' where
  push := by
    rintro v _ rfl
    exact (echo_push v).paired fun _ => trivial
  pop := echo_pop
  copyLocal j := (onValues_copyLocal id j).echo
  moveLocal j := (onValues_moveLocal id j).echo
  storeLocal j v _ hv := by
    subst hv
    exact (onValues_storeLocal id j v).echo.paired fun _ => trivial
  load type n := (echo_load type n).paired fun _ => trivial
  binary opcode g := (echo_binary h opcode g).paired fun _ => trivial
  abort := by
    refine Paired.bind (V := Eq) echo_pop ?_
    rintro code _ rfl
    cases code.value? with
    | some x => exact fun _ _ hs => ⟨rfl, hs⟩
    | none => exact fun _ _ hs => ⟨rfl, hs⟩
  undefined message := fun _ _ hs => ⟨rfl, hs⟩

/-- **An instruction that does not jump does the same at different steps.** -/
theorem echo_perform (mode : Mode) (f : Function) (b : Block) {i : Instruction}
    (hi : i.opcode.isJump = false) (m n : ℕ) :
    Echo (b.perform (σ := System p) mode f i m) (b.perform mode f i n) := by
  refine Paired.mono ((echo_parts b.localsId (.step m n)).perform mode mode f f hi rfl) ?_
  intro t t' ht
  cases ht with
  | advance => rfl
  | ret => rfl
  | call => rfl

end Instructions

end Machine

end StackCircuit
