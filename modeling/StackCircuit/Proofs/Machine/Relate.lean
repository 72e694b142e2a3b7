import StackCircuit.Proofs.Machine.Step

/-!
# Two executions side by side

Instructions do not look at the journal, and at the guards only to write a line into it. So they do
the same to two stores that differ in nothing else.

* **`Agree`**: two computations end in the same way from related states; `Paired`: both keep the
  states related, unless both fail.
* `Store.Alike`: stores with the same core.
* `OnValues`: computations that work on the stack and the locals alone.
* **`Blind x`**: the computation `x` does the same to stores with the same core, and keeps the
  guards.
* `PairedParts`: the parts of instructions keep two stores related.
* **`PairedParts.perform`**: so do instructions that do not jump; `agree_perform`: in two blocks with
  the same locals they do the same.
-/

namespace StackCircuit.Machine

open Bytecode (Function Instruction Opcode)
open Circuit (Recorder)

section Agree

variable {ε τ τ' α α' β β' : Type}

/-- Both ends are results with `Q`, or both are errors with `E`. -/
def SameEnd (Q : α → α' → τ → τ' → Prop) (E : ε → ε → τ → τ' → Prop) :
    EStateM.Result ε τ α → EStateM.Result ε τ' α' → Prop
  | .ok a s, .ok a' s' => Q a a' s s'
  | .error e s, .error e' s' => E e e' s s'
  | _, _ => False

/-- **Two computations end in the same way** from states with `P`. -/
def Agree (P : τ → τ' → Prop) (x : EStateM ε τ α) (x' : EStateM ε τ' α')
    (Q : α → α' → τ → τ' → Prop) (E : ε → ε → τ → τ' → Prop) : Prop :=
  ∀ s s', P s s' → SameEnd Q E (x s) (x' s')

variable {P : τ → τ' → Prop} {x : EStateM ε τ α} {x' : EStateM ε τ' α'}
  {Q : α → α' → τ → τ' → Prop} {E : ε → ε → τ → τ' → Prop}

theorem SameEnd.split {r : EStateM.Result ε τ α} {r' : EStateM.Result ε τ' α'}
    (h : SameEnd Q E r r') :
    (∃ a s a' s', r = .ok a s ∧ r' = .ok a' s' ∧ Q a a' s s') ∨
      ∃ e s e' s', r = .error e s ∧ r' = .error e' s' ∧ E e e' s s' := by
  cases r with
  | ok a s =>
    cases r' with
    | ok a' s' => exact .inl ⟨a, s, a', s', rfl, rfl, h⟩
    | error e' s' => exact h.elim
  | error e s =>
    cases r' with
    | ok a' s' => exact h.elim
    | error e' s' => exact .inr ⟨e, s, e', s', rfl, rfl, h⟩

theorem Agree.bind {f : α → EStateM ε τ β} {f' : α' → EStateM ε τ' β'}
    {W : β → β' → τ → τ' → Prop} (hx : Agree P x x' Q E)
    (hf : ∀ a a', Agree (Q a a') (f a) (f' a') W E) : Agree P (x >>= f) (x' >>= f') W E := by
  intro s s' hs
  simp only [Bind.bind, EStateM.bind]
  obtain ⟨a, t, a', t', h, h', ht⟩ | ⟨e, t, e', t', h, h', ht⟩ := (hx s s' hs).split
  · rw [h, h']
    exact hf a a' t t' ht
  · rw [h, h']
    exact ht

theorem Agree.weaken {E' : ε → ε → τ → τ' → Prop} (h : Agree P x x' Q E)
    (hE : ∀ e e' s s', E e e' s s' → E' e e' s s') : Agree P x x' Q E' := by
  intro s s' hs
  obtain ⟨a, t, a', t', hx, hx', ht⟩ | ⟨e, t, e', t', hx, hx', ht⟩ := (h s s' hs).split
  · rw [hx, hx']
    exact ht
  · rw [hx, hx']
    exact hE e e' t t' ht

/-- **Two computations keep a relation** and give related results, or both fail. -/
def Paired (R : τ → τ' → Prop) (E : ε → ε → τ → τ' → Prop) (x : EStateM ε τ α)
    (x' : EStateM ε τ' α') (V : α → α' → Prop) : Prop :=
  Agree R x x' (fun a a' s s' => V a a' ∧ R s s') E

variable {R : τ → τ' → Prop} {V : α → α' → Prop} {W : β → β' → Prop}

theorem Paired.pure {a : α} {a' : α'} (h : V a a') : Paired R E (Pure.pure a) (Pure.pure a') V :=
  fun _ _ hs => ⟨h, hs⟩

theorem Paired.bind {f : α → EStateM ε τ β} {f' : α' → EStateM ε τ' β'} (hx : Paired R E x x' V)
    (hf : ∀ a a', V a a' → Paired R E (f a) (f' a') W) : Paired R E (x >>= f) (x' >>= f') W :=
  Agree.bind hx fun a a' s s' h => hf a a' h.1 s s' h.2

theorem Paired.mono {V' : α → α' → Prop} (h : Paired R E x x' V)
    (hV : ∀ a a', V a a' → V' a a') : Paired R E x x' V' := by
  intro s s' hs
  obtain ⟨a, t, a', t', hx, hx', ha, ht⟩ | ⟨e, t, e', t', hx, hx', ht⟩ := (h s s' hs).split
  · rw [hx, hx']
    exact ⟨hV a a' ha, ht⟩
  · rw [hx, hx']
    exact ht

end Agree

/-! ## Stores with the same core -/

variable {σ : Type} {p : ℕ} {α β : Type}

/-- Stores with the same core and given guards. -/
def Store.Alike (g g' : BoundedStack (Guard p)) (s s' : Store σ p) : Prop :=
  s.core = s'.core ∧ s.conditions = g ∧ s'.conditions = g'

/-- **A computation does the same to stores with the same core**, and keeps their guards. -/
def Blind (x : EStateM Halt (Store σ p) α) : Prop :=
  ∀ g g', Agree (Store.Alike g g') x x (fun a a' s s' => a = a' ∧ Store.Alike g g' s s')
    fun e e' s s' => e = e' ∧ Store.Alike g g' s s'

theorem Blind.bind {x : EStateM Halt (Store σ p) α} {f : α → EStateM Halt (Store σ p) β}
    (hx : Blind x) (hf : ∀ a, Blind (f a)) : Blind (x >>= f) := by
  intro g g'
  refine (hx g g').bind fun a a' s s' h => ?_
  obtain ⟨rfl, hs⟩ := h
  exact hf a g g' s s' hs

theorem Blind.pure (a : α) : Blind (Pure.pure a : EStateM Halt (Store σ p) α) :=
  fun _ _ _ _ hs => ⟨rfl, hs⟩

theorem Blind.of_core {x : EStateM Halt (Store σ p) α}
    (h : ∀ ledger ledger' stack locals g g' steps, ledger.recorder = ledger'.recorder →
      SameEnd (fun a a' t t' => a = a' ∧ Store.Alike g g' t t')
        (fun e e' t t' => e = e' ∧ Store.Alike g g' t t')
        (x ⟨ledger, stack, locals, g, steps⟩) (x ⟨ledger', stack, locals, g', steps⟩)) :
    Blind x := by
  rintro g g' ⟨ledger, stack, locals, conditions, steps⟩
    ⟨ledger', stack', locals', conditions', steps'⟩ ⟨hc, rfl, rfl⟩
  simp only [Store.core, Core.mk.injEq] at hc
  obtain ⟨hr, rfl, rfl, rfl⟩ := hc
  exact h ledger ledger' stack locals _ _ steps hr

/-! ## Computations on the stack and the locals -/

section Values

/-- Stores that arise from two others when their stacks and locals become given ones. -/
def Store.Moved (s s' t t' : Store σ p) : Prop :=
  ∃ stack locals, t = { s with stack, locals } ∧ t' = { s' with stack, locals }

/-- **A computation works on the stack and the locals**, and the rest of the store is left alone. -/
def OnValues (x : EStateM Halt (Store σ p) α) : Prop :=
  ∀ s s', s.stack = s'.stack → s.locals = s'.locals →
    SameEnd (fun a a' t t' => a = a' ∧ s.Moved s' t t') (fun e e' t t' => e = e' ∧ s.Moved s' t t')
      (x s) (x s')

theorem OnValues.bind {x : EStateM Halt (Store σ p) α} {f : α → EStateM Halt (Store σ p) β}
    (hx : OnValues x) (hf : ∀ a, OnValues (f a)) : OnValues (x >>= f) := by
  intro s s' hstack hlocals
  simp only [Bind.bind, EStateM.bind]
  obtain ⟨a, t, a', t', h, h', rfl, stack, locals, rfl, rfl⟩ | ⟨e, t, e', t', h, h', he⟩ :=
    (hx s s' hstack hlocals).split
  · rw [h, h']
    exact hf a _ _ rfl rfl
  · rw [h, h']
    exact he

theorem OnValues.pure (a : α) : OnValues (Pure.pure a : EStateM Halt (Store σ p) α) := by
  rintro ⟨ledger, stack, locals, g, steps⟩ ⟨ledger', _, _, g', steps'⟩ rfl rfl
  exact ⟨rfl, stack, locals, rfl, rfl⟩

theorem onValues_push (v : Value p) : OnValues (Store.push v : EStateM Halt (Store σ p) Unit) := by
  rintro ⟨ledger, stack, locals, g, steps⟩ ⟨ledger', _, _, g', steps'⟩ rfl rfl
  dsimp only [Store.push]
  cases stack.push v with
  | ok stack' => exact ⟨rfl, stack', locals, rfl, rfl⟩
  | error e => exact ⟨rfl, stack, locals, rfl, rfl⟩

theorem onValues_pop : OnValues (Store.pop : EStateM Halt (Store σ p) (Value p)) := by
  rintro ⟨ledger, stack, locals, g, steps⟩ ⟨ledger', _, _, g', steps'⟩ rfl rfl
  dsimp only [Store.pop]
  cases stack.pop with
  | ok r => exact ⟨rfl, r.2, locals, rfl, rfl⟩
  | error e => exact ⟨rfl, stack, locals, rfl, rfl⟩

theorem onValues_copyLocal (id j : ℕ) :
    OnValues (Store.copyLocal id j : EStateM Halt (Store σ p) (Value p)) := by
  rintro ⟨ledger, stack, locals, g, steps⟩ ⟨ledger', _, _, g', steps'⟩ rfl rfl
  dsimp only [Store.copyLocal]
  cases locals.copy id j with
  | ok v => exact ⟨rfl, stack, locals, rfl, rfl⟩
  | error e => exact ⟨rfl, stack, locals, rfl, rfl⟩

theorem onValues_moveLocal (id j : ℕ) :
    OnValues (Store.moveLocal id j : EStateM Halt (Store σ p) (Value p)) := by
  rintro ⟨ledger, stack, locals, g, steps⟩ ⟨ledger', _, _, g', steps'⟩ rfl rfl
  dsimp only [Store.moveLocal]
  cases locals.move id j with
  | ok r => exact ⟨rfl, stack, r.2, rfl, rfl⟩
  | error e => exact ⟨rfl, stack, locals, rfl, rfl⟩

theorem onValues_storeLocal (id j : ℕ) (v : Value p) :
    OnValues (Store.storeLocal id j v : EStateM Halt (Store σ p) Unit) := by
  rintro ⟨ledger, stack, locals, g, steps⟩ ⟨ledger', _, _, g', steps'⟩ rfl rfl
  dsimp only [Store.storeLocal]
  cases locals.store id j v with
  | ok locals' => exact ⟨rfl, stack, locals', rfl, rfl⟩
  | error e => exact ⟨rfl, stack, locals, rfl, rfl⟩

theorem onValues_allocLocals (n : ℕ) :
    OnValues (Store.allocLocals n : EStateM Halt (Store σ p) ℕ) := by
  rintro ⟨ledger, stack, locals, g, steps⟩ ⟨ledger', _, _, g', steps'⟩ rfl rfl
  exact ⟨rfl, stack, (locals.alloc n).2, rfl, rfl⟩

theorem onValues_releaseLocals (id : ℕ) :
    OnValues (Store.releaseLocals id : EStateM Halt (Store σ p) Unit) := by
  rintro ⟨ledger, stack, locals, g, steps⟩ ⟨ledger', _, _, g', steps'⟩ rfl rfl
  dsimp only [Store.releaseLocals]
  cases locals.release id with
  | ok locals' => exact ⟨rfl, stack, locals', rfl, rfl⟩
  | error e => exact ⟨rfl, stack, locals, rfl, rfl⟩

theorem onValues_popParams (id n : ℕ) :
    OnValues (State.popParams id n : EStateM Halt (Store σ p) Unit) := by
  induction n with
  | zero => exact .pure ()
  | succ n ih => exact onValues_pop.bind fun v => (onValues_storeLocal id n v).bind fun _ => ih

theorem onValues_popResults (n : ℕ) (values : List (Value p)) :
    OnValues (State.popResults n values : EStateM Halt (Store σ p) (List (Value p))) := by
  induction n generalizing values with
  | zero => exact .pure values
  | succ n ih => exact onValues_pop.bind fun v => ih (v :: values)

end Values

section Effects

theorem OnValues.blind {x : EStateM Halt (Store σ p) α} (hx : OnValues x) : Blind x := by
  rintro g g' s s' ⟨hcore, hg, hg'⟩
  have hfields := hcore
  simp only [Store.core, Core.mk.injEq] at hfields
  obtain ⟨hr, hstack, hlocals, hsteps⟩ := hfields
  have hmoved {t t' : Store σ p} (h : s.Moved s' t t') : Store.Alike g g' t t' := by
    obtain ⟨stack, locals, rfl, rfl⟩ := h
    exact ⟨by simp only [Store.core, hr, hsteps], hg, hg'⟩
  obtain ⟨a, t, a', t', h, h', ha, ht⟩ | ⟨e, t, e', t', h, h', he, ht⟩ :=
    (hx s s' hstack hlocals).split
  · rw [h, h']
    exact ⟨ha, hmoved ht⟩
  · rw [h, h']
    exact ⟨he, hmoved ht⟩

theorem Store.alike_of_recorder {ledger ledger' : Ledger σ p}
    (h : ledger.recorder = ledger'.recorder) (stack : BoundedStack (Value p))
    (locals : LocalsTable p) (g g' : BoundedStack (Guard p)) (steps : ℕ) :
    Store.Alike g g' ⟨ledger, stack, locals, g, steps⟩ ⟨ledger', stack, locals, g', steps⟩ := by
  refine ⟨?_, rfl, rfl⟩
  simp only [Store.core, h]

theorem blind_push (v : Value p) : Blind (Store.push v : EStateM Halt (Store σ p) Unit) :=
  (onValues_push v).blind

theorem blind_pop : Blind (Store.pop : EStateM Halt (Store σ p) (Value p)) := onValues_pop.blind

theorem blind_storeLocal (id j : ℕ) (v : Value p) :
    Blind (Store.storeLocal id j v : EStateM Halt (Store σ p) Unit) :=
  (onValues_storeLocal id j v).blind

theorem blind_allocLocals (n : ℕ) :
    Blind (Store.allocLocals n : EStateM Halt (Store σ p) ℕ) :=
  (onValues_allocLocals n).blind

theorem blind_releaseLocals (id : ℕ) :
    Blind (Store.releaseLocals id : EStateM Halt (Store σ p) Unit) :=
  (onValues_releaseLocals id).blind

theorem blind_load [Modulus p] (label : String) (type : ValueType) (n : ℕ) :
    Blind (Store.load label type n : EStateM Halt (Store σ p) Unit) := by
  refine Blind.bind (Blind.of_core fun ledger ledger' stack locals g g' steps h => ?_) blind_push
  exact ⟨rfl, Store.alike_of_recorder h stack locals g g' steps⟩

theorem blind_popParams (id n : ℕ) :
    Blind (State.popParams id n : EStateM Halt (Store σ p) Unit) :=
  (onValues_popParams id n).blind

theorem blind_popResults (n : ℕ) (values : List (Value p)) :
    Blind (State.popResults n values : EStateM Halt (Store σ p) (List (Value p))) :=
  (onValues_popResults n values).blind

end Effects

/-! ## Gates -/

section Gates

variable [Modulus p] [Recorder σ p]

/-- Ledgers with the same record. -/
def Ledger.Alike (l l' : Ledger σ p) : Prop := l.recorder = l'.recorder

/-- A computation on ledgers does the same to those with the same record. -/
def LedgerBlind {ε : Type} (x x' : EStateM ε (Ledger σ p) α) : Prop :=
  Agree Ledger.Alike x x' (fun a a' l l' => a = a' ∧ Ledger.Alike l l')
    fun e e' l l' => e = e' ∧ Ledger.Alike l l'

omit [Modulus p] [Recorder σ p] in
theorem ledgerBlind_record {ε : Type} (wrap : Circuit.CircuitError → ε)
    (x : EStateM Circuit.CircuitError σ α) :
    LedgerBlind (Ledger.record wrap x : EStateM ε (Ledger σ p) α) (Ledger.record wrap x) := by
  rintro ⟨recorder, journal⟩ ⟨recorder', journal'⟩ h
  cases h
  dsimp only [Ledger.record]
  cases x recorder with
  | ok a recorder => exact ⟨rfl, rfl⟩
  | error e recorder => exact ⟨rfl, rfl⟩

theorem ledgerBlind_synthesise (g : Gate) (label : String) (a b : Circuit.Combination p)
    (result : Option (Scalar p)) (type : ValueType) :
    LedgerBlind (g.synthesise label a b result type : EStateM GateError (Ledger σ p) (Value p))
      (g.synthesise label a b result type) := by
  refine (ledgerBlind_record _ _).bind fun wire wire' => ?_
  rintro l l' ⟨rfl, hl⟩
  refine (ledgerBlind_record _ _).bind (fun u u' => ?_) l l' hl
  rintro l l' ⟨rfl, hl⟩
  exact ⟨rfl, hl⟩

theorem ledgerBlind_apply (g : Gate) (label : String) (a b : Value p)
    (guard guard' : Option (Guard p)) :
    LedgerBlind (g.apply label a b guard : EStateM GateError (Ledger σ p) (Value p))
      (g.apply label a b guard') := by
  rintro ⟨recorder, journal⟩ ⟨recorder', journal'⟩ hl
  unfold Gate.apply
  cases a.combination? with
  | none => exact ⟨rfl, hl⟩
  | some left =>
    cases b.combination? with
    | none => exact ⟨rfl, hl⟩
    | some right =>
      have h (j j' : Array (Event p)) := ledgerBlind_synthesise g label left right (g.result? a b)
        (g.resultType a) ⟨recorder, j⟩ ⟨recorder', j'⟩ hl
      cases guard with
      | none =>
        cases guard' with
        | none => exact h _ _
        | some guard' => exact h _ _
      | some guard =>
        cases guard' with
        | none => exact h _ _
        | some guard' => exact h _ _

theorem blind_binary (label : String) (opcode : Opcode) (g : Gate) :
    Blind (Store.binary label opcode g : EStateM Halt (Store σ p) Unit) := by
  refine blind_pop.bind fun right => blind_pop.bind fun left => ?_
  refine Blind.of_core fun ledger ledger' stack locals k k' steps h => ?_
  have hgate := ledgerBlind_apply g label left right k.top? k'.top? ledger ledger' h
  dsimp only [bind, EStateM.bind, get_apply, Store.record]
  obtain ⟨v, l, v', l', hx, hx', rfl, hl⟩ | ⟨e, l, e', l', hx, hx', rfl, hl⟩ := hgate.split
  · rw [hx, hx']
    exact blind_push v k k' _ _ (Store.alike_of_recorder hl stack locals k k' steps)
  · rw [hx, hx']
    exact ⟨rfl, congrArg (Core.mk · stack locals steps) hl, rfl, rfl⟩

omit [Modulus p] in
theorem blind_allocInput (label : String) (x : Option (Scalar p)) (type : ValueType) :
    Blind (Store.allocInput label x type : EStateM Halt (Store σ p) (Value p)) := by
  refine Blind.bind (Blind.of_core fun ledger ledger' stack locals g g' steps h => ?_)
    fun w => Blind.pure _
  have hl := ledgerBlind_record Store.synthesisFailure (Recorder.alloc label (.ofOption x)) ledger
    ledger' h
  dsimp only [Store.onLedger]
  obtain ⟨w, l, w', l', hx, hx', rfl, hl⟩ | ⟨e, l, e', l', hx, hx', rfl, hl⟩ := hl.split
  · rw [hx, hx']
    exact ⟨rfl, Store.alike_of_recorder hl stack locals g g' steps⟩
  · rw [hx, hx']
    exact ⟨rfl, Store.alike_of_recorder hl stack locals g g' steps⟩

omit [Modulus p] in
theorem blind_allocInputs (id i : ℕ) (inputs : List (ValueType × Option (Scalar p))) :
    Blind (State.allocInputs id i inputs : EStateM Halt (Store σ p) Unit) := by
  induction inputs generalizing i with
  | nil => exact Blind.pure ()
  | cons input rest ih =>
    obtain ⟨type, x⟩ := input
    exact (blind_allocInput _ x type).bind fun v => (blind_storeLocal id i v).bind fun _ => ih (i + 1)

end Gates

/-! ## Instructions -/

section Instructions

variable [Modulus p] [Recorder σ p] {b b' : Block} {i : Instruction}

/-- Where control goes after an instruction that does not jump, in two blocks. -/
inductive Passes (b b' : Block) (i : Instruction) : Transition p → Transition p → Prop
  | advance : Passes b b' i b.advance b'.advance
  | ret : Passes b b' i (.exit .ret) (.exit .ret)
  | call (h : i.opcode = .call) : Passes b b' i (.exit (.call i.index)) (.exit (.call i.index))

/-- **How the parts of instructions keep two stores related**, under two labels: the effects of blocks
with given locals, gates, and the ends of a program. -/
structure PairedParts (R : Store σ p → Store σ p → Prop)
    (E : Halt → Halt → Store σ p → Store σ p → Prop) (V : Value p → Value p → Prop) (id : ℕ)
    (label label' : String) : Prop where
  push {v v' : Value p} : V v v' → Paired R E (Store.push v) (Store.push v') fun _ _ => True
  pop : Paired R E Store.pop Store.pop V
  copyLocal (j : ℕ) : Paired R E (Store.copyLocal id j) (Store.copyLocal id j) V
  moveLocal (j : ℕ) : Paired R E (Store.moveLocal id j) (Store.moveLocal id j) V
  storeLocal (j : ℕ) {v v' : Value p} : V v v' →
    Paired R E (Store.storeLocal id j v) (Store.storeLocal id j v') fun _ _ => True
  load (type : ValueType) (n : ℕ) :
    Paired R E (Store.load label type n) (Store.load label' type n) fun _ _ => True
  binary (opcode : Opcode) (g : Gate) :
    Paired R E (Store.binary label opcode g) (Store.binary label' opcode g) fun _ _ => True
  abort : Paired R E Block.abort Block.abort fun _ _ : Transition p => False
  undefined (message : String) :
    Paired R E (Store.fail (.because .shouldNotReachHere message))
      (Store.fail (.because .shouldNotReachHere message)) fun _ _ : Transition p => False

/-- **An instruction that does not jump keeps two stores related**, as its parts do. -/
theorem PairedParts.perform {R : Store σ p → Store σ p → Prop}
    {E : Halt → Halt → Store σ p → Store σ p → Prop} {V : Value p → Value p → Prop} {m n : ℕ}
    (h : PairedParts R E V b.localsId s!"step#{m}" s!"step#{n}") (mode mode' : Mode)
    (f f' : Function) (hi : i.opcode.isJump = false) (hid : b.localsId = b'.localsId) :
    Paired R E (b.perform mode f i m) (b'.perform mode' f' i n) (Passes b b' i) := by
  have done {x x' : EStateM Halt (Store σ p) Unit} (hx : Paired R E x x' fun _ _ => True) :
      Paired R E (do x; return (b.advance : Transition p)) (do x'; return b'.advance)
        (Passes b b' i) :=
    hx.bind fun _ _ _ => .pure .advance
  unfold Block.perform
  cases hop : i.opcode with
  | ldU8 | ldU64 | ldU128 | ldTrue | ldFalse => exact done (h.load _ _)
  | pop => exact h.pop.bind fun _ _ _ => .pure .advance
  | add | sub | mul | eq => exact done (h.binary _ _)
  | copyLoc =>
    rw [← hid]
    exact (h.copyLocal _).bind fun v v' hv => done (h.push hv)
  | moveLoc =>
    rw [← hid]
    exact (h.moveLocal _).bind fun v v' hv => done (h.push hv)
  | stLoc =>
    rw [← hid]
    exact h.pop.bind fun v v' hv => done (h.storeLocal _ hv)
  | brTrue | brFalse | branch => rw [hop] at hi; cases hi
  | ret => exact .pure .ret
  | call => exact .pure (.call hop)
  | abort => exact h.abort.mono fun _ _ => False.elim
  | undefined n => exact (h.undefined _).mono fun _ _ => False.elim

omit [Modulus p] [Recorder σ p] in
theorem Blind.paired {α : Type} {x : EStateM Halt (Store σ p) α} (hx : Blind x)
    {V : α → α → Prop} (hV : ∀ a, V a a) (g g' : BoundedStack (Guard p)) :
    Paired (Store.Alike g g') (fun e e' s s' => e = e' ∧ Store.Alike g g' s s') x x V :=
  Paired.mono (V := Eq) (hx g g') fun a _ ha => ha ▸ hV a

theorem blind_parts (id : ℕ) (label : String) (g g' : BoundedStack (Guard p)) :
    PairedParts (Store.Alike (σ := σ) g g') (fun e e' s s' => e = e' ∧ Store.Alike g g' s s') Eq id
      label label where
  push := by
    rintro v _ rfl
    exact (blind_push v).paired (fun _ => trivial) g g'
  pop := blind_pop.paired (fun _ => rfl) g g'
  copyLocal j := (onValues_copyLocal id j).blind.paired (fun _ => rfl) g g'
  moveLocal j := (onValues_moveLocal id j).blind.paired (fun _ => rfl) g g'
  storeLocal j v _ hv := by
    subst hv
    exact (blind_storeLocal id j v).paired (fun _ => trivial) g g'
  load type n := (blind_load label type n).paired (fun _ => trivial) g g'
  binary opcode gate := (blind_binary label opcode gate).paired (fun _ => trivial) g g'
  abort := by
    refine (blind_pop.paired (V := Eq) (fun _ => rfl) g g').bind ?_
    rintro code _ rfl
    cases code.value? with
    | some x => exact fun _ _ hs => ⟨rfl, hs⟩
    | none => exact fun _ _ hs => ⟨rfl, hs⟩
  undefined message := fun _ _ hs => ⟨rfl, hs⟩

/-- **An instruction that does not jump does the same in two blocks with the same locals.** -/
theorem agree_perform (mode : Mode) (f f' : Function) (step : ℕ) (hi : i.opcode.isJump = false)
    (hid : b.localsId = b'.localsId) (g g' : BoundedStack (Guard p)) :
    Agree (Store.Alike g g') (b.perform mode f i step) (b'.perform mode f' i step)
      (fun t t' (s s' : Store σ p) => Passes b b' i t t' ∧ Store.Alike g g' s s')
      fun e e' s s' => e = e' ∧ Store.Alike g g' s s' :=
  (blind_parts b.localsId _ g g').perform mode mode f f' hi hid

end Instructions

end StackCircuit.Machine
