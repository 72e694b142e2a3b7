import StackCircuit.Proofs.Circuit.Meaning
import StackCircuit.Proofs.Machine.Faultless

/-!
# The layout of a circuit

The wires and constraints of a run stand in a fixed order: behind the wire of one are those of the
arguments, and then there is one wire and one constraint for each gate.

* `Gate.filter_sides`, `Operation.filter_constraint`: in the constraint of a gate the wire of its
  result occurs once.
* `State.gateSteps`, `State.runGateSteps`: the numbers of the instructions that apply gates.
* `Store.Labelled`: the labels of wires and constraints, in order; `Reached.labelled_step`,
  `Reached.labelled_loop`: what instructions add to them.
* **`Layout`**, **`circuit_layout`**: how the record of a run is laid out, wherever it stops.
-/

namespace StackCircuit

open Circuit (Wire WireEntry Combination Constraint System Term)

variable {p : ℕ} [Modulus p]

/-! ## The wires of a constraint -/

theorem Gate.filter_sides {P : Wire → Bool} {a b : Combination p} (h1 : P Wire.one = false)
    (ha : ∀ t ∈ a, P t.wire = false) (hb : ∀ t ∈ b, P t.wire = false) (c : Combination p)
    (g : Gate) :
    ((g.sides a b c).1 ++ ((g.sides a b c).2.1 ++ (g.sides a b c).2.2)).filter (P ·.wire) =
      c.filter (P ·.wire) := by
  have hplus : (a.plus b).filter (P ·.wire) = [] := by
    refine List.filter_eq_nil_iff.mpr fun t ht => ?_
    rcases List.mem_append.mp ht with ht | ht
    · simp [ha t ht]
    · simp [hb t ht]
  have hminus : (a.minus b).filter (P ·.wire) = [] := by
    refine List.filter_eq_nil_iff.mpr fun t ht => ?_
    rcases List.mem_append.mp ht with ht | ht
    · simp [ha t ht]
    · obtain ⟨u, hu, rfl⟩ := List.mem_map.mp ht
      simp [hb u hu]
  have hone : (Combination.constant (1 : Scalar p)).filter (P ·.wire) = [] := by
    simp [Combination.constant, h1]
  cases g with
  | add => simp [Gate.sides, hplus, hone]
  | sub => simp [Gate.sides, hminus, hone]
  | mul =>
    rw [Combination.plus, List.filter_append, List.append_eq_nil_iff] at hplus
    simp [Gate.sides, hplus]
  | eq => simp [Gate.sides, hminus]

namespace Operation

variable {op : Operation p} {n : ℕ}

/-- **The result of a gate occurs once in its constraint**, if it is a wire of its own. -/
theorem filter_constraint (hn : 0 < n) (hlt : n < 2 ^ 32) (hresult : op.result = UInt32.ofNat n)
    (hwires : ∀ w, op.left.wire? = some w ∨ op.right.wire? = some w → w.toNat < n) (label : String) :
    (op.constraint label).sides.flatten.filter (·.wire.toNat = n) = [⟨1, UInt32.ofNat n⟩] := by
  have hone : ¬ Wire.one.toNat = n := show ¬ 0 = n by omega
  have hnat : (UInt32.ofNat n).toNat = n := UInt32.toNat_ofNat_of_lt hlt
  have hoperand {v : Value p} (hv : ∀ w, v.wire? = some w → w.toNat < n) :
      ∀ t ∈ v.combination?.getD [], decide (t.wire.toNat = n) = false := by
    intro t ht
    apply decide_eq_false
    rcases Value.wire_of_mem_combination ht with h | h
    · rw [h]
      exact hone
    · exact Nat.ne_of_lt (hv _ h)
  have hsides : (op.constraint label).sides.flatten =
      op.sides.1 ++ (op.sides.2.1 ++ op.sides.2.2) := by
    simp [Constraint.sides, constraint]
  rw [hsides, sides, Gate.filter_sides (P := fun w => w.toNat = n) (decide_eq_false hone)
    (hoperand fun w h => hwires w (.inl h)) (hoperand fun w h => hwires w (.inr h)), hresult]
  exact List.filter_cons_of_pos (decide_eq_true hnat)

theorem wire_lt (hn : 0 < n) (hlt : n < 2 ^ 32) (hresult : op.result = UInt32.ofNat n)
    (hwires : ∀ w, op.left.wire? = some w ∨ op.right.wire? = some w → w.toNat < n) {label : String}
    {t : Term p} (ht : t ∈ (op.constraint label).sides.flatten) (hne : t.wire.toNat ≠ n) :
    t.wire.toNat < n := by
  rcases wire_cases ht with h | h | h | h
  · rw [h]
    exact hn
  · exact hwires _ (.inl h)
  · exact hwires _ (.inr h)
  · have hnat : (UInt32.ofNat n).toNat = n := UInt32.toNat_ofNat_of_lt hlt
    rw [h, hresult] at hne
    exact absurd hnat hne

end Operation

theorem StraightLine.of_getElem? {n j : ℕ} {ops : List (Operation p)} {op : Operation p}
    (h : StraightLine n ops) (hj : ops[j]? = some op) : op.result = UInt32.ofNat (n + j) ∧
      ∀ w, op.left.wire? = some w ∨ op.right.wire? = some w → w.toNat < n + j := by
  induction ops generalizing n j with
  | nil => cases hj
  | cons first ops ih =>
    cases j with
    | zero =>
      cases hj
      exact ⟨h.1.1, h.1.2.2.2⟩
    | succ j =>
      rw [List.getElem?_cons_succ] at hj
      rw [show n + (j + 1) = n + 1 + j by omega]
      exact ih h.2 hj

namespace Machine

open Bytecode (Function Instruction)
open Circuit (Recorder)

/-! ## The numbers of instructions -/

section Numbers

variable {σ : Type} [Recorder σ p] {setup : Setup} {m m' : State σ p} {count fuel n : ℕ}

/-- Whether the next instruction applies a gate. -/
def State.atGate {σ : Type} {p : ℕ} (m : State σ p) : Bool :=
  m.instruction?.any fun i => (Gate.ofOpcode? i.opcode).isSome

/-- **The numbers of the instructions that apply gates** without a failure, where `count` instructions
have been executed before. -/
def State.gateSteps (setup : Setup) : (count fuel : ℕ) → State σ p → List ℕ
  | _, 0, _ => []
  | count, fuel + 1, m =>
    match State.step setup m with
    | .error _ _ => []
    | .ok done m' =>
      (if m.atGate then [count + 1] else []) ++
        if done then [] else gateSteps setup (count + 1) fuel m'

theorem State.lt_of_mem_gateSteps (h : n ∈ State.gateSteps setup count fuel m) : count < n := by
  induction fuel generalizing m count with
  | zero => cases h
  | succ fuel ih =>
    rw [State.gateSteps] at h
    split at h
    · cases h
    · rcases List.mem_append.mp h with h | h
      · split_ifs at h
        · rw [List.mem_singleton.mp h]
          exact Nat.lt_succ_self _
        · cases h
      · split_ifs at h
        · cases h
        · exact Nat.lt_of_succ_lt (ih h)

theorem State.pairwise_gateSteps (setup : Setup) (count fuel : ℕ) (m : State σ p) :
    (State.gateSteps setup count fuel m).Pairwise (· < ·) := by
  induction fuel generalizing m count with
  | zero => exact .nil
  | succ fuel ih =>
    rw [State.gateSteps]
    split
    · exact .nil
    · rename_i done m' _
      refine List.pairwise_append.mpr ⟨?_, ?_, fun k hk n hn => ?_⟩
      · split_ifs
        · exact List.pairwise_singleton _ _
        · exact .nil
      · split_ifs
        · exact .nil
        · exact ih (count + 1) m'
      · split_ifs at hk hn
        · cases hn
        · rw [List.mem_singleton.mp hk]
          exact State.lt_of_mem_gateSteps hn
        · cases hk
        · cases hk

omit [Modulus p] [Recorder σ p] in
theorem effects_steps (n : ℕ) : Effects (fun s : Store σ p => s.steps = n) fun _ => True :=
  .of_indifferent (fun _ _ _ hs => hs) fun _ _ _ _ hs => ⟨hs, trivial⟩

theorem steps_binary (n : ℕ) (label : String) (opcode : Bytecode.Opcode) (g : Gate) :
    Keeps (fun s : Store σ p => s.steps = n) (Store.binary label opcode g) fun _ => True := by
  refine (effects_steps n).pop.bind fun right _ => (effects_steps n).pop.bind fun left _ => ?_
  refine Keeps.bind (V := fun _ => True) (fun _ hs => ⟨hs, trivial⟩) fun s _ => ?_
  refine Keeps.bind (V := fun _ => True) ?_ fun v _ => (effects_steps n).push trivial
  rintro ⟨ledger, stack, locals, conditions, steps⟩ hs
  dsimp only [Store.record]
  cases g.apply label left right s.conditions.top? ledger with
  | ok v l => exact ⟨hs, trivial⟩
  | error e l => exact hs

/-- **Every step counts** as one. -/
theorem State.steps_step {done : Bool} (hm : State.step setup m = .ok done m')
    (hne : m.frames.items ≠ []) : m'.store.steps = m.store.steps + 1 := by
  obtain ⟨s, _ | ⟨f, fs⟩, room⟩ := m
  · exact absurd rfl hne
  obtain ⟨number, b, i, t, s₁, hb, hi, hp, hm⟩ := State.step_eq_ok hm
  have hcore (s₂ s₃ : Store σ p) (hc : s₃.core = s₂.core) (hs : s₂.steps = s.steps + 1) :
      s₃.steps = s.steps + 1 := (congrArg Core.steps hc).trans hs
  have hperform := (effects_steps (s.steps + 1)).perform setup.config.mode f.function b (i := i)
    (s.steps + 1) (fun g _ => steps_binary _ _ _ g) (s.fetch f.function i b.pc) rfl
  rw [hp] at hperform
  have hfollow := (keepsCore_follow f number t).keeps hcore ⟨f, s₁⟩ hperform.1
  cases hf : Activation.follow f number t ⟨f, s₁⟩ with
  | error e a => rw [hf] at hm; cases hm
  | ok d a =>
    rw [hf] at hm hfollow
    have hdepart := (effects_steps (s.steps + 1)).depart hcore setup d
      ⟨a.store, ⟨a.frame :: fs, room⟩⟩ hfollow.1
    have hm' : State.depart setup d ⟨a.store, ⟨a.frame :: fs, room⟩⟩ = .ok done m' := hm
    rw [hm'] at hdepart
    exact hdepart.1

end Numbers

/-! ## Labels -/

section Labels

variable {setup : Setup} {index : UInt16} {args : List (Scalar p)} {f : Function}
  {m₀ m m' : State (System p) p} {s s' : Store (System p) p} {params : ℕ} {ns : List ℕ}

/-- **The labels of a record**: those of the arguments in order, and those of the gates, which are
applied by instructions of given numbers. -/
structure Store.Labelled (params : ℕ) (ns : List ℕ) (s : Store (System p) p) : Prop where
  wires : s.ledger.recorder.wires.toList.map WireEntry.label =
    ("one" :: (List.range params).map fun i => s!"arg#{i}") ++ ns.map fun n => s!"step#{n}"
  constraints : s.ledger.recorder.constraints.toList.map Constraint.label =
    ns.map fun n => s!"step#{n}"

omit [Modulus p] in
theorem Store.Labelled.congr (hs : s.Labelled params ns)
    (h : s'.ledger.recorder = s.ledger.recorder) : s'.Labelled params ns := by
  obtain ⟨hwires, hconstraints⟩ := hs
  rw [← h] at hwires hconstraints
  exact ⟨hwires, hconstraints⟩

theorem Store.Labelled.of_applies (hs : s.Labelled params ns) {op : Operation p} {n : ℕ}
    {rest : List (Value p)} (h : s.Applies op s!"step#{n}" rest s') :
    s'.Labelled params (ns ++ [n]) := by
  constructor
  · rw [h.recorder, List.map_append, ← List.append_assoc, ← hs.wires]
    simp [System.addConstraint, System.addWire]
  · rw [h.recorder, List.map_append, ← hs.constraints]
    simp [System.addConstraint, System.addWire, Operation.constraint]

/-- **A step at a gate** applies it, or fails and records nothing. -/
theorem State.Watched.step_gate {gs : List (List (Guard p))} (hw : m.Watched gs)
    (hs : m.store.Grounded) (setup : Setup) {i : Instruction} {g : Gate}
    (hi : m.instruction? = some i) (hg : Gate.ofOpcode? i.opcode = some g) :
    match State.step setup m with
    | .ok _ m' => ∃ op rest, m.store.Applies op s!"step#{m.store.steps + 1}" rest m'.store
    | .error _ m' => m'.store.ledger.recorder = m.store.ledger.recorder := by
  obtain ⟨s, fs, room⟩ := m
  have hframes := hw.frames
  dsimp only at hframes
  cases hframes with
  | nil => cases hi
  | @cons f guards fs gs hf hfs =>
    obtain ⟨number, b, hb⟩ := hf.running
    rw [State.instruction?_cons hb] at hi
    rw [State.step_cons, Activation.step_eq hb]
    by_cases hk : s.locals.knows b.localsId = true
    · have hspec := Store.binary_spec (s := s.fetch f.function i b.pc) hs
        s!"step#{s.steps + 1}" i.opcode g
      have hperform : b.perform setup.config.mode f.function i (s.steps + 1)
          (s.fetch f.function i b.pc) = _ := Block.perform_gate hg _
      rw [Block.step_eq hk hi]
      cases hx : Store.binary s!"step#{s.steps + 1}" i.opcode g (s.fetch f.function i b.pc) with
      | error e s₁ =>
        rw [hx] at hspec hperform
        rw [hperform]
        exact (congrArg Core.recorder (State.core_noted f e s₁)).trans hspec.1.recorder
      | ok u s₁ =>
        rw [hx] at hspec hperform
        obtain ⟨op, rest, -, happ⟩ := hspec
        -- Control can always go on behind a gate.
        obtain ⟨f', s₂, guards', hok, -⟩ :=
          hf.advance ((Block.conditions_perform hperform).trans hw.conditions)
        have hcore := (keepsCore_advance s₁.core).final (s := ⟨f, s₁⟩) rfl
        rw [hok] at hcore
        rw [hperform]
        dsimp only
        rw [Activation.follow_advance hb, hok]
        exact ⟨op, rest, happ.of_core ⟨rfl, rfl, rfl⟩ hcore⟩
    · rw [Block.step_eq_unknown (Bool.eq_false_iff.mpr hk)]
      rfl

/-- **What a step adds to the labels.** -/
theorem Reached.labelled_step (h : Reached setup index args m₀ m) (hl : m.store.Labelled params ns) :
    match State.step setup m with
    | .ok _ m' =>
      m'.store.Labelled params (ns ++ if m.atGate then [m.store.steps + 1] else [])
    | .error _ m' => m'.store.Labelled params ns := by
  obtain ⟨conds, hpending⟩ := h.pending
  obtain ⟨gs, hw⟩ := h.watched
  cases hgate : m.atGate with
  | true =>
    obtain ⟨i, hi, hop⟩ := (Option.any_eq_true _ _).mp hgate
    obtain ⟨g, hg⟩ := Option.isSome_iff_exists.mp hop
    have hstep := hw.step_gate hpending.grounded.1 setup hi hg
    cases hs : State.step setup m with
    | ok done m' =>
      rw [hs] at hstep
      obtain ⟨op, rest, happ⟩ := hstep
      exact hl.of_applies happ
    | error e m' => rw [hs] at hstep; exact hl.congr hstep
  | false =>
    have hr := State.rearranges_step setup (m := m) fun i hi => by
      rw [State.atGate, hi] at hgate
      exact Option.not_isSome_iff_eq_none.mp (Bool.eq_false_iff.mp hgate)
    cases hs : State.step setup m with
    | ok done m' =>
      rw [hs] at hr
      have hnil : (ns ++ if false = true then [m.store.steps + 1] else []) = ns := List.append_nil ns
      dsimp only
      rw [hnil]
      exact hl.congr hr.recorder
    | error e m' => rw [hs] at hr; exact hl.congr hr.recorder

/-- **What instructions add to the labels**, one after the other. -/
theorem Reached.labelled_loop (h : Reached setup index args m₀ m) (hl : m.store.Labelled params ns)
    (fuel : ℕ) : (finalState (State.loop setup fuel m)).store.Labelled params
      (ns ++ State.gateSteps setup m.store.steps fuel m) := by
  induction fuel generalizing m ns with
  | zero =>
    rw [State.gateSteps, List.append_nil]
    exact hl
  | succ fuel ih =>
    have hstep := h.labelled_step hl
    rw [State.gateSteps, State.loop]
    cases hs : State.step setup m with
    | error e m' =>
      rw [hs] at hstep
      dsimp only
      rw [List.append_nil]
      exact hstep
    | ok done m' =>
      rw [hs] at hstep
      dsimp only at hstep ⊢
      rw [← List.append_assoc]
      cases done with
      | true =>
        rw [if_pos rfl, List.append_nil]
        exact hstep
      | false =>
        have hrest := ih (h.step hs) hstep
        rw [State.steps_step hs h.items_ne_nil] at hrest
        rw [if_neg Bool.false_ne_true]
        exact hrest

/-! ## Entering a function -/

omit [Modulus p] in
theorem Store.storeLocal_eq_ok {id j : ℕ} {v : Value p} (h : Store.storeLocal id j v s = .ok () s') :
    s'.ledger = s.ledger ∧ s'.steps = s.steps := by
  unfold Store.storeLocal at h
  cases ht : s.locals.store id j v with
  | error e => rw [ht] at h; cases h
  | ok locals =>
    rw [ht] at h
    cases h
    exact ⟨rfl, rfl⟩

omit [Modulus p] in
theorem labels_allocInputs {id i : ℕ} {inputs : List (ValueType × Option (Scalar p))}
    (h : State.allocInputs id i inputs s = .ok () s') :
    s'.ledger.recorder.wires.toList.map WireEntry.label =
        s.ledger.recorder.wires.toList.map WireEntry.label ++
          (List.range' i inputs.length).map (fun j => s!"arg#{j}") ∧
      s'.ledger.recorder.constraints = s.ledger.recorder.constraints ∧ s'.steps = s.steps := by
  induction inputs generalizing i s with
  | nil =>
    cases h
    exact ⟨(List.append_nil _).symm, rfl, rfl⟩
  | cons input rest ih =>
    obtain ⟨type, x⟩ := input
    obtain ⟨v, s₁, halloc, h⟩ := bind_eq_ok h
    rw [(Invariant.rearranges_allocInput id i s!"arg#{i}" x type s).1] at halloc
    cases halloc
    obtain ⟨u, s₂, hstore, h⟩ := bind_eq_ok h
    obtain ⟨hledger, hsteps⟩ := Store.storeLocal_eq_ok hstore
    obtain ⟨hwires, hconstraints, hsteps'⟩ := ih h
    rw [hledger] at hwires hconstraints
    refine ⟨?_, hconstraints, hsteps'.trans hsteps⟩
    rw [hwires, List.length_cons, List.range'_succ]
    simp [Store.withRecord, System.addWire]

theorem State.labelled_start (he : State.eligible setup index args = .ok f)
    (hm : State.start setup index f args (.new setup) = .ok () m) :
    m.store.Labelled f.params.length [] ∧ m.store.steps = 0 := by
  obtain ⟨u, m₁, h₁, hm⟩ := bind_eq_ok hm
  cases h₁
  obtain ⟨id, m₂, h₂, hm⟩ := bind_eq_ok hm
  have hs₂ : m₂.store.ledger = .ofRecorder .initial ∧ m₂.store.steps = 0 := by
    cases h₂
    exact ⟨rfl, rfl⟩
  obtain ⟨u, m₃, h₃, hm⟩ := bind_eq_ok hm
  obtain ⟨u, m₄, h₄, h₅⟩ := bind_eq_ok hm
  obtain ⟨hwires, hconstraints, hsteps⟩ := labels_allocInputs (State.store_onStore h₃)
  have hs₃ : m₃.store.Labelled f.params.length [] ∧ m₃.store.steps = 0 := by
    refine ⟨⟨?_, ?_⟩, hsteps.trans hs₂.2⟩
    · rw [hwires, hs₂.1, State.length_inputs he, ← List.range_eq_range', List.map_nil, List.append_nil]
      rfl
    · rw [hconstraints, hs₂.1]
      rfl
  have hs₄ := Keeps.pushFrame (I := fun s => s.Labelled f.params.length [] ∧ s.steps = 0)
    (.ofFunction index f id) m₃ hs₃
  rw [h₄] at hs₄
  cases h₅
  exact ⟨hs₄.1.1.congr rfl, hs₄.1.2⟩

end Labels

/-! ## Runs -/

/-- The numbers of the instructions of a run that apply gates. -/
def State.runGateSteps (setup : Setup) (fuel : ℕ) (index : UInt16) (args : List (Scalar p))
    (m : State (System p) p) : List ℕ :=
  (State.started? setup index args m).elim [] (State.gateSteps setup 0 fuel)

/-- **The labels of the record of a run**, wherever it stops. -/
theorem labelled_run {setup : Setup} {index : UInt16} {args : List (Scalar p)} {f : Function}
    (he : State.eligible setup index args = .ok f) (fuel : ℕ) :
    (finalState (State.run setup fuel index args (.new setup))).store.Labelled f.params.length
      (State.runGateSteps setup fuel index args (.new setup)) := by
  obtain ⟨m, hstart, -⟩ := State.start_eq he (.new setup)
  obtain ⟨hl, hsteps⟩ := State.labelled_start he hstart
  have hloop := (Reached.start he hstart).labelled_loop hl fuel
  rw [List.nil_append, hsteps] at hloop
  simp only [State.runGateSteps, State.started?, State.run, he, bind, EStateM.bind, hstart,
    Option.elim_some]
  cases hm : State.loop setup fuel m with
  | error e m' => rw [hm] at hloop; exact hloop
  | ok u m' =>
    rw [hm] at hloop
    have hpop := (Keeps.onMachineStore (effects_rearranges.popResults f.returns [])).final
      (s := m') (Store.rearranges_refl m'.store)
    exact hloop.congr hpop.recorder

/-- **The layout of a circuit** with given arguments, whose gates are applied by instructions of given
numbers. The wire of one is followed by those of the arguments. Each gate, in the order in which they
are applied, has a wire and a constraint, both with the number of the instruction as their label; the
wire occurs once in the constraint, with the factor one, and all other wires of the constraint come
before it. -/
structure Layout (sys : System p) (params : ℕ) (ns : List ℕ) : Prop where
  wires : sys.wires.size = 1 + params + sys.constraints.size
  gates : sys.constraints.size = ns.length
  arguments : ∀ i < params, sys.wires[1 + i]?.map WireEntry.label = some s!"arg#{i}"
  increasing : ns.Pairwise (· < ·)
  labels : ∀ j n, ns[j]? = some n →
    sys.constraints[j]?.map Constraint.label = some s!"step#{n}" ∧
    sys.wires[1 + params + j]?.map WireEntry.label = some s!"step#{n}"
  result : ∀ (j : ℕ) (k : Constraint p), sys.constraints[j]? = some k →
    k.sides.flatten.filter (·.wire.toNat = 1 + params + j) = [⟨1, UInt32.ofNat (1 + params + j)⟩]
  operands : ∀ (j : ℕ) (k : Constraint p), sys.constraints[j]? = some k → ∀ t ∈ k.sides.flatten,
    t.wire.toNat ≠ 1 + params + j → t.wire.toNat < 1 + params + j

theorem Store.Records.operation {n j : ℕ} {ops : List (Operation p)} {s : Store (System p) p}
    (h : s.Records n ops) {k : Constraint p} (hk : s.ledger.recorder.constraints[j]? = some k) :
    ∃ op label, k = Operation.constraint op label ∧ op.result = UInt32.ofNat (n + j) ∧
      ∀ w, op.left.wire? = some w ∨ op.right.wire? = some w → w.toNat < n + j := by
  rw [← Array.getElem?_toList] at hk
  obtain ⟨hj, rfl⟩ := List.getElem?_eq_some_iff.mp hk
  have hj' : j < ops.length := by rwa [h.constraints.length_eq]
  obtain ⟨label, hlabel⟩ := h.constraints.get hj' hj
  exact ⟨ops[j], label, hlabel, h.straight.of_getElem? (List.getElem?_eq_getElem hj')⟩

omit [Modulus p] in
theorem Store.Labelled.label_argument {params i : ℕ} {ns : List ℕ} {s : Store (System p) p}
    (h : s.Labelled params ns) (hi : i < params) :
    s.ledger.recorder.wires[1 + i]?.map WireEntry.label = some s!"arg#{i}" := by
  rw [← Array.getElem?_toList, ← List.getElem?_map, h.wires,
    List.getElem?_append_left (by simp; omega), Nat.add_comm 1 i, List.getElem?_cons_succ,
    List.getElem?_map, List.getElem?_range hi]
  rfl

omit [Modulus p] in
theorem Store.Labelled.label_gate {params j n : ℕ} {ns : List ℕ} {s : Store (System p) p}
    (h : s.Labelled params ns) (hj : ns[j]? = some n) :
    s.ledger.recorder.constraints[j]?.map Constraint.label = some s!"step#{n}" ∧
      s.ledger.recorder.wires[1 + params + j]?.map WireEntry.label = some s!"step#{n}" := by
  have hlen : ("one" :: (List.range params).map fun i => s!"arg#{i}").length = 1 + params := by
    simp [Nat.add_comm]
  constructor
  · rw [← Array.getElem?_toList, ← List.getElem?_map, h.constraints, List.getElem?_map, hj]
    rfl
  · rw [← Array.getElem?_toList, ← List.getElem?_map, h.wires,
      List.getElem?_append_right (by omega), hlen, Nat.add_sub_cancel_left, List.getElem?_map, hj]
    rfl

theorem Store.Records.layout {params : ℕ} {ns : List ℕ} {ops : List (Operation p)}
    {s : Store (System p) p} (h : s.Records (1 + params) ops) (hl : s.Labelled params ns)
    (hns : ns.Pairwise (· < ·)) (hsize : s.ledger.recorder.wires.size ≤ 2 ^ 32) :
    Layout s.ledger.recorder params ns := by
  have hops : s.ledger.recorder.constraints.size = ops.length := by
    rw [← Array.length_toList]
    exact h.constraints.length_eq.symm
  have hgates : s.ledger.recorder.constraints.size = ns.length := by
    have hlen := congrArg List.length hl.constraints
    rwa [List.length_map, List.length_map, Array.length_toList] at hlen
  have hwires := h.size
  have hlt {j : ℕ} {k : Constraint p} (hk : s.ledger.recorder.constraints[j]? = some k) :
      1 + params + j < 2 ^ 32 := by
    have hj := (Array.getElem?_eq_some_iff.mp hk).1
    omega
  refine ⟨by omega, hgates, fun i hi => hl.label_argument hi, hns, fun j n hj => hl.label_gate hj,
    fun j k hk => ?_, fun j k hk t ht hne => ?_⟩
  · obtain ⟨op, label, rfl, hresult, hoperands⟩ := h.operation hk
    exact Operation.filter_constraint (by omega) (hlt hk) hresult hoperands label
  · obtain ⟨op, label, rfl, hresult, hoperands⟩ := h.operation hk
    exact Operation.wire_lt (by omega) (hlt hk) hresult hoperands ht hne

/-! ## Between instructions -/

section Between

variable {setup : Setup} {index : UInt16} {args : List (Scalar p)} {m₀ m m' : State (System p) p}

/-- **Every state between two instructions** is where a run stops that lacks the fuel to go on. -/
theorem Reached.exists_fuel (h : Reached setup index args m₀ m) :
    ∃ fuel, State.run setup fuel index args m₀ = .error .outOfFuel m := by
  obtain ⟨k, used, -, hrun⟩ := h.exists_run
  exact ⟨used, hrun 0⟩

end Between

/-- **The layout of the circuit of a run**, wherever the run stops: with results, with a failure, or
between two instructions. Behind the wire of one are the wires of the arguments, and each gate that is
applied without a failure adds one wire and one constraint, which defines the wire from earlier
ones. -/
theorem circuit_layout {setup : Setup} {index : UInt16} {args : List (Scalar p)} {f : Function}
    (he : State.eligible setup index args = .ok f) :
    (∀ (fuel : ℕ) (sys : System p),
      (finalState (State.run setup fuel index args (.new setup))).store.ledger.recorder = sys →
      sys.wires.size ≤ 2 ^ 32 →
      Layout sys f.params.length (State.runGateSteps setup fuel index args (.new setup))) ∧
    ∀ m : State (System p) p, Reached setup index args (.new setup) m →
      ∃ fuel, State.run setup fuel index args (.new setup) = .error .outOfFuel m := by
  refine ⟨fun fuel sys hsys hsize => ?_, fun m hm => hm.exists_fuel⟩
  subst hsys
  refine (records_eligible he fuel).layout (labelled_run he fuel) ?_ hsize
  unfold State.runGateSteps
  cases State.started? setup index args (.new setup) with
  | none => exact .nil
  | some m => exact State.pairwise_gateSteps setup 0 fuel m

/-- The shape of a circuit with gates in both arms of a branch, whose last gate lacks an operand. -/
def lacksOperand : Setup :=
  .ofCode 1 1
    #[.ofNat .copyLoc 0, .ofNat .brTrue 3, .ofNat .branch 7, .ofNat .copyLoc 0, .ofNat .copyLoc 0,
      .ofNat .mul 0, .ofNat .branch 10, .ofNat .copyLoc 0, .ofNat .ldU8 2, .ofNat .add 0,
      .ofNat .eq 0, .ofNat .add 0, .ofNat .ret 0]

/-- Its record. -/
def lacksOperandCircuit : System ScalarField.bn254.modulus :=
  (finalState (State.run lacksOperand 20 0 [] (.new lacksOperand))).store.ledger.recorder

/-- The gates of both arms and the comparison behind them are recorded, but not the gate that fails. -/
theorem circuit_layout_lacksOperand :
    ∃ f, State.eligible (p := ScalarField.bn254.modulus) lacksOperand 0 [] = .ok f ∧
      isResult (State.run (p := ScalarField.bn254.modulus) lacksOperand 20 0 []
        (.new lacksOperand)) = false ∧
      lacksOperandCircuit.wires.size = 5 ∧ Layout lacksOperandCircuit 1 [5, 8, 9] := by
  have he : ∃ f, State.eligible (p := ScalarField.bn254.modulus) lacksOperand 0 [] = .ok f ∧
      f.params.length = 1 := ⟨_, rfl, rfl⟩
  obtain ⟨f, he, hparams⟩ := he
  have hsize : lacksOperandCircuit.wires.size = 5 := by decide +kernel
  have hsteps : State.runGateSteps lacksOperand 20 0 []
      (.new lacksOperand : State (System ScalarField.bn254.modulus) _) = [5, 8, 9] := by
    decide +kernel
  have hfails : isResult (State.run (p := ScalarField.bn254.modulus) lacksOperand 20 0 []
      (.new lacksOperand)) = false := by
    decide +kernel
  have hlayout := (circuit_layout he).1 20 lacksOperandCircuit rfl (hsize.trans_le (by decide))
  rw [hsteps, hparams] at hlayout
  exact ⟨f, he, hfails, hsize, hlayout⟩

end Machine

end StackCircuit
