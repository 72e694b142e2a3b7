import StackCircuit.Proofs.Machine.Gates

/-!
# The start of a run

A function that is eligible can always be entered: its arguments get wires one after the other, which
its locals are bound to.

* `State.started?`: the machine that a run starts from; `State.argumentWires`: the wires of the
  arguments in it.
* `allocInputs_eq_ok`: the allocation of inputs succeeds where there are slots for them.
* **`State.start_eq`**: what the machine is like when a function has been entered.
* `State.argumentWires_eq`: its arguments have new wires in order.
-/

namespace StackCircuit.Machine

open Bytecode (Function Instruction)
open Circuit (Wire System)

variable {p : ℕ}

/-- The shape of a circuit with one function, whose locals are its parameters. -/
def Setup.ofCode (params returns : ℕ) (code : Array Instruction) : Setup :=
  ⟨⟨#[⟨"main", .replicate params .u64, params, returns, code, Nat.le_of_eq List.length_replicate⟩]⟩,
    Config.standard.inMode .shape⟩

/-! ## Slots -/

namespace LocalsTable

variable {t : LocalsTable p} {id : ℕ} {slots : Slots p}

theorem slots_eq_ok : t.slots id = .ok slots ↔ t.entries[id]? = some (some slots) := by
  unfold LocalsTable.slots
  split <;> simp_all

theorem slot?_of_slots (h : t.slots id = .ok slots) (j : ℕ) : t.slot? id j = slots[j]? := by
  rw [slots_eq_ok] at h
  simp only [slot?, h, bind, Option.bind]

theorem store_eq_ok {j : ℕ} {v : Value p} (h : t.slots id = .ok slots) (hj : j < slots.size) :
    t.store id j v = .ok (t.write id j v) := by
  rw [store, h]
  exact if_pos hj

theorem slots_write {j : ℕ} {v : Value p} (h : t.slots id = .ok slots) :
    (t.write id j v).slots id = .ok (slots.setIfInBounds j v) := by
  rw [slots_eq_ok] at h ⊢
  rw [write, Array.getElem?_modify, if_pos rfl, h]
  rfl

end LocalsTable

/-! ## Inputs -/

/-- The wires of inputs that go to the slots from `i` on, where `n` wires are there before. -/
def inputWire? (n i count : ℕ) (slots : Slots p) (j : ℕ) : Option Wire :=
  if i ≤ j ∧ j < i + count then some (UInt32.ofNat (n + (j - i))) else slots[j]?.bind Value.wire?

/-- **The allocation of inputs**: one wire after the other goes into one slot after the other. -/
theorem allocInputs_eq_ok {id i : ℕ} {inputs : List (ValueType × Option (Scalar p))}
    {s : Store (System p) p} {slots : Slots p} (hs : s.locals.slots id = .ok slots)
    (hi : i + inputs.length ≤ slots.size) :
    ∃ s' slots', State.allocInputs id i inputs s = .ok () s' ∧ s'.locals.slots id = .ok slots' ∧
      s'.ledger.recorder.wires.size = s.ledger.recorder.wires.size + inputs.length ∧
      s'.ledger.recorder.constraints = s.ledger.recorder.constraints ∧
      ∀ j, slots'[j]?.bind Value.wire? =
        inputWire? s.ledger.recorder.wires.size i inputs.length slots j := by
  induction inputs generalizing i s slots with
  | nil =>
    refine ⟨s, slots, rfl, hs, rfl, rfl, fun j => ?_⟩
    rw [inputWire?, if_neg (by rw [List.length_nil]; omega)]
  | cons input rest ih =>
    obtain ⟨type, x⟩ := input
    rw [List.length_cons] at hi ⊢
    obtain ⟨n, hn⟩ : ∃ n, s.ledger.recorder.wires.size = n := ⟨_, rfl⟩
    let v : Value p := .wired (UInt32.ofNat n) x type
    let s₁ := s.withRecord (s.ledger.recorder.addWire s!"arg#{i}" x)
    let s₂ : Store (System p) p := { s₁ with locals := s.locals.write id i v }
    have halloc := (Invariant.rearranges_allocInput id i s!"arg#{i}" x type s).1
    have hstore : Store.storeLocal id i v s₁ = .ok () s₂ := by
      unfold Store.storeLocal
      rw [show s₁.locals = s.locals from rfl, LocalsTable.store_eq_ok hs (by omega)]
    obtain ⟨s', slots', hok, hslots, hsize, hconstraints, hwires⟩ :=
      ih (i := i + 1) (s := s₂) (LocalsTable.slots_write hs) (by rw [Array.size_setIfInBounds]; omega)
    have hn₂ : s₂.ledger.recorder.wires.size = n + 1 := by
      rw [← hn]
      exact Array.size_push _
    refine ⟨s', slots', ?_, hslots, by rw [hsize, hn₂]; omega, hconstraints, fun j => ?_⟩
    · rw [hn] at halloc
      simp only [State.allocInputs, bind, EStateM.bind, halloc]
      rw [hstore]
      exact hok
    · rw [hwires, hn₂, inputWire?, inputWire?, Array.getElem?_setIfInBounds, hn]
      by_cases hj : i = j
      · subst hj
        rw [if_neg (by omega), if_pos rfl, if_pos (by omega), if_pos (by omega), Nat.sub_self]
        rfl
      · by_cases hr : i + 1 ≤ j ∧ j < i + 1 + rest.length
        · rw [if_pos hr, if_pos (by omega)]
          congr 2
          omega
        · rw [if_neg hr, if_neg hj, if_neg (by omega)]

/-! ## Entering a function -/

variable [Modulus p]

/-- The machine that a run starts from, if it starts. -/
def State.started? (setup : Setup) (index : UInt16) (args : List (Scalar p))
    (m : State (System p) p) : Option (State (System p) p) :=
  match State.eligible setup index args with
  | .error _ => none
  | .ok f =>
    match State.start setup index f args m with
    | .ok _ m' => some m'
    | .error _ _ => none

omit [Modulus p] in
theorem State.started?_eq_some {setup : Setup} {index : UInt16} {args : List (Scalar p)}
    {m m' : State (System p) p} (h : State.started? setup index args m = some m') :
    ∃ f, State.eligible setup index args = .ok f ∧ State.start setup index f args m = .ok () m' := by
  unfold State.started? at h
  cases he : State.eligible setup index args with
  | error e => rw [he] at h; cases h
  | ok f =>
    rw [he] at h
    dsimp only at h
    cases hs : State.start setup index f args m with
    | error e m₁ => rw [hs] at h; cases h
    | ok u m₁ =>
      rw [hs] at h
      cases h
      exact ⟨f, rfl, hs⟩

/-- The wires that the locals of the topmost function are bound to. -/
def State.localWires (m : State (System p) p) : List Wire :=
  match m.frames.top? with
  | none => []
  | some f =>
    (List.range f.function.locals).filterMap fun j =>
      (m.store.locals.slot? f.localsId j).bind Value.wire?

/-- The wires of the arguments of a run. -/
def State.argumentWires (setup : Setup) (index : UInt16) (args : List (Scalar p))
    (m : State (System p) p) : List Wire :=
  (State.started? setup index args m).elim [] State.localWires

omit [Modulus p] in
theorem State.eligible_eq_ok {setup : Setup} {index : UInt16} {args : List (Scalar p)} {f : Function}
    (hf : setup.program.function? index = some f)
    (hargs : setup.config.mode = .witness → args.length = f.params.length) :
    State.eligible setup index args = .ok f := by
  unfold State.eligible
  rw [hf]
  exact if_neg fun h => h.2 (hargs h.1)

omit [Modulus p] in
theorem State.length_inputs {setup : Setup} {index : UInt16} {args : List (Scalar p)} {f : Function}
    (he : State.eligible setup index args = .ok f) :
    (State.inputs setup.config.mode f args).length = f.params.length := by
  unfold State.eligible at he
  cases hf : setup.program.function? index with
  | none => rw [hf] at he; cases he
  | some g =>
    rw [hf] at he
    by_cases hbad : setup.config.mode = .witness ∧ args.length ≠ g.params.length
    · simp only [if_pos hbad] at he
      cases he
    · simp only [if_neg hbad] at he
      cases he
      by_cases hm : setup.config.mode = .witness
      · have hlen : args.length = f.params.length := by
          by_contra hne
          exact hbad ⟨hm, hne⟩
        rw [inputs, if_pos hm, List.length_zip, List.length_map, hlen, Nat.min_self]
      · rw [inputs, if_neg hm, List.length_map]

theorem push_noFrames (c : Config) (f : Frame) :
    ∃ frames, (State.noFrames c).push f = .ok frames ∧ frames.items = [f] := by
  unfold State.noFrames BoundedStack.ofCapacity Config.capacityOf Config.standardSize
  cases c.callSize with
  | zero => exact ⟨_, rfl, rfl⟩
  | succ n => exact ⟨_, rfl, rfl⟩

omit [Modulus p] in
theorem filterMap_inputWire? {n k l : ℕ} (hk : k ≤ l) :
    (List.range l).filterMap (inputWire? n 0 k (Array.replicate l (.invalid : Value p))) =
      (List.range k).map fun j => UInt32.ofNat (n + j) := by
  obtain ⟨d, rfl⟩ := Nat.exists_eq_add_of_le hk
  have hinputs : (List.range k).filterMap
      (inputWire? n 0 k (Array.replicate (k + d) (.invalid : Value p))) =
      (List.range k).map fun j => UInt32.ofNat (n + j) := by
    rw [← List.filterMap_eq_map]
    refine List.filterMap_congr fun j hj => ?_
    have hlt := List.mem_range.mp hj
    rw [inputWire?, if_pos (by omega), Nat.sub_zero]
    rfl
  have hothers : ((List.range d).map (k + ·)).filterMap
      (inputWire? n 0 k (Array.replicate (k + d) (.invalid : Value p))) = [] := by
    refine List.filterMap_eq_nil_iff.mpr fun j hj => ?_
    obtain ⟨i, -, rfl⟩ := List.mem_map.mp hj
    rw [inputWire?, if_neg (by omega), Array.getElem?_replicate]
    split <;> rfl
  rw [List.range_add, List.filterMap_append, hinputs, hothers, List.append_nil]

omit [Modulus p] in
/-- **Entering a function**: it is the only one on the call stack, its locals are bound to new wires
in order, and nothing else is recorded. -/
theorem State.start_eq {setup : Setup} {index : UInt16} {args : List (Scalar p)} {f : Function}
    (he : State.eligible setup index args = .ok f) (m : State (System p) p) :
    ∃ m', State.start setup index f args m = .ok () m' ∧
      m'.frames.items = [Frame.ofFunction index f 0] ∧
      m'.store.ledger.recorder.wires.size =
        m.store.ledger.recorder.wires.size + f.params.length ∧
      m'.store.ledger.recorder.constraints = m.store.ledger.recorder.constraints ∧
      m'.localWires = (List.range f.params.length).map fun j =>
        UInt32.ofNat (m.store.ledger.recorder.wires.size + j) := by
  let slots : Slots p := Array.replicate f.locals .invalid
  let s₁ : Store (System p) p :=
    { Store.initial m.store.ledger (Config.capacityOf setup.config.evalSize) with
      locals := ⟨#[some slots], []⟩ }
  have hlen := State.length_inputs he
  have hslots : s₁.locals.slots 0 = .ok slots := rfl
  have hroom : 0 + (State.inputs setup.config.mode f args).length ≤ slots.size := by
    rw [hlen, Array.size_replicate, Nat.zero_add]
    exact f.params_le_locals
  obtain ⟨s₂, slots₂, halloc, hslots₂, hsize, hconstraints, hwires⟩ := allocInputs_eq_ok hslots hroom
  obtain ⟨frames, hpush, hframes⟩ := push_noFrames setup.config (Frame.ofFunction index f 0)
  let s₃ : Store (System p) p :=
    { s₂ with ledger := ⟨s₂.ledger.recorder, s₂.ledger.journal.push (.run f.name setup.config.mode)⟩ }
  refine ⟨⟨s₃, frames⟩, ?_, hframes, ?_, hconstraints, ?_⟩
  · have hlocals : State.onStore (Store.allocLocals f.locals)
        (.initial setup.config m.store.ledger) = .ok 0 ⟨s₁, noFrames setup.config⟩ := rfl
    simp only [State.start, bind, EStateM.bind, State.reset, hlocals]
    simp only [State.onStore, halloc, State.pushFrame, hpush]
    rfl
  · rw [← hlen]
    exact hsize
  · have htop : State.localWires ⟨s₃, frames⟩ = (List.range f.locals).filterMap fun j =>
        inputWire? m.store.ledger.recorder.wires.size 0 f.params.length slots j := by
      unfold State.localWires
      rw [BoundedStack.top?, hframes, List.head?_cons]
      refine List.filterMap_congr fun j _ => ?_
      change (s₂.locals.slot? 0 j).bind Value.wire? = _
      rw [LocalsTable.slot?_of_slots hslots₂, hwires, hlen]
      rfl
    rw [htop]
    exact filterMap_inputWire? f.params_le_locals

omit [Modulus p] in
theorem State.argumentWires_eq {setup : Setup} {index : UInt16} {args : List (Scalar p)}
    {f : Function} (he : State.eligible setup index args = .ok f) (m : State (System p) p) :
    State.argumentWires setup index args m = (List.range f.params.length).map fun j =>
      UInt32.ofNat (m.store.ledger.recorder.wires.size + j) := by
  obtain ⟨m', hstart, -, -, -, hwires⟩ := State.start_eq he m
  simp only [State.argumentWires, State.started?, he, hstart, Option.elim_some, hwires]

end StackCircuit.Machine
