import StackCircuit.Proofs.Machine.Apart

/-!
# Executions without faults

Whatever the code is, an execution over a constraint system gives results or fails for a reason that
lies in its program: nothing is looked up that is not there, and the system refuses nothing.

* `Frame.checkedArmBounds`: the bounds of arms, where every look-up in the code is a fault if it goes
  wrong; `Frame.checkedArmBounds_eq`: none does.
* `Store.binary_sound`: gates on values that can be used, all of whose wires are there.
* `Pending.grounded`: the wires of all values are there, also those of pending conditions.
* **`State.Sane`**: nothing that is looked up can be missing.
* **`run_never_faults`**: all states of all executions are sane, and no run ends with a fault or with a
  refusal of the constraint system.
-/

namespace StackCircuit.Machine

open Bytecode (Function Instruction)
open Circuit (System)

variable {p : ℕ}

/-! ## The code around a branch -/

/-- The instruction at a position where there has to be one. -/
def fetchAt (f : Function) (n : ℕ) : Except Halt Instruction :=
  match f.code[n]? with
  | none => .error (.fault .indexOutOfRange)
  | some i => .ok i

theorem fetchAt_eq {f : Function} {n : ℕ} {i : Instruction} (h : f.code[n]? = some i) :
    fetchAt f n = .ok i := by
  rw [fetchAt, h]

/-- **The arms of a conditional branch, read off the code step by step**, where it is a fault to look
beyond the end of the code. -/
def Frame.checkedArmBounds (f : Function) (pc : UInt16) :
    Except Halt ((UInt16 × UInt16) × Option (UInt16 × UInt16)) :=
  let refuse (message : String) : Except Halt ((UInt16 × UInt16) × Option (UInt16 × UInt16)) :=
    .error (.failure (malformed f pc message))
  if f.code.size ≤ pc.toNat + 1 then refuse "conditional branch at end of function"
  else do
    let branch ← fetchAt f pc.toNat
    if !branch.opcode.isConditionalBranch then refuse "expected conditional branch"
    else do
      let jump ← fetchAt f (pc + 1).toNat
      if jump.opcode ≠ .branch then refuse "conditional branch not followed by branch"
      else if branch.target ≠ pc + 2 then refuse "first arm must follow branch"
      else if jump.target = 0 ∨ f.code.size < jump.target.toNat then refuse "invalid branch target"
      else do
        let last := jump.target - 1
        let ending ← fetchAt f last.toNat
        if ending.opcode ≠ .branch then
          if last < branch.target then refuse "empty branch"
          else .ok ((branch.target, last), none)
        else if last ≤ branch.target ∨ ending.target < jump.target ∨
            f.code.size < ending.target.toNat then
          refuse "invalid branch arms"
        else if ending.target = jump.target then .ok ((branch.target, last - 1), none)
        else .ok ((branch.target, last - 1), some (jump.target, ending.target - 1))

/-- **Nothing is looked up beyond the end of the code.** -/
theorem Frame.checkedArmBounds_eq (f : Function) (pc : UInt16) :
    Frame.checkedArmBounds f pc = (Frame.armBounds f pc).mapError Halt.failure := by
  unfold Frame.checkedArmBounds Frame.armBounds
  by_cases hsize : f.code.size ≤ pc.toNat + 1
  · simp only [if_pos hsize]
    rfl
  have hpc : pc.toNat < f.code.size := by omega
  have hnext : (pc + 1).toNat < f.code.size := by
    rw [UInt16.toNat_add]
    have := Nat.mod_le (pc.toNat + 1) UInt16.size
    exact Nat.lt_of_le_of_lt this (by omega)
  obtain ⟨branch, hbranch⟩ : ∃ i, f.code[pc.toNat]? = some i := ⟨_, Array.getElem?_eq_getElem hpc⟩
  obtain ⟨jump, hjump⟩ : ∃ i, f.code[(pc + 1).toNat]? = some i :=
    ⟨_, Array.getElem?_eq_getElem hnext⟩
  simp only [if_neg hsize, hbranch, hjump, fetchAt_eq hbranch, fetchAt_eq hjump, bind, Except.bind]
  by_cases hsecond : jump.target = 0 ∨ f.code.size < jump.target.toNat
  · simp only [if_pos hsecond]
    split_ifs <;> rfl
  · have hpos : 0 < jump.target.toNat := by
      rw [Nat.pos_iff_ne_zero]
      exact fun h => hsecond (.inl (UInt16.toNat_inj.mp h))
    have hlast : (jump.target - 1).toNat < f.code.size := by
      rw [toNat_sub_one hpos]
      omega
    obtain ⟨ending, hending⟩ : ∃ i, f.code[(jump.target - 1).toNat]? = some i :=
      ⟨_, Array.getElem?_eq_getElem hlast⟩
    simp only [if_neg hsecond, hending, fetchAt_eq hending]
    split_ifs <;> rfl

/-! ## Gates -/

theorem combination?_of_isValid [Modulus p] {v : Value p} (h : v.isValid = true) :
    v.combination?.isSome := by
  match v with
  | .constant x type (some w) => rfl
  | .constant x type none => rfl
  | .wired w x type => rfl

theorem type_of_isValid {v : Value p} (h : v.isValid = true) : ∃ type, v.type = .ok type := by
  match v with
  | .constant x type w => exact ⟨type, rfl⟩
  | .wired w x type => exact ⟨type, rfl⟩

section Executions

variable [Modulus p] {setup : Setup} {index : UInt16} {args : List (Scalar p)}
  {m₀ m m' : State (System p) p} {s : Store (System p) p} {conds : List (Value p)}

/-- **A gate is not refused** where all values can be used and all their wires are there. -/
theorem Store.binary_sound (hs : s.Grounded) (hstack : ∀ v ∈ s.stack.items, v.isValid = true)
    (label : String) (opcode : Bytecode.Opcode) (g : Gate) :
    Sound False (fun _ => True) (Store.binary label opcode g s) := by
  obtain ⟨⟨sys, journal⟩, ⟨items, room⟩, locals, conditions, steps⟩ := s
  match items with
  | [] => exact ⟨Halt.isFailure_bare (by simp), trivial⟩
  | [v] => exact ⟨Halt.isFailure_bare (by simp), trivial⟩
  | right :: left :: rest =>
    have hright : right ∈ right :: left :: rest := List.mem_cons_self
    have hleft : left ∈ right :: left :: rest := List.mem_cons_of_mem _ List.mem_cons_self
    let op : Operation p := ⟨g, left, right, UInt32.ofNat sys.wires.size⟩
    obtain ⟨journal', happ⟩ : ∃ journal', g.apply label left right conditions.top? ⟨sys, journal⟩ =
        .ok op.outcome
          ⟨(sys.addWire label op.value?).addConstraint (op.constraint label), journal'⟩ :=
      Operation.apply_eq op label conditions.top? (combination?_of_isValid (hstack left hleft))
        (combination?_of_isValid (hstack right hright)) rfl
        fun t ht => hs.hasWire_constraint (.inl hleft) (.inl hright) rfl ht
    rw [Store.binary_eq, happ]
    exact trivial

/-! ## Wires -/

theorem State.size_step (hs : m.store.Grounded) (setup : Setup) :
    m.store.ledger.recorder.wires.size ≤
      (finalState (State.step setup m)).store.ledger.recorder.wires.size := by
  rcases State.step_cases setup hs with ⟨-, h⟩ | ⟨op, label, rest, -, h⟩
  · rw [h.recorder]
  · rw [h.recorder]
    exact Nat.le_of_lt (by simp [System.addConstraint, System.addWire])

omit [Modulus p] in
theorem State.mem_stack_of_unknown? {v : Value p} (h : m.unknown? = some v) :
    v ∈ m.store.stack.items := by
  unfold State.unknown? at h
  obtain ⟨i, -, h⟩ := Option.bind_eq_some_iff.mp h
  obtain ⟨u, hu, h⟩ := Option.bind_eq_some_iff.mp h
  split at h
  · cases h
    exact List.mem_of_head? hu
  · cases h

/-- **The wires of all values are there**, those of pending conditions included. -/
theorem Pending.grounded (h : Pending setup index args m₀ m conds) :
    m.store.Grounded ∧ ∀ v ∈ conds, ∀ w, v.wire? = some w →
      w.toNat < m.store.ledger.recorder.wires.size := by
  have hinvariant := Invariant.of_grounded (p := p) setup.config.mode
  induction h with
  | start he hm =>
    refine ⟨hinvariant.of_start (fun s hempty v w hv => absurd hv (hempty v)) hm, ?_⟩
    exact fun v hv => nomatch hv
  | @step m m' conds done _ hm ih =>
    obtain ⟨hs, hconds⟩ := ih
    have hs' := hinvariant.step hs
    have hsize := State.size_step hs setup
    rw [hm] at hs' hsize
    refine ⟨hs', fun v hv w hw => Nat.lt_of_lt_of_le ?_ hsize⟩
    -- A condition was pending before, or it has been popped from the stack.
    have hmem := List.mem_of_mem_drop hv
    rcases List.mem_append.mp hmem with hmem | hmem
    · have htop := State.mem_stack_of_unknown? (Option.mem_toList.mp hmem)
      exact hs v w (.inl htop) hw
    · exact hconds v hmem w hw

/-! ## Blocks -/

/-- The numbers of the blocks of a program block. -/
def ProgramBlock.blocks : ProgramBlock → List ℕ
  | simple n => [n]
  | conditional c => c.toList.map Arm.block

theorem Conditional.exists_running {c : Conditional} (h : c.toList.countP Arm.running = 1) :
    ∃ n ∈ c.toList.map Arm.block, c.running? = some n := by
  match c with
  | .onTrue ⟨n, true⟩ => exact ⟨n, List.mem_cons_self, rfl⟩
  | .onFalse ⟨n, true⟩ => exact ⟨n, List.mem_cons_self, rfl⟩
  | .both ⟨n, true⟩ _ => exact ⟨n, List.mem_cons_self, rfl⟩
  | .both ⟨_, false⟩ ⟨n, true⟩ => exact ⟨n, List.mem_cons_of_mem _ List.mem_cons_self, rfl⟩

omit [Modulus p] in
/-- **All blocks of a frame are there**: that which is running, and those that wait. -/
theorem Frame.Coherent.mem_blocks {f : Frame} {cs : List Conditional} {guards : List (Guard p)}
    (h : f.Coherent cs guards) {b : ProgramBlock} (hb : b ∈ f.current :: f.suspended.items) :
    (∃ n ∈ b.blocks, b.running? = some n) ∧ ∀ n ∈ b.blocks, n < f.blocks.size := by
  have hlt {n : ℕ} (hn : n ∈ 0 :: cs.flatMap fun c => c.toList.map Arm.block) :
      n < f.blocks.size := by
    rw [h.blocks] at hn
    exact List.mem_range.mp hn
  have hmem : b ∈ f.suspended.toList ++ [f.current] := by
    rw [List.mem_append, List.mem_singleton, BoundedStack.toList, List.mem_reverse]
    exact (List.mem_cons.mp hb).symm
  rw [h.program] at hmem
  rcases List.mem_cons.mp hmem with rfl | hmem
  · refine ⟨⟨0, List.mem_cons_self, rfl⟩, fun n hn => hlt ?_⟩
    rw [List.mem_singleton.mp hn]
    exact List.mem_cons_self
  · obtain ⟨c, hc, rfl⟩ := List.mem_map.mp hmem
    refine ⟨Conditional.exists_running (h.running c hc), fun n hn => hlt ?_⟩
    exact List.mem_cons_of_mem _ (List.mem_flatMap.mpr ⟨c, hc, hn⟩)

/-! ## Runs -/

/-- **Nothing that is looked up can be missing**: there is a function under execution; the values on
the stack can be used, and so have types; the wires of all values are there; so are the locals of all
frames, and their blocks; and identifiers to use again have been used before. -/
structure State.Sane (m : State (System p) p) : Prop where
  frames : m.frames.items ≠ []
  stack : ∀ v ∈ m.store.stack.items, v.isValid = true ∧ v.combination?.isSome ∧
    ∃ type, v.type = .ok type
  wires : ∀ v w, m.store.Holds v ∨ v ∈ m.store.conditions.items.map Guard.cond →
    v.wire? = some w → w.toNat < m.store.ledger.recorder.wires.size
  locals : ∀ f ∈ m.frames.items, (∃ slots, m.store.locals.slots f.localsId = .ok slots) ∧
    ∀ b ∈ f.blocks, b.localsId = f.localsId
  blocks : ∀ f ∈ m.frames.items, ∀ b ∈ f.current :: f.suspended.items,
    (∃ n ∈ b.blocks, b.running? = some n) ∧ ∀ n ∈ b.blocks, n < f.blocks.size
  free : ∀ id ∈ m.store.locals.free, id < m.store.locals.entries.size

/-- **All states of an execution are sane.** -/
theorem Reached.sane (h : Reached setup index args m₀ m) : m.Sane := by
  obtain ⟨conds, hpending⟩ := h.pending
  obtain ⟨hgrounded, hconds⟩ := hpending.grounded
  obtain ⟨gs, hw, hguards⟩ := hpending.watched
  have hitems : m.store.conditions.items = gs.flatten := congrArg BoundedStack.items hw.conditions
  have horderly := h.orderly
  refine ⟨h.items_ne_nil, fun v hv => ?_, fun v w hv hw => ?_, fun f hf => ?_, fun f hf b hb => ?_,
    fun id hid => LocalsTable.lt_size_of_absent (horderly.houses.absent id hid)⟩
  · have hvalid := horderly.stack v hv
    exact ⟨hvalid, combination?_of_isValid hvalid, type_of_isValid hvalid⟩
  · rcases hv with hv | hv
    · exact hgrounded v w hv hw
    · rw [hitems, hguards] at hv
      exact hconds v hv w hw
  · obtain ⟨slots, hslots, -⟩ := horderly.apart.slots f hf
    exact ⟨⟨slots, hslots⟩, horderly.apart.blocks f hf⟩
  · obtain ⟨guards, hguarded⟩ := hw.guarded hf
    obtain ⟨cs, hcoherent⟩ := hguarded.coherent
    exact hcoherent.mem_blocks hb

/-- **A step over a constraint system does not go wrong**, and the system refuses nothing. -/
theorem Reached.step_sound (h : Reached setup index args m₀ m) :
    Sound False (fun _ => True) (State.step setup m) := by
  obtain ⟨conds, hpending⟩ := h.pending
  obtain ⟨gs, hw⟩ := h.watched
  have hgrounded := hpending.grounded.1
  refine (h.orderly.step hw setup fun k i pc g _ _ => ?_).mono fun _ _ => trivial
  exact Store.binary_sound (s := m.store.fetch k i pc) hgrounded h.orderly.stack _ _ g

omit [Modulus p] in
theorem State.isFailure_eligible {e : Failure} (h : State.eligible setup index args = .error e) :
    (Halt.failure e).IsFailure False := by
  unfold State.eligible at h
  cases hf : setup.program.function? index with
  | none =>
    rw [hf] at h
    cases h
    exact Halt.isFailure_because (by simp)
  | some f =>
    rw [hf] at h
    dsimp only at h
    split at h
    · cases h
      exact Halt.isFailure_because (by simp)
    · cases h

theorem State.run_eq_error {fuel : ℕ} {e : Halt}
    (h : State.run setup fuel index args m₀ = .error e m) :
    e.IsFailure False ∨ e = .outOfFuel ∧ Reached setup index args m₀ m := by
  unfold State.run at h
  cases he : State.eligible setup index args with
  | error e' =>
    rw [he] at h
    cases h
    exact .inl (State.isFailure_eligible he)
  | ok f =>
    obtain ⟨m₁, hstart, -⟩ := State.start_eq he m₀
    simp only [he, bind, EStateM.bind, hstart] at h
    have hcases := (Reached.start he hstart).loop_cases fuel
    cases hloop : State.loop setup fuel m₁ with
    | error e' m₂ =>
      rw [hloop] at h hcases
      cases h
      rcases hcases with ⟨m₃, hr, hstep⟩ | hfuel
      · have hsound := hr.step_sound
        rw [hstep] at hsound
        exact .inl hsound.1
      · exact .inr hfuel
    | ok u m₂ =>
      rw [hloop] at h
      have hsafe := safe_popResults False f.returns [] m₂.store trivial
      simp only [State.onStore] at h
      cases hx : State.popResults f.returns [] m₂.store with
      | ok values s => rw [hx] at h; cases h
      | error e' s =>
        rw [hx] at h hsafe
        cases h
        exact .inl hsafe.1

end Executions

/-- **Runs over a constraint system never fault, and the system refuses nothing**, whatever the code,
the arguments and the mode: in all states of an execution everything is there that is looked up, so
are the instructions around a branch and the arguments of a run, and a run that stops short fails for
a reason in its program, unless it can go on. -/
theorem run_never_faults [Modulus p] (setup : Setup) (index : UInt16) (args : List (Scalar p))
    (m₀ : State (System p) p) :
    (∀ m, Reached setup index args m₀ m → m.Sane) ∧
    (∀ f pc, Frame.checkedArmBounds f pc = (Frame.armBounds f pc).mapError Halt.failure) ∧
    (∀ f, State.eligible setup index args = .ok f →
      (State.inputs setup.config.mode f args).length = f.params.length) ∧
    ∀ fuel e m, State.run setup fuel index args m₀ = .error e m →
      (∀ c, e ≠ .fault c) ∧
      (∀ failure, e = .failure failure → ∀ r ∈ failure.reports, r.status ≠ .synthesisError) ∧
      (e = .outOfFuel → Reached setup index args m₀ m) := by
  refine ⟨fun m hr => hr.sane, Frame.checkedArmBounds_eq, fun f he => State.length_inputs he,
    fun fuel e m h => ?_⟩
  rcases State.run_eq_error h with hfailure | ⟨rfl, hr⟩
  · refine ⟨?_, ?_, ?_⟩
    · rintro c rfl
      exact hfailure
    · rintro failure rfl r hr hs
      exact hfailure r hr hs
    · rintro rfl
      exact hfailure.elim
  · exact ⟨nofun, nofun, fun _ => hr⟩

/-- Arms within arms are sane, and a machine that has no more room for them fails. -/
theorem run_never_faults_startOver :
    (∃ m : State (System ScalarField.bn254.modulus) _,
      Reached startOver 0 [] (.new startOver) m ∧ m.depth = 2 ∧ m.Sane) ∧
    ∃ (e : Halt) (m : State (System ScalarField.bn254.modulus) _),
      State.run startOver 30 0 [] (.new startOver) = .error e m ∧ ∀ c, e ≠ .fault c := by
  obtain ⟨hsane, -, -, herror⟩ := run_never_faults (p := ScalarField.bn254.modulus) startOver 0 []
    (.new startOver)
  constructor
  · have hcheck : (State.started? (p := ScalarField.bn254.modulus) startOver 0 []
        (.new startOver)).any (fun m => (m.walk startOver 5).depth = 2) = true := by
      decide +kernel
    simp only [Option.any_eq_true, decide_eq_true_eq] at hcheck
    obtain ⟨m, hm, hdepth⟩ := hcheck
    obtain ⟨f, he, hs⟩ := State.started?_eq_some hm
    have hr := (Reached.start he hs).walk 5
    exact ⟨_, hr, hdepth, hsane _ hr⟩
  · have hcheck : isResult (State.run (p := ScalarField.bn254.modulus) startOver 30 0 []
        (.new startOver)) = false := by
      decide +kernel
    unfold isResult at hcheck
    split at hcheck
    · cases hcheck
    · rename_i e m hrun
      exact ⟨e, m, hrun, (herror 30 e m hrun).1⟩

end StackCircuit.Machine
