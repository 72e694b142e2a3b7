import StackCircuit.Proofs.Machine.Tenancy

/-!
# Frames do not share locals

In every execution the locals in use are those of the functions under execution, and a function that
waits for its callee finds its locals as they were.

* `Reached.orderly`: frames are in order in all states of an execution; `Reached.proceeds`: so they
  are after every step, also one that fails.
* `State.Apart`: what this says of the frames and the table of locals.
* `Above`: the states while callees are under execution; `Above.spared`: the functions below wait,
  with the locals they had.
* **`locals_apart`**: frames never share locals, and nothing changes those of a function that waits.
-/

namespace StackCircuit.Machine

open Bytecode (Function)
open Circuit (Recorder System)

variable {σ : Type} {p : ℕ}

/-! ## Executions -/

section Executions

variable [Recorder σ p] {m₀ m m' m'' : State σ p} {setup : Setup} {index : UInt16} {f : Function}
  {args : List (Scalar p)} {t₀ : LocalsTable p} {x : ℕ × ℕ} {others : List (ℕ × ℕ)}

theorem serves_allocInputs (i : ℕ) (inputs : List (ValueType × Option (Scalar p))) :
    Safe True (Store.Serves (σ := σ) t₀ x others) (State.allocInputs x.1 i inputs)
      fun _ => True := by
  induction inputs generalizing i with
  | nil => exact Safe.pure trivial
  | cons input inputs ih =>
    obtain ⟨type, y⟩ := input
    refine Safe.bind (V := fun _ => True) ?_ fun v _ =>
      (serves_storeLocal i v).bind fun _ _ => ih (i + 1)
    refine Safe.bind (V := fun _ => True) ?_ fun w _ => Safe.pure trivial
    rintro ⟨ledger, stack, locals, conditions, steps⟩ h
    simp only [Store.onLedger, Ledger.record]
    cases Recorder.alloc s!"arg#{i}" (.ofOption y) ledger.recorder with
    | ok w l => exact ⟨h.congr rfl rfl, trivial⟩
    | error e l => exact ⟨fun _ _ _ => trivial, h.congr rfl rfl⟩

theorem State.orderly_start (hm : State.start setup index f args m₀ = .ok () m) : m.Orderly := by
  obtain ⟨u, m₁, h₁, hm⟩ := bind_eq_ok hm
  cases h₁
  obtain ⟨id, m₂, h₂, hm⟩ := bind_eq_ok hm
  obtain ⟨u, m₃, h₃, hm⟩ := bind_eq_ok hm
  obtain ⟨u, m₄, h₄, h₅⟩ := bind_eq_ok hm
  have hnew : (State.initial setup.config m₀.store.ledger : State σ p).Orderly :=
    ⟨.empty, (fun _ h => nomatch h), fun _ h => nomatch h⟩
  have hs₂ : m₂.store.Serves .empty (id, f.locals) [] := by
    cases h₂
    exact hnew.alloc f.locals
  have hinputs : Keeps (Store.Serves (σ := σ) .empty (id, f.locals) [])
      (State.allocInputs id 0 (State.inputs setup.config.mode f args)) fun _ => True :=
    (serves_allocInputs 0 _).keeps
  have hs₃ := Keeps.onMachineStore hinputs m₂ hs₂
  rw [h₃] at hs₃
  have hs₄ := Keeps.pushFrame (.ofFunction index f id) m₃ hs₃.1
  rw [h₄] at hs₄
  have hserves : m.store.Serves .empty (id, f.locals) [] := by
    cases h₅
    exact Store.Serves.congr hs₄.1 rfl rfl
  have hitems : m.frames.items = [.ofFunction index f id] := by
    rw [State.frames_onStore h₅, State.items_pushFrame h₄, State.frames_onStore h₃,
      State.frames_onStore h₂]
    rfl
  refine ⟨?_, ?_, hserves.stack⟩
  · rw [hitems]
    exact hserves.houses
  · rw [hitems]
    exact List.forall_mem_singleton.mpr (.ofFunction index f id)

omit [Recorder σ p] in
theorem safe_pop (blame : Prop) :
    Safe blame (fun _ => True) (Store.pop : EStateM Halt (Store σ p) (Value p)) fun _ => True := by
  intro s _
  unfold Store.pop
  cases s.stack.pop with
  | ok r => exact ⟨trivial, trivial⟩
  | error e => exact ⟨Halt.isFailure_bare (by simp), trivial⟩

omit [Recorder σ p] in
theorem safe_popResults (blame : Prop) (n : ℕ) (values : List (Value p)) :
    Safe blame (fun _ => True) (State.popResults n values : EStateM Halt (Store σ p) _)
      fun _ => True := by
  induction n generalizing values with
  | zero => exact Safe.pure trivial
  | succ n ih => exact (safe_pop blame).bind fun v _ => ih (v :: values)

variable [Modulus p]

theorem safe_binary (label : String) (opcode : Bytecode.Opcode) (g : Gate) :
    Safe True (fun _ => True) (Store.binary label opcode g : EStateM Halt (Store σ p) Unit)
      fun _ => True := by
  refine (safe_pop True).bind fun right _ => (safe_pop True).bind fun left _ => ?_
  refine Safe.bind (V := fun _ => True) (fun _ _ => ⟨trivial, trivial⟩) fun s _ => ?_
  refine Safe.bind (V := fun _ => True) ?_ fun v _ => ?_
  · rintro ⟨ledger, stack, locals, conditions, steps⟩ -
    dsimp only [Store.record]
    cases g.apply label left right s.conditions.top? ledger with
    | ok v l => exact ⟨trivial, trivial⟩
    | error e l => exact ⟨fun _ _ _ => trivial, trivial⟩
  · intro s _
    unfold Store.push
    cases s.stack.push v with
    | ok stack => exact ⟨trivial, trivial⟩
    | error e => exact ⟨Halt.isFailure_bare (by simp), trivial⟩

theorem Reached.watched (h : Reached setup index args m₀ m) : ∃ gs, m.Watched gs := by
  obtain ⟨conds, hpending⟩ := h.pending
  obtain ⟨gs, hw, -⟩ := hpending.watched
  exact ⟨gs, hw⟩

theorem State.Orderly.proceeds {gs : List (List (Guard p))} (h : m.Orderly) (hw : m.Watched gs)
    (setup : Setup) : Sound True m.Proceeds (State.step setup m) :=
  h.step hw setup fun _ _ _ g _ _ => (safe_binary _ _ g).sound trivial

/-- **Frames stay in order** in all states of an execution. -/
theorem Reached.orderly (h : Reached setup index args m₀ m) : m.Orderly := by
  induction h with
  | start he hm => exact State.orderly_start hm
  | @step m m' h hm ih =>
    obtain ⟨gs, hw⟩ := h.watched
    have hstep := ih.proceeds hw setup
    rw [hm] at hstep
    exact hstep.orderly

theorem Reached.proceeds (h : Reached setup index args m₀ m) :
    m.Proceeds (finalState (State.step setup m)) := by
  obtain ⟨gs, hw⟩ := h.watched
  exact (h.orderly.proceeds hw setup).final

theorem Reached.proceeds_of_ok (h : Reached setup index args m₀ m) {done : Bool}
    (hm : State.step setup m = .ok done m') : m.Proceeds m' := by
  have hproceeds := h.proceeds
  rw [hm] at hproceeds
  exact hproceeds

/-! ## Functions that wait -/

/-- **Frames that do not share locals**: they have different identifiers, behind each of which are as
many slots as its function has locals; all blocks of a frame use its identifier; and no identifier
that can be used again is in use, or to be used twice. -/
structure State.Apart (m : State σ p) : Prop where
  distinct : (m.frames.items.map Frame.localsId).Nodup
  slots : ∀ f ∈ m.frames.items, ∃ slots, m.store.locals.slots f.localsId = .ok slots ∧
    slots.size = f.function.locals
  blocks : ∀ f ∈ m.frames.items, ∀ b ∈ f.blocks, b.localsId = f.localsId
  nodup_free : m.store.locals.free.Nodup
  free : ∀ id ∈ m.store.locals.free, ∀ slots, m.store.locals.slots id ≠ .ok slots
  size : m.store.locals.entries.size = m.frames.size + m.store.locals.free.length
  live : m.store.locals.live = UInt64.ofNat m.frames.size

omit [Recorder σ p] [Modulus p] in
theorem State.Orderly.apart (h : m.Orderly) : m.Apart := by
  obtain ⟨hhouses, huniform, -⟩ := h
  have hlen : (m.frames.items.map Frame.tenant).length = m.frames.size := List.length_map _
  refine ⟨?_, fun f hf => ?_, fun f hf => (huniform f hf).blocks, hhouses.nodup_free,
    fun id hid slots hslots => ?_, ?_, ?_⟩
  · have hnodup := hhouses.nodup
    rw [List.map_map] at hnodup
    exact hnodup
  · exact hhouses.slots f.tenant (List.mem_map_of_mem hf)
  · exact nomatch (hhouses.absent id hid).symm.trans hslots
  · rw [hhouses.size, hlen]
  · rw [hhouses.live, hlen]

/-- **The states while callees are under execution**: those that steps lead to from a given state, as
long as there are more than `depth` frames. -/
inductive Above (setup : Setup) (depth : ℕ) (m : State σ p) : State σ p → Prop
  | start : Above setup depth m m
  | step {m' m'' : State σ p} (h : Above setup depth m m') (hdepth : depth < m'.frames.size)
      (hm : State.step setup m' = .ok false m'') : Above setup depth m m''

omit [Modulus p] [Recorder σ p] in
theorem State.length_waiting (m : State σ p) : m.waiting.length = m.frames.size - 1 :=
  List.length_tail

omit [Modulus p] [Recorder σ p] in
theorem State.Proceeds.suspends (h : m.Proceeds m') (hsize : m'.frames.size = m.frames.size + 1) :
    m'.waiting = m.frames.items := by
  have hlen := m'.length_waiting
  have hlen' := m.length_waiting
  have hitems : m.frames.items.length = m.frames.size := rfl
  rcases h.waiting with hw | hw | hw
  · have hnil : m.frames.items = [] := List.eq_nil_of_length_eq_zero (by rw [hw] at hlen; omega)
    rw [hw, State.waiting, hnil, List.tail_nil]
  · exact hw
  · have hnil : m.frames.items = [] := by
      rw [hw, List.length_tail] at hlen
      exact List.eq_nil_of_length_eq_zero (by omega)
    rw [hw, State.waiting, hnil, List.tail_nil, List.tail_nil]

omit [Modulus p] [Recorder σ p] in
theorem State.Proceeds.below (h : m.Proceeds m') {fs : List Frame} (hfs : fs <:+ m.waiting)
    (hlt : fs.length < m'.frames.size) : fs <:+ m'.waiting := by
  have hlen := m'.length_waiting
  rcases h.waiting with hw | hw | hw
  · rw [hw]
    exact hfs
  · rw [hw]
    exact hfs.trans (List.tail_suffix _)
  · rw [hw] at hlen ⊢
    cases hwaiting : m.waiting with
    | nil => rw [hwaiting] at hfs; exact hfs
    | cons g gs =>
      rw [hwaiting] at hfs hlen
      rcases List.suffix_cons_iff.mp hfs with rfl | hfs
      · rw [List.length_cons] at hlt
        rw [List.tail_cons] at hlen
        omega
      · exact hfs

theorem Above.spared {m₁ : State σ p} (hr : Reached setup index args m₀ m)
    (hcall : State.step setup m = .ok false m₁) (hsize : m₁.frames.size = m.frames.size + 1)
    (h : Above setup m.frames.size m₁ m') :
    Reached setup index args m₀ m' ∧
      (m.frames.size < m'.frames.size → m.frames.items <:+ m'.waiting) ∧
      ∀ f ∈ m.frames.items,
        m'.store.locals.slots f.localsId = m.store.locals.slots f.localsId := by
  induction h with
  | start =>
    have hproceeds := hr.proceeds_of_ok hcall
    have hwaiting := hproceeds.suspends hsize
    refine ⟨hr.step hcall, fun _ => ?_, fun f hf => hproceeds.spared f (.inr ?_)⟩
    · rw [hwaiting]
    · rw [hwaiting]
      exact hf
  | @step m' m'' _ hdepth hm ih =>
    obtain ⟨hr', hsuffix, hslots⟩ := ih
    have hproceeds := hr'.proceeds_of_ok hm
    have hbelow := hsuffix hdepth
    refine ⟨hr'.step hm, hproceeds.below hbelow, fun f hf => ?_⟩
    exact (hproceeds.spared f (.inl (hbelow.subset hf))).trans (hslots f hf)

omit [Modulus p] [Recorder σ p] in
theorem State.items_onTop {α : Type} {x : EStateM Halt (Activation σ p) α} {a? : Option α}
    (h : State.onTop x m = .ok a? m') : m'.frames.items = [] ↔ a? = none := by
  obtain ⟨s, _ | ⟨g, fs⟩, room⟩ := m
  · cases h
    exact iff_of_true rfl rfl
  · simp only [State.onTop, BoundedStack.top?, List.head?_cons] at h
    cases hx : x ⟨g, s⟩ with
    | ok a b =>
      rw [hx] at h
      cases h
      exact iff_of_false (List.cons_ne_nil _ _) (Option.some_ne_none a)
    | error e b => rw [hx] at h; cases h

omit [Modulus p] [Recorder σ p] in
theorem State.noteFailure_eq_ok {α : Type} {x : EStateM Halt (State σ p) α} {a : α}
    (h : State.noteFailure x m = .ok a m') : x m = .ok a m' := by
  unfold State.noteFailure at h
  cases hx : x m with
  | ok b m₁ => rw [hx] at h; exact h
  | error e m₁ =>
    rw [hx] at h
    cases e with
    | failure e =>
      dsimp only at h
      cases htop : m₁.frames.top? with
      | none => rw [htop] at h; cases h
      | some f => rw [htop] at h; cases h
    | fault c => cases h
    | outOfFuel => cases h

/-- **The last function has returned** when there is none left. -/
theorem State.items_step {done : Bool} (h : State.step setup m = .ok done m') :
    m'.frames.items = [] ↔ done = true := by
  obtain ⟨d, m₁, hd, h⟩ := bind_eq_ok h
  have hitems := State.items_onTop (State.noteFailure_eq_ok hd)
  match d, h with
  | none, h =>
    cases h
    exact iff_of_true (hitems.mpr rfl) rfl
  | some none, h =>
    cases h
    exact iff_of_false (fun hnil => nomatch hitems.mp hnil) Bool.false_ne_true
  | some (some .ret), h =>
    obtain ⟨g, m₂, -, h⟩ := bind_eq_ok h
    obtain ⟨u, m₃, -, h⟩ := bind_eq_ok h
    obtain ⟨u, m₄, -, h⟩ := bind_eq_ok h
    obtain ⟨a?, m₅, ha, h⟩ := bind_eq_ok h
    cases h
    rw [State.items_onTop ha, Option.isNone_iff_eq_none]
  | some (some (.call index)), h =>
    obtain ⟨u, m₂, hcall, h⟩ := bind_eq_ok h
    cases h
    obtain ⟨k, -, id, hitems⟩ := State.frames_call hcall
    rw [hitems]
    exact iff_of_false (List.cons_ne_nil _ _) Bool.false_ne_true

theorem Reached.items_ne_nil (h : Reached setup index args m₀ m) : m.frames.items ≠ [] := by
  cases h with
  | start he hm =>
    obtain ⟨⟨id, hitems⟩, -⟩ := State.start_still hm
    rw [hitems]
    exact List.cons_ne_nil _ _
  | step h hm => exact fun hnil => nomatch (State.items_step hm).mp hnil

omit [Modulus p] [Recorder σ p] in
theorem keeps_popResults (t : LocalsTable p) (n : ℕ) (values : List (Value p)) :
    Keeps (fun s : Store σ p => s.locals = t) (State.popResults n values) fun _ => True := by
  induction n generalizing values with
  | zero => exact Keeps.pure trivial
  | succ n ih =>
    refine Keeps.bind (V := fun _ => True) ?_ fun v _ => ih (v :: values)
    intro s hs
    unfold Store.pop
    cases s.stack.pop with
    | ok r => exact ⟨hs, trivial⟩
    | error e => exact hs

theorem State.live_of_run {fuel : ℕ} {values : List (Value p)}
    (h : State.run setup fuel index args m₀ = .ok values m) :
    m.frames.items = [] ∧ m.store.locals.live = 0 := by
  unfold State.run at h
  cases he : State.eligible setup index args with
  | error e => rw [he] at h; cases h
  | ok f =>
    simp only [he] at h
    obtain ⟨u, m₁, hstart, h⟩ := bind_eq_ok h
    obtain ⟨u, m₂, hloop, h⟩ := bind_eq_ok h
    have hcases := (Reached.start he hstart).loop_cases fuel
    rw [hloop] at hcases
    obtain ⟨m₃, hr, hstep⟩ := hcases
    have hitems : m₂.frames.items = [] := (State.items_step hstep).mpr rfl
    have hlive := (hr.proceeds_of_ok hstep).orderly.apart.live
    have hresults := Keeps.onMachineStore (keeps_popResults m₂.store.locals f.returns []) m₂ rfl
    rw [h] at hresults
    refine ⟨by rw [State.frames_onStore h, hitems], ?_⟩
    rw [show m.store.locals = m₂.store.locals from hresults.1, hlive, BoundedStack.size, hitems]
    rfl

end Executions

/-- **Frames never share locals**, in any state of any execution and however its steps end: they have
different identifiers in use, and as many are in use as there are frames, none when a run has given
its results. From a call on, until the callee has been left, no instruction changes the locals of the
caller, or of the functions that wait below it. -/
theorem locals_apart [Modulus p] [Recorder σ p] (setup : Setup) (index : UInt16)
    (args : List (Scalar p)) (m₀ : State σ p) :
    (∀ m, Reached setup index args m₀ m → m.Apart ∧ (finalState (State.step setup m)).Apart) ∧
    (∀ fuel values m, State.run setup fuel index args m₀ = .ok values m →
      m.frames.items = [] ∧ m.store.locals.live = 0) ∧
    ∀ m m₁ m', Reached setup index args m₀ m → State.step setup m = .ok false m₁ →
      m₁.frames.size = m.frames.size + 1 → Above setup m.frames.size m₁ m' →
      m.frames.size < m'.frames.size → ∀ f ∈ m.frames.items,
        m'.store.locals.slots f.localsId = m.store.locals.slots f.localsId ∧
        (finalState (State.step setup m')).store.locals.slots f.localsId =
          m.store.locals.slots f.localsId := by
  refine ⟨fun m hr => ⟨hr.orderly.apart, hr.proceeds.orderly.apart⟩,
    fun fuel values m h => State.live_of_run h, fun m m₁ m' hr hcall hsize habove hdepth f hf => ?_⟩
  obtain ⟨hr', hsuffix, hslots⟩ := habove.spared hr hcall hsize
  have hwaits : f ∈ m'.waiting := (hsuffix hdepth).subset hf
  exact ⟨hslots f hf, (hr'.proceeds.spared f (.inl hwaits)).trans (hslots f hf)⟩

/-! ## A function that moves its parameter -/

/-- The shape of a circuit whose function calls one that moves its parameter away. -/
def callDouble : Setup :=
  ⟨⟨#[⟨"main", [.u64], 1, 1, #[.ofNat .copyLoc 0, .ofNat .call 1, .ofNat .ret 0], le_rfl⟩,
      ⟨"double", [.u64], 1, 1,
        #[.ofNat .copyLoc 0, .ofNat .moveLoc 0, .ofNat .add 0, .ofNat .ret 0], le_rfl⟩]⟩,
    Config.standard.inMode .shape⟩

/-- Whether a computation gives a result. -/
def isResult {τ α : Type} : EStateM.Result Halt τ α → Bool
  | .ok _ _ => true
  | .error _ _ => false

/-- The callee has two locals in use with its caller, and moves its own away. -/
theorem locals_apart_callDouble :
    (∃ (m m₁ m' : State (System ScalarField.bn254.modulus) _) (f : Frame),
      Reached callDouble 0 [] (.new callDouble) m ∧ State.step callDouble m = .ok false m₁ ∧
      m₁.frames.size = m.frames.size + 1 ∧ Above callDouble m.frames.size m₁ m' ∧
      m.frames.size < m'.frames.size ∧ f ∈ m.frames.items ∧ m'.Apart ∧
      m'.store.locals.live = 2 ∧
      (finalState (State.step callDouble m')).store.locals.slots f.localsId =
        .ok #[.wired 1 none .u64]) ∧
    ∃ (values : List (Value ScalarField.bn254.modulus)) (m : State (System _) _),
      State.run callDouble 7 0 [] (.new callDouble) = .ok values m ∧ m.frames.items = [] ∧
      m.store.locals.live = 0 := by
  obtain ⟨hapart, hresults, hspared⟩ := locals_apart (p := ScalarField.bn254.modulus) callDouble 0 []
    (.new callDouble)
  constructor
  · have hcheck : (State.started? (p := ScalarField.bn254.modulus) callDouble 0 []
        (.new callDouble)).any (fun m₀ =>
          let m := m₀.walk callDouble 1
          (m.next? callDouble).any fun m₁ => m₁.frames.size = m.frames.size + 1 &&
            (m₁.next? callDouble).any fun m' => m.frames.size < m'.frames.size &&
              m'.store.locals.live = 2 && m.frames.items.any fun f =>
                m.store.locals.slots f.localsId = .ok #[.wired 1 none .u64]) = true := by
      decide +kernel
    simp only [Option.any_eq_true, Bool.and_eq_true, decide_eq_true_eq, List.any_eq_true] at hcheck
    obtain ⟨m₀, hm₀, m₁, hm₁, hsize, m', hm', ⟨hdepth, hlive⟩, f, hf, hslots⟩ := hcheck
    obtain ⟨k, he, hs⟩ := State.started?_eq_some hm₀
    have hr := (Reached.start he hs).walk 1
    have hcall := State.next?_eq_some hm₁
    have hlater := State.next?_eq_some hm'
    have habove : Above callDouble (m₀.walk callDouble 1).frames.size m₁ m' :=
      Above.start.step (by omega) hlater
    have hf' := (hspared _ m₁ m' hr hcall hsize habove hdepth f hf).2
    exact ⟨_, m₁, m', f, hr, hcall, hsize, habove, hdepth, hf,
      (hapart m' ((hr.step hcall).step hlater)).1, hlive, hf'.trans hslots⟩
  · have hcheck : isResult (State.run (p := ScalarField.bn254.modulus) callDouble 7 0 []
        (.new callDouble)) = true := by
      decide +kernel
    unfold isResult at hcheck
    split at hcheck
    · rename_i values m hrun
      exact ⟨values, m, hrun, hresults 7 values m hrun⟩
    · cases hcheck

end StackCircuit.Machine
