import StackCircuit.Proofs.Machine.Lockstep
import StackCircuit.Proofs.Plain.Refinement
import StackCircuit.Proofs.Plain.Replay

/-!
# What the shape of a circuit represents

The shape of a circuit is built without the arguments, so where a condition depends on them both
arms are executed, one after the other, and the last one wins. For any arguments its constraints are
satisfied by what the plain machine computes from them in this way. It is what a witness computes
from them if no condition is unknown.

* `Value.Represents`: a value of a shape stands for one of a witness.
* `exists_assignment`: arguments and the results of all gates on them satisfy the constraints.
* `State.run_unique`: the results of a run do not depend on its fuel.
* `faithful_operations`, `known_results`: the gates and the results of a witness.
* **`executed_witness`**: without unknown conditions, a witness executes what the shape executes.
* **`shape_represents`**: the result.
* `lastArmWins_not_represents`: where both arms are executed, the results need not be those of a
  witness.
-/

namespace StackCircuit

open Bytecode (Function Instruction)
open Circuit (Wire System)
open Plain (Operand)

variable {p : ℕ} [Modulus p]

/-- **A value of a shape represents one of a witness** under an assignment. -/
def Value.Represents (s : Wire → Scalar p) (v v' : Value p) : Prop :=
  v'.value? = some (v.under s) ∧ v'.type? = v.type?

theorem Value.Represents.operand? {s : Wire → Scalar p} {v v' : Value p} (h : v.Represents s v') :
    v.operand? (Value.under s) = v'.operand? Value.known := by
  rw [Value.operand?, Value.operand?, Value.known, h.1, h.2, Option.getD_some]

theorem Value.represents_iff {s : Wire → Scalar p} {q r : List (Value p)} {as bs : List (Operand p)}
    (hq : q.map (·.operand? (Value.under s)) = as.map some)
    (hr : r.map (·.operand? Value.known) = bs.map some)
    (hknown : ∀ v ∈ r, v.combination?.isSome → v.value? = some v.known) :
    List.Forall₂ (Value.Represents s) q r ↔ as = bs := by
  constructor
  · intro h
    have hsame : q.map (·.operand? (Value.under s)) = r.map (·.operand? Value.known) := by
      rw [← List.forall₂_eq_eq_eq, List.forall₂_map_left_iff, List.forall₂_map_right_iff]
      exact h.imp fun v v' hv => hv.operand?
    rw [hq, hr] at hsame
    exact (List.map_inj_right fun _ _ => Option.some.inj).mp hsame
  · rintro rfl
    induction as generalizing q r with
    | nil =>
      obtain rfl := List.map_eq_nil_iff.mp hq
      obtain rfl := List.map_eq_nil_iff.mp hr
      exact .nil
    | cons a as ih =>
      obtain ⟨v, q, rfl, hv, hqs⟩ := List.map_eq_cons_iff.mp hq
      obtain ⟨v', r, rfl, hv', hrs⟩ := List.map_eq_cons_iff.mp hr
      have hvalue := hknown v' List.mem_cons_self (Value.isSome_combination? hv')
      obtain ⟨type, htype, rfl⟩ := Option.map_eq_some_iff.mp hv
      obtain ⟨type', htype', ha⟩ := Option.map_eq_some_iff.mp hv'
      obtain ⟨hnum, rfl⟩ := (Operand.mk.injEq _ _ _ _).mp ha
      have hrest := ih hqs (fun w hw => hknown w (List.mem_cons_of_mem _ hw)) hrs
      exact .cons ⟨hvalue.trans (congrArg some hnum), htype'.trans htype.symm⟩ hrest

namespace Machine

/-! ## Assignments -/

section Assignments

variable {f : Function} {s : Wire → Scalar p} {args : List (Scalar p)}

/-- One on the wire of one, and arguments on the wires after it. -/
def assignArguments (args : List (Scalar p)) (w : Wire) : Scalar p :=
  if w = Wire.one then 1 else args.getD (w.toNat - 1) 0

/-- Arguments are on their wires. -/
def Assigns (s : Wire → Scalar p) (args : List (Scalar p)) (n : ℕ) : Prop :=
  (List.range args.length).map (fun j => s (UInt32.ofNat (n + j))) = args

theorem assigns_assignArguments {args : List (Scalar p)} (hargs : 1 + args.length ≤ 2 ^ 32)
    (hs : ∀ w : Wire, w.toNat < 1 + args.length → s w = assignArguments args w) :
    Assigns s args 1 := by
  refine List.ext_getElem (by rw [List.length_map, List.length_range]) fun j hj hj' => ?_
  have hlt : 1 + j < 2 ^ 32 := by omega
  have hnat : (UInt32.ofNat (1 + j)).toNat = 1 + j := UInt32.toNat_ofNat_of_lt hlt
  have hne : UInt32.ofNat (1 + j) ≠ Wire.one := by
    intro h
    rw [h] at hnat
    change 0 = 1 + j at hnat
    omega
  rw [List.getElem_map, List.getElem_range, hs _ (by omega), assignArguments, if_neg hne, hnat,
    Nat.add_sub_cancel_left, List.getD_eq_getElem?_getD, List.getElem?_eq_getElem hj',
    Option.getD_some]

theorem inputValues_under {mode : Mode} (hmode : mode ≠ .witness) (args₀ : List (Scalar p)) {n : ℕ}
    (hargs : args.length = f.params.length) (hs : Assigns s args n) :
    (inputValues n (State.inputs mode f args₀)).map (·.operand? (Value.under s)) =
      (Plain.arguments f args).map some := by
  rw [State.inputs, if_neg hmode, Plain.arguments]
  generalize f.params = params at hargs
  induction params generalizing args n with
  | nil =>
    obtain rfl : args = [] := List.length_eq_zero_iff.mp hargs
    rfl
  | cons type params ih =>
    obtain _ | ⟨x, args⟩ := args
    · cases hargs
    · unfold Assigns at hs
      rw [List.length_cons, List.range_succ_eq_map, List.map_cons, List.map_map, List.cons.injEq]
        at hs
      have hx : s (UInt32.ofNat n) = x := hs.1
      have hrest : Assigns s args (n + 1) := by
        refine Eq.trans (List.map_congr_left fun j _ => ?_) hs.2
        change s (UInt32.ofNat (n + 1 + j)) = s (UInt32.ofNat (n + (j + 1)))
        congr 2
        omega
      have hhead : Value.operand? (Value.under s) (.wired (UInt32.ofNat n) none type) =
          some ⟨x, type⟩ := by
        rw [← hx]
        rfl
      exact congrArg₂ List.cons hhead (ih hrest (Nat.succ.inj hargs))

/-- **Arguments and the results of all gates on them** satisfy the constraints of a run. -/
theorem exists_assignment [Fact p.Prime] {setup : Setup} {fuel : ℕ} {index : UInt16}
    {args₀ : List (Scalar p)} {m : State (System p) p}
    (he : State.eligible setup index args₀ = .ok f)
    (hm : finalState (State.run setup fuel index args₀ (.new setup)) = m)
    (hsize : m.store.ledger.recorder.wires.size ≤ 2 ^ 32) (hargs : args.length = f.params.length) :
    ∃ s : Wire → Scalar p, s Wire.one = 1 ∧ Assigns s args 1 ∧
      (∀ k ∈ m.store.ledger.recorder.constraints, k.SatisfiedBy s) ∧
      ∀ op ∈ State.runOperations setup fuel index args₀ (.new setup),
        op.Faithful (Value.under s) := by
  have hrec := records_eligible he fuel
  rw [hm] at hrec
  have hn := hrec.size
  obtain ⟨s, hold, hcomputed⟩ :=
    hrec.straight.exists_computed (by omega) (assignArguments args)
  have h1 : s Wire.one = 1 := by
    rw [hold Wire.one (by change 0 < _; omega), assignArguments, if_pos rfl]
  refine ⟨s, h1, assigns_assignArguments (by omega) fun w hw => hold w (by omega), ?_, hcomputed⟩
  exact (hrec.satisfiedBy_iff h1).mpr fun op hop => Operation.respected_of_eval (hcomputed op hop)

end Assignments

/-! ## Runs that end -/

section Ends

variable {setup : Setup} {m m' : State (System p) p}

theorem State.loop_add {fuel : ℕ} (h : State.loop setup fuel m = .ok () m') (k : ℕ) :
    State.loop setup (fuel + k) m = .ok () m' := by
  induction fuel generalizing m with
  | zero => cases h
  | succ fuel ih =>
    rw [Nat.add_right_comm, State.loop]
    rw [State.loop] at h
    cases hs : State.step setup m with
    | error e m₁ => rw [hs] at h; cases h
    | ok done m₁ =>
      rw [hs] at h
      cases done with
      | true => exact h
      | false => exact ih h

theorem State.run_add {fuel : ℕ} {index : UInt16} {args : List (Scalar p)} {vs : List (Value p)}
    (h : State.run setup fuel index args m = .ok vs m') (k : ℕ) :
    State.run setup (fuel + k) index args m = .ok vs m' := by
  unfold State.run at h ⊢
  cases he : State.eligible setup index args with
  | error e => rw [he] at h; cases h
  | ok f =>
    rw [he] at h
    obtain ⟨u, m₁, hstart, hrest⟩ := bind_eq_ok h
    obtain ⟨u, m₂, hloop, hpop⟩ := bind_eq_ok hrest
    simp only [bind, EStateM.bind, hstart, State.loop_add hloop k]
    exact hpop

theorem State.run_unique {fuel fuel' : ℕ} {index : UInt16} {args : List (Scalar p)}
    {m₁ m₂ : State (System p) p} {vs vs' : List (Value p)}
    (h : State.run setup fuel index args m = .ok vs m₁)
    (h' : State.run setup fuel' index args m = .ok vs' m₂) : vs = vs' := by
  have hk := State.run_add h fuel'
  rw [Nat.add_comm, State.run_add h' fuel] at hk
  cases hk
  rfl

omit [Modulus p] in
theorem mem_of_popResults {n : ℕ} {vs rs : List (Value p)} {s s' : Store (System p) p}
    (h : State.popResults n vs s = .ok rs s') {v : Value p} (hv : v ∈ rs) :
    v ∈ vs ∨ v ∈ s.stack.items := by
  induction n generalizing vs s with
  | zero =>
    cases h
    exact .inl hv
  | succ n ih =>
    obtain ⟨ledger, ⟨_ | ⟨w, items⟩, room⟩, locals, conditions, steps⟩ := s
    · cases h
    · have hrest : State.popResults n (w :: vs)
          ⟨ledger, ⟨items, room.map (· + 1)⟩, locals, conditions, steps⟩ = .ok rs s' := h
      rcases ih hrest with hw | hitems
      · exact (List.mem_cons.mp hw).elim (fun hw => .inr (hw ▸ List.mem_cons_self)) .inl
      · exact .inr (List.mem_cons_of_mem w hitems)

end Ends

/-! ## Witnesses -/

section Witnesses

variable {setup : Setup} {m : State (System p) p}

/-- **The gates of a witness** compute the numbers of their results. -/
theorem faithful_operations (hmode : setup.config.mode = .witness) (fuel : ℕ)
    (hm : m.store.Grounded ∧ m.store.Known) :
    ∀ op ∈ State.operations setup fuel m, op.Faithful Value.known := by
  induction fuel generalizing m with
  | zero => exact fun _ h => nomatch h
  | succ fuel ih =>
    intro op hop
    have hnext := (invariant_known hmode).step hm
    rw [State.operations, List.mem_append] at hop
    rcases hop with hop | hop
    · rcases State.step_cases setup hm.1 with ⟨hnone, -⟩ | ⟨op', label, rest, hsome, happ⟩
      · rw [hnone] at hop
        cases hop
      · rw [hsome] at hop
        obtain rfl := List.mem_singleton.mp hop
        exact hm.2.faithful happ
    · cases hs : State.step setup m with
      | error e m' => rw [hs] at hop; cases hop
      | ok done m' =>
        rw [hs] at hop hnext
        cases done with
        | true => cases hop
        | false => exact ih hnext op hop

/-- **The results of a witness** are known. -/
theorem known_results (hmode : setup.config.mode = .witness) {fuel : ℕ} {index : UInt16}
    {args : List (Scalar p)} {m₀ : State (System p) p} {vs : List (Value p)}
    (h : State.run setup fuel index args m₀ = .ok vs m) {v : Value p} (hv : v ∈ vs)
    (hcomb : v.combination?.isSome) : v.value? = some v.known := by
  unfold State.run at h
  cases he : State.eligible setup index args with
  | error e => rw [he] at h; cases h
  | ok f =>
    rw [he] at h
    obtain ⟨u, m₁, hstart, hrest⟩ := bind_eq_ok h
    obtain ⟨u, m₂, hloop, hpop⟩ := bind_eq_ok hrest
    have hknown := ((invariant_known hmode).loop fuel).final (s := m₁) (known_of_start hmode hstart)
    rw [hloop] at hknown
    simp only [State.onStore] at hpop
    cases hr : State.popResults f.returns [] m₂.store with
    | error e s => rw [hr] at hpop; cases hpop
    | ok rs s =>
      rw [hr] at hpop
      cases hpop
      rcases mem_of_popResults hr hv with hnil | hstack
      · cases hnil
      · exact Store.Known.value?_eq hknown.2 (.inl hstack) hcomb

end Witnesses

/-! ## The same instructions with and without a witness -/

section Trails

variable {setup : Setup} {index : UInt16} {args₀ args : List (Scalar p)} {f : Function}
  {m m' m₀ m₀' : State (System p) p}

omit [Modulus p] in
theorem State.Reveals.place? (h : m.Reveals m') : m'.place? = m.place? := by
  unfold State.place?
  rw [h.frames]

theorem reveals_trail (mode : Mode)
    (hknown : ∀ m i v, Reached setup index args₀ m₀ m → m.instruction? = some i →
      i.opcode.isConditionalBranch = true → m.store.stack.top? = some v → v.value?.isSome)
    (fuel : ℕ) (hm : Reached setup index args₀ m₀ m) (h : m.Reveals m') :
    State.trail (setup.inMode mode) fuel m' = State.trail setup fuel m := by
  induction fuel generalizing m m' with
  | zero => rfl
  | succ fuel ih =>
    have hstep := reveals_step setup mode h fun i hi hb v => hknown m i v hm hi hb
    rw [State.trail, State.trail, h.place?]
    obtain ⟨b, r, b', r', hs, hs', rfl, hr⟩ | ⟨e, r, e', r', hs, hs', -⟩ := hstep.split
    · rw [hs, hs']
      cases b with
      | true => rfl
      | false => exact congrArg (_ ++ ·) (ih (hm.step hs) hr)
    · rw [hs, hs']

/-- **Without unknown conditions, a witness executes what the shape executes.** -/
theorem executed_witness (hmode : setup.config.mode ≠ .witness)
    (hknown : ∀ m i v, Reached setup index args₀ m₀ m → m.instruction? = some i →
      i.opcode.isConditionalBranch = true → m.store.stack.top? = some v → v.value?.isSome)
    (hf : setup.program.function? index = some f) (hargs : args.length = f.params.length)
    (h : m₀.store.ledger.recorder.Reveals m₀'.store.ledger.recorder) (fuel : ℕ) :
    State.executed (setup.inMode .witness) fuel index args m₀' =
      State.executed setup fuel index args₀ m₀ := by
  have he : State.eligible setup index args₀ = .ok f :=
    State.eligible_eq_ok hf fun hw => absurd hw hmode
  have he' : State.eligible (setup.inMode .witness) index args = .ok f :=
    State.eligible_eq_ok hf fun _ => hargs
  simp only [State.executed, State.places, State.started?, he, he']
  obtain ⟨u, m₁, u', m₁', h₁, h₁', -, hm₁⟩ | ⟨e, _, e', _, h₁, h₁', -⟩ :=
    (reveals_start index args₀ hmode hargs h).split
  · rw [h₁, h₁']
    exact congrArg (List.filterMap _) (reveals_trail .witness hknown fuel (.start he h₁) hm₁)
  · rw [h₁, h₁']
    rfl

end Trails

/-! ## The result -/

/-- **The results of a witness** are what the plain machine computes. -/
theorem run_witness {setup : Setup} (hmode : setup.config.mode = .witness) {index : UInt16}
    {f : Function} (hf : setup.program.function? index = some f) {args : List (Scalar p)}
    (hargs : args.length = f.params.length) {fuel : ℕ} {r : List (Value p)}
    {m₀ m : State (System p) p} (hrun : State.run setup fuel index args m₀ = .ok r m) :
    ∃ bs c, Plain.run setup.program setup.config fuel f args = .ok bs c ∧
      r.map (·.operand? Value.known) = bs.map some := by
  have h := tracks_run hmode hf hargs fuel m₀
  rw [hrun] at h
  obtain ⟨_, _, bs, c, ht, hplain, hr, -⟩ | ⟨_, _, _, _, ht, -⟩ := h.split
  · cases ht
    exact ⟨bs, c, hplain, hr⟩
  · cases ht

theorem rerun_witness {setup : Setup} (hmode : setup.config.mode = .witness) {index : UInt16}
    {f : Function} (hf : setup.program.function? index = some f) {args : List (Scalar p)}
    (hargs : args.length = f.params.length) {fuel : ℕ} {r : List (Value p)}
    {m₀ m : State (System p) p} (hrun : State.run setup fuel index args m₀ = .ok r m) :
    ∃ as c, Plain.rerun setup.program setup.config
        (State.executed setup fuel index args m₀) f args = .ok as c ∧
      r.map (·.operand? Value.known) = as.map some := by
  have he : State.eligible setup index args = .ok f := State.eligible_eq_ok hf fun _ => hargs
  refine replay_run (fun _ _ => rfl) he hargs ?_ (fun op hop => ?_) hrun
  · rw [hmode]
    exact inputValues_known _ hargs
  · cases hs : State.started? setup index args m₀ with
    | none => rw [State.runOperations, hs] at hop; cases hop
    | some m₁ =>
      obtain ⟨g, -, hstart⟩ := State.started?_eq_some hs
      rw [State.runOperations, hs] at hop
      exact faithful_operations hmode fuel (known_of_start hmode hstart) op hop

/-- **What the shape of a circuit represents.** With arguments on the wires of the parameters, its
constraints can be satisfied so that its results are what the plain machine computes from the
arguments by the instructions that the shape was built from, in their order. They are the results of
the witness if and only if the plain machine, which follows the branches, computes the same. This is
so if no condition was unknown. -/
theorem shape_represents [Fact p.Prime] {setup : Setup} (hmode : setup.config.mode ≠ .witness)
    {index : UInt16} {f : Function} (hf : setup.program.function? index = some f)
    {args : List (Scalar p)} (hargs : args.length = f.params.length) {args₀ : List (Scalar p)}
    {fuel : ℕ} {q : List (Value p)} {m : State (System p) p}
    (hrun : State.run setup fuel index args₀ (.new setup) = .ok q m)
    (hsize : m.store.ledger.recorder.wires.size ≤ 2 ^ 32) :
    ∃ s : Wire → Scalar p, s Wire.one = 1 ∧
      (State.argumentWires setup index args₀ (.new setup)).map s = args ∧
      (∀ k ∈ m.store.ledger.recorder.constraints, k.SatisfiedBy s) ∧
      ∃ as c, Plain.rerun setup.program setup.config
          (State.executed setup fuel index args₀ (.new setup)) f args = .ok as c ∧
        q.map (·.operand? (Value.under s)) = as.map some ∧
        ∀ fuel' r w, State.run (setup.inMode .witness) fuel' index args
            (.new (setup.inMode .witness)) = .ok r w →
          (∃ bs c', Plain.run setup.program setup.config fuel' f args = .ok bs c' ∧
            (List.Forall₂ (Value.Represents s) q r ↔ as = bs)) ∧
          ((∀ m i v, Reached (σ := System p) setup index args₀ (.new setup) m →
              m.instruction? = some i → i.opcode.isConditionalBranch = true →
              m.store.stack.top? = some v → v.value?.isSome) →
            List.Forall₂ (Value.Represents s) q r) := by
  have he : State.eligible setup index args₀ = .ok f :=
    State.eligible_eq_ok hf fun hw => absurd hw hmode
  have hwitness : (setup.inMode .witness).config.mode = .witness := rfl
  obtain ⟨s, h1, hs, hsat, hfaithful⟩ :=
    exists_assignment he (congrArg finalState hrun) hsize hargs
  obtain ⟨as, c, hrerun, hq⟩ := replay_run (fun _ _ => rfl) he hargs
    (inputValues_under hmode args₀ hargs hs) hfaithful hrun
  refine ⟨s, h1, ?_, hsat, as, c, hrerun, hq, fun fuel' r w hw => ⟨?_, fun hknown => ?_⟩⟩
  · rw [State.argumentWires_eq he, List.map_map, ← hargs]
    exact hs
  · obtain ⟨bs, c', hplain, hr⟩ := run_witness hwitness hf hargs hw
    exact ⟨bs, c', hplain, Value.represents_iff hq hr fun v => known_results hwitness hw⟩
  · -- The witness runs in lockstep with the shape, so it executes the same instructions.
    have hnew : (State.new setup : State (System p) p).store.ledger.recorder.Reveals
        (State.new (setup.inMode .witness) : State (System p) p).store.ledger.recorder := .refl _
    have hreveal := reveals_run hmode hknown hf hargs hnew fuel
    rw [hrun] at hreveal
    obtain ⟨_, _, r', w', ht, hw', -⟩ | ⟨_, _, _, _, ht, -⟩ := hreveal.split
    · obtain rfl := State.run_unique hw hw'
      obtain ⟨bs, c', hrerun', hr⟩ := rerun_witness hwitness hf hargs hw'
      rw [executed_witness hmode hknown hf hargs hnew] at hrerun'
      refine (Value.represents_iff hq hr fun v => known_results hwitness hw').mpr ?_
      have hsame := hrerun.symm.trans hrerun'
      cases hsame
      rfl
    · cases ht

/-! ## One arm and two arms -/

/-- The results of a run that succeeds within twenty instructions, and how many wires it allocates. -/
def outcome? (setup : Setup) (args : List (Scalar p)) : Option (List (Value p) × ℕ) :=
  match State.run (σ := System p) setup 20 0 args (.new setup) with
  | .ok vs m => some (vs, m.store.ledger.recorder.wires.size)
  | .error _ _ => none

theorem exists_run {setup : Setup} {args : List (Scalar p)} {vs : List (Value p)} {n : ℕ}
    (h : outcome? setup args = some (vs, n)) :
    ∃ m, State.run (σ := System p) setup 20 0 args (.new setup) = .ok vs m ∧
      m.store.ledger.recorder.wires.size = n := by
  unfold outcome? at h
  cases hrun : State.run (σ := System p) setup 20 0 args (.new setup) with
  | error e m => rw [hrun] at h; cases h
  | ok q m =>
    rw [hrun] at h
    cases h
    exact ⟨m, rfl, rfl⟩

/-- The shape of a circuit with a condition that is true for every parameter, but not known to be.
The first arm puts one into a local, and the second one puts two into it. -/
def lastArmWins : Setup :=
  ⟨⟨#[⟨"main", [.u64], 2, 1,
    #[.ofNat .copyLoc 0, .ofNat .copyLoc 0, .ofNat .eq 0, .ofNat .brTrue 5, .ofNat .branch 8,
      .ofNat .ldU8 1, .ofNat .stLoc 1, .ofNat .branch 10, .ofNat .ldU8 2, .ofNat .stLoc 1,
      .ofNat .moveLoc 1, .ofNat .ret 0], by decide⟩]⟩, Config.standard.inMode .shape⟩

theorem outcome?_lastArmWins :
    outcome? (p := ScalarField.bn254.modulus) lastArmWins [] =
      some ([.constant (.ofNat 2) .u8 none], 3) := by
  decide +kernel

/-- Five under a condition that is known to be true, where the result is its square, and under one
that is not, where the last arm wins. -/
theorem shape_represents_five :
    (∃ (s : Wire → Scalar ScalarField.bn254.modulus) (q r : List (Value ScalarField.bn254.modulus))
      (m w : State (System ScalarField.bn254.modulus) ScalarField.bn254.modulus),
      State.run squareIfTrue 20 0 [] (.new squareIfTrue) = .ok q m ∧
      State.run (squareIfTrue.inMode .witness) 20 0 [.ofNat 5]
        (.new (squareIfTrue.inMode .witness)) = .ok r w ∧
      s Wire.one = 1 ∧ s 1 = .ofNat 5 ∧
      (∀ k ∈ m.store.ledger.recorder.constraints, k.SatisfiedBy s) ∧
      List.Forall₂ (Value.Represents s) q r ∧ r.map Value.value? = [some (.ofNat 25)]) ∧
    ∃ (s : Wire → Scalar ScalarField.bn254.modulus) (q : List (Value ScalarField.bn254.modulus))
      (m : State (System ScalarField.bn254.modulus) ScalarField.bn254.modulus),
      State.run lastArmWins 20 0 [] (.new lastArmWins) = .ok q m ∧
      s Wire.one = 1 ∧ s 1 = .ofNat 5 ∧
      (∀ k ∈ m.store.ledger.recorder.constraints, k.SatisfiedBy s) ∧
      q.map (·.operand? (Value.under s)) = [some ⟨.ofNat 2, .u8⟩] := by
  have hargs : ([.ofNat 5] : List (Scalar ScalarField.bn254.modulus)).length = 1 := rfl
  constructor
  · have hq : outcome? (p := ScalarField.bn254.modulus) squareIfTrue [] =
        some ([.wired 2 none .u64], 3) := by
      decide +kernel
    have hr : outcome? (p := ScalarField.bn254.modulus) (squareIfTrue.inMode .witness) [.ofNat 5] =
        some ([.wired 2 (some (.ofNat 25)) .u64], 3) := by
      decide +kernel
    obtain ⟨m, hm, hsize⟩ := exists_run hq
    obtain ⟨w, hw, -⟩ := exists_run hr
    have hmode : squareIfTrue.config.mode ≠ .witness := by decide
    have hknown : ∀ m i v,
        Reached (p := ScalarField.bn254.modulus) squareIfTrue 0 [] (.new squareIfTrue) m →
        m.instruction? = some i → i.opcode.isConditionalBranch = true →
        m.store.stack.top? = some v → v.value?.isSome := by
      intro m i v hm hi hb hv
      have hcheck := squareIfTrue_decided hm
      simpa [State.isDecided, hi, hv, hb] using hcheck
    have hinputs : State.argumentWires squareIfTrue 0 []
        (.new squareIfTrue : State (System ScalarField.bn254.modulus) _) = [1] := by
      decide +kernel
    obtain ⟨s, h1, hs, hsat, as, c, -, -, h⟩ :=
      shape_represents hmode rfl hargs hm (hsize.trans_le (by decide))
    rw [hinputs] at hs
    exact ⟨s, _, _, m, w, hm, hw, h1, (List.cons.inj hs).1, hsat, (h 20 _ w hw).2 hknown, rfl⟩
  · obtain ⟨m, hm, hsize⟩ := exists_run outcome?_lastArmWins
    have hmode : lastArmWins.config.mode ≠ .witness := by decide
    have hinputs : State.argumentWires lastArmWins 0 []
        (.new lastArmWins : State (System ScalarField.bn254.modulus) _) = [1] := by
      decide +kernel
    obtain ⟨s, h1, hs, hsat, -⟩ :=
      shape_represents hmode rfl hargs hm (hsize.trans_le (by decide))
    rw [hinputs] at hs
    exact ⟨s, _, m, hm, h1, (List.cons.inj hs).1, hsat, rfl⟩

theorem lastArmWins_isStructured : lastArmWins.program.IsStructured := by
  have harms := @Bytecode.Structured.twoArmed 3 (.ofNat .brTrue 5) (.ofNat .branch 8)
    (.ofNat .branch 10) [.ofNat .ldU8 1, .ofNat .stLoc 1] [.ofNat .ldU8 2, .ofNat .stLoc 1]
    [.ofNat .moveLoc 1, .ofNat .ret 0] rfl rfl rfl rfl rfl rfl (by simp)
    (.plain rfl (.plain rfl .nil)) (by simp) (.plain rfl (.plain rfl .nil))
    (.plain rfl (.plain rfl .nil))
  intro f hf
  obtain rfl := List.mem_singleton.mp (Array.mem_def.mp hf)
  exact ⟨by decide, .plain rfl (.plain rfl (.plain rfl harms))⟩

/-- **Where both arms are executed, the results need not be those of a witness**: here the shape
results in two and the witness in one, so no assignment makes them equal. -/
theorem lastArmWins_not_represents :
    lastArmWins.program.IsStructured ∧
      ∃ (q r : List (Value ScalarField.bn254.modulus))
        (m w : State (System ScalarField.bn254.modulus) ScalarField.bn254.modulus),
        State.run lastArmWins 20 0 [] (.new lastArmWins) = .ok q m ∧
        State.run (lastArmWins.inMode .witness) 20 0 [.ofNat 5]
          (.new (lastArmWins.inMode .witness)) = .ok r w ∧
        ¬ ∃ s : Wire → Scalar ScalarField.bn254.modulus, s Wire.one = 1 ∧
          (State.argumentWires lastArmWins 0 []
            (.new lastArmWins : State (System ScalarField.bn254.modulus) _)).map s = [.ofNat 5] ∧
          (∀ k ∈ m.store.ledger.recorder.constraints, k.SatisfiedBy s) ∧
          List.Forall₂ (fun v v' => v'.value? = some (v.under s)) q r := by
  have hr : outcome? (p := ScalarField.bn254.modulus) (lastArmWins.inMode .witness) [.ofNat 5] =
      some ([.constant (.ofNat 1) .u8 none], 3) := by
    decide +kernel
  obtain ⟨m, hm, -⟩ := exists_run outcome?_lastArmWins
  obtain ⟨w, hw, -⟩ := exists_run hr
  refine ⟨lastArmWins_isStructured, _, _, m, w, hm, hw, ?_⟩
  rintro ⟨s, -, -, -, hs⟩
  have hne : (.ofNat 1 : Scalar ScalarField.bn254.modulus) ≠ .ofNat 2 := by decide +kernel
  obtain ⟨hvalue, -⟩ := List.forall₂_cons.mp hs
  exact hne (Option.some.inj hvalue)

end Machine

end StackCircuit
