import StackCircuit.Proofs.Machine.Flat
import StackCircuit.Proofs.Plain.Calls

/-!
# Witnesses are computed by a plain stack machine

A machine that computes a witness knows all its values, so it enters no arms. What it does is then
what the plain machine does: wires, blocks, guards and the table of locals do not matter.

* `Value.known`: the number of a value; `Store.Known`: all values of wires are known;
  **`invariant_known`**: everything a machine that computes a witness does keeps this.
* `Transition.Matches`: where control goes in both machines.
* **`tracks_step`**, `tracks_enter`, `tracks_leave`: one instruction of both machines.
* **`witness_refines_plain`**: both machines run side by side for any number of instructions, and
  end in the same way.
-/

namespace StackCircuit

open Bytecode (Function Instruction)
open Circuit (System)
open Plain (Operand Call Configuration Locals Flow)

variable {p : ℕ}

/-- The number of a value, if it is known. -/
def Value.known [Modulus p] (v : Value p) : Scalar p := v.value?.getD 0

namespace Machine

/-! ## Known values -/

section Known

variable [Modulus p] {s s' : Store (System p) p}

/-- Values that are bound to wires are known. -/
def Store.Known (s : Store (System p) p) : Prop :=
  ∀ v w, s.Holds v → v.wire? = some w → v.value?.isSome

theorem Store.Known.value?_eq (hs : s.Known) {v : Value p} (hv : s.Holds v)
    (h : v.combination?.isSome) : v.value? = some v.known := by
  have hsome : v.value?.isSome := by
    match v, hv, h with
    | .constant x type w, _, _ => rfl
    | .wired w x type, hv, _ => exact hs _ w hv rfl
  obtain ⟨x, hx⟩ := Option.isSome_iff_exists.mp hsome
  rw [Value.known, hx, Option.getD_some]

theorem Store.Known.value?_of_applies (hs : s.Known) {op : Operation p} {label : String}
    {rest : List (Value p)} (h : s.Applies op label rest s') :
    op.value? = some (op.gate.eval op.left.known op.right.known) := by
  rw [Operation.value?, Gate.result?, hs.value?_eq h.holds_left h.left,
    hs.value?_eq h.holds_right h.right]

theorem Store.Known.faithful (hs : s.Known) {op : Operation p} {label : String}
    {rest : List (Value p)} (h : s.Applies op label rest s') : op.Faithful Value.known := by
  rw [Operation.Faithful, Value.known, Operation.outcome, Value.value?, hs.value?_of_applies h,
    Option.getD_some]

/-- **A machine that computes a witness knows all values of wires.** -/
theorem invariant_known {mode : Mode} (hmode : mode = .witness) :
    Invariant mode fun s : Store (System p) p => s.Grounded ∧ s.Known := by
  refine ⟨fun h => h.1, fun h hr => ?_, fun label x type hx h => ?_, fun h ha => ?_⟩
  · refine ⟨h.1.of_rearranges hr, fun v w hv hw => ?_⟩
    rcases hr.values v hv with hv | hv
    · exact h.2 v w hv hw
    · rw [hv] at hw
      cases hw
  · refine ⟨h.1.withWire label x type, fun v w hv hw => ?_⟩
    rcases Store.holds_withWire.mp hv with rfl | hv
    · exact hx hmode
    · exact h.2 v w hv hw
  · refine ⟨h.1.of_applies ha, fun v w hv hw => ?_⟩
    have hvalue := h.2.value?_of_applies ha
    rcases Store.holds_withWire.mp ((ha.rearranges.values v hv).resolve_right
      fun hn => by rw [hn] at hw; cases hw) with rfl | hv
    · rw [hvalue]
      rfl
    · exact h.2 v w hv hw

end Known

/-! ## Instructions -/

section Instructions

variable [Modulus p] {es : List (ℕ × Call p)} {cs : List (Call p)} {room : Option ℕ} {id : ℕ}
  {f f' : Function} {pc : UInt16} {s : Store (System p) p} {c : Configuration p} {i : Instruction}

/-- Where control goes in both machines after an instruction at a position. -/
inductive Transition.Matches (pc : UInt16) : Transition p → Flow → Prop
  | next : Matches pc (.goto (pc + 1)) .next
  | goto (target : UInt16) : Matches pc (.goto target) (.goto target)
  | call (function : UInt16) : Matches pc (.exit (.call function)) (.call function)
  | ret : Matches pc (.exit .ret) .ret

theorem setWidth_ofNat (n : ℕ) :
    (BitVec.ofNat 128 n).setWidth 256 = BitVec.ofNat 256 (n % 2 ^ 128) := by
  refine BitVec.eq_of_toNat_eq ?_
  rw [BitVec.toNat_setWidth, BitVec.toNat_ofNat, BitVec.toNat_ofNat]

theorem tracks_popKnown (hk : s.Known) (h : s.TracksTop Value.known es cs room id f pc c) :
    SameEnd (fun v a s c => v.value? = some a.value ∧ s.TracksTop Value.known es cs room id f pc c)
      (fun e e' s c => e.Agrees e' ∧ s.TracksTop Value.known es cs room id f pc c)
      (Store.pop s) (Plain.pop c) := by
  have hpop : InStep (Store.TracksTop Value.known es cs room id f pc) Store.pop Plain.pop _ :=
    .exists fun _ => tracks_pop
  obtain ⟨v, t, a, t', hx, hx', hv, ht⟩ | ⟨e, t, e', t', hx, hx', he⟩ := (hpop s c h).split
  · rw [hx, hx']
    have hholds : s.Holds v := .inl (List.mem_of_head? (Store.top?_of_pop hx))
    obtain ⟨type, -, rfl⟩ := Option.map_eq_some_iff.mp hv
    exact ⟨hk.value?_eq hholds (Value.isSome_combination? hv), ht⟩
  · rw [hx, hx']
    exact he

theorem tracks_branchOn (taken : Scalar p) (mode : Mode) (hk : s.Known)
    (h : s.TracksTop Value.known es cs room id f pc c) :
    SameEnd (fun t flow s c => t.Matches pc flow ∧ s.TracksTop Value.known es cs room id f pc c)
      (fun e e' s c => e.Agrees e' ∧ s.TracksTop Value.known es cs room id f pc c)
      ((Block.body id pc).branchOn mode f' i taken s) (Plain.branchOn i taken c) := by
  simp only [Block.branchOn, Plain.branchOn, Plain.ofNat_reference, bind, EStateM.bind]
  obtain ⟨v, t, a, t', hx, hx', hv, ht⟩ | ⟨e, t, e', t', hx, hx', he⟩ :=
    (tracks_popKnown hk h).split
  · rw [hx, hx']
    simp only [hv]
    refine ⟨?_, ht⟩
    by_cases htaken : a.value = taken
    · rw [if_pos htaken, if_pos htaken]
      exact .goto _
    · rw [if_neg htaken, if_neg htaken]
      exact .next
  · rw [hx, hx']
    exact he

/-- **An instruction of both machines.** -/
theorem tracks_perform_known (f' : Function) (i : Instruction) (mode : Mode) (step : ℕ)
    (hg : s.Grounded) (hk : s.Known) (h : s.TracksTop Value.known es cs room id f pc c) :
    SameEnd (fun t flow s c => t.Matches pc flow ∧ s.TracksTop Value.known es cs room id f pc c)
      (fun e e' s c => e.Agrees e' ∧ s.TracksTop Value.known es cs room id f pc c)
      ((Block.body id pc).perform mode f' i step s) (Plain.perform i c) := by
  by_cases hi : i.opcode.isBranch = true
  · unfold Block.perform Plain.perform
    cases hop : i.opcode with
    | brTrue => exact tracks_branchOn 1 mode hk h
    | brFalse => exact tracks_branchOn 0 mode hk h
    | branch =>
      rw [Plain.ofNat_reference]
      exact ⟨.goto _, h⟩
    | ret => exact ⟨.ret, h⟩
    | call =>
      rw [Plain.ofNat_reference]
      exact ⟨.call _, h⟩
    | abort =>
      simp only [Block.abort, bind, EStateM.bind]
      obtain ⟨v, t, a, t', hx, hx', hv, ht⟩ | ⟨e, t, e', t', hx, hx', he⟩ :=
        (tracks_popKnown hk h).split
      · rw [hx, hx']
        simp only [hv, setWidth_ofNat]
        exact ⟨rfl, ht⟩
      · rw [hx, hx']
        exact he
    | _ => rw [hop] at hi; cases hi
  · obtain ⟨t, s', flow, c', hx, hx', ⟨rfl, rfl⟩, ht⟩ | ⟨e, s', e', c', hx, hx', he⟩ :=
      (tracks_perform (b := .body id pc) (fun _ _ => rfl) (Bool.eq_false_iff.mpr hi) rfl mode step hg
        (fun _ _ _ _ _ ha => hk.faithful ha) h).split
    · rw [hx, hx']
      exact ⟨.next, ht⟩
    · rw [hx, hx']
      exact he

end Instructions

/-! ## Steps -/

section Steps

variable {es : List (ℕ × Call p)} {room : Option ℕ} {num : Value p → Scalar p}
  {s : Store (System p) p} {c : Configuration p} {fs : List Frame} {index : UInt16} {id : ℕ}
  {f : Function} {pc : UInt16} {call : Call p}

/-- A frame is at the place of a call. -/
def Frame.IsAt (frame : Frame) (call : Call p) : Prop :=
  ∃ index id, frame = .flat index call.function id call.pc

/-- Both machines have come to the same, and the one stands for the other. -/
abbrev Simulates [Modulus p] {α α' : Type} (V : α → α' → Prop) :
    EStateM.Result Halt (State (System p) p) α → EStateM.Result Halt (Configuration p) α' → Prop :=
  SameEnd (fun a a' m c => V a a' ∧ m.Tracks Value.known Frame.IsAt c) fun e e' m c =>
    e.Agrees e' ∧ m.Tracks Value.known Frame.IsAt c

variable [Modulus p]

/-- **Both machines return from a function**, and their callers go on behind the call. -/
theorem tracks_leave (hframes : FramesTrack Frame.IsAt fs es)
    (h : s.Tracks Value.known ((id, call) :: es) ⟨call :: es.map Prod.snd, room⟩ c) :
    Simulates Eq (State.ret ⟨s, ⟨.flat index f id pc :: fs, room⟩⟩) (Plain.leave c) := by
  obtain ⟨stack, calls, steps⟩ := c
  obtain rfl : calls = _ := h.calls
  obtain ⟨s', hs', ht⟩ := h.release
  rw [State.ret_flat, hs']
  simp only [Plain.leave, BoundedStack.pop]
  cases hframes with
  | nil => exact ⟨rfl, [], .nil, ht.withCalls⟩
  | @cons g e fs es hg hrest =>
    obtain ⟨hid, index', id', rfl⟩ := hg
    obtain ⟨id'', caller⟩ := e
    simp only [BoundedStack.top?, List.map_cons, List.head?_cons, State.resume_flat]
    refine ⟨rfl, (id'', ⟨caller.function, caller.pc + 1, caller.locals⟩) :: es, ?_, ?_⟩
    · exact .cons ⟨hid, index', id', rfl⟩ hrest
    · exact ht.moveTo (caller.pc + 1) _

theorem tracks_jump (target : UInt16) (hframes : FramesTrack Frame.IsAt fs es)
    (h : s.TracksTop Value.known es (es.map Prod.snd) room id f pc c) :
    Simulates Eq (.ok false ⟨s, ⟨.flat index f id target :: fs, room⟩⟩)
      ((do Plain.jump target; return false) c) := by
  obtain ⟨L, h⟩ := h
  obtain ⟨stack, calls, steps⟩ := c
  obtain rfl : calls = _ := h.calls
  refine ⟨rfl, (id, ⟨f, target, L⟩) :: es, .cons ⟨rfl, index, id, rfl⟩ hframes, ?_⟩
  exact h.moveTo target _

/-- **Both machines call a function**, and go on at its start. -/
theorem tracks_enter (setup : Setup) (function : UInt16) (hframes : FramesTrack Frame.IsAt fs es)
    (h : s.Tracks Value.known es ⟨es.map Prod.snd, room⟩ c) :
    Simulates (fun _ _ => True) (State.call setup function ⟨s, ⟨fs, room⟩⟩)
      (Plain.enter setup.program function c) := by
  obtain ⟨u, ⟨s', frames⟩, u', c', hx, hx', id, f, params, room', rfl, ht⟩ |
      ⟨e, ⟨s', frames⟩, e', c', hx, hx', he, rfl, ht⟩ := (tracks_call setup function h).split
  · rw [hx, hx']
    exact ⟨trivial, (id, .ofFunction f params) :: es, .cons ⟨rfl, function, id, rfl⟩ hframes, ht⟩
  · rw [hx, hx']
    exact ⟨he, es, hframes, ht⟩

omit [Modulus p] in
theorem State.Tracks.noted {m : State (System p) p} {F : Frame → Call p → Prop}
    (h : m.Tracks num F c) (frame : Frame) (e : Halt) :
    State.Tracks num F ⟨State.noted frame e m.store, m.frames⟩ c := by
  obtain ⟨es, hframes, hs⟩ := h
  exact ⟨es, hframes, hs.of_core (State.core_noted frame e m.store)⟩

/-- **One instruction of both machines.** -/
theorem tracks_step (setup : Setup) {m : State (System p) p} (hg : m.store.Grounded)
    (hk : m.store.Known) (h : m.Tracks Value.known Frame.IsAt c) :
    Simulates Eq (State.step setup m) (Plain.step setup.program c) := by
  obtain ⟨s, fs, room⟩ := m
  obtain ⟨stack, calls, steps⟩ := c
  obtain ⟨es, hframes, hs⟩ := h
  obtain rfl : calls = _ := hs.calls
  cases hframes with
  | nil => exact ⟨rfl, [], .nil, hs⟩
  | @cons frame e fs es hframe hrest =>
    obtain ⟨id, f, pc, L⟩ := e
    obtain ⟨hid, index, id', rfl⟩ := hframe
    obtain rfl : id = id' := hid.symm
    have hknows : s.locals.knows id = true :=
      decide_eq_true (LocalsTable.lt_size_of_operands? (hs.locals _ List.mem_cons_self))
    rw [State.step_flat]
    simp only [Plain.step, BoundedStack.top?, List.map_cons, List.head?_cons]
    cases hi : f.code[pc.toNat]? with
    | none =>
      rw [Block.step_eq_beyond (b := .body id pc) hknows hi]
      refine ⟨rfl, State.Tracks.noted (m := ⟨s, ⟨_ :: fs, room⟩⟩)
        ⟨(id, ⟨f, pc, L⟩) :: es, ?_, hs⟩ _ _⟩
      exact .cons ⟨rfl, index, id, rfl⟩ hrest
    | some i =>
      have hstep : (Block.body id pc).step setup.config.mode f s =
          (Block.body id pc).perform setup.config.mode f i (s.steps + 1) (s.fetch f i pc) :=
        Block.step_eq hknows hi
      have hfetch : (s.fetch f i pc).TracksTop Value.known es (es.map Prod.snd) room id f pc
          ⟨stack, _, steps + 1⟩ :=
        ⟨L, hs.stack, hs.room, hs.locals, hs.nodup, hs.free, rfl, congrArg (· + 1) hs.steps⟩
      have hg' : (s.fetch f i pc).Grounded := hg
      have hk' : (s.fetch f i pc).Known := hk
      obtain ⟨t, s', flow, c', hx, hx', hflow, ht⟩ | ⟨e, s', e', c', hx, hx', he, L', ht⟩ :=
        (tracks_perform_known f i setup.config.mode (s.steps + 1) hg' hk' hfetch).split
      · rw [hstep, hx]
        simp only [bind, EStateM.bind, Plain.tick, hx']
        cases hflow with
        | next => exact tracks_jump (pc + 1) hrest ht
        | goto target => exact tracks_jump target hrest ht
        | ret =>
          obtain ⟨L', ht⟩ := ht
          exact tracks_leave hrest ht
        | call function =>
          obtain ⟨L', ht⟩ := ht
          rw [State.conclude_call]
          simp only [EStateM.bind]
          obtain ⟨u, m₁, u', c₁, h₁, h₁', -, hm⟩ | ⟨e, m₁, e', c₁, h₁, h₁', he, hm⟩ :=
            (tracks_enter setup function (.cons ⟨rfl, index, id, rfl⟩ hrest) ht).split
          · rw [h₁, h₁']
            exact ⟨rfl, hm⟩
          · rw [h₁, h₁']
            exact ⟨he, hm⟩
      · rw [hstep, hx]
        simp only [bind, EStateM.bind, Plain.tick, hx']
        refine ⟨he, State.Tracks.noted (m := ⟨s', ⟨_ :: fs, room⟩⟩)
          ⟨(id, ⟨f, pc, L'⟩) :: es, ?_, ht⟩ _ _⟩
        exact .cons ⟨rfl, index, id, rfl⟩ hrest

end Steps

/-! ## Runs -/

section Runs

variable [Modulus p] {setup : Setup} {c : Configuration p}

/-- **Both machines execute instructions** until their functions return. -/
theorem tracks_loop (hmode : setup.config.mode = .witness) (fuel : ℕ) {m : State (System p) p}
    (hg : m.store.Grounded) (hk : m.store.Known) (h : m.Tracks Value.known Frame.IsAt c) :
    Simulates (fun _ _ => True) (State.loop setup fuel m) (Plain.loop setup.program fuel c) := by
  induction fuel generalizing m c with
  | zero => exact ⟨trivial, h⟩
  | succ fuel ih =>
    have hnext := (invariant_known hmode).step (m := m) ⟨hg, hk⟩
    rw [State.loop, Plain.loop]
    obtain ⟨b, m', b', c', hx, hx', rfl, hm⟩ | ⟨e, m', e', c', hx, hx', he⟩ :=
      (tracks_step setup hg hk h).split
    · rw [hx] at hnext
      rw [hx, hx']
      cases b with
      | true => exact ⟨trivial, hm⟩
      | false => exact ih hnext.1 hnext.2 hm
    · rw [hx, hx']
      exact he

theorem inputValues_known {f : Function} {args : List (Scalar p)} (n : ℕ)
    (hargs : args.length = f.params.length) :
    (inputValues n (State.inputs .witness f args)).map (·.operand? Value.known) =
      (Plain.arguments f args).map some := by
  rw [State.inputs, if_pos rfl, Plain.arguments]
  generalize f.params = params at hargs
  induction params generalizing args n with
  | nil =>
    obtain rfl : args = [] := List.length_eq_zero_iff.mp hargs
    rfl
  | cons type params ih =>
    obtain _ | ⟨x, args⟩ := args
    · cases hargs
    · exact congrArg₂ List.cons rfl (ih (n + 1) (Nat.succ.inj hargs))

theorem known_of_start (hmode : setup.config.mode = .witness) {index : UInt16} {f : Function}
    {args : List (Scalar p)} {m m' : State (System p) p}
    (hs : State.start setup index f args m = .ok () m') : m'.store.Grounded ∧ m'.store.Known := by
  refine (invariant_known hmode).of_start (fun s hempty => ⟨?_, ?_⟩) hs
  · exact fun v _ hv => absurd hv (hempty v)
  · exact fun v _ hv => absurd hv (hempty v)

/-- **Both machines run.** -/
theorem tracks_run (hmode : setup.config.mode = .witness) {index : UInt16} {f : Function}
    (hf : setup.program.function? index = some f) {args : List (Scalar p)}
    (hargs : args.length = f.params.length) (fuel : ℕ) (m₀ : State (System p) p) :
    Simulates (fun vs as => vs.map (·.operand? Value.known) = as.map some)
      (State.run setup fuel index args m₀) (Plain.run setup.program setup.config fuel f args) := by
  have hvalues : (inputValues m₀.store.ledger.recorder.wires.size
      (State.inputs setup.config.mode f args)).map (·.operand? Value.known) =
      (Plain.arguments f args).map some := by
    rw [hmode]
    exact inputValues_known _ hargs
  obtain ⟨m₁, c₁, id, room, hm₁, hc₁, hframes, h₁⟩ :=
    tracks_start setup index f args m₀ (Plain.length_arguments hargs) hvalues
  have hinv := known_of_start hmode hm₁
  have htracks : m₁.Tracks Value.known Frame.IsAt c₁ := by
    obtain ⟨s₁, frames⟩ := m₁
    cases hframes
    exact ⟨_, .cons ⟨rfl, index, id, rfl⟩ .nil, h₁⟩
  simp only [State.run, State.eligible_eq_ok hf fun _ => hargs, Plain.run, bind, EStateM.bind, hm₁,
    hc₁]
  obtain ⟨u, ⟨s₂, fs₂⟩, u', c₂, hx, hx', -, es, hes, h₂⟩ | ⟨e, m₂, e', c₂, hx, hx', he⟩ :=
    (tracks_loop hmode fuel hinv.1 hinv.2 htracks).split
  · rw [hx, hx']
    dsimp only [State.onStore]
    have hnil : ([] : List (Value p)).map (·.operand? Value.known) =
        ([] : List (Operand p)).map some := rfl
    obtain ⟨vs, s₃, as, c₃, hy, hy', hvs, h₃⟩ | ⟨e, s₃, e', c₃, hy, hy', he, h₃⟩ :=
      (tracks_popResults f.returns hnil s₂ c₂ h₂).split
    · rw [hy, hy']
      exact ⟨hvs, es, hes, h₃⟩
    · rw [hy, hy']
      exact ⟨he, es, hes, h₃⟩
  · rw [hx, hx']
    exact he

end Runs

/-- **Witnesses are computed by a plain stack machine**: with one argument for each parameter, both
machines execute instructions side by side, at most `fuel` many, and end in the same way, with the
same results or with the same failure, after as many instructions. Whether they end or are stopped,
the stack, the calls with their positions and locals, and the number of instructions are the same. -/
theorem witness_refines_plain [Modulus p] {setup : Setup} (hmode : setup.config.mode = .witness)
    {index : UInt16} {f : Function} (hf : setup.program.function? index = some f)
    {args : List (Scalar p)} (hargs : args.length = f.params.length) (fuel : ℕ)
    (m₀ : State (System p) p) :
    (∃ vs m as c, State.run setup fuel index args m₀ = .ok vs m ∧
        Plain.run setup.program setup.config fuel f args = .ok as c ∧
        vs.map (·.operand? Value.known) = as.map some ∧ m.Tracks Value.known Frame.IsAt c) ∨
      ∃ e m e' c, State.run setup fuel index args m₀ = .error e m ∧
        Plain.run setup.program setup.config fuel f args = .error e' c ∧
        e.Agrees e' ∧ m.Tracks Value.known Frame.IsAt c :=
  (tracks_run hmode hf hargs fuel m₀).split

/-- A function that has its parameter squared by the function after it. -/
def squareByCall : Function :=
  ⟨"main", [.u64], 1, 1, #[.ofNat .copyLoc 0, .ofNat .call 1, .ofNat .ret 0], Nat.le_refl 1⟩

/-- The witness of the two functions. -/
def squareWitness : Setup :=
  ⟨⟨#[squareByCall, ⟨"square", [.u64], 1, 1,
    #[.ofNat .copyLoc 0, .ofNat .moveLoc 0, .ofNat .mul 0, .ofNat .ret 0], Nat.le_refl 1⟩]⟩,
    .standard⟩

/-- What the plain machine makes of seven, and in how many steps. -/
def plainSquare : Option (List (Operand ScalarField.bn254.modulus) × ℕ) :=
  match Plain.run squareWitness.program squareWitness.config 10 squareByCall [.ofNat 7] with
  | .ok as c => some (as, c.steps)
  | .error _ _ => none

/-- Both machines come to 49 after seven instructions. -/
theorem witness_refines_plain_square :
    plainSquare = some ([⟨.ofNat 49, .u64⟩], 7) ∧
      ∃ vs m, State.run (p := ScalarField.bn254.modulus) squareWitness 10 0 [.ofNat 7]
          (.new squareWitness) = .ok vs m ∧
        vs.map (·.operand? Value.known) = [some ⟨.ofNat 49, .u64⟩] ∧ m.store.steps = 7 := by
  have hplain : plainSquare = some ([⟨.ofNat 49, .u64⟩], 7) := by decide +kernel
  refine ⟨hplain, ?_⟩
  have hlen : ([.ofNat 7] : List (Scalar ScalarField.bn254.modulus)).length =
    squareByCall.params.length := rfl
  have hf : squareWitness.program.function? 0 = some squareByCall := rfl
  have hmode : squareWitness.config.mode = .witness := rfl
  have h := witness_refines_plain hmode hf hlen 10 (.new squareWitness)
  unfold plainSquare at hplain
  obtain ⟨vs, m, as, c, hm, hc, hvs, es, -, ht⟩ | ⟨e, m, e', c, hm, hc, -⟩ := h
  · rw [hc] at hplain
    obtain ⟨has, hsteps⟩ := Prod.mk.inj (Option.some.inj hplain)
    rw [has] at hvs
    exact ⟨vs, m, hm, hvs, ht.steps.symm.trans hsteps⟩
  · rw [hc] at hplain
    cases hplain

end Machine

end StackCircuit
