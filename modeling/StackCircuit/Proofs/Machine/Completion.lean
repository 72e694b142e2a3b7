import StackCircuit.Proofs.Machine.Chronicle
import StackCircuit.Proofs.Machine.Start

/-!
# Whether all arms are executed

A function of structured code that ends with a return has executed all arms it has started when it
returns, if control was never behind the end of an arm; otherwise it has not. A jump can lead there:
the end of an arm is only noticed after an instruction that does not jump.

* `Chronicle.after`: what has happened to the arms of all frames after a step.
* **`Chronicled`**: the states between the instructions of an execution, with the chronicles of the
  frames.
* `Recounts`: the chronicles fit to the frames; `Leads`: where control goes after an instruction;
  `Recounts.step`: the chronicles fit after every step.
* **`arms_completed_iff`**: at its end, a function has executed both arms of each conditional if and
  only if control was never behind the end of an arm.
-/

namespace StackCircuit.Machine

open Bytecode (Function Instruction Program Structured)
open Circuit (Recorder System)

variable {σ : Type} {p : ℕ}

/-- **A program of structured functions that end with a return**, whose positions fit into 16
bits. -/
def Program.IsClosed (m : Program) : Prop :=
  ∀ f ∈ m.functions, f.code.size ≤ 65535 ∧
    ∃ body ret, f.code.toList = body ++ [ret] ∧ Structured 0 body ∧ ret.opcode = .ret

/-! ## Chronicles along an execution -/

/-- What has happened to the arms of all frames after a step from one state to another. A call has
added a frame, and a return has removed the topmost one. -/
def Chronicle.after (m m' : State σ p) (cs : List (Chronicle p)) : List (Chronicle p) :=
  let cs :=
    if m.frames.size < m'.frames.size then .empty :: cs
    else if m'.frames.size < m.frames.size then cs.tail
    else cs
  match cs, m'.frames.top? with
  | c :: cs, some f => c.extend (m'.store.arms.drop m.store.arms.length) f :: cs
  | cs, _ => cs

/-- **The states between the instructions of an execution, with the chronicles of their frames.** -/
inductive Chronicled [Modulus p] [Recorder σ p] (setup : Setup) (index : UInt16)
    (args : List (Scalar p)) (m₀ : State σ p) : State σ p → List (Chronicle p) → Prop
  | start {f : Function} {m : State σ p} (he : State.eligible setup index args = .ok f)
      (hm : State.start setup index f args m₀ = .ok () m) :
    Chronicled setup index args m₀ m [.empty]
  | step {m m' : State σ p} {cs : List (Chronicle p)} (h : Chronicled setup index args m₀ m cs)
      (hm : State.step setup m = .ok false m') :
    Chronicled setup index args m₀ m' (Chronicle.after m m' cs)

/-- A frame that waits for its callee to return. -/
def Frame.AtCall (f : Frame) : Prop :=
  ∃ number b i, f.running = .ok (number, b) ∧ f.function.code[b.pc.toNat]? = some i ∧
    i.opcode = .call

/-- **The chronicles fit to the frames**, of which all but the topmost wait, and there is a guard for
each conditional under execution. -/
structure Recounts (m : State σ p) (cs : List (Chronicle p)) : Prop where
  frames : List.Forall₂ (fun f c => Attends c f) m.frames.items cs
  waiting : ∀ f ∈ m.frames.items.tail, f.AtCall
  guards : ∃ guards, m.store.conditions = ⟨guards, none⟩ ∧
    guards.length = (m.frames.items.map Frame.depth).sum

section After

variable {s s' : Store σ p} {f g g' : Frame} {fs : List Frame} {room room' : Option ℕ}
  {c d : Chronicle p} {cs : List (Chronicle p)} {events : List (Event p)}

theorem Chronicle.after_stay (h : s'.arms = s.arms ++ events) :
    Chronicle.after ⟨s, ⟨f :: fs, room⟩⟩ ⟨s', ⟨g :: fs, room'⟩⟩ (c :: cs) =
      c.extend events g :: cs := by
  simp [after, BoundedStack.size, BoundedStack.top?, h]

theorem Chronicle.after_call (h : s'.arms = s.arms) :
    Chronicle.after ⟨s, ⟨fs, room⟩⟩ ⟨s', ⟨g :: fs, room'⟩⟩ cs =
      Chronicle.empty.extend [] g :: cs := by
  simp [after, BoundedStack.size, BoundedStack.top?, h]

theorem Chronicle.after_ret (h : s'.arms = s.arms ++ events) :
    Chronicle.after ⟨s, ⟨f :: g :: fs, room⟩⟩ ⟨s', ⟨g' :: fs, room'⟩⟩ (c :: d :: cs) =
      d.extend events g' :: cs := by
  simp [after, BoundedStack.size, BoundedStack.top?, h]

theorem Chronicle.after_congr {m' : State σ p} {frames : BoundedStack Frame} (h : s.arms = s'.arms) :
    Chronicle.after ⟨s, frames⟩ m' cs = Chronicle.after ⟨s', frames⟩ m' cs := by
  simp only [after, h]

end After

/-! ## Calls and returns -/

section Frames

variable {s : Store σ p} {f : Frame} {fs : List Frame} {room : Option ℕ}
  {guards : List (Guard p)} {c : Chronicle p} {cs : List (Chronicle p)} {m' : State σ p}

theorem isArm_of_isGate (e : Event p) (he : e.isGate = true) : e.isArm = false := by
  cases e with
  | constant => rfl
  | guarded => rfl
  | gateFailed => rfl
  | _ => cases he

theorem State.frames_onStore {α : Type} {x : EStateM Halt (Store σ p) α} {m m' : State σ p} {a : α}
    (h : State.onStore x m = .ok a m') : m'.frames = m.frames := by
  obtain ⟨s, frames⟩ := m
  dsimp only [State.onStore] at h
  cases hx : x s with
  | ok b s' => rw [hx] at h; cases h; rfl
  | error e s' => rw [hx] at h; cases h

theorem State.store_onStore {α : Type} {x : EStateM Halt (Store σ p) α} {m m' : State σ p} {a : α}
    (h : State.onStore x m = .ok a m') : x m.store = .ok a m'.store := by
  obtain ⟨s, frames⟩ := m
  dsimp only [State.onStore] at h
  cases hx : x s with
  | ok b s' => rw [hx] at h; cases h; rfl
  | error e s' => rw [hx] at h; cases h

theorem State.push_of_pushFrame {m m' : State σ p} (h : State.pushFrame f m = .ok () m') :
    m.frames.push f = .ok m'.frames := by
  unfold State.pushFrame at h
  cases hpush : m.frames.push f with
  | ok frames => rw [hpush] at h; cases h; rfl
  | error e => rw [hpush] at h; cases h

theorem State.items_pushFrame {m m' : State σ p} (h : State.pushFrame f m = .ok () m') :
    m'.frames.items = f :: m.frames.items :=
  BoundedStack.items_push (State.push_of_pushFrame h)

theorem State.releasing_eq_ok {α : Type} {id : ℕ} {x : EStateM Halt (State σ p) α} {a : α}
    {m m' : State σ p} (h : State.releasing id x m = .ok a m') : x m = .ok a m' := by
  unfold State.releasing at h
  cases hx : x m with
  | ok b m₁ => rw [hx] at h; exact h
  | error e m₁ =>
    rw [hx] at h
    dsimp only at h
    cases hr : State.onStore (Store.releaseLocals id) m₁ with
    | ok b m₂ => rw [hr] at h; cases h
    | error e m₂ => rw [hr] at h; cases h

theorem State.push_of_call {setup : Setup} {index : UInt16} {m m' : State σ p}
    (h : State.call setup index m = .ok () m') :
    ∃ f ∈ setup.program.functions, ∃ id, m.frames.push (.ofFunction index f id) = .ok m'.frames := by
  unfold State.call at h
  cases hf : setup.program.function? index with
  | none => rw [hf] at h; cases h
  | some f =>
    rw [hf] at h
    refine ⟨f, Array.mem_of_getElem? hf, ?_⟩
    obtain ⟨id, m₁, h₁, h⟩ := bind_eq_ok h
    obtain ⟨u, m₂, h₂, h⟩ := bind_eq_ok h
    obtain ⟨m₃, m₄, h₄, h⟩ := bind_eq_ok h
    cases h₄
    obtain ⟨u, m₅, h₅, h₆⟩ := bind_eq_ok (State.releasing_eq_ok h₂)
    refine ⟨id, ?_⟩
    rw [State.frames_onStore h, ← State.push_of_pushFrame h₆, State.frames_onStore h₅,
      State.frames_onStore h₁]

theorem State.frames_call {setup : Setup} {index : UInt16} {m m' : State σ p}
    (h : State.call setup index m = .ok () m') :
    ∃ f ∈ setup.program.functions, ∃ id,
      m'.frames.items = .ofFunction index f id :: m.frames.items := by
  obtain ⟨f, hf, id, hpush⟩ := State.push_of_call h
  exact ⟨f, hf, id, BoundedStack.items_push hpush⟩

theorem attends_ofFunction {h : Function} (hsize : h.code.size ≤ 65535) {body : List Instruction}
    {ret : Instruction} (hcode : h.code.toList = body ++ [ret]) (hbody : Structured 0 body)
    (hret : ret.opcode = .ret) (index : UInt16) (id : ℕ) :
    Attends ((Chronicle.empty : Chronicle p).extend [] (.ofFunction index h id))
      (.ofFunction index h id) := by
  have hlen : body.length + 1 = h.code.size := by
    rw [← Array.length_toList, hcode, List.length_append, List.length_singleton]
  have hhas : h.HasCode 0 (body ++ [ret]) := by
    intro k _
    rw [Nat.zero_add, ← hcode, Array.getElem?_toList]
  have hend : h.code[body.length]? = some ret := by
    have hright := hhas.right.head
    rwa [Nat.zero_add] at hright
  have hflow : Flows h 0 body.length := by
    refine Flows.of_structured hbody (Nat.lt_succ_of_le hsize) hhas.left ?_
    rw [Nat.zero_add]
    exact .done
  rw [Frame.ofFunction_eq_ofNesting]
  refine Attends.extend (k := 0) (e := body.length) (Nat.lt_succ_of_le hsize) ⟨hlen, ret, hend, hret⟩
    rfl ?_ (.inr rfl) (fun _ => ⟨rfl, .body .nil⟩) (fun h => by cases h)
  exact .free (n := ⟨.ofStart 0 none id, []⟩) hflow (Nat.le_refl 0) fun stop hstop => by cases hstop

/-- **A call**: the chronicle of a new frame starts. -/
theorem Recounts.call {setup : Setup} (hprog : Program.IsClosed setup.program) {index : UInt16}
    {m m' : State σ p} (h : Recounts m cs) (hf : ∀ f ∈ m.frames.items, f.AtCall)
    (hm : State.call setup index m = .ok () m') :
    ∃ g, m'.frames.items = g :: m.frames.items ∧ m'.store.arms = m.store.arms ∧
      Recounts m' (Chronicle.empty.extend [] g :: cs) := by
  obtain ⟨guards, hs, hguards⟩ := h.guards
  obtain ⟨k, hk, id, hitems⟩ := State.frames_call hm
  obtain ⟨hsize, body, ret, hcode, hbody, hret⟩ := hprog k hk
  have hstill := (effects_still (σ := σ) isArm_of_isGate m.store.conditions m.store.arms).call setup
    index (fun _ _ _ => still_note rfl) m ⟨rfl, rfl⟩
  rw [hm] at hstill
  obtain ⟨⟨hconds, harms⟩, -⟩ := hstill
  refine ⟨_, hitems, harms, ?_, ?_, guards, hconds.trans hs, ?_⟩
  · rw [hitems]
    exact .cons (attends_ofFunction hsize hcode hbody hret index id) h.frames
  · rw [hitems]
    exact hf
  · have hdepth : (Frame.ofFunction index k id).depth = 0 := rfl
    rw [hitems, hguards, List.map_cons, List.sum_cons, hdepth, Nat.zero_add]

/-- **A return**: the caller goes on behind its call, if there is one. -/
theorem Recounts.ret {m m' : State σ p} (h : Recounts m cs) (hm : State.ret m = .ok false m') :
    Recounts m' (Chronicle.after m m' cs) := by
  obtain ⟨s, fs, room⟩ := m
  obtain ⟨hframes, hwaiting, guards, hs, hguards⟩ := h
  dsimp only at hframes hwaiting hs hguards
  cases hframes with
  | nil => cases hm
  | @cons f c fs cs _ hfs =>
    rw [List.map_cons, List.sum_cons] at hguards
    have hpop := Store.popGuards_eq hs (k := f.depth) (by omega)
    let s₁ := s.withGuards (guards.drop f.depth)
    have hstill := (effects_still (σ := σ) isArm_of_isGate s₁.conditions s₁.arms).releaseLocals
      f.localsId s₁ ⟨rfl, rfl⟩
    simp only [State.ret, bind, EStateM.bind, State.popFrame, BoundedStack.pop, State.onStore,
      hpop] at hm
    cases hr : Store.releaseLocals f.localsId s₁ with
    | error e s₂ => rw [hr] at hm; cases hm
    | ok u s₂ =>
      rw [hr] at hm hstill
      obtain ⟨⟨hconds, harms⟩, -⟩ := hstill
      cases hfs with
      | nil => cases hm
      | @cons g d gs cs hg hgs =>
        obtain ⟨number, b, i, hb, hi, hop⟩ := hwaiting g List.mem_cons_self
        rw [List.map_cons, List.sum_cons] at hguards
        have hdrop : (guards.drop f.depth).length = guards.length - f.depth := List.length_drop
        obtain ⟨g', events, t, hok, hg', ht, guards', hguards', hcount⟩ :=
          hg.advance hb hi (by rw [hop]; simp) (fun e h hlt => h.next_inv hlt hi (by rw [hop]; simp))
            hconds (by omega)
        simp only [State.onTop, BoundedStack.top?, List.head?_cons, hok] at hm
        cases hm
        have harms' : t.arms = s.arms ++ events := ht.trans (congrArg (· ++ events) harms)
        dsimp only [BoundedStack.setTop]
        rw [Chronicle.after_ret harms']
        refine ⟨.cons hg' hgs, fun k hk => hwaiting k (List.mem_cons_of_mem _ hk), guards', hguards',
          ?_⟩
        simp only [List.map_cons, List.sum_cons]
        omega

end Frames

/-! ## Steps -/

section Steps

variable [Modulus p] [Recorder σ p] {mode : Mode} {h : Function} {b : Block} {i : Instruction}
  {s s' : Store σ p} {count : ℕ} {t : Transition p}

/-- **Where control goes after an instruction**: out of the function, into another one, on to the
next instruction, to a target, or into arms. -/
inductive Leads (b : Block) (i : Instruction) : Transition p → Prop
  | ret : Leads b i (.exit .ret)
  | call (hop : i.opcode = .call) : Leads b i (.exit (.call i.index))
  | advance (hret : i.opcode ≠ .ret) (hbranch : i.opcode ≠ .branch) : Leads b i b.advance
  | goto (hjump : i.opcode.isJump = true) : Leads b i (.goto i.target)
  | enter (hcond : i.opcode.isConditionalBranch = true) (v : Value p) :
    Leads b i (.exit (.conditional b.pc v))

theorem Block.perform_leads (hok : b.perform mode h i count s = .ok t s') : Leads b i t := by
  by_cases hret : i.opcode = .ret
  · simp only [Block.perform, hret] at hok
    cases hok
    exact .ret
  by_cases hbranch : i.opcode = .branch
  · simp only [Block.perform, hbranch] at hok
    cases hok
    exact .goto (by rw [hbranch]; rfl)
  by_cases hcond : i.opcode.isConditionalBranch = true
  · rw [Block.perform_conditional hcond] at hok
    obtain ⟨cond, -, ⟨-, rfl⟩ | ⟨-, rfl⟩ | ⟨-, -, rfl⟩⟩ := Block.branchOn_eq_ok hok
    · exact .goto (i.opcode.isJump_iff.mpr (.inl hcond))
    · exact .advance hret hbranch
    · exact .enter hcond cond
  · have hjump := i.opcode.isJump_eq_false_iff.mpr ⟨hcond, hbranch⟩
    have hpasses := agree_perform mode h h count hjump (rfl : b.localsId = b.localsId) s.conditions
      s.conditions s s ⟨rfl, rfl, rfl⟩
    rw [hok] at hpasses
    cases hpasses.1 with
    | advance => exact .advance hret hbranch
    | ret => exact .ret
    | call hcall => exact .call hcall

omit [Modulus p] in
theorem Attends.running {f : Frame} {c : Chronicle p} (h : Attends c f) :
    ∃ number b, f.running = .ok (number, b) := by
  cases h
  exact ⟨_, _, Frame.running_ofNesting⟩

variable {setup : Setup} {f : Frame} {fs : List Frame} {room : Option ℕ} {c : Chronicle p}
  {cs : List (Chronicle p)} {number : ℕ} {m' : State σ p}

omit [Modulus p] [Recorder σ p] in
theorem Recounts.stay (h : Recounts ⟨s, ⟨f :: fs, room⟩⟩ (c :: cs)) {g : Frame}
    {events : List (Event p)} (hg : Attends (c.extend events g) g)
    (harms : s'.arms = s.arms ++ events) {guards guards' : List (Guard p)}
    (hs : s.conditions = ⟨guards, none⟩) (hs' : s'.conditions = ⟨guards', none⟩)
    (hcount : guards'.length + f.depth = guards.length + g.depth) :
    Recounts ⟨s', ⟨g :: fs, room⟩⟩
      (Chronicle.after ⟨s, ⟨f :: fs, room⟩⟩ ⟨s', ⟨g :: fs, room⟩⟩ (c :: cs)) := by
  obtain ⟨hframes, hwaiting, guards₀, hs₀, hguards⟩ := h
  dsimp only at hframes hwaiting hs₀ hguards
  rw [hs] at hs₀
  cases hs₀
  rw [List.map_cons, List.sum_cons] at hguards
  rw [Chronicle.after_stay harms]
  refine ⟨.cons hg (List.forall₂_cons.mp hframes).2, hwaiting, guards', hs', ?_⟩
  simp only [List.map_cons, List.sum_cons]
  omega

omit [Modulus p] [Recorder σ p] in
/-- **Control follows an instruction.** -/
theorem Recounts.follow (hprog : Program.IsClosed setup.program)
    (hm : Recounts ⟨s, ⟨f :: fs, room⟩⟩ (c :: cs)) (hb : f.running = .ok (number, b))
    (hi : f.function.code[b.pc.toNat]? = some i) (ht : Leads b i t)
    (hok : State.conclude setup fs room (Activation.follow f number t ⟨f, s⟩) = .ok false m') :
    Recounts m' (Chronicle.after ⟨s, ⟨f :: fs, room⟩⟩ m' (c :: cs)) := by
  obtain ⟨guards, hs, hguards⟩ := hm.guards
  dsimp only at hs hguards
  rw [List.map_cons, List.sum_cons] at hguards
  have hf : Attends c f := (List.forall₂_cons.mp hm.frames).1
  cases ht with
  | ret => exact hm.ret hok
  | call hop =>
    have hcall : ∀ k ∈ f :: fs, k.AtCall := by
      intro k hk
      rcases List.mem_cons.mp hk with rfl | hk
      · exact ⟨number, b, i, hb, hi, hop⟩
      · exact hm.waiting k hk
    obtain ⟨u, m₁, hcall', hrest⟩ := bind_eq_ok hok
    cases hrest
    obtain ⟨g, hitems, harms, hrec⟩ := hm.call hprog hcall hcall'
    obtain ⟨s', items, room'⟩ := m'
    dsimp only at hitems harms
    subst hitems
    rw [Chronicle.after_call harms]
    exact hrec
  | advance hret hbranch =>
    rw [Activation.follow_advance hb] at hok
    obtain ⟨g, events, t, hadv, hg, harms, guards', hs', hcount⟩ := hf.advance hb hi hret
      (fun e h hlt => h.next_inv hlt hi hbranch) hs (by omega)
    rw [hadv] at hok
    cases hok
    exact hm.stay hg harms hs hs' hcount
  | goto hjump =>
    cases hok
    have hret : i.opcode ≠ .ret := by
      intro h
      rw [h] at hjump
      cases hjump
    have hg := hf.goto hb hi hret i.target fun e h hlt => h.target_inv hlt hi hjump
    exact hm.stay hg (List.append_nil _).symm hs hs rfl
  | enter hcond v =>
    obtain ⟨g, events, t, hmat, hg, harms, guards', hs', hcount⟩ := hf.enter hb hi hcond hs v
    simp only [Activation.follow, bind, EStateM.bind, hmat] at hok
    cases hok
    exact hm.stay hg harms hs hs' hcount

/-- **A step of the machine.** -/
theorem Recounts.step (hprog : Program.IsClosed setup.program) {m : State σ p} (h : Recounts m cs)
    (hm : State.step setup m = .ok false m') : Recounts m' (Chronicle.after m m' cs) := by
  obtain ⟨s, fs, room⟩ := m
  have hframes := h.frames
  dsimp only at hframes
  cases hframes with
  | nil => cases hm
  | @cons f c fs cs hf hfs =>
    obtain ⟨number, b, hb⟩ := hf.running
    rw [State.step_cons, Activation.step_eq hb] at hm
    by_cases hk : s.locals.knows b.localsId = true
    · cases hi : f.function.code[b.pc.toNat]? with
      | none => rw [Block.step_eq_beyond hk hi] at hm; cases hm
      | some i =>
        rw [Block.step_eq hk hi] at hm
        have hstill := (effects_still (σ := σ) isArm_of_isGate s.conditions s.arms).perform
          setup.config.mode f.function b (i := i) (s.steps + 1)
          (fun g _ => still_binary isArm_of_isGate _ _ g) (s.fetch f.function i b.pc)
          ⟨rfl, filter_push rfl⟩
        cases hp : b.perform setup.config.mode f.function i (s.steps + 1)
          (s.fetch f.function i b.pc) with
        | error e s₁ => rw [hp] at hm; cases hm
        | ok t s₁ =>
          rw [hp] at hm hstill
          obtain ⟨⟨hconds, harms⟩, -⟩ := hstill
          obtain ⟨guards, hs, hguards⟩ := h.guards
          have hrec : Recounts ⟨s₁, ⟨f :: fs, room⟩⟩ (c :: cs) :=
            ⟨h.frames, h.waiting, guards, hconds.trans hs, hguards⟩
          have harms' : s.arms = s₁.arms := harms.symm
          rw [Chronicle.after_congr harms']
          exact hrec.follow hprog hb hi (Block.perform_leads hp) hm
    · rw [Block.step_eq_unknown (Bool.eq_false_iff.mpr hk)] at hm
      cases hm

omit [Modulus p] in
theorem State.start_still {index : UInt16} {args : List (Scalar p)} {h : Function} {m₀ m : State σ p}
    (hm : State.start setup index h args m₀ = .ok () m) :
    (∃ id, m.frames.items = [.ofFunction index h id]) ∧ m.store.conditions = .unbounded := by
  obtain ⟨u, m₁, h₁, hm⟩ := bind_eq_ok hm
  cases h₁
  obtain ⟨id, m₂, h₂, hm⟩ := bind_eq_ok hm
  obtain ⟨u, m₃, h₃, hm⟩ := bind_eq_ok hm
  obtain ⟨u, m₄, h₄, h₅⟩ := bind_eq_ok hm
  refine ⟨⟨id, ?_⟩, ?_⟩
  · rw [State.frames_onStore h₅, State.items_pushFrame h₄, State.frames_onStore h₃,
      State.frames_onStore h₂]
    rfl
  · have heffects := effects_still (σ := σ) isArm_of_isGate .unbounded m₀.store.arms
    have hs₂ := Keeps.onMachineStore (heffects.allocLocals h.locals)
      (State.initial setup.config m₀.store.ledger) ⟨rfl, rfl⟩
    rw [h₂] at hs₂
    have hs₃ := Keeps.onMachineStore (still_allocInputs id 0
      (State.inputs setup.config.mode h args) isArm_of_isGate) m₂ hs₂.1
    rw [h₃] at hs₃
    have hs₄ := Keeps.pushFrame (.ofFunction index h id) m₃ hs₃.1
    rw [h₄] at hs₄
    have hs₅ := Keeps.onMachineStore (still_note (e := .run h.name setup.config.mode) rfl) m₄ hs₄.1
    rw [h₅] at hs₅
    exact hs₅.1.1

omit [Modulus p] in
theorem Recounts.start (hprog : Program.IsClosed setup.program) {index : UInt16}
    {args : List (Scalar p)} {h : Function} (he : State.eligible setup index args = .ok h)
    {m₀ m : State σ p} (hm : State.start setup index h args m₀ = .ok () m) :
    Recounts m [.empty] := by
  obtain ⟨hsize, body, ret, hcode, hbody, hret⟩ := hprog h (State.eligible_mem he)
  obtain ⟨⟨id, hitems⟩, hconds⟩ := State.start_still hm
  refine ⟨?_, ?_, [], hconds, ?_⟩
  · rw [hitems]
    exact .cons (attends_ofFunction hsize hcode hbody hret index id) .nil
  · rw [hitems]
    exact fun f hf => absurd hf List.not_mem_nil
  · rw [hitems]
    rfl

end Steps

/-! ## Executions -/

section Executions

variable [Modulus p] [Recorder σ p] {setup : Setup} {index : UInt16} {args : List (Scalar p)}
  {m₀ m : State σ p} {cs : List (Chronicle p)}

/-- **The chronicles fit to the frames** in all states of an execution. -/
theorem Chronicled.recounts (hprog : Program.IsClosed setup.program)
    (h : Chronicled setup index args m₀ m cs) : Recounts m cs := by
  induction h with
  | start he hm => exact Recounts.start hprog he hm
  | step _ hm ih => exact ih.step hprog hm

/-- Whether the next instruction of a frame is the last one of its function. -/
def Frame.isAtEnd (f : Frame) : Bool :=
  match f.running with
  | .ok (_, b) => b.pc.toNat + 1 = f.function.code.size
  | .error _ => false

/-- **Whether all arms are executed**: when a function of structured code gets to its last return,
all arms that it has started have ended, both arms of each conditional once, if and only if control
was never behind the end of an arm. -/
theorem arms_completed_iff (hprog : Program.IsClosed setup.program) {c : Chronicle p}
    (hm : Chronicled setup index args m₀ m (c :: cs)) {f : Frame} (hf : m.frames.top? = some f)
    (hend : f.isAtEnd = true) :
    (f.depth = 0 ∧ Completed f.function 0 c.events) ↔ c.strayed = false := by
  have hframes := (hm.recounts hprog).frames
  obtain ⟨s, _ | ⟨g, fs⟩, room⟩ := m
  · cases hf
  cases hf
  obtain ⟨hattends, -⟩ := List.forall₂_cons.mp hframes
  obtain @⟨index, h, id, k, e, E, n, hsize, hret, hbody, hstands, hlt, hlog, hstray⟩ := hattends
  have hpc : n.running.pc.toNat + 1 = h.code.size := by
    simp only [Frame.isAtEnd, Frame.running_ofNesting] at hend
    exact of_decide_eq_true hend
  have hE : n.running.pc.toNat = E := by
    have := hret.1
    omega
  have hk : n.layers.length = k := by
    have hle := hstands.flows_end.le
    omega
  rw [Frame.depth_ofNesting, hk]
  constructor
  · rintro ⟨rfl, -⟩
    refine Bool.eq_false_iff.mpr fun h => ?_
    exact absurd (hstray h) (Nat.lt_irrefl 0)
  · intro h
    obtain ⟨rfl, hlogged⟩ := hlog h
    refine ⟨rfl, ?_⟩
    rw [List.eq_nil_of_length_eq_zero hk] at hlogged
    cases hlogged with
    | body hcompleted => exact hcompleted

end Executions

/-! ## A conditional at the end of an arm -/

/-- The shape of a circuit that takes the square of its parameter if that is false, where the first
arm ends with a conditional whose condition is always true, or false. -/
def squareUnless (always : Bytecode.Opcode) : Setup :=
  .ofCode 1 1
    #[.ofNat .copyLoc 0, .ofNat .brTrue 3, .ofNat .branch 10, .ofNat always 0, .ofNat .brTrue 6,
      .ofNat .branch 8, .ofNat .ldU8 1, .ofNat .branch 9, .ofNat .ldU8 2, .ofNat .branch 13,
      .ofNat .copyLoc 0, .ofNat .copyLoc 0, .ofNat .mul 0, .ofNat .ret 0]

theorem isClosed_squareUnless {always : Bytecode.Opcode} (h : always.isJump = false) :
    Program.IsClosed (squareUnless always).program := by
  have hinner := @Structured.twoArmed 4 (.ofNat .brTrue 6) (.ofNat .branch 8) (.ofNat .branch 9)
    [.ofNat .ldU8 1] [.ofNat .ldU8 2] [] rfl rfl rfl rfl rfl rfl (by simp) (.plain rfl .nil) (by simp)
    (.plain rfl .nil) .nil
  have houter := @Structured.twoArmed 1 (.ofNat .brTrue 3) (.ofNat .branch 10) (.ofNat .branch 13)
    [.ofNat always 0, .ofNat .brTrue 6, .ofNat .branch 8, .ofNat .ldU8 1, .ofNat .branch 9,
      .ofNat .ldU8 2]
    [.ofNat .copyLoc 0, .ofNat .copyLoc 0, .ofNat .mul 0] [] rfl rfl rfl rfl rfl rfl (by simp)
    (.plain h hinner) (by simp) (.plain rfl (.plain rfl (.plain rfl .nil))) .nil
  intro f hf
  obtain rfl := List.mem_singleton.mp (Array.mem_def.mp hf)
  exact ⟨(by decide : 14 ≤ 65535), _, .ofNat .ret 0, rfl, .plain rfl houter, rfl⟩

/-- The end of its execution. -/
def squareUnlessEnd (always : Bytecode.Opcode) :
    Option (State (System ScalarField.bn254.modulus) ScalarField.bn254.modulus ×
      List (Chronicle ScalarField.bn254.modulus)) :=
  (State.started? (squareUnless always) 0 [] (.new (squareUnless always))).map fun m =>
    State.track (squareUnless always) Chronicle.after 20 (m, [.empty])

/-- The only frame is at its end, and its chronicle passes a check. -/
def endsWith (check : Frame → Chronicle ScalarField.bn254.modulus → Bool)
    (x : State (System ScalarField.bn254.modulus) ScalarField.bn254.modulus ×
      List (Chronicle ScalarField.bn254.modulus)) : Bool :=
  match x.1.frames.top?, x.2 with
  | some f, [c] => f.isAtEnd && check f c
  | _, _ => false

theorem exists_chronicled_squareUnless {always : Bytecode.Opcode}
    {check : Frame → Chronicle ScalarField.bn254.modulus → Bool}
    (h : (squareUnlessEnd always).any (endsWith check) = true) :
    ∃ m c f, Chronicled (squareUnless always) 0 [] (.new (squareUnless always)) m [c] ∧
      m.frames.top? = some f ∧ f.isAtEnd = true ∧ check f c = true := by
  rw [squareUnlessEnd, Option.any_map, Option.any_eq_true] at h
  obtain ⟨m, hm, h⟩ := h
  obtain ⟨f, he, hs⟩ := State.started?_eq_some hm
  have htrack := State.track_keeps Chronicle.after
    (P := Chronicled (squareUnless always) 0 [] (.new (squareUnless always)))
    (fun _ _ _ h hm => h.step hm) (.start he hs) 20
  simp only [endsWith] at h
  split at h
  · rename_i f c hf hc
    rw [hc] at htrack
    rw [Bool.and_eq_true] at h
    exact ⟨_, c, f, htrack, hf, h⟩
  · cases h

/-- If the condition is always false, the square is built as well. -/
theorem arms_completed_squareUnless_false :
    ∃ m c f, Chronicled (squareUnless .ldFalse) 0 [] (.new (squareUnless .ldFalse)) m [c] ∧
      m.frames.top? = some f ∧ f.isAtEnd = true ∧ f.depth = 0 ∧
      Completed (p := ScalarField.bn254.modulus) f.function 0 c.events := by
  have h : (squareUnlessEnd .ldFalse).any (endsWith fun _ c => !c.strayed) = true := by
    decide +kernel
  obtain ⟨m, c, f, hm, hf, hend, hc⟩ := exists_chronicled_squareUnless h
  have hiff := arms_completed_iff (isClosed_squareUnless rfl) hm hf hend
  exact ⟨m, c, f, hm, hf, hend, hiff.mpr (by simpa using hc)⟩

/-- If it is always true, the first arm is left by a jump, and the square is not built. -/
theorem not_completed_squareUnless_true :
    Program.IsClosed (squareUnless .ldTrue).program ∧
    ∃ m c f, Chronicled (squareUnless .ldTrue) 0 [] (.new (squareUnless .ldTrue)) m [c] ∧
      m.frames.top? = some f ∧ f.isAtEnd = true ∧ f.depth = 1 ∧
      ¬ Completed (p := ScalarField.bn254.modulus) f.function 0 c.events := by
  have h : (squareUnlessEnd .ldTrue).any
      (endsWith fun f c => f.depth = 1 && c.events.length = 1) = true := by
    decide +kernel
  obtain ⟨m, c, f, hm, hf, hend, hc⟩ := exists_chronicled_squareUnless h
  simp only [Bool.and_eq_true, decide_eq_true_eq] at hc
  exact ⟨isClosed_squareUnless rfl, m, c, f, hm, hf, hend, hc.1,
    fun hcompleted => hcompleted.length_ne_one hc.2⟩

end StackCircuit.Machine
