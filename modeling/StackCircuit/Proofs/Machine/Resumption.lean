import StackCircuit.Proofs.Machine.Apart
import StackCircuit.Proofs.Machine.Depth
import StackCircuit.Proofs.Machine.Flat

/-!
# Going on behind an instruction

Control goes on behind an instruction that does not jump, behind a conditional branch that is not
taken, behind a call that has returned and behind the end of an arm. The position behind is one more, in 16 bits. A function has up to 2¹⁶ instructions,
so behind the last of 2¹⁶ there is no position that would be beyond the end of the code, and control
goes back to the start.

* `Block.perform_straight`: what does not branch leads on to the next instruction.
* `FallsThrough`: the same with the conditional branches that are not taken.
* `Frame.Rested`, `Reached.rested`: second arms wait at their starts.
* `Nesting.GoesOn.goesBehind`: going on leads to the next position, or to a second arm.
* `Reached.returns`, `Reached.fails`: a run ends from its last state once it has fuel for it.
* **`goes_on_behind`**: control goes on at the next position exactly if there is one in 16 bits, and
  the run fails there if it is the end of the code.
-/

namespace StackCircuit.Machine

open Bytecode (Function Instruction)
open Circuit (Recorder System)

variable {σ : Type} {p : ℕ}

/-! ## Instructions that do not branch -/

/-- **An instruction that does not branch leads on**, to the next one or out of the arm. -/
theorem Block.perform_straight [Modulus p] [Recorder σ p] {mode : Mode} {f : Function} {b : Block}
    {i : Instruction} {step : ℕ} {t : Transition p} {s s' : Store σ p}
    (hi : i.opcode.isBranch = false) (h : b.perform mode f i step s = .ok t s') : t = b.advance := by
  have done {α : Type} {x : EStateM Halt (Store σ p) α}
      (h : (do let _ ← x; return (b.advance : Transition p)) s = .ok t s') : t = b.advance := by
    obtain ⟨_, _, -, h⟩ := bind_eq_ok h
    cases h
    rfl
  have after {x : EStateM Halt (Store σ p) (Value p)} {k : Value p → EStateM Halt (Store σ p) Unit}
      (h : (do let v ← x; k v; return (b.advance : Transition p)) s = .ok t s') : t = b.advance := by
    obtain ⟨_, _, -, h⟩ := bind_eq_ok h
    obtain ⟨_, _, -, h⟩ := bind_eq_ok h
    cases h
    rfl
  unfold Block.perform at h
  cases hop : i.opcode with
  | ldU8 | ldU64 | ldU128 | ldTrue | ldFalse | pop | add | sub | mul | eq =>
    simp only [hop] at h
    exact done h
  | copyLoc | moveLoc | stLoc =>
    simp only [hop] at h
    exact after h
  | brTrue | brFalse | branch | ret | call | abort => rw [hop] at hi; cases hi
  | undefined n =>
    simp only [hop] at h
    cases h

/-- **What leads on to the next instruction**: an instruction that does not branch, and a conditional
branch on a known condition that it does not take. -/
inductive FallsThrough [Modulus p] (stack : BoundedStack (Value p)) (i : Instruction) : Prop
  | straight (hop : i.opcode.isBranch = false)
  | untaken {v : Value p} {x : Scalar p} (hop : i.opcode.isConditionalBranch = true)
      (htop : stack.top? = some v) (hv : v.value? = some x)
      (hx : x ≠ .ofBool (i.opcode = .brTrue))

theorem FallsThrough.eq_advance [Modulus p] [Recorder σ p] {mode : Mode} {f : Function} {b : Block}
    {i : Instruction} {step : ℕ} {t : Transition p} {s s' : Store σ p} (hi : FallsThrough s.stack i)
    (h : b.perform mode f i step s = .ok t s') : t = b.advance := by
  cases hi with
  | straight hop => exact Block.perform_straight hop h
  | @untaken v x hop htop hv hx =>
    rw [Block.perform_conditional hop] at h
    obtain ⟨w, hpop, hbranches⟩ := Block.branchOn_eq_ok h
    obtain rfl : v = w := Option.some.inj (htop.symm.trans (Store.top?_of_pop hpop))
    obtain ⟨hw, -⟩ | ⟨-, ht⟩ | ⟨hw, -⟩ := hbranches
    · exact absurd (Option.some.inj (hv.symm.trans hw)) hx
    · exact ht
    · cases hv.symm.trans hw

theorem Block.advance_ne_call (b : Block) (index : UInt16) :
    (b.advance : Transition p) ≠ .exit (.call index) := by
  unfold Block.advance
  split <;> exact nofun

theorem Block.advance_ne_ret (b : Block) : (b.advance : Transition p) ≠ .exit .ret := by
  unfold Block.advance
  split <;> exact nofun

/-! ## Arms that wait -/

/-- The second of two arms waits at its first instruction. -/
def Layer.Rested : Layer → Prop
  | first _ b => b.pc = b.start
  | _ => True

/-- A frame whose second arms wait at their first instructions. -/
inductive Frame.Rested : Frame → Prop
  | intro {index : UInt16} {f : Function} {id : ℕ} {n : Nesting} (hbody : n.body.stop = none)
      (h : ∀ l ∈ n.layers, l.Rested) : Rested (.ofNesting index f id n)

section Rested

variable {f : Function} {n n' : Nesting} {pc : UInt16}

theorem Layer.Rested.setPc {l : Layer} (h : l.Rested) (pc : UInt16) : (l.setPc pc).Rested := by
  cases l with
  | first b b' => exact h
  | only b => trivial
  | second b b' => trivial

theorem Layer.rested_ofBounds (id : ℕ) (bounds : (UInt16 × UInt16) × Option (UInt16 × UInt16)) :
    (ofBounds id bounds).Rested := by
  obtain ⟨⟨start, stop⟩, _ | ⟨start', stop'⟩⟩ := bounds
  · trivial
  · rfl

theorem Nesting.rested_setPc (h : ∀ l ∈ n.layers, l.Rested) (pc : UInt16) :
    ∀ l ∈ (n.setPc pc).layers, l.Rested := by
  obtain ⟨body, _ | ⟨l, ls⟩⟩ := n
  · exact h
  · obtain ⟨hl, hls⟩ := List.forall_mem_cons.mp h
    exact List.forall_mem_cons.mpr ⟨hl.setPc pc, hls⟩

theorem Activation.Settles.rested {events : List (Event p)} (h : Activation.Settles f pc n n' events)
    (hn : ∀ l ∈ n.layers, l.Rested) : ∀ l ∈ n'.layers, l.Rested := by
  induction h with
  | switch => exact List.forall_mem_cons.mpr ⟨trivial, (List.forall_mem_cons.mp hn).2⟩
  | resume => exact Nesting.rested_setPc (List.forall_mem_cons.mp hn).2 _
  | cascade _ _ _ ih => exact ih (Nesting.rested_setPc (List.forall_mem_cons.mp hn).2 _)

theorem Nesting.GoesOn.rested (h : Nesting.GoesOn (p := p) f n n') (hn : ∀ l ∈ n.layers, l.Rested) :
    ∀ l ∈ n'.layers, l.Rested := by
  cases h with
  | next => exact Nesting.rested_setPc hn _
  | settle h => exact h.rested hn

end Rested

/-- **Every frame of an execution has its second arms waiting.** -/
theorem Reached.rested [Modulus p] [Recorder σ p] {setup : Setup} {index : UInt16}
    {args : List (Scalar p)} {m₀ m : State σ p} (h : Reached setup index args m₀ m) :
    ∀ f ∈ m.frames.items, f.Rested := by
  have hfirst (index : UInt16) (f : Function) (id : ℕ) : (Frame.ofFunction index f id).Rested := by
    rw [Frame.ofFunction_eq_ofNesting]
    exact .intro rfl fun l hl => nomatch hl
  induction h with
  | @start f m he hm =>
    obtain ⟨⟨id, hitems⟩, -⟩ := State.start_still hm
    rw [hitems]
    exact List.forall_mem_singleton.mpr (hfirst index f id)
  | @step m m' h hm ih =>
    obtain ⟨gs, hw⟩ := h.watched
    have hmoves := hw.moves hm
    generalize m'.frames.items = fs at hmoves
    cases hmoves with
    | @stay f g fs number b i t s s' guards rest hitems hf hs hb hi ht henter hok =>
      rw [hitems] at ih
      obtain ⟨hrested, hfs⟩ := List.forall_mem_cons.mp ih
      refine List.forall_mem_cons.mpr ⟨?_, hfs⟩
      obtain @⟨index, f, id, n, hbody, hn⟩ := hrested
      obtain ⟨n', rfl, hbody', hfollows⟩ := hf.follows hbody hs hb ht hok
      refine .intro hbody' ?_
      cases hfollows with
      | goesOn hgoes => exact hgoes.rested hn
      | goto => exact Nesting.rested_setPc hn _
      | enter hbounds v => exact List.forall_mem_cons.mpr ⟨Layer.rested_ofBounds id _, hn⟩
    | @call f hf index id => exact List.forall_mem_cons.mpr ⟨hfirst index f id, ih⟩
    | @ret f g g' fs s s' guards rest hitems hg hs hok =>
      rw [hitems] at ih
      obtain ⟨hrested, hfs⟩ := List.forall_mem_cons.mp (List.forall_mem_cons.mp ih).2
      refine List.forall_mem_cons.mpr ⟨?_, hfs⟩
      obtain @⟨index, f, id, n, hbody, hn⟩ := hrested
      obtain ⟨n', rfl, hbody', hgoes⟩ := hg.goesOn hbody hs hok
      exact .intro hbody' (hgoes.rested hn)

/-! ## Positions behind -/

/-- **The second arm of a branch starts.** -/
def Frame.StartsSecond (f : Frame) : Prop :=
  ∃ t k b, f.current = .conditional (.both ⟨t, false⟩ ⟨k, true⟩) ∧ f.running = .ok (k, b) ∧
    b.pc = b.start

/-- **The running block of a frame is at a position.** -/
def Frame.StandsAt (f : Frame) (pc : UInt16) : Prop := ∃ n b, f.running = .ok (n, b) ∧ b.pc = pc

theorem Frame.standsAt_setPc (index : UInt16) (f : Function) (id : ℕ) (n : Nesting) (pc : UInt16) :
    (Frame.ofNesting index f id (n.setPc pc)).StandsAt pc := by
  refine ⟨_, _, Frame.running_ofNesting, ?_⟩
  rw [Nesting.running_setPc]
  rfl

theorem Activation.advance_inner {g : Frame} {n : ℕ} {b : Block} {s : Store σ p}
    (hb : g.running = .ok (n, b)) (hend : b.atEnd = false) :
    advance ⟨g, s⟩ = .ok () ⟨g.setBlockPc n (b.pc + 1), s⟩ := by
  simp only [advance, bind, EStateM.bind, getFrame, ofFrame, hb, hend, Bool.false_eq_true, if_false]
  rfl

theorem Activation.Settles.goesBehind {k : Function} {pc : UInt16} {n n' : Nesting}
    {events : List (Event p)} (h : Activation.Settles k pc n n' events)
    (hn : ∀ l ∈ n.layers, l.Rested) (index : UInt16) (f : Function) (id : ℕ) :
    (Frame.ofNesting index f id n').StartsSecond ∨
      (Frame.ofNesting index f id n').StandsAt (pc + 1) := by
  induction h with
  | @switch body b b' ls =>
    exact .inl ⟨_, _, b', rfl, Frame.running_ofNesting, (List.forall_mem_cons.mp hn).1⟩
  | resume => exact .inr (Frame.standsAt_setPc index f id _ _)
  | cascade _ _ _ ih => exact ih (Nesting.rested_setPc (List.forall_mem_cons.mp hn).2 _)

/-- **Going on leads to the next position**, or to a second arm. -/
theorem Nesting.GoesOn.goesBehind {k : Function} {n n' : Nesting}
    (h : Nesting.GoesOn (p := p) k n n') (hn : ∀ l ∈ n.layers, l.Rested) (index : UInt16)
    (f : Function) (id : ℕ) :
    (Frame.ofNesting index f id n').StartsSecond ∨
      (Frame.ofNesting index f id n').StandsAt (n.running.pc + 1) := by
  cases h with
  | next => exact .inr (Frame.standsAt_setPc index f id _ _)
  | settle h => exact h.goesBehind hn index f id

/-! ## Steps -/

section Executions

variable [Modulus p] [Recorder σ p] {setup : Setup} {index : UInt16} {args : List (Scalar p)}
  {m₀ m m' : State σ p} {gs : List (List (Guard p))} {f g : Frame} {fs : List Frame} {n : ℕ}
  {b : Block} {i : Instruction}

/-- **What a step makes of the frames**, after an instruction that leads somewhere. -/
inductive State.Departs (m' : State σ p) (f : Frame) (fs : List Frame) (b : Block) (i : Instruction)
    (guards : List (Guard p)) (t : Transition p) : Prop
  -- Control stays in the frame.
  | stay {n : ℕ} {g : Frame} {s s' : Store σ p} {rest : List (Guard p)}
      (hb : f.running = .ok (n, b)) (hs : s.conditions = ⟨guards ++ rest, none⟩)
      (hok : Activation.follow f n t ⟨f, s⟩ = .ok none ⟨g, s'⟩)
      (hitems : m'.frames.items = g :: fs)
  -- Another function is called.
  | call {k : Frame} (ht : t = .exit (.call i.index)) (hop : i.opcode = .call)
      (hitems : m'.frames.items = k :: f :: fs)
  -- The function returns, and its caller goes on.
  | ret {g g' : Frame} {rest : List Frame} {guards' others : List (Guard p)} {s s' : Store σ p}
      (ht : t = .exit .ret) (hfs : fs = g :: rest) (hg : g.Guarded guards')
      (hs : s.conditions = ⟨guards' ++ others, none⟩)
      (hok : Activation.advance ⟨g, s⟩ = .ok () ⟨g', s'⟩) (hitems : m'.frames.items = g' :: rest)

/-- **A step performs an instruction and makes of the frames what follows from it.** -/
theorem State.Watched.departs (hw : m.Watched gs) (hm : State.step setup m = .ok false m')
    (hitems : m.frames.items = f :: fs) :
    ∃ (n : ℕ) (b : Block) (i : Instruction) (t : Transition p) (guards : List (Guard p))
      (s' : Store σ p), f.running = .ok (n, b) ∧ f.function.code[b.pc.toNat]? = some i ∧
      f.Guarded guards ∧ b.perform setup.config.mode f.function i (m.store.steps + 1)
        (m.store.fetch f.function i b.pc) = .ok t s' ∧
      m'.Departs f fs b i guards t := by
  obtain ⟨s, fs', room⟩ := m
  cases hitems
  have hguarded := hw.frames
  dsimp only at hguarded
  cases hguarded with
  | @cons _ guards _ gs hf hfs =>
    obtain ⟨n, b, i, t, s₁, hb, hi, hp, hm⟩ := State.step_eq_ok hm
    have hleads := Block.perform_leads hp
    have hconds : s₁.conditions = ⟨guards ++ gs.flatten, none⟩ :=
      (Block.conditions_perform hp).trans hw.conditions
    have hw₁ : State.Watched ⟨s₁, ⟨f :: fs, room⟩⟩ (guards :: gs) := ⟨hconds, hw.frames⟩
    refine ⟨n, b, i, t, guards, s₁, hb, hi, hf, hp, ?_⟩
    cases hfollow : Activation.follow f n t ⟨f, s₁⟩ with
    | error e a => rw [hfollow] at hm; cases hm
    | ok d a =>
      rw [hfollow] at hm
      have hstay (hd : d = none) : m'.Departs f fs b i guards t := by
        subst hd
        cases hm
        exact .stay hb hconds hfollow rfl
      cases hleads with
      | ret =>
        cases hfollow
        obtain ⟨g, rest, s₂, g', s', rfl, hs₂, hadvance, rfl⟩ := hw₁.ret_eq_ok hm
        cases hfs with
        | cons hg hrest => exact .ret rfl rfl hg (by rw [hs₂, List.flatten_cons]) hadvance rfl
      | call hop =>
        cases hfollow
        obtain ⟨u, m₁, hcall, hrest⟩ := bind_eq_ok hm
        cases hrest
        obtain ⟨k, -, id, hitems⟩ := State.frames_call hcall
        exact .call rfl hop hitems
      | advance => exact hstay (follow_advance_ok hfollow)
      | goto =>
        cases hfollow
        exact hstay rfl
      | enter =>
        obtain ⟨u, a', -, hnone⟩ := bind_eq_ok hfollow
        cases hnone
        exact hstay rfl

/-- **Functions that wait are at a call.** -/
theorem Reached.atCall (h : Reached setup index args m₀ m) : ∀ f ∈ m.frames.items.tail, f.AtCall := by
  induction h with
  | @start f m he hm =>
    obtain ⟨⟨id, hitems⟩, -⟩ := State.start_still hm
    rw [hitems]
    exact List.forall_mem_nil _
  | @step m m' h hm ih =>
    obtain ⟨gs, hw⟩ := h.watched
    obtain ⟨s, _ | ⟨f, fs⟩, room⟩ := m
    · cases hm
    · obtain ⟨n, b, i, t, guards, s', hb, hi, hf, hp, hdeparts⟩ := hw.departs hm rfl
      cases hdeparts with
      | stay _ _ _ hitems => rw [hitems]; exact ih
      | call _ hop hitems =>
        rw [hitems]
        exact List.forall_mem_cons.mpr ⟨⟨n, b, i, hb, hi, hop⟩, ih⟩
      | ret _ hfs _ _ _ hitems =>
        rw [hitems]
        subst hfs
        exact (List.forall_mem_cons.mp ih).2

/-- **What a step goes on behind**: the block that executes an instruction which leads on to the next
one, or the block that a function returns to, by its frame and its number. -/
inductive State.Completes (m : State σ p) : Frame → ℕ → Block → Prop
  | instruction {f : Frame} {fs : List Frame} {n : ℕ} {b : Block} {i : Instruction}
      (hitems : m.frames.items = f :: fs) (hb : f.running = .ok (n, b))
      (hi : f.function.code[b.pc.toNat]? = some i) (hfalls : FallsThrough m.store.stack i) :
    Completes m f n b
  | call {f g : Frame} {fs : List Frame} {k n : ℕ} {b c : Block} {i : Instruction}
      (hitems : m.frames.items = f :: g :: fs) (hc : f.running = .ok (k, c))
      (hi : f.function.code[c.pc.toNat]? = some i) (hop : i.opcode = .ret)
      (hb : g.running = .ok (n, b)) : Completes m g n b

theorem State.Completes.lt_size (hc : m.Completes g n b) (h : Reached setup index args m₀ m) :
    b.pc.toNat < g.function.code.size := by
  cases hc with
  | instruction hitems hb hi hfalls => exact (Array.getElem?_eq_some_iff.mp hi).1
  | call hitems hc hi hop hb =>
    have hcall := h.atCall g (by rw [hitems]; exact List.mem_cons_self)
    obtain ⟨n', b', i', hb', hi', -⟩ := hcall
    cases hb.symm.trans hb'
    exact (Array.getElem?_eq_some_iff.mp hi').1

/-- **The frame goes on**, and is on top. -/
theorem State.Completes.advances (hc : m.Completes g n b) (h : Reached setup index args m₀ m)
    (hm : State.step setup m = .ok false m') :
    g.running = .ok (n, b) ∧ ∃ g' fs guards rest s s', m'.frames.items = g' :: fs ∧
      g.Guarded guards ∧ s.conditions = ⟨guards ++ rest, none⟩ ∧
      Activation.advance ⟨g, s⟩ = .ok () (⟨g', s'⟩ : Activation σ p) := by
  obtain ⟨gs, hw⟩ := h.watched
  cases hc with
  | @instruction fs _ _ _ i hitems hb hi hfalls =>
    obtain ⟨n', b', i', t, guards, s', hb', hi', hf, hp, hdeparts⟩ := hw.departs hm hitems
    cases hb.symm.trans hb'
    cases hi.symm.trans hi'
    obtain rfl :=
      FallsThrough.eq_advance (s := m.store.fetch g.function i b.pc) hfalls hp
    refine ⟨hb, ?_⟩
    cases hdeparts with
    | @stay n' g' s s' rest hb'' hs hok hitems' =>
      cases hb.symm.trans hb''
      rw [Activation.follow_advance hb] at hok
      cases hadvance : Activation.advance ⟨g, s⟩ with
      | error e a => rw [hadvance] at hok; cases hok
      | ok u a =>
        rw [hadvance] at hok
        cases hok
        exact ⟨g', _, guards, rest, s, s', hitems', hf, hs, hadvance⟩
    | call ht _ _ => exact absurd ht (b.advance_ne_call _)
    | ret ht _ _ _ _ _ => exact absurd ht b.advance_ne_ret
  | call hitems hc hi hop hb =>
    obtain ⟨n', b', i', t, guards, s', hb', hi', hf, hp, hdeparts⟩ := hw.departs hm hitems
    cases hc.symm.trans hb'
    cases hi.symm.trans hi'
    simp only [Block.perform, hop] at hp
    cases hp
    refine ⟨hb, ?_⟩
    cases hdeparts with
    | stay _ _ hok _ => cases hok
    | call ht _ _ => cases ht
    | @ret g' g'' rest guards' others s s' _ hfs hg hs hok hitems' =>
      cases hfs
      exact ⟨_, _, _, _, _, _, hitems', hg, hs, hok⟩

/-- **A run that fails at one of its states** fails there as soon as it has fuel for it. -/
theorem Reached.fails (h : Reached setup index args m₀ m) {e : Halt}
    (hm : State.step setup m = .error e m') :
    ∃ limit, ∀ fuel ≥ limit, State.run setup fuel index args m₀ = .error e m' := by
  obtain ⟨k, used, -, hrun⟩ := h.exists_run
  refine ⟨used + 1, fun fuel hfuel => ?_⟩
  obtain ⟨more, rfl⟩ := Nat.exists_eq_add_of_le hfuel
  have hloop : State.loop setup (1 + more) m = .error e m' := by
    rw [Nat.add_comm, State.loop, hm]
  rw [Nat.add_assoc, hrun]
  simp only [bind, EStateM.bind, hloop]

/-- **A run that returns from one of its states** gives the results of that state as soon as it has fuel
for it. -/
theorem Reached.returns (h : Reached setup index args m₀ m) (hm : State.step setup m = .ok true m') :
    ∃ (k : Function) (limit : ℕ), State.eligible setup index args = .ok k ∧
      ∀ fuel ≥ limit, State.run setup fuel index args m₀ =
        State.onStore (State.popResults k.returns []) m' := by
  obtain ⟨k, used, he, hrun⟩ := h.exists_run
  refine ⟨k, used + 1, he, fun fuel hfuel => ?_⟩
  obtain ⟨more, rfl⟩ := Nat.exists_eq_add_of_le hfuel
  have hloop : State.loop setup (1 + more) m = .ok () m' := by
    rw [Nat.add_comm, State.loop, hm]
  rw [Nat.add_assoc, hrun]
  simp only [bind, EStateM.bind, hloop]

theorem Reached.knows (h : Reached setup index args m₀ m) (hitems : m.frames.items = f :: fs)
    (hb : f.running = .ok (n, b)) : m.store.locals.knows b.localsId = true := by
  obtain ⟨s, items, room⟩ := m
  cases hitems
  have horderly := h.orderly
  have hlocals : b.localsId = f.tenant.1 :=
    (List.forall_mem_cons.mp horderly.uniform).1.running hb
  rw [hlocals]
  exact horderly.houses.knows List.mem_cons_self

/-- **Beyond the end of the code a run fails.** -/
theorem Reached.overruns (h : Reached setup index args m₀ m) (hitems : m.frames.items = f :: fs)
    (hb : f.running = .ok (n, b)) (hend : f.function.code.size ≤ b.pc.toNat) :
    ∃ limit m', ∀ fuel ≥ limit, State.run setup fuel index args m₀ =
      .error (.failure (.because .outOfBounds
        s!"pc {b.pc.toNat} beyond end of function {f.function.name}")) m' := by
  have hk := h.knows hitems hb
  obtain ⟨s, items, room⟩ := m
  cases hitems
  have hstep : State.step setup ⟨s, ⟨f :: fs, room⟩⟩ = _ := State.step_cons
  rw [Activation.step_eq hb, Block.step_eq_beyond hk (Array.getElem?_eq_none hend)] at hstep
  obtain ⟨limit, hruns⟩ := h.fails hstep
  exact ⟨limit, _, hruns⟩

omit [Recorder σ p] in
theorem State.Completes.mem (hc : m.Completes g n b) : g ∈ m.frames.items := by
  cases hc with
  | instruction hitems => rw [hitems]; exact List.mem_cons_self
  | call hitems => rw [hitems]; exact List.mem_cons_of_mem _ List.mem_cons_self

/-- **Control goes on behind what it completes.** A block that is not at its end is at the next
position afterwards. At the end of an arm the second arm starts, or the block that resumes is at the
next position. This is one more, unless it does not fit into 16 bits: then control is back at the start
of the function. Where the next position is the end of the code the run fails there. -/
theorem goes_on_behind (h : Reached setup index args m₀ m) (hm : State.step setup m = .ok false m')
    (hc : m.Completes g n b) :
    b.pc.toNat < g.function.code.size ∧
    ∃ g' fs, m'.frames.items = g' :: fs ∧ g'.function = g.function ∧
      (b.atEnd = false → g' = g.setBlockPc n (b.pc + 1)) ∧
      (b.atEnd = true ∧ g'.StartsSecond ∨ ∃ n' b', g'.running = .ok (n', b') ∧
        (b'.pc.toNat = b.pc.toNat + 1 ↔ b.pc.toNat ≠ 65535) ∧
        (b.pc.toNat = 65535 → b'.pc = 0) ∧
        (b.pc.toNat + 1 = g.function.code.size → b.pc.toNat ≠ 65535 →
          ∃ limit m'', ∀ fuel ≥ limit, State.run setup fuel index args m₀ =
            .error (.failure (.because .outOfBounds
              s!"pc {g.function.code.size} beyond end of function {g.function.name}")) m'')) := by
  refine ⟨hc.lt_size h, ?_⟩
  obtain ⟨hb, g', fs, guards, rest, s, s', hitems, hguarded, hs, hadvance⟩ := hc.advances h hm
  have hstays (hend : b.atEnd = false) : g' = g.setBlockPc n (b.pc + 1) := by
    rw [Activation.advance_inner hb hend] at hadvance
    cases hadvance
    rfl
  obtain ⟨hfunction, hbehind⟩ : g'.function = g.function ∧
      (b.atEnd = true ∧ g'.StartsSecond ∨ g'.StandsAt (b.pc + 1)) := by
    obtain @⟨index, f, id, nest, hbody, hrested⟩ := h.rested g hc.mem
    obtain ⟨nest', rfl, -, hgoes⟩ := hguarded.goesOn hbody hs hadvance
    rw [Frame.running_ofNesting] at hb
    cases hb
    refine ⟨rfl, ?_⟩
    cases hend : nest.running.atEnd with
    | true => exact (hgoes.goesBehind hrested index f id).imp_left fun hsecond => ⟨rfl, hsecond⟩
    | false =>
      rw [hstays hend, Frame.setBlockPc_ofNesting]
      exact .inr (Frame.standsAt_setPc index f id nest _)
  refine ⟨g', fs, hitems, hfunction, hstays, ?_⟩
  obtain hsecond | ⟨n', b', hb', hpc⟩ := hbehind
  · exact .inl hsecond
  have hlt := b.pc.toNat_lt
  refine .inr ⟨n', b', hb', ⟨fun hnext hlast => ?_, fun hne => ?_⟩, fun hlast => ?_,
    fun hlast hne => ?_⟩
  · have := b'.pc.toNat_lt
    omega
  · rw [hpc, toNat_add_one (show b.pc.toNat + 1 < 65536 by omega)]
  · rw [hpc]
    exact UInt16.toNat_inj.mp (by rw [UInt16.toNat_add, hlast]; rfl)
  · have hend : b'.pc.toNat = g.function.code.size := by
      rw [hpc, toNat_add_one (show b.pc.toNat + 1 < 65536 by omega), hlast]
    have hover := (h.step hm).overruns hitems hb' (by rw [hfunction, hend])
    rw [hend, hfunction] at hover
    exact hover

end Executions

/-- A function that ends with a call. -/
def endingWithCall : Function := ⟨"main", [], 0, 0, #[.ofNat .call 1], Nat.le_refl 0⟩

/-- A function that does nothing. -/
def returningAtOnce : Function := ⟨"callee", [], 0, 0, #[.ofNat .ret 0], Nat.le_refl 0⟩

/-- A program of both. -/
def endsWithCall : Setup := ⟨⟨#[endingWithCall, returningAtOnce]⟩, .standard⟩

/-- When its callee returns there is nothing behind the call. -/
theorem goes_on_behind_endsWithCall :
    ∃ (m m' m'' : State (System ScalarField.bn254.modulus) ScalarField.bn254.modulus) (g : Frame)
      (b : Block) (limit : ℕ), Reached endsWithCall 0 [] (.new endsWithCall) m ∧
      State.step endsWithCall m = .ok false m' ∧ m.Completes g 0 b ∧ b.pc = 0 ∧
      ∀ fuel ≥ limit, State.run endsWithCall fuel 0 [] (.new endsWithCall) =
        .error (.failure (.because .outOfBounds "pc 1 beyond end of function main")) m'' := by
  have he : State.eligible endsWithCall 0 ([] : List (Scalar ScalarField.bn254.modulus)) =
      .ok endingWithCall := rfl
  obtain ⟨m₀, m, m', hs, h₀, hm, hc⟩ :
      ∃ m₀ m m' : State (System ScalarField.bn254.modulus) ScalarField.bn254.modulus,
      State.start endsWithCall 0 endingWithCall [] (.new endsWithCall) = .ok () m₀ ∧
      State.step endsWithCall m₀ = .ok false m ∧ State.step endsWithCall m = .ok false m' ∧
      m.Completes (.flat 0 endingWithCall 0 0) 0 (.body 0 0) := by
    refine ⟨_, _, _, rfl, rfl, rfl, ?_⟩
    exact .call (f := .flat 1 returningAtOnce 1 0) (c := .body 1 0) (i := .ofNat .ret 0) rfl rfl rfl
      rfl rfl
  have hr := (Reached.start he hs).step h₀
  obtain ⟨-, g', fs, -, -, -, ⟨hend, -⟩ | ⟨n', b', -, -, -, hfails⟩⟩ := goes_on_behind hr hm hc
  · cases hend
  · obtain ⟨limit, m'', hfails⟩ := hfails rfl (by decide)
    have hmessage : s!"pc {endingWithCall.code.size} beyond end of function {endingWithCall.name}" =
        "pc 1 beyond end of function main" := by decide
    exact ⟨m, m', m'', _, _, limit, hr, hm, hc, rfl, fun fuel hfuel => hmessage ▸ hfails fuel hfuel⟩

/-! ## A function of 2¹⁶ instructions -/

section WrapsAround

/-- The elements that the machine computes with here. -/
abbrev BnScalar := Scalar ScalarField.bn254.modulus

/-- The stores of this machine. -/
abbrev BnStore := Store (System ScalarField.bn254.modulus) ScalarField.bn254.modulus

/-- A function whose only local is its parameter, a truth value. -/
def flagFunction (code : Array Instruction) : Function :=
  ⟨"main", [.bool], 1, 0, code, le_rfl⟩

/-- The witness of this function. -/
def flagWitness (code : Array Instruction) : Setup := ⟨⟨#[flagFunction code]⟩, .standard⟩

/-- The machine at a position of this function. -/
def State.atFlag (code : Array Instruction) (pc : UInt16) (s : BnStore) :
    State (System ScalarField.bn254.modulus) ScalarField.bn254.modulus :=
  ⟨s, ⟨[.flat 0 (flagFunction code) 0 pc], some 255⟩⟩

/-- Code that returns if its parameter is false, and otherwise jumps to position 65535. -/
def testFlag : Array Instruction :=
  #[.ofNat .copyLoc 0, .ofNat .brTrue 3, .ofNat .ret 0, .ofNat .ldFalse 0, .ofNat .branch 65535]

/-- The same as the start of a function whose last instruction makes the parameter false. -/
def clearFlag : Array Instruction :=
  (testFlag ++ Array.replicate 65530 (Instruction.ofNat .ret 0)).push (.ofNat .stLoc 0)

theorem size_clearFlag : clearFlag.size = 65536 := by
  simp [clearFlag, testFlag]

theorem getElem?_clearFlag {k : ℕ} (hk : k < testFlag.size) : clearFlag[k]? = testFlag[k]? := by
  have hlt : k < 5 := hk
  rw [clearFlag, Array.getElem?_push, if_neg (by simp [testFlag]; omega), Array.getElem?_append,
    if_pos hk]

theorem getElem?_clearFlag_last : clearFlag[65535]? = some (.ofNat .stLoc 0) := by
  rw [clearFlag, Array.getElem?_push, if_pos (by simp [testFlag])]

/-- **The last of 2¹⁶ instructions leads back to the start.** In code that begins and ends like
this one, whatever stands between, the parameter is made false by an instruction at position 65535, and
the run succeeds as it finds this when it starts over. -/
theorem exists_run_of_clears {code : Array Instruction} (h₀ : code[0]? = some (.ofNat .copyLoc 0))
    (h₁ : code[1]? = some (.ofNat .brTrue 3)) (h₂ : code[2]? = some (.ofNat .ret 0))
    (h₃ : code[3]? = some (.ofNat .ldFalse 0)) (h₄ : code[4]? = some (.ofNat .branch 65535))
    (hlast : code[65535]? = some (.ofNat .stLoc 0)) :
    ∃ s s' m,
      Reached (flagWitness code) 0 [(1 : BnScalar)] (.new (flagWitness code)) (.atFlag code 65535 s) ∧
      State.step (flagWitness code) (.atFlag code 65535 s) = .ok false (.atFlag code 0 s') ∧
      State.run (flagWitness code) 8 0 [(1 : BnScalar)] (.new (flagWitness code)) = .ok [] m := by
  have hgo (pc pc' : UInt16) {i : Instruction} {s s' : BnStore} (hi : code[pc.toNat]? = some i)
      (hk : s.locals.knows 0 = true)
      (hp : (Block.body 0 pc).perform .witness (flagFunction code) i (s.steps + 1)
        (s.fetch (flagFunction code) i pc) = .ok (.goto pc') s') :
      State.step (flagWitness code) (.atFlag code pc s) = .ok false (.atFlag code pc' s') :=
    State.step_flat_goto hk hi hp
  have hret {s : BnStore} (hk : s.locals.knows 0 = true) :
      ∃ m, State.step (flagWitness code) (.atFlag code 2 s) = .ok true m := by
    have hstep : State.step (flagWitness code) (.atFlag code 2 s) = _ :=
      State.step_flat_ret hk h₂ rfl
    have hk' : (s.fetch (flagFunction code) (.ofNat .ret 0) 2).locals.knows 0 = true := hk
    rw [hstep, State.ret_flat, Store.releaseLocals, LocalsTable.release, if_pos hk']
    exact ⟨_, rfl⟩
  have he : State.eligible (flagWitness code) 0 [(1 : BnScalar)] = .ok (flagFunction code) := rfl
  obtain ⟨s₀, s₁, s₂, s₃, s₄, s₅, s₆, s₇, hs₀, hs₁, hs₂, hs₃, hs₄, hs₅, hs₆, hs₇, hk⟩ :
      ∃ s₀ s₁ s₂ s₃ s₄ s₅ s₆ s₇,
        State.start (flagWitness code) 0 (flagFunction code) [(1 : BnScalar)]
          (.new (flagWitness code)) = .ok () (.atFlag code 0 s₀) ∧
        State.step (flagWitness code) (.atFlag code 0 s₀) = .ok false (.atFlag code 1 s₁) ∧
        State.step (flagWitness code) (.atFlag code 1 s₁) = .ok false (.atFlag code 3 s₂) ∧
        State.step (flagWitness code) (.atFlag code 3 s₂) = .ok false (.atFlag code 4 s₃) ∧
        State.step (flagWitness code) (.atFlag code 4 s₃) = .ok false (.atFlag code 65535 s₄) ∧
        State.step (flagWitness code) (.atFlag code 65535 s₄) = .ok false (.atFlag code 0 s₅) ∧
        State.step (flagWitness code) (.atFlag code 0 s₅) = .ok false (.atFlag code 1 s₆) ∧
        State.step (flagWitness code) (.atFlag code 1 s₆) = .ok false (.atFlag code 2 s₇) ∧
        s₇.locals.knows 0 = true :=
    ⟨_, _, _, _, _, _, _, _, rfl, hgo 0 1 h₀ rfl rfl, hgo 1 3 h₁ rfl rfl, hgo 3 4 h₃ rfl rfl,
      hgo 4 65535 h₄ rfl rfl, hgo 65535 0 hlast rfl rfl, hgo 0 1 h₀ rfl rfl, hgo 1 2 h₁ rfl rfl, rfl⟩
  obtain ⟨m, hm⟩ := hret hk
  refine ⟨s₄, s₅, m, ((((Reached.start he hs₀).step hs₁).step hs₂).step hs₃).step hs₄, hs₅, ?_⟩
  simp only [State.run, he, bind, EStateM.bind, hs₀, State.loop, hs₁, hs₂, hs₃, hs₄, hs₅, hs₆, hs₇, hm]
  rfl

/-- A function of 2¹⁶ instructions executes its last one, which does not branch, and then goes on at its
start and returns. -/
theorem not_goes_on_behind_clearFlag :
    (flagFunction clearFlag).code.size = 65536 ∧
      ∃ (m m' m'' : State (System ScalarField.bn254.modulus) ScalarField.bn254.modulus)
        (g g' : Frame) (b : Block),
        Reached (flagWitness clearFlag) 0 [1] (.new (flagWitness clearFlag)) m ∧
        m.Completes g 0 b ∧ b.pc.toNat + 1 = g.function.code.size ∧ b.atEnd = false ∧
        State.step (flagWitness clearFlag) m = .ok false m' ∧ m'.frames.items = [g'] ∧
        g'.StandsAt 0 ∧
        State.run (flagWitness clearFlag) 8 0 [1] (.new (flagWitness clearFlag)) = .ok [] m'' := by
  obtain ⟨s, s', m, hr, hstep, hrun⟩ := exists_run_of_clears (getElem?_clearFlag (k := 0) (by decide))
    (getElem?_clearFlag (k := 1) (by decide)) (getElem?_clearFlag (k := 2) (by decide))
    (getElem?_clearFlag (k := 3) (by decide)) (getElem?_clearFlag (k := 4) (by decide))
    getElem?_clearFlag_last
  refine ⟨size_clearFlag, _, _, m, _, _, .body 0 65535, hr,
    .instruction rfl Frame.running_flat getElem?_clearFlag_last (.straight rfl), ?_, rfl, hstep, rfl,
    ⟨_, _, Frame.running_flat, rfl⟩, hrun⟩
  exact size_clearFlag.symm

end WrapsAround

end StackCircuit.Machine
