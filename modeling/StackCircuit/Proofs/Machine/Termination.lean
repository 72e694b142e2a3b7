import StackCircuit.Proofs.Machine.Apart

/-!
# Executions that come to an end

Where all jumps lead forward every execution ends, although arms are executed one after the other
and functions may call themselves: what follows a position is worth less than the position itself,
even if it is executed twice, and there is a bound on the functions under execution at a time.

* `Program.BranchesForward`: all jumps of a program lead forward.
* `weight`: what a position is worth, more than any two positions behind it.
* `Nesting.cost`: the weight of what a function may still execute; `Settles.cost_lt`,
  `Layer.cost_ofBounds`: arms cost less than the branch that they are entered from.
* `effort`: the steps that functions of given costs may still take, with the functions that they call.
* `State.Costs.step`: every step takes some of it.
* **`run_terminates`**: runs of programs whose jumps lead forward end with results or a failure.
-/

namespace StackCircuit.Machine

open Bytecode (Function Instruction Program)
open Circuit (Recorder System)

/-- **All jumps lead forward**, and all positions are 16-bit numbers with one to spare. -/
def Program.BranchesForward (m : Program) : Prop :=
  ∀ f ∈ m.functions, f.code.size ≤ 65535 ∧
    ∀ (q : ℕ) (h : q < f.code.size), f.code[q].opcode.isJump = true → q < f.code[q].target.toNat

instance (m : Program) : Decidable (Program.BranchesForward m) :=
  inferInstanceAs (Decidable (∀ f ∈ m.functions, f.code.size ≤ 65535 ∧ ∀ (q : ℕ)
    (h : q < f.code.size), f.code[q].opcode.isJump = true → q < f.code[q].target.toNat))

variable {σ : Type} {p : ℕ}

/-! ## The cost of a function -/

/-- **The weight of a position**: twice that of the next one. -/
@[irreducible]
def weight (pc : UInt16) : ℕ := 2 ^ (UInt16.size - pc.toNat)

theorem weight_pos (pc : UInt16) : 0 < weight pc := by
  rw [weight]
  exact Nat.two_pow_pos _

theorem two_mul_weight_le {pc pc' : UInt16} (h : pc.toNat < pc'.toNat) :
    2 * weight pc' ≤ weight pc := by
  have hlt : pc'.toNat < UInt16.size := pc'.toNat_lt
  rw [weight, weight, ← Nat.pow_succ']
  exact Nat.pow_le_pow_right (Nat.succ_pos 1) (by omega)

theorem weight_lt {pc pc' : UInt16} (h : pc.toNat < pc'.toNat) : weight pc' < weight pc := by
  have hle := two_mul_weight_le h
  have hpos := weight_pos pc'
  omega

theorem toNat_add_one {pc : UInt16} (h : pc.toNat + 1 < UInt16.size) :
    (pc + 1).toNat = pc.toNat + 1 :=
  Frame.toNat_add_of_lt h

theorem weight_next {pc : UInt16} (h : pc.toNat + 1 < UInt16.size) :
    weight (pc + 1) < weight pc := by
  apply weight_lt
  rw [toNat_add_one h]
  exact Nat.lt_succ_self _

/-- The weight of an arm that has not been entered. -/
def Layer.pending : Layer → ℕ
  | first _ b => weight b.pc
  | _ => 0

theorem Layer.pending_setPc (l : Layer) (pc : UInt16) : (l.setPc pc).pending = l.pending := by
  cases l <;> rfl

theorem Layer.pending_of_isLast {l : Layer} (h : l.isLast = true) : l.pending = 0 := by
  cases l with
  | first b b' => cases h
  | _ => rfl

namespace Nesting

/-- **The cost of what a function may still execute**: the rest of the running block, and arms that
have not been entered. The counters of the blocks around it do not matter, as they are set when their
arms end. -/
def cost (n : Nesting) : ℕ := weight n.running.pc + (n.layers.map Layer.pending).sum

theorem cost_pos (n : Nesting) : 0 < n.cost := by
  have hpos := weight_pos n.running.pc
  rw [cost]
  omega

theorem cost_setPc (n : Nesting) (pc : UInt16) :
    (n.setPc pc).cost = weight pc + (n.layers.map Layer.pending).sum := by
  obtain ⟨body, _ | ⟨l, ls⟩⟩ := n
  · rfl
  · rw [cost, running_setPc]
    simp only [setPc, List.map_cons, List.sum_cons, l.pending_setPc]
    rfl

theorem cost_cons (body : Block) (l : Layer) (ls : List Layer) :
    cost ⟨body, l :: ls⟩ = weight l.running.pc + l.pending + (ls.map Layer.pending).sum := by
  simp only [cost, List.map_cons, List.sum_cons, Nat.add_assoc]
  rfl

end Nesting

/-- **The end of an arm** lowers the cost, however many arms end with it. -/
theorem Activation.Settles.cost_lt {f : Function} {pc : UInt16} {n n' : Nesting}
    {events : List (Event p)} (h : Activation.Settles f pc n n' events) (hpc : n.running.pc = pc)
    (hlt : pc.toNat + 1 < UInt16.size) : n'.cost < n.cost := by
  induction h with
  | @switch body b b' ls =>
    have hpos := weight_pos b.pc
    rw [Nesting.cost_cons, Nesting.cost_cons]
    simp only [Layer.running, Layer.pending]
    omega
  | @resume body l ls hl hstop =>
    have hnext := weight_next hlt
    have hrunning : l.running.pc = pc := hpc
    rw [Nesting.cost_setPc, Nesting.cost_cons, hrunning, Layer.pending_of_isLast hl, Nat.add_zero]
    exact Nat.add_lt_add_right hnext _
  | @cascade body l ls n' events hl hstop _ ih =>
    -- The cost stays the same until the last of the blocks goes on.
    have hrunning : l.running.pc = pc := hpc
    have hpc' : (Nesting.setPc pc ⟨body, ls⟩).running.pc = pc := by rw [Nesting.running_setPc]; rfl
    have hcost := ih hpc'
    rw [Nesting.cost_setPc] at hcost
    rw [Nesting.cost_cons, hrunning, Layer.pending_of_isLast hl]
    exact hcost

theorem Frame.armBounds_eq_ok {f : Function} {pc : UInt16}
    {bounds : (UInt16 × UInt16) × Option (UInt16 × UInt16)}
    (h : Frame.armBounds f pc = .ok bounds) :
    ∃ branch jump, f.code[pc.toNat]? = some branch ∧ f.code[(pc + 1).toNat]? = some jump ∧
      branch.opcode.isConditionalBranch = true ∧ jump.opcode = .branch ∧
      bounds.1.1 = branch.target ∧ ∀ second ∈ bounds.2, second.1 = jump.target := by
  unfold Frame.armBounds at h
  dsimp only at h
  split at h
  · cases h
  split at h
  · rename_i branch jump hbranch hjump
    split at h
    · cases h
    rename_i hcond
    split at h
    · cases h
    rename_i hop
    refine ⟨branch, jump, hbranch, hjump, by simpa using hcond, by simpa using hop, ?_⟩
    repeat' split at h
    all_goals cases h
    all_goals simp
  · cases h

theorem Program.BranchesForward.lt_of_armBounds {m : Program} (hprog : Program.BranchesForward m)
    {f : Function} (hf : f ∈ m.functions) {pc : UInt16}
    {bounds : (UInt16 × UInt16) × Option (UInt16 × UInt16)}
    (h : Frame.armBounds f pc = .ok bounds) :
    pc.toNat < bounds.1.1.toNat ∧ (pc + 1).toNat = pc.toNat + 1 ∧
      ∀ second ∈ bounds.2, (pc + 1).toNat < second.1.toNat := by
  obtain ⟨hsize, hforward⟩ := hprog f hf
  obtain ⟨branch, jump, hbranch, hjump, hcond, hop, hstart, hsecond⟩ := Frame.armBounds_eq_ok h
  obtain ⟨hpc, rfl⟩ := Array.getElem?_eq_some_iff.mp hbranch
  obtain ⟨hpc', rfl⟩ := Array.getElem?_eq_some_iff.mp hjump
  refine ⟨?_, toNat_add_one (show _ < 65536 by omega), fun second hmem => ?_⟩
  · rw [hstart]
    exact hforward _ hpc ((Bytecode.Opcode.isJump_iff _).mpr (.inl hcond))
  · rw [hsecond second hmem]
    exact hforward _ hpc' ((Bytecode.Opcode.isJump_iff _).mpr (.inr hop))

/-- **Arms cost less than the branch that they are entered from.** -/
theorem Layer.cost_ofBounds {m : Program} (hprog : Program.BranchesForward m) {f : Function}
    (hf : f ∈ m.functions) {pc : UInt16} {bounds : (UInt16 × UInt16) × Option (UInt16 × UInt16)}
    (h : Frame.armBounds f pc = .ok bounds) (id : ℕ) :
    weight (ofBounds id bounds).running.pc + (ofBounds id bounds).pending < weight pc := by
  obtain ⟨hfirst, hnext, hother⟩ := hprog.lt_of_armBounds hf h
  obtain ⟨⟨start, stop⟩, _ | ⟨start', stop'⟩⟩ := bounds
  · exact weight_lt hfirst
  · have hfirst' : 2 * weight start ≤ weight pc := two_mul_weight_le hfirst
    have hbehind : 2 * weight (pc + 1) ≤ weight pc := two_mul_weight_le (by omega)
    have hother' : weight start' < weight (pc + 1) := weight_lt (hother (start', stop') rfl)
    change weight start + weight start' < weight pc
    omega

/-! ## Frames -/

/-- **A frame of a program**, with the cost of what it may still execute. -/
inductive Frame.Costs (m : Program) : Frame → ℕ → Prop
  | intro {index : UInt16} {f : Function} {id : ℕ} {n : Nesting} (hf : f ∈ m.functions)
      (hbody : n.body.stop = none) : Costs m (.ofNesting index f id n) n.cost

section Frames

variable {m : Program} {f g : Frame} {c number : ℕ} {b : Block} {i : Instruction}
  {s s' : Store σ p} {guards rest : List (Guard p)} {t : Transition p}

theorem Frame.Costs.pos (h : f.Costs m c) : 0 < c := by
  obtain @⟨index, k, id, n, hk, hbody⟩ := h
  exact n.cost_pos

theorem Frame.Costs.mem (h : f.Costs m c) : f.function ∈ m.functions := by
  obtain ⟨hk, -⟩ := h
  exact hk

theorem Frame.Costs.ofFunction {k : Function} (hk : k ∈ m.functions) (index : UInt16) (id : ℕ) :
    Frame.Costs m (.ofFunction index k id) (weight 0) := by
  have hcost : Nesting.cost ⟨.ofStart 0 none id, []⟩ = weight 0 := by
    rw [Nesting.cost, List.map_nil, List.sum_nil, Nat.add_zero]
    rfl
  rw [← hcost, Frame.ofFunction_eq_ofNesting]
  exact .intro hk rfl

theorem Program.BranchesForward.next_lt (hprog : Program.BranchesForward m)
    (hf : f.Costs m c) (hi : f.function.code[b.pc.toNat]? = some i) :
    b.pc.toNat + 1 < UInt16.size := by
  have hsize := (hprog _ hf.mem).1
  have hpc := (Array.getElem?_eq_some_iff.mp hi).1
  exact show _ < 65536 by omega

/-- **Going on to the next instruction** lowers the cost, also where arms end. -/
theorem Nesting.GoesOn.cost_lt {k : Function} {n n' : Nesting} (h : Nesting.GoesOn (p := p) k n n')
    (hlt : n.running.pc.toNat + 1 < UInt16.size) : n'.cost < n.cost := by
  cases h with
  | next =>
    rw [n.cost_setPc]
    exact Nat.add_lt_add_right (weight_next hlt) _
  | settle hsettles => exact hsettles.cost_lt rfl hlt

theorem Frame.Costs.advance (hc : f.Costs m c) (hf : f.Guarded guards)
    (hs : s.conditions = ⟨guards ++ rest, none⟩) (hb : f.running = .ok (number, b))
    (hlt : b.pc.toNat + 1 < UInt16.size) {u : Unit}
    (hok : Activation.advance ⟨f, s⟩ = .ok u ⟨g, s'⟩) : ∃ c' < c, g.Costs m c' := by
  obtain @⟨index, k, id, n, hk, hbody⟩ := hc
  rw [Frame.running_ofNesting] at hb
  cases hb
  obtain ⟨n', rfl, hbody', hgoes⟩ := hf.goesOn hbody hs hok
  exact ⟨_, hgoes.cost_lt hlt, .intro hk hbody'⟩

/-- **Control that stays in a frame** lowers the cost. -/
theorem Frame.Costs.follow (hprog : Program.BranchesForward m) (hc : f.Costs m c)
    (hf : f.Guarded guards) (hs : s.conditions = ⟨guards ++ rest, none⟩)
    (hb : f.running = .ok (number, b)) (hi : f.function.code[b.pc.toNat]? = some i)
    (ht : Leads b i t) (hok : Activation.follow f number t ⟨f, s⟩ = .ok none ⟨g, s'⟩) :
    ∃ c' < c, g.Costs m c' := by
  have hlt := hprog.next_lt hc hi
  obtain @⟨index, k, id, n, hk, hbody⟩ := hc
  obtain ⟨n', rfl, hbody', hfollows⟩ := hf.follows hbody hs hb ht hok
  rw [Frame.running_ofNesting] at hb
  cases hb
  refine ⟨_, ?_, .intro hk hbody'⟩
  cases hfollows with
  | goesOn hgoes => exact hgoes.cost_lt hlt
  | goto hjump =>
    obtain ⟨hpc, rfl⟩ := Array.getElem?_eq_some_iff.mp hi
    rw [n.cost_setPc]
    exact Nat.add_lt_add_right (weight_lt ((hprog k hk).2 _ hpc hjump)) _
  | enter hbounds v =>
    rw [Nesting.enter, Nesting.cost_cons]
    exact Nat.add_lt_add_right (Layer.cost_ofBounds hprog hk hbounds id) _

end Frames

/-! ## Machines -/

/-- What functions of given costs have still to do, the innermost first, after the instruction that
each of them is at, where there is room for `room` more functions. With each instruction a function
of cost less than `k` may be called, and so on for as long as there is room. -/
def backlog (k : ℕ) : ℕ → List ℕ → ℕ
  | _, [] => 0
  | room, c :: cs => (c - 1) * k ^ room + backlog k (room + 1) cs

/-- **What functions have still to do**, of which the innermost is under execution. -/
def effort (k room : ℕ) (cs : List ℕ) : ℕ := k ^ room + backlog k room cs

section Effort

variable {k room c c' d : ℕ} {cs : List ℕ}

theorem effort_pos (hk : 0 < k) : 0 < effort k room cs :=
  Nat.add_pos_left (Nat.pow_pos hk) _

theorem effort_cons (hc : 0 < c) :
    effort k room (c :: cs) = c * k ^ room + backlog k (room + 1) cs := by
  obtain ⟨d, rfl⟩ := Nat.exists_eq_add_of_lt hc
  rw [effort, backlog, ← Nat.add_assoc, Nat.zero_add, Nat.add_sub_cancel, Nat.succ_mul,
    Nat.add_comm (k ^ room)]

theorem effort_stay (hk : 0 < k) (hc' : 0 < c') (h : c' < c) :
    effort k room (c' :: cs) < effort k room (c :: cs) := by
  rw [effort_cons hc', effort_cons (Nat.lt_trans hc' h)]
  exact Nat.add_lt_add_right (Nat.mul_lt_mul_of_pos_right h (Nat.pow_pos hk)) _

theorem effort_call (hc : 0 < c) (h : c < k) : effort k room (c :: cs) < effort k (room + 1) cs := by
  have hpos : 0 < k ^ room := Nat.pow_pos (Nat.lt_trans hc h)
  rw [effort_cons hc, effort, Nat.pow_succ']
  exact Nat.add_lt_add_right (Nat.mul_lt_mul_of_pos_right h hpos) _

theorem effort_ret (hk : 0 < k) (hd : 0 < d) (hc' : 0 < c') (h : c' < c) :
    effort k (room + 1) (c' :: cs) < effort k room (d :: c :: cs) := by
  have hpos : 0 < d * k ^ room := Nat.mul_pos hd (Nat.pow_pos hk)
  have hle : c' * k ^ (room + 1) ≤ (c - 1) * k ^ (room + 1) :=
    Nat.mul_le_mul_right _ (Nat.le_sub_one_of_lt h)
  rw [effort_cons hc', effort_cons hd, backlog]
  omega

end Effort

/-- **Functions under execution**, with their costs: they belong to the program, all but the topmost
wait at a call, and there is room for some more. -/
structure State.Costs (setup : Setup) (m : State σ p) (cs : List ℕ) (room : ℕ) : Prop where
  frames : List.Forall₂ (Frame.Costs setup.program) m.frames.items cs
  waiting : ∀ f ∈ m.waiting, f.AtCall
  room : m.frames.room = some room

/-- **A step has been taken**: less is left to do than before. -/
def State.Spends (setup : Setup) (total : ℕ) (m : State σ p) : Prop :=
  ∃ cs room, m.Costs setup cs room ∧ effort (weight 0 + 1) room cs < total

section Machines

variable {setup : Setup} {m m' : State σ p} {f g : Frame} {fs : List Frame} {c : ℕ} {cs : List ℕ}
  {room : ℕ} {s s' : Store σ p} {guards : List (Guard p)} {gs : List (List (Guard p))}

theorem State.Costs.stay (h : State.Costs setup ⟨s, ⟨f :: fs, some room⟩⟩ (c :: cs) room)
    (hg : ∃ c' < c, g.Costs setup.program c') :
    State.Spends setup (effort (weight 0 + 1) room (c :: cs)) ⟨s', ⟨g :: fs, some room⟩⟩ := by
  obtain ⟨c', hlt, hg⟩ := hg
  refine ⟨c' :: cs, room, ⟨?_, h.waiting, rfl⟩, effort_stay (Nat.succ_pos _) hg.pos hlt⟩
  exact .cons hg (List.forall₂_cons.mp h.frames).2

/-- **A call** enters a function with less room. -/
theorem State.Costs.call (h : m.Costs setup cs room) (hcall : ∀ f ∈ m.frames.items, f.AtCall)
    {index : UInt16} (hm : State.call setup index m = .ok () m') :
    State.Spends setup (effort (weight 0 + 1) room cs) m' := by
  obtain ⟨k, hk, id, hpush⟩ := State.push_of_call hm
  obtain ⟨s, items, r⟩ := m
  obtain ⟨s', frames⟩ := m'
  have hroom : r = some room := h.room
  subst hroom
  match room, hpush with
  | room + 1, hpush =>
    cases hpush
    refine ⟨weight 0 :: cs, room, ⟨?_, hcall, rfl⟩, effort_call (weight_pos 0) (Nat.lt_succ_self _)⟩
    exact .cons (.ofFunction hk index id) h.frames

theorem State.Watched.ret_eq_ok {room : Option ℕ}
    (hw : State.Watched ⟨s, ⟨f :: fs, room⟩⟩ (guards :: gs))
    (hm : State.ret ⟨s, ⟨f :: fs, room⟩⟩ = .ok false m') :
    ∃ g rest s₁ g' s', fs = g :: rest ∧ s₁.conditions = ⟨gs.flatten, none⟩ ∧
      Activation.advance ⟨g, s₁⟩ = .ok () ⟨g', s'⟩ ∧
      m' = ⟨s', ⟨g' :: rest, room.map (· + 1)⟩⟩ := by
  obtain ⟨hconds, hframes⟩ := hw
  have hdepth := (List.forall₂_cons.mp hframes).1.depth
  have hpop := Store.popGuards_eq hconds (k := f.depth)
    (by rw [List.flatten_cons, List.length_append, ← hdepth]; omega)
  rw [List.flatten_cons, ← hdepth, List.drop_left, hdepth] at hpop
  simp only [State.ret, bind, EStateM.bind, State.popFrame, BoundedStack.pop, State.onStore, hpop,
    Store.releaseLocals] at hm
  cases hr : (s.withGuards gs.flatten).locals.release f.localsId with
  | error e => rw [hr] at hm; cases hm
  | ok t =>
    rw [hr] at hm
    cases fs with
    | nil => cases hm
    | cons g rest =>
      simp only [State.onTop, BoundedStack.top?, List.head?_cons] at hm
      cases ha : Activation.advance ⟨g, { s.withGuards gs.flatten with locals := t }⟩ with
      | error e a => rw [ha] at hm; cases hm
      | ok u a =>
        rw [ha] at hm
        cases hm
        exact ⟨g, rest, _, _, _, rfl, rfl, ha, rfl⟩

/-- **A return** leaves more room, and the caller goes on behind its call. -/
theorem State.Costs.ret (hprog : Program.BranchesForward setup.program)
    (h : State.Costs setup ⟨s, ⟨f :: fs, some room⟩⟩ cs room)
    (hw : State.Watched ⟨s, ⟨f :: fs, some room⟩⟩ (guards :: gs))
    (hm : State.ret ⟨s, ⟨f :: fs, some room⟩⟩ = .ok false m') :
    State.Spends setup (effort (weight 0 + 1) room cs) m' := by
  obtain ⟨g, rest, s₁, g', s', rfl, hs₁, hadvance, rfl⟩ := hw.ret_eq_ok hm
  obtain ⟨number, b, i, hb, hi, -⟩ := h.waiting g List.mem_cons_self
  have hframes := h.frames
  have hguarded := hw.frames
  dsimp only at hframes hguarded
  cases hframes with
  | @cons _ d _ cs hf hframes =>
    cases hframes with
    | @cons _ c _ cs hg hrest =>
      cases hguarded with
      | cons _ hguarded =>
        cases hguarded with
        | cons hgg _ =>
          obtain ⟨c', hlt, hg'⟩ := hg.advance hgg hs₁ hb (hprog.next_lt hg hi) hadvance
          refine ⟨c' :: cs, room + 1, ⟨.cons hg' hrest, ?_, rfl⟩,
            effort_ret (Nat.succ_pos _) hf.pos hg'.pos hlt⟩
          exact fun k hk => h.waiting k (List.mem_cons_of_mem _ hk)

theorem Leads.departs {number : ℕ} {b : Block} {i : Instruction} {t : Transition p}
    {d : Departure} {a : Activation σ p} (ht : Leads b i t)
    (h : Activation.follow f number t ⟨f, s⟩ = .ok (some d) a) :
    a = ⟨f, s⟩ ∧ (d = .ret ∨ ∃ index, d = .call index ∧ i.opcode = .call) := by
  cases ht with
  | ret => cases h; exact ⟨rfl, .inl rfl⟩
  | call hop => cases h; exact ⟨rfl, .inr ⟨_, rfl, hop⟩⟩
  | advance => exact nomatch follow_advance_ok h
  | goto => cases h
  | enter =>
    obtain ⟨u, a', -, h⟩ := bind_eq_ok h
    cases h

/-- **Control goes where an instruction leads**, and less is left to do. -/
theorem State.Costs.follow (hprog : Program.BranchesForward setup.program) {number : ℕ} {b : Block}
    {i : Instruction} {t : Transition p}
    (h : State.Costs setup ⟨s, ⟨f :: fs, some room⟩⟩ cs room)
    (hw : State.Watched ⟨s, ⟨f :: fs, some room⟩⟩ (guards :: gs)) (hb : f.running = .ok (number, b))
    (hi : f.function.code[b.pc.toNat]? = some i) (ht : Leads b i t)
    (hok : State.conclude setup fs (some room) (Activation.follow f number t ⟨f, s⟩) =
      .ok false m') :
    State.Spends setup (effort (weight 0 + 1) room cs) m' := by
  cases hfollow : Activation.follow f number t ⟨f, s⟩ with
  | error e a => rw [hfollow] at hok; cases hok
  | ok d a =>
    rw [hfollow] at hok
    cases d with
    | none =>
      cases hok
      have hframes := h.frames
      dsimp only at hframes
      cases hframes with
      | @cons _ c _ cs hc hcs =>
        have hf := (List.forall₂_cons.mp hw.frames).1
        exact h.stay (hc.follow hprog hf hw.conditions hb hi ht hfollow)
    | some d =>
      obtain ⟨rfl, rfl | ⟨index, rfl, hop⟩⟩ := ht.departs hfollow
      · exact h.ret hprog hw hok
      · obtain ⟨u, m₁, hcall, hrest⟩ := bind_eq_ok hok
        cases hrest
        exact h.call (List.forall_mem_cons.mpr ⟨⟨number, b, i, hb, hi, hop⟩, h.waiting⟩) hcall

theorem State.Costs.mem_program (h : m.Costs setup cs room) :
    ∀ f ∈ m.frames.items, f.function ∈ setup.program.functions := by
  obtain ⟨hframes, -, -⟩ := h
  generalize m.frames.items = fs at hframes
  induction hframes with
  | nil => exact List.forall_mem_nil _
  | cons hf _ ih => exact List.forall_mem_cons.mpr ⟨hf.mem, ih⟩

variable [Modulus p] [Recorder σ p]

/-- **Every step** leaves less to do. -/
theorem State.Costs.step (hprog : Program.BranchesForward setup.program) (h : m.Costs setup cs room)
    (hw : m.Watched gs) (hm : State.step setup m = .ok false m') :
    State.Spends setup (effort (weight 0 + 1) room cs) m' := by
  obtain ⟨s, fs, r⟩ := m
  have hroom : r = some room := h.room
  subst hroom
  have hguarded := hw.frames
  dsimp only at hguarded
  cases hguarded with
  | nil => cases hm
  | @cons f guards fs gs hf hfs =>
    obtain ⟨number, b, i, t, s', hb, hi, hp, hm⟩ := State.step_eq_ok hm
    have hw' : State.Watched ⟨s', ⟨f :: fs, some room⟩⟩ (guards :: gs) :=
      ⟨(Block.conditions_perform hp).trans hw.conditions, hw.frames⟩
    have h' : State.Costs setup ⟨s', ⟨f :: fs, some room⟩⟩ cs room := ⟨h.frames, h.waiting, rfl⟩
    exact h'.follow hprog hw' hb hi (Block.perform_leads hp) hm

omit [Modulus p] [Recorder σ p] in
theorem push_noFrames_eq (c : Config) (f : Frame) :
    (State.noFrames c).push f = .ok ⟨[f], some (Config.capacityOf c.callSize - 1)⟩ := by
  unfold State.noFrames BoundedStack.ofCapacity Config.capacityOf Config.standardSize
  cases c.callSize with
  | zero => rfl
  | succ n => rfl

omit [Modulus p] in
theorem State.Costs.start {index : UInt16} {args : List (Scalar p)} {k : Function} {m₀ : State σ p}
    (he : State.eligible setup index args = .ok k)
    (hm : State.start setup index k args m₀ = .ok () m) :
    m.Costs setup [weight 0] (Config.capacityOf setup.config.callSize - 1) := by
  obtain ⟨u, m₁, h₁, hm⟩ := bind_eq_ok hm
  cases h₁
  obtain ⟨id, m₂, h₂, hm⟩ := bind_eq_ok hm
  obtain ⟨u, m₃, h₃, hm⟩ := bind_eq_ok hm
  obtain ⟨u, m₄, h₄, h₅⟩ := bind_eq_ok hm
  have hpush := State.push_of_pushFrame h₄
  rw [State.frames_onStore h₃, State.frames_onStore h₂, State.initial, push_noFrames_eq] at hpush
  have hframes : m.frames = ⟨[.ofFunction index k id], some _⟩ :=
    (State.frames_onStore h₅).trans (Except.ok.inj hpush).symm
  refine ⟨?_, ?_, ?_⟩
  · rw [hframes]
    exact .cons (.ofFunction (State.eligible_mem he) index id) .nil
  · rw [State.waiting, hframes]
    exact List.forall_mem_nil _
  · rw [hframes]

omit [Modulus p] in
theorem State.start_sound (setup : Setup) (index : UInt16) (k : Function) (args : List (Scalar p))
    (m₀ : State σ p) :
    Sound True (fun _ => True) (State.start setup index k args m₀) := by
  let m₁ : State σ p := State.initial setup.config m₀.store.ledger
  have horderly : m₁.Orderly := ⟨.empty, (fun _ h => nomatch h), fun _ h => nomatch h⟩
  have hinputs := (serves_allocInputs 0 (State.inputs setup.config.mode k args)).sound
    (horderly.alloc k.locals)
  simp only [State.start, bind, EStateM.bind, State.reset, State.onStore, Store.allocLocals]
  cases hx : State.allocInputs (m₁.store.locals.alloc k.locals).1 0
      (State.inputs setup.config.mode k args)
      { m₁.store with locals := (m₁.store.locals.alloc k.locals).2 } with
  | error e s =>
    rw [hx] at hinputs
    exact ⟨hinputs.1, trivial⟩
  | ok u s =>
    simp only [State.pushFrame, State.initial, push_noFrames_eq]
    trivial

theorem Reached.costs (hprog : Program.BranchesForward setup.program) {index : UInt16}
    {args : List (Scalar p)} {m₀ : State σ p} (h : Reached setup index args m₀ m) :
    ∃ cs room, m.Costs setup cs room := by
  induction h with
  | start he hm => exact ⟨_, _, State.Costs.start he hm⟩
  | step hr hm ih =>
    obtain ⟨cs, room, hcosts⟩ := ih
    obtain ⟨gs, hw⟩ := hr.watched
    obtain ⟨cs', room', hcosts', -⟩ := hcosts.step hprog hw hm
    exact ⟨cs', room', hcosts'⟩

theorem Reached.loop_sound (hprog : Program.BranchesForward setup.program) {index : UInt16}
    {args : List (Scalar p)} {m₀ : State σ p} (h : Reached setup index args m₀ m)
    (hc : m.Costs setup cs room) {fuel : ℕ} (hfuel : effort (weight 0 + 1) room cs ≤ fuel) :
    Sound True (fun _ => True) (State.loop setup fuel m) := by
  induction fuel generalizing m cs room with
  | zero => exact absurd (Nat.lt_of_lt_of_le (effort_pos (Nat.succ_pos _)) hfuel) (Nat.lt_irrefl 0)
  | succ fuel ih =>
    obtain ⟨gs, hw⟩ := h.watched
    have hstep := h.orderly.proceeds hw setup
    rw [State.loop]
    cases hs : State.step setup m with
    | error e m' => rw [hs] at hstep; exact ⟨hstep.1, trivial⟩
    | ok done m' =>
      cases done with
      | true => exact trivial
      | false =>
        obtain ⟨cs', room', hc', hlt⟩ := hc.step hprog hw hs
        exact ih (h.step hs) hc' (by omega)

end Machines

/-- **Runs of programs whose jumps lead forward end**, with results or a failure, whatever functions
call each other: there is a number of instructions that no run of the program exceeds. -/
theorem run_terminates [Modulus p] [Recorder σ p] {setup : Setup}
    (hprog : Program.BranchesForward setup.program) :
    ∃ limit, ∀ (index : UInt16) (args : List (Scalar p)) (m₀ : State σ p) (fuel : ℕ),
      limit ≤ fuel →
        (∃ values m, State.run setup fuel index args m₀ = .ok values m) ∨
        ∃ e m, State.run setup fuel index args m₀ = .error (.failure e) m := by
  refine ⟨effort (weight 0 + 1) (Config.capacityOf setup.config.callSize - 1) [weight 0],
    fun index args m₀ fuel hfuel => ?_⟩
  suffices hsound : Sound True (fun _ => True) (State.run setup fuel index args m₀) from hsound.ends
  unfold State.run
  cases he : State.eligible setup index args with
  | error e => exact ⟨fun _ _ _ => trivial, trivial⟩
  | ok k =>
    have hstart := State.start_sound setup index k args m₀
    simp only [bind, EStateM.bind]
    cases hm : State.start setup index k args m₀ with
    | error e m => rw [hm] at hstart; exact hstart
    | ok u m =>
      have hloop := (Reached.start he hm).loop_sound hprog (State.Costs.start he hm) hfuel
      dsimp only
      cases hl : State.loop setup fuel m with
      | error e m' => rw [hl] at hloop; exact hloop
      | ok u m' =>
        have hresults := (safe_popResults True k.returns []).sound (s := m'.store) trivial
        simp only [State.onStore]
        cases hr : State.popResults k.returns [] m'.store with
        | error e s => rw [hr] at hresults; exact hresults
        | ok values s => trivial

/-- The shape of a circuit whose function calls itself under a condition that is not known. -/
def callItself : Setup :=
  .ofCode 1 0
    #[.ofNat .copyLoc 0, .ofNat .brTrue 3, .ofNat .branch 6, .ofNat .copyLoc 0, .ofNat .call 0,
      .ofNat .branch 6, .ofNat .ret 0]

/-- The function goes on to call itself, and yet there is an end. -/
theorem run_terminates_callItself :
    Program.BranchesForward callItself.program ∧
    ∃ limit, ∀ fuel ≥ limit,
      (∃ values m, State.run (p := ScalarField.bn254.modulus) callItself fuel 0 []
        (.new callItself) = .ok values m) ∨
      ∃ e m, State.run (p := ScalarField.bn254.modulus) callItself fuel 0 [] (.new callItself) =
        .error (.failure e) m := by
  have hprog : Program.BranchesForward callItself.program := by decide
  obtain ⟨limit, hlimit⟩ := run_terminates (σ := System ScalarField.bn254.modulus)
    (p := ScalarField.bn254.modulus) hprog
  exact ⟨hprog, limit, fun fuel hfuel => hlimit 0 [] (.new callItself) fuel hfuel⟩

end StackCircuit.Machine
