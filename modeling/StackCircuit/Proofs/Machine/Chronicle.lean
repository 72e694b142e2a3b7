import StackCircuit.Proofs.Machine.Arms
import StackCircuit.Proofs.Machine.Journal
import StackCircuit.Proofs.Machine.Relate

/-!
# The chronicle of arms

What has happened to the arms of each frame on the call stack is told by the journal. Here it is
followed along an execution, frame by frame.

* **`Chronicle`**: what a frame has noted about its arms, and whether control was behind the end of
  an arm.
* `Attends c f`: the chronicle of a frame fits to where control is in it.
* `Attends.goto`, `Attends.enter`, `Attends.advance`: what happens to a frame.
-/

namespace StackCircuit

/-- Whether an event tells of arms. -/
def Event.isArm {p : ℕ} : Event p → Bool
  | .materialise _ _ _ => true
  | .switchArm _ _ => true
  | .merge _ _ _ => true
  | _ => false

namespace Machine

open Bytecode (Function Instruction)
open Circuit (Recorder)

variable {σ : Type} {p : ℕ}

/-! ## Chronicles -/

/-- Whether control is behind the end of the running block. -/
def Frame.isBeyond (f : Frame) : Bool :=
  match f.running with
  | .ok (_, b) => b.stop.any (· < b.pc)
  | .error _ => false

/-- **What has happened to the arms of a frame.** -/
structure Chronicle (p : ℕ) where
  events : List (Event p)
  -- Whether control was behind the end of the running block at some time.
  strayed : Bool

namespace Chronicle

/-- Nothing has happened. -/
def empty : Chronicle p := ⟨[], false⟩

/-- Events are noted, and the frame has changed. -/
def extend (c : Chronicle p) (events : List (Event p)) (f : Frame) : Chronicle p :=
  ⟨c.events ++ events, c.strayed || f.isBeyond⟩

end Chronicle

/-- A function that ends with a return at a position. -/
def ReturnsAt (f : Function) (E : ℕ) : Prop :=
  E + 1 = f.code.size ∧ ∃ i, f.code[E]? = some i ∧ i.opcode = .ret

/-- **The chronicle of a frame fits to where control is**: as long as control has not been behind
the end of an arm, all arms have been executed but those under execution. -/
inductive Attends (c : Chronicle p) : Frame → Prop
  | mk {index : UInt16} {f : Function} {id k e E : ℕ} {n : Nesting} (hsize : f.code.size < UInt16.size)
      (hret : ReturnsAt f E) (hbody : n.body.stop = none)
      (hstands : Stands f E k n.running.pc.toNat e n)
      (hlt : n.running.pc.toNat < e ∨ n.layers.length = k)
      (hlog : c.strayed = false → k = 0 ∧ Logged f n.layers c.events)
      (hstray : c.strayed = true → 0 < k) : Attends c (.ofNesting index f id n)

section Frames

variable {index : UInt16} {f : Function} {id k e E : ℕ} {n : Nesting} {c : Chronicle p}
  {events : List (Event p)}

theorem isBeyond_ofNesting : (Frame.ofNesting index f id n).isBeyond =
    n.running.stop.any (· < n.running.pc) := by
  simp only [Frame.isBeyond, Frame.running_ofNesting]

theorem Stands.pos_of_isBeyond (h : Stands f E k n.running.pc.toNat e n)
    (hlt : n.running.pc.toNat < e ∨ n.layers.length = k) (hbody : n.body.stop = none)
    (hbeyond : (Frame.ofNesting index f id n).isBeyond = true) : 0 < k := by
  rw [isBeyond_ofNesting, Option.any_eq_true] at hbeyond
  obtain ⟨stop, hstop, hpc⟩ := hbeyond
  have hpc' : stop.toNat < n.running.pc.toNat := UInt16.lt_iff_toNat_lt.mp (of_decide_eq_true hpc)
  rcases h.endsAt_or_free with ⟨hk, stop', hstop', he⟩ | ⟨hk, -⟩
  · cases hstop.symm.trans hstop'
    omega
  · rcases Nat.eq_zero_or_pos k with hzero | hpos
    · obtain ⟨body, ls⟩ := n
      obtain rfl : ls = [] := List.eq_nil_of_length_eq_zero (hk.trans hzero)
      exact absurd (hstop.symm.trans hbody) (by simp)
    · exact hpos

theorem Attends.extend (hsize : f.code.size < UInt16.size) (hret : ReturnsAt f E)
    (hbody : n.body.stop = none) (hstands : Stands f E k n.running.pc.toNat e n)
    (hlt : n.running.pc.toNat < e ∨ n.layers.length = k)
    (hlog : c.strayed = false → k = 0 ∧ Logged f n.layers (c.events ++ events))
    (hstray : c.strayed = true → 0 < k) :
    Attends (c.extend events (.ofNesting index f id n)) (.ofNesting index f id n) := by
  refine .mk hsize hret hbody hstands hlt (fun h => ?_) fun h => ?_
  · exact hlog (Bool.or_eq_false_iff.mp h).1
  · rcases Bool.or_eq_true_iff.mp h with h | h
    · exact hstray h
    · exact hstands.pos_of_isBeyond hlt hbody h

theorem Stands.lt_of_ne_ret {i : Instruction} (h : Stands f E k n.running.pc.toNat e n)
    (hlt : n.running.pc.toNat < e ∨ n.layers.length = k) (hret : ReturnsAt f E)
    (hi : f.code[n.running.pc.toNat]? = some i) (hop : i.opcode ≠ .ret) :
    n.running.pc.toNat < e := by
  rcases hlt with hlt | hk
  · exact hlt
  · rcases h.endsAt_or_free with ⟨hk', -⟩ | ⟨-, rfl, -⟩
    · omega
    · obtain ⟨-, j, hj, hjop⟩ := hret
      refine Nat.lt_of_le_of_ne h.flows.le fun heq => hop ?_
      rw [heq, hj] at hi
      cases hi
      exact hjop

theorem lt_two_pow (hsize : f.code.size < UInt16.size) (hret : ReturnsAt f E)
    (h : Stands f E k n.running.pc.toNat e n) : e < UInt16.size := by
  have hle := h.flows_end.le
  have hend := hret.1
  omega

/-! ## What happens to a frame -/

variable {frame : Frame} {number : ℕ} {b : Block} {i : Instruction} {s : Store σ p}
  {guards : List (Guard p)}

/-- **Control goes to another position of the running block**, and maybe out of the arm. -/
theorem Attends.goto (h : Attends c frame) (hb : frame.running = .ok (number, b))
    (hi : frame.function.code[b.pc.toNat]? = some i) (hop : i.opcode ≠ .ret) (pc : UInt16)
    (hflow : ∀ e, Flows frame.function b.pc.toNat e → b.pc.toNat < e →
      b.pc.toNat ≤ pc.toNat ∧ Flows frame.function pc.toNat e) :
    Attends (c.extend [] (frame.setBlockPc number pc)) (frame.setBlockPc number pc) := by
  obtain @⟨index, f, id, k, e, E, n, hsize, hret, hbody, hstands, hlt, hlog, hstray⟩ := h
  rw [Frame.running_ofNesting] at hb
  cases hb
  rw [Frame.setBlockPc_ofNesting]
  obtain ⟨hle, hflow'⟩ := hflow e hstands.flows (hstands.lt_of_ne_ret hlt hret hi hop)
  have hpc : (n.setPc pc).running.pc = pc := by rw [n.running_setPc]; rfl
  have hlen := n.length_layers_setPc pc
  have hbody' : (n.setPc pc).body.stop = none := (n.stop_body_setPc pc).trans hbody
  by_cases hin : pc.toNat < e ∨ n.layers.length = k
  · refine Attends.extend (k := k) (e := e) hsize hret hbody' ?_ (by rwa [hpc, hlen]) (fun h => ?_)
      hstray
    · rw [hpc]
      exact (hstands.move hle hflow').setPc pc
    · rw [List.append_nil]
      exact ⟨(hlog h).1, (hlog h).2.setPc pc⟩
  · -- The arm is left: its block is the outermost one that control comes back to.
    have hle' := hflow'.le
    have hdepth := hstands.le_depth
    have hk : k < n.layers.length := by omega
    have he : pc.toNat = e := by omega
    have hbeyond : (Frame.ofNesting index f id (n.setPc pc)).isBeyond = true := by
      rcases hstands.endsAt_or_free with ⟨-, stop, hstop, hend⟩ | ⟨hk', -⟩
      · rw [isBeyond_ofNesting, Option.any_eq_true, hpc, n.running_setPc]
        exact ⟨stop, hstop, decide_eq_true (UInt16.lt_iff_toNat_lt.mpr (by omega))⟩
      · omega
    refine .mk (k := n.layers.length) (e := E) hsize hret hbody' ?_ (.inr hlen) (fun h => ?_)
      fun _ => by omega
    · rw [hpc, he]
      exact (hstands.stray hk).setPc pc
    · rw [Chronicle.extend, hbeyond, Bool.or_true] at h
      cases h

/-- What a journal tells of arms. -/
def Store.arms (s : Store σ p) : List (Event p) := s.view Event.isArm

theorem arms_of_journal {s' : Store σ p}
    (h : s'.ledger.journal.toList = s.ledger.journal.toList ++ events)
    (hevents : ∀ event ∈ events, event.isArm = true) : s'.arms = s.arms ++ events := by
  rw [Store.arms, Store.arms, Store.view, Store.view, h, List.filter_append,
    List.filter_eq_self.mpr hevents]

theorem isArm_of_settles {pc : UInt16} {n' : Nesting}
    (h : Activation.Settles f pc n n' events) : ∀ event ∈ events, event.isArm = true := by
  induction h with
  | switch => simp [Event.isArm]
  | resume => simp [Event.isArm]
  | cascade _ _ _ ih => simpa [Event.isArm] using ih

/-- **Arms start.** -/
theorem Attends.enter (h : Attends c frame) (hb : frame.running = .ok (number, b))
    (hi : frame.function.code[b.pc.toNat]? = some i)
    (hop : i.opcode.isConditionalBranch = true) (hs : s.conditions = ⟨guards, none⟩)
    (cond : Value p) :
    ∃ g events t, Activation.materialise b.pc cond ⟨frame, s⟩ = .ok () ⟨g, t⟩ ∧
      Attends (c.extend events g) g ∧ t.arms = s.arms ++ events ∧
      ∃ guards', t.conditions = ⟨guards', none⟩ ∧
        guards'.length + frame.depth = guards.length + g.depth := by
  obtain @⟨index, f, id, k, e, E, n, hsize, hret, hbody, hstands, hlt, hlog, hstray⟩ := h
  rw [Frame.running_ofNesting] at hb
  cases hb
  have hne : i.opcode ≠ .ret := by
    intro h
    rw [h] at hop
    cases hop
  have hlt' := hstands.lt_of_ne_ret hlt hret hi hne
  obtain ⟨bounds, e', hbounds, hstands', hpc, he'⟩ := hstands.enter hlt' hi hop id
  have hdepth : n.layers.length ≤ f.code.size := by
    have hle := hstands.depth_le
    have hend := hstands.flows_end.le
    have hsize := hret.1
    omega
  have hok : Activation.materialise n.running.pc cond ⟨.ofNesting index f id n, s⟩ = _ :=
    Activation.materialise_ofNesting hbounds hs hdepth
  refine ⟨_, [.materialise f.name n.running.pc (n.layers.length + 1)], _, hok, ?_, ?_, _, rfl, ?_⟩
  · have hpc' : (n.enter (.ofBounds id bounds)).running.pc.toNat = n.running.pc.toNat + 2 := hpc
    refine Attends.extend hsize hret hbody (hpc' ▸ hstands') (.inl (hpc' ▸ he')) (fun h => ?_) hstray
    exact ⟨(hlog h).1, (hlog h).2.enter hbounds id⟩
  · exact arms_of_journal Array.toList_push (by simp [Event.isArm])
  · simp only [Frame.depth_ofNesting, Nesting.enter, List.length_cons]
    omega

/-- **Control goes on behind an instruction**, where arms may end. -/
theorem Attends.advance (h : Attends c frame) (hb : frame.running = .ok (number, b))
    (hi : frame.function.code[b.pc.toNat]? = some i) (hop : i.opcode ≠ .ret)
    (hflow : ∀ e, Flows frame.function b.pc.toNat e → b.pc.toNat < e →
      Flows frame.function (b.pc.toNat + 1) e)
    (hs : s.conditions = ⟨guards, none⟩) (hguards : frame.depth ≤ guards.length) :
    ∃ g events t, Activation.advance ⟨frame, s⟩ = .ok () ⟨g, t⟩ ∧
      Attends (c.extend events g) g ∧ t.arms = s.arms ++ events ∧
      ∃ guards', t.conditions = ⟨guards', none⟩ ∧
        guards'.length + frame.depth = guards.length + g.depth := by
  have hattends := h
  obtain @⟨index, f, id, k, e, E, n, hsize, hret, hbody, hstands, hlt, hlog, hstray⟩ := h
  have hb' := hb
  rw [Frame.running_ofNesting] at hb
  cases hb
  have hlt' := hstands.lt_of_ne_ret hlt hret hi hop
  have he := lt_two_pow hsize hret hstands
  rw [Activation.advance_ofNesting]
  by_cases hend : n.running.atEnd = true
  · have hstop : n.running.stop = some n.running.pc := of_decide_eq_true hend
    obtain ⟨hk, hnext⟩ := (hstands.stop_eq_iff (Nat.le_refl _)).mp hstop
    have hdepth : n.layers.length ≤ f.code.size := by
      have hle := hstands.depth_le
      have hend := hstands.flows_end.le
      have hsize := hret.1
      omega
    have hlayers : n.layers ≠ [] := List.length_pos_iff.mp (by omega)
    rw [Frame.depth_ofNesting] at hguards
    obtain ⟨n', events, t, hok, hset, -, hjournal, guards', ht, hcount⟩ :=
      Activation.endArms_ofNesting index f id n.running.pc hs hlayers hguards (Nat.le_succ _) hbody
        (Nat.le_succ_of_le hdepth)
    obtain ⟨q', e', hstands', rfl, hlt''⟩ := hstands.settle hk he (Nat.le_refl _) hnext hset
    rw [if_pos hend]
    refine ⟨_, events, t, hok, ?_, arms_of_journal hjournal (isArm_of_settles hset), guards', ht, ?_⟩
    · refine Attends.extend hsize hret (hset.stop_body hbody) hstands' hlt'' (fun h => ?_) hstray
      exact ⟨(hlog h).1, (hlog h).2.settle hset hstop⟩
    · rw [Frame.depth_ofNesting, Frame.depth_ofNesting]
      exact hcount
  · rw [if_neg hend]
    have hpc : (n.running.pc + 1).toNat = n.running.pc.toNat + 1 :=
      Frame.toNat_add_of_lt (by change n.running.pc.toNat + 1 < _; omega)
    have hgoto := hattends.goto hb' hi hop (n.running.pc + 1) fun e h hlt => by
      rw [hpc]
      exact ⟨Nat.le_succ _, hflow e h hlt⟩
    rw [Frame.setBlockPc_ofNesting] at hgoto
    refine ⟨_, [], s, rfl, hgoto, (List.append_nil _).symm, guards, hs, ?_⟩
    rw [Frame.depth_ofNesting, Frame.depth_ofNesting, n.length_layers_setPc]

end Frames

end Machine

end StackCircuit
