import StackCircuit.Proofs.Machine.Flow
import StackCircuit.Proofs.Machine.Layers

/-!
# The arms of a frame

The end of an arm is noticed behind an instruction that does not jump. So an arm that is left by a
jump, behind its last instruction, is never ended: its block goes on as if it were the body of the
function.

* **`Completed f d events`**: the arms that were entered at depth `d` have all been executed to their
  ends, each once.
* `Logged f layers events`: those that are not in the given layers have been.
* **`Stands f E k q e n`**: where control is in a nesting, of which the innermost `k` layers that an
  arm was left in are never ended.
* `Stands.settle`, `Logged.settle`: what the end of arms does.
* `Stands.enter`, `Stands.stray`: arms start, or one is left by a jump.
-/

namespace StackCircuit.Machine

open Bytecode (Function Instruction)

/-! ## What is noted -/

section Events

variable {p : ℕ}

/-- **All arms have been executed**: what is noted at a depth while arms start and end. -/
inductive Completed (f : Function) : ℕ → List (Event p) → Prop
  | nil {d : ℕ} : Completed f d []
  -- The only arm of a conditional is executed to its end.
  | oneArmed {d : ℕ} {pc start stop : UInt16} {arm rest : List (Event p)}
      (hbounds : Frame.armBounds f pc = .ok ((start, stop), none)) (harm : Completed f (d + 1) arm)
      (hrest : Completed f d rest) :
    Completed f d (.materialise f.name pc (d + 1) :: (arm ++ .merge f.name stop d :: rest))
  -- The first arm of a conditional is executed to its end, and then the second one.
  | twoArmed {d : ℕ} {pc start stop start' stop' : UInt16} {first second rest : List (Event p)}
      (hbounds : Frame.armBounds f pc = .ok ((start, stop), some (start', stop')))
      (hfirst : Completed f (d + 1) first) (hsecond : Completed f (d + 1) second)
      (hrest : Completed f d rest) :
    Completed f d (.materialise f.name pc (d + 1) ::
      (first ++ .switchArm f.name stop :: (second ++ .merge f.name stop' d :: rest)))

variable {f : Function} {d : ℕ} {events events' : List (Event p)}

theorem Completed.append (h : Completed f d events) (h' : Completed f d events') :
    Completed f d (events ++ events') := by
  induction h with
  | nil => exact h'
  | oneArmed hbounds harm _ _ ih =>
    rw [List.cons_append, List.append_assoc, List.cons_append]
    exact .oneArmed hbounds harm (ih h')
  | twoArmed hbounds hfirst hsecond _ _ _ ih =>
    rw [List.cons_append, List.append_assoc, List.cons_append, List.append_assoc, List.cons_append]
    exact .twoArmed hbounds hfirst hsecond (ih h')

theorem Completed.length_ne_one (h : Completed f d events) : events.length ≠ 1 := by
  cases h <;> simp

/-- **All arms but those of given layers have been executed.** -/
inductive Logged (f : Function) : List Layer → List (Event p) → Prop
  | body {events : List (Event p)} (h : Completed f 0 events) : Logged f [] events
  | only {pc start stop : UInt16} {b : Block} {ls : List Layer} {events arm : List (Event p)}
      (hout : Logged f ls events) (hbounds : Frame.armBounds f pc = .ok ((start, stop), none))
      (hstop : b.stop = some stop) (harm : Completed f (ls.length + 1) arm) :
    Logged f (.only b :: ls) (events ++ .materialise f.name pc (ls.length + 1) :: arm)
  | first {pc start stop start' stop' : UInt16} {b b' : Block} {ls : List Layer}
      {events arm : List (Event p)} (hout : Logged f ls events)
      (hbounds : Frame.armBounds f pc = .ok ((start, stop), some (start', stop')))
      (hstop : b.stop = some stop) (hstop' : b'.stop = some stop')
      (harm : Completed f (ls.length + 1) arm) :
    Logged f (.first b b' :: ls) (events ++ .materialise f.name pc (ls.length + 1) :: arm)
  | second {pc start stop start' stop' : UInt16} {b b' : Block} {ls : List Layer}
      {events arm arm' : List (Event p)} (hout : Logged f ls events)
      (hbounds : Frame.armBounds f pc = .ok ((start, stop), some (start', stop')))
      (hstop' : b'.stop = some stop') (harm : Completed f (ls.length + 1) arm)
      (harm' : Completed f (ls.length + 1) arm') :
    Logged f (.second b b' :: ls) (events ++
      .materialise f.name pc (ls.length + 1) :: (arm ++ .switchArm f.name stop :: arm'))

namespace Logged

variable {ls : List Layer}

theorem append (h : Logged f ls events) (h' : Completed f ls.length events') :
    Logged f ls (events ++ events') := by
  cases h with
  | body h => exact .body (h.append h')
  | only hout hbounds hstop harm =>
    rw [List.append_assoc, List.cons_append]
    exact .only hout hbounds hstop (harm.append h')
  | first hout hbounds hstop hstop' harm =>
    rw [List.append_assoc, List.cons_append]
    exact .first hout hbounds hstop hstop' (harm.append h')
  | second hout hbounds hstop' harm harm' =>
    rw [List.append_assoc, List.cons_append, List.append_assoc, List.cons_append]
    exact .second hout hbounds hstop' harm (harm'.append h')

theorem setPc {n : Nesting} (h : Logged f n.layers events) (pc : UInt16) :
    Logged f (n.setPc pc).layers events := by
  obtain ⟨body, _ | ⟨l, ls⟩⟩ := n
  · exact h
  · cases h with
    | only hout hbounds hstop harm => exact .only hout hbounds hstop harm
    | first hout hbounds hstop hstop' harm => exact .first hout hbounds hstop hstop' harm
    | second hout hbounds hstop' harm harm' => exact .second hout hbounds hstop' harm harm'

theorem merge {l : Layer} {pc : UInt16} (h : Logged f (l :: ls) events) (hl : l.isLast = true)
    (hpc : l.running.stop = some pc) :
    Logged f ls (events ++ [.merge f.name pc ls.length]) := by
  cases h with
  | @only pc' start stop b _ events arm hout hbounds hstop harm =>
    cases hstop.symm.trans hpc
    rw [List.append_assoc, List.cons_append]
    exact hout.append (.oneArmed hbounds harm .nil)
  | first => cases hl
  | @second pc' start stop start' stop' b b' _ events arm arm' hout hbounds hstop' harm harm' =>
    cases hstop'.symm.trans hpc
    rw [List.append_assoc, List.cons_append, List.append_assoc, List.cons_append]
    exact hout.append (.twoArmed hbounds harm harm' .nil)

/-- **The end of arms is noted.** -/
theorem settle {pc : UInt16} {n n' : Nesting} (hset : Activation.Settles f pc n n' events')
    (h : Logged f n.layers events) (hpc : n.running.stop = some pc) :
    Logged f n'.layers (events ++ events') := by
  induction hset generalizing events with
  | switch =>
    cases h with
    | first hout hbounds hstop hstop' harm =>
      cases hstop.symm.trans hpc
      rw [List.append_assoc, List.cons_append]
      exact .second hout hbounds hstop' harm .nil
  | resume hl _ => exact (h.merge hl hpc).setPc _
  | cascade hl hstop _ ih =>
    rw [List.append_cons]
    refine ih ((h.merge hl hpc).setPc _) ?_
    rw [Nesting.running_setPc]
    exact hstop

theorem enter {pc : UInt16} {bounds : (UInt16 × UInt16) × Option (UInt16 × UInt16)}
    (h : Logged f ls events) (hbounds : Frame.armBounds f pc = .ok bounds) (id : ℕ) :
    Logged f (.ofBounds id bounds :: ls)
      (events ++ [.materialise f.name pc (ls.length + 1)]) := by
  obtain ⟨⟨start, stop⟩, _ | ⟨start', stop'⟩⟩ := bounds
  · exact .only h hbounds rfl .nil
  · exact .first h hbounds rfl rfl .nil

end Logged

end Events

/-! ## Where control is -/

/-- **Where control is in a nesting**: at position `q` of the running block, which ends right before
position `e`. The innermost `k` layers have a block that was left by a jump, or `k` is zero; such a
block goes on to the end of the body, at `E`. -/
inductive Stands (f : Function) (E : ℕ) : ℕ → ℕ → ℕ → Nesting → Prop
  | free {q : ℕ} {n : Nesting} (hflow : Flows f q E) (hdepth : n.layers.length ≤ q)
      (hfree : ∀ stop, n.running.stop = some stop → stop.toNat < q) :
    Stands f E n.layers.length q E n
  | last {k q q₀ e e' : ℕ} {body : Block} {l : Layer} {ls : List Layer} (hl : l.isLast = true)
      (hstop : l.running.EndsAt e) (hflow : Flows f q e) (hlt : q₀ < q) (hresume : Flows f e e')
      (hout : Stands f E k q₀ e' ⟨body, ls⟩) : Stands f E k q e ⟨body, l :: ls⟩
  | first {k q q₀ e e' e'' : ℕ} {body b b' : Block} {ls : List Layer} (hstop : b.EndsAt e)
      (hflow : Flows f q e) (hskip : Flows f e e') (hne : b'.pc.toNat < e') (hstop' : b'.EndsAt e')
      (hflow' : Flows f b'.pc.toNat e') (hlt : q₀ < q) (hlt' : q₀ < b'.pc.toNat)
      (hresume : Flows f e' e'') (hout : Stands f E k q₀ e'' ⟨body, ls⟩) :
    Stands f E k q e ⟨body, .first b b' :: ls⟩

namespace Stands

variable {f : Function} {E k q q' e : ℕ} {n : Nesting}

theorem flows (h : Stands f E k q e n) : Flows f q e := by
  cases h with
  | free hflow => exact hflow
  | last _ _ hflow => exact hflow
  | first _ hflow => exact hflow

theorem flows_end (h : Stands f E k q e n) : Flows f e E := by
  induction h with
  | free => exact .done
  | last _ _ _ _ hresume _ ih => exact hresume.trans ih
  | first _ _ hskip _ _ _ _ _ hresume _ ih => exact hskip.trans (hresume.trans ih)

theorem le_depth (h : Stands f E k q e n) : k ≤ n.layers.length := by
  induction h with
  | free => exact Nat.le_refl _
  | last _ _ _ _ _ _ ih => exact Nat.le_succ_of_le ih
  | first _ _ _ _ _ _ _ _ _ _ ih => exact Nat.le_succ_of_le ih

theorem depth_le (h : Stands f E k q e n) : n.layers.length ≤ q := by
  induction h with
  | free _ hdepth => exact hdepth
  | last _ _ _ hlt _ _ ih => exact Nat.succ_le_of_lt (Nat.lt_of_le_of_lt ih hlt)
  | first _ _ _ _ _ _ hlt _ _ _ ih => exact Nat.succ_le_of_lt (Nat.lt_of_le_of_lt ih hlt)

theorem move (h : Stands f E k q e n) (hle : q ≤ q') (hflow : Flows f q' e) :
    Stands f E k q' e n := by
  cases h with
  | free _ hdepth hfree =>
    exact .free hflow (Nat.le_trans hdepth hle) fun stop hs => Nat.lt_of_lt_of_le (hfree stop hs) hle
  | last hl hstop _ hlt hresume hout =>
    exact .last hl hstop hflow (Nat.lt_of_lt_of_le hlt hle) hresume hout
  | first hstop _ hskip hne hstop' hflow' hlt hlt' hresume hout =>
    exact .first hstop hflow hskip hne hstop' hflow' (Nat.lt_of_lt_of_le hlt hle) hlt' hresume hout

theorem setPc (h : Stands f E k q e n) (pc : UInt16) : Stands f E k q e (n.setPc pc) := by
  cases h with
  | free hflow hdepth hfree =>
    rw [← n.length_layers_setPc pc] at hdepth ⊢
    refine .free hflow hdepth fun stop hs => hfree stop ?_
    rwa [n.running_setPc] at hs
  | @last _ _ _ _ _ _ l _ hl hstop hflow hlt hresume hout =>
    refine .last ?_ ?_ hflow hlt hresume hout
    · cases l <;> exact hl
    · rw [l.running_setPc]
      exact hstop
  | first hstop hflow hskip hne hstop' hflow' hlt hlt' hresume hout =>
    exact .first hstop hflow hskip hne hstop' hflow' hlt hlt' hresume hout

theorem endsAt_or_free (h : Stands f E k q e n) :
    (k < n.layers.length ∧ n.running.EndsAt e) ∨
      (n.layers.length = k ∧ e = E ∧ ∀ stop, n.running.stop = some stop → stop.toNat < q) := by
  cases h with
  | free _ _ hfree => exact .inr ⟨rfl, rfl, hfree⟩
  | last _ hstop _ _ _ hout => exact .inl ⟨Nat.lt_succ_of_le hout.le_depth, hstop⟩
  | first hstop _ _ _ _ _ _ _ _ hout => exact .inl ⟨Nat.lt_succ_of_le hout.le_depth, hstop⟩

theorem stop_eq_iff {pc : UInt16} (h : Stands f E k q e n) (hq : q ≤ pc.toNat) :
    n.running.stop = some pc ↔ k < n.layers.length ∧ pc.toNat + 1 = e := by
  rcases h.endsAt_or_free with ⟨hk, stop, hstop, he⟩ | ⟨hk, -, hfree⟩
  · rw [hstop, Option.some.injEq]
    constructor
    · rintro rfl
      exact ⟨hk, he⟩
    · rintro ⟨-, hpc⟩
      exact UInt16.toNat_inj.mp (by omega)
  · constructor
    · intro hstop
      have := hfree pc hstop
      omega
    · rintro ⟨hlt, -⟩
      omega

/-- **An arm is left by a jump behind its end**: its block goes on to the end of the body. -/
theorem stray (h : Stands f E k q e n) (hk : k < n.layers.length) :
    Stands f E n.layers.length e E n := by
  refine .free h.flows_end (Nat.le_trans h.depth_le h.flows.le) fun stop hstop => ?_
  rcases h.endsAt_or_free with ⟨-, stop', hstop', he⟩ | ⟨hk', -⟩
  · cases hstop.symm.trans hstop'
    omega
  · omega

/-- **Where control goes when arms end.** -/
theorem settle {p : ℕ} {pc : UInt16} {n' : Nesting} {events : List (Event p)}
    (h : Stands f E k q e n) (hk : k < n.layers.length) (hsize : e < UInt16.size)
    (hq : q ≤ pc.toNat) (hpc : pc.toNat + 1 = e) (hset : Activation.Settles f pc n n' events) :
    ∃ q' e', Stands f E k q' e' n' ∧ n'.running.pc.toNat = q' ∧
      (q' < e' ∨ n'.layers.length = k) := by
  have hnext : (pc + 1).toNat = e := by
    rw [Frame.toNat_add_of_lt (by change pc.toNat + 1 < _; omega)]
    exact hpc
  -- A block around the arms is at an earlier position, that of the branch that started them.
  induction hset generalizing q e with
  | switch =>
    cases h with
    | free => exact absurd hk (Nat.lt_irrefl _)
    | last hl => cases hl
    | first hstop hflow hskip hne hstop' hflow' hlt hlt' hresume hout =>
      exact ⟨_, _, .last rfl hstop' hflow' hlt' hresume hout, rfl, .inl hne⟩
  | @resume body l ls hl hstop =>
    cases h with
    | free => exact absurd hk (Nat.lt_irrefl _)
    | first => cases hl
    | @last _ _ q₀ _ e' _ _ _ _ hend hflow hlt hresume hout =>
      have hmoved := hout.move (by omega) hresume
      refine ⟨e, e', hmoved.setPc _, ?_, ?_⟩
      · rw [Nesting.running_setPc]
        exact hnext
      · rw [Nesting.length_layers_setPc]
        have hmore : ¬ (k < ls.length ∧ pc.toNat + 1 = e') := fun h =>
          hstop ((hout.stop_eq_iff (by omega)).mpr h)
        have hle := hout.le_depth
        have hle' := hresume.le
        dsimp only at hle ⊢
        omega
  | @cascade body l ls n' events hl hstop _ ih =>
    cases h with
    | free => exact absurd hk (Nat.lt_irrefl _)
    | first => cases hl
    | @last _ _ q₀ _ e' _ _ _ _ hend hflow hlt hresume hout =>
      obtain ⟨hk', he⟩ := (hout.stop_eq_iff (by omega)).mp hstop
      refine ih (hout.setPc pc) ?_ (by omega) (by omega) he (by omega)
      rw [Nesting.length_layers_setPc]
      exact hk'

/-- **Where control goes when arms start.** -/
theorem enter {pc : UInt16} {i : Instruction} (h : Stands f E k pc.toNat e n) (hlt : pc.toNat < e)
    (hi : f.code[pc.toNat]? = some i) (hop : i.opcode.isConditionalBranch = true) (id : ℕ) :
    ∃ bounds e', Frame.armBounds f pc = .ok bounds ∧
      Stands f E k (pc.toNat + 2) e' (n.enter (.ofBounds id bounds)) ∧
      (Layer.ofBounds id bounds).running.pc.toNat = pc.toNat + 2 ∧ pc.toNat + 2 < e' := by
  have hcond := h.flows.conditional_inv hlt hi hop
  rw [UInt16.ofNat_toNat] at hcond
  obtain ⟨-, -, ⟨start, stop, hbounds, hstart, hne, harm, hrest⟩ |
    ⟨start, stop, start', stop', hbounds, hstart, hne, hstart', hne', hfirst, hskip, hsecond,
      hrest⟩⟩ := hcond
  · exact ⟨_, stop.toNat + 1, hbounds, .last rfl ⟨stop, rfl, rfl⟩ harm (by omega) hrest h, hstart,
      by omega⟩
  · refine ⟨_, stop.toNat + 1, hbounds, ?_, hstart, by omega⟩
    exact .first ⟨stop, rfl, rfl⟩ hfirst hskip (Nat.lt_succ_of_le hne') ⟨stop', rfl, rfl⟩ hsecond
      (by omega) (Nat.lt_of_lt_of_le (by omega) hstart') hrest h

end Stands

end StackCircuit.Machine
