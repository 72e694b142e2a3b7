import Mathlib.Data.List.Nodup
import StackCircuit.Proofs.Machine.Faultless
import StackCircuit.Proofs.Machine.Termination

/-!
# How deep arms are nested

A frame keeps the branches whose arms it executes, and has room for one more of them than its
function has instructions. Nothing but the code keeps a jump within an arm from leading back to one
of these branches, so the room can run out; it does not as long as this does not happen.

* `Frame.openBranches`: the positions of the branches whose arms a frame executes.
* `State.Reenters`: a frame is about to enter the arms of a branch once more, within these arms.
* `Frame.Guarded.depth_le_size`: where no position occurs twice, there are no more of them than
  instructions.
* `State.Unrepeated.step`, `Reached.unrepeated`: no position occurs twice unless a branch is entered
  within its own arms.
* **`depth_bounded`**: in executions without this, arms always fit into their frame.
* `Reached.not_reenters_witness`, `Reached.not_reenters`: no branch is entered within its own arms by a
  witness, or where all jumps lead forward.
-/

namespace StackCircuit.Machine

open Bytecode (Function Instruction Program Opcode)
open Circuit (Recorder System)

variable {σ : Type} {p : ℕ}

/-- A program without undefined operations. -/
def Program.IsDefined (m : Program) : Prop :=
  ∀ f ∈ m.functions, ∀ i ∈ f.code, i.opcode ∈ Opcode.defined

instance (m : Program) : Decidable (Program.IsDefined m) :=
  inferInstanceAs (Decidable (∀ f ∈ m.functions, ∀ i ∈ f.code, i.opcode ∈ Opcode.defined))

/-- **The positions of the branches whose arms a frame executes**, the innermost first: each of the
blocks that wait for arms to end is at such a branch. -/
def Frame.openBranches (f : Frame) : List UInt16 :=
  f.suspended.items.filterMap fun b => b.running?.bind fun n => f.blocks[n]?.map Block.pc

/-- **A branch is entered within its own arms**: its condition is not known, and the topmost frame
executes arms of the same branch. -/
def State.Reenters (m : State σ p) : Prop :=
  m.unknown?.isSome = true ∧
    ∃ f n b, m.frames.top? = some f ∧ f.running = .ok (n, b) ∧ b.pc ∈ f.openBranches

/-! ## The branches around layers -/

namespace Nesting

/-- The positions of the blocks around the running one. -/
def branches (body : Block) : List Layer → List UInt16
  | [] => []
  | _ :: ls => (running ⟨body, ls⟩).pc :: branches body ls

theorem length_branches (body : Block) (ls : List Layer) :
    (branches body ls).length = ls.length := by
  induction ls with
  | nil => rfl
  | cons l ls ih => rw [branches, List.length_cons, List.length_cons, ih]

theorem branches_setPc (n : Nesting) (pc : UInt16) :
    branches (n.setPc pc).body (n.setPc pc).layers = branches n.body n.layers := by
  obtain ⟨body, ls⟩ := n
  cases ls <;> rfl

theorem filterMap_waiting (body : Block) (ls : List Layer) (rest : List Block) :
    (waiting body ls).filterMap
        (fun b => b.running?.bind fun n => (arena body ls ++ rest)[n]?.map Block.pc) =
      branches body ls := by
  induction ls generalizing rest with
  | nil => rfl
  | cons l ls ih =>
    have hrunning := getElem?_arena ⟨body, ls⟩
    have hlt := (List.getElem?_eq_some_iff.mp hrunning).1
    rw [waiting, List.filterMap_cons_some (b := (running ⟨body, ls⟩).pc), branches, arena,
      List.append_assoc, ih]
    rw [running?_program ⟨body, ls⟩, Option.bind_some, arena, List.append_assoc,
      List.getElem?_append_left hlt, hrunning, Option.map_some]

end Nesting

theorem Frame.openBranches_ofNesting {index : UInt16} {f : Function} {id : ℕ} {n : Nesting} :
    (Frame.ofNesting index f id n).openBranches = Nesting.branches n.body n.layers := by
  have h := Nesting.filterMap_waiting n.body n.layers []
  rw [List.append_nil] at h
  simpa only [Frame.openBranches, Frame.ofNesting, List.getElem?_toArray] using h

theorem Activation.Settles.branches_suffix {f : Function} {pc : UInt16} {n n' : Nesting}
    {events : List (Event p)} (h : Activation.Settles f pc n n' events) :
    Nesting.branches n'.body n'.layers <:+ Nesting.branches n.body n.layers := by
  induction h with
  | switch => exact List.suffix_rfl
  | resume =>
    rw [Nesting.branches_setPc]
    exact List.suffix_cons _ _
  | cascade _ _ _ ih =>
    rw [Nesting.branches_setPc] at ih
    exact ih.trans (List.suffix_cons _ _)

theorem Nested.lt_size {f : Function} {body : Block} {ls : List Layer} {guards : List (Guard p)}
    (h : Nested f body ls guards) : ∀ pc ∈ Nesting.branches body ls, pc.toNat < f.code.size := by
  induction h with
  | nil => exact List.forall_mem_nil _
  | cons _ hi _ _ _ _ _ ih =>
    exact List.forall_mem_cons.mpr ⟨(Array.getElem?_eq_some_iff.mp hi).1, ih⟩

section Frames

variable {f g : Frame} {guards rest : List (Guard p)} {s s' : Store σ p} {number : ℕ} {b : Block}
  {i : Instruction} {t : Transition p}

/-- **Arms of different branches** are nested no deeper than the code is long. -/
theorem Frame.Guarded.depth_le_size (h : f.Guarded guards) (hnodup : f.openBranches.Nodup) :
    f.depth ≤ f.function.code.size := by
  obtain @⟨index, k, id, n, guards, hbody, hlayers, hn⟩ := h
  rw [Frame.openBranches_ofNesting] at hnodup
  rw [Frame.depth_ofNesting, ← Nesting.length_branches n.body,
    ← List.length_map (f := UInt16.toNat)]
  have hpositions := hnodup.map (f := UInt16.toNat) fun _ _ => UInt16.toNat_inj.mp
  have hsubset : (Nesting.branches n.body n.layers).map UInt16.toNat ⊆ List.range k.code.size := by
    intro q hq
    obtain ⟨pc, hpc, rfl⟩ := List.mem_map.mp hq
    exact List.mem_range.mpr (hn.lt_size pc hpc)
  have hle := (hpositions.subperm hsubset).length_le
  rwa [List.length_range] at hle

theorem Frame.Guarded.room_eq (h : f.Guarded guards) :
    f.suspended.room = some (f.function.code.size + 1 - f.depth) := by
  obtain @⟨index, k, id, n, guards, hbody, hlayers, hn⟩ := h
  rw [Frame.depth_ofNesting]
  rfl

/-- **Going on to the next instruction** opens no branch. -/
theorem Nesting.GoesOn.branches_suffix {k : Function} {n n' : Nesting}
    (h : Nesting.GoesOn (p := p) k n n') :
    Nesting.branches n'.body n'.layers <:+ Nesting.branches n.body n.layers := by
  cases h with
  | next =>
    rw [Nesting.branches_setPc]
  | settle hsettles => exact hsettles.branches_suffix

theorem Frame.Guarded.openBranches_advance (h : f.Guarded guards)
    (hs : s.conditions = ⟨guards ++ rest, none⟩) {u : Unit}
    (hok : Activation.advance ⟨f, s⟩ = .ok u ⟨g, s'⟩) :
    g.function = f.function ∧ g.openBranches <:+ f.openBranches := by
  have hf := h
  obtain @⟨index, k, id, n, guards, hbody, -, -⟩ := h
  obtain ⟨n', rfl, -, hgoes⟩ := hf.goesOn (congrArg Prod.snd hbody) hs hok
  rw [Frame.openBranches_ofNesting, Frame.openBranches_ofNesting]
  exact ⟨rfl, hgoes.branches_suffix⟩

/-- **Control that stays in a frame** opens the branch that it enters, and no other. -/
theorem Frame.Guarded.openBranches_follow (h : f.Guarded guards)
    (hs : s.conditions = ⟨guards ++ rest, none⟩) (hb : f.running = .ok (number, b))
    (ht : Leads b i t) (hok : Activation.follow f number t ⟨f, s⟩ = .ok none ⟨g, s'⟩) :
    g.function = f.function ∧ (g.openBranches <:+ f.openBranches ∨
      g.openBranches = b.pc :: f.openBranches ∧ ∃ v, t = .exit (.conditional b.pc v)) := by
  have hf := h
  obtain @⟨index, k, id, n, guards, hbody, -, -⟩ := h
  obtain ⟨n', rfl, -, hfollows⟩ := hf.follows (congrArg Prod.snd hbody) hs hb ht hok
  rw [Frame.running_ofNesting] at hb
  cases hb
  rw [Frame.openBranches_ofNesting, Frame.openBranches_ofNesting]
  refine ⟨rfl, ?_⟩
  cases hfollows with
  | goesOn hgoes => exact .inl hgoes.branches_suffix
  | goto hjump =>
    rw [Nesting.branches_setPc]
    exact .inl List.suffix_rfl
  | enter hbounds v => exact .inr ⟨rfl, v, rfl⟩

end Frames

/-! ## Arms behind their branches -/

/-- The blocks of a layer that are under execution or will be. -/
def Layer.ahead : Layer → List Block
  | only b => [b]
  | first b b' => [b, b']
  | second _ b' => [b']

theorem Layer.running_mem_ahead (l : Layer) : l.running ∈ l.ahead := by
  cases l <;> exact List.mem_cons_self

theorem Layer.mem_ahead_setPc {l : Layer} {pc : UInt16} {b : Block} (h : b ∈ (l.setPc pc).ahead) :
    b = l.running.setPc pc ∨ b ∈ l.ahead := by
  cases l with
  | only b' => exact .inl (List.mem_singleton.mp h)
  | first b' b'' => exact (List.mem_cons.mp h).imp_right (List.mem_cons_of_mem _)
  | second b' b'' => exact .inl (List.mem_singleton.mp h)

namespace Nesting

/-- **Layers behind their branches**: what is left of the arms starts behind the branch that they
were entered at. -/
def Ascends (body : Block) : List Layer → Prop
  | [] => True
  | l :: ls => (∀ b ∈ l.ahead, (running ⟨body, ls⟩).pc.toNat < b.pc.toNat) ∧ Ascends body ls

variable {n n' : Nesting}

theorem Ascends.branches_lt {body : Block} {ls : List Layer} (h : Ascends body ls) :
    ∀ pc ∈ branches body ls, pc.toNat < (running ⟨body, ls⟩).pc.toNat := by
  induction ls with
  | nil => exact List.forall_mem_nil _
  | cons l ls ih =>
    obtain ⟨hahead, hls⟩ := h
    have hlt : (running ⟨body, ls⟩).pc.toNat < (running ⟨body, l :: ls⟩).pc.toNat :=
      hahead _ l.running_mem_ahead
    exact List.forall_mem_cons.mpr ⟨hlt, fun pc hpc => (ih hls pc hpc).trans hlt⟩

theorem Ascends.setPc (h : Ascends n.body n.layers) {pc : UInt16}
    (hle : n.running.pc.toNat ≤ pc.toNat) : Ascends (n.setPc pc).body (n.setPc pc).layers := by
  obtain ⟨body, _ | ⟨l, ls⟩⟩ := n
  · exact trivial
  · obtain ⟨hahead, hls⟩ := h
    refine ⟨fun b hb => ?_, hls⟩
    rcases Layer.mem_ahead_setPc hb with rfl | hb
    · exact (hahead _ l.running_mem_ahead).trans_le hle
    · exact hahead b hb

end Nesting

theorem Activation.Settles.ascends {f : Function} {pc : UInt16} {n n' : Nesting}
    {events : List (Event p)} (h : Activation.Settles f pc n n' events) (hpc : n.running.pc = pc)
    (hlt : pc.toNat + 1 < UInt16.size) (hn : Nesting.Ascends n.body n.layers) :
    Nesting.Ascends n'.body n'.layers := by
  induction h with
  | switch => exact ⟨fun b hb => hn.1 b (List.mem_cons_of_mem _ hb), hn.2⟩
  | @resume body l ls hl hstop =>
    have hinner : (Nesting.running ⟨body, ls⟩).pc.toNat < pc.toNat := hpc ▸ hn.1 _ l.running_mem_ahead
    have hnext := toNat_add_one hlt
    exact Nesting.Ascends.setPc (n := ⟨body, ls⟩) hn.2 (by omega)
  | @cascade body l ls n' events hl hstop _ ih =>
    have hinner : (Nesting.running ⟨body, ls⟩).pc.toNat < pc.toNat := hpc ▸ hn.1 _ l.running_mem_ahead
    have hpc' : (Nesting.setPc pc ⟨body, ls⟩).running.pc = pc := by rw [Nesting.running_setPc]; rfl
    exact ih hpc' (Nesting.Ascends.setPc (n := ⟨body, ls⟩) hn.2 hinner.le)

theorem Nesting.GoesOn.ascends {f : Function} {n n' : Nesting} (h : Nesting.GoesOn (p := p) f n n')
    (hlt : n.running.pc.toNat + 1 < UInt16.size) (hn : Nesting.Ascends n.body n.layers) :
    Nesting.Ascends n'.body n'.layers := by
  cases h with
  | next =>
    have hnext := toNat_add_one hlt
    exact hn.setPc (by omega)
  | settle hsettles => exact hsettles.ascends rfl hlt hn

/-- A frame whose arms are behind their branches. -/
inductive Frame.Ascends : Frame → Prop
  | intro {index : UInt16} {f : Function} {id : ℕ} {n : Nesting} (hbody : n.body.stop = none)
      (h : Nesting.Ascends n.body n.layers) : Ascends (.ofNesting index f id n)

theorem Frame.ascends_ofFunction (index : UInt16) (f : Function) (id : ℕ) :
    Frame.Ascends (.ofFunction index f id) := by
  rw [Frame.ofFunction_eq_ofNesting]
  exact .intro rfl trivial

/-! ## The machine -/

section Machines

variable [Modulus p] {m m' : State σ p} {gs : List (List (Guard p))} {setup : Setup}

/-- **What a step does to the frames**: the topmost one stays or calls a function, or it returns and
its caller goes on. -/
inductive State.Moves (setup : Setup) (m : State σ p) : List Frame → Prop
  | stay {f g : Frame} {fs : List Frame} {number : ℕ} {b : Block} {i : Instruction}
      {t : Transition p} {s s' : Store σ p} {guards rest : List (Guard p)}
      (hitems : m.frames.items = f :: fs) (hf : f.Guarded guards)
      (hs : s.conditions = ⟨guards ++ rest, none⟩) (hb : f.running = .ok (number, b))
      (hi : f.function.code[b.pc.toNat]? = some i) (ht : Leads b i t)
      (henter : ∀ v, t = .exit (.conditional b.pc v) →
        m.unknown?.isSome = true ∧ setup.config.mode ≠ .witness)
      (hok : Activation.follow f number t ⟨f, s⟩ = .ok none ⟨g, s'⟩) : Moves setup m (g :: fs)
  | call {f : Function} (hf : f ∈ setup.program.functions) (index : UInt16) (id : ℕ) :
    Moves setup m (.ofFunction index f id :: m.frames.items)
  | ret {f g g' : Frame} {fs : List Frame} {s s' : Store σ p} {guards rest : List (Guard p)}
      (hitems : m.frames.items = f :: g :: fs) (hg : g.Guarded guards)
      (hs : s.conditions = ⟨guards ++ rest, none⟩)
      (hok : Activation.advance ⟨g, s⟩ = .ok () ⟨g', s'⟩) : Moves setup m (g' :: fs)

variable [Recorder σ p]

/-- **Every step moves frames** in one of these ways. -/
theorem State.Watched.moves (hw : m.Watched gs) (hm : State.step setup m = .ok false m') :
    State.Moves setup m m'.frames.items := by
  obtain ⟨s, fs, room⟩ := m
  have hguarded := hw.frames
  dsimp only at hguarded
  cases hguarded with
  | nil => cases hm
  | @cons f guards fs gs hf hfs =>
    obtain ⟨number, b, i, t, s₁, hb, hi, hp, hm⟩ := State.step_eq_ok hm
    have hleads := Block.perform_leads hp
    have hconds : s₁.conditions = ⟨guards ++ gs.flatten, none⟩ :=
      (Block.conditions_perform hp).trans hw.conditions
    have hw₁ : State.Watched ⟨s₁, ⟨f :: fs, room⟩⟩ (guards :: gs) := ⟨hconds, hw.frames⟩
    cases hfollow : Activation.follow f number t ⟨f, s₁⟩ with
    | error e a => rw [hfollow] at hm; cases hm
    | ok d a =>
      rw [hfollow] at hm
      cases d with
      | none =>
        cases hm
        refine .stay rfl hf hconds hb hi hleads (fun v hv => ?_) hfollow
        subst hv
        have hnext : State.instruction? ⟨s, ⟨f :: fs, room⟩⟩ = some i :=
          (State.instruction?_cons hb).trans hi
        obtain ⟨-, hunknown, hmode⟩ := State.unknown?_eq_some hnext hp
        exact ⟨by rw [hunknown]; rfl, hmode⟩
      | some d =>
        obtain ⟨rfl, rfl | ⟨index, rfl, -⟩⟩ := hleads.departs hfollow
        · obtain ⟨g, rest, s₂, g', s', rfl, hs₂, hadvance, rfl⟩ := hw₁.ret_eq_ok hm
          cases hfs with
          | cons hg hrest => exact .ret rfl hg (by rw [hs₂, List.flatten_cons]) hadvance
        · obtain ⟨u, m₁, hcall, hrest⟩ := bind_eq_ok hm
          cases hrest
          obtain ⟨k, hk, id, hitems⟩ := State.frames_call hcall
          rw [hitems]
          exact .call hk index id

/-! ## Branches that are not repeated -/

/-- A frame of a program that executes the arms of no branch twice. -/
def Frame.Unrepeated (m : Program) (f : Frame) : Prop :=
  f.function ∈ m.functions ∧ f.openBranches.Nodup

omit [Modulus p] [Recorder σ p] in
theorem Frame.unrepeated_ofFunction {m : Program} {k : Function} (hk : k ∈ m.functions)
    (index : UInt16) (id : ℕ) : Frame.Unrepeated m (.ofFunction index k id) :=
  ⟨hk, List.nodup_nil⟩

omit [Modulus p] [Recorder σ p] in
/-- **A step** repeats no branch, unless it enters one within its own arms. -/
theorem State.Moves.unrepeated {fs : List Frame} (h : State.Moves setup m fs)
    (hm : ∀ f ∈ m.frames.items, f.Unrepeated setup.program) (hfresh : ¬ m.Reenters) :
    ∀ f ∈ fs, f.Unrepeated setup.program := by
  cases h with
  | @stay f g fs number b i t s s' guards rest hitems hf hs hb hi ht henter hok =>
    rw [hitems] at hm
    obtain ⟨⟨hmem, hnodup⟩, hfs⟩ := List.forall_mem_cons.mp hm
    obtain ⟨hfunction, hopen⟩ := hf.openBranches_follow hs hb ht hok
    refine List.forall_mem_cons.mpr ⟨⟨hfunction ▸ hmem, ?_⟩, hfs⟩
    rcases hopen with hsuffix | ⟨heq, v, hv⟩
    · exact hnodup.sublist hsuffix.sublist
    · have htop : m.frames.top? = some f := by rw [BoundedStack.top?, hitems]; rfl
      rw [heq]
      exact List.nodup_cons.mpr
        ⟨fun hopen => hfresh ⟨(henter v hv).1, f, number, b, htop, hb, hopen⟩, hnodup⟩
  | call hf index id => exact List.forall_mem_cons.mpr ⟨Frame.unrepeated_ofFunction hf index id, hm⟩
  | ret hitems hg hs hok =>
    rw [hitems] at hm
    obtain ⟨-, hm⟩ := List.forall_mem_cons.mp hm
    obtain ⟨⟨hmem, hnodup⟩, hfs⟩ := List.forall_mem_cons.mp hm
    obtain ⟨hfunction, hsuffix⟩ := hg.openBranches_advance hs hok
    exact List.forall_mem_cons.mpr
      ⟨⟨hfunction ▸ hmem, hnodup.sublist hsuffix.sublist⟩, hfs⟩

variable {index : UInt16} {args : List (Scalar p)} {m₀ : State σ p}

/-- **No branch is repeated** in all states of an execution that enters none within its own arms. -/
theorem Reached.unrepeated (h : Reached setup index args m₀ m)
    (hfresh : ∀ m, Reached setup index args m₀ m → ¬ m.Reenters) :
    ∀ f ∈ m.frames.items, f.Unrepeated setup.program := by
  induction h with
  | @start f m he hm =>
    obtain ⟨⟨id, hitems⟩, -⟩ := State.start_still hm
    rw [hitems]
    exact List.forall_mem_singleton.mpr
      (Frame.unrepeated_ofFunction (State.eligible_mem he) index id)
  | @step m m' hr hm ih =>
    obtain ⟨gs, hw⟩ := hr.watched
    exact (hw.moves hm).unrepeated ih (hfresh m hr)

/-! ## Witnesses -/

omit [Modulus p] [Recorder σ p] in
/-- **A step of a witness** enters no arms. -/
theorem State.Moves.openBranches_eq_nil (hmode : setup.config.mode = .witness) {fs : List Frame}
    (h : State.Moves setup m fs) (hm : ∀ f ∈ m.frames.items, f.openBranches = []) :
    ∀ f ∈ fs, f.openBranches = [] := by
  cases h with
  | @stay f g fs number b i t s s' guards rest hitems hf hs hb hi ht henter hok =>
    rw [hitems] at hm
    obtain ⟨hnil, hfs⟩ := List.forall_mem_cons.mp hm
    obtain ⟨-, hopen⟩ := hf.openBranches_follow hs hb ht hok
    refine List.forall_mem_cons.mpr ⟨?_, hfs⟩
    rcases hopen with hsuffix | ⟨-, v, hv⟩
    · exact List.suffix_nil.mp (hnil ▸ hsuffix)
    · exact absurd hmode (henter v hv).2
  | call hf index id => exact List.forall_mem_cons.mpr ⟨rfl, hm⟩
  | ret hitems hg hs hok =>
    rw [hitems] at hm
    obtain ⟨-, hm⟩ := List.forall_mem_cons.mp hm
    obtain ⟨hnil, hfs⟩ := List.forall_mem_cons.mp hm
    obtain ⟨-, hsuffix⟩ := hg.openBranches_advance hs hok
    exact List.forall_mem_cons.mpr ⟨List.suffix_nil.mp (hnil ▸ hsuffix), hfs⟩

/-- **No branch is entered within its own arms** by a witness, which follows branches instead. -/
theorem Reached.not_reenters_witness (hmode : setup.config.mode = .witness)
    (h : Reached setup index args m₀ m) : ¬ m.Reenters := by
  have hnil : ∀ f ∈ m.frames.items, f.openBranches = [] := by
    induction h with
    | @start f m he hm =>
      obtain ⟨⟨id, hitems⟩, -⟩ := State.start_still hm
      rw [hitems]
      exact List.forall_mem_singleton.mpr rfl
    | @step m m' hr hm ih =>
      obtain ⟨gs, hw⟩ := hr.watched
      exact (hw.moves hm).openBranches_eq_nil hmode ih
  rintro ⟨-, f, number, b, htop, -, hopen⟩
  rw [hnil f (List.mem_of_mem_head? htop)] at hopen
  exact absurd hopen List.not_mem_nil

/-! ## Jumps that lead forward -/

omit [Modulus p] [Recorder σ p] in
/-- **A step** keeps arms behind their branches where all jumps lead forward. -/
theorem State.Moves.ascends (hprog : Program.BranchesForward setup.program) {cs : List ℕ} {room : ℕ}
    (hcosts : m.Costs setup cs room) {fs : List Frame} (h : State.Moves setup m fs)
    (hm : ∀ f ∈ m.frames.items, f.Ascends) : ∀ f ∈ fs, f.Ascends := by
  have hmem := hcosts.mem_program
  have hat {f : Frame} {b : Block} {i : Instruction} (hf : f ∈ m.frames.items)
      (hi : f.function.code[b.pc.toNat]? = some i) : b.pc.toNat + 1 < UInt16.size := by
    have hsize := (hprog _ (hmem f hf)).1
    have hpc := (Array.getElem?_eq_some_iff.mp hi).1
    exact show _ < 65536 by omega
  cases h with
  | @stay f g fs number b i t s s' guards rest hitems hf hs hb hi ht henter hok =>
    rw [hitems] at hm hmem
    obtain ⟨hascends, hfs⟩ := List.forall_mem_cons.mp hm
    have hk := hmem f List.mem_cons_self
    have hlt := hat (hitems ▸ List.mem_cons_self) hi
    obtain @⟨index, k, id, n, hbody, hn⟩ := hascends
    obtain ⟨n', rfl, hbody', hfollows⟩ := hf.follows hbody hs hb ht hok
    rw [Frame.running_ofNesting] at hb
    cases hb
    refine List.forall_mem_cons.mpr ⟨.intro hbody' ?_, hfs⟩
    cases hfollows with
    | goesOn hgoes => exact hgoes.ascends hlt hn
    | goto hjump =>
      obtain ⟨hpc, rfl⟩ := Array.getElem?_eq_some_iff.mp hi
      exact hn.setPc ((hprog k hk).2 _ hpc hjump).le
    | @enter bounds hbounds v =>
      obtain ⟨hfirst, hnext, hsecond⟩ := hprog.lt_of_armBounds hk hbounds
      refine ⟨fun b hb => ?_, hn⟩
      obtain ⟨⟨start, stop⟩, _ | ⟨start', stop'⟩⟩ := bounds
      · rw [List.mem_singleton.mp hb]
        exact hfirst
      · rcases List.mem_pair.mp hb with rfl | rfl
        · exact hfirst
        · exact Nat.lt_trans (hnext ▸ Nat.lt_succ_self _) (hsecond (start', stop') rfl)
  | call hf index id => exact List.forall_mem_cons.mpr ⟨Frame.ascends_ofFunction index _ id, hm⟩
  | @ret f g g' fs s s' guards rest hitems hg hs hok =>
    have hwaiting : g ∈ m.waiting := by rw [State.waiting, hitems]; exact List.mem_cons_self
    obtain ⟨number, b, i, hb, hi, -⟩ := hcosts.waiting g hwaiting
    have hlt := hat (List.mem_of_mem_tail hwaiting) hi
    rw [hitems] at hm
    obtain ⟨-, hm⟩ := List.forall_mem_cons.mp hm
    obtain ⟨hascends, hfs⟩ := List.forall_mem_cons.mp hm
    obtain @⟨index, k, id, n, hbody, hn⟩ := hascends
    obtain ⟨n', rfl, hbody', hgoes⟩ := hg.goesOn hbody hs hok
    rw [Frame.running_ofNesting] at hb
    cases hb
    exact List.forall_mem_cons.mpr ⟨.intro hbody' (hgoes.ascends hlt hn), hfs⟩

/-- **No branch is entered within its own arms** where all jumps lead forward. -/
theorem Reached.not_reenters (hprog : Program.BranchesForward setup.program)
    (h : Reached setup index args m₀ m) : ¬ m.Reenters := by
  have hascends : ∀ f ∈ m.frames.items, f.Ascends := by
    induction h with
    | @start f m he hm =>
      obtain ⟨⟨id, hitems⟩, -⟩ := State.start_still hm
      rw [hitems]
      exact List.forall_mem_singleton.mpr (Frame.ascends_ofFunction index f id)
    | @step m m' hr hm ih =>
      obtain ⟨gs, hw⟩ := hr.watched
      obtain ⟨cs, room, hcosts⟩ := hr.costs hprog
      exact (hw.moves hm).ascends hprog hcosts ih
  rintro ⟨-, f, number, b, htop, hb, hopen⟩
  obtain @⟨index, k, id, n, hbody, hn⟩ := hascends f (List.mem_of_mem_head? htop)
  rw [Frame.running_ofNesting] at hb
  cases hb
  rw [Frame.openBranches_ofNesting] at hopen
  exact absurd (hn.branches_lt _ hopen) (Nat.lt_irrefl _)

/-! ## Room for arms -/

omit [Modulus p] [Recorder σ p] in
theorem State.Watched.hasRoom (hw : m.Watched gs)
    (h : ∀ f ∈ m.frames.items, f.Unrepeated setup.program) :
    ∀ f ∈ m.frames.items, f.depth ≤ f.function.code.size ∧ f.suspended.room ≠ some 0 := by
  intro f hf
  obtain ⟨guards, hguarded⟩ := hw.guarded hf
  have hle := hguarded.depth_le_size (h f hf).2
  refine ⟨hle, ?_⟩
  rw [hguarded.room_eq, ne_eq, Option.some.injEq]
  omega

omit [Modulus p] [Recorder σ p] in
theorem State.not_blamed (hdefined : Program.IsDefined setup.program)
    (hmem : ∀ f ∈ m.frames.items, f.function ∈ setup.program.functions)
    (hroom : ∀ f ∈ m.frames.items, f.suspended.room ≠ some 0) : ¬ m.Blamed := by
  obtain ⟨s, _ | ⟨f, fs⟩, room⟩ := m
  · rintro (⟨i, n, hnext, -⟩ | ⟨-, f, htop, -⟩)
    · cases hnext
    · cases htop
  · rintro (⟨i, n, hnext, hop⟩ | ⟨-, g, htop, hfull⟩)
    · cases hb : f.running with
      | error e => simp [State.instruction?, BoundedStack.top?, hb, Except.toOption] at hnext
      | ok r =>
        rw [State.instruction?_cons hb] at hnext
        have hi := hdefined f.function (hmem f List.mem_cons_self) i (Array.mem_of_getElem? hnext)
        rw [hop] at hi
        simp [Opcode.defined] at hi
    · cases htop
      exact hroom f List.mem_cons_self hfull

/-- **Arms always fit into their frame** in executions that enter no branch within its own arms: the
depth of every frame is at most the number of instructions of its function, there is room for the
arms of one more branch, and no run of a program without undefined operations fails as if the machine
were in a state that it should not be in. -/
theorem depth_bounded (hdefined : Program.IsDefined setup.program)
    (hfresh : ∀ m, Reached setup index args m₀ m → ¬ m.Reenters) :
    (∀ m, Reached setup index args m₀ m → ∀ f ∈ m.frames.items,
      f.depth ≤ f.function.code.size ∧ f.suspended.room ≠ some 0) ∧
    ∀ fuel e m', State.run setup fuel index args m₀ = .error (.failure e) m' →
      e.status? ≠ some .shouldNotReachHere := by
  refine ⟨fun m hr => ?_, fun fuel e m' hm he => ?_⟩
  · obtain ⟨gs, hw⟩ := hr.watched
    exact hw.hasRoom (hr.unrepeated hfresh)
  · obtain ⟨m, hr, hstep⟩ := State.reached_of_run_error hm fun hregular => hregular he
    obtain ⟨gs, hw⟩ := hr.watched
    have hunrepeated := hr.unrepeated hfresh
    have hlawful := hw.step setup
    rw [hstep] at hlawful
    have hblamed := hlawful.resolve_left fun hregular => hregular he
    exact State.not_blamed hdefined (fun f hf => (hunrepeated f hf).1)
      (fun f hf => (hw.hasRoom hunrepeated f hf).2) hblamed

end Machines

/-- Arms within arms are no deeper than the code is long, and there is room for more. -/
theorem depth_bounded_squareUnless :
    Program.IsDefined (squareUnless .copyLoc).program ∧
    (∃ (m : State (System ScalarField.bn254.modulus) _) (f : Frame),
      Reached (squareUnless .copyLoc) 0 [] (.new (squareUnless .copyLoc)) m ∧
      m.frames.top? = some f ∧ f.depth = 2 ∧ f.depth ≤ f.function.code.size ∧
      f.suspended.room ≠ some 0) ∧
    ∀ (fuel : ℕ) (e : Failure) (m : State (System ScalarField.bn254.modulus) _),
      State.run (squareUnless .copyLoc) fuel 0 [] (.new (squareUnless .copyLoc)) =
        .error (.failure e) m → e.status? ≠ some .shouldNotReachHere := by
  have hdefined : Program.IsDefined (squareUnless .copyLoc).program := by decide
  have hforward : Program.BranchesForward (squareUnless .copyLoc).program := by decide
  have hfresh : ∀ m : State (System ScalarField.bn254.modulus) _,
      Reached (squareUnless .copyLoc) 0 [] (.new (squareUnless .copyLoc)) m → ¬ m.Reenters :=
    fun _ hr => hr.not_reenters hforward
  obtain ⟨hdepth, herror⟩ := depth_bounded hdefined hfresh
  refine ⟨hdefined, ?_, herror⟩
  have hcheck : (State.started? (p := ScalarField.bn254.modulus) (squareUnless .copyLoc) 0 []
      (.new (squareUnless .copyLoc))).any (fun m =>
        ((m.walk (squareUnless .copyLoc) 4).frames.top?).any fun f => f.depth = 2) = true := by
    decide +kernel
  simp only [Option.any_eq_true, decide_eq_true_eq] at hcheck
  obtain ⟨m, hm, f, htop, hf⟩ := hcheck
  obtain ⟨k, he, hs⟩ := State.started?_eq_some hm
  have hr := (Reached.start he hs).walk 4
  exact ⟨_, f, hr, htop, hf, hdepth _ hr f (List.mem_of_mem_head? htop)⟩

/-! ## Starting over until there is no room -/

/-- The shape of a circuit that counts down within an arm, and starts over at the branch on its first
parameter for each number. -/
def countDown : Setup :=
  .ofCode 2 0
    #[.ofNat .ldU8 16, .ofNat .stLoc 1, .ofNat .copyLoc 0, .ofNat .brTrue 5, .ofNat .branch 14,
      .ofNat .moveLoc 1, .ofNat .ldU8 1, .ofNat .sub 0, .ofNat .stLoc 1, .ofNat .copyLoc 1,
      .ofNat .ldU8 0, .ofNat .eq 0, .ofNat .brFalse 2, .ofNat .ret 0]

/-- Fifteen times there is room for the arm in a function of fourteen instructions, and then the run
fails as if the machine were in a state that it should not be in. -/
theorem not_bounded_countDown :
    Program.IsDefined countDown.program ∧
    (∃ (m : State (System ScalarField.bn254.modulus) _) (f : Frame),
      Reached countDown 0 [] (.new countDown) m ∧ m.frames.top? = some f ∧
      f.function.code.size < f.depth ∧ f.suspended.room = some 0) ∧
    ∃ (fuel : ℕ) (e : Failure) (m : State (System ScalarField.bn254.modulus) _),
      State.run countDown fuel 0 [] (.new countDown) = .error (.failure e) m ∧
      e.status? = some .shouldNotReachHere := by
  refine ⟨by decide, ?_, ?_⟩
  · have hcheck : (State.started? (p := ScalarField.bn254.modulus) countDown 0 []
        (.new countDown)).any (fun m => ((m.walk countDown 153).frames.top?).any fun f =>
          f.function.code.size < f.depth && f.suspended.room = some 0) = true := by
      decide +kernel
    simp only [Option.any_eq_true, Bool.and_eq_true, decide_eq_true_eq] at hcheck
    obtain ⟨m, hm, f, htop, hdepth, hroom⟩ := hcheck
    obtain ⟨k, he, hs⟩ := State.started?_eq_some hm
    exact ⟨_, f, (Reached.start he hs).walk 153, htop, hdepth, hroom⟩
  · have hcheck : isBlaming (State.run (p := ScalarField.bn254.modulus) countDown 160 0 []
        (.new countDown)) = true := by
      decide +kernel
    unfold isBlaming at hcheck
    split at hcheck
    · rename_i e m hrun
      exact ⟨160, e, m, hrun, of_decide_eq_true hcheck⟩
    · cases hcheck

end StackCircuit.Machine
