import Mathlib.Algebra.GroupWithZero.Nat
import StackCircuit.Proofs.Machine.Keeps

/-!
# Layers of arms

A frame keeps the blocks of all arms under execution in one array, and refers to them by number.
Seen from outside it is simpler: the body of the function, and one layer for each conditional branch
whose arms are under execution.

* `Layer`: the arms of one branch, of which one is running.
* `Nesting`: the body with the layers around the running block, the innermost first.
* **`Frame.ofNesting`**: the frame of a nesting.
* `Frame.running_ofNesting`, `Frame.setBlockPc_ofNesting`, `Frame.arms_ofNesting`: what the
  operations of a frame do to the nesting.
-/

namespace StackCircuit.Machine

open Bytecode (Function)

/-- A block that ends right before a position. -/
def Block.EndsAt (b : Block) (q : ℕ) : Prop := ∃ stop, b.stop = some stop ∧ stop.toNat + 1 = q

/-! ## Layers -/

/-- The arms of a conditional branch under execution. -/
inductive Layer where
  | only (arm : Block)
  | first (arm other : Block)
  | second (other arm : Block)
deriving DecidableEq, Repr

namespace Layer

/-- The blocks of both arms. -/
def blocks : Layer → List Block
  | only b => [b]
  | first b b' => [b, b']
  | second b b' => [b, b']

/-- The arms, where the first block has a given number. -/
def arms (n : ℕ) : Layer → Conditional
  | only _ => .onTrue ⟨n, true⟩
  | first _ _ => .both ⟨n, true⟩ ⟨n + 1, false⟩
  | second _ _ => .both ⟨n, false⟩ ⟨n + 1, true⟩

/-- The running block. -/
def running : Layer → Block
  | only b => b
  | first b _ => b
  | second _ b => b

/-- The position of the running block among the blocks. -/
def offset : Layer → ℕ
  | second _ _ => 1
  | _ => 0

/-- The layer with the counter of the running block elsewhere. -/
def setPc (pc : UInt16) : Layer → Layer
  | only b => only (b.setPc pc)
  | first b b' => first (b.setPc pc) b'
  | second b b' => second b (b'.setPc pc)

/-- Whether the running arm is the last one. -/
def isLast : Layer → Bool
  | first _ _ => false
  | _ => true

/-- The layer of arms with given bounds, of which the first is running. -/
def ofBounds (id : ℕ) : (UInt16 × UInt16) × Option (UInt16 × UInt16) → Layer
  | ((start, stop), none) => only (.ofStart start (some stop) id)
  | ((start, stop), some (start', stop')) =>
    first (.ofStart start (some stop) id) (.ofStart start' (some stop') id)

theorem arms_setPc (l : Layer) (pc : UInt16) (n : ℕ) : (l.setPc pc).arms n = l.arms n := by
  cases l <;> rfl

theorem running_setPc (l : Layer) (pc : UInt16) : (l.setPc pc).running = l.running.setPc pc := by
  cases l <;> rfl

theorem running?_arms (l : Layer) (n : ℕ) : (l.arms n).running? = some (n + l.offset) := by
  cases l <;> rfl

theorem firstBlock_arms (l : Layer) (n : ℕ) : (l.arms n).firstBlock = n := by
  cases l with
  | only b => rfl
  | first b b' => exact Nat.min_eq_left (Nat.le_succ n)
  | second b b' => exact Nat.min_eq_left (Nat.le_succ n)

theorem getElem?_blocks (l : Layer) : l.blocks[l.offset]? = some l.running := by
  cases l <;> rfl

theorem modify_blocks (l : Layer) (pc : UInt16) :
    l.blocks.modify l.offset (·.setPc pc) = (l.setPc pc).blocks := by
  cases l <;> rfl

end Layer

/-! ## Nestings -/

/-- The body of a function with the layers of arms under execution, the innermost first. -/
structure Nesting where
  body : Block
  layers : List Layer
deriving DecidableEq, Repr

namespace Nesting

/-- The blocks of a body and of layers. -/
def arena (body : Block) : List Layer → List Block
  | [] => [body]
  | l :: ls => arena body ls ++ l.blocks

/-- The program block of the innermost layer. -/
def program (body : Block) : List Layer → ProgramBlock
  | [] => .simple 0
  | l :: ls => .conditional (l.arms (arena body ls).length)

/-- The program blocks of the layers around the innermost one. -/
def waiting (body : Block) : List Layer → List ProgramBlock
  | [] => []
  | _ :: ls => program body ls :: waiting body ls

/-- The running block. -/
def running : Nesting → Block
  | ⟨body, []⟩ => body
  | ⟨_, l :: _⟩ => l.running

/-- The number of the running block. -/
def number : Nesting → ℕ
  | ⟨_, []⟩ => 0
  | ⟨body, l :: ls⟩ => (arena body ls).length + l.offset

/-- The nesting with the counter of the running block elsewhere. -/
def setPc (pc : UInt16) : Nesting → Nesting
  | ⟨body, []⟩ => ⟨body.setPc pc, []⟩
  | ⟨body, l :: ls⟩ => ⟨body, l.setPc pc :: ls⟩

/-- The nesting with a new innermost layer. -/
def enter (l : Layer) (n : Nesting) : Nesting := ⟨n.body, l :: n.layers⟩

variable {n : Nesting} {pc : UInt16}

theorem length_waiting (body : Block) (ls : List Layer) :
    (waiting body ls).length = ls.length := by
  induction ls with
  | nil => rfl
  | cons l ls ih => rw [waiting, List.length_cons, List.length_cons, ih]

theorem running?_program (n : Nesting) : (program n.body n.layers).running? = some n.number := by
  obtain ⟨body, ls⟩ := n
  cases ls with
  | nil => rfl
  | cons l ls => exact l.running?_arms _

theorem getElem?_arena (n : Nesting) : (arena n.body n.layers)[n.number]? = some n.running := by
  obtain ⟨body, ls⟩ := n
  cases ls with
  | nil => rfl
  | cons l ls =>
    rw [arena, number, List.getElem?_append_right (Nat.le_add_right _ _), Nat.add_sub_cancel_left]
    exact l.getElem?_blocks

theorem running_setPc (n : Nesting) (pc : UInt16) : (n.setPc pc).running = n.running.setPc pc := by
  obtain ⟨body, ls⟩ := n
  cases ls with
  | nil => rfl
  | cons l ls => exact l.running_setPc pc

theorem length_layers_setPc (n : Nesting) (pc : UInt16) :
    (n.setPc pc).layers.length = n.layers.length := by
  obtain ⟨body, ls⟩ := n
  cases ls <;> rfl

theorem stop_body_setPc (n : Nesting) (pc : UInt16) : (n.setPc pc).body.stop = n.body.stop := by
  obtain ⟨body, ls⟩ := n
  cases ls <;> rfl

theorem modify_append (bs bs' : List Block) (i : ℕ) (g : Block → Block) :
    (bs ++ bs').modify (bs.length + i) g = bs ++ bs'.modify i g := by
  induction bs with
  | nil => rw [List.nil_append, List.nil_append, List.length_nil, Nat.zero_add]
  | cons b bs ih =>
    rw [List.cons_append, List.length_cons, Nat.succ_add, List.modify_succ_cons, ih,
      List.cons_append]

theorem modify_arena (n : Nesting) (pc : UInt16) :
    (arena n.body n.layers).modify n.number (·.setPc pc) =
      arena (n.setPc pc).body (n.setPc pc).layers := by
  obtain ⟨body, ls⟩ := n
  cases ls with
  | nil => rfl
  | cons l ls =>
    change (arena body ls ++ l.blocks).modify _ _ = arena body ls ++ (l.setPc pc).blocks
    rw [number, modify_append, l.modify_blocks]

theorem program_setPc (n : Nesting) (pc : UInt16) :
    program (n.setPc pc).body (n.setPc pc).layers = program n.body n.layers := by
  obtain ⟨body, ls⟩ := n
  cases ls with
  | nil => rfl
  | cons l ls => exact congrArg ProgramBlock.conditional (l.arms_setPc pc _)

theorem waiting_setPc (n : Nesting) (pc : UInt16) :
    waiting (n.setPc pc).body (n.setPc pc).layers = waiting n.body n.layers := by
  obtain ⟨body, ls⟩ := n
  cases ls <;> rfl

end Nesting

/-! ## Frames -/

namespace Frame

/-- **The frame of a nesting.** -/
def ofNesting (index : UInt16) (function : Function) (localsId : ℕ) (n : Nesting) : Frame :=
  { index, function, localsId
    blocks := (Nesting.arena n.body n.layers).toArray
    current := Nesting.program n.body n.layers
    suspended :=
      ⟨Nesting.waiting n.body n.layers, some (function.code.size + 1 - n.layers.length)⟩ }

variable {index : UInt16} {f : Function} {id : ℕ} {n : Nesting}

theorem ofFunction_eq_ofNesting (index : UInt16) (f : Function) (id : ℕ) :
    ofFunction index f id = ofNesting index f id ⟨.ofStart 0 none id, []⟩ := by
  rfl

theorem depth_ofNesting : (ofNesting index f id n).depth = n.layers.length :=
  Nesting.length_waiting n.body n.layers

theorem running_ofNesting : (ofNesting index f id n).running = .ok (n.number, n.running) := by
  have hblock : (Nesting.arena n.body n.layers).toArray[n.number]? = some n.running := by
    rw [List.getElem?_toArray]
    exact n.getElem?_arena
  simp only [running, ofNesting, n.running?_program, hblock]

theorem setBlockPc_ofNesting (pc : UInt16) :
    (ofNesting index f id n).setBlockPc n.number pc = ofNesting index f id (n.setPc pc) := by
  simp only [setBlockPc, ofNesting, List.modify_toArray, n.modify_arena, n.program_setPc,
    n.waiting_setPc, n.length_layers_setPc]

theorem arms_ofNesting {pc : UInt16} {bounds : (UInt16 × UInt16) × Option (UInt16 × UInt16)}
    (h : armBounds f pc = .ok bounds) :
    (ofNesting index f id n).arms pc =
      .ok ((Layer.ofBounds id bounds).arms (Nesting.arena n.body n.layers).length,
        { ofNesting index f id n with
          blocks := (Nesting.arena n.body n.layers ++ (Layer.ofBounds id bounds).blocks).toArray }) := by
  obtain ⟨⟨start, stop⟩, second⟩ := bounds
  cases second with
  | none => simp [arms, ofNesting, h, Layer.ofBounds, Layer.arms, Layer.blocks]
  | some second => simp [arms, ofNesting, h, Layer.ofBounds, Layer.arms, Layer.blocks]

end Frame

/-! ## The journal and the guards -/

section Store

variable {σ : Type} {p : ℕ}

/-- The store with one more event in the journal. -/
def Store.withEvent (s : Store σ p) (e : Event p) : Store σ p :=
  { s with ledger := ⟨s.ledger.recorder, s.ledger.journal.push e⟩ }

/-- The store with other guards, without a bound. -/
def Store.withGuards (s : Store σ p) (guards : List (Guard p)) : Store σ p :=
  { s with conditions := ⟨guards, none⟩ }

theorem Store.note_eq (s : Store σ p) (e : Event p) : Store.note e s = .ok () (s.withEvent e) := rfl

variable {s : Store σ p} {guards : List (Guard p)}

theorem Store.pushGuard_eq (hs : s.conditions = ⟨guards, none⟩) (g : Guard p) :
    Store.pushGuard g s = .ok () (s.withGuards (g :: guards)) := by
  simp only [pushGuard, BoundedStack.push, hs, withGuards]

theorem Store.popGuard_eq {g : Guard p} (hs : s.conditions = ⟨g :: guards, none⟩) :
    Store.popGuard s = .ok () (s.withGuards guards) := by
  simp only [popGuard, BoundedStack.pop, hs, withGuards, Option.map_none]

theorem Store.flipGuard_eq {g : Guard p} (hs : s.conditions = ⟨g :: guards, none⟩) :
    Store.flipGuard s = .ok () (s.withGuards (g.flip :: guards)) := by
  simp only [flipGuard, BoundedStack.top?, hs, List.head?_cons, BoundedStack.setTop, withGuards]

theorem Store.popGuards_eq {k : ℕ} (hs : s.conditions = ⟨guards, none⟩)
    (hk : k ≤ guards.length) :
    Store.popGuards k s = .ok () (s.withGuards (guards.drop k)) := by
  induction k generalizing s guards with
  | zero =>
    obtain ⟨ledger, stack, locals, conditions, steps⟩ := s
    cases hs
    rfl
  | succ k ih =>
    obtain _ | ⟨g, guards⟩ := guards
    · exact absurd hk (by simp)
    simp only [popGuards, bind, EStateM.bind, popGuard_eq hs]
    exact ih rfl (Nat.le_of_succ_le_succ hk)

end Store

/-! ## Entering arms -/

namespace Activation

variable {σ : Type} {p : ℕ} {index : UInt16} {f : Function} {id : ℕ} {n : Nesting} {s : Store σ p}
  {guards : List (Guard p)} {pc : UInt16}

theorem suspend_ofNesting (hn : n.layers.length ≤ f.code.size) (l : Layer) :
    (Frame.ofNesting index f id n).suspended.push (Frame.ofNesting index f id n).current =
      .ok (Frame.ofNesting index f id (n.enter l)).suspended := by
  have hroom : f.code.size + 1 - n.layers.length = f.code.size - n.layers.length + 1 := by omega
  have hroom' : f.code.size + 1 - (n.layers.length + 1) = f.code.size - n.layers.length := by omega
  simp only [Frame.ofNesting, BoundedStack.push, Nesting.enter, List.length_cons, hroom, hroom']
  rfl

/-- **Entering arms** adds a layer and a guard. -/
theorem materialise_ofNesting {cond : Value p}
    {bounds : (UInt16 × UInt16) × Option (UInt16 × UInt16)}
    (h : Frame.armBounds f pc = .ok bounds) (hs : s.conditions = ⟨guards, none⟩)
    (hn : n.layers.length ≤ f.code.size) :
    materialise pc cond ⟨.ofNesting index f id n, s⟩ =
      .ok () ⟨.ofNesting index f id (n.enter (.ofBounds id bounds)),
        (s.withEvent (.materialise f.name pc (n.layers.length + 1))).withGuards
          (⟨cond, (f.code[pc.toNat]?).any (·.opcode = .brFalse)⟩ :: guards)⟩ := by
  have hguard (e : Event p) := Store.pushGuard_eq (s := s.withEvent e) hs
  have hdepth : (Frame.ofNesting index f id n).depth = n.layers.length := Frame.depth_ofNesting
  simp only [materialise, prepare, bind, EStateM.bind, ofFrame, Frame.arms_ofNesting h, setFrame,
    getFrame, pure, EStateM.pure, onStore, Store.note_eq, hguard,
    suspend_ofNesting hn (.ofBounds id bounds)]
  rw [← hdepth]
  rfl

/-! ## Leaving arms -/

/-- What the end of arms at a position does to a nesting, with the events that are noted. -/
inductive Settles (f : Function) (pc : UInt16) : Nesting → Nesting → List (Event p) → Prop
  -- The second arm starts.
  | switch {body b b' : Block} {ls : List Layer} :
    Settles f pc ⟨body, .first b b' :: ls⟩ ⟨body, .second b b' :: ls⟩ [.switchArm f.name pc]
  -- The block around the arms resumes behind them.
  | resume {body : Block} {l : Layer} {ls : List Layer} (hl : l.isLast = true)
      (hstop : (Nesting.running ⟨body, ls⟩).stop ≠ some pc) :
    Settles f pc ⟨body, l :: ls⟩ (Nesting.setPc (pc + 1) ⟨body, ls⟩) [.merge f.name pc ls.length]
  -- The block around the arms ends as well.
  | cascade {body : Block} {l : Layer} {ls : List Layer} {n' : Nesting} {events : List (Event p)}
      (hl : l.isLast = true) (hstop : (Nesting.running ⟨body, ls⟩).stop = some pc)
      (h : Settles f pc (Nesting.setPc pc ⟨body, ls⟩) n' events) :
    Settles f pc ⟨body, l :: ls⟩ n' (.merge f.name pc ls.length :: events)

theorem Settles.stop_body {n' : Nesting} {events : List (Event p)} (h : Settles f pc n n' events)
    (hbody : n.body.stop = none) : n'.body.stop = none := by
  induction h with
  | switch => exact hbody
  | resume => exact (Nesting.stop_body_setPc _ _).trans hbody
  | cascade _ _ _ ih => exact ih ((Nesting.stop_body_setPc _ _).trans hbody)

theorem resume_ofNesting {body : Block} {l : Layer} {ls : List Layer}
    (hn : ls.length ≤ f.code.size) :
    (Frame.ofNesting index f id ⟨body, l :: ls⟩).suspended.pop =
      .ok (Nesting.program body ls, (Frame.ofNesting index f id ⟨body, ls⟩).suspended) := by
  have hroom : f.code.size + 1 - (ls.length + 1) + 1 = f.code.size + 1 - ls.length := by omega
  simp only [Frame.ofNesting, Nesting.waiting, BoundedStack.pop, List.length_cons, Option.map_some,
    hroom]

theorem merge_ofNesting {body : Block} {l : Layer} {ls : List Layer} {g : Guard p}
    (hs : s.conditions = ⟨g :: guards, none⟩) (hn : ls.length ≤ f.code.size) :
    merge pc (l.arms (Nesting.arena body ls).length) ⟨.ofNesting index f id ⟨body, l :: ls⟩, s⟩ =
      .ok () ⟨.ofNesting index f id ⟨body, ls⟩,
        (s.withGuards guards).withEvent (.merge f.name pc ls.length)⟩ := by
  have hsize : (Frame.ofNesting index f id ⟨body, ls⟩).suspended.size = ls.length :=
    Nesting.length_waiting body ls
  have hblocks : (Frame.ofNesting index f id ⟨body, l :: ls⟩).blocks.take
      (Nesting.arena body ls).length = (Nesting.arena body ls).toArray := by
    simp only [Frame.ofNesting, Nesting.arena, List.take_toArray, List.take_left]
  simp only [merge, bind, EStateM.bind, getFrame, resume_ofNesting hn, setFrame, onStore,
    Store.popGuard_eq hs, Store.note_eq, l.firstBlock_arms, hblocks, hsize]
  rfl

theorem afterArm_of_isLast {l : Layer} (hl : l.isLast = true) (k : ℕ) :
    (l.arms k).afterArm = .done := by
  cases l with
  | only b => rfl
  | first b b' => cases hl
  | second b b' => rfl

theorem endArms_first {body b b' : Block} {ls : List Layer} {g : Guard p} (rounds : ℕ)
    (hs : s.conditions = ⟨g :: guards, none⟩) :
    endArms pc (rounds + 1) ⟨.ofNesting index f id ⟨body, .first b b' :: ls⟩, s⟩ =
      .ok () ⟨.ofNesting index f id ⟨body, .second b b' :: ls⟩,
        (s.withEvent (.switchArm f.name pc)).withGuards (g.flip :: guards)⟩ := by
  have hcurrent : (Frame.ofNesting index f id ⟨body, .first b b' :: ls⟩).current.conditional? =
      some (Layer.arms (Nesting.arena body ls).length (.first b b')) := rfl
  have hafter : (Layer.arms (Nesting.arena body ls).length (.first b b')).afterArm =
      .second (Layer.arms (Nesting.arena body ls).length (.second b b')) := rfl
  have hflip (e : Event p) := Store.flipGuard_eq (s := s.withEvent e) hs
  simp only [endArms, bind, EStateM.bind, getFrame, hcurrent, hafter, setFrame, onStore,
    Store.note_eq, hflip]
  rfl

theorem endArms_last {body : Block} {l : Layer} {ls : List Layer} {g : Guard p} (rounds : ℕ)
    (hl : l.isLast = true) (hs : s.conditions = ⟨g :: guards, none⟩)
    (hn : ls.length ≤ f.code.size) :
    endArms pc (rounds + 1) ⟨.ofNesting index f id ⟨body, l :: ls⟩, s⟩ =
      let s' := (s.withGuards guards).withEvent (.merge f.name pc ls.length)
      if (Nesting.running ⟨body, ls⟩).stop = some pc then
        endArms pc rounds ⟨.ofNesting index f id (Nesting.setPc pc ⟨body, ls⟩), s'⟩
      else .ok () ⟨.ofNesting index f id (Nesting.setPc (pc + 1) ⟨body, ls⟩), s'⟩ := by
  have hcurrent : (Frame.ofNesting index f id ⟨body, l :: ls⟩).current.conditional? =
      some (l.arms (Nesting.arena body ls).length) := rfl
  simp only [endArms, bind, EStateM.bind, getFrame, hcurrent, afterArm_of_isLast hl,
    merge_ofNesting hs hn, ofFrame, Frame.running_ofNesting, Frame.setBlockPc_ofNesting]
  by_cases hstop : (Nesting.running ⟨body, ls⟩).stop = some pc
  · simp only [if_pos hstop]
    rfl
  · simp only [if_neg hstop]
    rfl

/-- **Leaving an arm**: either the second one starts, or the layer goes, with those around it that
end at the same position. -/
theorem endArms_ofNesting (index : UInt16) (f : Function) (id : ℕ) (pc : UInt16) {rounds : ℕ}
    (hs : s.conditions = ⟨guards, none⟩)
    (hlayers : n.layers ≠ []) (hguards : n.layers.length ≤ guards.length)
    (hrounds : n.layers.length ≤ rounds) (hbody : n.body.stop = none)
    (hn : n.layers.length ≤ f.code.size + 1) :
    ∃ n' events s', endArms pc rounds ⟨.ofNesting index f id n, s⟩ =
        .ok () ⟨.ofNesting index f id n', s'⟩ ∧ Settles f pc n n' events ∧ s'.core = s.core ∧
      s'.ledger.journal.toList = s.ledger.journal.toList ++ events ∧
      ∃ guards', s'.conditions = ⟨guards', none⟩ ∧
        guards'.length + n.layers.length = guards.length + n'.layers.length := by
  induction rounds generalizing n s guards with
  | zero => exact absurd (List.eq_nil_of_length_eq_zero (Nat.le_zero.mp hrounds)) hlayers
  | succ rounds ih =>
    obtain ⟨body, _ | ⟨l, ls⟩⟩ := n
    · exact absurd rfl hlayers
    obtain _ | ⟨g, guards⟩ := guards
    · exact absurd hguards (by simp)
    simp only [List.length_cons] at hguards hrounds hn
    cases hl : l.isLast with
    | false =>
      obtain ⟨b, b', rfl⟩ : ∃ b b', l = .first b b' := by
        cases l with
        | only b => cases hl
        | first b b' => exact ⟨b, b', rfl⟩
        | second b b' => cases hl
      exact ⟨_, _, _, endArms_first rounds hs, .switch, rfl, Array.toList_push, _, rfl, rfl⟩
    | true =>
      rw [endArms_last rounds hl hs (by omega)]
      by_cases hstop : (Nesting.running ⟨body, ls⟩).stop = some pc
      · have hne : ls ≠ [] := by
          rintro rfl
          exact absurd (hbody.symm.trans hstop) (by simp)
        have hlen : (Nesting.setPc pc ⟨body, ls⟩).layers.length = ls.length :=
          Nesting.length_layers_setPc _ _
        have hne' : (Nesting.setPc pc ⟨body, ls⟩).layers ≠ [] := by
          rw [← List.length_pos_iff, hlen]
          exact List.length_pos_iff.mpr hne
        let s₁ := (s.withGuards guards).withEvent (.merge f.name pc ls.length)
        obtain ⟨n', events, s', hend, hset, hcore, hjournal, guards', hs', hcount⟩ :=
          ih (s := s₁) rfl hne' (by omega) (by omega)
            ((Nesting.stop_body_setPc _ _).trans hbody) (by omega)
        simp only [if_pos hstop]
        refine ⟨n', _, s', hend, .cascade hl hstop hset, hcore, ?_, guards', hs', ?_⟩
        · rw [hjournal, List.append_cons]
          exact congrArg (· ++ events) Array.toList_push
        · simp only [List.length_cons]
          omega
      · simp only [if_neg hstop]
        refine ⟨_, _, _, rfl, .resume hl hstop, rfl, Array.toList_push, guards, rfl, ?_⟩
        simp only [Nesting.length_layers_setPc, List.length_cons]
        omega

/-- **Going on to the next instruction**, or leaving the arm behind its last one. -/
theorem advance_ofNesting (s : Store σ p) :
    advance ⟨.ofNesting index f id n, s⟩ =
      if n.running.atEnd then
        endArms n.running.pc (n.layers.length + 1) ⟨.ofNesting index f id n, s⟩
      else .ok () ⟨.ofNesting index f id (n.setPc (n.running.pc + 1)), s⟩ := by
  have hdepth : (Frame.ofNesting index f id n).depth = n.layers.length := Frame.depth_ofNesting
  simp only [advance, bind, EStateM.bind, getFrame, ofFrame, Frame.running_ofNesting,
    Frame.setBlockPc_ofNesting, endArm]
  by_cases hend : n.running.atEnd = true
  · simp only [if_pos hend]
    rw [← hdepth]
    rfl
  · simp only [if_neg hend]
    rfl

end Activation

end StackCircuit.Machine
