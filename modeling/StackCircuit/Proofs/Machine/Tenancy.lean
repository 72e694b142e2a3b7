import StackCircuit.Proofs.Machine.Guards
import StackCircuit.Proofs.Machine.Safe
import StackCircuit.Proofs.Machine.Start
import StackCircuit.Proofs.Machine.Uniform

/-!
# Locals and the functions they belong to

Every function under execution has locals of its own. Identifiers are used again when they have been
given back, and never before.

* `LocalsTable.Houses`: the identifiers in use, each with its number of slots, apart from each other
  and from those to use again.
* `Store.Serves`: a store in which a function works on its own locals, and those of all others are
  as they were; `works_serves`: the effects of instructions keep this.
* **`State.Orderly`**: the locals in use are those of the frames, and no invalid value is on the
  stack.
* `State.Proceeds`: what a step leaves in order; **`State.Orderly.step`**: it does so however it ends.
-/

namespace StackCircuit.Machine

open Bytecode (Function Instruction)
open Circuit (Recorder)

variable {σ : Type} {p : ℕ}

/-! ## The table -/

namespace LocalsTable

variable {t : LocalsTable p} {id id' n j : ℕ} {tenants : List (ℕ × ℕ)} {v : Value p}

/-- **The identifiers in use**, each with the number of slots behind it: no identifier is used twice,
and all others can be used again. -/
structure Houses (t : LocalsTable p) (tenants : List (ℕ × ℕ)) : Prop where
  nodup : (tenants.map Prod.fst).Nodup
  slots : ∀ x ∈ tenants, ∃ slots, t.slots x.1 = .ok slots ∧ slots.size = x.2
  nodup_free : t.free.Nodup
  absent : ∀ id ∈ t.free, t.slots id = .error .absent
  size : t.entries.size = tenants.length + t.free.length

theorem slots_set_ne (h : id' ≠ id) (slots? : Option (Slots p)) (free : List ℕ) :
    slots ⟨t.entries.setIfInBounds id slots?, free⟩ id' = t.slots id' := by
  unfold slots
  rw [Array.getElem?_setIfInBounds, if_neg h.symm]

theorem slots_write_ne (h : id' ≠ id) : (t.write id j v).slots id' = t.slots id' := by
  unfold slots write
  rw [Array.getElem?_modify, if_neg h.symm]

theorem lt_size_of_slots {slots : Slots p} (h : t.slots id = .ok slots) : id < t.entries.size :=
  (Array.getElem?_eq_some_iff.mp (slots_eq_ok.mp h)).1

theorem lt_size_of_absent (h : t.slots id = .error .absent) : id < t.entries.size := by
  unfold slots at h
  cases he : t.entries[id]? with
  | none => rw [he] at h; cases h
  | some slots? => exact (Array.getElem?_eq_some_iff.mp he).1

theorem slots_alloc_ne (h : id ≠ (t.alloc n).1) : (t.alloc n).2.slots id = t.slots id := by
  unfold alloc at h ⊢
  cases hfree : t.free with
  | nil =>
    rw [hfree] at h
    simp only [slots, Array.getElem?_push, if_neg h]
  | cons id' rest =>
    rw [hfree] at h
    exact slots_set_ne h _ _

namespace Houses

theorem slots_new (h : t.Houses tenants) (n : ℕ) (slots : Slots p) :
    t.slots (t.alloc n).1 ≠ .ok slots := by
  intro hslots
  unfold alloc at hslots
  cases hfree : t.free with
  | nil =>
    rw [hfree] at hslots
    exact Nat.lt_irrefl _ (lt_size_of_slots hslots)
  | cons id rest =>
    rw [hfree] at hslots
    have habsent := h.absent id (hfree ▸ List.mem_cons_self)
    exact nomatch habsent.symm.trans hslots

theorem slots_alloc (h : t.Houses tenants) (n : ℕ) :
    (t.alloc n).2.slots (t.alloc n).1 = .ok (Array.replicate n .invalid) := by
  rw [slots_eq_ok]
  unfold alloc
  cases hfree : t.free with
  | nil => exact Array.getElem?_push_size
  | cons id rest =>
    have hlt := lt_size_of_absent (h.absent id (hfree ▸ List.mem_cons_self))
    dsimp only
    rw [Array.getElem?_setIfInBounds, if_pos rfl, if_pos hlt]

theorem ne_new (h : t.Houses tenants) (n : ℕ) {x : ℕ × ℕ} (hx : x ∈ tenants) :
    x.1 ≠ (t.alloc n).1 := by
  intro heq
  obtain ⟨slots, hslots, -⟩ := h.slots x hx
  exact h.slots_new n slots (heq ▸ hslots)

/-- **A new identifier** is taken into use. -/
theorem alloc (h : t.Houses tenants) (n : ℕ) :
    (t.alloc n).2.Houses (((t.alloc n).1, n) :: tenants) := by
  refine ⟨?_, ?_, ?_, ?_, ?_⟩
  · rw [List.map_cons, List.nodup_cons]
    refine ⟨fun hmem => ?_, h.nodup⟩
    obtain ⟨x, hx, heq⟩ := List.mem_map.mp hmem
    exact h.ne_new n hx heq
  · refine List.forall_mem_cons.mpr ⟨⟨_, h.slots_alloc n, Array.size_replicate⟩, fun x hx => ?_⟩
    rw [slots_alloc_ne (h.ne_new n hx)]
    exact h.slots x hx
  · unfold LocalsTable.alloc
    have hfree := h.nodup_free
    cases ht : t.free with
    | nil => exact List.nodup_nil
    | cons id rest => rw [ht] at hfree; exact (List.nodup_cons.mp hfree).2
  · intro id hid
    -- What can still be used again is not the new identifier.
    have hold : id ∈ t.free ∧ id ≠ (t.alloc n).1 := by
      unfold LocalsTable.alloc at hid ⊢
      have hfree := h.nodup_free
      cases ht : t.free with
      | nil => rw [ht] at hid; cases hid
      | cons id' rest =>
        rw [ht] at hid hfree
        refine ⟨List.mem_cons_of_mem _ hid, ?_⟩
        rintro rfl
        exact (List.nodup_cons.mp hfree).1 hid
    rw [slots_alloc_ne hold.2]
    exact h.absent id hold.1
  · have hsize := h.size
    unfold LocalsTable.alloc
    cases ht : t.free with
    | nil =>
      rw [ht] at hsize
      simp only [Array.size_push, List.length_cons, hsize]
      omega
    | cons id rest =>
      rw [ht] at hsize
      simp only [Array.size_setIfInBounds, List.length_cons, hsize]
      omega

theorem knows {x : ℕ × ℕ} (h : t.Houses tenants) (hx : x ∈ tenants) : t.knows x.1 = true := by
  obtain ⟨slots, hslots, -⟩ := h.slots x hx
  exact decide_eq_true (lt_size_of_slots hslots)

/-- **An identifier that is given back** is not in use any more. -/
theorem release {x : ℕ × ℕ} (h : t.Houses (x :: tenants)) :
    ∃ t', t.release x.1 = .ok t' ∧ t'.Houses tenants ∧
      ∀ id, id ≠ x.1 → t'.slots id = t.slots id := by
  obtain ⟨slots, hslots, -⟩ := h.slots x List.mem_cons_self
  have hlt := lt_size_of_slots hslots
  have hnodup := List.nodup_cons.mp h.nodup
  unfold LocalsTable.release
  rw [if_pos (h.knows List.mem_cons_self)]
  refine ⟨_, rfl, ⟨hnodup.2, ?_, ?_, ?_, ?_⟩, fun id hid => slots_set_ne hid _ _⟩
  · intro y hy
    have hne : y.1 ≠ x.1 := fun heq => hnodup.1 (List.mem_map.mpr ⟨y, hy, heq⟩)
    rw [slots_set_ne hne]
    exact h.slots y (List.mem_cons_of_mem _ hy)
  · refine List.nodup_cons.mpr ⟨fun hmem => ?_, h.nodup_free⟩
    exact nomatch (h.absent x.1 hmem).symm.trans hslots
  · refine List.forall_mem_cons.mpr ⟨?_, fun id hid => ?_⟩
    · simp only [LocalsTable.slots, Array.getElem?_setIfInBounds, if_pos hlt, if_true]
    · have hne : id ≠ x.1 := by
        rintro rfl
        exact nomatch (h.absent x.1 hid).symm.trans hslots
      rw [slots_set_ne hne]
      exact h.absent id hid
  · rw [Array.size_setIfInBounds, h.size, List.length_cons, List.length_cons]
    omega

theorem write {x : ℕ × ℕ} (h : t.Houses (x :: tenants)) (j : ℕ) (v : Value p) :
    (t.write x.1 j v).Houses (x :: tenants) := by
  obtain ⟨slots, hslots, hsize⟩ := h.slots x List.mem_cons_self
  have hnodup := List.nodup_cons.mp h.nodup
  refine ⟨h.nodup, List.forall_mem_cons.mpr ⟨?_, fun y hy => ?_⟩, h.nodup_free, fun id hid => ?_, ?_⟩
  · exact ⟨_, slots_write hslots, Array.size_setIfInBounds.trans hsize⟩
  · have hne : y.1 ≠ x.1 := fun heq => hnodup.1 (List.mem_map.mpr ⟨y, hy, heq⟩)
    rw [slots_write_ne hne]
    exact h.slots y (List.mem_cons_of_mem _ hy)
  · have hne : id ≠ x.1 := by
      rintro rfl
      exact nomatch (h.absent x.1 hid).symm.trans hslots
    rw [slots_write_ne hne]
    exact h.absent id hid
  · exact Array.size_modify.trans h.size

theorem live (h : t.Houses tenants) : t.live = UInt64.ofNat tenants.length := by
  rw [LocalsTable.live, h.size, UInt64.ofNat_add]
  exact UInt64.add_sub_cancel _ _

theorem empty : (LocalsTable.empty : LocalsTable p).Houses [] :=
  ⟨List.nodup_nil, (fun _ hx => nomatch hx), List.nodup_nil, (fun _ hid => nomatch hid), rfl⟩

end Houses

end LocalsTable

/-! ## The store -/

/-- **A store in which a function works on its own locals**, beside those of others, which are as in
a given table; no invalid value is on the stack. -/
structure Store.Serves (t₀ : LocalsTable p) (x : ℕ × ℕ) (others : List (ℕ × ℕ)) (s : Store σ p) :
    Prop where
  houses : s.locals.Houses (x :: others)
  others : ∀ y ∈ others, s.locals.slots y.1 = t₀.slots y.1
  stack : ∀ v ∈ s.stack.items, v.isValid = true

section Effects

variable {t₀ : LocalsTable p} {x : ℕ × ℕ} {others : List (ℕ × ℕ)} {s s' : Store σ p} {blame : Prop}

theorem Store.Serves.congr (h : s.Serves t₀ x others) (hstack : s'.stack = s.stack)
    (hlocals : s'.locals = s.locals) : s'.Serves t₀ x others :=
  ⟨hlocals ▸ h.houses, hlocals ▸ h.others, hstack ▸ h.stack⟩

theorem Store.Serves.of_core (h : s.Serves t₀ x others) (hc : s'.core = s.core) :
    s'.Serves t₀ x others :=
  h.congr (congrArg Core.stack hc) (congrArg Core.locals hc)

theorem Store.Serves.write (h : s.Serves t₀ x others) (j : ℕ) (v : Value p) :
    Store.Serves t₀ x others { s with locals := s.locals.write x.1 j v } := by
  refine ⟨h.houses.write j v, fun y hy => ?_, h.stack⟩
  have hne : y.1 ≠ x.1 := fun heq =>
    (List.nodup_cons.mp h.houses.nodup).1 (List.mem_map.mpr ⟨y, hy, heq⟩)
  exact (LocalsTable.slots_write_ne hne).trans (h.others y hy)

theorem serves_push {v : Value p} (hv : v.isValid = true) :
    Safe blame (Store.Serves (σ := σ) t₀ x others) (Store.push v) fun _ => True := by
  rintro ⟨ledger, ⟨items, room⟩, locals, conditions, steps⟩ h
  have hstack : ∀ u ∈ v :: items, u.isValid = true := List.forall_mem_cons.mpr ⟨hv, h.stack⟩
  match room with
  | none => exact ⟨⟨h.houses, h.others, hstack⟩, trivial⟩
  | some 0 => exact ⟨Halt.isFailure_bare (by simp), h⟩
  | some (n + 1) => exact ⟨⟨h.houses, h.others, hstack⟩, trivial⟩

theorem serves_pop :
    Safe blame (Store.Serves (σ := σ) t₀ x others) Store.pop fun v => v.isValid = true := by
  rintro ⟨ledger, ⟨items, room⟩, locals, conditions, steps⟩ h
  cases items with
  | nil => exact ⟨Halt.isFailure_bare (by simp), h⟩
  | cons v items =>
    have hstack := List.forall_mem_cons.mp h.stack
    exact ⟨⟨h.houses, h.others, hstack.2⟩, hstack.1⟩

theorem LocalsTable.Houses.read {t : LocalsTable p} (h : t.Houses (x :: others)) (blame : Prop)
    {status : Status} (hstatus : status ≠ .synthesisError) (j : ℕ) :
    match t.read status x.1 j with
    | .ok v => v.isValid = true
    | .error e => e.IsFailure blame := by
  obtain ⟨slots, hslots, -⟩ := h.slots x List.mem_cons_self
  simp only [LocalsTable.read, hslots]
  cases slots[j]? with
  | none => exact Halt.isFailure_because (by simp)
  | some v =>
    cases v with
    | invalid => exact Halt.isFailure_because hstatus
    | constant => rfl
    | wired => rfl

theorem serves_storeLocal (j : ℕ) (v : Value p) :
    Safe blame (Store.Serves (σ := σ) t₀ x others) (Store.storeLocal x.1 j v) fun _ => True := by
  intro s h
  obtain ⟨slots, hslots, -⟩ := h.houses.slots x List.mem_cons_self
  simp only [Store.storeLocal, LocalsTable.store, hslots]
  by_cases hj : j < slots.size
  · simp only [if_pos hj]
    exact ⟨h.write j v, trivial⟩
  · simp only [if_neg hj]
    exact ⟨Halt.isFailure_because (by simp), h⟩

/-- **A function works on its own locals.** -/
theorem works_serves (blame : Prop) (t₀ : LocalsTable p) (x : ℕ × ℕ) (others : List (ℕ × ℕ)) :
    Works blame x.1 (Store.Serves (σ := σ) t₀ x others) fun v => v.isValid = true where
  push hv := serves_push hv
  pop := serves_pop
  copyLocal j := by
    intro s h
    have hstatus : Status.copyLocalError ≠ .synthesisError := by simp
    have hread := h.houses.read blame hstatus j
    unfold Store.copyLocal LocalsTable.copy
    cases hr : s.locals.read .copyLocalError x.1 j with
    | ok v => rw [hr] at hread; exact ⟨h, hread⟩
    | error e => rw [hr] at hread; exact ⟨hread, h⟩
  moveLocal j := by
    intro s h
    have hstatus : Status.moveLocalError ≠ .synthesisError := by simp
    have hread := h.houses.read blame hstatus j
    unfold Store.moveLocal LocalsTable.move
    cases hr : s.locals.read .moveLocalError x.1 j with
    | ok v => rw [hr] at hread; exact ⟨h.write j .invalid, hread⟩
    | error e => rw [hr] at hread; exact ⟨hread, h⟩
  storeLocal j v _ := serves_storeLocal j v
  constant _ _ _ _ h := ⟨h.congr rfl rfl, rfl⟩

theorem isValid_of_synthesise [Recorder σ p] [Modulus p] {g : Gate} {label : String}
    {a b : Circuit.Combination p} {result : Option (Scalar p)} {type : ValueType} {v : Value p}
    {l l' : Ledger σ p} (h : g.synthesise label a b result type l = .ok v l') :
    v.isValid = true := by
  obtain ⟨w, l₁, -, h⟩ := bind_eq_ok h
  obtain ⟨u, l₂, -, h⟩ := bind_eq_ok h
  cases h
  rfl

theorem isValid_of_apply [Modulus p] [Recorder σ p] {g : Gate} {label : String} {a b v : Value p}
    {guard : Option (Guard p)} {l l' : Ledger σ p} (h : g.apply label a b guard l = .ok v l') :
    v.isValid = true := by
  unfold Gate.apply at h
  cases ha : a.combination? with
  | none => rw [ha] at h; cases h
  | some left =>
    cases hb : b.combination? with
    | none => rw [ha, hb] at h; cases h
    | some right =>
      rw [ha, hb] at h
      cases guard with
      | none => exact isValid_of_synthesise h
      | some guard =>
        obtain ⟨u, l₁, -, h⟩ := bind_eq_ok h
        exact isValid_of_synthesise h

theorem serves_binary [Modulus p] [Recorder σ p] (label : String) (opcode : Bytecode.Opcode)
    (g : Gate) : Keeps (Store.Serves (σ := σ) t₀ x others) (Store.binary label opcode g)
      fun _ => True := by
  refine serves_pop.keeps.bind fun right _ => serves_pop.keeps.bind fun left _ => ?_
  refine Keeps.bind (V := fun _ => True) (fun _ hs => ⟨hs, trivial⟩) fun s _ => ?_
  refine Keeps.bind (V := fun v => v.isValid = true) ?_ fun v hv => (serves_push hv).keeps
  rintro ⟨ledger, stack, locals, conditions, steps⟩ h
  dsimp only [Store.record]
  cases hg : g.apply label left right s.conditions.top? ledger with
  | ok v l => exact ⟨h.congr rfl rfl, isValid_of_apply hg⟩
  | error e l => exact h.congr rfl rfl

end Effects

/-! ## Machines -/

/-- What a frame has in the table: the identifier of its locals and how many there are. -/
def Frame.tenant (f : Frame) : ℕ × ℕ := (f.localsId, f.function.locals)

theorem Frame.stable_tenant (x : ℕ × ℕ) : Frame.Stable fun f => f.tenant = x := by
  refine ⟨fun _ _ h => h, fun {f f' pc c} h ha => ?_, fun _ _ h => h, fun _ _ _ h => h⟩
  unfold Frame.arms at ha
  split at ha
  · cases ha
  · cases ha
    exact h
  · cases ha
    exact h

/-- **A machine whose frames have locals of their own**, all blocks of a frame the same ones, and
whose stack holds no invalid value. -/
structure State.Orderly (m : State σ p) : Prop where
  houses : m.store.locals.Houses (m.frames.items.map Frame.tenant)
  uniform : ∀ f ∈ m.frames.items, f.Uniform f.localsId
  stack : ∀ v ∈ m.store.stack.items, v.isValid = true

/-- The functions that wait for a callee to return. -/
def State.waiting (m : State σ p) : List Frame := m.frames.items.tail

/-- **What a step leaves in order**: functions wait as before, or one more or one less does, and the
locals of those that wait before or after it do not change. -/
structure State.Proceeds (m m' : State σ p) : Prop where
  orderly : m'.Orderly
  waiting : m'.waiting = m.waiting ∨ m'.waiting = m.frames.items ∨ m'.waiting = m.waiting.tail
  spared : ∀ f, f ∈ m.waiting ∨ f ∈ m'.waiting →
    m'.store.locals.slots f.localsId = m.store.locals.slots f.localsId

section Machine

variable {m m₁ m' : State σ p} {s s' : Store σ p} {f g : Frame} {fs : List Frame}
  {room room' : Option ℕ} {t₀ : LocalsTable p} {x : ℕ × ℕ} {others : List (ℕ × ℕ)}
  {guards : List (Guard p)} {gs : List (List (Guard p))} {blame : Prop}

theorem State.Proceeds.refl (h : m.Orderly) : m.Proceeds m :=
  ⟨h, .inl rfl, fun _ _ => rfl⟩

theorem State.Proceeds.congr (h : m₁.Proceeds m') (hframes : m₁.frames = m.frames)
    (hlocals : m₁.store.locals = m.store.locals) : m.Proceeds m' := by
  obtain ⟨ho, hwaiting, hspared⟩ := h
  unfold State.waiting at hwaiting hspared
  rw [hframes] at hwaiting hspared
  rw [hlocals] at hspared
  exact ⟨ho, hwaiting, hspared⟩

theorem State.Orderly.serves (h : State.Orderly ⟨s, ⟨f :: fs, room⟩⟩) :
    s.Serves s.locals f.tenant (fs.map Frame.tenant) :=
  ⟨h.houses, fun _ _ => rfl, h.stack⟩

theorem State.Proceeds.stay (hs : s'.Serves s.locals f.tenant (fs.map Frame.tenant))
    (hg : g.Uniform g.localsId) (htenant : g.tenant = f.tenant)
    (hfs : ∀ h ∈ fs, h.Uniform h.localsId) :
    State.Proceeds ⟨s, ⟨f :: fs, room⟩⟩ ⟨s', ⟨g :: fs, room'⟩⟩ := by
  refine ⟨⟨?_, List.forall_mem_cons.mpr ⟨hg, hfs⟩, hs.stack⟩, .inl rfl, ?_⟩
  · have hhouses := hs.houses
    rw [← htenant] at hhouses
    exact hhouses
  · intro h hh
    exact hs.others h.tenant (List.mem_map_of_mem (hh.elim id id))

theorem Store.Serves.release (h : s.Serves t₀ x others) :
    ∃ t, Store.releaseLocals x.1 s = .ok () { s with locals := t } ∧ t.Houses others ∧
      ∀ y ∈ others, t.slots y.1 = t₀.slots y.1 := by
  obtain ⟨t, ht, hhouses, hslots⟩ := h.houses.release
  refine ⟨t, by simp only [Store.releaseLocals, ht], hhouses, fun y hy => ?_⟩
  have hne : y.1 ≠ x.1 := fun heq =>
    (List.nodup_cons.mp h.houses.nodup).1 (List.mem_map.mpr ⟨y, hy, heq⟩)
  exact (hslots _ hne).trans (h.others y hy)

theorem State.Orderly.alloc (h : m.Orderly) (n : ℕ) :
    Store.Serves m.store.locals ((m.store.locals.alloc n).1, n) (m.frames.items.map Frame.tenant)
      { m.store with locals := (m.store.locals.alloc n).2 } :=
  ⟨h.houses.alloc n, fun _ hy => LocalsTable.slots_alloc_ne (h.houses.ne_new n hy), h.stack⟩

/-- **A call** gives its function new locals, and one that fails gives them back. -/
theorem State.Orderly.call (h : m.Orderly) (blame : Prop) (setup : Setup) (index : UInt16) :
    Sound blame m.Proceeds (State.call setup index m) := by
  unfold State.call
  cases hk : setup.program.function? index with
  | none => exact ⟨Halt.isFailure_because (by simp), .refl h⟩
  | some k =>
    obtain ⟨s, ⟨frames, room⟩⟩ := m
    have hserves := h.alloc k.locals
    have hpop := (works_serves blame _ _ _).popParams k.params.length _ hserves
    simp only [bind, EStateM.bind, State.onStore, Store.allocLocals, State.releasing]
    -- A call that fails after it has taken new locals.
    have hfail {s₁ : Store σ p}
        (hs₁ : s₁.Serves s.locals ((s.locals.alloc k.locals).1, k.locals)
          (frames.map Frame.tenant)) :
        ∃ s₂, Store.releaseLocals (s.locals.alloc k.locals).1 s₁ = .ok () s₂ ∧
          State.Proceeds ⟨s, ⟨frames, room⟩⟩ ⟨s₂, ⟨frames, room⟩⟩ := by
      obtain ⟨t, hrelease, hhouses, hslots⟩ := hs₁.release
      refine ⟨_, hrelease, ⟨hhouses, h.uniform, hs₁.stack⟩, .inl rfl, fun g hg => ?_⟩
      exact hslots g.tenant (List.mem_map_of_mem (List.mem_of_mem_tail (hg.elim id id)))
    cases hp : State.popParams (s.locals.alloc k.locals).1 k.params.length
      { s with locals := (s.locals.alloc k.locals).2 } with
    | error e s₁ =>
      rw [hp] at hpop
      obtain ⟨s₂, hrelease, hproceeds⟩ := hfail hpop.2
      simp only [hrelease]
      exact ⟨hpop.1, hproceeds⟩
    | ok u s₁ =>
      rw [hp] at hpop
      have hs₁ := hpop.1
      have hdone (room' : Option ℕ) (e : Event p) : State.Proceeds ⟨s, ⟨frames, room⟩⟩
          ⟨s₁.withEvent e,
            ⟨.ofFunction index k (s.locals.alloc k.locals).1 :: frames, room'⟩⟩ := by
        refine ⟨⟨hs₁.houses, ?_, hs₁.stack⟩, .inr (.inl rfl), fun g hg => ?_⟩
        · exact List.forall_mem_cons.mpr ⟨.ofFunction index k _, h.uniform⟩
        · exact hs₁.others g.tenant (List.mem_map_of_mem (hg.elim List.mem_of_mem_tail id))
      simp only [State.pushFrame]
      cases room with
      | none => exact hdone none _
      | some n =>
        cases n with
        | succ n => exact hdone (some n) _
        | zero =>
          have he : (Halt.failure (.because .stackOverflow "call stack")).IsFailure blame :=
            Halt.isFailure_because (by simp)
          obtain ⟨s₂, hrelease, hproceeds⟩ := hfail hs₁
          simp only [BoundedStack.push, hrelease]
          exact ⟨he, hproceeds⟩

/-- **A return** gives the locals of its function back, and the caller goes on. -/
theorem State.Watched.ret_proceeds (hw : State.Watched ⟨s', ⟨f :: fs, room⟩⟩ (guards :: gs))
    (hs : s'.Serves s.locals f.tenant (fs.map Frame.tenant))
    (hfs : ∀ h ∈ fs, h.Uniform h.localsId) :
    Sound blame (State.Proceeds ⟨s, ⟨f :: fs, room⟩⟩) (State.ret ⟨s', ⟨f :: fs, room⟩⟩) := by
  obtain ⟨hconds, hframes⟩ := hw
  obtain ⟨hf, hgs⟩ := List.forall₂_cons.mp hframes
  have hpop := Store.popGuards_eq hconds (k := f.depth)
    (by rw [List.flatten_cons, List.length_append, ← hf.depth]; omega)
  rw [List.flatten_cons, ← hf.depth, List.drop_left, hf.depth] at hpop
  have hs₁ : (s'.withGuards gs.flatten).Serves s.locals f.tenant (fs.map Frame.tenant) :=
    hs.congr rfl rfl
  obtain ⟨t, hrelease, hhouses, hslots⟩ := hs₁.release
  dsimp only [Frame.tenant] at hrelease
  simp only [State.ret, bind, EStateM.bind, State.popFrame, BoundedStack.pop, State.onStore, hpop,
    hrelease]
  obtain ⟨s₂, hs₂⟩ : ∃ s₂, { s'.withGuards gs.flatten with locals := t } = s₂ := ⟨_, rfl⟩
  have hstack : ∀ v ∈ s₂.stack.items, v.isValid = true := by rw [← hs₂]; exact hs₁.stack
  have hlocals : s₂.locals = t := by rw [← hs₂]
  have hconds₂ : s₂.conditions = ⟨gs.flatten, none⟩ := by rw [← hs₂]; rfl
  rw [hs₂]
  cases hgs with
  | nil =>
    refine ⟨⟨?_, List.forall_mem_nil _, hstack⟩, .inl rfl, fun h hh => ?_⟩
    · rw [hlocals]
      exact hhouses
    · cases hh.elim id id
  | @cons g guards' rest gs hg hrest =>
    obtain ⟨g', s₃, guards₃, hok, hg', hs₃, hsuffix⟩ := hg.advance hconds₂
    have hcore := (keepsCore_advance s₂.core).final (s := ⟨g, s₂⟩) rfl
    have huniform := uniform_advance.final (s := ⟨g, s₂⟩) (hfs g List.mem_cons_self)
    have htenant := (Frame.stable_tenant g.tenant).advance.final (s := ⟨g, s₂⟩) rfl
    simp only [State.onTop, BoundedStack.top?, List.head?_cons]
    rw [hok] at hcore huniform htenant ⊢
    have hlocals₃ : s₃.locals = t := (congrArg Core.locals hcore).trans hlocals
    have hstack₃ : s₃.stack = s₂.stack := congrArg Core.stack hcore
    have htenant' : g'.tenant = g.tenant := htenant
    have hrest' := fun h hh => hfs h (List.mem_cons_of_mem _ hh)
    refine ⟨⟨?_, List.forall_mem_cons.mpr ⟨Frame.Uniform.self huniform, hrest'⟩, ?_⟩,
      .inr (.inr rfl), fun h hh => ?_⟩
    · dsimp only [BoundedStack.setTop]
      rw [hlocals₃, List.map_cons, htenant']
      exact hhouses
    · dsimp only
      rw [hstack₃]
      exact hstack
    · have hmem : h ∈ g :: rest := hh.elim id fun hh => List.mem_cons_of_mem _ hh
      dsimp only
      rw [hlocals₃]
      exact hslots h.tenant (List.mem_map_of_mem hmem)

/-! ## Steps -/

theorem safe_materialise (blame : Prop) (pc : UInt16) (cond : Value p) :
    Safe blame (fun _ => True)
      (Activation.materialise pc cond : EStateM Halt (Activation σ p) Unit) fun _ => True := by
  have hstore (x : EStateM Halt (Store σ p) Unit) (hx : Safe blame (fun _ => True) x fun _ => True) :
      Safe blame (fun _ => True) (Activation.onStore x) fun _ => True := by
    rintro ⟨f, s⟩ -
    have h := hx s trivial
    simp only [Activation.onStore]
    cases hxs : x s with
    | ok u s' => exact ⟨trivial, trivial⟩
    | error e s' => rw [hxs] at h; exact ⟨h.1, trivial⟩
  have hprepare : Safe blame (fun _ => True)
      (Activation.prepare pc : EStateM Halt (Activation σ p) _) fun _ => True := by
    rintro ⟨f, s⟩ -
    simp only [Activation.prepare, bind, EStateM.bind, Activation.ofFrame]
    cases ha : f.arms pc with
    | ok r => exact ⟨trivial, trivial⟩
    | error e =>
      unfold Frame.arms at ha
      split at ha
      · rename_i hbounds
        cases ha
        obtain ⟨message, rfl⟩ := Frame.armBounds_eq_error hbounds
        exact ⟨Halt.isFailure_because (by simp), trivial⟩
      · cases ha
      · cases ha
  refine hprepare.bind fun arms _ => ?_
  refine Safe.bind (V := fun _ => True) (fun _ _ => ⟨trivial, trivial⟩) fun frame _ => ?_
  refine (hstore (Store.note _) fun _ _ => ⟨trivial, trivial⟩).bind fun _ _ => ?_
  refine (hstore (Store.pushGuard _) fun s _ => ?_).bind fun _ _ => ?_
  · unfold Store.pushGuard
    cases s.conditions.push _ with
    | ok conditions => exact ⟨trivial, trivial⟩
    | error e => exact ⟨Halt.isFailure_stack (by simp), trivial⟩
  · cases frame.suspended.push frame.current with
    | error e => exact Safe.fail (Halt.isFailure_stack (by simp))
    | ok suspended => exact fun _ _ => ⟨trivial, trivial⟩

variable {number : ℕ} {b : Block} {i : Instruction} {t : Transition p} {rest : List (Guard p)}
  {mode : Mode} {k : Function} {count : ℕ} {setup : Setup}

theorem Frame.Guarded.follow_sound (hf : f.Guarded guards) (blame : Prop)
    (hs : s.conditions = ⟨guards ++ rest, none⟩) (hb : f.running = .ok (number, b))
    (ht : Leads b i t) :
    Sound blame (fun _ => True) (Activation.follow f number t ⟨f, s⟩) := by
  cases ht with
  | ret => exact trivial
  | call hop => exact trivial
  | advance hret hbranch =>
    obtain ⟨g, s', guards', hok, -⟩ := hf.advance hs
    rw [Activation.follow_advance hb, hok]
    exact trivial
  | goto hjump => exact trivial
  | enter hcond v =>
    exact ((safe_materialise blame b.pc v).bind (W := fun _ => True)
      fun _ _ => Safe.pure trivial).sound trivial

theorem State.conclude_proceeds {r : EStateM.Result Halt (Activation σ p) (Option Departure)}
    (hr : Sound blame (fun a => a.store.Serves s.locals f.tenant (fs.map Frame.tenant) ∧
      a.frame.Uniform a.frame.localsId ∧ a.frame.tenant = f.tenant) r)
    (hd : ∀ d a, r = .ok d a → d = none) (hfs : ∀ h ∈ fs, h.Uniform h.localsId) (setup : Setup) :
    Sound blame (State.Proceeds ⟨s, ⟨f :: fs, room⟩⟩) (State.conclude setup fs room r) := by
  cases r with
  | ok d a =>
    obtain ⟨hserves, huniform, htenant⟩ := hr
    rw [hd d a rfl]
    exact .stay hserves huniform htenant hfs
  | error e a =>
    obtain ⟨he, hserves, huniform, htenant⟩ := hr
    exact ⟨he, .stay (hserves.of_core (State.core_noted _ _ _)) huniform htenant hfs⟩

variable [Modulus p] [Recorder σ p]

/-- **An instruction of a function** works on its own locals. -/
theorem Block.perform_serves (hs : s.Serves t₀ x others) (hb : b.localsId = x.1)
    (hgate : ∀ g, Gate.ofOpcode? i.opcode = some g →
      Sound blame (fun _ => True) (Store.binary s!"step#{count}" i.opcode g s)) :
    Sound blame (Store.Serves t₀ x others) (b.perform mode k i count s) := by
  cases hg : Gate.ofOpcode? i.opcode with
  | none =>
    have hworks : Works blame b.localsId (Store.Serves (σ := σ) t₀ x others)
        fun v => v.isValid = true := hb ▸ works_serves blame t₀ x others
    exact (hworks.perform mode k count hg).sound hs
  | some g =>
    have hsound := hgate g hg
    have hkeeps := (serves_binary s!"step#{count}" i.opcode g).final hs
    rw [Block.perform_gate hg]
    cases hx : Store.binary s!"step#{count}" i.opcode g s with
    | ok u s' => rw [hx] at hkeeps; exact hkeeps
    | error e s' => rw [hx] at hkeeps hsound; exact ⟨hsound.1, hkeeps⟩

theorem Block.conditions_perform (h : b.perform mode k i count s = .ok t s') :
    s'.conditions = s.conditions := by
  have hstill := (effects_still (σ := σ) isArm_of_isGate s.conditions s.arms).perform mode k b
    (i := i) count (fun g _ => still_binary isArm_of_isGate _ _ g) s ⟨rfl, rfl⟩
  rw [h] at hstill
  exact hstill.1.1

theorem State.Orderly.follow (h : State.Orderly ⟨s, ⟨f :: fs, room⟩⟩)
    (hw : State.Watched ⟨s', ⟨f :: fs, room⟩⟩ (guards :: gs)) (hb : f.running = .ok (number, b))
    (hs : s'.Serves s.locals f.tenant (fs.map Frame.tenant))
    (hp : b.perform mode k i count (s.fetch k i b.pc) = .ok t s') :
    Sound blame (State.Proceeds ⟨s, ⟨f :: fs, room⟩⟩)
      (State.conclude setup fs room (Activation.follow f number t ⟨f, s'⟩)) := by
  have hleads := Block.perform_leads hp
  obtain ⟨hf, hfs⟩ := List.forall_mem_cons.mp h.uniform
  have hsound := (List.forall₂_cons.mp hw.frames).1.follow_sound blame hw.conditions hb hleads
  have hcore := (keepsCore_follow f number t s'.core).final (s := ⟨f, s'⟩) rfl
  have huniform := (uniform_follow hf number t).final (s := ⟨f, s'⟩) hf
  have htenant := ((Frame.stable_tenant f.tenant).follow rfl number t).final (s := ⟨f, s'⟩) rfl
  have hstay : Sound blame (fun a => a.store.Serves s.locals f.tenant (fs.map Frame.tenant) ∧
      a.frame.Uniform a.frame.localsId ∧ a.frame.tenant = f.tenant)
      (Activation.follow f number t ⟨f, s'⟩) :=
    hsound.of_final ⟨hs.of_core hcore, Frame.Uniform.self huniform, htenant⟩
  cases hleads with
  | ret => exact hw.ret_proceeds hs hfs
  | call hop =>
    simp only [Block.perform, hop] at hp
    cases hp
    have hm : State.Orderly ⟨s.fetch k i b.pc, ⟨f :: fs, room⟩⟩ := ⟨h.houses, h.uniform, h.stack⟩
    have hcall := hm.call blame setup i.index
    change Sound blame _ ((do State.call setup i.index; return false : EStateM Halt (State σ p) Bool)
      ⟨s.fetch k i b.pc, ⟨f :: fs, room⟩⟩)
    simp only [bind, EStateM.bind]
    cases hc : State.call setup i.index ⟨s.fetch k i b.pc, ⟨f :: fs, room⟩⟩ with
    | ok u m' => rw [hc] at hcall; exact hcall.congr rfl rfl
    | error e m' => rw [hc] at hcall; exact ⟨hcall.1, hcall.2.congr rfl rfl⟩
  | advance hret hbranch => exact State.conclude_proceeds hstay (fun d a hr => follow_advance_ok hr) hfs setup
  | goto hjump => exact State.conclude_proceeds hstay (fun d a hr => by cases hr; rfl) hfs setup
  | enter hcond v =>
    refine State.conclude_proceeds hstay (fun d a hr => ?_) hfs setup
    obtain ⟨u, a', -, hr⟩ := bind_eq_ok hr
    cases hr
    rfl

/-- **A step of the machine keeps its frames in order**, however it ends, and does not go wrong if
its gate does not. -/
theorem State.Orderly.step (h : m.Orderly) (hw : m.Watched gs) (setup : Setup)
    (hgate : ∀ k i pc g, m.instruction? = some i → Gate.ofOpcode? i.opcode = some g →
      Sound blame (fun _ => True)
        (Store.binary s!"step#{m.store.steps + 1}" i.opcode g (m.store.fetch k i pc))) :
    Sound blame m.Proceeds (State.step setup m) := by
  obtain ⟨s, fs, room⟩ := m
  have hframes := hw.frames
  dsimp only at hframes
  cases hframes with
  | nil => exact .refl h
  | @cons f guards fs gs hf hfs =>
    obtain ⟨number, b, hb⟩ := hf.running
    obtain ⟨huniform, huniforms⟩ := List.forall_mem_cons.mp h.uniform
    have hlocals : b.localsId = f.tenant.1 := huniform.running hb
    have hk : s.locals.knows b.localsId = true := by
      rw [hlocals]
      exact h.houses.knows List.mem_cons_self
    rw [State.step_cons, Activation.step_eq hb]
    cases hi : f.function.code[b.pc.toNat]? with
    | none =>
      rw [Block.step_eq_beyond hk hi]
      exact ⟨Halt.isFailure_because (by simp), .stay (h.serves.of_core rfl) huniform rfl huniforms⟩
    | some i =>
      have hnext : State.instruction? ⟨s, ⟨f :: fs, room⟩⟩ = some i :=
        (State.instruction?_cons hb).trans hi
      rw [Block.step_eq hk hi]
      have hfetch : (s.fetch f.function i b.pc).Serves s.locals f.tenant (fs.map Frame.tenant) :=
        h.serves.congr rfl rfl
      have hperform : Sound blame (Store.Serves s.locals f.tenant (fs.map Frame.tenant))
          (b.perform setup.config.mode f.function i (s.steps + 1) (s.fetch f.function i b.pc)) :=
        Block.perform_serves hfetch hlocals fun g hg => hgate f.function i b.pc g hnext hg
      cases hp : b.perform setup.config.mode f.function i (s.steps + 1)
        (s.fetch f.function i b.pc) with
      | error e s₁ =>
        rw [hp] at hperform
        exact ⟨hperform.1,
          .stay (hperform.2.of_core (State.core_noted _ _ _)) huniform rfl huniforms⟩
      | ok t s₁ =>
        rw [hp] at hperform
        have hw₁ : State.Watched ⟨s₁, ⟨f :: fs, room⟩⟩ (guards :: gs) :=
          ⟨(Block.conditions_perform hp).trans hw.conditions, hw.frames⟩
        exact h.follow hw₁ hb hperform hp

end Machine

end StackCircuit.Machine
