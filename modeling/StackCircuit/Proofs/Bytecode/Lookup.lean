import Mathlib.Data.List.Basic
import StackCircuit.Bytecode.Program

/-!
# Functions by name

A program may have any number of functions, and their indices have 16 bits.

* `IsFirst`: the first position of a name; `IsFirst.getElem?_mod_eq_iff`: 16 bits of it lead back to the
  name if and only if it has no more.
* `Program.find?_eq`: looking for a name gives 16 bits of its first position.
* **`Program.Selects`**: what such an index is for a name; **`Program.selects_of_find?`**: what is found
  for a name.
-/

namespace StackCircuit.Bytecode

section

variable {names : List String} {name : String} {n : ℕ}

theorem findIdx?_name {α : Type} (label : α → String) (xs : Array α) (name : String) :
    xs.findIdx? (label · == name) =
      if name ∈ xs.toList.map label then some ((xs.toList.map label).idxOf name) else none := by
  obtain ⟨xs⟩ := xs
  have hmap : xs.findIdx? (label · == name) = (xs.map label).findIdx? (· == name) := by
    rw [List.findIdx?_map]
    rfl
  rw [List.findIdx?_toArray, hmap]
  split
  case isTrue h =>
    exact List.findIdx?_eq_some_iff_findIdx_eq.mpr ⟨List.idxOf_lt_length_iff.mpr h, rfl⟩
  case isFalse h =>
    exact List.findIdx?_eq_none_iff.mpr fun other hother =>
      beq_eq_false_iff_ne.mpr (ne_of_mem_of_not_mem hother h)

/-- A name is at a position, and not before it. -/
structure IsFirst (names : List String) (name : String) (n : ℕ) : Prop where
  getElem?_eq : names[n]? = some name
  not_mem_take : name ∉ names.take n

theorem isFirst_idxOf (h : name ∈ names) : IsFirst names name (names.idxOf name) :=
  ⟨List.getElem?_idxOf h, fun hmem => Nat.lt_irrefl _ ((List.mem_take_iff_idxOf_lt h).mp hmem)⟩

theorem IsFirst.lt_length (h : IsFirst names name n) : n < names.length :=
  (List.getElem?_eq_some_iff.mp h.getElem?_eq).1

theorem IsFirst.idxOf_eq (h : IsFirst names name n) : names.idxOf name = n := by
  have hmem : name ∈ names := List.mem_of_getElem? h.getElem?_eq
  have htake : name ∈ names.take (n + 1) := by
    refine List.mem_of_getElem? (i := n) ?_
    rw [List.getElem?_take_of_lt (Nat.lt_succ_self n), h.getElem?_eq]
  refine Nat.le_antisymm (Nat.le_of_lt_succ ((List.mem_take_iff_idxOf_lt hmem).mp htake)) ?_
  exact Nat.not_lt.mp (mt (List.mem_take_iff_idxOf_lt hmem).mpr h.not_mem_take)

/-- **The lowest 16 bits of the first position of a name show another name, unless they are the
position.** -/
theorem IsFirst.getElem?_mod_eq_iff (h : IsFirst names name n) :
    names[n % 65536]? = some name ↔ n < 65536 := by
  constructor
  · intro hmod
    by_contra hle
    have hlt : n % 65536 < n := Nat.lt_of_lt_of_le (Nat.mod_lt n (by decide)) (Nat.not_lt.mp hle)
    refine h.not_mem_take (List.mem_of_getElem? (i := n % 65536) ?_)
    rw [List.getElem?_take_of_lt hlt, hmod]
  · intro hlt
    rw [Nat.mod_eq_of_lt hlt]
    exact h.getElem?_eq

end

namespace Program

variable {m : Program} {name : String} {n : ℕ} {i : UInt16}

/-- The names of the functions, in order. -/
def names (m : Program) : List String :=
  m.functions.toList.map Function.name

theorem getElem?_names (m : Program) (n : ℕ) : m.names[n]? = m.functions[n]?.map Function.name := by
  rw [names, List.getElem?_map, Array.getElem?_toList]

theorem find?_eq (m : Program) (name : String) :
    m.find? name = if name ∈ m.names then some (.ofNat (m.names.idxOf name)) else none := by
  rw [find?, findIdx?_name, ← names]
  split <;> rfl

theorem find?_of_isFirst (h : IsFirst m.names name n) : m.find? name = some (.ofNat n) := by
  rw [find?_eq, if_pos (List.mem_of_getElem? h.getElem?_eq), h.idxOf_eq]

theorem find?_eq_none_iff : m.find? name = none ↔ name ∉ m.names := by
  rw [find?_eq]
  split <;> simp [*]

/-- An index shows 16 bits of the first position of a name.  It selects a function, and that has the
name if and only if the position has no more bits. -/
def Selects (m : Program) (name : String) (i : UInt16) : Prop :=
  ∃ n f, IsFirst m.names name n ∧ i.toNat = n % 65536 ∧ m.function? i = some f ∧
    (f.name = name ↔ n < 65536)

theorem selects_ofNat (h : IsFirst m.names name n) : m.Selects name (.ofNat n) := by
  have hn : n < m.functions.size := by
    have hlt := h.lt_length
    rwa [names, List.length_map, Array.length_toList] at hlt
  have hindex : (UInt16.ofNat n).toNat = n % 65536 := UInt16.toNat_ofNat'
  have hf := Array.getElem?_eq_getElem (Nat.lt_of_le_of_lt (Nat.mod_le n 65536) hn)
  refine ⟨n, m.functions[n % 65536], h, hindex, by rw [function?, hindex, hf], ?_⟩
  rw [← h.getElem?_mod_eq_iff, getElem?_names, hf, Option.map_some, Option.some.injEq]

/-- **What is found for a name is what its first position selects.** -/
theorem selects_of_find? (h : m.find? name = some i) : m.Selects name i := by
  rw [find?_eq] at h
  split at h
  case isTrue hname =>
    obtain rfl := Option.some.inj h
    exact selects_ofNat (isFirst_idxOf hname)
  case isFalse => cases h

end Program

end StackCircuit.Bytecode
