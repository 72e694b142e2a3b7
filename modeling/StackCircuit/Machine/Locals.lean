import StackCircuit.Machine.Failure
import StackCircuit.Value

/-!
# Locals

The local variables of every function under execution, in one table.  Frames refer to theirs by an
identifier, and an identifier that was given back is used again.

* **`LocalsTable p`**: the slots behind each identifier and the identifiers to use again.
* `alloc`, `release`, `live`: the identifiers.
* `copy`, `move`, `store`: the slots.
-/

namespace StackCircuit.Machine

/-- The slots of a function under execution. -/
abbrev Slots (p : Nat) := Array (Value p)

/-- The locals of all functions under execution by identifier, where `none` marks one that was given
back, and the identifiers given back, the last one first. -/
structure LocalsTable (p : Nat) where
  entries : Array (Option (Slots p))
  free : List Nat
deriving DecidableEq, Repr

namespace LocalsTable

variable {p : Nat}

/-- The table without identifiers. -/
def empty : LocalsTable p :=
  ⟨#[], []⟩

/-- Takes an identifier for `n` invalid slots: the one given back last, or else a new one. -/
def alloc (t : LocalsTable p) (n : Nat) : Nat × LocalsTable p :=
  match t.free with
  | id :: rest => (id, ⟨t.entries.setIfInBounds id (some (Array.replicate n .invalid)), rest⟩)
  | [] => (t.entries.size, ⟨t.entries.push (some (Array.replicate n .invalid)), []⟩)

/-- Whether an identifier was ever taken. -/
def knows (t : LocalsTable p) (id : Nat) : Bool :=
  id < t.entries.size

/-- Gives an identifier back. -/
def release (t : LocalsTable p) (id : Nat) : Except Fault (LocalsTable p) :=
  if t.knows id then .ok ⟨t.entries.setIfInBounds id none, id :: t.free⟩
  else .error .indexOutOfRange

/-- The number of identifiers in use as a 64-bit word: one given back twice counts twice. -/
def live (t : LocalsTable p) : UInt64 :=
  UInt64.ofNat t.entries.size - UInt64.ofNat t.free.length

/-- The slots behind an identifier. -/
def slots (t : LocalsTable p) (id : Nat) : Except Fault (Slots p) :=
  match t.entries[id]? with
  | none => .error .indexOutOfRange
  | some none => .error .absent
  | some (some slots) => .ok slots

/-- The failure of an index that no slot has. -/
def outOfBounds (index size : Nat) : Failure :=
  .because .outOfBounds s!"local {index} out of bounds ({size} locals)"

/-- The value of a slot, which has to be valid; a slot without a value fails with a given status. -/
def read (status : Status) (t : LocalsTable p) (id index : Nat) : Except Halt (Value p) :=
  match t.slots id with
  | .error fault => .error (.fault fault)
  | .ok slots =>
    match slots[index]? with
    | none => .error (.failure (outOfBounds index slots.size))
    | some .invalid => .error (.failure (.because status s!"local {index} is invalid"))
    | some v => .ok v

/-- Puts a value into a slot. -/
def write (t : LocalsTable p) (id index : Nat) (v : Value p) : LocalsTable p :=
  { t with entries := t.entries.modify id fun slots? => slots?.map (·.setIfInBounds index v) }

/-- The value of a slot, which stays in place. -/
def copy (t : LocalsTable p) (id index : Nat) : Except Halt (Value p) :=
  t.read .copyLocalError id index

/-- The value of a slot, which becomes invalid. -/
def move (t : LocalsTable p) (id index : Nat) : Except Halt (Value p × LocalsTable p) :=
  match t.read .moveLocalError id index with
  | .error e => .error e
  | .ok v => .ok (v, t.write id index .invalid)

/-- Puts a value into a slot, whatever it held before. -/
def store (t : LocalsTable p) (id index : Nat) (v : Value p) : Except Halt (LocalsTable p) :=
  match t.slots id with
  | .error fault => .error (.fault fault)
  | .ok slots =>
    if index < slots.size then .ok (t.write id index v)
    else .error (.failure (outOfBounds index slots.size))

end LocalsTable

end StackCircuit.Machine
