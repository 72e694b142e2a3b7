import StackCircuit.Fault

/-!
# Bounded stacks

A last-in first-out stack that keeps count of the room it has left, so that pushing and popping take
constant time whatever the bound.

* **`BoundedStack α`**: the items, topmost first, and the room for more (`none` without a bound).
* `push`, `pop`, `top?`, `setTop`, `peek`: the operations; a failed one leaves the stack as it was.
* `toList`: the items from bottom to top.
-/

namespace StackCircuit

/-- Why a stack refuses an operation. -/
inductive StackError where
  | overflow | underflow
deriving DecidableEq, Repr

/-- The wording of a refusal. -/
def StackError.text : StackError → String
  | overflow => "stack overflow"
  | underflow => "stack underflow"

/-- A stack, topmost item first, with the number of further items it takes; without that number it has
no bound. -/
structure BoundedStack (α : Type) where
  items : List α
  room : Option Nat
deriving DecidableEq, Repr

namespace BoundedStack

variable {α : Type}

/-- The empty stack without a bound. -/
def unbounded : BoundedStack α :=
  ⟨[], none⟩

/-- The empty stack for at most `n` items, where zero means that there is no bound. -/
def ofCapacity (n : Nat) : BoundedStack α :=
  ⟨[], if n = 0 then none else some n⟩

/-- The number of items. -/
def size (s : BoundedStack α) : Nat :=
  s.items.length

/-- The greatest number of items, or zero without a bound. -/
def capacity (s : BoundedStack α) : Nat :=
  match s.room with
  | none => 0
  | some n => n + s.size

/-- The items from bottom to top. -/
def toList (s : BoundedStack α) : List α :=
  s.items.reverse

/-- The stack with a new item on top. -/
def push (s : BoundedStack α) (a : α) : Except StackError (BoundedStack α) :=
  match s.room with
  | none => .ok ⟨a :: s.items, none⟩
  | some 0 => .error .overflow
  | some (n + 1) => .ok ⟨a :: s.items, some n⟩

/-- The topmost item and the stack without it. -/
def pop (s : BoundedStack α) : Except StackError (α × BoundedStack α) :=
  match s.items with
  | [] => .error .underflow
  | a :: rest => .ok (a, ⟨rest, s.room.map (· + 1)⟩)

/-- The topmost item. -/
def top? (s : BoundedStack α) : Option α :=
  s.items.head?

/-- The stack with its topmost item replaced; an empty stack stays as it is. -/
def setTop (s : BoundedStack α) (a : α) : BoundedStack α :=
  match s.items with
  | [] => s
  | _ :: rest => ⟨a :: rest, s.room⟩

/-- The item `offset` places below the top.  Positions are signed 64-bit numbers counted from the
bottom: a negative one holds nothing, and an offset so large that its position wraps around to the
top or beyond is a fault. -/
def peek (s : BoundedStack α) (offset : UInt64) : Except Fault (Option α) :=
  let position := Int.bmod ((s.size : Int) - offset.toNat - 1) UInt64.size
  if position < 0 then .ok none
  else
    match s.toList[position.toNat]? with
    | none => .error .indexOutOfRange
    | some a => .ok (some a)

@[simp]
theorem size_unbounded : (unbounded : BoundedStack α).size = 0 := rfl

theorem pop_push {s t : BoundedStack α} {a : α} (h : s.push a = .ok t) : t.pop = .ok (a, s) := by
  obtain ⟨items, room⟩ := s
  match room, h with
  | none, h => cases h; rfl
  | some (n + 1), h => cases h; rfl

theorem toList_push {s t : BoundedStack α} {a : α} (h : s.push a = .ok t) :
    t.toList = s.toList ++ [a] := by
  obtain ⟨items, room⟩ := s
  match room, h with
  | none, h => cases h; simp [toList]
  | some (n + 1), h => cases h; simp [toList]

theorem items_push {s t : BoundedStack α} {a : α} (h : s.push a = .ok t) :
    t.items = a :: s.items := by
  obtain ⟨items, room⟩ := s
  match room, h with
  | none, h => cases h; rfl
  | some (n + 1), h => cases h; rfl

theorem push_eq_overflow_iff {s : BoundedStack α} {a : α} :
    s.push a = .error .overflow ↔ s.room = some 0 := by
  obtain ⟨items, room⟩ := s
  match room with
  | none => simp [push]
  | some 0 => simp [push]
  | some (n + 1) => simp [push]

end BoundedStack

end StackCircuit
