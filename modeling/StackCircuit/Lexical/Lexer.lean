import StackCircuit.Lexical.Scanner
import StackCircuit.Source

/-!
# Lexers

A lexer cuts a sequence of items into tokens.  At each position the first rule that matches gives
the token; the end of the sequence can be matched once.

* `Rule`, `Token`: what a lexer is made of and what it delivers.
* **`Lexer`**: how far a lexer has come, with at most one token scanned ahead.
* `Lexer.scanAhead`, `Lexer.next`, `Lexer.collect`: the operations; a fault leaves the lexer where
  it is.
-/

namespace StackCircuit.Lexical

/-- A rule gives a kind to what it accepts. -/
structure Rule (α κ : Type) where
  accept : Accept α
  kind : κ

/-- A stretch of items of one kind, from a position on. -/
structure Token (α κ : Type) where
  kind : κ
  start : Nat
  lexeme : List α
deriving DecidableEq, Repr

namespace Token

variable {α κ : Type}

/-- The position just past the last item. -/
def stop (t : Token α κ) : Nat :=
  t.start + t.lexeme.length

/-- The stretch of items that a token covers. -/
def span (t : Token α κ) : Source.Span :=
  ⟨t.start, t.stop, Int.ofNat_le.2 (Nat.le_add_right _ _)⟩

end Token

/-- A lexer under way, with the token scanned ahead. No items are ahead once the end has been matched.
-/
structure Lexer (α κ : Type) where
  rules : List (Rule α κ)
  index : Nat
  ahead : Option (List α)
  buffer : Option (Token α κ)

/-- The token of the first rule that matches at a position. -/
def firstMatch (index : Nat) (items : List α) : List (Rule α κ) → Except Fault (Option (Token α κ))
  | [] => .ok none
  | rule :: rest =>
    match rule.accept items with
    | .error e => .error e
    | .ok 0 => firstMatch index items rest
    | .ok (n + 1) => .ok (some ⟨rule.kind, index, items.take (n + 1)⟩)

namespace Lexer

variable {α κ : Type}

/-- A lexer at the start of a sequence. -/
def start (rules : List (Rule α κ)) (items : List α) : Lexer α κ :=
  ⟨rules, 0, some items, none⟩

/-- The number of items ahead. -/
def remaining (l : Lexer α κ) : Nat :=
  match l.ahead with
  | none => 0
  | some items => items.length

/-- Scans a token ahead unless there is one, and tells whether there is one afterwards: there is
none if no rule matches or the end has been matched. -/
def scanAhead : EStateM Fault (Lexer α κ) Bool := fun l =>
  match l.buffer, l.ahead with
  | none, some items =>
    match firstMatch l.index items l.rules with
    | .error e => .error e l
    | .ok found => .ok found.isSome { l with buffer := found }
  | buffer, _ => .ok buffer.isSome l

/-- Delivers the token scanned ahead and moves past it; the end is left behind with the one token
that matches it. -/
def next : EStateM Fault (Lexer α κ) (Token α κ) := fun l =>
  match l.buffer with
  | none => .error .indexOutOfRange l
  | some t =>
    match l.ahead with
    | some (a :: rest) =>
      .ok t { l with
        index := t.stop, ahead := some ((a :: rest).drop t.lexeme.length), buffer := none }
    | some [] => .ok t { l with index := l.index + 1, ahead := none, buffer := none }
    | none => .ok t { l with index := t.stop, buffer := none }

/-- Delivers tokens behind those already collected (in reverse), at most `fuel` many, and leaves out
the ignored kinds. -/
def collectOnto [BEq κ] (ignore : List κ) :
    (fuel : Nat) → List (Token α κ) → EStateM Fault (Lexer α κ) (List (Token α κ))
  | 0, collected, l => .ok collected.reverse l
  | fuel + 1, collected, l =>
    match scanAhead l with
    | .error e l => .error e l
    | .ok false l => .ok collected.reverse l
    | .ok true l =>
      match next l with
      | .error e l => .error e l
      | .ok t l =>
        if ignore.contains t.kind then collectOnto ignore fuel collected l
        else collectOnto ignore fuel (t :: collected) l

/-- Delivers every remaining token that is not of an ignored kind.  Each token takes at least one
item or the end, so there are no more of them than items and the end together. -/
def collect [BEq κ] (ignore : List κ) : EStateM Fault (Lexer α κ) (List (Token α κ)) := fun l =>
  collectOnto ignore (l.remaining + 2) [] l

end Lexer

end StackCircuit.Lexical
