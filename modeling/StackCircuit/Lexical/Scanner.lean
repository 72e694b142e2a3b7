import StackCircuit.Fault

/-!
# Scanners

A scanner tells how many of the leading characters of a text it accepts, where zero means no match.

* **`Scanner`**: single words and ranges, the end of the text, and repetition, conjunction, choice,
  sequence and keywords over other scanners.
* **`Scanner.accept`**: the number of characters that a scanner accepts.  Matching the end of the
  text counts as one character, so a sequence that goes on after it would start beyond the end: a
  fault.
* `Scanner.repeated`: repetition of any accepting function.
-/

namespace StackCircuit.Lexical

/-- The scanners over characters. Of several matches `all` takes the longest, provided that all are
there, and `any` takes the first; in a `sequence` only the last match may be empty, and a `keyword` is
not followed by something that the second scanner matches. -/
inductive Scanner where
  | unit (chars : List Char)
  | within (low high : Char)
  | upTo (stop : Char)
  | endOfText
  | many (scanner : Scanner)
  | all (scanners : List Scanner)
  | any (scanners : List Scanner)
  | sequence (scanners : List Scanner)
  | keyword (word : List Char) (rest : Scanner)

/-- What a scanner is as a function of the text ahead. -/
abbrev Accept (α : Type) := List α → Except Fault Nat

namespace Scanner

variable {α : Type}

/-- The number of items that repetition of `f` accepts after `accepted` others, where the first
`skip` of the items ahead belong to the match made last. -/
def repeated (f : Accept α) (accepted : Nat) : (skip : Nat) → List α → Except Fault Nat
  | _, [] => .ok accepted
  | skip + 1, _ :: rest => repeated f accepted skip rest
  | 0, a :: rest =>
    match f (a :: rest) with
    | .error e => .error e
    | .ok 0 => .ok accepted
    | .ok (n + 1) => repeated f (accepted + (n + 1)) n rest

/-- The items after the first `n`, if there are as many. -/
def dropExactly? : (n : Nat) → List α → Option (List α)
  | 0, items => some items
  | _ + 1, [] => none
  | n + 1, _ :: rest => dropExactly? n rest

/-- Whether the text starts with a word, as the length of that word. -/
def acceptUnit (chars text : List Char) : Nat :=
  if chars.isPrefixOf text then chars.length else 0

mutual

/-- The number of leading characters that a scanner accepts. -/
def accept : Scanner → List Char → Except Fault Nat
  | unit chars, text => .ok (acceptUnit chars text)
  | within low high, text =>
    match text with
    | [] => .ok 0
    | c :: _ => .ok (if low ≤ c ∧ c ≤ high then 1 else 0)
  | upTo stop, text => .ok (text.takeWhile (· ≠ stop)).length
  | endOfText, text => .ok (if text.isEmpty then 1 else 0)
  | many scanner, text => repeated (accept scanner) 0 0 text
  | all scanners, text => acceptAll scanners 0 text
  | any scanners, text => acceptAny scanners text
  | sequence scanners, text => acceptSequence scanners 0 text
  | keyword word rest, text =>
    match acceptUnit word text with
    | 0 => .ok 0
    | n + 1 =>
      match text.drop (n + 1) with
      | [] => .ok (n + 1)
      | c :: after =>
        match accept rest (c :: after) with
        | .error e => .error e
        | .ok 0 => .ok (n + 1)
        | .ok (_ + 1) => .ok 0

/-- The longest match of several scanners and of one already made. -/
def acceptAll : List Scanner → Nat → List Char → Except Fault Nat
  | [], longest, _ => .ok longest
  | scanner :: rest, longest, text =>
    match accept scanner text with
    | .error e => .error e
    | .ok 0 => .ok 0
    | .ok (n + 1) => acceptAll rest (max longest (n + 1)) text

/-- The match of the first scanner that matches. -/
def acceptAny : List Scanner → List Char → Except Fault Nat
  | [], _ => .ok 0
  | scanner :: rest, text =>
    match accept scanner text with
    | .error e => .error e
    | .ok 0 => acceptAny rest text
    | .ok (n + 1) => .ok (n + 1)

/-- The matches of several scanners one after the other, behind `accepted` characters. -/
def acceptSequence : List Scanner → Nat → List Char → Except Fault Nat
  | [], accepted, _ => .ok accepted
  | scanner :: rest, accepted, text =>
    match accept scanner text with
    | .error e => .error e
    | .ok n =>
      if rest.isEmpty then .ok (accepted + n)
      else if n = 0 then .ok 0
      else
        match dropExactly? n text with
        | none => .error .sliceOutOfRange
        | some after => acceptSequence rest (accepted + n) after

end

theorem accept_many (scanner : Scanner) (text : List Char) :
    (many scanner).accept text = repeated scanner.accept 0 0 text := by
  rw [accept]

end Scanner

end StackCircuit.Lexical
