import Mathlib.Algebra.Group.Nat.Defs
import StackCircuit.Assembly.Parser

/-!
# When parsers succeed

What a parser of one token or of an operand gives, and what it takes; sequences of parsers succeed in
turn.
-/

namespace StackCircuit.Assembly

open Bytecode (Opcode)

variable {α β : Type} {ts rest : List Token}

@[simp] theorem Parser.pure_apply (a : α) : (pure a : Parser α) ts = .ok a ts := rfl

@[simp] theorem Parser.throw_apply (c : Complaint) : (throw c : Parser α) ts = .error c ts := rfl

theorem Parser.bind_eq_ok {x : Parser α} {f : α → Parser β} {b : β} :
    (x >>= f) ts = .ok b rest ↔ ∃ a mid, x ts = .ok a mid ∧ f a mid = .ok b rest := by
  simp only [bind, EStateM.bind]
  cases x ts with
  | ok a mid => exact ⟨fun hf => ⟨a, mid, rfl, hf⟩, fun ⟨_, _, hx, hf⟩ => by cases hx; exact hf⟩
  | error c mid => exact ⟨nofun, fun ⟨_, _, hx, _⟩ => nomatch hx⟩

theorem Parser.ofExcept_eq_ok {e : Except Complaint α} {a : α} :
    (MonadExcept.ofExcept e : Parser α) ts = .ok a rest ↔ e = .ok a ∧ ts = rest := by
  cases e with
  | ok a' => simp [MonadExcept.ofExcept]
  | error c => simp [MonadExcept.ofExcept]

theorem expect_eq_ok {kind : TokenKind} {t : Token} :
    expect kind ts = .ok t rest ↔ ts = t :: rest ∧ t.kind = kind := by
  obtain _ | ⟨t', rest'⟩ := ts
  · simp [expect]
  · by_cases h : t'.kind = kind
    · simp only [expect, if_pos h, EStateM.Result.ok.injEq, List.cons.injEq]
      exact ⟨fun ⟨ht, hrest⟩ => ⟨⟨ht, hrest⟩, ht ▸ h⟩, And.left⟩
    · simp only [expect, if_neg h, List.cons.injEq]
      exact ⟨nofun, fun ⟨⟨ht, _⟩, hkind⟩ => absurd (ht ▸ hkind) h⟩

@[simp]
theorem wordOf_natCast (n : Nat) : wordOf n = n :=
  rfl

theorem literal_cons {t : Token} (hkind : t.kind = .number) {n : Nat}
    (hn : number? t.lexeme = some (n : Int)) (bits : Nat) (rest : List Token) :
    literal bits (t :: rest) =
      if n < 2 ^ bits then .ok n rest else .error (t.complain (.literalTooWide bits)) rest := by
  have hexpect : expect .number (t :: rest) = .ok t rest := if_pos hkind
  by_cases hlt : n < 2 ^ bits <;> simp [literal, bind, EStateM.bind, hexpect, hn, hlt]

theorem literal_eq_ok {bits n : Nat} :
    literal bits ts = .ok n rest ↔
      ∃ t m, ts = t :: rest ∧ t.kind = .number ∧ number? t.lexeme = some m ∧ m.natAbs < 2 ^ bits ∧
        n = wordOf m := by
  simp only [literal, Parser.bind_eq_ok, expect_eq_ok]
  constructor
  · rintro ⟨t, mid, ⟨rfl, hkind⟩, h⟩
    cases hn : number? t.lexeme with
    | none => simp [hn] at h
    | some m =>
      by_cases hlt : m.natAbs < 2 ^ bits
      · obtain ⟨rfl, rfl⟩ : wordOf m = n ∧ mid = rest := by simpa [hn, hlt] using h
        exact ⟨t, m, rfl, hkind, hn, hlt, rfl⟩
      · simp [hn, hlt] at h
  · rintro ⟨t, m, rfl, hkind, hn, hlt, rfl⟩
    exact ⟨t, rest, ⟨rfl, hkind⟩, by simp [hn, hlt]⟩

theorem parameter_eq_ok {type : ValueType} :
    parameter ts = .ok type rest ↔
      ∃ t, ts = t :: rest ∧ t.kind = .identifier ∧ ValueType.ofName? t.text = some type := by
  simp only [parameter, Parser.bind_eq_ok, expect_eq_ok]
  constructor
  · rintro ⟨t, mid, ⟨rfl, hkind⟩, h⟩
    cases htype : ValueType.ofName? t.text with
    | none => simp [htype] at h
    | some type' =>
      obtain ⟨rfl, rfl⟩ : type' = type ∧ mid = rest := by simpa [htype] using h
      exact ⟨t, rfl, hkind, htype⟩
  · rintro ⟨t, rfl, hkind, htype⟩
    exact ⟨t, rest, ⟨rfl, hkind⟩, by simp [htype]⟩

end StackCircuit.Assembly
