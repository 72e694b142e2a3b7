import StackCircuit.Proofs.Assembly.Lexemes
import StackCircuit.Proofs.Assembly.Parsers

/-!
# Literals

The lexer looks for digits with underscores between them; the parser takes the underscores out first and
then looks for a prefix, a sign and digits.  They agree on numbers, which have no sign.

* **`literal_of_collect`**: whatever number token a lexer delivers, it is read as the number it denotes, or
  is too wide.
-/

namespace StackCircuit.Assembly

open Lexical (Lexer)

variable {text : List Char} {ignore : List TokenKind} {t : Token} {ts : List Token}
  {l : Lexer Char TokenKind}

/-- **The lexer and the parser agree on numbers.**  On every number token of a text, whether or not the
lexer comes to its end, a literal of any width is the number that the token denotes if that fits, and
else the token is reported as too wide. -/
theorem literal_of_collect (h : Lexer.collect ignore (.start rules text) = .ok ts l) (ht : t ∈ ts)
    (hkind : t.kind = .number) :
    number? t.lexeme = some (denoted t.lexeme : ℤ) ∧
      (∀ bits rest, literal bits (t :: rest) =
        if denoted t.lexeme < 2 ^ bits then .ok (denoted t.lexeme) rest
        else .error (t.complain (.literalTooWide bits)) rest) ∧
      ∀ bits file, (t.complain (.literalTooWide bits)).inFile file =
        ⟨file, t.span, s!"literal exceeds {bits} bits"⟩ := by
  obtain ⟨ts', hcuts, hsubset⟩ := exists_cuts_of_collect h
  have hnumber : IsNumber t.lexeme := isNumber_of_cuts hcuts t (hsubset ht) hkind
  exact ⟨number?_of_isNumber hnumber, literal_cons hkind (number?_of_isNumber hnumber),
    fun _ _ => rfl⟩

/-- Underscores behind the last digit belong to the number. -/
theorem literal_of_collect_trailing :
    literal 8 [⟨.number, 1, "0xFf_".toList⟩] = .ok 255 [] ∧
      literal 7 [⟨.number, 1, "0xFf_".toList⟩] =
        .error ⟨some ⟨1, 6, by decide⟩, .literalTooWide 7⟩ [] := by
  have h : Lexer.collect [.blank] (.start rules " 0xFf_ $".toList) =
      .ok [⟨.number, 1, "0xFf_".toList⟩] ⟨rules, 7, some ['$'], none⟩ := rfl
  obtain ⟨-, hliteral, -⟩ := literal_of_collect h List.mem_cons_self rfl
  exact ⟨hliteral 8 [], hliteral 7 []⟩

end StackCircuit.Assembly
