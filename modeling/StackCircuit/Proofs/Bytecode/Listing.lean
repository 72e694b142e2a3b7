import StackCircuit.Bytecode.Listing
import StackCircuit.Proofs.Text.Escapes

/-!
# Plain and coloured listings

* `isPlain_text`, `isPlain_header`: what is written about an instruction or a function is plain.
* `withoutEscapes_colouredText`: the colours of an instruction are escape sequences around its text.
* **`withoutEscapes_colouredListing`**: the coloured listing of a function without its escape
  sequences is the plain listing, which is also what is written line by line.
-/

namespace StackCircuit.Bytecode

open Text (IsPlain Style withoutEscapes)

theorem Opcode.isPlain_name (o : Opcode) : IsPlain o.name := by
  cases o with
  | undefined i =>
    have hname : IsPlain "Opcode(" ∧ IsPlain ")" := by
      decide
    simp [Opcode.name, Text.isPlain_decimal, hname]
  | _ => decide

theorem Instruction.isPlain_text (i : Instruction) : IsPlain i.text := by
  have hparentheses : IsPlain "(" ∧ IsPlain ")" := by
    decide
  have hname := i.opcode.isPlain_name
  unfold Instruction.text
  by_cases h : i.opcode.hasOperand = true
  · rw [if_pos h]
    simp only [Text.isPlain_append]
    exact ⟨⟨⟨hname, hparentheses.1⟩, Text.isPlain_decimal _⟩, hparentheses.2⟩
  · rwa [if_neg h]

namespace Function

theorem isPlain_header (f : Function) : IsPlain f.header := by
  have hframe : IsPlain "Bytecode of function " ∧ IsPlain ":" := by
    decide
  unfold header
  rw [Text.isPlain_append, Text.isPlain_append]
  exact ⟨⟨hframe.1, Text.isPlain_quote f.name⟩, hframe.2⟩

theorem withoutEscapes_colouredText (i : Instruction) (rest : String) :
    withoutEscapes (colouredText i ++ rest) = i.text ++ withoutEscapes rest := by
  rw [colouredText]
  split
  case h_1 c _ =>
    have hc : (Style.plain.foreground c.code).IsProper := by
      cases c <;> decide
    exact Text.withoutEscapes_wrap hc i.isPlain_text rest
  case h_2 => exact Text.withoutEscapes_append i.isPlain_text rest

theorem isPlain_newline : IsPlain "\n" := by
  decide

theorem withoutEscapes_codeLine (i : Instruction) (position : ℕ) (rest : String) :
    withoutEscapes (codeLine position (colouredText i) ++ "\n" ++ rest) =
      codeLine position i.text ++ "\n" ++ withoutEscapes rest := by
  have hstart : IsPlain ("#" ++ Numeral.decimal position ++ ", ") := by
    have hframe : IsPlain "#" ∧ IsPlain ", " := by
      decide
    simp [Text.isPlain_decimal, hframe]
  calc withoutEscapes (codeLine position (colouredText i) ++ "\n" ++ rest)
      = withoutEscapes ("#" ++ Numeral.decimal position ++ ", " ++
          (colouredText i ++ ("\n" ++ rest))) := by simp only [codeLine, String.append_assoc]
    _ = "#" ++ Numeral.decimal position ++ ", " ++ (i.text ++ ("\n" ++ withoutEscapes rest)) := by
      rw [Text.withoutEscapes_append hstart, withoutEscapes_colouredText,
        Text.withoutEscapes_append isPlain_newline]
    _ = codeLine position i.text ++ "\n" ++ withoutEscapes rest := by
      simp only [codeLine, String.append_assoc]

theorem withoutEscapes_codeLines (is : List (Instruction × ℕ)) :
    withoutEscapes
        (String.join (is.map fun (i, position) => codeLine position (colouredText i) ++ "\n")) =
      String.join (is.map fun (i, position) => codeLine position i.text ++ "\n") := by
  induction is with
  | nil => simp [withoutEscapes, Text.visible]
  | cons i is ih =>
    simp only [List.map_cons, String.join_cons]
    rw [withoutEscapes_codeLine, ih]

theorem writeListing_eq (f : Function) (spare : ℕ) :
    f.writeListing (f.lines.length + spare) = (f.listing, true) := by
  have htake : f.lines.take (f.lines.length + spare) = f.lines :=
    List.take_of_length_le (Nat.le_add_right _ _)
  simp [writeListing, htake, listing]

/-- **The coloured listing without its escape sequences is the plain listing**, whatever the
function, and so is what is written to a place with enough room. -/
theorem withoutEscapes_colouredListing (f : Function) :
    withoutEscapes f.colouredListing = f.listing ∧
      ∀ spare, f.writeListing (f.lines.length + spare) = (withoutEscapes f.colouredListing, true) := by
  have hbold : Style.plain.bold.IsProper := by
    decide
  have hlisting : withoutEscapes f.colouredListing = f.listing := by
    rw [colouredListing, String.append_assoc, Text.withoutEscapes_wrap hbold f.isPlain_header,
      Text.withoutEscapes_append isPlain_newline, withoutEscapes_codeLines]
    simp [listing, lines, codeLines, Function.comp_def, String.append_assoc]
  exact ⟨hlisting, fun spare => by rw [hlisting, writeListing_eq]⟩

end Function

end StackCircuit.Bytecode
