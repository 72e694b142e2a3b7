import StackCircuit.Proofs.Assembly.Total
import StackCircuit.Source.Excerpt

/-!
# Where errors are shown

* `File.IsLine`: the line of a file on which a position lies; **`File.isLine_lineAt`**: that is the line
  that is found.
* `IsCut`: a file cut at a position and at both ends of its line; `IsCut.lineFrom_eq`, `IsCut.lineAt_eq`:
  the line that is found in terms of the parts.
* `SyntaxError.IsShown`: how an error is shown under its line; `isShown_of_within`: an error within
  its file is.
* **`isShown_of_assemble`**: lines are found, and every error of the assembler is shown under its own.
-/

namespace StackCircuit.Source

open Lexical (IsRun exists_isRun)

/-! ## Lines -/

/-- The line of a file on which a position lies, or at whose end: the text between two newlines, or
between one and the end of the file, with the number of newlines in front of it, counted from one. -/
structure File.IsLine (f : File) (position : ℕ) (l : Line) : Prop where
  start_le : l.start ≤ position
  le_stop : position ≤ l.start + l.text.length
  text_eq : l.text = (f.contents.drop l.start).take l.text.length
  not_mem_text : '\n' ∉ l.text
  begins : l.start = 0 ∨ ∃ i, l.start = i + 1 ∧ f.contents[i]? = some '\n'
  ends : l.start + l.text.length = f.contents.length ∨
    f.contents[l.start + l.text.length]? = some '\n'
  number_eq : l.number = 1 + (f.contents.take position).count '\n'

/-- A text cut at a position, at the start of its line and at its end. -/
structure IsCut (contents : List Char) (position : ℕ) (front left right back : List Char) :
    Prop where
  contents_eq : contents = front ++ left ++ (right ++ back)
  position_eq : position = (front ++ left).length
  left_run : IsRun (· ≠ '\n') left.reverse front.reverse
  right_run : IsRun (· ≠ '\n') right back

theorem exists_isCut {contents : List Char} {position : ℕ} (h : position ≤ contents.length) :
    ∃ front left right back, IsCut contents position front left right back := by
  obtain ⟨left, front, hbefore, hleft⟩ :=
    exists_isRun (· ≠ '\n') (contents.take position).reverse
  obtain ⟨right, back, hbehind, hright⟩ := exists_isRun (· ≠ '\n') (contents.drop position)
  rw [List.reverse_eq_iff, List.reverse_append] at hbefore
  refine ⟨front.reverse, left.reverse, right, back, ?_, ?_, by simpa using hleft, hright⟩
  · rw [← hbefore, ← hbehind, List.take_append_drop]
  · rw [← hbefore, List.length_take, Nat.min_eq_left h]

namespace IsCut

variable {contents front left right back : List Char} {position : ℕ}

theorem take_eq (h : IsCut contents position front left right back) :
    contents.take position = front ++ left := by
  rw [h.contents_eq, h.position_eq, List.take_left]

theorem position_le (h : IsCut contents position front left right back) :
    position ≤ contents.length := by
  rw [h.contents_eq, h.position_eq]
  exact (List.prefix_append (front ++ left) (right ++ back)).length_le

theorem not_mem_left (h : IsCut contents position front left right back) : '\n' ∉ left := by
  intro hmem
  simpa using h.left_run.forall_mem '\n' (List.mem_reverse.mpr hmem)

theorem not_mem_right (h : IsCut contents position front left right back) : '\n' ∉ right := by
  intro hmem
  simpa using h.right_run.forall_mem '\n' hmem

theorem front_ends (h : IsCut contents position front left right back) :
    front = [] ∨ ∃ lines, front = lines ++ ['\n'] := by
  obtain rfl | ⟨lines, c, rfl⟩ := List.eq_nil_or_concat front
  · exact .inl rfl
  · have hc : c = '\n' := by simpa using h.left_run.breaks
    exact .inr ⟨lines, by rw [hc, List.concat_eq_append]⟩

theorem back_starts (h : IsCut contents position front left right back) :
    back = [] ∨ ∃ lines, back = '\n' :: lines := by
  cases back with
  | nil => exact .inl rfl
  | cons c lines =>
    have hc : c = '\n' := by simpa using h.right_run.breaks
    exact .inr ⟨lines, by rw [hc]⟩

theorem endOfLine_eq (h : IsCut contents position front left right back) :
    endOfLine position (right ++ back) = position + right.length := by
  have hright := h.right_run
  clear h
  induction right generalizing position with
  | nil =>
    cases back with
    | nil => rfl
    | cons c back =>
      have hc : c = '\n' := by simpa using hright.breaks
      exact if_pos hc
  | cons c right ih =>
    obtain ⟨hc, hmem⟩ := List.forall_mem_cons.mp hright.forall_mem
    rw [List.cons_append, endOfLine, if_neg (of_decide_eq_true hc), ih ⟨hmem, hright.breaks⟩,
      List.length_cons]
    omega

theorem line_eq {f : File} (h : IsCut f.contents position front left right back) (number : ℕ) :
    f.line number front.length (position + right.length) = ⟨number, front.length, left ++ right⟩ := by
  have hlength : position + right.length - front.length = (left ++ right).length := by
    rw [h.position_eq, List.length_append, List.length_append]
    omega
  rw [File.line, hlength, h.contents_eq, List.append_assoc, List.drop_left, ← List.append_assoc,
    List.take_left]

theorem front_eq {lines opened ahead : List Char}
    (h : IsCut (lines ++ opened ++ ahead) position front left right back)
    (hopened : IsRun (· ≠ '\n') opened.reverse lines.reverse)
    (hposition : (lines ++ opened).length = position) :
    lines = front ∧ opened = left ∧ ahead = right ++ back := by
  obtain ⟨hdone, hahead⟩ := List.append_inj h.contents_eq (hposition.trans h.position_eq)
  have hleft : opened.reverse = left.reverse := by
    rw [← hopened.takeWhile_eq, ← h.left_run.takeWhile_eq, ← List.reverse_append, hdone,
      List.reverse_append]
  obtain rfl := List.reverse_inj.mp hleft
  exact ⟨List.append_cancel_right hdone, rfl, hahead⟩

/-- **The line that is found from a place in front of a position**, where the text so far is cut at the
start of its last line. -/
theorem lineFrom_eq {f : File} (h : IsCut f.contents position front left right back)
    {lines opened ahead : List Char} {index : ℕ} (hcontents : f.contents = lines ++ opened ++ ahead)
    (hopened : IsRun (· ≠ '\n') opened.reverse lines.reverse)
    (hindex : (lines ++ opened).length = index) (hle : index ≤ position) :
    f.lineFrom position (1 + lines.count '\n') lines.length index ahead =
      ⟨1 + front.count '\n', front.length, left ++ right⟩ := by
  induction ahead generalizing lines opened index with
  | nil =>
    have hsize : f.contents.length = index := by rw [hcontents, List.append_nil, hindex]
    obtain rfl : index = position := Nat.le_antisymm hle (hsize ▸ h.position_le)
    obtain ⟨rfl, rfl, hnil⟩ := (hcontents ▸ h).front_eq hopened hindex
    obtain ⟨rfl, rfl⟩ := List.append_eq_nil_iff.mp hnil.symm
    rw [File.lineFrom, hsize]
    exact h.line_eq _
  | cons c ahead ih =>
    rw [File.lineFrom]
    have hdone : f.contents = lines ++ (opened ++ [c]) ++ ahead := by simp [hcontents]
    have hlength : (lines ++ (opened ++ [c])).length = index + 1 := by
      rw [← List.append_assoc, List.length_append, hindex, List.length_singleton]
    by_cases hposition : index = position
    · subst hposition
      obtain ⟨rfl, rfl, hahead⟩ := (hcontents ▸ h).front_eq hopened hindex
      rw [if_pos rfl, hahead, h.endOfLine_eq]
      exact h.line_eq _
    rw [if_neg (by omega)]
    by_cases hc : c = '\n'
    · subst hc
      have hcount : (lines ++ (opened ++ ['\n'])).count '\n' = lines.count '\n' + 1 := by
        have hnone : opened.count '\n' = 0 := by
          refine List.count_eq_zero.mpr fun hmem => ?_
          simpa using hopened.forall_mem '\n' (List.mem_reverse.mpr hmem)
        rw [List.count_append, List.count_append, hnone, Nat.zero_add, List.count_singleton_self]
      have hnext : f.contents = lines ++ (opened ++ ['\n']) ++ [] ++ ahead := by
        rw [List.append_nil, hdone]
      have hrest := ih hnext ⟨List.forall_mem_nil _, by simp⟩ (by rw [List.append_nil, hlength]) (by omega)
      rw [hcount, hlength, ← Nat.add_assoc] at hrest
      rw [if_pos rfl]
      exact hrest
    · rw [if_neg hc]
      refine ih hdone ⟨?_, hopened.breaks⟩ hlength (by omega)
      rw [List.reverse_append]
      exact List.forall_mem_cons.mpr ⟨decide_eq_true hc, hopened.forall_mem⟩

/-- **The line that is found consists of the two parts around the position.** -/
theorem lineAt_eq {f : File} (h : IsCut f.contents position front left right back) :
    f.lineAt position = ⟨1 + front.count '\n', front.length, left ++ right⟩ :=
  h.lineFrom_eq (show f.contents = [] ++ [] ++ f.contents from rfl) ⟨List.forall_mem_nil _, rfl⟩ rfl (Nat.zero_le _)

theorem isLine {f : File} (h : IsCut f.contents position front left right back) :
    f.IsLine position ⟨1 + front.count '\n', front.length, left ++ right⟩ where
  start_le := by
    rw [h.position_eq, List.length_append]
    exact Nat.le_add_right _ _
  le_stop := by
    rw [h.position_eq, ← List.length_append, ← List.append_assoc]
    exact (List.prefix_append (front ++ left) right).length_le
  text_eq := by
    rw [h.contents_eq, List.append_assoc, List.drop_left, ← List.append_assoc, List.take_left]
  not_mem_text := by
    simpa using ⟨h.not_mem_left, h.not_mem_right⟩
  begins := by
    obtain rfl | ⟨lines, rfl⟩ := h.front_ends
    · exact .inl rfl
    · refine .inr ⟨lines.length, by simp, ?_⟩
      simp [h.contents_eq]
  ends := by
    obtain rfl | ⟨lines, rfl⟩ := h.back_starts
    · exact .inl (by simp [h.contents_eq])
    · refine .inr ?_
      simp [h.contents_eq]
  number_eq := by
    rw [h.take_eq, List.count_append, List.count_eq_zero.mpr h.not_mem_left, Nat.add_zero]

end IsCut

/-- **The line that is found is the line of the position.** -/
theorem File.isLine_lineAt (f : File) {position : ℕ} (h : position ≤ f.contents.length) :
    f.IsLine position (f.lineAt position) := by
  obtain ⟨front, left, right, back, hcut⟩ := exists_isCut h
  rw [hcut.lineAt_eq]
  exact hcut.isLine

theorem File.lineFrom_congr (f : File) {position position' : ℤ} (number start index : ℕ)
    {ahead : List Char} (h : ∀ i, index ≤ i → i < index + ahead.length →
      ((i : ℤ) = position ↔ (i : ℤ) = position')) :
    f.lineFrom position number start index ahead = f.lineFrom position' number start index ahead := by
  induction ahead generalizing number start index with
  | nil => rfl
  | cons c ahead ih =>
    have hrest (number start : ℕ) := ih number start (index + 1) fun i hi hlt =>
      h i (by omega) (by rw [List.length_cons]; omega)
    have hindex := h index (Nat.le_refl index) (by rw [List.length_cons]; omega)
    simp only [File.lineFrom, hindex, hrest]

theorem File.lineAt_of_outside (f : File) {position : ℤ}
    (h : position < 0 ∨ f.contents.length ≤ position) :
    f.lineAt position = f.lineAt f.contents.length :=
  f.lineFrom_congr 1 0 0 fun i hi hlt => by omega

/-! ## Errors -/

theorem wrap_of_lt {n : ℕ} (h : n < 2 ^ 63) : wrap n = n :=
  Int64.toInt_ofInt_of_le (by omega) (by omega)

theorem Span.length_eq {s : Span} {n : ℕ} (h : s.stop = s.start + n) (hlt : n < 2 ^ 63) :
    s.length = n := by
  rw [Span.length, h, Int.add_comm, Int.add_sub_cancel, wrap_of_lt hlt]

namespace SyntaxError

variable {e : SyntaxError} {indent marks : ℕ}

theorem offset_eq (h : e.span.start = e.line.start + indent) (hlt : indent < 2 ^ 63) :
    e.offset = indent := by
  rw [offset, h, Int.add_comm, Int.add_sub_cancel, wrap_of_lt hlt]

theorem column_eq (h : e.offset = indent) (hlt : indent + 1 < 2 ^ 63) :
    e.column = (indent + 1 : ℕ) := by
  rw [column, h, Int.add_comm, ← Int.natCast_succ, wrap_of_lt hlt]

/-- How an error is shown under its line: the number of characters in front of it, and the number of
marks under it. A single mark may be behind the line, but several marks are under it. -/
structure IsShown (e : SyntaxError) (indent marks : ℕ) : Prop where
  start_eq : e.span.start = e.line.start + indent
  offset_eq : e.offset = indent
  column_eq : e.column = (indent + 1 : ℕ)
  extent_eq : e.extent = marks
  one_le : 1 ≤ marks
  le_length : marks ≠ 1 → indent + marks ≤ e.line.text.length
  text_eq : e.text = s!"{e.file.name}:{e.line.number}:{indent + 1}: {e.message}"
  excerpt_eq : e.excerpt false =
    s!"{e.file.name}:{e.line.number}:{indent + 1}-{indent + 1 + marks} {e.message}\n\n" ++
      String.ofList (e.line.text ++ '\n' :: List.replicate indent ' ') ++
      String.ofList (List.replicate marks '^') ++ "\n"

theorem isShown_of_eq (hstart : e.span.start = e.line.start + indent) (hoffset : e.offset = indent)
    (hcolumn : e.column = (indent + 1 : ℕ)) (hextent : e.extent = marks) : e.IsShown indent marks where
  start_eq := hstart
  offset_eq := hoffset
  column_eq := hcolumn
  extent_eq := hextent
  one_le := by
    have hle : 1 ≤ e.extent := Int.le_max_left _ _
    omega
  le_length := by
    intro hne
    rw [extent, hoffset] at hextent
    omega
  text_eq := by
    rw [text, hcolumn]
    rfl
  excerpt_eq := by
    rw [excerpt, carets, hcolumn, hextent, hoffset]
    rfl

/-- **An error within its file is shown on its line.** The file has to be so short that its columns fit
into a word. -/
theorem isShown_of_within (h : e.span.Within e.file)
    (hsize : e.file.contents.length < 2 ^ 63 - 1) : ∃ indent marks, e.IsShown indent marks := by
  obtain ⟨hstart, hstop, hlength⟩ := h
  obtain ⟨position, hposition⟩ := Int.eq_ofNat_of_zero_le hstart
  obtain ⟨n, hn⟩ := Int.le.dest hstop
  have hline : e.file.IsLine position e.line := by
    rw [line, hposition]
    exact e.file.isLine_lineAt (by omega)
  obtain ⟨indent, hindent⟩ := Nat.exists_eq_add_of_le hline.start_le
  have hoffset : e.offset = indent := offset_eq (by omega) (by omega)
  have hspan : e.span.length = n := Span.length_eq hn.symm (by omega)
  have hextent : e.extent = (max 1 (min (e.line.text.length - indent) n) : ℕ) := by
    rw [extent, hoffset, hspan]
    omega
  exact ⟨indent, _, isShown_of_eq (by omega) hoffset (column_eq hoffset (by omega)) hextent⟩

end SyntaxError

theorem within_of_assemble {f : File} {e : SyntaxError} (h : Assembly.assemble f = .error e) :
    e.file = f ∧ e.span.Within f := by
  rw [Assembly.assemble] at h
  cases htokens : Assembly.tokens f.contents with
  | error s =>
    rw [htokens] at h
    obtain rfl := Except.error.inj h
    obtain ⟨hstart, hstop⟩ := Assembly.stop_of_tokens_error htokens
    exact ⟨rfl, hstart, s.start_le_stop, Int.le_of_eq hstop⟩
  | ok ts =>
    have hstays := Assembly.stays_parse (Assembly.ended_of_tokens htokens)
    rw [htokens] at h
    cases hparse : Assembly.parse ts with
    | ok p rest => simp [hparse] at h
    | error c rest =>
      rw [hparse] at hstays
      simp only [hparse] at h
      obtain rfl := Except.error.inj h
      obtain ⟨⟨⟨t, ht, hplace⟩, -⟩, -⟩ := hstays
      obtain ⟨hstop, -⟩ := Assembly.covers_of_tokens htokens t ht
      refine ⟨rfl, ?_⟩
      rw [Assembly.Complaint.inFile, hplace]
      exact ⟨Int.natCast_nonneg _, t.span.start_le_stop, Int.ofNat_le.mpr hstop⟩

/-- **Errors point at the right line and column.** For every span that starts within a file, or at its
end, the line that is found is the line of its start. And every error of the assembler is shown on
that line, if the columns of the file fit into a word. -/
theorem isShown_of_assemble (f : File) :
    (∀ span : Span, 0 ≤ span.start → span.start ≤ f.contents.length →
      f.IsLine span.start.toNat (f.lineAt span.start)) ∧
      (f.contents.length < 2 ^ 63 - 1 → ∀ e, Assembly.assemble f = .error e →
        e.line = f.lineAt e.span.start ∧ 0 ≤ e.span.start ∧ e.span.start ≤ f.contents.length ∧
          ∃ indent marks, e.IsShown indent marks) := by
  constructor
  · intro span hstart hle
    have hposition : span.start.toNat ≤ f.contents.length := by omega
    have hline := f.isLine_lineAt hposition
    rwa [Int.toNat_of_nonneg hstart] at hline
  · intro hsize e he
    obtain ⟨rfl, hwithin⟩ := within_of_assemble he
    have ⟨hstart, hstop, hlength⟩ := hwithin
    exact ⟨rfl, hstart, Int.le_trans hstop hlength, SyntaxError.isShown_of_within hwithin hsize⟩

/-- A text without a token in its second line, which is at the end of the file. -/
def strayDollar : File :=
  ⟨"stray.zkm", ['\n', ' ', '$']⟩

/-- The newline is on the line that it ends; what starts no token is shown on its own line. -/
theorem isShown_of_assemble_strayDollar :
    strayDollar.IsLine 0 ⟨1, 0, []⟩ ∧ strayDollar.IsLine 2 ⟨2, 1, [' ', '$']⟩ ∧
      ∃ e, Assembly.assemble strayDollar = .error e ∧ e.IsShown 1 1 := by
  obtain ⟨hlines, herrors⟩ := isShown_of_assemble strayDollar
  have herror : Assembly.assemble strayDollar =
      .error ⟨strayDollar, ⟨2, 3, by decide⟩, "unknown text encountered"⟩ := rfl
  obtain ⟨-, -, -, indent, marks, hshown⟩ := herrors (by decide) _ herror
  obtain rfl : 1 = indent := Int.ofNat_inj.mp hshown.offset_eq
  obtain rfl : 1 = marks := Int.ofNat_inj.mp hshown.extent_eq
  exact ⟨hlines ⟨0, 0, by decide⟩ (by decide) (by decide),
    hlines ⟨2, 2, by decide⟩ (by decide) (by decide), _, herror, hshown⟩

end StackCircuit.Source
