import StackCircuit.Proofs.Assembly.LabelTable
import Mathlib.Data.List.Induction

/-!
# Labels after any history

Names are used and declared in any order, and then the code is patched. What comes out depends on the
first declaration of each name only.

* `Mention`, `Labels.after`: uses and declarations, and the labels after them; `uses`,
  `firstDeclared?`: what is to be patched, and with which positions.
* `holds_after`: the table of labels shows the first declarations.
* `Patches`: code with the operands of some uses replaced by positions; **`patchAll_cases`**: all uses
  are patched, or those before the first whose name has no position.
* **`Labels.patch_after`**: the result, for all histories.
-/

namespace StackCircuit.Assembly

open Bytecode (Instruction)

/-! ## Histories -/

/-- What can happen to a name. -/
inductive Mention where
  | use (r : Reference)
  | declaration (name : String) (position : UInt64)
deriving DecidableEq, Repr

/-- The labels after one more mention of a name.  A declaration that fails changes nothing. -/
def Labels.mention (l : Labels) : Mention → Labels
  | .use r => l.note r
  | .declaration name position => (l.declare name position).getD l

/-- The labels after a history. -/
def Labels.after (history : List Mention) : Labels :=
  history.foldl Labels.mention .empty

/-- The uses in a history, in order. -/
def uses (history : List Mention) : List Reference :=
  history.filterMap fun
    | .use r => some r
    | .declaration _ _ => none

/-- The position in the first declaration of a name. -/
def firstDeclared? (history : List Mention) (name : String) : Option UInt64 :=
  history.findSome? fun
    | .use _ => none
    | .declaration name' position => if name' = name then some position else none

variable {history : List Mention} {name : String} {p : UInt64} {r : Reference}

theorem firstDeclared?_eq_none :
    firstDeclared? history name = none ↔ ∀ q, .declaration name q ∉ history := by
  rw [firstDeclared?, List.findSome?_eq_none_iff]
  constructor
  · intro h q hq
    simpa using h _ hq
  · intro h m hm
    cases m with
    | use r => rfl
    | declaration name' q => exact if_neg fun heq : name' = name => h q (heq ▸ hm)

theorem isSome_firstDeclared? :
    (firstDeclared? history name).isSome ↔ ∃ q, .declaration name q ∈ history := by
  rw [Option.isSome_iff_ne_none, ne_eq, firstDeclared?_eq_none]
  push Not
  rfl

theorem firstDeclared?_append_use (history : List Mention) (r : Reference) :
    firstDeclared? (history ++ [.use r]) = firstDeclared? history := by
  funext name
  rw [firstDeclared?, List.findSome?_append]
  exact Option.or_none

theorem firstDeclared?_append_declaration (history : List Mention) (name : String) (p : UInt64) :
    firstDeclared? (history ++ [.declaration name p]) =
      if firstDeclared? history name = none then
        Function.update (firstDeclared? history) name (some p)
      else firstDeclared? history := by
  funext m
  rw [firstDeclared?, List.findSome?_append, ← firstDeclared?, List.findSome?_singleton]
  by_cases hm : name = m
  · subst hm
    cases h : firstDeclared? history name <;> simp [h]
  · dsimp only
    rw [if_neg hm, Option.or_none]
    split
    · exact (Function.update_of_ne (Ne.symm hm) ..).symm
    · rfl

/-! ## The table -/

namespace Labels

theorem after_append (history : List Mention) (m : Mention) :
    after (history ++ [m]) = (after history).mention m :=
  List.foldl_concat ..

/-- **The table shows the first declarations**, and notes all uses. -/
theorem holds_after (h : ∀ name p, .declaration name p ∈ history → p ≠ Label.undeclared) :
    (after history).Holds (firstDeclared? history) ∧
      (after history).references.toList = uses history := by
  induction history using List.reverseRecOn with
  | nil => exact ⟨holds_empty, rfl⟩
  | append_singleton history m ih =>
    obtain ⟨hholds, hreferences⟩ :=
      ih fun name p hmem => h name p (List.mem_append_left _ hmem)
    rw [after_append]
    cases m with
    | use r =>
      refine ⟨firstDeclared?_append_use history r ▸ hholds.note r, ?_⟩
      simp [mention, note, hreferences, uses]
    | declaration name p =>
      have hp := h name p (List.mem_append_right _ (List.mem_singleton_self _))
      rw [firstDeclared?_append_declaration]
      obtain ⟨hne, hdeclare⟩ | ⟨heq, l', hdeclare, hsame, hholds'⟩ := hholds.declare name hp
      · rw [if_neg hne, mention, hdeclare]
        exact ⟨hholds, by simp [hreferences, uses]⟩
      · rw [if_pos heq, mention, hdeclare]
        exact ⟨hholds', by simp [hsame, hreferences, uses]⟩

end Labels

/-! ## Patching -/

/-- **Code in which uses have been patched**: their operands are the positions of the names, and nothing
else has changed. -/
structure Patches (position? : String → Option UInt64) (uses : List Reference)
    (code code' : Array Instruction) : Prop where
  size_eq : code'.size = code.size
  patched : ∀ r ∈ uses, ∃ p i, position? r.name = some p ∧ code[r.position.toNat]? = some i ∧
    code'[r.position.toNat]? = some { i with operand := BitVec.ofNat 256 p.toNat }
  kept : ∀ n, (∀ r ∈ uses, r.position.toNat ≠ n) → code'[n]? = code[n]?

namespace Patches

variable {position? : String → Option UInt64} {rest : List Reference} {code code' : Array Instruction}

theorem nil (code : Array Instruction) : Patches position? [] code code :=
  ⟨rfl, nofun, fun _ _ => rfl⟩

theorem cons (hp : position? r.name = some p) (hlt : r.position.toNat < code.size)
    (hnew : r.position ∉ rest.map Reference.position)
    (h : Patches position? rest (code.modify r.position.toNat fun i =>
      { i with operand := BitVec.ofNat 256 p.toNat }) code') :
    Patches position? (r :: rest) code code' := by
  have hne (s : Reference) (hs : s ∈ rest) : s.position.toNat ≠ r.position.toNat := fun heq =>
    hnew (List.mem_map.mpr ⟨s, hs, UInt64.toNat_inj.mp heq⟩)
  refine ⟨h.size_eq.trans Array.size_modify, List.forall_mem_cons.mpr ⟨?_, fun s hs => ?_⟩,
    fun n hn => ?_⟩
  · refine ⟨p, code[r.position.toNat], hp, Array.getElem?_eq_getElem hlt, ?_⟩
    rw [h.kept _ hne, Array.getElem?_modify, if_pos rfl, Array.getElem?_eq_getElem hlt]
    rfl
  · obtain ⟨q, i, hq, hi, hi'⟩ := h.patched s hs
    rw [Array.getElem?_modify, if_neg (hne s hs).symm] at hi
    exact ⟨q, i, hq, hi, hi'⟩
  · obtain ⟨hr, hrest⟩ := List.forall_mem_cons.mp hn
    rw [h.kept n hrest, Array.getElem?_modify, if_neg hr]

end Patches

/-- **All uses are patched, or those before the first whose name has no position.** -/
theorem patchAll_cases {position? : String → Option UInt64} {rs : List Reference}
    {code : Array Instruction} (hcover : ∀ r ∈ rs, r.position.toNat < code.size)
    (hnodup : (rs.map Reference.position).Nodup) :
    ((∀ r ∈ rs, (position? r.name).isSome) ∧
        ∃ code', patchAll position? rs code = .ok (code', none) ∧ Patches position? rs code code') ∨
      ∃ before r later, rs = before ++ r :: later ∧ (∀ r ∈ before, (position? r.name).isSome) ∧
        position? r.name = none ∧
        ∃ code', patchAll position? rs code = .ok (code', some r) ∧
          Patches position? before code code' := by
  induction rs generalizing code with
  | nil => exact .inl ⟨nofun, code, rfl, .nil code⟩
  | cons r rs ih =>
    obtain ⟨hlt, hcover⟩ := List.forall_mem_cons.mp hcover
    rw [List.map_cons, List.nodup_cons] at hnodup
    obtain ⟨hnew, hnodup⟩ := hnodup
    rw [patchAll]
    cases hp : position? r.name with
    | none => exact .inr ⟨[], r, rs, rfl, nofun, hp, code, rfl, .nil code⟩
    | some p =>
      have hsome : (position? r.name).isSome := by rw [hp]; rfl
      have hcover' : ∀ s ∈ rs, s.position.toNat < (code.modify r.position.toNat fun i =>
          { i with operand := BitVec.ofNat 256 p.toNat }).size := by
        rwa [Array.size_modify]
      simp only [if_pos hlt]
      obtain ⟨hall, code', hok, hpatches⟩ |
          ⟨before, s, later, rfl, hbefore, hnone, code', hok, hpatches⟩ := ih hcover' hnodup
      · exact .inl ⟨List.forall_mem_cons.mpr ⟨hsome, hall⟩, code', hok, hpatches.cons hp hlt hnew⟩
      · refine .inr ⟨r :: before, s, later, rfl, List.forall_mem_cons.mpr ⟨hsome, hbefore⟩, hnone,
          code', hok, hpatches.cons hp hlt fun hmem => hnew ?_⟩
        rw [List.map_append]
        exact List.mem_append_left _ hmem

/-! ## The result -/

/-- **Labels are patched exactly, whatever the order of uses and declarations.** A declaration succeeds
if it is the first of its name, and otherwise changes nothing. If all names used are declared, all uses
are patched with the positions of the first declarations. Otherwise the first use of a name that is not
declared is given back, and the uses before it are patched. -/
theorem Labels.patch_after (history : List Mention)
    (hposition : ∀ name p, .declaration name p ∈ history → p ≠ Label.undeclared)
    (hnodup : ((uses history).map Reference.position).Nodup) (code : Array Instruction)
    (hcover : ∀ r ∈ uses history, r.position.toNat < code.size) :
    (∀ before name p later, history = before ++ .declaration name p :: later →
        (((after before).declare name p).isSome ↔ ∀ q, .declaration name q ∉ before) ∧
        ∀ q, .declaration name q ∈ before → after (before ++ [.declaration name p]) = after before) ∧
      (((∀ r ∈ uses history, ∃ p, .declaration r.name p ∈ history) ∧
          ∃ code', (after history).patch code = .ok (code', none) ∧
            Patches (firstDeclared? history) (uses history) code code') ∨
        ∃ before r later, uses history = before ++ r :: later ∧
          (∀ r' ∈ before, ∃ p, .declaration r'.name p ∈ history) ∧
          (∀ p, .declaration r.name p ∉ history) ∧
          ∃ code', (after history).patch code = .ok (code', some r) ∧
            Patches (firstDeclared? history) before code code') := by
  constructor
  · rintro before name p later rfl
    obtain ⟨hholds, -⟩ := holds_after fun name q hq => hposition name q (List.mem_append_left _ hq)
    have hp := hposition name p (List.mem_append_right _ List.mem_cons_self)
    rw [after_append, mention, ← firstDeclared?_eq_none]
    obtain ⟨hne, hdeclare⟩ | ⟨heq, l', hdeclare, -⟩ := hholds.declare name hp
    · rw [hdeclare]
      exact ⟨iff_of_false Bool.false_ne_true hne, fun _ _ => rfl⟩
    · rw [hdeclare]
      exact ⟨iff_of_true rfl heq, fun q hq => absurd hq (firstDeclared?_eq_none.mp heq q)⟩
  · obtain ⟨hholds, hreferences⟩ := holds_after hposition
    rw [patch, hholds.position?, hreferences]
    simp only [← isSome_firstDeclared?, ← firstDeclared?_eq_none]
    exact patchAll_cases hcover hnodup

/-- A name that is used before and after its declarations, and one that is never declared. -/
def endAndNowhere : List Mention :=
  [.use ⟨0, "end", 0, 3, by decide⟩, .declaration "end" 2, .use ⟨1, "end", 8, 11, by decide⟩,
    .declaration "end" 5, .use ⟨2, "nowhere", 20, 27, by decide⟩]

/-- The first two branches lead to the first declaration, and the third use is given back. -/
theorem Labels.patch_after_endAndNowhere :
    (after (endAndNowhere.take 4) = after (endAndNowhere.take 3)) ∧
      ∃ before r later, uses endAndNowhere = before ++ r :: later ∧
        (∀ p, .declaration r.name p ∉ endAndNowhere) ∧ r.name = "nowhere" ∧
        Patches (firstDeclared? endAndNowhere) before
          #[⟨.branch, 0⟩, ⟨.brTrue, 0⟩, ⟨.branch, 0⟩] #[⟨.branch, 2⟩, ⟨.brTrue, 2⟩, ⟨.branch, 0⟩] := by
  have hposition : ∀ name p, .declaration name p ∈ endAndNowhere → p ≠ Label.undeclared := by
    simp only [endAndNowhere, List.mem_cons, List.not_mem_nil, reduceCtorEq, false_or, or_false,
      Mention.declaration.injEq]
    rintro name p (⟨-, rfl⟩ | ⟨-, rfl⟩) <;> decide
  have hpatch : (after endAndNowhere).patch #[⟨.branch, 0⟩, ⟨.brTrue, 0⟩, ⟨.branch, 0⟩] =
      .ok (#[⟨.branch, 2⟩, ⟨.brTrue, 2⟩, ⟨.branch, 0⟩],
        some ⟨2, "nowhere", 20, 27, by decide⟩) := by decide +kernel
  obtain ⟨hdeclare, hresult⟩ := patch_after endAndNowhere hposition (by decide +kernel)
    #[⟨.branch, 0⟩, ⟨.brTrue, 0⟩, ⟨.branch, 0⟩] (by decide +kernel)
  refine ⟨(hdeclare (endAndNowhere.take 3) "end" 5 (endAndNowhere.drop 4) rfl).2 2 (by decide), ?_⟩
  obtain ⟨-, code', hok, -⟩ | ⟨before, r, later, huses, -, hnone, code', hok, hpatches⟩ := hresult
  · rw [hpatch] at hok
    cases hok
  · rw [hpatch] at hok
    cases hok
    exact ⟨before, _, later, huses, hnone, rfl, hpatches⟩

end StackCircuit.Assembly
