import Mathlib.Data.List.Basic
import StackCircuit.Machine.Frame

/-!
# Structured code

Structured code is a sequence of instructions that do not jump and of conditionals with one arm or
two, whose arms are structured again.

* **`Structured p code`**: code at position `p` of a function is structured.
* `Structured.getLast_isJump`: the last instruction of an arm does not jump.
* `Frame.armBounds_oneArmed`, `Frame.armBounds_twoArmed`: the arms that a frame reads off structured
  code are those of the conditional.
* `linearise`: the code in which arms follow each other without branches.
-/

namespace StackCircuit

namespace Bytecode

theorem Opcode.isJump_iff (op : Opcode) :
    op.isJump = true ↔ op.isConditionalBranch = true ∨ op = .branch := by
  cases op <;> simp [isJump, isConditionalBranch]

theorem Opcode.isJump_eq_false_iff (op : Opcode) :
    op.isJump = false ↔ ¬ op.isConditionalBranch = true ∧ op ≠ .branch := by
  rw [← Bool.not_eq_true, op.isJump_iff, not_or]

/-- **Code that stands at a position of a function is structured.** -/
inductive Structured : ℕ → List Instruction → Prop
  | nil {p : ℕ} : Structured p []
  | plain {p : ℕ} {i : Instruction} {rest : List Instruction} (hi : i.opcode.isJump = false)
      (hrest : Structured (p + 1) rest) : Structured p (i :: rest)
  | oneArmed {p : ℕ} {branch jump : Instruction} {arm rest : List Instruction}
      (hbranch : branch.opcode.isConditionalBranch = true) (hstart : branch.target.toNat = p + 2)
      (hjump : jump.opcode = .branch) (hjoin : jump.target.toNat = p + 2 + arm.length)
      (hne : arm ≠ []) (harm : Structured (p + 2) arm)
      (hrest : Structured (p + 2 + arm.length) rest) :
    Structured p (branch :: jump :: (arm ++ rest))
  | twoArmed {p : ℕ} {branch jump skip : Instruction} {first second rest : List Instruction}
      (hbranch : branch.opcode.isConditionalBranch = true) (hstart : branch.target.toNat = p + 2)
      (hjump : jump.opcode = .branch) (helse : jump.target.toNat = p + 3 + first.length)
      (hskip : skip.opcode = .branch)
      (hjoin : skip.target.toNat = p + 3 + first.length + second.length)
      (hne : first ≠ []) (hfirst : Structured (p + 2) first)
      (hne' : second ≠ []) (hsecond : Structured (p + 3 + first.length) second)
      (hrest : Structured (p + 3 + first.length + second.length) rest) :
    Structured p (branch :: jump :: (first ++ skip :: (second ++ rest)))

theorem Structured.tail {p : ℕ} {i : Instruction} {code : List Instruction}
    (h : Structured p (i :: code)) (hi : i.opcode.isJump = false) : Structured (p + 1) code := by
  have hno := (i.opcode.isJump_eq_false_iff.mp hi).1
  cases h with
  | plain _ hrest => exact hrest
  | oneArmed hbranch => exact absurd hbranch hno
  | twoArmed hbranch => exact absurd hbranch hno

theorem Structured.head {p : ℕ} {i : Instruction} {code : List Instruction}
    (h : Structured p (i :: code)) (hi : i.opcode.isJump = true) :
    i.opcode.isConditionalBranch = true := by
  cases h with
  | plain hi' => rw [hi'] at hi; cases hi
  | oneArmed hbranch => exact hbranch
  | twoArmed hbranch => exact hbranch

theorem Structured.getLast_isJump {p : ℕ} {code : List Instruction} (h : Structured p code)
    {i : Instruction} (hi : code.getLast? = some i) : i.opcode.isJump = false := by
  induction h generalizing i with
  | nil => cases hi
  | @plain p j rest hj _ ih =>
    rw [List.getLast?_cons] at hi
    cases hr : rest.getLast? with
    | none =>
      rw [hr] at hi
      cases hi
      exact hj
    | some k =>
      rw [hr] at hi
      cases hi
      exact ih hr
  | @oneArmed p branch jump arm rest _ _ _ _ hne _ _ iharm ihrest =>
    rw [List.getLast?_cons_cons, List.getLast?_cons_of_ne_nil (by simp [hne]),
      List.getLast?_append] at hi
    rcases Option.or_eq_some_iff.mp hi with hi | ⟨-, hi⟩
    · exact ihrest hi
    · exact iharm hi
  | @twoArmed p branch jump skip first second rest _ _ _ _ _ _ _ _ hne' _ _ _ ihsecond ihrest =>
    rw [List.getLast?_cons_cons, List.getLast?_cons_of_ne_nil (by simp),
      List.getLast?_append_cons, List.getLast?_cons_of_ne_nil (by simp [hne']),
      List.getLast?_append] at hi
    rcases Option.or_eq_some_iff.mp hi with hi | ⟨-, hi⟩
    · exact ihrest hi
    · exact ihsecond hi

/-! ## Code at positions -/

/-- **The code of a function at a position.** -/
def Function.HasCode (f : Function) (p : ℕ) (code : List Instruction) : Prop :=
  ∀ k < code.length, f.code[p + k]? = code[k]?

namespace Function.HasCode

variable {f : Function} {p : ℕ} {code code' : List Instruction} {i : Instruction}

theorem head (h : f.HasCode p (i :: code)) : f.code[p]? = some i := h 0 (by simp)

theorem tail (h : f.HasCode p (i :: code)) : f.HasCode (p + 1) code := by
  intro k hk
  have hk' := h (k + 1) (by simp [hk])
  rw [List.getElem?_cons_succ] at hk'
  rw [← hk']
  congr 1
  omega

theorem left (h : f.HasCode p (code ++ code')) : f.HasCode p code := by
  intro k hk
  rw [h k (by simp; omega), List.getElem?_append_left hk]

theorem right (h : f.HasCode p (code ++ code')) : f.HasCode (p + code.length) code' := by
  intro k hk
  have hk' := h (code.length + k) (by simp; omega)
  rw [List.getElem?_append_right (by omega), Nat.add_sub_cancel_left] at hk'
  rw [← hk']
  congr 1
  omega

theorem le_size (h : f.HasCode p code) (hne : code ≠ []) : p + code.length ≤ f.code.size := by
  have hpos := List.length_pos_iff.mpr hne
  have hlast := h (code.length - 1) (by omega)
  rw [List.getElem?_eq_getElem (by omega)] at hlast
  have := (Array.getElem?_eq_some_iff.mp hlast).1
  omega

end Function.HasCode

end Bytecode

/-! ## Arms -/

namespace Machine.Frame

open Bytecode (Function Instruction Structured)

variable {f : Function} {pc : UInt16} {branch jump skip : Instruction}
  {arm first second : List Instruction}

theorem toNat_add_of_lt {a b : UInt16} (h : a.toNat + b.toNat < UInt16.size) :
    (a + b).toNat = a.toNat + b.toNat := by
  rw [UInt16.toNat_add, Nat.mod_eq_of_lt h]

theorem toNat_sub_one {a : UInt16} (h : 0 < a.toNat) : (a - 1).toNat = a.toNat - 1 :=
  UInt16.toNat_sub_of_le _ _ (UInt16.le_iff_toNat_le.mpr h)

theorem armBounds_eq (hsize : f.code.size < UInt16.size) (hbranch : f.code[pc.toNat]? = some branch)
    (hcond : branch.opcode.isConditionalBranch = true)
    (hjump : f.code[pc.toNat + 1]? = some jump) (hop : jump.opcode = .branch)
    (hstart : branch.target.toNat = pc.toNat + 2) (hpos : 0 < jump.target.toNat)
    (htarget : jump.target.toNat ≤ f.code.size) :
    armBounds f pc =
      match f.code[jump.target.toNat - 1]? with
      | none => .error (malformed f pc "invalid branch target")
      | some ending =>
        if ending.opcode ≠ .branch then
          if jump.target - 1 < branch.target then .error (malformed f pc "empty branch")
          else .ok ((branch.target, jump.target - 1), none)
        else if jump.target - 1 ≤ branch.target ∨ ending.target < jump.target ∨
            f.code.size < ending.target.toNat then
          .error (malformed f pc "invalid branch arms")
        else if ending.target = jump.target then
          .ok ((branch.target, jump.target - 1 - 1), none)
        else .ok ((branch.target, jump.target - 1 - 1), some (jump.target, ending.target - 1)) := by
  have hlt := (Array.getElem?_eq_some_iff.mp hjump).1
  have hnext : (pc + 1).toNat = pc.toNat + 1 := toNat_add_of_lt (by change pc.toNat + 1 < _; omega)
  have hfirst : branch.target = pc + 2 := by
    refine UInt16.toNat_inj.mp ?_
    rw [hstart, toNat_add_of_lt (by change pc.toNat + 2 < _; have := branch.target.toNat_lt; omega)]
    rfl
  have hnonzero : ¬ (jump.target = 0 ∨ f.code.size < jump.target.toNat) := by
    rintro (h | h)
    · rw [h] at hpos
      exact absurd hpos (by decide)
    · omega
  unfold armBounds
  rw [if_neg (by omega), hbranch, hnext, hjump]
  cases hending : f.code[jump.target.toNat - 1]? with
  | none =>
    simp only [hcond, hop, hfirst, toNat_sub_one hpos, hending, if_neg hnonzero, Bool.not_true,
      Bool.false_eq_true, if_false, ne_eq, not_true_eq_false]
  | some ending =>
    simp only [hcond, hop, hfirst, toNat_sub_one hpos, hending, if_neg hnonzero, Bool.not_true,
      Bool.false_eq_true, if_false, ne_eq, not_true_eq_false]

/-- **The arm of a conditional with one arm** reaches from behind the jump to its last
instruction. -/
theorem armBounds_oneArmed (hsize : f.code.size < UInt16.size)
    (hcode : f.HasCode pc.toNat (branch :: jump :: arm))
    (hcond : branch.opcode.isConditionalBranch = true)
    (hstart : branch.target.toNat = pc.toNat + 2) (hop : jump.opcode = .branch)
    (hjoin : jump.target.toNat = pc.toNat + 2 + arm.length) (hne : arm ≠ [])
    (harm : Structured (pc.toNat + 2) arm) :
    ∃ start stop, armBounds f pc = .ok ((start, stop), none) ∧ start.toNat = pc.toNat + 2 ∧
      stop.toNat + 1 = pc.toNat + 2 + arm.length := by
  have hpos := List.length_pos_iff.mpr hne
  have hle := hcode.tail.tail.le_size hne
  have hlast : f.code[jump.target.toNat - 1]? = arm.getLast? := by
    have h := hcode.tail.tail (arm.length - 1) (by omega)
    rw [List.getLast?_eq_getElem?, ← h, hjoin]
    congr 1
    omega
  obtain ⟨ending, hending⟩ : ∃ ending, arm.getLast? = some ending :=
    ⟨arm.getLast hne, List.getLast?_eq_some_getLast hne⟩
  have hplain : ending.opcode ≠ .branch := by
    intro h
    have hjump := harm.getLast_isJump hending
    rw [h] at hjump
    cases hjump
  have hstop : (jump.target - 1).toNat = jump.target.toNat - 1 := toNat_sub_one (by omega)
  refine ⟨branch.target, jump.target - 1, ?_, hstart, by omega⟩
  rw [armBounds_eq hsize hcode.head hcond hcode.tail.head hop hstart (by omega) (by omega), hlast,
    hending]
  simp only [if_pos hplain]
  rw [if_neg]
  rw [UInt16.lt_iff_toNat_lt]
  omega

/-- **The arms of a conditional with two arms**: the first ends before the jump over the second. -/
theorem armBounds_twoArmed (hsize : f.code.size < UInt16.size)
    (hcode : f.HasCode pc.toNat (branch :: jump :: (first ++ skip :: second)))
    (hcond : branch.opcode.isConditionalBranch = true)
    (hstart : branch.target.toNat = pc.toNat + 2) (hop : jump.opcode = .branch)
    (helse : jump.target.toNat = pc.toNat + 3 + first.length) (hskip : skip.opcode = .branch)
    (hjoin : skip.target.toNat = pc.toNat + 3 + first.length + second.length)
    (hne : first ≠ []) (hne' : second ≠ []) :
    ∃ start stop start' stop', armBounds f pc = .ok ((start, stop), some (start', stop')) ∧
      start.toNat = pc.toNat + 2 ∧ stop.toNat + 1 = pc.toNat + 2 + first.length ∧
      start'.toNat = pc.toNat + 3 + first.length ∧
      stop'.toNat + 1 = pc.toNat + 3 + first.length + second.length := by
  have hpos := List.length_pos_iff.mpr hne
  have hpos' := List.length_pos_iff.mpr hne'
  have hle := hcode.tail.tail.right.le_size (by simp)
  rw [List.length_cons] at hle
  have hlast : f.code[jump.target.toNat - 1]? = some skip := by
    have h := hcode.tail.tail.right.head
    rw [← h, helse]
    congr 1
    omega
  have hstop : (jump.target - 1).toNat = jump.target.toNat - 1 := toNat_sub_one (by omega)
  have hstop' : (jump.target - 1 - 1).toNat = jump.target.toNat - 1 - 1 := by
    rw [toNat_sub_one (by omega), hstop]
  have hend : (skip.target - 1).toNat = skip.target.toNat - 1 := toNat_sub_one (by omega)
  refine ⟨branch.target, jump.target - 1 - 1, jump.target, skip.target - 1, ?_, hstart, by omega,
    helse, by omega⟩
  rw [armBounds_eq hsize hcode.head hcond hcode.tail.head hop hstart (by omega) (by omega), hlast]
  simp only [hskip, ne_eq, not_true_eq_false, if_false]
  rw [if_neg, if_neg]
  · intro h
    have := congrArg UInt16.toNat h
    omega
  · rw [UInt16.le_iff_toNat_le, UInt16.lt_iff_toNat_lt]
    omega

end Machine.Frame

namespace Bytecode

/-! ## Code without branches -/

/-- What becomes of an instruction when arms follow each other: a condition is dropped, and jumps
vanish. -/
def Instruction.straightened (i : Instruction) : Option Instruction :=
  match i.opcode with
  | .brTrue | .brFalse => some (.ofNat .pop 0)
  | .branch => none
  | _ => some i

theorem Instruction.straightened_of_isJump {i : Instruction} (hi : i.opcode.isJump = false) :
    i.straightened = some i := by
  unfold Instruction.straightened
  cases hop : i.opcode with
  | brTrue => rw [hop] at hi; cases hi
  | brFalse => rw [hop] at hi; cases hi
  | branch => rw [hop] at hi; cases hi
  | _ => rfl

theorem Instruction.straightened_of_conditional {i : Instruction}
    (hi : i.opcode.isConditionalBranch = true) : i.straightened = some (.ofNat .pop 0) := by
  unfold Instruction.straightened
  cases hop : i.opcode with
  | brTrue => rfl
  | brFalse => rfl
  | _ => rw [hop] at hi; cases hi

/-- **The code in which arms follow each other.** -/
def linearise (code : List Instruction) : List Instruction :=
  code.filterMap Instruction.straightened

/-- The function with linear code. -/
def Function.linearised (f : Function) : Function :=
  { f with code := (linearise f.code.toList).toArray }

/-- The program with linear functions. -/
def Program.linearised (m : Program) : Program :=
  ⟨m.functions.map Function.linearised⟩

theorem Program.function?_linearised (m : Program) (index : UInt16) :
    m.linearised.function? index = (m.function? index).map Function.linearised := by
  rw [function?, function?, linearised, Array.getElem?_map]

/-- **A program of structured functions**, whose positions fit into 16 bits. -/
def Program.IsStructured (m : Program) : Prop :=
  ∀ f ∈ m.functions, f.code.size ≤ 65535 ∧ Structured 0 f.code.toList

/-- The position in linear code that corresponds to a position. -/
def Function.linearPosition (f : Function) (q : ℕ) : ℕ :=
  (linearise (f.code.toList.take q)).length

namespace Function

variable {f : Function} {q : ℕ} {i : Instruction}

theorem linearPosition_le (f : Function) (q : ℕ) : f.linearPosition q ≤ q := by
  unfold linearPosition linearise
  exact Nat.le_trans (List.length_filterMap_le _ _) (List.length_take_le q _)

theorem linearPosition_succ (h : f.code[q]? = some i) :
    f.linearPosition (q + 1) = f.linearPosition q + (i.straightened.toList).length := by
  have h' : f.code.toList[q]? = some i := by rw [Array.getElem?_toList]; exact h
  rw [linearPosition, linearPosition, List.take_add_one, h', linearise, linearise,
    List.filterMap_append, List.length_append, Option.toList_some, List.filterMap_cons]
  cases i.straightened <;> rfl

theorem code_linearised_linearPosition {j : Instruction} (h : f.code[q]? = some i)
    (hi : i.straightened = some j) : f.linearised.code[f.linearPosition q]? = some j := by
  have hlt := (Array.getElem?_eq_some_iff.mp h).1
  have hdrop : f.code.toList.drop q = i :: f.code.toList.drop (q + 1) := by
    have h' : f.code.toList[q]? = some i := by rw [Array.getElem?_toList]; exact h
    rw [List.drop_eq_getElem?_toList_append, h']
    rfl
  have hsplit : linearise f.code.toList =
      linearise (f.code.toList.take q) ++ j :: linearise (f.code.toList.drop (q + 1)) := by
    conv_lhs => rw [← List.take_append_drop q f.code.toList, hdrop]
    rw [linearise, List.filterMap_append, List.filterMap_cons_some hi]
    rfl
  change (linearise f.code.toList).toArray[f.linearPosition q]? = some j
  rw [List.getElem?_toArray, hsplit, linearPosition, List.getElem?_append_right (Nat.le_refl _),
    Nat.sub_self]
  rfl

theorem code_linearised_size : f.linearised.code[f.linearPosition f.code.size]? = none := by
  have hsize : f.linearPosition f.code.size = (linearise f.code.toList).length := by
    rw [linearPosition, ← Array.length_toList, List.take_length]
  change (linearise f.code.toList).toArray[f.linearPosition f.code.size]? = none
  rw [List.getElem?_toArray]
  exact List.getElem?_eq_none (Nat.le_of_eq hsize.symm)

end Function

end Bytecode

end StackCircuit
