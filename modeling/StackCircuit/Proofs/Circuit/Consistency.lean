import StackCircuit.Proofs.Circuit.Atomicity
import StackCircuit.Proofs.Circuit.Witness

/-!
# Records that are consistent

Whatever calls a constraint system gets, it stays fit for its check: constraints refer to wires that
exist, and the check says exactly which constraint is the first to fail.

* `System.Passes`: the wires of a constraint have values, which satisfy it; `Violation.Reports`: what is
  said about a constraint that does not pass.
* `System.holds_cases`, `System.firstViolation?_cases`, **`System.check_cases`**: a constraint, a list
  of constraints and a system under the check.
* `Call`, `System.after`: calls and what they leave behind; `Call.perform_cases`: what a call does.
* `System.Extends`: wires keep their numbers, labels and values; `System.extends_after`: and calls do
  that.
* **`System.consistent_after`**: the result, for all sequences of calls.
-/

namespace StackCircuit.Circuit

open Machine (finalState)

variable {p : ℕ} [Modulus p]

/-! ## The check -/

/-- **A constraint passes**: its wires have values, and the values satisfy it. -/
def System.Passes (sys : System p) (k : Constraint p) : Prop :=
  sys.Assigns k.sides.flatten ∧ k.SatisfiedBy sys.assignment

/-- What is said about a constraint that does not pass, and its number: that a wire of it, which goes by
its label, has no value, or else that the sides differ. -/
inductive Violation.Reports (sys : System p) (index : ℕ) (k : Constraint p) : Violation → Prop
  | unassigned {t : Term p} {label : String} (ht : t ∈ k.sides.flatten)
    (hvalue : sys.value? t.wire = none) (hlabel : sys.label t.wire = .ok label) :
    Reports sys index k (.unknown index k.label (.unassigned t.wire label))
  | unequal (hvalues : sys.Assigns k.sides.flatten) (hsides : ¬ k.SatisfiedBy sys.assignment) :
    Reports sys index k (.unequal index k.label)

/-- The number of the constraint that a violation names. -/
def Violation.index : Violation → ℕ
  | unknown index _ _ | unequal index _ => index

namespace Violation.Reports

variable {sys : System p} {index : ℕ} {k : Constraint p} {v : Violation}

theorem not_passes (h : v.Reports sys index k) : ¬ sys.Passes k := by
  rintro ⟨hvalues, hsides⟩
  cases h with
  | unassigned ht hvalue => simpa [hvalue] using hvalues _ ht
  | unequal _ hne => exact hne hsides

theorem index_eq (h : v.Reports sys index k) : v.index = index := by
  cases h <;> rfl

theorem text (h : v.Reports sys index k) :
    ∃ reason, v.text = s!"constraint #{index} ({k.label})" ++ reason := by
  cases h with
  | @unassigned t label =>
    refine ⟨": " ++ (EvaluationError.unassigned t.wire label).text, ?_⟩
    have hclose : toString "): " = toString ")" ++ ": " := by decide
    change s!"constraint #{index} ({k.label}): {(EvaluationError.unassigned t.wire label).text}" = _
    rw [hclose, ← String.append_assoc, ← String.append_assoc]
    rfl
  | unequal =>
    refine ⟨" does not hold", ?_⟩
    have hclose : toString ") does not hold" = toString ")" ++ " does not hold" := by decide
    change s!"constraint #{index} ({k.label}) does not hold" = _
    rw [hclose, ← String.append_assoc]

end Violation.Reports

namespace System

variable {sys sys' : System p} {c : Combination p} {k : Constraint p}

omit [Modulus p] in
theorem evaluateOnto_eq_error (hwires : ∀ t ∈ c, t.wire.toNat < sys.wires.size)
    (h : ¬ sys.Assigns c) (sum : Scalar p) :
    ∃ t ∈ c, sys.value? t.wire = none ∧ ∃ label, sys.label t.wire = .ok label ∧
      sys.evaluateOnto sum c = .error (.unassigned t.wire label) := by
  induction c generalizing sum with
  | nil => exact absurd (fun t ht => by cases ht) h
  | cons t c ih =>
    obtain ⟨ht, hc⟩ := List.forall_mem_cons.mp hwires
    rw [evaluateOnto]
    cases hvalue : sys.value? t.wire with
    | some x =>
      have hrest : ¬ sys.Assigns c := fun hassigns => h
        (List.forall_mem_cons.mpr ⟨by rw [hvalue]; rfl, hassigns⟩)
      obtain ⟨u, hu, hnone, label, hlabel, herror⟩ := ih hc hrest (sum + t.coeff * x)
      exact ⟨u, List.mem_cons_of_mem t hu, hnone, label, hlabel, herror⟩
    | none =>
      have hlabel : sys.label t.wire = .ok sys.wires[t.wire.toNat].label := by
        rw [label, Array.getElem?_eq_getElem ht]
      exact ⟨t, List.mem_cons_self, hvalue, _, hlabel, by rw [hlabel]⟩

theorem evaluate_cases (hwires : ∀ t ∈ c, t.wire.toNat < sys.wires.size) :
    (sys.Assigns c ∧ sys.evaluate c = .ok (c.eval sys.assignment)) ∨
      ∃ t ∈ c, sys.value? t.wire = none ∧ ∃ label, sys.label t.wire = .ok label ∧
        sys.evaluate c = .error (.unassigned t.wire label) := by
  by_cases h : sys.Assigns c
  · exact .inl ⟨h, evaluate_eq sys h⟩
  · exact .inr (evaluateOnto_eq_error hwires h 0)

theorem holds_cases (hk : k.Within sys.wires.size) :
    (sys.Passes k ∧ sys.holds k = .ok true) ∨
      (sys.Assigns k.sides.flatten ∧ ¬ k.SatisfiedBy sys.assignment ∧ sys.holds k = .ok false) ∨
      ∃ t ∈ k.sides.flatten, sys.value? t.wire = none ∧ ∃ label, sys.label t.wire = .ok label ∧
        sys.holds k = .error (.unassigned t.wire label) := by
  have hsides : k.sides.flatten = k.a ++ (k.b ++ k.c) := by simp [Constraint.sides]
  rw [Constraint.Within, hsides, List.forall_mem_append, List.forall_mem_append] at hk
  obtain ⟨hka, hkb, hkc⟩ := hk
  simp only [hsides, Passes, holds]
  obtain ⟨ha, heval⟩ | ⟨t, ht, hvalue, label, hlabel, herror⟩ := evaluate_cases hka
  case inr => exact .inr (.inr ⟨t, by simp [ht], hvalue, label, hlabel, by rw [herror]; rfl⟩)
  obtain ⟨hb, heval'⟩ | ⟨t, ht, hvalue, label, hlabel, herror⟩ := evaluate_cases hkb
  case inr => exact .inr (.inr ⟨t, by simp [ht], hvalue, label, hlabel, by rw [heval, herror]; rfl⟩)
  obtain ⟨hc, heval''⟩ | ⟨t, ht, hvalue, label, hlabel, herror⟩ := evaluate_cases hkc
  case inr =>
    exact .inr (.inr ⟨t, by simp [ht], hvalue, label, hlabel, by rw [heval, heval', herror]; rfl⟩)
  have hall : sys.Assigns (k.a ++ (k.b ++ k.c)) :=
    List.forall_mem_append.mpr ⟨ha, List.forall_mem_append.mpr ⟨hb, hc⟩⟩
  rw [heval, heval', heval'']
  by_cases hk : k.SatisfiedBy sys.assignment
  · exact .inl ⟨⟨hall, hk⟩, congrArg Except.ok (decide_eq_true hk)⟩
  · exact .inr (.inl ⟨hall, hk, congrArg Except.ok (decide_eq_false hk)⟩)

theorem firstViolation?_cases {ks : List (Constraint p)} (hks : ∀ k ∈ ks, k.Within sys.wires.size)
    (index : ℕ) :
    (sys.firstViolation? index ks = none ∧ ∀ k ∈ ks, sys.Passes k) ∨
      ∃ before k after v, ks = before ++ k :: after ∧ (∀ k' ∈ before, sys.Passes k') ∧
        sys.firstViolation? index ks = some v ∧ v.Reports sys (index + before.length) k := by
  induction ks generalizing index with
  | nil => exact .inl ⟨rfl, List.forall_mem_nil _⟩
  | cons k ks ih =>
    obtain ⟨hk, hks⟩ := List.forall_mem_cons.mp hks
    rw [firstViolation?]
    obtain ⟨hpasses, hholds⟩ | ⟨hvalues, hsides, hholds⟩ | ⟨t, ht, hvalue, label, hlabel, hholds⟩ :=
      holds_cases hk
    · rw [hholds]
      obtain ⟨hnone, hall⟩ | ⟨before, k', after, v, rfl, hbefore, hsome, hv⟩ := ih hks (index + 1)
      · exact .inl ⟨hnone, List.forall_mem_cons.mpr ⟨hpasses, hall⟩⟩
      · refine .inr ⟨k :: before, k', after, v, rfl, List.forall_mem_cons.mpr ⟨hpasses, hbefore⟩,
          hsome, ?_⟩
        rwa [List.length_cons, ← Nat.add_assoc, Nat.add_right_comm]
    · rw [hholds]
      exact .inr ⟨[], k, ks, _, rfl, List.forall_mem_nil _, rfl, .unequal hvalues hsides⟩
    · rw [hholds]
      exact .inr ⟨[], k, ks, _, rfl, List.forall_mem_nil _, rfl, .unassigned ht hvalue hlabel⟩

/-- **The check passes if every constraint does, and otherwise it reports the first that does not.** -/
theorem check_cases (h : ∀ k ∈ sys.constraints, k.Within sys.wires.size) :
    (sys.check = none ∧ ∀ k ∈ sys.constraints, sys.Passes k) ∨
      ∃ index k v, sys.constraints[index]? = some k ∧ sys.check = some v ∧ v.Reports sys index k ∧
        ∀ j k', j < index → sys.constraints[j]? = some k' → sys.Passes k' := by
  simp only [← Array.mem_toList_iff, ← Array.getElem?_toList] at h ⊢
  obtain hnone | ⟨before, k, after, v, hks, hbefore, hsome, hv⟩ := firstViolation?_cases h 0
  · exact .inl hnone
  rw [Nat.zero_add] at hv
  refine .inr ⟨before.length, k, v, by rw [hks, List.getElem?_append_right le_rfl]; simp, hsome, hv,
    fun j k' hj hk' => hbefore k' ?_⟩
  rw [hks, List.getElem?_append_left hj] at hk'
  exact List.mem_of_getElem? hk'

section

variable (h : ∀ k ∈ sys.constraints, k.Within sys.wires.size)
include h

theorem check_ne_fault (index : ℕ) (label : String) (cause : Fault) :
    sys.check ≠ some (.unknown index label (.fault cause)) := by
  intro hfault
  obtain ⟨hnone, -⟩ | ⟨_, _, v, -, hv, hreports, -⟩ := check_cases h
  · rw [hnone] at hfault; cases hfault
  · obtain rfl := Option.some.inj (hv.symm.trans hfault)
    cases hreports

theorem check_eq_none_iff_passes : sys.check = none ↔ ∀ k ∈ sys.constraints, sys.Passes k := by
  obtain ⟨hnone, hall⟩ | ⟨index, k, v, hk, hv, hreports, -⟩ := check_cases h
  · exact iff_of_true hnone hall
  · refine iff_of_false (by simp [hv]) fun hall => ?_
    exact hreports.not_passes (hall k (Array.mem_of_getElem? hk))

theorem reports_of_check {v : Violation} (hv : sys.check = some v) :
    ∃ index k, sys.constraints[index]? = some k ∧ v.Reports sys index k ∧
      ∀ j k', j < index → sys.constraints[j]? = some k' → sys.Passes k' := by
  obtain ⟨hnone, -⟩ | ⟨index, k, v', hk, hv', hreports, hbefore⟩ := check_cases h
  · rw [hnone] at hv; cases hv
  · obtain rfl := Option.some.inj (hv'.symm.trans hv)
    exact ⟨index, k, hk, hreports, hbefore⟩

end

end System

/-! ## Calls -/

/-- What a resolution says about the value. -/
def Resolution.value? : Resolution p → Option (Scalar p)
  | known x => some x
  | missing | failed _ => none

/-- A call that records something in a system. -/
inductive Call (p : ℕ) where
  | alloc (label : String) (r : Resolution p)
  | enforce (label : String) (a b c : Combination p)

/-- What a call does. An allocation gives the number of the wire. -/
def Call.perform : Call p → EStateM CircuitError (System p) (Option Wire)
  | alloc label r => do return some (← System.alloc label r)
  | enforce label a b c => do
    System.enforce label a b c
    return none

omit [Modulus p] in
theorem Call.perform_cases (call : Call p) (sys : System p) :
    (∃ label r, call = .alloc label r ∧
        call.perform sys = .ok (some (UInt32.ofNat sys.wires.size)) (sys.addWire label r.value?)) ∨
      (∃ label a b c, call = .enforce label a b c ∧
        (Constraint.mk label a b c).Within sys.wires.size ∧
        call.perform sys = .ok none (sys.addConstraint ⟨label, a, b, c⟩)) ∨
      ∃ e, call.perform sys = .error e sys := by
  cases call with
  | alloc label r =>
    cases r with
    | known x => exact .inl ⟨label, _, rfl, rfl⟩
    | missing => exact .inl ⟨label, _, rfl, rfl⟩
    | failed reason => exact .inr (.inr ⟨_, rfl⟩)
  | enforce label a b c =>
    by_cases h : ∀ t ∈ a ++ (b ++ c), sys.hasWire t.wire = true
    · refine .inr (.inl ⟨label, a, b, c, rfl, fun t ht => ?_, ?_⟩)
      · exact of_decide_eq_true (h t (by simpa [Constraint.sides] using ht))
      · simp only [perform, bind, EStateM.bind, System.enforce_eq_ok h]
        rfl
    · push Not at h
      obtain ⟨w, hw⟩ : ∃ w, System.enforce label a b c sys = .error (.unknownWire label w) sys :=
        System.enforce_eq_error (h.imp fun t ht => ⟨ht.1, Bool.eq_false_iff.mpr ht.2⟩)
      refine .inr (.inr ⟨.unknownWire label w, ?_⟩)
      simp only [perform, bind, EStateM.bind, hw]

omit [Modulus p] in
theorem Call.eq_of_perform_error {call : Call p} {sys sys' : System p} {e : CircuitError}
    (h : call.perform sys = .error e sys') : sys' = sys := by
  obtain ⟨_, _, -, hok⟩ | ⟨_, _, _, _, -, -, hok⟩ | ⟨e', herror⟩ := call.perform_cases sys
  · rw [h] at hok; cases hok
  · rw [h] at hok; cases hok
  · rw [h] at herror; cases herror; rfl

namespace System

variable {sys sys' : System p} {calls : List (Call p)} {call : Call p} {n m : ℕ}

/-- The system that calls leave behind. -/
def after (calls : List (Call p)) : System p :=
  calls.foldl (fun sys call => finalState (call.perform sys)) .initial

theorem after_take_succ (h : calls[n]? = some call) :
    after (calls.take (n + 1)) = finalState (call.perform (after (calls.take n))) := by
  rw [after, List.take_add_one, h, Option.toList_some, List.foldl_concat, ← after]

/-! ### Wires -/

/-- Wires keep their numbers, labels and values. -/
def Extends (sys sys' : System p) : Prop :=
  sys.wires.toList <+: sys'.wires.toList

omit [Modulus p] in
theorem Extends.size_le (h : sys.Extends sys') : sys.wires.size ≤ sys'.wires.size :=
  h.length_le

omit [Modulus p] in
theorem Extends.getElem? (h : sys.Extends sys') {entry : WireEntry p}
    (hentry : sys.wires[n]? = some entry) : sys'.wires[n]? = some entry := by
  rw [← Array.getElem?_toList] at hentry ⊢
  obtain ⟨more, hmore⟩ := h
  rw [← hmore, List.getElem?_append_left (List.getElem?_eq_some_iff.mp hentry).1, hentry]

omit [Modulus p] in
theorem extends_perform (call : Call p) (sys : System p) :
    sys.Extends (finalState (call.perform sys)) := by
  obtain ⟨label, r, -, h⟩ | ⟨label, a, b, c, -, -, h⟩ | ⟨e, h⟩ := call.perform_cases sys
  · rw [h, Extends, finalState, addWire, Array.toList_push]
    exact List.prefix_append _ _
  · rw [h]
    exact List.prefix_rfl
  · rw [h]
    exact List.prefix_rfl

/-- **Calls leave the wires alone that exist.** -/
theorem extends_after (calls : List (Call p)) (h : n ≤ m) :
    (after (calls.take n)).Extends (after (calls.take m)) := by
  induction m, h using Nat.le_induction with
  | base => exact List.prefix_rfl
  | succ m _ ih =>
    cases hcall : calls[m]? with
    | none =>
      have hlength := List.getElem?_eq_none_iff.mp hcall
      rw [List.take_of_length_le hlength] at ih
      rwa [List.take_of_length_le (Nat.le_succ_of_le hlength)]
    | some call =>
      rw [after_take_succ hcall]
      exact ih.trans (extends_perform call _)

theorem size_pos_after (calls : List (Call p)) : 0 < (after calls).wires.size := by
  have h := (extends_after calls (Nat.zero_le calls.length)).size_le
  rw [List.take_length] at h
  exact Nat.lt_of_lt_of_le Nat.zero_lt_one h

/-! ### Constraints -/

omit [Modulus p] in
theorem within_perform (h : ∀ k ∈ sys.constraints, k.Within sys.wires.size) (call : Call p) :
    ∀ k ∈ (finalState (call.perform sys)).constraints,
      k.Within (finalState (call.perform sys)).wires.size := by
  have hmono {k : Constraint p} (hk : k.Within sys.wires.size) :
      k.Within (finalState (call.perform sys)).wires.size :=
    fun t ht => (hk t ht).trans_le (extends_perform call sys).size_le
  obtain ⟨label, r, -, hcall⟩ | ⟨label, a, b, c, -, hwithin, hcall⟩ | ⟨e, hcall⟩ :=
    call.perform_cases sys
  · rw [hcall] at hmono ⊢
    exact fun k hk => hmono (h k hk)
  · rw [hcall] at hmono ⊢
    intro k hk
    obtain hk | rfl := Array.mem_push.mp hk
    · exact hmono (h k hk)
    · exact hmono hwithin
  · rwa [hcall]

/-- **Recorded constraints refer to wires that exist.** -/
theorem within_after (calls : List (Call p)) :
    ∀ k ∈ (after calls).constraints, k.Within (after calls).wires.size := by
  induction calls using List.reverseRecOn with
  | nil => exact fun k hk => absurd hk (Array.not_mem_empty k)
  | append_singleton calls call ih =>
    rw [after, List.foldl_concat, ← after]
    exact within_perform ih call

/-! ### Numbers of wires -/

/-- The call of a number succeeds in allocating a wire. -/
structure Allocates (calls : List (Call p)) (n : ℕ) (label : String) (r : Resolution p) (w : Wire) :
    Prop where
  call : calls[n]? = some (.alloc label r)
  result : ∃ sys, System.alloc label r (after (calls.take n)) = .ok w sys

variable {label : String} {r : Resolution p} {w : Wire}

theorem Allocates.entry (h : Allocates calls n label r w)
    (hsize : (after calls).wires.size ≤ 2 ^ 32) :
    w.toNat = (after (calls.take n)).wires.size ∧
      ∀ m, n < m → (after (calls.take m)).wires[w.toNat]? = some ⟨label, r.value?⟩ := by
  obtain ⟨sys, hresult⟩ := h.result
  have hperform : (Call.alloc label r).perform (after (calls.take n)) = .ok (some w) sys := by
    simp only [Call.perform, bind, EStateM.bind, hresult]
    rfl
  obtain ⟨_, _, heq, hnew⟩ | ⟨_, _, _, _, heq, -⟩ | ⟨e, hfails⟩ :=
    (Call.alloc label r).perform_cases (after (calls.take n))
  case inr.inl => cases heq
  case inr.inr => rw [hperform] at hfails; cases hfails
  cases heq
  have hsucc := after_take_succ h.call
  rw [hnew] at hsucc
  rw [hperform] at hnew
  injection hnew with hw
  have hlast : (after (calls.take (n + 1))).wires.size ≤ (after calls).wires.size := by
    have h := (extends_after calls (Nat.le_max_left (n + 1) calls.length)).size_le
    rwa [List.take_of_length_le (Nat.le_max_right _ _)] at h
  have hgrows : (after (calls.take (n + 1))).wires.size = (after (calls.take n)).wires.size + 1 := by
    rw [hsucc]
    exact Array.size_push _
  have hlt : (after (calls.take n)).wires.size < 2 ^ 32 := by omega
  have hnumber : w.toNat = (after (calls.take n)).wires.size := by
    rw [Option.some.inj hw, UInt32.toNat_ofNat_of_lt' hlt]
  refine ⟨hnumber, fun m hm => (extends_after calls hm).getElem? ?_⟩
  rw [hnumber, hsucc]
  exact Array.getElem?_push_size

theorem Allocates.unique (h : Allocates calls n label r w) {label' : String} {r' : Resolution p}
    (h' : Allocates calls m label' r' w) (hsize : (after calls).wires.size ≤ 2 ^ 32) : n = m := by
  have hlt {n m : ℕ} {label label' : String} {r r' : Resolution p} (h : Allocates calls n label r w)
      (h' : Allocates calls m label' r' w) (hnm : n < m) : False := by
    have hlater := (h.entry hsize).2 m hnm
    rw [(h'.entry hsize).1, Array.getElem?_eq_none le_rfl] at hlater
    cases hlater
  obtain hnm | hnm | hnm := Nat.lt_trichotomy n m
  · exact (hlt h h' hnm).elim
  · exact hnm
  · exact (hlt h' h hnm).elim

/-! ## The result -/

/-- **Whatever a new system is called to record, it stays consistent, and its check is exact.** A call
that fails changes nothing. An allocation gives a wire that no other allocation gave and that keeps its
label and value. Constraints refer to wires that exist. The check never faults; it passes if and only if
every constraint does, and otherwise names the first that does not. -/
theorem consistent_after (calls : List (Call p)) (hsize : (after calls).wires.size ≤ 2 ^ 32) :
    (∀ n call e sys, calls[n]? = some call → call.perform (after (calls.take n)) = .error e sys →
        sys = after (calls.take n)) ∧
      (∀ n label r w, Allocates calls n label r w → w ≠ Wire.one ∧
        (∀ m label' r', Allocates calls m label' r' w → m = n) ∧
        ∀ m, n < m → (after (calls.take m)).value? w = r.value? ∧
          (after (calls.take m)).label w = .ok label) ∧
      (∀ k ∈ (after calls).constraints, k.Within (after calls).wires.size) ∧
      (∀ index label cause, (after calls).check ≠ some (.unknown index label (.fault cause))) ∧
      ((after calls).check = none ↔ ∀ k ∈ (after calls).constraints, (after calls).Passes k) ∧
      ∀ v, (after calls).check = some v → ∃ index k, (after calls).constraints[index]? = some k ∧
        v.Reports (after calls) index k ∧
        (∃ reason, v.text = s!"constraint #{index} ({k.label})" ++ reason) ∧
        ¬ (after calls).Passes k ∧
        ∀ j k', j < index → (after calls).constraints[j]? = some k' → (after calls).Passes k' := by
  have hwithin := within_after calls
  refine ⟨fun n call e sys _ hfails => Call.eq_of_perform_error hfails,
    fun n label r w h => ⟨fun hone => ?_, fun m label' r' h' => h'.unique h hsize, fun m hm => ?_⟩,
    hwithin, check_ne_fault hwithin, check_eq_none_iff_passes hwithin, fun v hv => ?_⟩
  · have hnumber := (h.entry hsize).1
    rw [hone] at hnumber
    exact absurd hnumber.symm (size_pos_after _).ne'
  · have hentry := (h.entry hsize).2 m hm
    exact ⟨by rw [value?, hentry]; rfl, by rw [System.label, hentry]⟩
  · obtain ⟨index, k, hk, hreports, hbefore⟩ := reports_of_check hwithin hv
    exact ⟨index, k, hk, hreports, hreports.text, hreports.not_passes, hbefore⟩

/-- Two wires, an equation that holds, two calls that fail and a product that is wrong. -/
def wrongProduct : List (Call ScalarField.bn254.modulus) :=
  [.alloc "x" (.known (.ofNat 2)), .alloc "y" (.known (.ofNat 3)),
    .enforce "same" (.single 1) (.constant 1) (.single 1),
    .enforce "unknown" (.single 7) (.constant 1) (.single 1), .alloc "z" (.failed "broken"),
    .enforce "product" (.single 1) (.single 2) (.constant (.ofNat 5))]

/-- The second constraint is the first that does not pass. -/
theorem consistent_after_wrongProduct :
    (after wrongProduct).wires.size ≤ 2 ^ 32 ∧
      (after wrongProduct).check = some (.unequal 1 "product") ∧
      ∃ k, (after wrongProduct).constraints[1]? = some k ∧ ¬ (after wrongProduct).Passes k ∧
        ∀ j k', j < 1 → (after wrongProduct).constraints[j]? = some k' →
          (after wrongProduct).Passes k' := by
  have hsize : (after wrongProduct).wires.size ≤ 2 ^ 32 := by decide +kernel
  have hcheck : (after wrongProduct).check = some (.unequal 1 "product") := by decide +kernel
  obtain ⟨-, -, -, -, -, hexact⟩ := consistent_after wrongProduct hsize
  obtain ⟨index, k, hk, hreports, -, hpasses, hbefore⟩ := hexact _ hcheck
  obtain rfl : 1 = index := hreports.index_eq
  exact ⟨hsize, hcheck, k, hk, hpasses, hbefore⟩

end System

end StackCircuit.Circuit
