import Mathlib.Data.Nat.Notation
import Mathlib.Tactic.SplitIfs
import StackCircuit.Lexical.Scanner

/-!
# What scanners accept

* **`Scanner.EndFree.accepts`**: a scanner that does not match the end of the text gives no fault, and
  accepts no more than there is.
* `IsRun`: a run of items of a class, as long as it can be.
* `Scanner.Spots`: scanners of single characters; `Scanner.Spots.many`: repeated, they accept the
  longest run of such characters.
-/

namespace StackCircuit.Lexical

variable {α : Type}

/-- A function that gives no fault and accepts no more items than there are. -/
def Accept.Modest (f : Accept α) : Prop :=
  ∀ items, ∃ n ≤ items.length, f items = .ok n

/-! ## Runs -/

/-- A run of items of a class, as long as it can be: the items behind it do not continue it. -/
structure IsRun (p : α → Bool) (run rest : List α) : Prop where
  forall_mem : ∀ a ∈ run, p a
  breaks : rest.head?.any p = false

section

variable {p : α → Bool} {run rest : List α}

theorem IsRun.takeWhile_eq (h : IsRun p run rest) : (run ++ rest).takeWhile p = run := by
  rw [List.takeWhile_append_of_pos h.forall_mem]
  obtain _ | ⟨a, rest⟩ := rest
  · exact List.append_nil run
  · have ha : p a = false := h.breaks
    rw [List.takeWhile_cons_of_neg (by simp [ha]), List.append_nil]

theorem exists_isRun (p : α → Bool) (items : List α) :
    ∃ run rest, items = run ++ rest ∧ IsRun p run rest := by
  refine ⟨items.takeWhile p, items.dropWhile p, List.takeWhile_append_dropWhile.symm, ?_, ?_⟩
  · exact List.all_eq_true.mp List.all_takeWhile
  · have hhead := List.head?_dropWhile_not p items
    cases h : (items.dropWhile p).head? with
    | none => rfl
    | some a =>
      rw [h] at hhead
      exact hhead

end

namespace Scanner

/-! ## Repetition and sequences -/

theorem dropExactly?_of_le {n : ℕ} {items : List α} (h : n ≤ items.length) :
    dropExactly? n items = some (items.drop n) := by
  induction n generalizing items with
  | zero => rfl
  | succ n ih =>
    obtain _ | ⟨a, rest⟩ := items
    · simp at h
    · simpa [dropExactly?] using ih (by simpa using h)

theorem repeated_of_modest {f : Accept α} (hf : f.Modest) {skip : ℕ} {items : List α}
    (hskip : skip ≤ items.length) (accepted : ℕ) :
    ∃ n ≤ accepted + (items.length - skip), repeated f accepted skip items = .ok n := by
  induction items generalizing skip accepted with
  | nil => exact ⟨accepted, by simp, by simp [repeated]⟩
  | cons a rest ih =>
    rw [List.length_cons] at hskip ⊢
    obtain _ | skip := skip
    · obtain ⟨n, hn, hfn⟩ := hf (a :: rest)
      rw [List.length_cons] at hn
      obtain _ | n := n
      · exact ⟨accepted, by omega, by simp [repeated, hfn]⟩
      · have hn : n ≤ rest.length := by omega
        obtain ⟨k, hk, hrepeated⟩ := ih hn (accepted + (n + 1))
        exact ⟨k, by omega, by simpa [repeated, hfn] using hrepeated⟩
    · have hskip : skip ≤ rest.length := by omega
      obtain ⟨k, hk, hrepeated⟩ := ih hskip accepted
      exact ⟨k, by omega, by simpa [repeated] using hrepeated⟩

theorem acceptUnit_le (chars text : List Char) : acceptUnit chars text ≤ text.length := by
  rw [acceptUnit]
  split
  case isTrue h => exact (List.isPrefixOf_iff_prefix.mp h).length_le
  case isFalse => exact Nat.zero_le _

section Lists

variable {scanners : List Scanner} (h : ∀ s ∈ scanners, Accept.Modest s.accept)
include h

theorem acceptAll_of_modest {text : List Char} {longest : ℕ} (hlongest : longest ≤ text.length) :
    ∃ n ≤ text.length, acceptAll scanners longest text = .ok n := by
  induction scanners generalizing longest with
  | nil => exact ⟨longest, hlongest, by rw [acceptAll]⟩
  | cons s rest ih =>
    obtain ⟨n, hn, hs⟩ := h s List.mem_cons_self text
    obtain _ | n := n
    · exact ⟨0, Nat.zero_le _, by rw [acceptAll, hs]⟩
    · obtain ⟨k, hk, hrest⟩ := ih (fun s hs => h s (List.mem_cons_of_mem _ hs))
        (Nat.max_le.mpr ⟨hlongest, hn⟩)
      exact ⟨k, hk, by rw [acceptAll, hs, ← hrest]⟩

theorem acceptAny_of_modest (text : List Char) :
    ∃ n ≤ text.length, acceptAny scanners text = .ok n := by
  induction scanners with
  | nil => exact ⟨0, Nat.zero_le _, by rw [acceptAny]⟩
  | cons s rest ih =>
    obtain ⟨n, hn, hs⟩ := h s List.mem_cons_self text
    obtain _ | n := n
    · obtain ⟨k, hk, hrest⟩ := ih fun s hs => h s (List.mem_cons_of_mem _ hs)
      exact ⟨k, hk, by rw [acceptAny, hs, ← hrest]⟩
    · exact ⟨n + 1, hn, by rw [acceptAny, hs]⟩

theorem acceptSequence_of_modest (accepted : ℕ) (text : List Char) :
    ∃ n ≤ accepted + text.length, acceptSequence scanners accepted text = .ok n := by
  induction scanners generalizing accepted text with
  | nil => exact ⟨accepted, Nat.le_add_right _ _, by rw [acceptSequence]⟩
  | cons s rest ih =>
    obtain ⟨n, hn, hs⟩ := h s List.mem_cons_self text
    obtain ⟨k, hk, hrest⟩ := ih (fun s hs => h s (List.mem_cons_of_mem _ hs)) (accepted + n)
      (text.drop n)
    rw [List.length_drop] at hk
    simp only [acceptSequence, hs, dropExactly?_of_le hn]
    split_ifs
    · exact ⟨accepted + n, by omega, rfl⟩
    · exact ⟨0, Nat.zero_le _, rfl⟩
    · exact ⟨k, by omega, hrest⟩

end Lists

/-! ## Scanners without the end of the text -/

/-- The end of the text is nowhere in the scanner. -/
inductive EndFree : Scanner → Prop
  | unit (chars : List Char) : EndFree (unit chars)
  | within (low high : Char) : EndFree (within low high)
  | upTo (stop : Char) : EndFree (upTo stop)
  | many {s : Scanner} (h : EndFree s) : EndFree (many s)
  | all {ss : List Scanner} (h : ∀ s ∈ ss, EndFree s) : EndFree (all ss)
  | any {ss : List Scanner} (h : ∀ s ∈ ss, EndFree s) : EndFree (any ss)
  | sequence {ss : List Scanner} (h : ∀ s ∈ ss, EndFree s) : EndFree (sequence ss)
  | keyword (word : List Char) {s : Scanner} (h : EndFree s) : EndFree (keyword word s)

section

variable {s : Scanner} {ss : List Scanner}

@[simp] theorem endFree_unit (chars : List Char) : EndFree (unit chars) := .unit chars

@[simp] theorem endFree_within (low high : Char) : EndFree (within low high) := .within low high

@[simp] theorem endFree_upTo (stop : Char) : EndFree (upTo stop) := .upTo stop

@[simp] theorem endFree_many : EndFree (many s) ↔ EndFree s := ⟨fun (.many h) => h, .many⟩

@[simp] theorem endFree_all : EndFree (all ss) ↔ ∀ s ∈ ss, EndFree s := ⟨fun (.all h) => h, .all⟩

@[simp] theorem endFree_any : EndFree (any ss) ↔ ∀ s ∈ ss, EndFree s := ⟨fun (.any h) => h, .any⟩

@[simp] theorem endFree_sequence : EndFree (sequence ss) ↔ ∀ s ∈ ss, EndFree s :=
  ⟨fun (.sequence h) => h, .sequence⟩

@[simp] theorem endFree_keyword {word : List Char} : EndFree (keyword word s) ↔ EndFree s :=
  ⟨fun (.keyword _ h) => h, .keyword word⟩

end

/-- **Scanners stay within the text.** -/
theorem EndFree.accepts {s : Scanner} (h : EndFree s) : Accept.Modest s.accept := by
  induction h with
  | unit chars => exact fun text => ⟨_, acceptUnit_le chars text, by rw [accept]⟩
  | within low high =>
    intro text
    cases text with
    | nil => exact ⟨0, Nat.zero_le _, by rw [accept]⟩
    | cons c rest =>
      refine ⟨if low ≤ c ∧ c ≤ high then 1 else 0, ?_, by rw [accept]⟩
      split_ifs <;> simp
  | upTo stop =>
    exact fun text => ⟨_, (List.takeWhile_sublist _).length_le, by rw [accept]⟩
  | many _ ih =>
    intro text
    obtain ⟨n, hn, hrepeated⟩ := repeated_of_modest ih (Nat.zero_le text.length) 0
    exact ⟨n, by omega, by rw [accept_many, hrepeated]⟩
  | all _ ih =>
    intro text
    obtain ⟨n, hn, hall⟩ := acceptAll_of_modest ih (Nat.zero_le text.length)
    exact ⟨n, hn, by rw [accept, hall]⟩
  | any _ ih =>
    intro text
    obtain ⟨n, hn, hany⟩ := acceptAny_of_modest ih text
    exact ⟨n, hn, by rw [accept, hany]⟩
  | sequence _ ih =>
    intro text
    obtain ⟨n, hn, hsequence⟩ := acceptSequence_of_modest ih 0 text
    exact ⟨n, by omega, by rw [accept, hsequence]⟩
  | keyword word _ ih =>
    intro text
    have hunit := acceptUnit_le word text
    rw [accept]
    split
    case h_1 => exact ⟨0, Nat.zero_le _, rfl⟩
    case h_2 n hn =>
      rw [hn] at hunit
      split
      case h_1 => exact ⟨n + 1, hunit, rfl⟩
      case h_2 c after _ =>
        obtain ⟨k, -, hrest⟩ := ih (c :: after)
        rw [hrest]
        obtain _ | k := k
        · exact ⟨n + 1, hunit, rfl⟩
        · exact ⟨0, Nat.zero_le _, rfl⟩

/-! ## Scanners of single characters -/

/-- The scanner accepts one character, namely one with a given property. -/
def Spots (s : Scanner) (p : Char → Bool) : Prop :=
  ∀ text, s.accept text = .ok (text.head?.any p).toNat

variable {s : Scanner} {ss : List Scanner} {p q : Char → Bool}

theorem spots_unit (c : Char) : Spots (unit [c]) (· == c) := by
  rintro (_ | ⟨a, rest⟩)
  · simp [accept, acceptUnit]
  · by_cases h : a = c
    · simp [accept, acceptUnit, h]
    · simp [accept, acceptUnit, Ne.symm h, beq_eq_false_iff_ne.mpr h]

theorem spots_within (low high : Char) :
    Spots (within low high) fun c => low ≤ c && c ≤ high := by
  rintro (_ | ⟨a, rest⟩)
  · simp [accept]
  · by_cases hlow : low ≤ a <;> by_cases hhigh : a ≤ high <;> simp [accept, hlow, hhigh]

theorem spots_any_nil : Spots (any []) fun _ => false := by
  intro text
  cases text <;> simp [accept, acceptAny]

theorem Spots.any_cons (hs : Spots s p) (hss : Spots (any ss) q) :
    Spots (any (s :: ss)) fun c => p c || q c := by
  intro text
  have hrest := hss text
  rw [accept] at hrest
  simp only [accept, acceptAny, hs text, hrest]
  obtain _ | ⟨a, rest⟩ := text
  · rfl
  · cases hp : p a <;> simp [hp]

theorem accept_any_pair {s' : Scanner} {text : List Char} {m n : ℕ} (hs : s.accept text = .ok m)
    (hs' : s'.accept text = .ok n) :
    (any [s, s']).accept text = .ok (if m = 0 then n else m) := by
  simp only [accept, acceptAny, hs, hs']
  obtain _ | m := m
  · obtain _ | n := n <;> rfl
  · rfl

theorem Spots.repeated (hs : Spots s p) (accepted : ℕ) (text : List Char) :
    repeated s.accept accepted 0 text = .ok (accepted + (text.takeWhile p).length) := by
  induction text generalizing accepted with
  | nil => simp [Scanner.repeated]
  | cons a rest ih =>
    rw [Scanner.repeated, hs]
    cases hp : p a
    · simp [hp]
    · simp [hp, ih, Nat.add_assoc, Nat.add_comm 1]

theorem Spots.many (hs : Spots s p) (text : List Char) :
    (many s).accept text = .ok (text.takeWhile p).length := by
  rw [accept_many, hs.repeated, Nat.zero_add]

/-- The number of characters in a character of one class and a run of others behind it. -/
def runLength (p q : Char → Bool) : List Char → ℕ
  | [] => 0
  | c :: rest => if p c then (rest.takeWhile q).length + 1 else 0

theorem runLength_of_isRun {c : Char} {cs rest : List Char} (hc : p c) (h : IsRun q cs rest) :
    runLength p q (c :: (cs ++ rest)) = cs.length + 1 := by
  rw [runLength, if_pos hc, h.takeWhile_eq]

theorem Spots.acceptSequence {r : Scanner} (hs : Spots s p) (hr : Spots r q) (accepted : ℕ)
    (text : List Char) :
    acceptSequence [s, Scanner.many r] accepted text =
      .ok (if runLength p q text = 0 then 0 else accepted + runLength p q text) := by
  have hmany (after : List Char) : (Scanner.many r).accept after =
      .ok (after.takeWhile q).length := hr.many after
  obtain _ | ⟨c, rest⟩ := text
  · simp [Scanner.acceptSequence, hs [], runLength]
  · cases hc : p c <;>
      simp [Scanner.acceptSequence, hs (c :: rest), hmany, hc, dropExactly?, runLength,
        Nat.add_comm, Nat.add_left_comm]

theorem Spots.run {r : Scanner} (hs : Spots s p) (hr : Spots r q) (text : List Char) :
    (sequence [s, Scanner.many r]).accept text = .ok (runLength p q text) := by
  rw [accept, hs.acceptSequence hr, Nat.zero_add]
  split_ifs with h <;> simp [h]

theorem Spots.run_behind {r : Scanner} (hs : Spots s p) (hr : Spots r q) {word : List Char}
    (hword : word ≠ []) (text : List Char) :
    (sequence [unit word, s, Scanner.many r]).accept text =
      .ok (if word <+: text ∧ runLength p q (text.drop word.length) ≠ 0 then
        word.length + runLength p q (text.drop word.length) else 0) := by
  have hlength : word.length ≠ 0 := mt List.length_eq_zero_iff.mp hword
  rw [accept, Scanner.acceptSequence, accept, acceptUnit]
  by_cases hstart : word <+: text
  · simp only [List.isPrefixOf_iff_prefix.mpr hstart, if_true, hlength, if_false,
      dropExactly?_of_le hstart.length_le, hs.acceptSequence hr, Nat.zero_add, hstart, true_and]
    simp
  · simp [hstart]

end Scanner

end StackCircuit.Lexical
