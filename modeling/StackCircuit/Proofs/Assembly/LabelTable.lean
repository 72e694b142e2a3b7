import Mathlib.Data.List.Nodup
import Mathlib.Logic.Function.Basic
import StackCircuit.Assembly.Labels

/-!
# The table of labels

No name is twice in the table, so a name has at most one position.

* `Labels.declare_cases`: what a declaration does.
* **`Labels.Holds`**: the positions of the names that are declared; `Holds.note`, `Holds.declare` and
  `Holds.position?`: uses, declarations and lookups.
-/

namespace StackCircuit.Assembly.Labels

variable {l l' : Labels} {name : String} {p : UInt64} {f : String → Option UInt64}

theorem declare_cases (l : Labels) (name : String) (p : UInt64) :
    (name ∉ l.labels.toList.map Label.name ∧
        l.declare name p = some { l with labels := l.labels.push ⟨name, p⟩ }) ∨
      ∃ before label after, l.labels.toList = before ++ label :: after ∧ label.name = name ∧
        l.declare name p =
          if label.position = Label.undeclared then
            some { l with labels := (before ++ ⟨name, p⟩ :: after).toArray }
          else none := by
  rw [declare]
  split
  case h_1 hnone =>
    refine .inl ⟨fun hmem => ?_, rfl⟩
    obtain ⟨label, hlabel, hname⟩ := List.mem_map.mp hmem
    rw [Array.findIdx?_eq_none_iff] at hnone
    simpa [hname] using hnone label (Array.mem_toList_iff.mp hlabel)
  case h_2 i hsome =>
    obtain ⟨hi, hname, -⟩ := Array.findIdx?_eq_some_iff_getElem.mp hsome
    have hlength : i < l.labels.toList.length := hi
    have hname : l.labels[i].name = name := beq_iff_eq.mp hname
    have hmodify : l.labels.modify i (fun label => { label with position := p }) =
        (l.labels.toList.take i ++ ⟨name, p⟩ :: l.labels.toList.drop (i + 1)).toArray := by
      refine Array.ext' ?_
      rw [Array.toList_modify, List.modify_eq_take_cons_drop hlength, Array.getElem_toList, hname]
    refine .inr ⟨l.labels.toList.take i, l.labels[i], l.labels.toList.drop (i + 1), ?_, hname, ?_⟩
    · rw [← Array.getElem_toList, ← List.drop_eq_getElem_cons hlength, List.take_append_drop]
    · rw [hmodify]
      by_cases hposition : l.labels[i].position = Label.undeclared <;>
        simp [Array.getElem?_eq_getElem hi, hposition]

/-- The table has each name once, and the positions of the names that are declared. -/
structure Holds (l : Labels) (f : String → Option UInt64) : Prop where
  nodup : (l.labels.toList.map Label.name).Nodup
  mem : ∀ name p, ⟨name, p⟩ ∈ l.labels.toList ∧ p ≠ Label.undeclared ↔ f name = some p

theorem holds_empty : Holds empty fun _ => none where
  nodup := List.nodup_nil
  mem := by simp [empty]

theorem Holds.eq_none (h : Holds l f) (hname : name ∉ l.labels.toList.map Label.name) :
    f name = none := by
  refine Option.eq_none_iff_forall_ne_some.mpr fun p hp => hname ?_
  exact List.mem_map.mpr ⟨_, ((h.mem name p).mpr hp).1, rfl⟩

theorem Holds.note (h : Holds l f) (r : Reference) : Holds (l.note r) f := by
  by_cases hany : l.labels.any (·.name == r.name)
  · have hlabels : (l.note r).labels = l.labels := by simp only [Labels.note, if_pos hany]
    exact ⟨hlabels ▸ h.nodup, hlabels ▸ h.mem⟩
  · have hlabels : (l.note r).labels = l.labels.push ⟨r.name, Label.undeclared⟩ := by
      simp only [Labels.note, if_neg hany]
    have hnew : r.name ∉ l.labels.toList.map Label.name := by
      simpa [← Array.any_toList] using hany
    refine ⟨?_, fun name p => ?_⟩
    · rw [hlabels, Array.toList_push, List.map_append]
      exact List.nodup_append'.mpr ⟨h.nodup, by simp, by simpa using hnew⟩
    · rw [← h.mem, hlabels, Array.toList_push]
      simp only [List.mem_append, List.mem_singleton, Label.mk.injEq]
      exact ⟨fun ⟨hmem, hp⟩ => ⟨hmem.resolve_right fun heq => hp heq.2, hp⟩,
        fun ⟨hmem, hp⟩ => ⟨.inl hmem, hp⟩⟩

theorem Holds.label_eq (h : Holds l f) {label : Label} (hlabel : label ∈ l.labels.toList)
    (hmem : ⟨label.name, p⟩ ∈ l.labels.toList) : label.position = p :=
  congrArg Label.position (List.inj_on_of_nodup_map h.nodup hlabel hmem rfl)

theorem Holds.push (h : Holds l f) (hname : name ∉ l.labels.toList.map Label.name)
    (hp : p ≠ Label.undeclared) :
    Holds { l with labels := l.labels.push ⟨name, p⟩ } (Function.update f name (some p)) := by
  refine ⟨?_, fun m q => ?_⟩
  · rw [Array.toList_push, List.map_append]
    exact List.nodup_append'.mpr ⟨h.nodup, by simp, by simpa using hname⟩
  · rw [Array.toList_push]
    simp only [List.mem_append, List.mem_singleton, Label.mk.injEq]
    by_cases hm : m = name
    · subst hm
      have hnot : ⟨m, q⟩ ∉ l.labels.toList := fun hmem => hname (List.mem_map.mpr ⟨_, hmem, rfl⟩)
      simp only [hnot, false_or, true_and, Function.update_self, Option.some.injEq]
      exact ⟨fun hq => hq.1.symm, fun hq => ⟨hq.symm, hq ▸ hp⟩⟩
    · simpa [Function.update_of_ne hm, hm] using h.mem m q

theorem Holds.fill (h : Holds l f) {before after : List Label} {label : Label}
    (hlabels : l.labels.toList = before ++ label :: after) (hlabel : label.name = name)
    (hp : p ≠ Label.undeclared) :
    Holds { l with labels := (before ++ ⟨name, p⟩ :: after).toArray }
      (Function.update f name (some p)) := by
  have hnames : (before ++ ⟨name, p⟩ :: after).map Label.name = l.labels.toList.map Label.name := by
    simp [hlabels, hlabel]
  have hnodup : ((before ++ ⟨name, p⟩ :: after).map Label.name).Nodup := hnames ▸ h.nodup
  refine ⟨hnodup, fun m q => ?_⟩
  change ⟨m, q⟩ ∈ before ++ ⟨name, p⟩ :: after ∧ q ≠ Label.undeclared ↔ _
  by_cases hm : m = name
  · subst hm
    have hunique (hmem : ⟨m, q⟩ ∈ before ++ ⟨m, p⟩ :: after) : p = q :=
      congrArg Label.position
        (List.inj_on_of_nodup_map hnodup (List.mem_append_right _ List.mem_cons_self) hmem rfl)
    rw [Function.update_self, Option.some.injEq]
    exact ⟨fun hq => hunique hq.1, fun hq => hq ▸ ⟨by simp, hp⟩⟩
  · have hne : (⟨m, q⟩ : Label) ≠ ⟨name, p⟩ := fun heq => hm (congrArg Label.name heq)
    have hne' : (⟨m, q⟩ : Label) ≠ label := by
      rintro rfl
      exact hm hlabel
    rw [Function.update_of_ne hm, ← h.mem, hlabels]
    simp [hne, hne']

/-- **A name can be declared once.** -/
theorem Holds.declare (h : Holds l f) (name : String) (hp : p ≠ Label.undeclared) :
    (f name ≠ none ∧ l.declare name p = none) ∨
      (f name = none ∧ ∃ l', l.declare name p = some l' ∧ l'.references = l.references ∧
        Holds l' (Function.update f name (some p))) := by
  obtain ⟨hname, hdeclare⟩ | ⟨before, label, after, hlabels, hlabel, hdeclare⟩ :=
    l.declare_cases name p
  · exact .inr ⟨h.eq_none hname, _, hdeclare, rfl, h.push hname hp⟩
  have hmem : label ∈ l.labels.toList := hlabels ▸ List.mem_append_right _ List.mem_cons_self
  by_cases hposition : label.position = Label.undeclared
  · rw [if_pos hposition] at hdeclare
    refine .inr ⟨Option.eq_none_iff_forall_ne_some.mpr fun q hq => ?_, _, hdeclare, rfl,
      h.fill hlabels hlabel hp⟩
    obtain ⟨hq, hne⟩ := (h.mem name q).mpr hq
    exact hne (h.label_eq hmem (hlabel ▸ hq) ▸ hposition)
  · rw [if_neg hposition] at hdeclare
    have hname := (h.mem label.name label.position).mp ⟨hmem, hposition⟩
    exact .inl ⟨by simp [← hlabel, hname], hdeclare⟩

theorem Holds.position? (h : Holds l f) : l.position? = f := by
  funext name
  rw [Labels.position?, ← Array.find?_toList]
  cases hfind : l.labels.toList.find? fun label =>
      label.name == name && label.position != Label.undeclared with
  | none =>
    refine (Option.eq_none_iff_forall_ne_some.mpr fun p hp => ?_).symm
    obtain ⟨hmem, hne⟩ := (h.mem name p).mpr hp
    simpa [hne] using List.find?_eq_none.mp hfind _ hmem
  | some label =>
    have hlabel := List.find?_some hfind
    simp only [Bool.and_eq_true, beq_iff_eq, bne_iff_ne] at hlabel
    exact hlabel.1 ▸ ((h.mem label.name label.position).mp
      ⟨List.mem_of_find?_eq_some hfind, hlabel.2⟩).symm

end StackCircuit.Assembly.Labels
