import EventTree.Event.Attributes
import EventTree.Tree.Names
import Mathlib.Tactic.SplitIfs
import Mathlib.Tactic.Tauto

/-!
# Sets of names as ascending lists

A list built by insertion is strictly ascending and has exactly the names that were
put in, so it is determined by them alone.
-/
namespace EventTree

@[simp] theorem mem_insertName {n name : String} {names : List String} :
    n ∈ insertName name names ↔ n = name ∨ n ∈ names := by
  induction names with
  | nil => simp [insertName]
  | cons m rest ih =>
    unfold insertName
    split_ifs with hlt heq
    · exact List.mem_cons
    · subst heq
      simp
    · rw [List.mem_cons, ih, List.mem_cons]
      tauto

theorem insertName_ascending (name : String) {names : List String}
    (h : names.Pairwise (· < ·)) : (insertName name names).Pairwise (· < ·) := by
  induction names with
  | nil => exact List.pairwise_singleton _ _
  | cons m rest ih =>
    have hm := List.pairwise_cons.1 h
    unfold insertName
    split_ifs with hlt heq
    · refine h.cons fun n hn => ?_
      rcases List.mem_cons.1 hn with rfl | hn
      · exact hlt
      · exact String.lt_trans hlt (hm.1 n hn)
    · exact h
    · have hgt : m < name := Attributes.lt_of_not_lt_of_ne hlt heq
      refine (ih hm.2).cons fun n hn => ?_
      rcases mem_insertName.1 hn with rfl | hn
      · exact hgt
      · exact hm.1 n hn

@[simp] theorem mem_distinctNames {n : String} {names : List String} :
    n ∈ distinctNames names ↔ n ∈ names := by
  induction names with
  | nil => simp [distinctNames]
  | cons name rest ih =>
    change n ∈ insertName name (distinctNames rest) ↔ _
    rw [mem_insertName, ih, List.mem_cons]

theorem distinctNames_ascending (names : List String) :
    (distinctNames names).Pairwise (· < ·) := by
  induction names with
  | nil => exact .nil
  | cons name rest ih => exact insertName_ascending name ih

theorem isSegment_iff {name : String} :
    isSegment name = true ↔ name ≠ "" ∧ '/' ∉ name.toList := by
  simp [isSegment]

end EventTree
