import Mathlib.Data.List.Sort

/-! # Unstable sorting

A sort of which only its specification is known, and what that leaves open: the order of
elements that the comparator does not tell apart.
-/

namespace FeederNet

/-- A permutation of its input in the order of the comparator. -/
structure StdSort (α : Type u) (less : α → α → Prop) where
  sort : List α → List α
  perm : ∀ list, (sort list).Perm list
  ordered : ∀ list, (sort list).Pairwise fun first second => ¬ less second first

namespace StdSort

def byKey (less : α → α → Prop) (key : α → Nat)
    (finer : ∀ first second, less second first → key second < key first) :
    StdSort α less where
  sort := List.insertionSort fun first second => key first ≤ key second
  perm := List.perm_insertionSort _
  ordered list :=
    (List.pairwise_insertionSort (fun first second => key first ≤ key second) list).imp
      fun le after => Nat.lt_irrefl _ (Nat.lt_of_lt_of_le (finer _ _ after) le)

end StdSort

section Ties

variable {le : β → β → Prop} {rank : α → β} {left right part whole : List α}

/-- Sorted permutations agree when elements of one rank are equal. -/
theorem eq_of_perm_of_ties (antisymm : ∀ first second, le first second →
      le second first → first = second)
    (leftOrdered : left.Pairwise fun first second => le (rank first) (rank second))
    (rightOrdered : right.Pairwise fun first second => le (rank first) (rank second))
    (same : left.Perm right)
    (ties : ∀ first ∈ left, ∀ second ∈ right, rank first = rank second → first = second) :
    left = right := by
  apply List.Perm.eq_of_pairwise _ leftOrdered rightOrdered same
  intro first second inLeft inRight before after
  exact ties first inLeft second inRight (antisymm _ _ before after)

/-- A sorted selection then appears in the order of the sorted whole. -/
theorem sublist_of_subperm_of_ties (antisymm : ∀ first second, le first second →
      le second first → first = second)
    (partOrdered : part.Pairwise fun first second => le (rank first) (rank second))
    (wholeOrdered : whole.Pairwise fun first second => le (rank first) (rank second))
    (selected : part.Subperm whole)
    (ties : ∀ first ∈ whole, ∀ second ∈ whole, rank first = rank second →
      first = second) : part.Sublist whole := by
  rcases selected with ⟨selection, same, sublist⟩
  have equal : selection = part := by
    apply eq_of_perm_of_ties antisymm (wholeOrdered.sublist sublist) partOrdered same
    intro first inSelection second inPart
    exact ties first (sublist.subset inSelection) second
      (sublist.subset (same.symm.subset inPart))
  rw [← equal]
  exact sublist

end Ties

theorem pair_sublist_or {first second : α} {list : List α} (different : first ≠ second)
    (firstMem : first ∈ list) (secondMem : second ∈ list) :
    [first, second].Sublist list ∨ [second, first].Sublist list := by
  induction list with
  | nil => cases firstMem
  | cons head list induction =>
      rcases List.mem_cons.mp firstMem with rfl | firstLater
      · left
        rcases List.mem_cons.mp secondMem with rfl | secondLater
        · exact absurd rfl different
        · exact (List.singleton_sublist.mpr secondLater).cons_cons _
      · rcases List.mem_cons.mp secondMem with rfl | secondLater
        · right
          exact (List.singleton_sublist.mpr firstLater).cons_cons _
        · exact (induction firstLater secondLater).imp (·.cons _) (·.cons _)

theorem filter_byKey (less : α → α → Prop) (key : α → Nat)
    (finer : ∀ first second, less second first → key second < key first) (value : Nat)
    (list : List α) :
    ((StdSort.byKey less key finer).sort list).filter (fun element => key element = value) =
      list.filter fun element => key element = value := by
  have le : (list.filter fun element => decide (key element = value)).Pairwise
      fun first second => key first ≤ key second := by
    rw [List.pairwise_filter]
    apply List.pairwise_of_forall
    intro first second firstKey secondKey
    rw [decide_eq_true_eq] at firstKey secondKey
    rw [firstKey, secondKey]
  have kept := (List.sublist_insertionSort le List.filter_sublist).filter
    fun element => decide (key element = value)
  have count := ((StdSort.byKey less key finer).perm list).filter
    fun element => decide (key element = value)
  simp only [List.filter_filter, Bool.and_self] at kept
  exact (kept.eq_of_length count.length_eq.symm).symm

end FeederNet
