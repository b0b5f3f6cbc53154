import Mathlib.Data.Int.Order.Basic
import Mathlib.Order.Bounds.Defs
import Mathlib.Order.Lattice

/-! # Leading levels

The greatest index at which a family of integers is positive, and how it moves when
one of them changes. The least such index is the greatest one of the dual order.
-/

namespace FeederNet

/-- `best` is the greatest index of a positive level. While there is none, it does not
exceed `bottom`. -/
structure Leads [LinearOrder α] (bottom : α) (levels : α → Int) (best : α) : Prop where
  upper : ∀ index, 0 < levels index → index ≤ best
  attained : 0 < levels best ∨ (∀ index, ¬ 0 < levels index) ∧ best ≤ bottom

namespace Leads

variable [LinearOrder α] {bottom best index : α} {levels next : α → Int}

theorem of_empty (nothing : ∀ index, ¬ 0 < levels index) : Leads bottom levels bottom where
  upper index positive := absurd positive (nothing index)
  attained := .inr ⟨nothing, le_rfl⟩

/-- A level at or above `bottom` gets positive. -/
theorem raise (leads : Leads bottom levels best) (inside : bottom ≤ index)
    (positive : 0 < next index) (kept : ∀ other, other ≠ index → next other = levels other) :
    Leads bottom next (if best < index then index else best) where
  upper other member := by
    by_cases same : other = index
    · subst same
      split
      · exact le_rfl
      · rename_i ordered
        exact le_of_not_gt ordered
    · rw [kept other same] at member
      have below := leads.upper other member
      split
      · rename_i ordered
        exact le_trans below (le_of_lt ordered)
      · exact below
  attained := by
    split
    · exact .inl positive
    · rename_i ordered
      by_cases same : best = index
      · rw [same]
        exact .inl positive
      · rw [kept best same]
        rcases leads.attained with attained | ⟨_, low⟩
        · exact .inl attained
        · exact absurd (le_antisymm (le_trans low inside) (le_of_not_gt ordered)) same

/-- A level changes that is not the last to hold up `best`. -/
theorem lower (leads : Leads bottom levels best) (only : 0 < next index → 0 < levels index)
    (kept : ∀ other, other ≠ index → next other = levels other)
    (holds : index = best → 0 < levels index → 0 < next index) :
    Leads bottom next best where
  upper other member := by
    by_cases same : other = index
    · subst same
      exact leads.upper other (only member)
    · rw [kept other same] at member
      exact leads.upper other member
  attained := by
    rcases leads.attained with attained | ⟨nothing, low⟩
    · by_cases same : best = index
      · subst same
        exact .inl (holds rfl attained)
      · rw [kept best same]
        exact .inl attained
    · refine .inr ⟨fun other member => ?_, low⟩
      by_cases same : other = index
      · subst same
        exact nothing other (only member)
      · rw [kept other same] at member
        exact nothing other member

end Leads

end FeederNet
