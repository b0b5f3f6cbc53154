import FeederNet.Foundation.LeadingLevel
import FeederNet.OrderBook
import Mathlib.Algebra.BigOperators.Group.List.Basic
import Mathlib.Algebra.Ring.Int.Defs
import Mathlib.Data.List.Range

/-! # Price levels

The loops of `updatePriceLevel` and `print`, and the totals of the live orders.
-/

namespace FeederNet.OrderBook

variable {Price : Type} {config : Config Price}

/-! ## The loops -/

section Loops

variable {levels : Int → Int} {start : Int}

theorem mem_downFrom {index : Int} :
    index ∈ downFrom start ↔ 0 ≤ index ∧ index ≤ start := by
  simp only [downFrom, List.mem_map, List.mem_reverse, List.mem_range]
  constructor
  · intro given
    rcases given with ⟨place, below, rfl⟩
    simp only [Int.ofNat_eq_natCast]
    omega
  · intro given
    rcases given with ⟨nonnegative, below⟩
    exact ⟨index.toNat, by omega, by simpa using nonnegative⟩

theorem mem_upFrom {index : Int} (nonnegative : 0 ≤ start) :
    index ∈ upFrom config start ↔ start ≤ index ∧ index < config.maxPriceLevels := by
  rw [upFrom, if_pos nonnegative, List.mem_map]
  constructor
  · intro given
    rcases given with ⟨place, member, rfl⟩
    rw [List.mem_range'_1] at member
    simp only [Int.ofNat_eq_natCast]
    omega
  · intro given
    rcases given with ⟨above, below⟩
    refine ⟨index.toNat, ?_, by simp only [Int.ofNat_eq_natCast]; omega⟩
    rw [List.mem_range'_1]
    omega

theorem downFrom_descending (start : Int) :
    (downFrom start).Pairwise fun earlier later => later < earlier := by
  rw [downFrom, List.pairwise_map, List.pairwise_reverse]
  exact List.pairwise_lt_range.imp fun ordered => Int.ofNat_lt.mpr ordered

theorem upFrom_ascending (start : Int) :
    (upFrom config start).Pairwise fun earlier later => earlier < later := by
  unfold upFrom
  split
  · rw [List.pairwise_map]
    exact (List.pairwise_lt_range' 1).imp fun ordered => Int.ofNat_lt.mpr ordered
  · exact List.Pairwise.nil

theorem firstPositive_eq_some {before : Int → Int → Prop} {indices : List Int} {found : Int}
    (ordered : indices.Pairwise before)
    (finds : firstPositive levels indices = some found) :
    0 < levels found ∧ ∀ index ∈ indices, 0 < levels index →
      index = found ∨ before found index := by
  rcases List.find?_eq_some_iff_append.mp finds with ⟨positive, front, back, rfl, passed⟩
  refine ⟨of_decide_eq_true positive, ?_⟩
  intro index member positive
  rcases List.mem_append.mp member with early | late
  · have skipped := passed index early
    simp [positive] at skipped
  · rcases List.mem_cons.mp late with same | later
    · exact .inl same
    · rw [List.pairwise_append, List.pairwise_cons] at ordered
      exact .inr (ordered.2.1.1 index later)

theorem firstPositive_eq_none {indices : List Int}
    (finds : firstPositive levels indices = none) :
    ∀ index ∈ indices, ¬ 0 < levels index := by
  intro index member
  have passed := List.find?_eq_none.mp finds index member
  simpa using passed

theorem leads_downFrom
    (bounded : ∀ index, 0 < levels index → 0 ≤ index ∧ index ≤ start) :
    Leads 0 levels ((firstPositive levels (downFrom start)).getD 0) := by
  cases finds : firstPositive levels (downFrom start) with
  | none =>
      refine Leads.of_empty fun index positive => ?_
      exact firstPositive_eq_none finds index (mem_downFrom.mpr (bounded index positive))
        positive
  | some found =>
      rcases firstPositive_eq_some (downFrom_descending start) finds with
        ⟨positive, first⟩
      refine ⟨fun index member => ?_, .inl positive⟩
      rcases first index (mem_downFrom.mpr (bounded index member)) member with same | less
      · exact le_of_eq same
      · exact le_of_lt less

theorem leads_upFrom (nonnegative : 0 ≤ start)
    (bounded : ∀ index, 0 < levels index →
      start ≤ index ∧ index < config.maxPriceLevels) :
    Leads (OrderDual.toDual (config.maxPriceLevels - 1 : Int))
      (fun index => levels (OrderDual.ofDual index))
      (OrderDual.toDual ((firstPositive levels (upFrom config start)).getD
        (config.maxPriceLevels - 1))) := by
  cases finds : firstPositive levels (upFrom config start) with
  | none =>
      refine Leads.of_empty fun index positive => ?_
      exact firstPositive_eq_none finds (OrderDual.ofDual index)
        ((mem_upFrom nonnegative).mpr (bounded _ positive)) positive
  | some found =>
      rcases firstPositive_eq_some (upFrom_ascending start) finds with ⟨positive, first⟩
      refine ⟨fun index member => ?_, .inl positive⟩
      change found ≤ OrderDual.ofDual index
      rcases first (OrderDual.ofDual index)
        ((mem_upFrom nonnegative).mpr (bounded _ member)) member with same | less
      · exact le_of_eq same.symm
      · exact le_of_lt less

end Loops

/-! ## Totals -/

structure LiveOrder (Price : Type) where
  address : Address
  order : Order Price
  deriving DecidableEq, Repr

def LiveOrder.At (config : Config Price) (isBuy : Bool) (index : Int)
    (entry : LiveOrder Price) : Prop :=
  entry.order.isBuy = isBuy ∧ config.priceToIndex entry.order.price = index

instance (isBuy : Bool) (index : Int) (entry : LiveOrder Price) :
    Decidable (entry.At config isBuy index) :=
  inferInstanceAs (Decidable (_ ∧ _))

def total (config : Config Price) (isBuy : Bool) (live : List (LiveOrder Price))
    (index : Int) : Int :=
  ((live.filter fun entry => decide (entry.At config isBuy index)).map
    fun entry => entry.order.quantity).sum

section Totals

variable {live rest : List (LiveOrder Price)} {entry : LiveOrder Price} {isBuy : Bool}
  {index : Int}

theorem total_cons (config : Config Price) (isBuy : Bool) (entry : LiveOrder Price)
    (live : List (LiveOrder Price)) (index : Int) :
    total config isBuy (entry :: live) index =
      (if entry.At config isBuy index then entry.order.quantity else 0) +
        total config isBuy live index := by
  unfold total
  by_cases at_index : entry.At config isBuy index
  · rw [List.filter_cons_of_pos (by simpa using at_index), if_pos at_index]
    rfl
  · rw [List.filter_cons_of_neg (by simpa using at_index), if_neg at_index, Int.zero_add]

theorem total_perm (perm : live.Perm rest) :
    total config isBuy live index = total config isBuy rest index :=
  ((perm.filter _).map _).sum_eq

theorem total_nonneg (config : Config Price) (isBuy : Bool) (index : Int)
    (positive : ∀ entry ∈ live, 0 < entry.order.quantity) :
    0 ≤ total config isBuy live index := by
  induction live with
  | nil => exact le_rfl
  | cons entry live induction =>
      rw [List.forall_mem_cons] at positive
      have tail := induction positive.2
      rw [total_cons]
      split <;> omega

theorem total_pos_iff (positive : ∀ entry ∈ live, 0 < entry.order.quantity) :
    0 < total config isBuy live index ↔ ∃ entry ∈ live, entry.At config isBuy index := by
  induction live with
  | nil => exact iff_of_false (lt_irrefl _) nofun
  | cons entry live induction =>
      rw [List.forall_mem_cons] at positive
      have tail := total_nonneg config isBuy index positive.2
      rw [List.exists_mem_cons_iff, ← induction positive.2, total_cons]
      by_cases at_index : entry.At config isBuy index
      · rw [if_pos at_index]
        exact iff_of_true (by omega) (.inl at_index)
      · rw [if_neg at_index, Int.zero_add]
        exact (or_iff_right at_index).symm

end Totals

end FeederNet.OrderBook
