import Mathlib.Algebra.BigOperators.Fin
import Mathlib.Algebra.Order.BigOperators.Group.Finset
import Mathlib.Algebra.Order.BigOperators.Group.Multiset
import Mathlib.Data.Fintype.BigOperators

/-! # Ownership of a fixed stock

A fixed stock of items spread over finitely many owners and one shared store.
Items only ever change hands, so the whole ledger is one multiset equation.
-/

open scoped BigOperators

namespace FeederNet

variable {Owner α : Type*} [Fintype Owner]

/-- What the owners hold together with the shared store is the whole stock,
every item counted once for each place it is in. -/
def Partition (owned : Owner → List α) (shared : List α) (stock : Multiset α) :
    Prop :=
  ∑ owner, (owned owner : Multiset α) + (shared : Multiset α) = stock

instance [DecidableEq α] (owned : Owner → List α) (shared : List α)
    (stock : Multiset α) : Decidable (Partition owned shared stock) :=
  inferInstanceAs (Decidable (_ = _))

namespace Partition

variable {owned : Owner → List α} {shared : List α} {stock : Multiset α}

theorem stock_eq (partition : Partition owned shared stock) :
    ∑ owner, (owned owner : Multiset α) + (shared : Multiset α) = stock :=
  partition

theorem card_eq (partition : Partition owned shared stock) :
    ∑ owner, (owned owner).length + shared.length = Multiset.card stock := by
  have cards := congrArg Multiset.card partition
  simpa [Multiset.card_sum] using cards

theorem length_add_le (partition : Partition owned shared stock) (owner : Owner) :
    (owned owner).length + shared.length ≤ Multiset.card stock := by
  have total := partition.card_eq
  have part := Finset.single_le_sum (f := fun other => (owned other).length)
    (fun _ _ => Nat.zero_le _) (Finset.mem_univ owner)
  omega

theorem length_le (partition : Partition owned shared stock) (owner : Owner) :
    (owned owner).length ≤ Multiset.card stock :=
  (Nat.le_add_right _ _).trans (partition.length_add_le owner)

theorem shared_eq_iff (partition : Partition owned shared stock) :
    (shared : Multiset α) = stock ↔ ∀ owner, owned owner = [] := by
  have total := partition.card_eq
  constructor
  · intro whole owner
    have length := congrArg Multiset.card whole
    rw [Multiset.coe_card] at length
    have part := partition.length_add_le owner
    exact List.eq_nil_of_length_eq_zero (by omega)
  · intro nothing
    have whole := partition.stock_eq
    simpa [nothing] using whole

theorem mem_stock_of_shared (partition : Partition owned shared stock)
    {item : α} (member : item ∈ shared) : item ∈ stock := by
  rw [← partition.stock_eq]
  simp [member]

theorem mem_stock_of_owned (partition : Partition owned shared stock)
    {owner : Owner} {item : α} (member : item ∈ owned owner) : item ∈ stock := by
  rw [← partition.stock_eq, Multiset.mem_add, Multiset.mem_sum]
  exact Or.inl ⟨owner, Finset.mem_univ _, by simpa using member⟩

theorem not_mem_shared_of_owned (partition : Partition owned shared stock)
    (nodup : stock.Nodup) {owner : Owner} {item : α}
    (member : item ∈ owned owner) : item ∉ shared := by
  intro inShared
  rw [← partition.stock_eq, Multiset.nodup_add] at nodup
  exact Multiset.disjoint_left.mp nodup.2.2
    (Multiset.mem_sum.mpr ⟨owner, Finset.mem_univ _, by simpa using member⟩)
    (by simpa using inShared)

section Transfers

variable [DecidableEq Owner]

private theorem sum_update (owner : Owner) (items : List α) :
    ∑ other, ((Function.update owned owner items other : List α) : Multiset α) =
      (items : Multiset α) +
        ∑ other ∈ Finset.univ.erase owner, (owned other : Multiset α) := by
  rw [← Finset.add_sum_erase _ _ (Finset.mem_univ owner)]
  congr 1
  · simp
  · apply Finset.sum_congr rfl
    intro other member
    rw [Function.update_of_ne (Finset.ne_of_mem_erase member)]

private theorem sum_split (owner : Owner) :
    ∑ other, (owned other : Multiset α) =
      (owned owner : Multiset α) +
        ∑ other ∈ Finset.univ.erase owner, (owned other : Multiset α) :=
  (Finset.add_sum_erase _ _ (Finset.mem_univ owner)).symm

/-- Replacing what one owner holds and the shared store keeps the ledger
exactly when their sum is unchanged. -/
theorem update_iff (partition : Partition owned shared stock) (owner : Owner)
    (items store : List α) :
    Partition (Function.update owned owner items) store stock ↔
      (items : Multiset α) + (store : Multiset α) =
        (owned owner : Multiset α) + (shared : Multiset α) := by
  have before := partition.stock_eq
  rw [sum_split owner] at before
  rw [Partition, sum_update, ← before, add_right_comm,
    add_right_comm (owned owner : Multiset α), add_left_inj]

end Transfers

/-- In a duplicate-free stock every item has exactly one place. -/
theorem owner_unique (partition : Partition owned shared stock)
    (nodup : stock.Nodup) {left right : Owner} {item : α}
    (inLeft : item ∈ owned left) (inRight : item ∈ owned right) :
    left = right := by
  classical
  by_contra different
  rw [← partition.stock_eq, sum_split left, Multiset.nodup_add] at nodup
  have separated := (Multiset.nodup_add.mp nodup.1).2.2
  refine Multiset.disjoint_left.mp separated (by simpa using inLeft) ?_
  exact Multiset.mem_sum.mpr
    ⟨right, Finset.mem_erase.mpr ⟨Ne.symm different, Finset.mem_univ _⟩,
      by simpa using inRight⟩

theorem nodup_shared (partition : Partition owned shared stock) (nodup : stock.Nodup) :
    shared.Nodup := by
  rw [← partition.stock_eq, Multiset.nodup_add] at nodup
  exact Multiset.coe_nodup.mp nodup.2.1

theorem nodup_owned (partition : Partition owned shared stock) (nodup : stock.Nodup)
    (owner : Owner) : (owned owner).Nodup := by
  rw [← partition.stock_eq, Multiset.nodup_add] at nodup
  have part : (owned owner : Multiset α) ≤ ∑ other, (owned other : Multiset α) :=
    Finset.single_le_sum (f := fun other => (owned other : Multiset α))
      (fun _ _ => Multiset.zero_le _) (Finset.mem_univ owner)
  exact Multiset.coe_nodup.mp (Multiset.nodup_of_le part nodup.1)

theorem mem_stock_iff (partition : Partition owned shared stock) {item : α} :
    item ∈ stock ↔ (∃ owner, item ∈ owned owner) ∨ item ∈ shared := by
  rw [← partition.stock_eq, Multiset.mem_add, Multiset.mem_sum]
  simp

/-- In a duplicate-free stock every item is once in the shared store or once with one
owner. -/
theorem one_place [DecidableEq α] (partition : Partition owned shared stock)
    (nodup : stock.Nodup) {item : α} (member : item ∈ stock) :
    (shared.count item = 1 ∧ ∀ owner, (owned owner).count item = 0) ∨
    (shared.count item = 0 ∧ ∃ owner, (owned owner).count item = 1 ∧
      ∀ other ≠ owner, (owned other).count item = 0) := by
  rcases partition.mem_stock_iff.mp member with ⟨owner, inside⟩ | free
  · have single := List.count_eq_one_of_mem (partition.nodup_owned nodup owner) inside
    have notFree := partition.not_mem_shared_of_owned nodup inside
    refine .inr ⟨List.count_eq_zero_of_not_mem notFree, owner, single, ?_⟩
    intro other different
    apply List.count_eq_zero_of_not_mem
    exact fun there => different (partition.owner_unique nodup there inside)
  · have single := List.count_eq_one_of_mem (partition.nodup_shared nodup) free
    refine .inl ⟨single, fun owner => ?_⟩
    apply List.count_eq_zero_of_not_mem
    exact fun inside => partition.not_mem_shared_of_owned nodup inside free

end Partition

end FeederNet
