import FeederNet.Foundation.SinglePrecision
import Mathlib.Tactic.Linarith

/-! # The load factor of OpenAddressingHashMap

The comparison `size > table_.size() * maxLoadFactor_`, with what the map relies on
for tables whose size is a power of two.
-/

namespace FeederNet.HashMap

/-- A way to evaluate `size > capacity * maxLoadFactor_`. -/
structure LoadFactor where
  exceeded : Nat → Nat → Bool
  not_exceeded_zero : ∀ capacity, exceeded 0 capacity = false
  not_exceeded_of_le : ∀ {size larger capacity}, size ≤ larger →
    exceeded larger capacity = false → exceeded size capacity = false
  lt_of_not_exceeded : ∀ {size exponent},
    exceeded size (2 ^ exponent) = false → size < 2 ^ exponent
  not_exceeded_doubled : ∀ {size exponent}, exceeded size (2 ^ exponent) = false →
    exceeded (size + 1) (2 ^ exponent * 2) = false

/-- `0.7f` is `significand / 2 ^ 24`. -/
def significand : Nat := 11744051

/-- The comparison of the code: `size` and the product are rounded to `float`. The
product is scaled by `2 ^ 24`, which does not change how it is rounded. -/
def exceedsRounded (size capacity : Nat) : Bool :=
  decide (SinglePrecision.round (SinglePrecision.round capacity * significand) <
    SinglePrecision.round size * 2 ^ 24)

def exceedsExact (size capacity : Nat) : Bool :=
  decide (capacity * significand < size * 2 ^ 24)

theorem exceedsRounded_two_pow (size exponent : Nat) :
    exceedsRounded size (2 ^ exponent) = false ↔
      SinglePrecision.round size * 2 ^ 24 ≤ significand * 2 ^ exponent := by
  have product : SinglePrecision.round (significand * 2 ^ exponent) =
      significand * 2 ^ exponent :=
    SinglePrecision.round_representable (by decide)
  rw [exceedsRounded, SinglePrecision.round_two_pow, Nat.mul_comm (2 ^ exponent), product,
    decide_eq_false_iff_not, Nat.not_lt]

theorem exceedsExact_two_pow (size exponent : Nat) :
    exceedsExact size (2 ^ exponent) = false ↔
      size * 2 ^ 24 ≤ significand * 2 ^ exponent := by
  rw [exceedsExact, decide_eq_false_iff_not, Nat.not_lt, Nat.mul_comm (2 ^ exponent)]

theorem lt_two_pow_of_scaled {size exponent : Nat}
    (bound : size * 2 ^ 24 ≤ significand * 2 ^ exponent) : size < 2 ^ exponent := by
  by_contra large
  have : 2 ^ exponent * 2 ^ 24 ≤ size * 2 ^ 24 :=
    Nat.mul_le_mul_right _ (Nat.le_of_not_lt large)
  have positive := Nat.two_pow_pos exponent
  unfold significand at bound
  omega

theorem scaled_succ {size exponent : Nat}
    (bound : size * 2 ^ 24 ≤ significand * 2 ^ exponent) :
    (size + 1) * 2 ^ 24 ≤ significand * 2 ^ (exponent + 1) := by
  unfold significand at *
  cases exponent with
  | zero =>
      have empty : size = 0 := by omega
      subst empty
      decide
  | succ exponent =>
      have positive := Nat.two_pow_pos exponent
      rw [@Nat.pow_succ 2 (exponent + 1)]
      rw [@Nat.pow_succ 2 exponent] at bound ⊢
      linarith

/-- Rounding in the doubled table: from `2 ^ 24` on the bound itself is a `float`. -/
theorem rounded_succ {size exponent : Nat}
    (bound : SinglePrecision.round size * 2 ^ 24 ≤ significand * 2 ^ exponent) :
    SinglePrecision.round (size + 1) * 2 ^ 24 ≤ significand * 2 ^ (exponent + 1) := by
  by_cases small : exponent < 24
  · have power : 2 ^ exponent ≤ 2 ^ 23 := Nat.pow_le_pow_right (by omega) (by omega)
    have below : size < 2 ^ 24 := by
      by_contra large
      have rounded := SinglePrecision.two_pow_le_round (Nat.le_of_not_lt large)
      unfold significand at bound
      linarith
    rw [SinglePrecision.round_of_le below.le] at bound
    rw [SinglePrecision.round_of_le below]
    exact scaled_succ bound
  · obtain ⟨shift, rfl⟩ : ∃ shift, exponent = shift + 24 :=
      ⟨exponent - 24, by omega⟩
    have scaled : ∀ shift, significand * 2 ^ (shift + 24) =
        significand * 2 ^ shift * 2 ^ 24 := fun shift => by
      rw [Nat.pow_add, Nat.mul_assoc]
    have next : shift + 24 + 1 = shift + 1 + 24 := by omega
    rw [scaled, Nat.mul_le_mul_right_iff (by omega)] at bound
    rw [next, scaled, Nat.mul_le_mul_right_iff (by omega)]
    refine SinglePrecision.round_le (by decide) ?_
    by_contra large
    have twice : significand * 2 ^ (shift + 1) ≤ SinglePrecision.round size :=
      SinglePrecision.le_round (by decide) (by omega)
    have positive := Nat.two_pow_pos shift
    rw [Nat.pow_succ] at twice
    unfold significand at *
    omega

namespace LoadFactor

def rounded : LoadFactor where
  exceeded := exceedsRounded
  not_exceeded_zero capacity := by simp [exceedsRounded, SinglePrecision.round_of_le]
  not_exceeded_of_le {size larger capacity} ordered fits := by
    rw [exceedsRounded, decide_eq_false_iff_not, Nat.not_lt] at fits ⊢
    exact (Nat.mul_le_mul_right _ (SinglePrecision.round_mono ordered)).trans fits
  lt_of_not_exceeded {size exponent} fits := by
    rw [exceedsRounded_two_pow] at fits
    have rounded := lt_two_pow_of_scaled fits
    by_contra large
    have crossed := SinglePrecision.two_pow_le_round (Nat.le_of_not_lt large)
    omega
  not_exceeded_doubled {size exponent} fits := by
    rw [← Nat.pow_succ, exceedsRounded_two_pow]
    exact rounded_succ ((exceedsRounded_two_pow _ _).mp fits)

def exact : LoadFactor where
  exceeded := exceedsExact
  not_exceeded_zero capacity := by simp [exceedsExact]
  not_exceeded_of_le {size larger capacity} ordered fits := by
    rw [exceedsExact, decide_eq_false_iff_not, Nat.not_lt] at fits ⊢
    exact (Nat.mul_le_mul_right _ ordered).trans fits
  lt_of_not_exceeded fits := lt_two_pow_of_scaled ((exceedsExact_two_pow _ _).mp fits)
  not_exceeded_doubled {size exponent} fits := by
    rw [← Nat.pow_succ, exceedsExact_two_pow]
    exact scaled_succ ((exceedsExact_two_pow _ _).mp fits)

end LoadFactor

end FeederNet.HashMap
