import Mathlib.Data.Nat.Log
import Mathlib.Tactic.Ring

/-! # Single-precision rounding

Conversion of natural numbers to binary floating point with a significand of 24
bits, ties to even. Overflow to infinity is left out.
-/

namespace FeederNet.SinglePrecision

def exponent (number : Nat) : Nat := Nat.log2 number - 23

def lastPlace (number : Nat) : Nat := 2 ^ exponent number

def roundsUp (number : Nat) : Prop :=
  lastPlace number < 2 * (number % lastPlace number) ∨
    (2 * (number % lastPlace number) = lastPlace number ∧
      number / lastPlace number % 2 = 1)

instance (number : Nat) : Decidable (roundsUp number) := by
  unfold roundsUp
  infer_instance

def round (number : Nat) : Nat :=
  if roundsUp number then
    (number / lastPlace number + 1) * lastPlace number
  else number / lastPlace number * lastPlace number

theorem lastPlace_pos (number : Nat) : 0 < lastPlace number :=
  Nat.two_pow_pos _

theorem lt_of_exponent (number : Nat) : number < 2 ^ (exponent number + 24) := by
  have bound := @Nat.lt_log2_self number
  refine bound.trans_le (Nat.pow_le_pow_right (by omega) ?_)
  unfold exponent
  omega

/-- A number with a last place above the units fills the significand. -/
theorem le_of_exponent_pos {number : Nat} (positive : 0 < exponent number) :
    2 ^ 23 * lastPlace number ≤ number := by
  unfold lastPlace exponent at *
  rw [← pow_add]
  have nonzero : number ≠ 0 := by
    intro equal
    subst equal
    simp at positive
  have equal : 23 + (Nat.log2 number - 23) = Nat.log2 number := by omega
  rw [equal]
  exact Nat.log2_self_le nonzero

theorem exponent_mono {left right : Nat} (ordered : left ≤ right) :
    exponent left ≤ exponent right := by
  unfold exponent
  rw [Nat.log2_eq_log_two, Nat.log2_eq_log_two]
  exact Nat.sub_le_sub_right (Nat.log_mono_right ordered) 23

theorem floor_le_round (number : Nat) :
    number / lastPlace number * lastPlace number ≤ round number := by
  unfold round
  split
  · exact Nat.mul_le_mul_right _ (Nat.le_succ _)
  · exact le_rfl

theorem round_le_succ (number : Nat) :
    round number ≤ (number / lastPlace number + 1) * lastPlace number := by
  unfold round
  split
  · exact le_rfl
  · exact Nat.mul_le_mul_right _ (Nat.le_succ _)

theorem round_of_dvd {number : Nat} (divides : lastPlace number ∣ number) :
    round number = number := by
  have noRemainder : number % lastPlace number = 0 := Nat.mod_eq_zero_of_dvd divides
  have positive := lastPlace_pos number
  have down : ¬ roundsUp number := by
    unfold roundsUp
    rw [noRemainder]
    omega
  rw [round, if_neg down, Nat.div_mul_cancel divides]

section Representable

variable {number significand shift : Nat}

theorem representable_lt (small : significand < 2 ^ 24)
    (fine : shift < exponent number) :
    significand * 2 ^ shift < 2 ^ 23 * lastPlace number := by
  calc significand * 2 ^ shift
      < 2 ^ 24 * 2 ^ shift := Nat.mul_lt_mul_of_pos_right small (Nat.two_pow_pos _)
    _ = 2 ^ 23 * 2 ^ (shift + 1) := by ring
    _ ≤ 2 ^ 23 * lastPlace number :=
        Nat.mul_le_mul_left _ (Nat.pow_le_pow_right (by omega) fine)

theorem representable_eq (coarse : exponent number ≤ shift) :
    significand * 2 ^ shift =
      significand * 2 ^ (shift - exponent number) * lastPlace number := by
  rw [lastPlace, mul_assoc, ← pow_add, Nat.sub_add_cancel coarse]

/-- Rounding does not cross a representable number from below. -/
theorem round_le (small : significand < 2 ^ 24)
    (bound : number ≤ significand * 2 ^ shift) :
    round number ≤ significand * 2 ^ shift := by
  by_cases coarse : exponent number ≤ shift
  · rw [representable_eq coarse] at bound ⊢
    have quotient := Nat.div_le_of_le_mul (Nat.mul_comm _ _ ▸ bound)
    rcases quotient.eq_or_lt with equal | below
    · have divides : lastPlace number ∣ number := by
        refine ⟨number / lastPlace number, le_antisymm ?_ (Nat.mul_div_le _ _)⟩
        rw [equal, Nat.mul_comm]
        exact bound
      rw [round_of_dvd divides]
      exact bound
    · exact (round_le_succ number).trans (Nat.mul_le_mul_right _ below)
  · have below := representable_lt small (Nat.lt_of_not_le coarse)
    have filled := @le_of_exponent_pos number (by omega)
    omega

theorem le_round (small : significand < 2 ^ 24)
    (bound : significand * 2 ^ shift ≤ number) :
    significand * 2 ^ shift ≤ round number := by
  refine le_trans ?_ (floor_le_round number)
  by_cases coarse : exponent number ≤ shift
  · rw [representable_eq coarse] at bound ⊢
    exact Nat.mul_le_mul_right _ ((Nat.le_div_iff_mul_le (lastPlace_pos _)).mpr bound)
  · have below := representable_lt small (Nat.lt_of_not_le coarse)
    have filled := @le_of_exponent_pos number (by omega)
    refine below.le.trans (Nat.mul_le_mul_right _ ?_)
    exact (Nat.le_div_iff_mul_le (lastPlace_pos _)).mpr filled

theorem round_representable (small : significand < 2 ^ 24) :
    round (significand * 2 ^ shift) = significand * 2 ^ shift :=
  le_antisymm (round_le small le_rfl) (le_round small le_rfl)

end Representable

theorem two_pow_le_round {number shift : Nat} (bound : 2 ^ shift ≤ number) :
    2 ^ shift ≤ round number := by
  rw [← Nat.one_mul (2 ^ shift)] at bound ⊢
  exact le_round (by omega) bound

theorem round_two_pow (shift : Nat) : round (2 ^ shift) = 2 ^ shift := by
  have representable := @round_representable 1 shift (by omega)
  rwa [Nat.one_mul] at representable

theorem round_of_le {number : Nat} (bound : number ≤ 2 ^ 24) :
    round number = number := by
  rcases bound.eq_or_lt with rfl | below
  · exact round_two_pow 24
  · rw [← Nat.mul_one number]
    exact @round_representable number 0 below

theorem round_mono {left right : Nat} (ordered : left ≤ right) :
    round left ≤ round right := by
  rcases (exponent_mono ordered).eq_or_lt with same | below
  · have place : lastPlace left = lastPlace right := by
      rw [lastPlace, lastPlace, same]
    have quotients : left / lastPlace right ≤ right / lastPlace right :=
      Nat.div_le_div_right ordered
    rcases quotients.eq_or_lt with equal | less
    · have remainders : left % lastPlace right ≤ right % lastPlace right := by
        have leftSplit := Nat.div_add_mod left (lastPlace right)
        have rightSplit := Nat.div_add_mod right (lastPlace right)
        rw [equal] at leftSplit
        omega
      have up : roundsUp left → roundsUp right := by
        unfold roundsUp
        rw [place, equal]
        omega
      unfold round
      rw [place, equal]
      split
      · rename_i leftUp
        rw [if_pos (up leftUp)]
      · split
        · exact Nat.mul_le_mul_right _ (Nat.le_succ _)
        · exact le_rfl
    · calc round left
          ≤ (left / lastPlace right + 1) * lastPlace right := place ▸ round_le_succ left
        _ ≤ right / lastPlace right * lastPlace right := Nat.mul_le_mul_right _ less
        _ ≤ round right := floor_le_round right
  · -- A power of two lies between numbers of different exponents.
    have between : 1 * 2 ^ (exponent left + 24) ≤ right := by
      have filled := @le_of_exponent_pos right (by omega)
      refine le_trans ?_ filled
      rw [one_mul, lastPlace, ← pow_add]
      exact Nat.pow_le_pow_right (by omega) (by omega)
    have bound : left ≤ 1 * 2 ^ (exponent left + 24) := by
      rw [one_mul]
      exact (lt_of_exponent left).le
    exact (round_le (by omega) bound).trans (le_round (by omega) between)

end FeederNet.SinglePrecision
