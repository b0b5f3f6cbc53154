import Mathlib.Data.Nat.ModEq

/-! # Machine words

Fixed-width unsigned words and the power-of-two sizes that let a mask replace a
remainder.
-/

namespace FeederNet

abbrev Word64 := BitVec 64

abbrev Word32 := BitVec 32

namespace Word64

theorem ofNat_toNat (count : Nat) (bound : count < 2 ^ 64) :
    (BitVec.ofNat 64 count).toNat = count := by
  rw [BitVec.toNat_ofNat, Nat.mod_eq_of_lt bound]

theorem ofNat_add_one (count : Nat) :
    BitVec.ofNat 64 count + 1 = BitVec.ofNat 64 (count + 1) := by
  apply BitVec.eq_of_toNat_eq
  simp

theorem ofNat_inj_of_near {left right : Nat} (ordered : left ≤ right)
    (near : right - left < 2 ^ 64) :
    BitVec.ofNat 64 left = BitVec.ofNat 64 right ↔ left = right := by
  constructor
  · intro equal
    have residues : left % 2 ^ 64 = right % 2 ^ 64 := by
      simpa using congrArg BitVec.toNat equal
    omega
  · intro equal
    subst equal
    rfl

theorem ofNat_inj {left right : Nat} (leftSmall : left < 2 ^ 64)
    (rightSmall : right < 2 ^ 64) :
    BitVec.ofNat 64 left = BitVec.ofNat 64 right ↔ left = right := by
  rcases Nat.le_total left right with ordered | ordered
  · exact ofNat_inj_of_near ordered (by omega)
  · rw [eq_comm, ofNat_inj_of_near ordered (by omega), eq_comm]

/-- The modular difference of two counters is their true difference as long as
that fits a word. -/
theorem ofNat_sub_toNat {left right : Nat} (ordered : left ≤ right)
    (near : right - left < 2 ^ 64) :
    (BitVec.ofNat 64 right - BitVec.ofNat 64 left).toNat = right - left := by
  rw [BitVec.toNat_sub, BitVec.toNat_ofNat, BitVec.toNat_ofNat]
  omega

/-- The sign of the modular difference of two counters that are less than half the range
apart. -/
theorem ofNat_sub_slt_zero_iff {left right : Nat} (above : left < right + 2 ^ 63)
    (below : right ≤ left + 2 ^ 63) :
    (BitVec.ofNat 64 left - BitVec.ofNat 64 right).slt 0 = true ↔ left < right := by
  have none : (0 : Word64).toInt = 0 := rfl
  rw [BitVec.slt_eq_decide, decide_eq_true_iff, BitVec.toInt_eq_toNat_cond, none,
    BitVec.toNat_sub, BitVec.toNat_ofNat, BitVec.toNat_ofNat]
  split <;> omega

end Word64

/-- A word with exactly one bit set, stated by the test that programs make:
non-zero, and disjoint from its predecessor. -/
structure PowerOfTwo where
  value : Word64
  nonzero : value ≠ 0
  disjoint : value &&& (value - 1) = 0

namespace PowerOfTwo

theorem one_nonzero : (1 : Word64) ≠ 0 := by decide

theorem one_disjoint : (1 : Word64) &&& (1 - 1) = 0 := by decide

def mask (size : PowerOfTwo) : Word64 := size.value - 1

def toNat (size : PowerOfTwo) : Nat := size.value.toNat

theorem toNat_pos (size : PowerOfTwo) : 0 < size.toNat := by
  have nonzero := size.nonzero
  have : size.value.toNat ≠ 0 := fun equal =>
    nonzero (BitVec.eq_of_toNat_eq (by simpa using equal))
  exact Nat.pos_of_ne_zero this

theorem mask_toNat (size : PowerOfTwo) : size.mask.toNat = size.toNat - 1 := by
  have positive := size.toNat_pos
  have bound := size.value.isLt
  have one : (1 : Word64).toNat = 1 := rfl
  simp only [mask, toNat, BitVec.toNat_sub, one] at positive ⊢
  omega

theorem exists_exponent (size : PowerOfTwo) :
    ∃ exponent < 64, size.toNat = 2 ^ exponent := by
  have positive := size.toNat_pos
  have disjoint : size.toNat &&& (size.toNat - 1) = 0 := by
    have words := congrArg BitVec.toNat size.disjoint
    rw [BitVec.toNat_and] at words
    rw [← mask_toNat]
    simpa [mask, toNat] using words
  rcases (Nat.and_sub_one_eq_zero_iff_isPowerOfTwo (by omega)).mp disjoint with
    ⟨exponent, equal⟩
  refine ⟨exponent, ?_, equal⟩
  have bound : 2 ^ exponent < 2 ^ 64 := equal ▸ size.value.isLt
  exact (Nat.pow_lt_pow_iff_right (by omega)).mp bound

theorem toNat_dvd (size : PowerOfTwo) : size.toNat ∣ 2 ^ 64 := by
  rcases size.exists_exponent with ⟨exponent, below, equal⟩
  rw [equal]
  exact Nat.pow_dvd_pow 2 (by omega)

theorem toNat_le (size : PowerOfTwo) : size.toNat ≤ 2 ^ 63 := by
  rcases size.exists_exponent with ⟨exponent, below, equal⟩
  rw [equal]
  exact Nat.pow_le_pow_right (by omega) (by omega)

theorem ofNat_add_value (size : PowerOfTwo) (count : Nat) :
    BitVec.ofNat 64 count + size.value = BitVec.ofNat 64 (count + size.toNat) := by
  apply BitVec.eq_of_toNat_eq
  simp [toNat]

theorem and_mask_toNat (size : PowerOfTwo) (word : Word64) :
    (word &&& size.mask).toNat = word.toNat % size.toNat := by
  rcases size.exists_exponent with ⟨exponent, _, equal⟩
  rw [BitVec.toNat_and, mask_toNat, equal, Nat.and_two_pow_sub_one_eq_mod]

/-- Masking a wrapped counter is taking the remainder of the true counter,
because the size divides the word's range. -/
theorem ofNat_and_mask_toNat (size : PowerOfTwo) (count : Nat) :
    (BitVec.ofNat 64 count &&& size.mask).toNat = count % size.toNat := by
  rw [and_mask_toNat, BitVec.toNat_ofNat, Nat.mod_mod_of_dvd _ size.toNat_dvd]

theorem and_mask_lt (size : PowerOfTwo) (word : Word64) :
    (word &&& size.mask).toNat < size.toNat := by
  rw [and_mask_toNat]
  exact Nat.mod_lt _ size.toNat_pos

end PowerOfTwo

theorem eq_of_mod_eq_of_near {left right size : Nat} (ordered : left ≤ right)
    (near : right < left + size) (equal : left % size = right % size) :
    left = right := by
  have congruent : left ≡ right [MOD size] := equal
  have divides := (Nat.modEq_iff_dvd' ordered).mp congruent
  rcases divides with ⟨quotient, difference⟩
  have zero : quotient = 0 := by
    by_contra positive
    have : size * 1 ≤ size * quotient :=
      Nat.mul_le_mul_left size (Nat.one_le_iff_ne_zero.mpr positive)
    omega
  subst zero
  omega

end FeederNet
