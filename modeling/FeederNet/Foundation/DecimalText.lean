import FeederNet.Foundation.CString
import FeederNet.Foundation.TextStream
import Mathlib.Algebra.Order.Floor.Ring
import Mathlib.Data.Rat.Floor
import Mathlib.Tactic.Linarith

/-! # Decimal texts

Numbers printed in base ten and read back: `%llu` and `%.6f` on the one side, `int` and
`float` of Python on the other. Infinities, white space, underscores and exponents are left
out.
-/

namespace FeederNet.DecimalText

open CString (decimal)

def valueOf (digits : List UInt8) : Nat :=
  digits.foldl (fun value byte => 10 * value + (byte.toNat - 48)) 0

def padded (places value : Nat) : List UInt8 :=
  List.replicate (places - (decimal value).length) 48 ++ decimal value

def roundHalfEven (value : ℚ) : ℤ :=
  if Int.fract value < 1 / 2 ∨ Int.fract value = 1 / 2 ∧ ⌊value⌋ % 2 = 0 then ⌊value⌋
  else ⌊value⌋ + 1

/-- The digits of a number without its sign and its point. -/
def scaled (places : Nat) (value : ℚ) : Nat :=
  (roundHalfEven (|value| * 10 ^ places)).toNat

/-- `%.6f`, for any positive number of places. -/
def fixed (places : Nat) (value : ℚ) : List UInt8 :=
  (if value < 0 then [45] else []) ++ decimal (scaled places value / 10 ^ places) ++ [46] ++
    padded places (scaled places value % 10 ^ places)

def rounded (places : Nat) (value : ℚ) : ℚ :=
  (if value < 0 then -1 else 1) * (scaled places value / 10 ^ places)

def readNatural (text : List UInt8) : Option Nat :=
  if text ≠ [] ∧ text.all isDigit = true then some (valueOf text) else none

def int (text : List UInt8) : Option ℤ :=
  (readNatural (readSign text).2).map fun (value : Nat) =>
    if (readSign text).1 then -(value : ℤ) else value

def readUnsigned (text : List UInt8) : Option ℚ :=
  match text.splitOn 46 with
  | [whole] => (readNatural whole).map fun (value : Nat) => (value : ℚ)
  | [whole, fraction] =>
      (readNatural (whole ++ fraction)).map fun (value : Nat) =>
        (value : ℚ) / 10 ^ fraction.length
  | _ => none

def float (text : List UInt8) : Option ℚ :=
  (readUnsigned (readSign text).2).map fun value =>
    if (readSign text).1 then -value else value

/-! ## Digits -/

theorem foldl_digits (digits : List UInt8) (start : Nat) :
    digits.foldl (fun value byte => 10 * value + (byte.toNat - 48)) start =
      start * 10 ^ digits.length + valueOf digits := by
  induction digits generalizing start with
  | nil => simp [valueOf]
  | cons byte digits induction =>
      rw [valueOf, List.foldl_cons, List.foldl_cons, induction, induction (10 * 0 + _),
        List.length_cons, pow_succ]
      ring

theorem valueOf_append (front back : List UInt8) :
    valueOf (front ++ back) = valueOf front * 10 ^ back.length + valueOf back := by
  rw [valueOf, List.foldl_append, foldl_digits]
  rfl

theorem valueOf_replicate_zero (count : Nat) : valueOf (List.replicate count 48) = 0 := by
  induction count with
  | zero => rfl
  | succ count induction =>
      rw [List.replicate_succ, ← List.singleton_append, valueOf_append, induction]
      exact Nat.zero_mul _

theorem toNat_le_of_isDigit {digit : Char} (isDigit : digit.isDigit = true) :
    48 ≤ digit.toNat ∧ digit.toNat ≤ 57 := by
  simpa [Char.isDigit, UInt32.le_iff_toNat_le] using isDigit

theorem toNat_ofNat_digit {digit : Char} (isDigit : digit.isDigit = true) :
    (UInt8.ofNat digit.toNat).toNat = digit.toNat := by
  have bounds := toNat_le_of_isDigit isDigit
  exact UInt8.toNat_ofNat_of_lt' (lt_of_le_of_lt bounds.2 (by decide))

theorem isDigit_of_mem_decimal {value : Nat} {byte : UInt8} (member : byte ∈ decimal value) :
    isDigit byte = true := by
  rcases List.mem_map.mp member with ⟨digit, inside, rfl⟩
  have digits := Nat.isDigit_of_mem_toDigits (by decide) (by decide) inside
  have bounds := toNat_le_of_isDigit digits
  rw [isDigit, Bool.and_eq_true, decide_eq_true_iff, decide_eq_true_iff,
    UInt8.le_iff_toNat_le, UInt8.le_iff_toNat_le, toNat_ofNat_digit digits]
  exact bounds

theorem decimal_ne_nil (value : Nat) : decimal value ≠ [] := by
  simp [decimal, Nat.toDigits_ne_nil]

theorem valueOf_decimal (value : Nat) : valueOf (decimal value) = value := by
  have digits : ∀ digit ∈ Nat.toDigits 10 value, digit.isDigit = true := fun _ inside =>
    Nat.isDigit_of_mem_toDigits (by decide) (by decide) inside
  rw [valueOf, decimal, List.foldl_map]
  calc (Nat.toDigits 10 value).foldl
        (fun value digit => 10 * value + ((UInt8.ofNat digit.toNat).toNat - 48)) 0
      = (Nat.toDigits 10 value).foldl
          (fun value digit => 10 * value + (digit.toNat - '0'.toNat)) 0 := by
        apply List.foldl_ext
        intro value digit inside
        rw [toNat_ofNat_digit (digits digit inside)]
        rfl
    _ = value := by
        rw [← Nat.ofDigitChars_eq_foldl, Nat.ofDigitChars_ten_toDigits]

theorem isDigit_of_mem_padded {places value : Nat} {byte : UInt8}
    (member : byte ∈ padded places value) : isDigit byte = true := by
  rcases List.mem_append.mp member with zero | digit
  · rw [List.eq_of_mem_replicate zero]
    rfl
  · exact isDigit_of_mem_decimal digit

theorem valueOf_padded (places value : Nat) : valueOf (padded places value) = value := by
  rw [padded, valueOf_append, valueOf_replicate_zero, valueOf_decimal, Nat.zero_mul,
    Nat.zero_add]

theorem length_padded {places value : Nat} (positive : 0 < places)
    (fits : value < 10 ^ places) : (padded places value).length = places := by
  have short : (decimal value).length ≤ places := by
    rw [decimal, List.length_map]
    exact (Nat.length_toDigits_le_iff (by decide) positive).mpr fits
  rw [padded, List.length_append, List.length_replicate]
  omega

/-! ## Reading -/

theorem not_mem_of_digits {text : List UInt8} (digits : ∀ byte ∈ text, isDigit byte = true)
    {byte : UInt8} (other : isDigit byte = false) : byte ∉ text := by
  intro member
  rw [digits byte member] at other
  cases other

theorem readNatural_of_digits {text : List UInt8} (nonempty : text ≠ [])
    (digits : ∀ byte ∈ text, isDigit byte = true) : readNatural text = some (valueOf text) :=
  if_pos ⟨nonempty, List.all_eq_true.mpr digits⟩

theorem readSign_of_digits {text rest : List UInt8} (nonempty : text ≠ [])
    (digits : ∀ byte ∈ text, isDigit byte = true) :
    readSign (text ++ rest) = (false, text ++ rest) := by
  cases text with
  | nil => exact absurd rfl nonempty
  | cons byte text => exact readSign_of_isDigit (digits byte List.mem_cons_self) _

theorem int_decimal (value : Nat) : int (decimal value) = some (value : ℤ) := by
  have digits : ∀ byte ∈ decimal value, isDigit byte = true := fun _ =>
    isDigit_of_mem_decimal
  have plain : readSign (decimal value ++ []) = (false, decimal value ++ []) :=
    readSign_of_digits (decimal_ne_nil value) digits
  rw [List.append_nil] at plain
  rw [int, plain, readNatural_of_digits (decimal_ne_nil value) digits, valueOf_decimal]
  rfl

theorem readSign_fixed (places : Nat) (value : ℚ) :
    readSign (fixed places value) =
      (decide (value < 0), decimal (scaled places value / 10 ^ places) ++ [46] ++
        padded places (scaled places value % 10 ^ places)) := by
  by_cases negative : value < 0
  · rw [fixed, if_pos negative, decide_eq_true negative]
    rfl
  · rw [fixed, if_neg negative, decide_eq_false negative, List.nil_append, List.append_assoc]
    exact readSign_of_digits (decimal_ne_nil _) fun _ => isDigit_of_mem_decimal

theorem readUnsigned_digits {places value : Nat} (positive : 0 < places) :
    readUnsigned (decimal (value / 10 ^ places) ++ [46] ++
      padded places (value % 10 ^ places)) = some ((value : ℚ) / 10 ^ places) := by
  have small := Nat.mod_lt value (Nat.pow_pos (n := places) (by decide : 0 < 10))
  have noPoint : 46 ∉ decimal (value / 10 ^ places) :=
    not_mem_of_digits (fun _ => isDigit_of_mem_decimal) rfl
  have noOther : 46 ∉ padded places (value % 10 ^ places) :=
    not_mem_of_digits (fun _ => isDigit_of_mem_padded) rfl
  have digits : ∀ byte ∈ decimal (value / 10 ^ places) ++ padded places (value % 10 ^ places),
      isDigit byte = true := by
    intro byte member
    rcases List.mem_append.mp member with whole | fraction
    · exact isDigit_of_mem_decimal whole
    · exact isDigit_of_mem_padded fraction
  have nonempty := List.append_ne_nil_of_left_ne_nil (decimal_ne_nil (value / 10 ^ places))
    (padded places (value % 10 ^ places))
  rw [readUnsigned, List.append_assoc, List.singleton_append,
    List.splitOn_append_cons_self_of_not_mem noPoint, List.splitOn_eq_singleton noOther]
  simp only [readNatural_of_digits nonempty digits, valueOf_append, valueOf_decimal,
    valueOf_padded, length_padded positive small, Nat.div_add_mod', Option.map_some]

theorem float_fixed {places : Nat} (positive : 0 < places) (value : ℚ) :
    float (fixed places value) = some (rounded places value) := by
  rw [float, readSign_fixed, readUnsigned_digits positive, Option.map_some, rounded]
  by_cases negative : value < 0
  · rw [decide_eq_true negative, if_pos rfl, if_pos negative, neg_one_mul]
  · rw [decide_eq_false negative, if_neg Bool.false_ne_true, if_neg negative, one_mul]

/-! ## Rounding -/

theorem abs_roundHalfEven_sub_le (value : ℚ) : |(roundHalfEven value : ℚ) - value| ≤ 1 / 2 := by
  have below := Int.fract_nonneg value
  have above := Int.fract_lt_one value
  have parts := Int.floor_add_fract value
  rw [roundHalfEven, abs_le]
  split
  · rename_i down
    have half : Int.fract value ≤ 1 / 2 := down.elim le_of_lt fun tie => tie.1.le
    constructor <;> linarith
  · rename_i up
    have half : 1 / 2 ≤ Int.fract value := not_lt.mp fun less => up (.inl less)
    push_cast
    constructor <;> linarith

theorem roundHalfEven_nonneg {value : ℚ} (nonneg : 0 ≤ value) : 0 ≤ roundHalfEven value := by
  have floor := Int.floor_nonneg.mpr nonneg
  rw [roundHalfEven]
  split <;> omega

theorem scaled_cast (places : Nat) (value : ℚ) :
    (scaled places value : ℚ) = roundHalfEven (|value| * 10 ^ places) := by
  have nonneg := roundHalfEven_nonneg
    (mul_nonneg (abs_nonneg value) (pow_nonneg (by norm_num : (0 : ℚ) ≤ 10) places))
  rw [scaled, ← Int.cast_natCast, Int.toNat_of_nonneg nonneg]

/-- The printed number is off by half a unit of its last place at most. -/
theorem abs_rounded_sub_le (places : Nat) (value : ℚ) :
    |rounded places value - value| ≤ 1 / (2 * 10 ^ places) := by
  have unit : (0 : ℚ) < 10 ^ places := pow_pos (by norm_num) places
  have near := abs_roundHalfEven_sub_le (|value| * 10 ^ places)
  rw [← scaled_cast] at near
  have distance : abs ((scaled places value : ℚ) / 10 ^ places - |value|) ≤
      1 / (2 * 10 ^ places) := by
    rw [← mul_le_mul_iff_of_pos_right unit, ← abs_of_pos unit, ← abs_mul, sub_mul,
      abs_of_pos unit, div_mul_cancel₀ _ unit.ne']
    calc |(scaled places value : ℚ) - |value| * 10 ^ places| ≤ 1 / 2 := near
      _ = 1 / (2 * 10 ^ places) * 10 ^ places := by field_simp
  rw [rounded]
  split
  · rename_i negative
    rw [abs_of_neg negative] at distance
    rw [← abs_neg]
    convert distance using 2
    ring
  · rename_i nonneg
    rw [abs_of_nonneg (not_lt.mp nonneg)] at distance
    rwa [one_mul]

end FeederNet.DecimalText
