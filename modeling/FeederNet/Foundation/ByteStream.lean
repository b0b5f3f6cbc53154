import FeederNet.Foundation.MachineWord
import Mathlib.Data.Nat.Digits.Defs

/-! # Byte streams

Words as little-endian bytes, and frames of a fixed size in a stream that is read in
pieces.
-/

namespace FeederNet

namespace Word64

def toBytes (word : Word64) : List UInt8 :=
  (List.range 8).map fun index => UInt8.ofNat (word.toNat / 256 ^ index)

def ofBytes (bytes : List UInt8) : Word64 :=
  BitVec.ofNat 64 (Nat.ofDigits 256 (bytes.map UInt8.toNat))

@[simp] theorem length_toBytes (word : Word64) : word.toBytes.length = 8 := by
  simp [toBytes]

@[simp] theorem ofBytes_toBytes (word : Word64) : ofBytes word.toBytes = word := by
  have small := word.isLt
  apply BitVec.eq_of_toNat_eq
  simp only [ofBytes, toBytes, List.range_succ, List.range_zero, List.nil_append,
    List.cons_append, List.map_cons, List.map_nil, Nat.ofDigits_cons, Nat.ofDigits_nil,
    UInt8.toNat_ofNat', BitVec.toNat_ofNat]
  omega

end Word64

/-! ## Frames -/

section Frames

variable {size : Nat} {pieces frames : List (List α)}

def wholePieces (size : Nat) (pieces : List (List α)) : List (List α) :=
  pieces.filter fun piece => decide (piece.length = size)

theorem length_flatten_of_forall (sized : ∀ frame ∈ frames, frame.length = size) :
    frames.flatten.length = frames.length * size := by
  rw [List.length_flatten, List.map_eq_replicate_iff.mpr sized, List.sum_replicate_nat]

theorem eq_of_flatten_eq (pieceSized : ∀ piece ∈ pieces, piece.length = size)
    (frameSized : ∀ frame ∈ frames, frame.length = size) (positive : 0 < size)
    (stream : pieces.flatten = frames.flatten) : pieces = frames := by
  have count : pieces.length = frames.length := by
    have lengths := congrArg List.length stream
    rw [length_flatten_of_forall pieceSized, length_flatten_of_forall frameSized] at lengths
    exact Nat.eq_of_mul_eq_mul_right positive lengths
  apply List.eq_iff_flatten_eq.mpr
  refine ⟨stream, ?_⟩
  rw [List.map_eq_replicate_iff.mpr pieceSized, List.map_eq_replicate_iff.mpr frameSized,
    count]

theorem length_wholePieces_le (size : Nat) (pieces : List (List α)) :
    (wholePieces size pieces).length * size ≤ pieces.flatten.length := by
  induction pieces with
  | nil => simp [wholePieces]
  | cons piece pieces induction =>
      rw [List.flatten_cons, List.length_append]
      by_cases whole : piece.length = size
      · rw [wholePieces, List.filter_cons_of_pos (by simpa using whole), List.length_cons,
          Nat.succ_mul, ← wholePieces]
        omega
      · rw [wholePieces, List.filter_cons_of_neg (by simpa using whole), ← wholePieces]
        omega

theorem forall_length_eq_of_count (nonempty : ∀ piece ∈ pieces, piece ≠ [])
    (sized : ∀ frame ∈ frames, frame.length = size)
    (stream : pieces.flatten = frames.flatten)
    (many : frames.length ≤ (wholePieces size pieces).length) :
    ∀ piece ∈ pieces, piece.length = size := by
  have total : pieces.flatten.length = frames.length * size := by
    rw [stream, length_flatten_of_forall sized]
  have enough : pieces.flatten.length ≤ (wholePieces size pieces).length * size := by
    rw [total]
    exact Nat.mul_le_mul_right size many
  clear stream many total
  induction pieces with
  | nil => exact nofun
  | cons piece pieces induction =>
      rw [List.forall_mem_cons] at nonempty ⊢
      have length := List.length_pos_iff.mpr nonempty.1
      have rest := length_wholePieces_le size pieces
      rw [List.flatten_cons, List.length_append] at enough
      by_cases whole : piece.length = size
      · rw [wholePieces, List.filter_cons_of_pos (by simpa using whole), List.length_cons,
          Nat.succ_mul, ← wholePieces] at enough
        exact ⟨whole, induction nonempty.2 (by omega)⟩
      · rw [wholePieces, List.filter_cons_of_neg (by simpa using whole),
          ← wholePieces] at enough
        omega

end Frames

end FeederNet
