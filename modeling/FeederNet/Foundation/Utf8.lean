import Mathlib.Data.List.Basic

/-! # UTF-8

Texts whose bytes encode some characters. ASCII can be added to a text and taken off it.
-/

namespace FeederNet

def IsUtf8 (text : List UInt8) : Prop :=
  text.toByteArray.IsValidUTF8

instance (text : List UInt8) : Decidable (IsUtf8 text) :=
  inferInstanceAs (Decidable text.toByteArray.IsValidUTF8)

theorem isUtf8_iff (text : List UInt8) :
    IsUtf8 text ↔ ∃ characters : List Char, text = characters.flatMap String.utf8EncodeChar := by
  constructor
  · rintro ⟨characters, same⟩
    have bytes := congrArg (fun bytes => bytes.data.toList) same
    exact ⟨characters, by simpa [List.utf8Encode] using bytes⟩
  · rintro ⟨characters, rfl⟩
    exact ⟨characters, rfl⟩

theorem eq_nil_of_encoded {character : Char} {bytes : List UInt8} {byte : UInt8}
    (ascii : byte < 128) (same : String.utf8EncodeChar character = bytes ++ [byte]) :
    bytes = [] := by
  have continued : ∀ value : Nat, UInt8.ofNat (value % 64 + 128) ≠ byte := by
    rintro value rfl
    rw [UInt8.lt_iff_toNat_lt, UInt8.toNat_ofNat_of_lt' (by simp [UInt8.size]; omega)] at ascii
    exact absurd ascii (Nat.not_lt.mpr (Nat.le_add_left 128 _))
  have last : (String.utf8EncodeChar character).getLast? = some byte := by
    rw [same, List.getLast?_concat]
  have length := congrArg List.length same
  revert last length
  fun_cases String.utf8EncodeChar character with
  | case1 =>
      intro _ length
      rw [List.length_append, List.length_singleton, List.length_singleton] at length
      exact List.length_eq_zero_iff.mp (by omega)
  | case2 | case3 | case4 =>
      intro last _
      exact absurd (Option.some.inj last) (continued _)

theorem encode_ascii {byte : UInt8} (ascii : byte < 128) :
    String.utf8EncodeChar (Char.ofNat byte.toNat) = [byte] := by
  have small : byte.toNat < 128 := UInt8.lt_iff_toNat_lt.mp ascii
  have value : (Char.ofNat byte.toNat).val.toNat = byte.toNat := by
    have valid : byte.toNat.isValidChar := .inl (by omega)
    rw [Char.ofNat, dif_pos valid]
    rfl
  have first : byte.toNat ≤ 127 := by omega
  simp only [String.utf8EncodeChar, value, if_pos first, UInt8.ofNat_toNat]

theorem isUtf8_concat_iff {text : List UInt8} {byte : UInt8} (ascii : byte < 128) :
    IsUtf8 (text ++ [byte]) ↔ IsUtf8 text := by
  rw [isUtf8_iff, isUtf8_iff]
  constructor
  · rintro ⟨characters, same⟩
    rcases List.eq_nil_or_concat characters with rfl | ⟨front, character, rfl⟩
    · simp at same
    · rw [List.concat_eq_append, List.flatMap_append, List.flatMap_singleton] at same
      have nonempty := String.utf8EncodeChar_ne_nil (c := character)
      rcases List.eq_nil_or_concat (String.utf8EncodeChar character) with
        empty | ⟨bytes, final, encoded⟩
      · exact absurd empty nonempty
      · rw [List.concat_eq_append] at encoded
        rw [encoded, ← List.append_assoc] at same
        rcases List.append_inj' same rfl with ⟨front, final⟩
        cases final
        rw [eq_nil_of_encoded ascii encoded, List.append_nil] at front
        exact ⟨_, front⟩
  · rintro ⟨characters, rfl⟩
    refine ⟨characters ++ [Char.ofNat byte.toNat], ?_⟩
    rw [List.flatMap_append, List.flatMap_singleton, encode_ascii ascii]

theorem isUtf8_append_iff (text : List UInt8) {ascii : List UInt8}
    (small : ∀ byte ∈ ascii, byte < 128) : IsUtf8 (text ++ ascii) ↔ IsUtf8 text := by
  induction ascii generalizing text with
  | nil => rw [List.append_nil]
  | cons byte ascii induction =>
      rcases List.forall_mem_cons.mp small with ⟨first, others⟩
      rw [← List.singleton_append, ← List.append_assoc, induction _ others,
        isUtf8_concat_iff first]

end FeederNet
