import Mathlib.Data.List.TakeWhile

/-! # C strings

`strlen` and `strnlen` on the bytes from a pointer on, and how many of these bytes they
look at. The digits that numbers are printed with.
-/

namespace FeederNet.CString

def text (memory : List UInt8) : List UInt8 :=
  memory.takeWhile fun byte => byte ≠ 0

def strlen (memory : List UInt8) : Nat :=
  (text memory).length

def strnlen (memory : List UInt8) (bound : Nat) : Nat :=
  min (strlen memory) bound

def boundedText (memory : List UInt8) (bound : Nat) : List UInt8 :=
  memory.take (strnlen memory bound)

/-- `strlen` looks at the byte that ends the text as well. -/
def strlenReads (memory : List UInt8) : Nat :=
  strlen memory + 1

/-- `strnlen` stops at its bound without looking further. -/
def strnlenReads (memory : List UInt8) (bound : Nat) : Nat :=
  min (strlen memory + 1) bound

/-- `%llu`. -/
def decimal (value : Nat) : List UInt8 :=
  (Nat.toDigits 10 value).map fun digit => UInt8.ofNat digit.toNat

theorem text_append {characters : List UInt8} (nonNul : ∀ byte ∈ characters, byte ≠ 0)
    (rest : List UInt8) : text (characters ++ rest) = characters ++ text rest := by
  apply List.takeWhile_append_of_pos
  simpa using nonNul

theorem text_terminated {characters : List UInt8} (nonNul : ∀ byte ∈ characters, byte ≠ 0)
    (rest : List UInt8) : text (characters ++ 0 :: rest) = characters := by
  rw [text_append nonNul]
  simp [text]

theorem text_eq_nil_iff (memory : List UInt8) :
    text memory = [] ↔ ∀ byte ∈ memory.head?, byte = 0 := by
  cases memory <;> simp [text]

theorem text_replicate_zero (count : Nat) : text (List.replicate count 0) = [] := by
  cases count <;> rfl

theorem strnlenReads_le (memory : List UInt8) (bound : Nat) :
    strnlenReads memory bound ≤ bound :=
  Nat.min_le_right _ _

theorem take_strlen (memory : List UInt8) : memory.take (strlen memory) = text memory :=
  (List.prefix_iff_eq_take.mp (List.takeWhile_prefix _)).symm

/-- Read with its own length as the bound, a field does not depend on what lies behind
it. -/
theorem boundedText_append (field following : List UInt8) :
    boundedText (field ++ following) field.length = text field := by
  rw [boundedText, strnlen, Nat.min_comm, ← List.take_take, take_strlen, text,
    List.take_takeWhile, List.take_left]
  rfl

end FeederNet.CString
