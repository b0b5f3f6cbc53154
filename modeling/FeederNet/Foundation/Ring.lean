import FeederNet.Foundation.MachineWord
import Mathlib.Logic.Function.Basic

/-! # Rings

A list kept in slots that are numbered modulo a size.
-/

namespace FeederNet

def RingHolds (size : Nat) (slots : Nat → Option α) (head : Nat) (values : List α) : Prop :=
  ∀ offset < values.length, slots ((head + offset) % size) = values[offset]?

namespace RingHolds

variable {size head : Nat} {slots : Nat → Option α} {values : List α} {value : α}

theorem slot_ne {left right : Nat} (leftBelow : left < size) (rightBelow : right < size)
    (different : left ≠ right) : (head + left) % size ≠ (head + right) % size := by
  intro equal
  rcases Nat.le_total left right with ordered | ordered
  · have same := eq_of_mod_eq_of_near (by omega) (by omega) equal
    omega
  · have same := eq_of_mod_eq_of_near (by omega) (by omega) equal.symm
    omega

theorem nil : RingHolds size slots head [] := nofun

theorem push (holds : RingHolds size slots head values) (room : values.length < size) :
    RingHolds size
      (Function.update slots ((head + values.length) % size) (some value)) head
      (values ++ [value]) := by
  intro offset below
  rw [List.length_append, List.length_singleton] at below
  by_cases last : offset = values.length
  · subst last
    rw [Function.update_self, List.getElem?_concat_length]
  · have earlier : offset < values.length := by omega
    have apart : (head + offset) % size ≠ (head + values.length) % size :=
      slot_ne (by omega) room last
    rw [Function.update_of_ne apart, List.getElem?_append_left earlier]
    exact holds offset earlier

theorem first (holds : RingHolds size slots head (value :: values)) :
    slots (head % size) = some value :=
  holds 0 (Nat.zero_lt_succ _)

theorem pop (holds : RingHolds size slots head (value :: values)) :
    RingHolds size slots (head + 1) values := by
  intro offset below
  rw [Nat.add_assoc, Nat.add_comm 1]
  exact holds (offset + 1) (Nat.succ_lt_succ below)

end RingHolds

end FeederNet
