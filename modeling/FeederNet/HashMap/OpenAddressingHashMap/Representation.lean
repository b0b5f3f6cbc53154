import FeederNet.HashMap.OpenAddressingHashMap.Refinement
import Mathlib.Logic.Function.Iterate

/-! # Representation invariant of OpenAddressingHashMap

What holds of the table after every call, in the terms of the code. The load test is taken
without rounding.
-/

namespace FeederNet.HashMap.OpenAddressingHashMap

variable {Key Value : Type} [DecidableEq Key] [Inhabited Key] [Inhabited Value]

def probed (hash : Key → Word64) (map : OpenAddressingHashMap Key Value) (key : Key)
    (turns : Nat) : Nat :=
  map.next^[turns] (map.getHash hash key)

structure Consistent (hash : Key → Word64) (map : OpenAddressingHashMap Key Value) :
    Prop where
  power : ∃ exponent, map.table.length = 2 ^ exponent
  mask : map.mask = map.table.length - 1
  counted : map.size = map.table.countP Node.isOccupied
  loaded : map.size * 2 ^ 24 ≤ significand * map.table.length
  vacant : ∃ node ∈ map.table, node.isOccupied = false
  notFull : ∀ key, ∃ result, ∀ fuel, map.table.length * 2 + 1 < fuel →
    operatorIndex hash .exact fuel map key = .ok result
  path : ∀ key index, (map.nodeAt index).holds key = true →
    ∃ turns, map.probed hash key turns = index ∧
      ∀ earlier < turns, (map.nodeAt (map.probed hash key earlier)).isEmpty = false
  contains : ∀ key, ∃ answer,
    (∀ fuel, map.table.length ≤ fuel → map.contains hash fuel key = .ok answer) ∧
      (answer = true ↔ ∃ index, (map.nodeAt index).holds key = true)

section Consistent

variable {hash : Key → Word64} {load : LoadFactor}
  {map : OpenAddressingHashMap Key Value}

omit [DecidableEq Key] [Inhabited Key] [Inhabited Value] in
theorem Masked.probed_eq_slotAt (masked : Masked map) (key : Key) (turns : Nat) :
    map.probed hash key turns = map.slotAt hash key turns := by
  rw [probed]
  induction turns with
  | zero => exact masked.getHash_eq
  | succ turns induction =>
      rw [Function.iterate_succ_apply', induction, masked.next_slotAt]

theorem WellFormed.exists_contains (wellFormed : WellFormed hash load map) (key : Key) :
    ∃ answer,
      (∀ fuel, map.table.length ≤ fuel → map.contains hash fuel key = .ok answer) ∧
        (answer = true ↔ ∃ index, (map.nodeAt index).holds key = true) := by
  rcases wellFormed.exists_lookup key with ⟨found, finds, looks⟩
  refine ⟨found.isSome, fun fuel enough => ?_, ?_⟩
  · rw [OpenAddressingHashMap.contains, looks fuel enough]
    rfl
  · cases finds with
    | found holds => exact iff_of_true rfl ⟨_, holds⟩
    | absent nowhere =>
        refine iff_of_false Bool.false_ne_true ?_
        rintro ⟨index, holds⟩
        rw [nowhere index] at holds
        cases holds

theorem WellFormed.exists_probed (wellFormed : WellFormed hash load map) {key : Key}
    {index : Nat} (holds : (map.nodeAt index).holds key = true) :
    ∃ turns, map.probed hash key turns = index ∧
      ∀ earlier < turns, (map.nodeAt (map.probed hash key earlier)).isEmpty = false := by
  rcases wellFormed.exists_distance hash key (lt_of_holds holds) with
    ⟨distance, inside, rfl⟩
  refine ⟨distance, wellFormed.probed_eq_slotAt key distance, fun earlier before => ?_⟩
  rw [wellFormed.probed_eq_slotAt]
  exact wellFormed.reachable key distance inside holds earlier before

theorem WellFormed.consistent (wellFormed : WellFormed hash .exact map) :
    Consistent hash map where
  power := wellFormed.power
  mask := wellFormed.mask
  counted := wellFormed.counted
  loaded := by
    have fits : exceedsExact map.size map.table.length = false := wellFormed.fits
    rw [exceedsExact, decide_eq_false_iff_not, Nat.not_lt] at fits
    rwa [Nat.mul_comm significand]
  vacant := wellFormed.exists_unoccupied
  notFull key := by
    rcases wellFormed.exists_operatorIndex key with ⟨_, _, _, returns⟩
    exact ⟨_, returns⟩
  path _ _ := wellFormed.exists_probed
  contains := wellFormed.exists_contains

end Consistent

/-- Every sequence of calls returns, and leaves a consistent table behind each call. -/
theorem exists_run_consistent (hash : Key → Word64) (buckets : PowerOfTwo)
    (operations : List (Operation Key Value)) :
    ∃ calls,
      (∃ bound, ∀ fuel, bound ≤ fuel →
        run hash .exact fuel (construct buckets.toNat) operations = .ok calls) ∧
        Consistent hash (construct buckets.toNat : OpenAddressingHashMap Key Value) ∧
        ∀ call ∈ calls, Consistent hash call.after := by
  rcases buckets.exists_exponent with ⟨exponent, _, power⟩
  have wellFormed : WellFormed hash .exact
      (construct buckets.toNat : OpenAddressingHashMap Key Value) :=
    wellFormed_construct hash .exact power
  rcases wellFormed.exists_run operations with ⟨calls, runs, kept, _⟩
  exact ⟨calls, runs, wellFormed.consistent, fun call member => (kept call member).consistent⟩

end FeederNet.HashMap.OpenAddressingHashMap
