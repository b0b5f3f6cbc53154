import FeederNet.HashMap.OpenAddressingHashMap.Refinement
import Mathlib.Data.Nat.Factorization.Basic

/-! # Bucket counts of OpenAddressingHashMap

The constructor takes every count. Where it is not a power of two, the mask leads a loop
around a part of the table only, and `insert` never leaves that part once it is full.
-/

namespace FeederNet.HashMap.OpenAddressingHashMap

/-- The test in the constructors of the two chaining maps. -/
def Admitted (buckets : Word64) : Prop :=
  buckets ≠ 0 ∧ buckets &&& (buckets - 1) = 0

/-- The calls come to an end, which may be an exception, and index inside the table. -/
def EndsInside [DecidableEq Key] [Inhabited Key] [Inhabited Value] (hash : Key → Word64)
    (buckets : Word64) (operations : List (Operation Key Value)) : Prop :=
  ∃ bound, ∀ fuel, bound ≤ fuel →
    run hash .rounded fuel (construct buckets.toNat) operations ≠ .error .outOfFuel ∧
      run hash .rounded fuel (construct buckets.toNat) operations ≠ .error .outOfRange

/-- So do all sequences of calls, with every hash function. -/
def AlwaysEndsInside (buckets : Word64) : Prop :=
  ∀ (Key Value : Type) [DecidableEq Key] [Inhabited Key] [Inhabited Value]
    (hash : Key → Word64) (operations : List (Operation Key Value)),
    EndsInside hash buckets operations

/-! ## The part of the table that the mask leads to -/

section Circle

variable {exponent odd : Nat}

/-- Below the lowest bit of the count the mask is all ones, and that bit is not set in it. -/
theorem and_pred_of_le (isOdd : odd % 2 = 1) {number : Nat} (inside : number ≤ 2 ^ exponent) :
    number &&& (2 ^ exponent * odd - 1) = number % 2 ^ exponent := by
  have positive := Nat.two_pow_pos exponent
  have split : 2 ^ exponent * odd - 1 =
      2 ^ (exponent + 1) * (odd / 2) + (2 ^ exponent - 1) := by
    have parity : odd = 2 * (odd / 2) + 1 := by omega
    have product : 2 ^ exponent * odd = 2 ^ (exponent + 1) * (odd / 2) + 2 ^ exponent := by
      conv => lhs; rw [parity]
      ring
    omega
  have small : number < 2 ^ (exponent + 1) := by
    rw [Nat.pow_succ]
    omega
  have low : (2 ^ exponent * odd - 1) % 2 ^ (exponent + 1) = 2 ^ exponent - 1 := by
    rw [split, Nat.mul_add_mod]
    apply Nat.mod_eq_of_lt
    rw [Nat.pow_succ]
    omega
  have below : number &&& (2 ^ exponent * odd - 1) < 2 ^ (exponent + 1) :=
    lt_of_le_of_lt Nat.and_le_left small
  calc
    number &&& (2 ^ exponent * odd - 1)
      = (number &&& (2 ^ exponent * odd - 1)) % 2 ^ (exponent + 1) :=
        (Nat.mod_eq_of_lt below).symm
    _ = number &&& (2 ^ exponent - 1) := by
        rw [Nat.and_mod_two_pow, low, Nat.mod_eq_of_lt small]
    _ = number % 2 ^ exponent := Nat.and_two_pow_sub_one_eq_mod ..

theorem not_exceeded_circle (large : 3 ≤ odd) {size : Nat} (bound : size ≤ 2 ^ exponent + 1) :
    LoadFactor.rounded.exceeded size (2 ^ exponent * odd) = false := by
  have positive := Nat.two_pow_pos exponent
  have filled : SinglePrecision.round size ≤ 1 * 2 ^ (exponent + 1) := by
    apply SinglePrecision.round_le (by decide)
    rw [Nat.pow_succ]
    omega
  have capacity : 3 * 2 ^ exponent ≤ SinglePrecision.round (2 ^ exponent * odd) := by
    apply SinglePrecision.le_round (by decide)
    rw [Nat.mul_comm]
    exact Nat.mul_le_mul_left _ large
  have product : 2 ^ (exponent + 25) ≤
      SinglePrecision.round (2 ^ exponent * odd) * significand := by
    rw [Nat.pow_add, significand]
    omega
  change exceedsRounded size (2 ^ exponent * odd) = false
  rw [exceedsRounded, decide_eq_false_iff_not, Nat.not_lt]
  calc
    SinglePrecision.round size * 2 ^ 24 ≤ 1 * 2 ^ (exponent + 1) * 2 ^ 24 :=
      Nat.mul_le_mul_right _ filled
    _ = 2 ^ (exponent + 25) := by ring
    _ ≤ _ := SinglePrecision.two_pow_le_round product

end Circle

/-! ## Filling the circle -/

/-- The keys below `count` stand in the slots of their own numbers, the first of the
table. -/
structure Filled (buckets count : Nat) (map : OpenAddressingHashMap Nat Unit) : Prop where
  length : map.table.length = buckets
  mask : map.mask = buckets - 1
  size : map.size = count
  taken : ∀ index < count, map.nodeAt index = ⟨index, (), .occupied⟩
  free : ∀ index, count ≤ index → (map.nodeAt index).isOccupied = false

section Filling

variable {exponent odd count : Nat} {map : OpenAddressingHashMap Nat Unit}

theorem filled_construct {buckets : Nat} (positive : 0 < buckets) :
    Filled buckets 0 (construct buckets) where
  length := List.length_replicate
  mask := if_neg (Nat.ne_of_gt positive)
  size := rfl
  taken := nofun
  free index _ := by
    rw [nodeAt_construct]
    rfl

theorem Filled.next_eq (filled : Filled (2 ^ exponent * odd) count map)
    (isOdd : odd % 2 = 1) {index : Nat} (inside : index < 2 ^ exponent) :
    map.next index = (index + 1) % 2 ^ exponent := by
  rw [next, filled.mask]
  exact and_pred_of_le isOdd inside

theorem Filled.getElem?_eq {buckets : Nat} (filled : Filled buckets count map) {index : Nat}
    (inside : index < buckets) : map.table[index]? = some (map.nodeAt index) :=
  getElem?_eq_nodeAt (filled.length.symm ▸ inside)

theorem Filled.passed {buckets : Nat} (filled : Filled buckets count map) {index key : Nat}
    (below : index < count) (other : index ≠ key) :
    (!(map.nodeAt index).isOccupied || decide ((map.nodeAt index).key = key)) = false := by
  rw [filled.taken index below]
  simpa [Node.isOccupied] using other

theorem Filled.insertProbe_free (filled : Filled (2 ^ exponent * odd) count map)
    (isOdd : odd % 2 = 1) (room : count < 2 ^ exponent) (fuel : Nat) {index : Nat}
    (before : index ≤ count) :
    map.insertProbe count fuel index = .error .outOfFuel ∨
      map.insertProbe count fuel index = .ok (count, map.nodeAt count) := by
  induction fuel generalizing index with
  | zero => exact .inl rfl
  | succ fuel induction =>
      have inside : index < 2 ^ exponent * odd :=
        (before.trans_lt room).trans_le (Nat.le_mul_of_pos_right _ (by omega))
      rw [insertProbe, filled.getElem?_eq inside]
      rcases before.eq_or_lt with rfl | below
      · simp only [filled.free index le_rfl, Bool.not_false, Bool.true_or, if_true, or_true]
      · have onward : map.next index = index + 1 := by
          rw [filled.next_eq isOdd (below.trans room)]
          exact Nat.mod_eq_of_lt (lt_of_le_of_lt below room)
        simp only [filled.passed below below.ne, onward]
        exact induction below

/-- In the full circle the loop for another key does not end. -/
theorem Filled.insertProbe_full (filled : Filled (2 ^ exponent * odd) (2 ^ exponent) map)
    (isOdd : odd % 2 = 1) (fuel : Nat) {index : Nat} (inside : index < 2 ^ exponent) :
    map.insertProbe (2 ^ exponent) fuel index = .error .outOfFuel := by
  induction fuel generalizing index with
  | zero => rfl
  | succ fuel induction =>
      have within : index < 2 ^ exponent * odd :=
        inside.trans_le (Nat.le_mul_of_pos_right _ (by omega))
      rw [insertProbe, filled.getElem?_eq within]
      simp only [filled.passed inside inside.ne, filled.next_eq isOdd inside]
      exact induction (Nat.mod_lt _ (Nat.two_pow_pos exponent))

variable {hash : Nat → Word64}

theorem Filled.getHash_eq {buckets key : Nat} (filled : Filled buckets count map)
    (home : (hash key).toNat &&& (buckets - 1) = 0) : map.getHash hash key = 0 := by
  rw [getHash, filled.mask, home]

theorem Filled.insert_eq (filled : Filled (2 ^ exponent * odd) count map) (large : 3 ≤ odd)
    (room : count ≤ 2 ^ exponent) (key fuel : Nat) :
    insert hash .rounded (fuel + 1) map key () = map.insertLoaded hash fuel key () := by
  have fits : LoadFactor.rounded.exceeded (map.size + 1) map.table.length = false := by
    rw [filled.size, filled.length]
    exact not_exceeded_circle large (Nat.succ_le_succ room)
  rw [insert, fits]
  rfl

theorem Filled.replace {buckets : Nat} (filled : Filled buckets count map)
    (inside : count < buckets) :
    Filled buckets (count + 1) (map.replace count ⟨count, (), .occupied⟩ (map.size + 1)) where
  length := (length_replace _ _).trans filled.length
  mask := filled.mask
  size := congrArg (· + 1) filled.size
  taken index below := by
    rcases (Nat.le_of_lt_succ below).eq_or_lt with rfl | earlier
    · exact nodeAt_replace_self _ _ (filled.length.symm ▸ inside)
    · rw [nodeAt_replace_of_ne _ _ earlier.ne]
      exact filled.taken index earlier
  free index beyond := by
    rw [nodeAt_replace_of_ne _ _ (Nat.ne_of_gt beyond)]
    exact filled.free index (Nat.le_of_succ_le beyond)

theorem Filled.insert_free (filled : Filled (2 ^ exponent * odd) count map)
    (isOdd : odd % 2 = 1) (large : 3 ≤ odd) (room : count < 2 ^ exponent)
    (home : (hash count).toNat &&& (2 ^ exponent * odd - 1) = 0) (fuel : Nat) :
    insert hash .rounded fuel map count () = .error .outOfFuel ∨
      ∃ next, insert hash .rounded fuel map count () = .ok next ∧
        Filled (2 ^ exponent * odd) (count + 1) next := by
  cases fuel with
  | zero => exact .inl rfl
  | succ fuel =>
      rw [filled.insert_eq large room.le, insertLoaded, filled.getHash_eq home]
      rcases filled.insertProbe_free isOdd room fuel (Nat.zero_le _) with stuck | found
      · rw [stuck]
        exact .inl rfl
      · rw [found]
        simp only [filled.free count le_rfl]
        have inside : count < 2 ^ exponent * odd :=
          room.trans_le (Nat.le_mul_of_pos_right _ (by omega))
        exact .inr ⟨_, rfl, filled.replace inside⟩

theorem Filled.insert_full (filled : Filled (2 ^ exponent * odd) (2 ^ exponent) map)
    (isOdd : odd % 2 = 1) (large : 3 ≤ odd)
    (home : (hash (2 ^ exponent)).toNat &&& (2 ^ exponent * odd - 1) = 0) (fuel : Nat) :
    insert hash .rounded fuel map (2 ^ exponent) () = .error .outOfFuel := by
  cases fuel with
  | zero => rfl
  | succ fuel =>
      rw [filled.insert_eq large le_rfl, insertLoaded, filled.getHash_eq home,
        filled.insertProbe_full isOdd fuel (Nat.two_pow_pos exponent)]

theorem Filled.run_stuck (filled : Filled (2 ^ exponent * odd) count map)
    (isOdd : odd % 2 = 1) (large : 3 ≤ odd) {rest : Nat} (total : count + rest = 2 ^ exponent)
    (home : ∀ key ≤ 2 ^ exponent, (hash key).toNat &&& (2 ^ exponent * odd - 1) = 0)
    (fuel : Nat) :
    run hash .rounded fuel map ((List.range' count (rest + 1)).map (.insert · ())) =
      .error .outOfFuel := by
  induction rest generalizing count map with
  | zero =>
      rw [Nat.add_zero] at total
      subst total
      rw [List.range'_one, List.map_singleton, run, apply,
        filled.insert_full isOdd large (home _ le_rfl)]
      rfl
  | succ rest induction =>
      rw [List.range'_succ, List.map_cons, run, apply]
      rcases filled.insert_free isOdd large (by omega) (home count (by omega)) fuel with
        stuck | ⟨next, inserts, more⟩
      · rw [stuck]
        rfl
      · rw [inserts]
        simp only [Except.map, induction more (by omega)]

end Filling

/-! ## All counts -/

section Counts

variable {buckets : Word64}

theorem admitted_of_two_pow {exponent : Nat} (power : buckets.toNat = 2 ^ exponent) :
    Admitted buckets := by
  have positive := Nat.two_pow_pos exponent
  have bound := buckets.isLt
  have one : (1 : Word64).toNat = 1 := rfl
  have pred : (buckets - 1).toNat = 2 ^ exponent - 1 := by
    rw [BitVec.toNat_sub, one]
    omega
  constructor
  · rintro rfl
    rw [← power] at positive
    exact absurd positive (by decide)
  · apply BitVec.eq_of_toNat_eq
    rw [BitVec.toNat_and, pred, power, Nat.and_two_pow_sub_one_eq_mod, Nat.mod_self]
    rfl

theorem exists_odd_of_not_admitted (nonzero : buckets ≠ 0) (refused : ¬ Admitted buckets) :
    ∃ exponent odd, buckets.toNat = 2 ^ exponent * odd ∧ odd % 2 = 1 ∧ 3 ≤ odd := by
  have positive : buckets.toNat ≠ 0 := fun zero =>
    nonzero (BitVec.eq_of_toNat_eq (by simpa using zero))
  rcases Nat.exists_eq_two_pow_mul_odd positive with ⟨exponent, odd, isOdd, equal⟩
  have remainder := Nat.odd_iff.mp isOdd
  refine ⟨exponent, odd, equal, remainder, ?_⟩
  by_contra small
  have one : odd = 1 := by omega
  rw [one, Nat.mul_one] at equal
  exact refused (admitted_of_two_pow equal)

theorem endsInside_of_admitted [DecidableEq Key] [Inhabited Key] [Inhabited Value]
    (admitted : Admitted buckets) (hash : Key → Word64)
    (operations : List (Operation Key Value)) : EndsInside hash buckets operations := by
  rcases PowerOfTwo.exists_exponent ⟨buckets, admitted.1, admitted.2⟩ with
    ⟨exponent, _, power⟩
  have wellFormed : WellFormed hash .rounded
      (construct buckets.toNat : OpenAddressingHashMap Key Value) :=
    wellFormed_construct hash .rounded power
  rcases wellFormed.exists_run operations with ⟨calls, ⟨bound, runs⟩, _⟩
  refine ⟨bound, fun fuel enough => ?_⟩
  rw [runs fuel enough]
  exact ⟨nofun, nofun⟩

/-- The loops end inside the table, whatever is hashed and called, exactly for the counts
that the two chaining maps admit. -/
theorem alwaysEndsInside_iff_admitted (buckets : Word64) :
    AlwaysEndsInside buckets ↔ Admitted buckets := by
  constructor
  · intro ends
    by_contra refused
    by_cases zero : buckets = 0
    · subst zero
      rcases ends Nat Unit (fun _ => 0) [.contains 0] with ⟨bound, inside⟩
      exact (inside (bound + 1) (Nat.le_succ bound)).2 rfl
    · rcases exists_odd_of_not_admitted zero refused with
        ⟨exponent, odd, equal, isOdd, large⟩
      rcases ends Nat Unit (fun _ => 0) ((List.range' 0 (2 ^ exponent + 1)).map (.insert · ()))
        with ⟨bound, inside⟩
      have positive : 0 < 2 ^ exponent * odd :=
        Nat.mul_pos (Nat.two_pow_pos exponent) (by omega)
      rw [equal] at inside
      exact (inside bound le_rfl).1 ((filled_construct positive).run_stuck isOdd large
        (Nat.zero_add _) (fun _ _ => Nat.zero_and _) bound)
  · intro admitted Key Value _ _ _ hash operations
    exact endsInside_of_admitted admitted hash operations

/-- With three buckets and the identity as hash, the keys 0 and 1 share a circle of one
slot. -/
theorem three_buckets_never_end :
    (∀ fuel, run (BitVec.ofNat 64) .rounded fuel (construct 3)
      [.insert 0 (), .insert 1 ()] = .error .outOfFuel) ∧
      ¬ EndsInside (BitVec.ofNat 64) 3 [.insert 0 (), .insert 1 ()] := by
  have stuck : ∀ fuel, run (BitVec.ofNat 64) .rounded fuel (construct 3)
      [.insert 0 (), .insert 1 ()] = .error .outOfFuel := by
    have filled : Filled (2 ^ 0 * 3) 0 (construct 3) := filled_construct (by decide)
    have home : ∀ key ≤ 2 ^ 0, (BitVec.ofNat 64 key).toNat &&& (2 ^ 0 * 3 - 1) = 0 := by
      decide
    exact filled.run_stuck rfl le_rfl (Nat.zero_add 1) home
  refine ⟨stuck, ?_⟩
  rintro ⟨bound, inside⟩
  exact (inside bound le_rfl).1 (stuck bound)

end Counts

end FeederNet.HashMap.OpenAddressingHashMap
