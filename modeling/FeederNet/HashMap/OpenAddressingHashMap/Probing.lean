import FeederNet.HashMap.OpenAddressingHashMap
import Mathlib.Data.Nat.Find

/-! # Probing

In a table whose size is a power of two the slots a key is looked for in are those
at the distances `0, 1, …` from its hash, and each slot is met once.
-/

namespace FeederNet.HashMap.OpenAddressingHashMap

variable {Key Value : Type}

/-- The mask takes remainders by the size of the table. -/
structure Masked (map : OpenAddressingHashMap Key Value) : Prop where
  power : ∃ exponent, map.table.length = 2 ^ exponent
  mask : map.mask = map.table.length - 1

def slotAt (hash : Key → Word64) (map : OpenAddressingHashMap Key Value) (key : Key)
    (distance : Nat) : Nat :=
  ((hash key).toNat + distance) % map.table.length

structure FirstStop [Inhabited Key] [Inhabited Value] (hash : Key → Word64)
    (map : OpenAddressingHashMap Key Value)
    (key : Key) (stops : Node Key Value → Bool) (stop : Nat) : Prop where
  below : stop < map.table.length
  stopped : stops (map.nodeAt (map.slotAt hash key stop)) = true
  passed : ∀ distance < stop,
    stops (map.nodeAt (map.slotAt hash key distance)) = false

section Slots

variable {hash : Key → Word64} {map : OpenAddressingHashMap Key Value} {key : Key}

theorem Masked.positive (masked : Masked map) : 0 < map.table.length := by
  rcases masked.power with ⟨exponent, equal⟩
  rw [equal]
  exact Nat.two_pow_pos exponent

theorem Masked.and_mask (masked : Masked map) (number : Nat) :
    number &&& map.mask = number % map.table.length := by
  rcases masked.power with ⟨exponent, equal⟩
  rw [masked.mask, equal, Nat.and_two_pow_sub_one_eq_mod]

theorem Masked.getHash_eq (masked : Masked map) :
    map.getHash hash key = map.slotAt hash key 0 :=
  masked.and_mask _

theorem Masked.next_slotAt (masked : Masked map) (distance : Nat) :
    map.next (map.slotAt hash key distance) = map.slotAt hash key (distance + 1) := by
  rw [next, masked.and_mask, slotAt, Nat.mod_add_mod, slotAt, Nat.add_assoc]

theorem Masked.slotAt_lt (masked : Masked map) (hash : Key → Word64) (key : Key)
    (distance : Nat) :
    map.slotAt hash key distance < map.table.length :=
  Nat.mod_lt _ masked.positive

theorem slotAt_inj {nearer farther : Nat} (ordered : nearer ≤ farther)
    (below : farther < map.table.length)
    (equal : map.slotAt hash key nearer = map.slotAt hash key farther) :
    nearer = farther := by
  have same := eq_of_mod_eq_of_near (by omega) (by omega) equal
  omega

theorem Masked.exists_distance (masked : Masked map) (hash : Key → Word64) (key : Key)
    {index : Nat}
    (below : index < map.table.length) :
    ∃ distance < map.table.length, map.slotAt hash key distance = index := by
  have positive := masked.positive
  have remainder := Nat.mod_lt (hash key).toNat positive
  refine ⟨(index + (map.table.length - (hash key).toNat % map.table.length)) %
    map.table.length, Nat.mod_lt _ positive, ?_⟩
  have split := Nat.div_add_mod (hash key).toNat map.table.length
  have total : (hash key).toNat +
      (index + (map.table.length - (hash key).toNat % map.table.length)) =
      index + map.table.length * ((hash key).toNat / map.table.length + 1) := by
    rw [Nat.mul_add_one]
    omega
  rw [slotAt, Nat.add_mod_mod, total, Nat.add_mul_mod_self_left, Nat.mod_eq_of_lt below]

variable [Inhabited Key] [Inhabited Value]

theorem getElem?_eq_nodeAt {index : Nat} (below : index < map.table.length) :
    map.table[index]? = some (map.nodeAt index) := by
  rw [nodeAt, List.getElem?_eq_getElem below, Option.getD_some]

theorem FirstStop.eq_of_slotAt {stops : Node Key Value → Bool} {stop distance : Nat}
    (first : FirstStop hash map key stops stop) (inside : distance < map.table.length)
    (equal : map.slotAt hash key distance = map.slotAt hash key stop) :
    distance = stop := by
  rcases Nat.le_total distance stop with ordered | ordered
  · exact slotAt_inj ordered first.below equal
  · exact (slotAt_inj ordered inside equal.symm).symm

theorem exists_firstStop (stops : Node Key Value → Bool) {distance : Nat}
    (below : distance < map.table.length)
    (stopped : stops (map.nodeAt (map.slotAt hash key distance)) = true) :
    ∃ stop ≤ distance, FirstStop hash map key stops stop := by
  have found : ∃ distance, stops (map.nodeAt (map.slotAt hash key distance)) = true :=
    ⟨distance, stopped⟩
  have first := Nat.find_min' found stopped
  refine ⟨Nat.find found, first, first.trans_lt below, Nat.find_spec found, ?_⟩
  intro nearer before
  exact Bool.eq_false_iff.mpr (Nat.find_min found before)

end Slots

/-! ## The loops -/

section Loops

variable [Inhabited Key] [Inhabited Value] {hash : Key → Word64}
  {map : OpenAddressingHashMap Key Value} {key : Key}
  {stops : Node Key Value → Bool} {stop : Nat}

theorem Masked.probe_from (masked : Masked map)
    (first : FirstStop hash map key stops stop) (fuel distance : Nat)
    (before : distance ≤ stop) (enough : stop < fuel + distance) :
    map.probe stops (map.slotAt hash key 0) fuel (map.slotAt hash key distance) =
      .ok (some (map.slotAt hash key stop,
        map.nodeAt (map.slotAt hash key stop))) := by
  induction fuel generalizing distance with
  | zero => omega
  | succ fuel induction =>
      rw [probe, getElem?_eq_nodeAt (masked.slotAt_lt hash key distance)]
      rcases before.eq_or_lt with rfl | before
      · simp only [first.stopped, if_true]
      · have below := first.below
        have apart : map.slotAt hash key (distance + 1) ≠ map.slotAt hash key 0 := by
          intro equal
          have := slotAt_inj (Nat.zero_le _) (by omega) equal.symm
          omega
        simp only [first.passed distance before, masked.next_slotAt, if_neg apart]
        exact induction (distance + 1) before (by omega)

theorem Masked.probe_stop (masked : Masked map)
    (first : FirstStop hash map key stops stop) {fuel : Nat}
    (enough : map.table.length ≤ fuel) :
    map.probe stops (map.getHash hash key) fuel (map.getHash hash key) =
      .ok (some (map.slotAt hash key stop,
        map.nodeAt (map.slotAt hash key stop))) := by
  have below := first.below
  rw [masked.getHash_eq]
  exact masked.probe_from first fuel 0 (Nat.zero_le _) (by omega)

/-- A loop that nothing stops comes back to the first slot. -/
theorem Masked.probe_around (masked : Masked map)
    (passed : ∀ distance < map.table.length,
      stops (map.nodeAt (map.slotAt hash key distance)) = false)
    (fuel distance : Nat) (before : distance < map.table.length)
    (enough : map.table.length ≤ fuel + distance) :
    map.probe stops (map.slotAt hash key 0) fuel (map.slotAt hash key distance) =
      .ok none := by
  induction fuel generalizing distance with
  | zero => omega
  | succ fuel induction =>
      rw [probe, getElem?_eq_nodeAt (masked.slotAt_lt hash key distance)]
      simp only [passed distance before, masked.next_slotAt]
      split
      · contradiction
      · split
        · rfl
        · rename_i apart
          have inside : distance + 1 < map.table.length := by
            rcases (show distance + 1 ≤ map.table.length from before).eq_or_lt with
              equal | below
            · have around : map.slotAt hash key (distance + 1) =
                  map.slotAt hash key 0 := by
                rw [equal, slotAt, slotAt, Nat.add_mod_right, Nat.add_zero]
              exact absurd around apart
            · exact below
          exact induction (distance + 1) inside (by omega)

theorem Masked.probe_none (masked : Masked map) (stops : Node Key Value → Bool)
    (passed : ∀ distance < map.table.length,
      stops (map.nodeAt (map.slotAt hash key distance)) = false)
    {fuel : Nat} (enough : map.table.length ≤ fuel) :
    map.probe stops (map.getHash hash key) fuel (map.getHash hash key) = .ok none := by
  rw [masked.getHash_eq]
  exact masked.probe_around passed fuel 0 masked.positive enough

variable [DecidableEq Key]

def stopsInsert (key : Key) (node : Node Key Value) : Bool :=
  !node.isOccupied || decide (node.key = key)

theorem Masked.insertProbe_from (masked : Masked map)
    (first : FirstStop hash map key (stopsInsert key) stop) (fuel distance : Nat)
    (before : distance ≤ stop) (enough : stop < fuel + distance) :
    map.insertProbe key fuel (map.slotAt hash key distance) =
      .ok (map.slotAt hash key stop, map.nodeAt (map.slotAt hash key stop)) := by
  induction fuel generalizing distance with
  | zero => omega
  | succ fuel induction =>
      rw [insertProbe, getElem?_eq_nodeAt (masked.slotAt_lt hash key distance)]
      rcases before.eq_or_lt with rfl | before
      · exact if_pos first.stopped
      · have passed := first.passed distance before
        unfold stopsInsert at passed
        simp only [passed, masked.next_slotAt]
        exact induction (distance + 1) before (by omega)

theorem Masked.insertProbe_stop (masked : Masked map)
    (first : FirstStop hash map key (stopsInsert key) stop) {fuel : Nat}
    (enough : map.table.length ≤ fuel) :
    map.insertProbe key fuel (map.getHash hash key) =
      .ok (map.slotAt hash key stop, map.nodeAt (map.slotAt hash key stop)) := by
  have below := first.below
  rw [masked.getHash_eq]
  exact masked.insertProbe_from first fuel 0 (Nat.zero_le _) (by omega)

end Loops

end FeederNet.HashMap.OpenAddressingHashMap
