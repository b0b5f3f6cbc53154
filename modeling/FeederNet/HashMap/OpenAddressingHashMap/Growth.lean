import FeederNet.HashMap.OpenAddressingHashMap.Contents

/-! # Growth of OpenAddressingHashMap

`reHash` on any table whose keys are distinct, reached by calls or not.
-/

namespace FeederNet.HashMap.OpenAddressingHashMap

variable {Key Value : Type} [DecidableEq Key] [Inhabited Key] [Inhabited Value]

def reinsert (hash : Key → Word64) (load : LoadFactor) (fuel : Nat)
    (map : OpenAddressingHashMap Key Value) (node : Node Key Value) :
    Except Fault (OpenAddressingHashMap Key Value) :=
  if node.isOccupied then insert hash load fuel map node.key node.value else .ok map

/-- A table of twice the size with the same entries, all of which can be found. -/
structure Regrown (hash : Key → Word64) (map grown : OpenAddressingHashMap Key Value) :
    Prop where
  length : grown.table.length = map.table.length * 2
  fresh : ∀ node ∈ grown.table, node.status ≠ .deleted
  entries : ∀ key value,
    ⟨key, value, .occupied⟩ ∈ grown.table ↔ ⟨key, value, .occupied⟩ ∈ map.table
  size : grown.size = map.size
  found : ∀ key value, ⟨key, value, .occupied⟩ ∈ map.table → ∃ index,
    grown.nodeAt index = ⟨key, value, .occupied⟩ ∧ ∀ fuel, grown.table.length ≤ fuel →
      grown.find hash fuel key = .ok (some index) ∧ grown.contains hash fuel key = .ok true

/-- Where the loop of `reHash` comes to an occupied node, `insert` finds the new table
large enough. -/
def NeverNests (hash : Key → Word64) (load : LoadFactor)
    (map : OpenAddressingHashMap Key Value) : Prop :=
  ∀ seen node rest, map.table = seen ++ node :: rest → node.isOccupied = true →
    ∃ current : OpenAddressingHashMap Key Value,
      (∀ fuel, map.table.length * 2 < fuel →
        seen.foldlM (reinsert hash load fuel) (construct (map.table.length * 2)) =
          .ok current) ∧
        load.exceeded (current.size + 1) current.table.length = false

section Growth

variable {hash : Key → Word64} {load : LoadFactor}
  {map grown : OpenAddressingHashMap Key Value}

omit [DecidableEq Key] [Inhabited Key] [Inhabited Value] in
theorem Apart.nodup_occupied {nodes : List (Node Key Value)} (apart : Apart nodes) :
    (nodes.filter Node.isOccupied).Nodup := by
  rw [List.Nodup, List.pairwise_filter]
  apply apart.imp
  intro left right different leftOccupied rightOccupied same
  exact different leftOccupied rightOccupied (congrArg Node.key same)

theorem Apart.distinct (apart : Apart map.table) : Distinct map := by
  have ordered : ∀ key left right, left < right → (map.nodeAt left).holds key = true →
      (map.nodeAt right).holds key = true → False := by
    intro key left right before leftHolds rightHolds
    have leftBelow := lt_of_holds leftHolds
    have rightBelow := lt_of_holds rightHolds
    rw [nodeAt, List.getElem?_eq_getElem leftBelow] at leftHolds
    rw [nodeAt, List.getElem?_eq_getElem rightBelow] at rightHolds
    rcases Node.holds_iff.mp leftHolds with ⟨leftOccupied, leftKey⟩
    rcases Node.holds_iff.mp rightHolds with ⟨rightOccupied, rightKey⟩
    exact List.pairwise_iff_getElem.mp apart left right leftBelow rightBelow before
      leftOccupied rightOccupied (leftKey.trans rightKey.symm)
  intro key left right leftHolds rightHolds
  rcases Nat.lt_trichotomy left right with before | same | behind
  · exact (ordered key left right before leftHolds rightHolds).elim
  · exact same
  · exact (ordered key right left behind rightHolds leftHolds).elim

omit [Inhabited Key] [Inhabited Value] in
theorem countP_eq_of_entries {left right : List (Node Key Value)} (leftApart : Apart left)
    (rightApart : Apart right)
    (entries : ∀ key value,
      ⟨key, value, .occupied⟩ ∈ left ↔ ⟨key, value, .occupied⟩ ∈ right) :
    left.countP Node.isOccupied = right.countP Node.isOccupied := by
  rw [List.countP_eq_length_filter, List.countP_eq_length_filter]
  apply List.Perm.length_eq
  rw [List.perm_ext_iff_of_nodup leftApart.nodup_occupied rightApart.nodup_occupied]
  intro node
  rw [List.mem_filter, List.mem_filter]
  apply and_congr_left
  intro occupied
  rw [Node.eq_of_holds (Node.holds_iff.mpr ⟨occupied, rfl⟩)]
  exact entries node.key node.value

theorem Rehashed.regrown
    (rehashed : Rehashed hash load (map.table.length * 2) map.table grown)
    (distinct : Distinct map) (counted : map.size = map.table.countP Node.isOccupied) :
    Regrown hash map grown := by
  have entries : ∀ key value,
      ⟨key, value, .occupied⟩ ∈ grown.table ↔ ⟨key, value, .occupied⟩ ∈ map.table := by
    intro key value
    rw [occupied_mem_iff, ← rehashed.represents, distinct.represents_table,
      occupied_mem_iff]
  refine ⟨rehashed.length, ?_, entries, ?_, ?_⟩
  · intro node member
    rcases List.getElem_of_mem member with ⟨index, below, rfl⟩
    have fresh := rehashed.fresh index
    rwa [nodeAt, List.getElem?_eq_getElem below, Option.getD_some] at fresh
  · rw [rehashed.wellFormed.counted, counted]
    exact countP_eq_of_entries rehashed.distinct.apart distinct.apart entries
  · intro key value member
    rcases (occupied_mem_iff key value).mp ((entries key value).mpr member) with
      ⟨index, node⟩
    have holds : (grown.nodeAt index).holds key = true := Node.holds_of_eq node
    refine ⟨index, node, fun fuel enough => ?_⟩
    rcases rehashed.wellFormed.exists_lookup key with ⟨found, finds, looks⟩
    cases finds with
    | absent nowhere =>
        rw [nowhere index] at holds
        cases holds
    | @found other otherHolds =>
        rw [rehashed.distinct key other index otherHolds holds] at looks
        constructor
        · rw [find, looks fuel enough]
          rfl
        · rw [OpenAddressingHashMap.contains, looks fuel enough]
          rfl

theorem Masked.neverNests (masked : Masked map)
    (counted : map.size = map.table.countP Node.isOccupied)
    (fits : load.exceeded map.size map.table.length = false) : NeverNests hash load map := by
  intro seen node rest split occupied
  have room := masked.fits_doubled fits
  have more : seen.countP Node.isOccupied + 1 ≤ map.size := by
    rw [counted, split, List.countP_append, List.countP_cons, occupied, if_pos rfl]
    omega
  have space : load.exceeded (seen.countP Node.isOccupied) (map.table.length * 2) = false :=
    load.not_exceeded_of_le (Nat.le_of_succ_le more) room
  rcases Rehashed.foldlM seen space masked.rehashed_construct with ⟨current, rehashed, folds⟩
  refine ⟨current, folds, ?_⟩
  rw [rehashed.length]
  exact load.not_exceeded_of_le ((Nat.succ_le_succ rehashed.bounded).trans more) room

end Growth

/-- `reHash` keeps the entries and their number, and none of its calls of `insert` grows the
table again. -/
theorem reHash_regrows (hash : Key → Word64) (load : LoadFactor)
    {map : OpenAddressingHashMap Key Value} (masked : Masked map) (distinct : Distinct map)
    (counted : map.size = map.table.countP Node.isOccupied)
    (fits : load.exceeded map.size map.table.length = false) :
    ∃ grown, (∀ fuel, map.table.length * 2 < fuel → map.reHash hash load fuel = .ok grown) ∧
      Regrown hash map grown ∧ NeverNests hash load map := by
  rcases masked.exists_reHash counted fits with ⟨grown, rehashed, returns⟩
  exact ⟨grown, returns, rehashed.regrown distinct counted,
    masked.neverNests counted fits⟩

def withTombstone : OpenAddressingHashMap Nat Nat where
  table := [⟨4, 40, .occupied⟩, ⟨0, 10, .deleted⟩, ⟨8, 80, .occupied⟩, default]
  size := 2
  mask := 3

theorem reHash_regrows_withTombstone :
    ∃ grown, (∀ fuel, 8 < fuel →
        withTombstone.reHash (BitVec.ofNat 64) .rounded fuel = .ok grown) ∧
      Regrown (BitVec.ofNat 64) withTombstone grown ∧
      NeverNests (BitVec.ofNat 64) .rounded withTombstone := by
  have distinct : Distinct withTombstone := by
    apply Apart.distinct
    rw [Apart]
    decide
  have fits : LoadFactor.rounded.exceeded withTombstone.size withTombstone.table.length =
      false := by
    have power : withTombstone.table.length = 2 ^ 2 := rfl
    have two : withTombstone.size = 2 := rfl
    have small : 2 ≤ 2 ^ 24 := by decide
    rw [power, two]
    apply (exceedsRounded_two_pow 2 2).mpr
    rw [SinglePrecision.round_of_le small]
    decide
  exact reHash_regrows (BitVec.ofNat 64) .rounded ⟨⟨2, rfl⟩, rfl⟩ distinct rfl fits

end FeederNet.HashMap.OpenAddressingHashMap
