import FeederNet.HashMap.OpenAddressingHashMap.Probing

/-! # Invariant of OpenAddressingHashMap

What holds of the table after every call, the defective ones included.
-/

namespace FeederNet.HashMap.OpenAddressingHashMap

variable {Key Value : Type} [DecidableEq Key] [Inhabited Key] [Inhabited Value]

/-- Between the hash of a key and each slot that the key occupies no slot is
`EMPTY`. -/
structure WellFormed (hash : Key → Word64) (load : LoadFactor)
    (map : OpenAddressingHashMap Key Value) : Prop extends Masked map where
  counted : map.size = map.table.countP Node.isOccupied
  fits : load.exceeded map.size map.table.length = false
  reachable : ∀ key, ∀ distance < map.table.length,
    (map.nodeAt (map.slotAt hash key distance)).holds key = true →
      ∀ nearer < distance, (map.nodeAt (map.slotAt hash key nearer)).isEmpty = false

section Nodes

variable {node : Node Key Value} {key : Key}

omit [Inhabited Key] [Inhabited Value] in
theorem Node.holds_iff : node.holds key = true ↔ node.isOccupied = true ∧ node.key = key := by
  simp [Node.holds]

omit [Inhabited Key] [Inhabited Value] in
theorem Node.eq_of_holds (holds : node.holds key = true) :
    node = ⟨key, node.value, .occupied⟩ := by
  rcases Node.holds_iff.mp holds with ⟨occupied, rfl⟩
  rcases node with ⟨key, value, status⟩
  have : status = .occupied := by simpa [Node.isOccupied] using occupied
  rw [this]

omit [Inhabited Key] [Inhabited Value] in
theorem Node.holds_of_eq {value : Value} (same : node = ⟨key, value, .occupied⟩) :
    node.holds key = true := by
  rw [same]
  exact Node.holds_iff.mpr ⟨rfl, rfl⟩

omit [DecidableEq Key] [Inhabited Key] [Inhabited Value] in
theorem Node.not_empty_of_occupied (occupied : node.isOccupied = true) :
    node.isEmpty = false := by
  have : node.status = .occupied := by simpa [Node.isOccupied] using occupied
  simp [Node.isEmpty, this]

omit [Inhabited Key] [Inhabited Value] in
theorem Node.not_empty_of_holds (holds : node.holds key = true) : node.isEmpty = false :=
  Node.not_empty_of_occupied (Node.holds_iff.mp holds).1

omit [Inhabited Key] [Inhabited Value] in
theorem stopsInsert_of_holds (holds : node.holds key = true) :
    stopsInsert key node = true := by
  simp [stopsInsert, (Node.holds_iff.mp holds).2]

omit [Inhabited Key] [Inhabited Value] in
theorem occupied_of_not_stopsInsert (passed : stopsInsert key node = false) :
    node.isOccupied = true ∧ node.key ≠ key := by
  simpa [stopsInsert] using passed

end Nodes

section Table

variable {hash : Key → Word64} {load : LoadFactor}
  {map : OpenAddressingHashMap Key Value} {key : Key} {index : Nat}

def replace (map : OpenAddressingHashMap Key Value) (index : Nat)
    (node : Node Key Value) (size : Nat) : OpenAddressingHashMap Key Value :=
  { map with
    table := map.table.set index node
    size := size }

omit [DecidableEq Key] [Inhabited Key] [Inhabited Value] in
@[simp] theorem length_replace (node : Node Key Value) (size : Nat) :
    (map.replace index node size).table.length = map.table.length :=
  List.length_set

omit [DecidableEq Key] [Inhabited Key] [Inhabited Value] in
@[simp] theorem slotAt_replace (node : Node Key Value) (size distance : Nat) :
    (map.replace index node size).slotAt hash key distance =
      map.slotAt hash key distance := by
  rw [slotAt, slotAt, length_replace]

omit [DecidableEq Key] in
theorem nodeAt_replace_self (node : Node Key Value) (size : Nat)
    (below : index < map.table.length) :
    (map.replace index node size).nodeAt index = node := by
  rw [nodeAt, replace, List.getElem?_set_self below, Option.getD_some]

omit [DecidableEq Key] in
theorem nodeAt_replace_of_ne (node : Node Key Value) (size : Nat) {other : Nat}
    (different : other ≠ index) :
    (map.replace index node size).nodeAt other = map.nodeAt other := by
  rw [nodeAt, replace, List.getElem?_set_ne different.symm, nodeAt]

theorem lt_of_holds (holds : (map.nodeAt index).holds key = true) :
    index < map.table.length := by
  by_contra outside
  have none : map.table[index]? = none :=
    List.getElem?_eq_none (Nat.le_of_not_lt outside)
  rw [nodeAt, none] at holds
  cases holds

omit [DecidableEq Key] in
theorem countP_replace (node : Node Key Value) (size : Nat)
    (below : index < map.table.length) :
    (map.replace index node size).table.countP Node.isOccupied =
      map.table.countP Node.isOccupied -
        (if (map.nodeAt index).isOccupied then 1 else 0) +
        (if node.isOccupied then 1 else 0) := by
  rw [replace, List.countP_set below, nodeAt, List.getElem?_eq_getElem below,
    Option.getD_some]

omit [DecidableEq Key] in
theorem countP_pos_of_occupied (below : index < map.table.length)
    (occupied : (map.nodeAt index).isOccupied = true) :
    0 < map.table.countP Node.isOccupied := by
  refine List.countP_pos_iff.mpr ⟨map.nodeAt index, ?_, occupied⟩
  exact List.mem_of_getElem? (getElem?_eq_nodeAt below)

theorem WellFormed.replace (wellFormed : WellFormed hash load map)
    (below : index < map.table.length) {node : Node Key Value} {size : Nat}
    (notEmpty : node.isEmpty = false)
    (counted : size = (map.replace index node size).table.countP Node.isOccupied)
    (fits : load.exceeded size map.table.length = false)
    (reachable : node.isOccupied = true → ∀ distance < map.table.length,
      map.slotAt hash node.key distance = index → ∀ nearer < distance,
        (map.nodeAt (map.slotAt hash node.key nearer)).isEmpty = false) :
    WellFormed hash load (map.replace index node size) where
  power := by
    rw [length_replace]
    exact wellFormed.power
  mask := by
    rw [length_replace]
    exact wellFormed.mask
  counted := counted
  fits := by
    rw [length_replace]
    exact fits
  reachable key distance inside holds nearer before := by
    simp only [length_replace, slotAt_replace] at inside holds ⊢
    by_cases written : map.slotAt hash key nearer = index
    · rw [written, nodeAt_replace_self node size below]
      exact notEmpty
    · rw [nodeAt_replace_of_ne node size written]
      by_cases target : map.slotAt hash key distance = index
      · rw [target, nodeAt_replace_self node size below] at holds
        rcases Node.holds_iff.mp holds with ⟨occupied, rfl⟩
        exact reachable occupied distance inside target nearer before
      · rw [nodeAt_replace_of_ne node size target] at holds
        exact wellFormed.reachable key distance inside holds nearer before

theorem WellFormed.lt_length (wellFormed : WellFormed hash load map) :
    map.size < map.table.length := by
  have fits := wellFormed.fits
  rcases wellFormed.power with ⟨exponent, equal⟩
  rw [equal] at fits ⊢
  exact load.lt_of_not_exceeded fits

theorem WellFormed.exists_unoccupied (wellFormed : WellFormed hash load map) :
    ∃ node ∈ map.table, node.isOccupied = false := by
  by_contra full
  have all : map.table.countP Node.isOccupied = map.table.length := by
    rw [List.countP_eq_length]
    intro node member
    by_contra unoccupied
    exact full ⟨node, member, by simpa using unoccupied⟩
  have bound := wellFormed.lt_length
  rw [wellFormed.counted] at bound
  omega

theorem WellFormed.exists_stopsInsert (wellFormed : WellFormed hash load map)
    (key : Key) : ∃ stop, FirstStop hash map key (stopsInsert key) stop := by
  rcases wellFormed.exists_unoccupied with ⟨node, member, unoccupied⟩
  rcases List.getElem_of_mem member with ⟨index, below, rfl⟩
  rcases wellFormed.exists_distance hash key below with
    ⟨distance, inside, rfl⟩
  have stops : stopsInsert key (map.nodeAt (map.slotAt hash key distance)) = true := by
    rw [nodeAt, List.getElem?_eq_getElem below, Option.getD_some, stopsInsert, unoccupied]
    rfl
  rcases exists_firstStop _ inside stops with ⟨stop, _, first⟩
  exact ⟨stop, first⟩

end Table

/-! ## Lookup -/

section Lookup

variable {hash : Key → Word64} {load : LoadFactor}
  {map : OpenAddressingHashMap Key Value}

inductive Finds (map : OpenAddressingHashMap Key Value) (key : Key) :
    Option (Nat × Node Key Value) → Prop
  | found {index : Nat} (holds : (map.nodeAt index).holds key = true) :
      Finds map key (some (index, map.nodeAt index))
  | absent (nowhere : ∀ index, (map.nodeAt index).holds key = false) :
      Finds map key none

/-- A key that is on none of the slots of its probe path is nowhere. -/
theorem Masked.nowhere (masked : Masked map) (hash : Key → Word64) {key : Key}
    (none : ∀ distance < map.table.length,
      (map.nodeAt (map.slotAt hash key distance)).holds key = false) (index : Nat) :
    (map.nodeAt index).holds key = false := by
  rw [Bool.eq_false_iff]
  intro holds
  rcases masked.exists_distance hash key (lt_of_holds holds) with ⟨distance, inside, rfl⟩
  rw [none distance inside] at holds
  cases holds

theorem WellFormed.exists_lookup (wellFormed : WellFormed hash load map) (key : Key) :
    ∃ found, Finds map key found ∧
      ∀ fuel, map.table.length ≤ fuel → map.lookup hash fuel key = .ok found := by
  by_cases stopped : ∃ distance < map.table.length,
      ((map.nodeAt (map.slotAt hash key distance)).isEmpty ||
        (map.nodeAt (map.slotAt hash key distance)).holds key) = true
  · rcases stopped with ⟨distance, inside, stops⟩
    rcases exists_firstStop (fun node => node.isEmpty || node.holds key) inside stops with
      ⟨stop, _, first⟩
    have probes : ∀ fuel, map.table.length ≤ fuel → map.lookup hash fuel key =
        if (map.nodeAt (map.slotAt hash key stop)).isEmpty then .ok none
        else .ok (some (map.slotAt hash key stop,
          map.nodeAt (map.slotAt hash key stop))) := fun fuel enough => by
      rw [lookup, wellFormed.probe_stop first enough]
    cases empty : (map.nodeAt (map.slotAt hash key stop)).isEmpty with
    | true =>
        refine ⟨none, .absent (wellFormed.nowhere hash ?_),
          fun fuel enough => (probes fuel enough).trans ?_⟩
        · -- A slot that holds the key lies beyond the empty slot, which it cannot.
          intro farther within
          rw [Bool.eq_false_iff]
          intro holds
          rcases Nat.lt_trichotomy farther stop with before | rfl | beyond
          · rw [(Bool.or_eq_false_iff.mp (first.passed farther before)).2] at holds
            cases holds
          · rw [Node.not_empty_of_holds holds] at empty
            cases empty
          · rw [wellFormed.reachable key farther within holds stop beyond] at empty
            cases empty
        · rw [empty, if_pos rfl]
    | false =>
        have holds : (map.nodeAt (map.slotAt hash key stop)).holds key = true := by
          simpa [empty] using first.stopped
        refine ⟨_, .found holds, fun fuel enough => (probes fuel enough).trans ?_⟩
        rw [empty]
        rfl
  · have passed : ∀ distance < map.table.length,
        ((map.nodeAt (map.slotAt hash key distance)).isEmpty ||
          (map.nodeAt (map.slotAt hash key distance)).holds key) = false := by
      intro distance inside
      exact Bool.eq_false_iff.mpr fun stops => stopped ⟨distance, inside, stops⟩
    refine ⟨none, .absent (wellFormed.nowhere hash ?_), fun fuel enough => ?_⟩
    · exact fun distance inside => (Bool.or_eq_false_iff.mp (passed distance inside)).2
    · rw [lookup, wellFormed.probe_none _ passed enough]

end Lookup

end FeederNet.HashMap.OpenAddressingHashMap
