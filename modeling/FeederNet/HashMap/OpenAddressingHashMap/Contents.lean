import FeederNet.HashMap.OpenAddressingHashMap.Invariant
import Mathlib.Data.List.Induction

/-! # Contents of OpenAddressingHashMap

What `insert`, `operator[]` and `reHash` do to the map that the occupied slots
represent.
-/

namespace FeederNet.HashMap.OpenAddressingHashMap

variable {Key Value : Type} [DecidableEq Key] [Inhabited Key] [Inhabited Value]

def Distinct (map : OpenAddressingHashMap Key Value) : Prop :=
  ∀ key left right, (map.nodeAt left).holds key = true →
    (map.nodeAt right).holds key = true → left = right

/-- The occupied slots are the graph of `contents`. -/
def Represents (map : OpenAddressingHashMap Key Value) (contents : Key → Option Value) :
    Prop :=
  ∀ key value, contents key = some value ↔
    ∃ index, map.nodeAt index = ⟨key, value, .occupied⟩

/-- No `DELETED` slot comes before a slot occupied by `key` on its probe path. -/
def Exposed (hash : Key → Word64) (map : OpenAddressingHashMap Key Value) (key : Key) :
    Prop :=
  ∀ distance < map.table.length,
    (map.nodeAt (map.slotAt hash key distance)).holds key = true →
      ∀ nearer < distance, (map.nodeAt (map.slotAt hash key nearer)).status ≠ .deleted

def put (map : OpenAddressingHashMap Key Value) (index : Nat) (key : Key)
    (value : Value) : OpenAddressingHashMap Key Value :=
  map.replace index ⟨key, value, .occupied⟩
    (if (map.nodeAt index).isOccupied then map.size else map.size + 1)

def current (map : OpenAddressingHashMap Key Value) (index : Nat) : Value :=
  if (map.nodeAt index).isOccupied then (map.nodeAt index).value else default

section Put

variable {hash : Key → Word64} {load : LoadFactor}
  {map : OpenAddressingHashMap Key Value} {key : Key} {index stop : Nat}

omit [DecidableEq Key] in
@[simp] theorem length_put (value : Value) :
    (map.put index key value).table.length = map.table.length :=
  length_replace _ _

omit [DecidableEq Key] in
theorem nodeAt_put_self (value : Value) (below : index < map.table.length) :
    (map.put index key value).nodeAt index = ⟨key, value, .occupied⟩ :=
  nodeAt_replace_self _ _ below

omit [DecidableEq Key] in
theorem nodeAt_put_of_ne (value : Value) {other : Nat} (different : other ≠ index) :
    (map.put index key value).nodeAt other = map.nodeAt other :=
  nodeAt_replace_of_ne _ _ different

theorem Represents.holds_iff {contents : Key → Option Value}
    (represents : Represents map contents) :
    (∃ index, (map.nodeAt index).holds key = true) ↔ (contents key).isSome = true := by
  constructor
  · intro given
    rcases given with ⟨index, holds⟩
    rw [(represents key _).mpr ⟨index, Node.eq_of_holds holds⟩]
    rfl
  · intro present
    rcases Option.isSome_iff_exists.mp present with ⟨value, found⟩
    rcases (represents key value).mp found with ⟨index, node⟩
    exact ⟨index, Node.holds_of_eq node⟩

theorem WellFormed.put (wellFormed : WellFormed hash load map)
    (first : FirstStop hash map key (stopsInsert key) stop)
    (room : (map.nodeAt (map.slotAt hash key stop)).isOccupied = false →
      load.exceeded (map.size + 1) map.table.length = false) (value : Value) :
    WellFormed hash load (map.put (map.slotAt hash key stop) key value) := by
  have below := wellFormed.slotAt_lt hash key stop
  refine wellFormed.replace below rfl ?_ ?_ ?_
  · rw [countP_replace _ _ below, ← wellFormed.counted]
    have occupied : Node.isOccupied (⟨key, value, .occupied⟩ : Node Key Value) = true := rfl
    rw [occupied, if_pos rfl]
    split
    · rename_i taken
      have positive := countP_pos_of_occupied below taken
      rw [← wellFormed.counted] at positive
      omega
    · omega
  · split
    · exact wellFormed.fits
    · rename_i free
      exact room (by simpa using free)
  · intro _ distance inside target nearer before
    cases first.eq_of_slotAt inside target
    exact Node.not_empty_of_occupied
      (occupied_of_not_stopsInsert (first.passed nearer before)).1

/-- The slot that `insert` stops at is the only one for the key exactly when no
tombstone hides the key from it. -/
theorem WellFormed.sole_iff_exposed (wellFormed : WellFormed hash load map)
    (distinct : Distinct map)
    (first : FirstStop hash map key (stopsInsert key) stop) :
    (∀ other, (map.nodeAt other).holds key = true →
      other = map.slotAt hash key stop) ↔ Exposed hash map key := by
  constructor
  · intro sole distance inside holds nearer before
    cases first.eq_of_slotAt inside (sole _ holds)
    have occupied := (occupied_of_not_stopsInsert (first.passed nearer before)).1
    intro deleted
    simp [Node.isOccupied, deleted] at occupied
  · intro exposed other holds
    rcases wellFormed.exists_distance hash key (lt_of_holds holds) with
      ⟨distance, inside, rfl⟩
    rcases Nat.lt_trichotomy distance stop with before | rfl | beyond
    · have passed := first.passed distance before
      rw [stopsInsert_of_holds holds] at passed
      cases passed
    · rfl
    · have stopped := first.stopped
      have notEmpty := wellFormed.reachable key distance inside holds stop beyond
      have notDeleted := exposed distance inside holds stop beyond
      have occupied : (map.nodeAt (map.slotAt hash key stop)).isOccupied = true := by
        cases status : (map.nodeAt (map.slotAt hash key stop)).status with
        | empty => simp [Node.isEmpty, status] at notEmpty
        | occupied => simp [Node.isOccupied, status]
        | deleted => exact absurd status notDeleted
      have taken : (map.nodeAt (map.slotAt hash key stop)).holds key = true :=
        Node.holds_iff.mpr ⟨occupied, by simpa [stopsInsert, occupied] using stopped⟩
      exact distinct key _ _ holds taken

theorem WellFormed.distinct_put_iff (wellFormed : WellFormed hash load map)
    (distinct : Distinct map)
    (first : FirstStop hash map key (stopsInsert key) stop) (value : Value) :
    Distinct (map.put (map.slotAt hash key stop) key value) ↔ Exposed hash map key := by
  rw [← wellFormed.sole_iff_exposed distinct first]
  have below := wellFormed.slotAt_lt hash key stop
  constructor
  · intro still other holds
    by_contra different
    refine different (still key _ _ ?_ ?_)
    · rw [nodeAt_put_of_ne _ different]
      exact holds
    · exact Node.holds_of_eq (nodeAt_put_self _ below)
  · intro sole other left right leftHolds rightHolds
    have owner : ∀ index,
        ((map.put (map.slotAt hash key stop) key value).nodeAt index).holds other = true →
          index = map.slotAt hash key stop ∧ other = key ∨
            index ≠ map.slotAt hash key stop ∧
              (map.nodeAt index).holds other = true := by
      intro index holds
      by_cases target : index = map.slotAt hash key stop
      · rw [target, nodeAt_put_self _ below] at holds
        exact .inl ⟨target, (Node.holds_iff.mp holds).2.symm⟩
      · rw [nodeAt_put_of_ne _ target] at holds
        exact .inr ⟨target, holds⟩
    rcases owner left leftHolds with ⟨leftIs, rfl⟩ | ⟨leftNot, leftBefore⟩
    · rcases owner right rightHolds with ⟨rightIs, _⟩ | ⟨rightNot, rightBefore⟩
      · rw [leftIs, rightIs]
      · exact absurd (sole right rightBefore) rightNot
    · rcases owner right rightHolds with ⟨rightIs, rfl⟩ | ⟨_, rightBefore⟩
      · exact absurd (sole left leftBefore) leftNot
      · exact distinct other left right leftBefore rightBefore

theorem Represents.put {contents : Key → Option Value}
    (represents : Represents map contents) (below : index < map.table.length)
    (stops : stopsInsert key (map.nodeAt index) = true)
    (sole : ∀ other, (map.nodeAt other).holds key = true → other = index)
    (value : Value) :
    Represents (map.put index key value)
      (Function.update contents key (some value)) := by
  intro other found
  by_cases same : other = key
  · subst same
    rw [Function.update_self]
    constructor
    · intro impossible
      cases impossible
      exact ⟨index, nodeAt_put_self _ below⟩
    · intro given
      rcases given with ⟨place, node⟩
      by_cases target : place = index
      · rw [target, nodeAt_put_self _ below] at node
        cases node
        rfl
      · rw [nodeAt_put_of_ne _ target] at node
        exact absurd (sole place (Node.holds_of_eq node)) target
  · rw [Function.update_of_ne same, represents]
    constructor
    · intro given
      rcases given with ⟨place, node⟩
      refine ⟨place, ?_⟩
      rw [nodeAt_put_of_ne, node]
      intro equal
      subst equal
      rw [node] at stops
      exact same (of_decide_eq_true stops)
    · intro given
      rcases given with ⟨place, node⟩
      by_cases target : place = index
      · rw [target, nodeAt_put_self _ below] at node
        cases node
        exact absurd rfl same
      · rw [nodeAt_put_of_ne _ target] at node
        exact ⟨place, node⟩

end Put

/-! ## insert without growth -/

section Insert

variable {hash : Key → Word64} {load : LoadFactor}
  {map : OpenAddressingHashMap Key Value} {key : Key} {stop : Nat}

theorem Masked.insertLoaded_eq (masked : Masked map)
    (first : FirstStop hash map key (stopsInsert key) stop) (value : Value)
    {fuel : Nat} (enough : map.table.length ≤ fuel) :
    map.insertLoaded hash fuel key value =
      .ok (map.put (map.slotAt hash key stop) key value) := by
  rw [insertLoaded, masked.insertProbe_stop first enough]
  unfold put
  cases occupied : (map.nodeAt (map.slotAt hash key stop)).isOccupied with
  | true =>
      have holds : (map.nodeAt (map.slotAt hash key stop)).holds key = true := by
        have stopped := first.stopped
        rw [stopsInsert, occupied] at stopped
        exact Node.holds_iff.mpr ⟨occupied, of_decide_eq_true stopped⟩
      have node := Node.eq_of_holds holds
      simp only [occupied, if_true]
      rw [node]
      rfl
  | false =>
      simp only [occupied]
      rfl

theorem Masked.insert_eq (masked : Masked map)
    (room : load.exceeded (map.size + 1) map.table.length = false)
    (first : FirstStop hash map key (stopsInsert key) stop) (value : Value)
    {fuel : Nat} (enough : map.table.length < fuel) :
    insert hash load fuel map key value =
      .ok (map.put (map.slotAt hash key stop) key value) := by
  cases fuel with
  | zero => omega
  | succ fuel =>
      rw [insert, room]
      exact masked.insertLoaded_eq first value (by omega)

end Insert

/-! ## reHash -/

def contentsOf (nodes : List (Node Key Value)) : Key → Option Value :=
  nodes.foldl
    (fun contents node =>
      if node.isOccupied then Function.update contents node.key (some node.value)
      else contents)
    fun _ => none

def Apart (nodes : List (Node Key Value)) : Prop :=
  nodes.Pairwise fun left right =>
    left.isOccupied = true → right.isOccupied = true → left.key ≠ right.key

/-- The new table after the nodes `seen` of the old one. -/
structure Rehashed (hash : Key → Word64) (load : LoadFactor) (buckets : Nat)
    (seen : List (Node Key Value)) (map : OpenAddressingHashMap Key Value) : Prop where
  wellFormed : WellFormed hash load map
  length : map.table.length = buckets
  fresh : ∀ index, (map.nodeAt index).status ≠ .deleted
  bounded : map.size ≤ seen.countP Node.isOccupied
  distinct : Distinct map
  represents : Represents map (contentsOf seen)

section ReHash

variable {hash : Key → Word64} {load : LoadFactor}
  {map : OpenAddressingHashMap Key Value} {key : Key} {buckets exponent : Nat}
  {seen : List (Node Key Value)}

omit [DecidableEq Key] in
theorem nodeAt_construct (index : Nat) :
    (construct buckets : OpenAddressingHashMap Key Value).nodeAt index = default := by
  rw [nodeAt, construct, List.getElem?_replicate]
  split <;> rfl

theorem wellFormed_construct (hash : Key → Word64) (load : LoadFactor)
    (power : buckets = 2 ^ exponent) :
    WellFormed hash load (construct buckets : OpenAddressingHashMap Key Value) where
  power := ⟨exponent, by rw [construct, List.length_replicate, power]⟩
  mask := by
    have positive := Nat.two_pow_pos exponent
    simp only [construct, maskOf, List.length_replicate]
    exact if_neg (by omega)
  counted := by
    rw [construct, List.countP_replicate]
    rfl
  fits := load.not_exceeded_zero _
  reachable key distance _ holds := by
    rw [nodeAt_construct] at holds
    cases holds

theorem rehashed_construct (hash : Key → Word64) (load : LoadFactor)
    (power : buckets = 2 ^ exponent) :
    Rehashed hash load buckets [] (construct buckets : OpenAddressingHashMap Key Value) where
  wellFormed := wellFormed_construct hash load power
  length := List.length_replicate
  fresh index := by
    rw [nodeAt_construct]
    nofun
  bounded := Nat.zero_le _
  distinct key left right holds := by
    rw [nodeAt_construct] at holds
    cases holds
  represents key value := by
    constructor
    · nofun
    · intro given
      rcases given with ⟨index, node⟩
      rw [nodeAt_construct] at node
      cases node

theorem Rehashed.skip (rehashed : Rehashed hash load buckets seen map)
    {node : Node Key Value} (free : node.isOccupied = false) :
    Rehashed hash load buckets (seen ++ [node]) map where
  wellFormed := rehashed.wellFormed
  length := rehashed.length
  fresh := rehashed.fresh
  bounded := by
    rw [List.countP_append]
    exact Nat.le_add_right_of_le rehashed.bounded
  distinct := rehashed.distinct
  represents := by
    rw [contentsOf, List.foldl_append, List.foldl_cons, free]
    exact rehashed.represents

theorem Rehashed.exposed (rehashed : Rehashed hash load buckets seen map) (key : Key) :
    Exposed hash map key :=
  fun _ _ _ _ _ => rehashed.fresh _

theorem Rehashed.put (rehashed : Rehashed hash load buckets seen map)
    {node : Node Key Value} (occupied : node.isOccupied = true)
    (room : load.exceeded (map.size + 1) map.table.length = false) {stop : Nat}
    (first : FirstStop hash map node.key (stopsInsert node.key) stop) :
    Rehashed hash load buckets (seen ++ [node])
      (map.put (map.slotAt hash node.key stop) node.key node.value) where
  wellFormed := rehashed.wellFormed.put first (fun _ => room) node.value
  length := (length_put _).trans rehashed.length
  fresh index := by
    by_cases target : index = map.slotAt hash node.key stop
    · rw [target, nodeAt_put_self _ (rehashed.wellFormed.slotAt_lt _ _ _)]
      nofun
    · rw [nodeAt_put_of_ne _ target]
      exact rehashed.fresh index
  bounded := by
    have bounded := rehashed.bounded
    rw [List.countP_append, List.countP_singleton, occupied]
    simp only [OpenAddressingHashMap.put, OpenAddressingHashMap.replace]
    split <;> simp <;> omega
  distinct :=
    (rehashed.wellFormed.distinct_put_iff rehashed.distinct first node.value).mpr
      (rehashed.exposed node.key)
  represents := by
    have sole := (rehashed.wellFormed.sole_iff_exposed rehashed.distinct first).mpr
      (rehashed.exposed node.key)
    rw [contentsOf, List.foldl_append, List.foldl_cons, occupied]
    exact rehashed.represents.put (rehashed.wellFormed.slotAt_lt _ _ _) first.stopped sole
      node.value

/-- The nested calls of `insert` find room, so that none of them grows the table
again. -/
theorem Rehashed.foldlM (rest : List (Node Key Value))
    (room : load.exceeded ((seen ++ rest).countP Node.isOccupied) buckets = false)
    (rehashed : Rehashed hash load buckets seen map) :
    ∃ final, Rehashed hash load buckets (seen ++ rest) final ∧
      ∀ fuel, buckets < fuel → rest.foldlM
        (fun map node =>
          if node.isOccupied then insert hash load fuel map node.key node.value
          else .ok map) map = .ok final := by
  induction rest generalizing seen map with
  | nil => exact ⟨map, by rwa [List.append_nil], fun _ _ => rfl⟩
  | cons node rest induction =>
      rw [List.append_cons] at room
      cases occupied : node.isOccupied with
      | false =>
          rcases induction room (rehashed.skip occupied) with ⟨final, whole, folds⟩
          refine ⟨final, by rwa [List.append_cons], fun fuel enough => ?_⟩
          rw [List.foldlM_cons, occupied]
          exact folds fuel enough
      | true =>
          have space : load.exceeded (map.size + 1) map.table.length = false := by
            rw [rehashed.length]
            refine load.not_exceeded_of_le ?_ room
            have bounded := rehashed.bounded
            rw [List.countP_append, List.countP_append, List.countP_singleton, occupied,
              if_pos rfl]
            omega
          rcases rehashed.wellFormed.exists_stopsInsert node.key with ⟨stop, first⟩
          rcases induction room (rehashed.put occupied space first) with
            ⟨final, whole, folds⟩
          refine ⟨final, by rwa [List.append_cons], fun fuel enough => ?_⟩
          rw [List.foldlM_cons, occupied]
          have below : map.table.length < fuel := by
            rw [rehashed.length]
            exact enough
          have inserts := rehashed.wellFormed.insert_eq space first node.value below
          simp only [if_true, inserts]
          exact folds fuel enough

omit [DecidableEq Key] [Inhabited Key] [Inhabited Value] in
theorem Masked.fits_doubled (masked : Masked map)
    (fits : load.exceeded map.size map.table.length = false) :
    load.exceeded map.size (map.table.length * 2) = false := by
  rcases masked.power with ⟨exponent, equal⟩
  rw [equal] at fits ⊢
  exact load.not_exceeded_of_le (Nat.le_succ _) (load.not_exceeded_doubled fits)

theorem Masked.rehashed_construct (masked : Masked map) :
    Rehashed hash load (map.table.length * 2) []
      (construct (map.table.length * 2) : OpenAddressingHashMap Key Value) := by
  rcases masked.power with ⟨exponent, equal⟩
  have power : map.table.length * 2 = 2 ^ (exponent + 1) := by
    rw [equal, Nat.pow_succ]
  exact OpenAddressingHashMap.rehashed_construct hash load power

/-- The probe paths of the old table do not matter. -/
theorem Masked.exists_reHash (masked : Masked map)
    (counted : map.size = map.table.countP Node.isOccupied)
    (fits : load.exceeded map.size map.table.length = false) :
    ∃ grown, Rehashed hash load (map.table.length * 2) map.table grown ∧
      ∀ fuel, map.table.length * 2 < fuel → map.reHash hash load fuel = .ok grown := by
  have room := masked.fits_doubled fits
  rw [counted] at room
  exact Rehashed.foldlM map.table room masked.rehashed_construct

theorem WellFormed.exists_reHash (wellFormed : WellFormed hash load map) :
    ∃ grown, Rehashed hash load (map.table.length * 2) map.table grown ∧
      ∀ fuel, map.table.length * 2 < fuel → map.reHash hash load fuel = .ok grown :=
  wellFormed.toMasked.exists_reHash wellFormed.counted wellFormed.fits

omit [Inhabited Key] [Inhabited Value] in
theorem contentsOf_append_singleton (nodes : List (Node Key Value))
    (node : Node Key Value) : contentsOf (nodes ++ [node]) =
      if node.isOccupied then
        Function.update (contentsOf nodes) node.key (some node.value)
      else contentsOf nodes := by
  rw [contentsOf, List.foldl_append]
  rfl

omit [Inhabited Key] [Inhabited Value] in
theorem contentsOf_eq_some_iff {nodes : List (Node Key Value)} (apart : Apart nodes)
    (key : Key) (value : Value) :
    contentsOf nodes key = some value ↔ ⟨key, value, .occupied⟩ ∈ nodes := by
  induction nodes using List.reverseRecOn with
  | nil => exact iff_of_false nofun (List.not_mem_nil)
  | append_singleton nodes node induction =>
      rw [Apart, List.pairwise_append] at apart
      rcases apart with ⟨before, _, last⟩
      rw [contentsOf_append_singleton, List.mem_append, List.mem_singleton]
      cases occupied : node.isOccupied with
      | false =>
          rw [← induction before]
          refine (or_iff_left ?_).symm
          intro equal
          subst equal
          cases occupied
      | true =>
          simp only [if_true]
          by_cases same : key = node.key
          · subst same
            rw [Function.update_self]
            constructor
            · intro impossible
              cases impossible
              exact .inr (Node.eq_of_holds (Node.holds_iff.mpr ⟨occupied, rfl⟩)).symm
            · rintro (earlier | equal)
              · exact absurd rfl (last _ earlier node (List.mem_singleton_self node) rfl occupied)
              · rw [← equal]
          · rw [Function.update_of_ne same, induction before]
            refine (or_iff_left ?_).symm
            intro equal
            subst equal
            exact same rfl

theorem occupied_mem_iff (key : Key) (value : Value) :
    ⟨key, value, .occupied⟩ ∈ map.table ↔
      ∃ index, map.nodeAt index = ⟨key, value, .occupied⟩ := by
  constructor
  · intro member
    rcases List.getElem_of_mem member with ⟨index, below, node⟩
    refine ⟨index, ?_⟩
    rw [nodeAt, List.getElem?_eq_getElem below, Option.getD_some, node]
  · intro given
    rcases given with ⟨index, node⟩
    have below : index < map.table.length := lt_of_holds (Node.holds_of_eq node)
    rw [← node]
    exact List.mem_of_getElem? (getElem?_eq_nodeAt below)

theorem Distinct.apart (distinct : Distinct map) : Apart map.table := by
  rw [Apart, List.pairwise_iff_getElem]
  intro left right leftBelow rightBelow ordered leftOccupied rightOccupied same
  have leftHolds : (map.nodeAt left).holds map.table[left].key = true := by
    rw [nodeAt, List.getElem?_eq_getElem leftBelow]
    exact Node.holds_iff.mpr ⟨leftOccupied, rfl⟩
  have rightHolds : (map.nodeAt right).holds map.table[left].key = true := by
    rw [nodeAt, List.getElem?_eq_getElem rightBelow]
    exact Node.holds_iff.mpr ⟨rightOccupied, same.symm⟩
  have := distinct _ left right leftHolds rightHolds
  omega

theorem Distinct.represents_table (distinct : Distinct map) :
    Represents map (contentsOf map.table) := by
  intro key value
  rw [contentsOf_eq_some_iff distinct.apart]
  exact occupied_mem_iff key value

omit [DecidableEq Key] in
theorem Represents.unique {left right : Key → Option Value}
    (represents : Represents map left) (other : Represents map right) : left = right := by
  funext key
  apply Option.ext
  intro value
  exact (represents key value).trans (other key value).symm

/-- `reHash` keeps the map that a table with distinct keys represents. -/
theorem Rehashed.preserves {grown : OpenAddressingHashMap Key Value}
    (rehashed : Rehashed hash load buckets map.table grown) (distinct : Distinct map)
    {contents : Key → Option Value} (represents : Represents map contents) :
    Represents grown contents := by
  rw [represents.unique distinct.represents_table]
  exact rehashed.represents

end ReHash

end FeederNet.HashMap.OpenAddressingHashMap
