import FeederNet.HashMap.BoundedMap
import FeederNet.HashMap.FixedSizedChainingHashMap.Contents

/-! # FixedSizedChainingHashMap as a bounded map

The pool has a node for every key until all nodes are taken. A node keeps its place until
its key is erased, so that a reference to its value stays good, and it is written anew
when it is taken again.
-/

namespace FeederNet.HashMap.FixedSizedChainingHashMap

variable {initBuckets : PowerOfTwo} {Key Value : Type}

/-! ## Room -/

section Room

variable {hash : Key → Word64} {map : FixedSizedChainingHashMap initBuckets Key Value}
  {contents : Key → Option Value}

/-- The nodes in the chains are the ones that are not free. -/
theorem Linked.mem_chains_iff {chains : Fin initBuckets.toNat → List Nat}
    (linked : Linked hash map chains) (node : Nat) :
    (∃ bucket, node ∈ chains bucket) ↔
      node ∈ Finset.range (poolSize initBuckets) \ map.freeNodes.toFinset := by
  rw [Finset.mem_sdiff, List.mem_toFinset, Finset.mem_range, ← Multiset.mem_range,
    linked.stock.mem_stock_iff]
  constructor
  · rintro ⟨bucket, member⟩
    exact ⟨.inl ⟨bucket, member⟩, linked.placed.not_free member⟩
  · rintro ⟨member | free, taken⟩
    · exact member
    · exact absurd free taken

theorem Represents.exists_keys (represents : Represents hash map contents) :
    ∃ keys : Finset Key, (∀ key, key ∈ keys ↔ (contents key).isSome = true) ∧
      keys.card + map.freeNodes.length = poolSize initBuckets := by
  classical
  rcases represents with ⟨chains, holds⟩
  let taken := Finset.range (poolSize initBuckets) \ map.freeNodes.toFinset
  have injective : Set.InjOn (fun node => (map.nodesPool node).key) taken := by
    intro left inLeft right inRight same
    rcases (holds.mem_chains_iff left).mpr inLeft with ⟨bucket, leftInside⟩
    rcases (holds.mem_chains_iff right).mpr inRight with ⟨other, rightInside⟩
    have together : bucket = other := by
      rw [← holds.hashed bucket left leftInside, ← holds.hashed other right rightInside]
      exact congrArg _ same
    subst together
    exact holds.distinct bucket left leftInside right rightInside same
  refine ⟨taken.image fun node => (map.nodesPool node).key, fun key => ?_, ?_⟩
  · rw [Option.isSome_iff_exists, Finset.mem_image]
    constructor
    · rintro ⟨node, member, rfl⟩
      rcases (holds.mem_chains_iff node).mpr member with ⟨bucket, inside⟩
      rw [← holds.hashed bucket node inside] at inside
      exact ⟨_, holds.present inside rfl⟩
    · rintro ⟨value, found⟩
      rcases (holds.entries key value).mp found with ⟨node, member, named, _⟩
      exact ⟨node, (holds.mem_chains_iff node).mp ⟨_, member⟩, named⟩
  · have nodup := holds.stock.nodup_shared (Multiset.nodup_range _)
    have within : map.freeNodes.toFinset ⊆ Finset.range (poolSize initBuckets) := by
      intro node member
      rw [Finset.mem_range, ← Multiset.mem_range]
      exact holds.stock.mem_stock_of_shared (List.mem_toFinset.mp member)
    have short := Finset.card_le_card within
    rw [Finset.card_image_of_injOn injective, Finset.card_sdiff_of_subset within]
    rw [List.toFinset_card_of_nodup nodup, Finset.card_range] at short ⊢
    omega

theorem Represents.card_keys (represents : Represents hash map contents)
    (keys : Finset Key) (present : ∀ key, key ∈ keys ↔ (contents key).isSome = true) :
    keys.card + map.freeNodes.length = poolSize initBuckets := by
  rcases represents.exists_keys with ⟨others, same, count⟩
  have equal : keys = others := Finset.ext fun key => (present key).trans (same key).symm
  rw [equal]
  exact count

end Room

/-! ## The places of the nodes -/

section Places

variable {hash : Key → Word64}
  {map next : FixedSizedChainingHashMap initBuckets Key Value}
  {chains nextChains : Fin initBuckets.toNat → List Nat}
  {contents nextContents : Key → Option Value} {key other : Key} {node : Nat}

variable [DecidableEq Key]

theorem Holds.find_eq_iff (holds : Holds hash map chains contents) :
    map.find hash key = .ok (some node) ↔
      node ∈ chains (bucketOf initBuckets hash key) ∧ (map.nodesPool node).key = key := by
  rcases holds.placed.exists_lookup key with ⟨result, walks, looks⟩
  have inOrder := holds.distinct (bucketOf initBuckets hash key)
  rw [FixedSizedChainingHashMap.find, looks]
  generalize chains (bucketOf initBuckets hash key) = nodes at walks inOrder ⊢
  cases walks with
  | @found front back stop _ passed named =>
      have stands : stop ∈ front ++ stop :: back := List.mem_append_cons_self
      constructor
      · rintro ⟨⟩
        exact ⟨stands, named⟩
      · rintro ⟨member, same⟩
        rw [inOrder node member stop stands (same.trans named.symm)]
  | absent passed =>
      have different : (.ok none : Except Fault (Option Nat)) ≠ .ok (some node) := by
        intro impossible
        cases impossible
      exact iff_of_false different fun given => passed node given.1 given.2

theorem Holds.exists_find (holds : Holds hash map chains contents) (key : Key) :
    ∃ found, map.find hash key = .ok found := by
  rcases holds.placed.exists_lookup key with ⟨result, _, looks⟩
  exact ⟨result.2, by rw [FixedSizedChainingHashMap.find, looks]⟩

theorem Holds.find_eq (holds : Holds hash map chains contents)
    (nextHolds : Holds hash next nextChains nextContents)
    (same : ∀ node, node ∈ nextChains (bucketOf initBuckets hash key) ∧
        (next.nodesPool node).key = key ↔
      node ∈ chains (bucketOf initBuckets hash key) ∧ (map.nodesPool node).key = key) :
    next.find hash key = map.find hash key := by
  have moved : ∀ node, next.find hash key = .ok (some node) ↔
      map.find hash key = .ok (some node) := fun node => by
    rw [nextHolds.find_eq_iff, same, holds.find_eq_iff]
  rcases nextHolds.exists_find key with ⟨after, finds⟩
  rcases holds.exists_find key with ⟨before, found⟩
  rw [finds, found] at moved ⊢
  simp only [Except.ok.injEq] at moved ⊢
  exact Option.ext moved

theorem find_setValueAt (node : Nat) (value : Value) (key : Key) :
    (map.setValueAt node value).find hash key = map.find hash key := by
  have walks : ∀ steps previous start,
      (map.setValueAt node value).walk key steps previous start =
        map.walk key steps previous start := by
    intro steps
    induction steps with
    | zero =>
        intro previous start
        cases start <;> rfl
    | succ steps induction =>
        intro previous start
        cases start with
        | none => rfl
        | some place => rw [walk, walk, setValueAt_key, setValueAt_next, induction]
  rw [FixedSizedChainingHashMap.find, FixedSizedChainingHashMap.find, lookup, lookup, walks]
  rfl

omit [DecidableEq Key] in
/-- The node of a new key is written all over. -/
theorem Appended.node_eq {newNode : Nat} {value : Value}
    (appended : Appended hash map chains key value newNode next) :
    next.nodesPool newNode = ⟨key, value, none⟩ := by
  have last : (next.nodesPool newNode).next = none := appended.chain.suffix.2
  rcases appended.filled with ⟨named, holds⟩
  cases written : next.nodesPool newNode with
  | mk key value link =>
      rw [written] at named holds last
      cases named
      cases holds
      cases last
      rfl

theorem Holds.find_appended (holds : Holds hash map chains contents)
    (missing : contents key = none) {newNode : Nat} {value : Value}
    (appended : Appended hash map chains key value newNode next) :
    next.find hash key = .ok (some newNode) ∧
      ∀ other ≠ key, next.find hash other = map.find hash other := by
  have grown := holds.of_appended missing appended
  constructor
  · apply grown.find_eq_iff.mpr
    rw [Function.update_self]
    exact ⟨List.mem_append_right _ (List.mem_singleton_self newNode), appended.filled.1⟩
  · intro other different
    refine holds.find_eq grown fun node => ?_
    by_cases same : bucketOf initBuckets hash other = bucketOf initBuckets hash key
    · rw [same, Function.update_self, List.mem_append, List.mem_singleton]
      constructor
      · rintro ⟨before | rfl, named⟩
        · exact ⟨before, (appended.kept _ node before).1.symm.trans named⟩
        · exact absurd (named.symm.trans appended.filled.1) different
      · rintro ⟨member, named⟩
        exact ⟨.inl member, (appended.kept _ node member).1.trans named⟩
    · rw [Function.update_of_ne same]
      refine and_congr_right fun member => ?_
      rw [(appended.kept _ node member).1]

theorem Holds.find_unlinked (holds : Holds hash map chains contents)
    {front back : List Nat}
    (split : chains (bucketOf initBuckets hash key) = front ++ node :: back)
    (named : (map.nodesPool node).key = key)
    (unlinked : Unlinked hash map key front back node next) (different : other ≠ key) :
    next.find hash other = map.find hash other := by
  refine holds.find_eq (holds.of_unlinked split named unlinked) fun place => ?_
  rw [(unlinked.kept place).1]
  refine and_congr_left fun stands => ?_
  have apart : place ≠ node := by
    rintro rfl
    exact different (stands.symm.trans named)
  by_cases same : bucketOf initBuckets hash other = bucketOf initBuckets hash key
  · rw [same, Function.update_self, split]
    simp [apart]
  · rw [Function.update_of_ne same]

/-! ### References -/

/-- `operator[]` throws exactly if it would have to take a node and none is free. Else the
value of the key is at the node that it returns, a new key gets a node that is written
all over, and no key is moved. -/
theorem Represents.index [Inhabited Value] (represents : Represents hash map contents)
    (key : Key) :
    (contents key = none ∧ map.freeNodes = [] ∧
      map.operatorIndex hash key = .error .noFreeNodes) ∨
    ∃ node next, map.operatorIndex hash key = .ok (node, next) ∧
      next.valueAt node = (contents key).getD default ∧
      Represents hash next
        (Function.update contents key (some ((contents key).getD default))) ∧
      next.find hash key = .ok (some node) ∧
      (∀ other place, map.find hash other = .ok (some place) →
        next.find hash other = .ok (some place)) ∧
      (contents key = none → next.nodesPool node = ⟨key, default, none⟩) := by
  rcases represents with ⟨chains, holds⟩
  rcases holds.operatorIndex_spec key with
    ⟨node, member, named, found, returns⟩ |
    ⟨missing, ⟨empty, throws⟩ | ⟨newNode, next, returns, appended⟩⟩
  · have reads : (contents key).getD default = map.valueAt node := by
      rw [found]
      rfl
    refine .inr ⟨node, map, returns, reads.symm, ?_, holds.find_eq_iff.mpr ⟨member, named⟩,
      fun _ _ => id, fun missing => ?_⟩
    · rw [reads, ← found, Function.update_eq_self]
      exact ⟨chains, holds⟩
    · rw [found] at missing
      cases missing
  · exact .inl ⟨missing, empty, throws⟩
  · have places := holds.find_appended missing appended
    rw [missing]
    refine .inr ⟨newNode, next, returns, appended.filled.2,
      ⟨_, holds.of_appended missing appended⟩, places.1, fun other place finds => ?_,
      fun _ => appended.node_eq⟩
    have different : other ≠ key := by
      rintro rfl
      rcases holds.find_eq_iff.mp finds with ⟨member, named⟩
      rw [holds.present member named] at missing
      cases missing
    exact (places.2 other different).trans finds

theorem Represents.write (represents : Represents hash map contents)
    (finds : map.find hash key = .ok (some node)) (value : Value) :
    Represents hash (map.setValueAt node value)
      (Function.update contents key (some value)) := by
  rcases represents with ⟨chains, holds⟩
  rcases holds.find_eq_iff.mp finds with ⟨member, named⟩
  exact ⟨chains, holds.assign member named value⟩

theorem Represents.find_erase (represents : Represents hash map contents) {flag : Bool}
    (erases : map.erase hash key = .ok (flag, next)) (different : other ≠ key) :
    next.find hash other = map.find hash other := by
  rcases represents with ⟨chains, holds⟩
  rcases holds.placed.erase_spec key with
    ⟨_, same⟩ | ⟨front, node, back, after, split, named, same, unlinked⟩
  · rw [same] at erases
    cases erases
    rfl
  · rw [same] at erases
    cases erases
    exact holds.find_unlinked split named unlinked different

end Places

/-! ## Clients -/

structure Session (initBuckets : PowerOfTwo) (Key Value : Type) where
  map : FixedSizedChainingHashMap initBuckets Key Value
  references : List (Key × Nat)

section Clients

variable [DecidableEq Key] [Inhabited Value]

def Session.initial [Inhabited Key] : Session initBuckets Key Value where
  map := construct
  references := []

def Session.serve (hash : Key → Word64) (session : Session initBuckets Key Value) :
    Request Key Value → Except Fault (Answer Value) × Session initBuckets Key Value
  | .index key =>
      match session.map.operatorIndex hash key with
      | .ok (node, map) =>
          (.ok (.reference (map.valueAt node)), ⟨map, (key, node) :: session.references⟩)
      | .error .noFreeNodes => (.ok .full, session)
      | .error fault => (.error fault, session)
  | .assign place value =>
      match session.references[place]? with
      | none => (.ok .unheld, session)
      | some (_, node) =>
          (.ok .assigned, ⟨session.map.setValueAt node value, session.references⟩)
  | .contains key => ((session.map.contains hash key).map .flag, session)
  | .find key =>
      ((session.map.find hash key).map fun node =>
        .pointer (node.map session.map.valueAt), session)
  | .erase key =>
      match session.map.erase hash key with
      | .ok (flag, map) =>
          (.ok (.flag flag), ⟨map, session.references.filter fun held =>
            decide (held.1 ≠ key)⟩)
      | .error fault => (.error fault, session)

def Session.after [Inhabited Key] (hash : Key → Word64)
    (requests : List (Request Key Value)) : Session initBuckets Key Value :=
  requests.foldl (fun session request => (session.serve hash request).2) initial

/-- The two clients hold the same entries and references. -/
structure Simulates (hash : Key → Word64) (session : Session initBuckets Key Value)
    (client : Client (poolSize initBuckets) Key Value) : Prop where
  represents : Represents hash session.map client.map.lookup
  keys : session.references.map Prod.fst = client.references
  places : ∀ held ∈ session.references,
    session.map.find hash held.1 = .ok (some held.2)

variable {hash : Key → Word64} {session : Session initBuckets Key Value}
  {client : Client (poolSize initBuckets) Key Value}

omit [Inhabited Value] in
/-- A free node is left exactly as long as the bounded map has room. -/
theorem Simulates.hasRoom_iff (simulates : Simulates hash session client) :
    client.map.HasRoom ↔ session.map.freeNodes ≠ [] := by
  have count := simulates.represents.card_keys client.map.entries.keys
    fun key => Finmap.mem_keys.trans Finmap.lookup_isSome.symm
  rw [BoundedMap.HasRoom, ← List.length_pos_iff]
  omega

theorem Simulates.index (simulates : Simulates hash session client) (key : Key) :
    (session.serve hash (.index key)).1 = .ok (client.serve (.index key)).1 ∧
      Simulates hash (session.serve hash (.index key)).2 (client.serve (.index key)).2 := by
  rw [Session.serve]
  rcases simulates.represents.index key with
    ⟨missing, full, throws⟩ | ⟨node, next, returns, value, represents, here, others, _⟩
  · have absent := (client.map.lookup_eq_none_iff key).mp missing
    have crowded : ¬ client.map.HasRoom := fun room => simulates.hasRoom_iff.mp room full
    rw [throws, client.index_full absent crowded]
    exact ⟨rfl, simulates⟩
  · have fits : key ∈ client.map.entries ∨ client.map.HasRoom := by
      by_contra neither
      rw [not_or] at neither
      have missing := (client.map.lookup_eq_none_iff key).mpr neither.1
      have full := not_not.mp (simulates.hasRoom_iff.not.mp neither.2)
      rw [simulates.represents.operatorIndex_full missing full] at returns
      cases returns
    rcases client.index_spec fits with ⟨answer, lookup, references⟩
    rw [returns, answer, ← value]
    refine ⟨rfl, ?_, ?_, ?_⟩
    · rw [lookup]
      exact represents
    · rw [references, ← simulates.keys]
      rfl
    · exact List.forall_mem_cons.mpr ⟨here, fun held member =>
        others held.1 held.2 (simulates.places held member)⟩

theorem Simulates.assign (simulates : Simulates hash session client) (place : Nat)
    (value : Value) :
    (session.serve hash (.assign place value)).1 =
        .ok (client.serve (.assign place value)).1 ∧
      Simulates hash (session.serve hash (.assign place value)).2
        (client.serve (.assign place value)).2 := by
  have same := congrArg (fun keys => keys[place]?) simulates.keys
  simp only [List.getElem?_map] at same
  rw [Session.serve]
  cases held : session.references[place]? with
  | none =>
      rw [held] at same
      rw [client.assign_unheld same.symm]
      exact ⟨rfl, simulates⟩
  | some reference =>
      rw [held] at same
      rcases client.assign_spec same.symm value with ⟨answer, lookup, references⟩
      have member := List.mem_of_getElem? held
      rw [answer]
      refine ⟨rfl, ?_, ?_, ?_⟩
      · rw [lookup]
        exact simulates.represents.write (simulates.places reference member) value
      · rw [references]
        exact simulates.keys
      · intro other inside
        exact (find_setValueAt _ _ _).trans (simulates.places other inside)

theorem Simulates.serve (simulates : Simulates hash session client)
    (request : Request Key Value) :
    (session.serve hash request).1 = .ok (client.serve request).1 ∧
      Simulates hash (session.serve hash request).2 (client.serve request).2 := by
  cases request with
  | index key => exact simulates.index key
  | assign place value => exact simulates.assign place value
  | contains key =>
      rw [Session.serve, simulates.represents.contains]
      exact ⟨rfl, simulates⟩
  | find key =>
      rcases simulates.represents.find key with ⟨node, finds, points⟩
      rw [Session.serve, finds, Client.serve, ← points]
      exact ⟨rfl, simulates⟩
  | erase key =>
      rcases simulates.represents.erase key with ⟨next, erases, represents⟩
      rw [Session.serve, erases]
      refine ⟨rfl, ?_, ?_, ?_⟩
      · rw [Client.serve, BoundedMap.lookup_erase]
        exact represents
      · change (session.references.filter _).map _ = client.references.filter _
        rw [← simulates.keys, List.filter_map]
        rfl
      · intro held member
        rcases List.mem_filter.mp member with ⟨before, different⟩
        rw [← simulates.places held before]
        exact simulates.represents.find_erase erases (of_decide_eq_true different)

/-- Every request is answered like one to a map that has room for `poolSize` keys.
`operator[]` throws exactly when a new key finds no room, and nothing of the former use of a
node is left when the node is taken again. -/
structure IsBounded (hash : Key → Word64) (session : Session initBuckets Key Value)
    (client : Client (poolSize initBuckets) Key Value) : Prop where
  answers : ∀ request, (session.serve hash request).1 = .ok (client.serve request).1
  throws : ∀ key fault, session.map.operatorIndex hash key = .error fault ↔
    fault = .noFreeNodes ∧ key ∉ client.map.entries ∧
      client.map.entries.keys.card = poolSize initBuckets
  unchanged : ∀ key, (session.serve hash (.index key)).1 = .ok .full →
    (session.serve hash (.index key)).2 = session
  cleaned : ∀ key node next, key ∉ client.map.entries →
    session.map.operatorIndex hash key = .ok (node, next) →
    next.nodesPool node = ⟨key, default, none⟩

theorem Simulates.isBounded (simulates : Simulates hash session client) :
    IsBounded hash session client where
  answers request := (simulates.serve request).1
  throws key fault := by
    have full : client.map.entries.keys.card = poolSize initBuckets ↔
        session.map.freeNodes = [] := by
      have room := simulates.hasRoom_iff.not
      rw [ne_eq, not_not, BoundedMap.HasRoom] at room
      have bounded := client.map.bounded
      rw [← room]
      omega
    rw [full, ← client.map.lookup_eq_none_iff]
    constructor
    · intro throws
      rcases simulates.represents.index key with
        ⟨missing, none, fails⟩ | ⟨node, next, returns, _⟩
      · rw [fails] at throws
        cases throws
        exact ⟨rfl, missing, none⟩
      · rw [returns] at throws
        cases throws
    · rintro ⟨rfl, missing, none⟩
      exact simulates.represents.operatorIndex_full missing none
  unchanged key := by
    rw [Session.serve]
    split
    · nofun
    · exact fun _ => rfl
    · nofun
  cleaned key node next absent returned := by
    rcases simulates.represents.index key with
      ⟨missing, none, fails⟩ | ⟨taken, after, returns, _, _, _, _, clean⟩
    · rw [fails] at returned
      cases returned
    · rw [returns] at returned
      cases returned
      exact clean ((client.map.lookup_eq_none_iff key).mpr absent)

theorem Simulates.run (simulates : Simulates hash session client)
    (requests : List (Request Key Value)) :
    Simulates hash
      (requests.foldl (fun session request => (session.serve hash request).2) session)
      (requests.foldl (fun client request => (client.serve request).2) client) := by
  induction requests generalizing session client with
  | nil => exact simulates
  | cons request requests induction => exact induction (simulates.serve request).2

variable [Inhabited Key]

theorem simulates_initial (hash : Key → Word64) :
    Simulates hash (Session.initial : Session initBuckets Key Value) Client.initial where
  represents := by
    rw [Client.initial, BoundedMap.lookup_empty]
    exact represents_construct hash
  keys := rfl
  places := nofun

/-- After any requests the map stands for a bounded map. -/
theorem isBounded_after (initBuckets : PowerOfTwo) (hash : Key → Word64)
    (requests : List (Request Key Value)) :
    IsBounded hash (Session.after hash requests : Session initBuckets Key Value)
      (Client.after requests) :=
  ((simulates_initial hash).run requests).isBounded

end Clients

end FeederNet.HashMap.FixedSizedChainingHashMap
