import FeederNet.HashMap.FixedSizedChainingHashMap.Nodes

/-! # Contents of FixedSizedChainingHashMap

Each node is in one chain or on the free stack, and the chains hold the entries of a
finite map. This is kept by the calls that the order book makes; `insert`, which may
add a key twice, is not among them.
-/

namespace FeederNet.HashMap.FixedSizedChainingHashMap

variable {initBuckets : PowerOfTwo} {Key Value : Type}

/-- `chains` are the nodes of the buckets in order, and they hold each key once, in
its own bucket. -/
structure Linked (hash : Key → Word64)
    (map : FixedSizedChainingHashMap initBuckets Key Value)
    (chains : Fin initBuckets.toNat → List Nat) : Prop where
  chain : ∀ bucket, Chain (fun node => (map.nodesPool node).next) (map.buckets bucket)
    (chains bucket)
  stock : Partition chains map.freeNodes (Multiset.range (poolSize initBuckets))
  hashed : ∀ bucket, ∀ node ∈ chains bucket,
    bucketOf initBuckets hash (map.nodesPool node).key = bucket
  distinct : ∀ bucket, ∀ left ∈ chains bucket, ∀ right ∈ chains bucket,
    (map.nodesPool left).key = (map.nodesPool right).key → left = right

/-- The chains are the graph of `contents`. -/
structure Holds (hash : Key → Word64)
    (map : FixedSizedChainingHashMap initBuckets Key Value)
    (chains : Fin initBuckets.toNat → List Nat) (contents : Key → Option Value) :
    Prop extends Linked hash map chains where
  entries : ∀ key value, contents key = some value ↔
    ∃ node ∈ chains (bucketOf initBuckets hash key),
      (map.nodesPool node).key = key ∧ (map.nodesPool node).value = value

def Represents (hash : Key → Word64)
    (map : FixedSizedChainingHashMap initBuckets Key Value)
    (contents : Key → Option Value) : Prop :=
  ∃ chains, Holds hash map chains contents

theorem Linked.placed {hash : Key → Word64}
    {map : FixedSizedChainingHashMap initBuckets Key Value}
    {chains : Fin initBuckets.toNat → List Nat} (linked : Linked hash map chains) :
    Placed hash map chains :=
  ⟨linked.chain, linked.stock, linked.hashed⟩

/-! ## Writing nodes -/

section Write

variable {hash : Key → Word64} {map : FixedSizedChainingHashMap initBuckets Key Value}
  {key : Key} {chains : Fin initBuckets.toNat → List Nat}

theorem Linked.of_update (linked : Linked hash map chains)
    {next : FixedSizedChainingHashMap initBuckets Key Value}
    {bucket : Fin initBuckets.toNat} {nodes : List Nat}
    (placed : Placed hash next (Function.update chains bucket nodes))
    (untouched : ∀ other ≠ bucket, ∀ node ∈ chains other,
      (next.nodesPool node).key = (map.nodesPool node).key)
    (distinct : ∀ left ∈ nodes, ∀ right ∈ nodes,
      (next.nodesPool left).key = (next.nodesPool right).key → left = right) :
    Linked hash next (Function.update chains bucket nodes) where
  chain := placed.chain
  stock := placed.stock
  hashed := placed.hashed
  distinct other := by
    by_cases same : other = bucket
    · subst same
      rw [Function.update_self]
      exact distinct
    · rw [Function.update_of_ne same]
      intro left inLeft right inRight
      rw [untouched other same left inLeft, untouched other same right inRight]
      exact linked.distinct other left inLeft right inRight

theorem Holds.assign [DecidableEq Key] {contents : Key → Option Value}
    (holds : Holds hash map chains contents) {node : Nat}
    (member : node ∈ chains (bucketOf initBuckets hash key))
    (named : (map.nodesPool node).key = key) (value : Value) :
    Holds hash (map.setValueAt node value) chains
      (Function.update contents key (some value)) where
  chain := (holds.placed.setValueAt node value).chain
  stock := holds.stock
  hashed := (holds.placed.setValueAt node value).hashed
  distinct bucket left inLeft right inRight := by
    rw [setValueAt_key, setValueAt_key]
    exact holds.distinct bucket left inLeft right inRight
  entries other found := by
    by_cases same : other = key
    · subst same
      rw [Function.update_self]
      constructor
      · intro impossible
        cases impossible
        refine ⟨node, member, ?_, ?_⟩
        · rw [setValueAt_key, named]
        · rw [nodesPool_setValueAt, Function.update_self]
      · intro given
        rcases given with ⟨candidate, inside, key, rfl⟩
        rw [setValueAt_key] at key
        have single := holds.distinct _ candidate inside node member (key.trans named.symm)
        rw [single, nodesPool_setValueAt, Function.update_self]
    · rw [Function.update_of_ne same, holds.entries]
      have untouched : ∀ candidate, (map.nodesPool candidate).key = other →
          (map.setValueAt node value).nodesPool candidate = map.nodesPool candidate := by
        intro candidate key
        rw [nodesPool_setValueAt, Function.update_of_ne]
        intro equal
        subst equal
        exact same (key.symm.trans named)
      constructor
      · intro given
        rcases given with ⟨candidate, inside, key, stands⟩
        refine ⟨candidate, inside, ?_⟩
        rw [untouched candidate key]
        exact ⟨key, stands⟩
      · intro given
        rcases given with ⟨candidate, inside, key, stands⟩
        rw [setValueAt_key] at key
        rw [untouched candidate key] at stands
        exact ⟨candidate, inside, key, stands⟩

end Write

/-! ## The calls -/

section Calls

variable {hash : Key → Word64} {map : FixedSizedChainingHashMap initBuckets Key Value}
  {key : Key} {chains : Fin initBuckets.toNat → List Nat}
  {contents : Key → Option Value}

theorem Holds.present (holds : Holds hash map chains contents) {node : Nat}
    (member : node ∈ chains (bucketOf initBuckets hash key))
    (named : (map.nodesPool node).key = key) :
    contents key = some (map.nodesPool node).value :=
  (holds.entries key _).mpr ⟨node, member, named, rfl⟩

theorem Holds.missing (holds : Holds hash map chains contents)
    (passed : ∀ node ∈ chains (bucketOf initBuckets hash key),
      (map.nodesPool node).key ≠ key) : contents key = none := by
  cases found : contents key with
  | none => rfl
  | some value =>
      rcases (holds.entries key value).mp found with ⟨node, member, named, _⟩
      exact absurd named (passed node member)

theorem represents_construct [Inhabited Key] [Inhabited Value] (hash : Key → Word64) :
    Represents hash
      (construct : FixedSizedChainingHashMap initBuckets Key Value) fun _ => none := by
  have placed : Placed hash (construct : FixedSizedChainingHashMap initBuckets Key Value)
    fun _ => [] := placed_construct hash
  refine ⟨fun _ => [], ?_, fun key value => iff_of_false nofun nofun⟩
  exact ⟨placed.chain, placed.stock, placed.hashed, nofun⟩

theorem freeNodes_construct_ne_nil [Inhabited Key] [Inhabited Value] :
    (construct : FixedSizedChainingHashMap initBuckets Key Value).freeNodes ≠ [] := by
  have positive := initBuckets.toNat_pos
  rw [construct, ne_eq, List.reverse_eq_nil_iff, List.range_eq_nil, poolSize]
  omega

theorem Appended.linked (holds : Holds hash map chains contents)
    (missing : contents key = none) {newNode : Nat} {value : Value}
    {next : FixedSizedChainingHashMap initBuckets Key Value}
    (appended : Appended hash map chains key value newNode next) :
    Linked hash next (Function.update chains (bucketOf initBuckets hash key)
      (chains (bucketOf initBuckets hash key) ++ [newNode])) := by
  have others : ∀ node ∈ chains (bucketOf initBuckets hash key),
      (next.nodesPool node).key ≠ key := by
    intro node member named
    rw [(appended.kept _ node member).1] at named
    rw [holds.present member named] at missing
    cases missing
  apply holds.toLinked.of_update (appended.placed holds.placed)
  · intro bucket _ node member
    exact (appended.kept bucket node member).1
  · intro left inLeft right inRight same
    rcases List.mem_append.mp inLeft with leftBefore | leftLast
    · rcases List.mem_append.mp inRight with rightBefore | rightLast
      · rw [(appended.kept _ left leftBefore).1,
          (appended.kept _ right rightBefore).1] at same
        exact holds.distinct _ left leftBefore right rightBefore same
      · rw [List.mem_singleton.mp rightLast, appended.filled.1] at same
        exact absurd same (others left leftBefore)
    · rw [List.mem_singleton.mp leftLast, appended.filled.1] at same
      rcases List.mem_append.mp inRight with rightBefore | rightLast
      · exact absurd same.symm (others right rightBefore)
      · rw [List.mem_singleton.mp leftLast, List.mem_singleton.mp rightLast]

variable [DecidableEq Key] in
theorem Holds.of_appended (holds : Holds hash map chains contents)
    (missing : contents key = none) {newNode : Nat} {value : Value}
    {next : FixedSizedChainingHashMap initBuckets Key Value}
    (appended : Appended hash map chains key value newNode next) :
    Holds hash next (Function.update chains (bucketOf initBuckets hash key)
      (chains (bucketOf initBuckets hash key) ++ [newNode]))
      (Function.update contents key (some value)) where
  toLinked := appended.linked holds missing
  entries other stored := by
    have grown : ∀ bucket node, node ∈ Function.update chains
        (bucketOf initBuckets hash key)
        (chains (bucketOf initBuckets hash key) ++ [newNode]) bucket ↔
          node ∈ chains bucket ∨
            node = newNode ∧ bucket = bucketOf initBuckets hash key := by
      intro bucket node
      by_cases same : bucket = bucketOf initBuckets hash key
      · subst same
        simp
      · simp [same]
    by_cases same : other = key
    · subst same
      rw [Function.update_self]
      constructor
      · intro impossible
        cases impossible
        exact ⟨newNode, (grown _ _).mpr (.inr ⟨rfl, rfl⟩), appended.filled⟩
      · intro given
        rcases given with ⟨node, member, named, rfl⟩
        rcases (grown _ _).mp member with before | ⟨rfl, _⟩
        · rw [(appended.kept _ node before).1] at named
          rw [holds.present before named] at missing
          cases missing
        · rw [appended.filled.2]
    · rw [Function.update_of_ne same, holds.entries]
      constructor
      · intro given
        rcases given with ⟨node, member, entry⟩
        refine ⟨node, (grown _ _).mpr (.inl member), ?_⟩
        rw [(appended.kept _ node member).1, (appended.kept _ node member).2]
        exact entry
      · intro given
        rcases given with ⟨node, member, entry⟩
        rcases (grown _ _).mp member with before | ⟨rfl, _⟩
        · rw [(appended.kept _ node before).1, (appended.kept _ node before).2] at entry
          exact ⟨node, before, entry⟩
        · exact absurd (entry.1.symm.trans appended.filled.1) same

variable [DecidableEq Key]

theorem Holds.lookup_value (holds : Holds hash map chains contents) (key : Key) :
    ∃ result, map.lookup hash key = .ok result ∧
      result.2.map map.valueAt = contents key := by
  rcases holds.placed.exists_lookup key with ⟨result, walks, looks⟩
  refine ⟨result, looks, ?_⟩
  generalize nodes : chains (bucketOf initBuckets hash key) = chain at walks
  cases walks with
  | found passed named =>
      rw [holds.present (by rw [nodes]; exact List.mem_append_cons_self) named]
      rfl
  | absent passed =>
      rw [holds.missing (by rw [nodes]; exact passed)]
      rfl

theorem Represents.contains (represents : Represents hash map contents) (key : Key) :
    map.contains hash key = .ok (contents key).isSome := by
  rcases represents with ⟨chains, holds⟩
  rcases holds.lookup_value key with ⟨result, looks, value⟩
  rw [FixedSizedChainingHashMap.contains, looks, ← value, Option.isSome_map]

theorem Represents.find (represents : Represents hash map contents) (key : Key) :
    ∃ node, map.find hash key = .ok node ∧ node.map map.valueAt = contents key := by
  rcases represents with ⟨chains, holds⟩
  rcases holds.lookup_value key with ⟨result, looks, value⟩
  refine ⟨result.2, ?_, value⟩
  rw [FixedSizedChainingHashMap.find, looks]

/-- `operator[]` finds the value of the key, or throws, or appends a node. -/
theorem Holds.operatorIndex_spec [Inhabited Value] (holds : Holds hash map chains contents)
    (key : Key) :
    (∃ node ∈ chains (bucketOf initBuckets hash key), (map.nodesPool node).key = key ∧
      contents key = some (map.valueAt node) ∧
        map.operatorIndex hash key = .ok (node, map)) ∨
    (contents key = none ∧
      ((map.freeNodes = [] ∧ map.operatorIndex hash key = .error .noFreeNodes) ∨
        ∃ newNode next, map.operatorIndex hash key = .ok (newNode, next) ∧
          Appended hash map chains key default newNode next)) := by
  rcases holds.placed.operatorIndex_spec key with
    ⟨node, member, named, returns⟩ | ⟨passed, appends⟩
  · exact .inl ⟨node, member, named, holds.present member named, returns⟩
  · exact .inr ⟨holds.missing passed, appends⟩

theorem Represents.read [Inhabited Value] (represents : Represents hash map contents)
    {value : Value} (found : contents key = some value) :
    ∃ node, map.operatorIndex hash key = .ok (node, map) ∧ map.valueAt node = value := by
  rcases represents with ⟨chains, holds⟩
  rcases holds.operatorIndex_spec key with ⟨node, _, _, reads, returns⟩ | ⟨missing, _⟩
  · exact ⟨node, returns, Option.some.inj (reads.symm.trans found)⟩
  · rw [found] at missing
    cases missing

theorem Represents.operatorIndex_full [Inhabited Value]
    (represents : Represents hash map contents) (missing : contents key = none)
    (full : map.freeNodes = []) :
    map.operatorIndex hash key = .error .noFreeNodes := by
  rcases represents with ⟨chains, holds⟩
  rcases holds.operatorIndex_spec key with
    ⟨node, _, _, reads, _⟩ | ⟨_, ⟨_, throws⟩ | ⟨newNode, next, _, appended⟩⟩
  · rw [missing] at reads
    cases reads
  · exact throws
  · have free := appended.free
    rw [full] at free
    cases free

/-- `orderMap_[key] = value`. Only a new key with no free node makes it throw. -/
theorem Represents.assign [Inhabited Value] (represents : Represents hash map contents)
    (key : Key) :
    (contents key = none ∧ map.freeNodes = [] ∧
      map.operatorIndex hash key = .error .noFreeNodes) ∨
    ∃ node next, map.operatorIndex hash key = .ok (node, next) ∧ ∀ value,
      Represents hash (next.setValueAt node value)
        (Function.update contents key (some value)) := by
  rcases represents with ⟨chains, holds⟩
  rcases holds.operatorIndex_spec key with
    ⟨node, member, named, _, returns⟩ |
    ⟨missing, ⟨empty, throws⟩ | ⟨newNode, next, returns, appended⟩⟩
  · exact .inr ⟨node, map, returns, fun value => ⟨chains, holds.assign member named value⟩⟩
  · exact .inl ⟨missing, empty, throws⟩
  · refine .inr ⟨newNode, next, returns, fun value => ?_⟩
    have member : newNode ∈ Function.update chains (bucketOf initBuckets hash key)
        (chains (bucketOf initBuckets hash key) ++ [newNode])
        (bucketOf initBuckets hash key) := by
      rw [Function.update_self]
      exact List.mem_append_right _ (List.mem_singleton_self newNode)
    have assigned :=
      (holds.of_appended missing appended).assign member appended.filled.1 value
    rw [Function.update_idem] at assigned
    exact ⟨_, assigned⟩

omit [DecidableEq Key] in
theorem Unlinked.linked (holds : Holds hash map chains contents)
    {front back : List Nat} {node : Nat}
    (split : chains (bucketOf initBuckets hash key) = front ++ node :: back)
    {next : FixedSizedChainingHashMap initBuckets Key Value}
    (unlinked : Unlinked hash map key front back node next) :
    Linked hash next
      (Function.update chains (bucketOf initBuckets hash key) (front ++ back)) := by
  have before : ∀ other ∈ front ++ back,
      other ∈ chains (bucketOf initBuckets hash key) := fun _ => mem_of_split split
  apply holds.toLinked.of_update (unlinked.placed holds.placed split)
  · exact fun _ _ node _ => (unlinked.kept node).1
  · intro left inLeft right inRight
    rw [(unlinked.kept left).1, (unlinked.kept right).1]
    exact holds.distinct _ left (before left inLeft) right (before right inRight)

theorem Holds.of_unlinked (holds : Holds hash map chains contents)
    {front back : List Nat} {node : Nat}
    (split : chains (bucketOf initBuckets hash key) = front ++ node :: back)
    (named : (map.nodesPool node).key = key)
    {next : FixedSizedChainingHashMap initBuckets Key Value}
    (unlinked : Unlinked hash map key front back node next) :
    Holds hash next
      (Function.update chains (bucketOf initBuckets hash key) (front ++ back))
      (Function.update contents key none) where
  toLinked := unlinked.linked holds split
  entries other value := by
    have members : ∀ bucket candidate, (map.nodesPool candidate).key ≠ key →
        (candidate ∈ Function.update chains (bucketOf initBuckets hash key)
          (front ++ back) bucket ↔ candidate ∈ chains bucket) := by
      intro bucket candidate different
      have apart : candidate ≠ node := by
        intro equal
        subst equal
        exact different named
      by_cases same : bucket = bucketOf initBuckets hash key
      · subst same
        rw [Function.update_self, split]
        simp [apart]
      · rw [Function.update_of_ne same]
    by_cases same : other = key
    · subst same
      rw [Function.update_self, Function.update_self]
      refine iff_of_false nofun ?_
      intro given
      rcases given with ⟨candidate, member, here, _⟩
      rw [(unlinked.kept candidate).1] at here
      have nodup := (holds.chain (bucketOf initBuckets hash other)).nodup
      have single := holds.distinct _ candidate (mem_of_split split member) node
        (by rw [split]; exact List.mem_append_cons_self) (here.trans named.symm)
      rw [split, List.nodup_middle, List.nodup_cons] at nodup
      rw [single] at member
      exact nodup.1 member
    · rw [Function.update_of_ne same, holds.entries]
      constructor
      · intro given
        rcases given with ⟨candidate, member, rfl, stands⟩
        refine ⟨candidate, (members _ candidate same).mpr member, ?_⟩
        rw [(unlinked.kept candidate).1, (unlinked.kept candidate).2]
        exact ⟨rfl, stands⟩
      · intro given
        rcases given with ⟨candidate, member, here, stands⟩
        rw [(unlinked.kept candidate).1] at here
        rw [(unlinked.kept candidate).2] at stands
        refine ⟨candidate, (members _ candidate ?_).mp member, here, stands⟩
        rw [here]
        exact same

theorem Represents.erase (represents : Represents hash map contents) (key : Key) :
    ∃ next, map.erase hash key = .ok ((contents key).isSome, next) ∧
      Represents hash next (Function.update contents key none) := by
  rcases represents with ⟨chains, holds⟩
  rcases holds.placed.erase_spec key with
    ⟨passed, erases⟩ | ⟨front, node, back, next, split, named, erases, unlinked⟩
  · have missing := holds.missing passed
    refine ⟨map, ?_, chains, ?_⟩
    · rw [erases, missing]
      rfl
    · rw [← missing, Function.update_eq_self]
      exact holds
  · have member : node ∈ chains (bucketOf initBuckets hash key) := by
      rw [split]
      exact List.mem_append_cons_self
    rw [holds.present member named]
    exact ⟨next, erases, _, holds.of_unlinked split named unlinked⟩

/-! ## Insertion -/

theorem Represents.insert (represents : Represents hash map contents)
    (missing : contents key = none) (room : map.freeNodes ≠ []) (value : Value) :
    ∃ next, map.insert hash key value = .ok next ∧
      Represents hash next (Function.update contents key (some value)) := by
  rcases represents with ⟨chains, holds⟩
  rcases List.exists_cons_of_ne_nil room with ⟨newNode, freeNodes, free⟩
  rcases holds.placed.insert free key value with ⟨next, inserts, appended⟩
  exact ⟨next, inserts, _, holds.of_appended missing appended⟩

/-- A key that is inserted again stays after it is erased. -/
theorem Represents.insert_present (represents : Represents hash map contents)
    (present : (contents key).isSome = true) (room : map.freeNodes ≠ []) (value : Value) :
    ∃ next erased, map.insert hash key value = .ok next ∧
      next.erase hash key = .ok (true, erased) ∧ erased.contains hash key = .ok true := by
  rcases represents with ⟨chains, holds⟩
  rcases List.exists_cons_of_ne_nil room with ⟨newNode, freeNodes, free⟩
  rcases holds.placed.insert free key value with ⟨next, inserts, appended⟩
  rcases Option.isSome_iff_exists.mp present with ⟨old, found⟩
  rcases (holds.entries key old).mp found with ⟨holder, stands, holderNamed, _⟩
  have placed := appended.placed holds.placed
  -- two nodes of the longer chain have the key, so that one is left
  have twice : ∀ gone, ∃ node ∈ chains (bucketOf initBuckets hash key) ++ [newNode],
      node ≠ gone ∧ (next.nodesPool node).key = key := by
    intro gone
    by_cases same : newNode = gone
    · refine ⟨holder, List.mem_append_left _ stands, ?_, ?_⟩
      · rw [← same]
        exact holds.placed.ne_free free stands
      · rw [(appended.kept _ holder stands).1, holderNamed]
    · exact ⟨newNode, List.mem_append_right _ (List.mem_singleton_self newNode), same,
        appended.filled.1⟩
  rcases placed.erase_spec key with
    ⟨passed, _⟩ | ⟨front, node, back, erased, split, named, erases, unlinked⟩
  · rw [Function.update_self] at passed
    rcases twice 0 with ⟨node, member, _, named⟩
    exact absurd named (passed node member)
  · refine ⟨next, erased, inserts, erases, ?_⟩
    rcases (unlinked.placed placed split).contains_spec key with ⟨flag, contains, present⟩
    rcases twice node with ⟨other, member, apart, same⟩
    rw [Function.update_self] at split present
    rw [split, List.mem_append] at member
    have inside : other ∈ front ++ back := by
      rw [List.mem_append]
      rcases member with early | late
      · exact .inl early
      · exact .inr ((List.mem_cons.mp late).resolve_left apart)
    rw [← (unlinked.kept other).1] at same
    rw [contains, present.mpr ⟨other, inside, same⟩]

theorem Represents.readNew [Inhabited Value] (represents : Represents hash map contents)
    (missing : contents key = none) (room : map.freeNodes ≠ []) :
    ∃ node next, map.operatorIndex hash key = .ok (node, next) ∧
      next.valueAt node = default ∧
        Represents hash next (Function.update contents key (some default)) := by
  rcases represents with ⟨chains, holds⟩
  rcases holds.operatorIndex_spec key with
    ⟨node, _, _, reads, _⟩ | ⟨_, ⟨empty, _⟩ | ⟨newNode, next, returns, appended⟩⟩
  · rw [missing] at reads
    cases reads
  · exact absurd empty room
  · exact ⟨newNode, next, returns, appended.filled.2, _, holds.of_appended missing appended⟩

end Calls

end FeederNet.HashMap.FixedSizedChainingHashMap
