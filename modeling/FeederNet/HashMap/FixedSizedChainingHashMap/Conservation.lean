import FeederNet.HashMap.Interchange

/-! # Conservation of the nodes of FixedSizedChainingHashMap

No sequence of calls loses a node, shares one between two places or ties a chain into a
circle. A key may be inserted any number of times, and the pool may run out.
-/

open scoped BigOperators

namespace FeederNet.HashMap.FixedSizedChainingHashMap

variable {initBuckets : PowerOfTwo} {Key Value : Type}

/-- What is done to a map: a call, or a write through a reference or pointer to the value
of a node. -/
inductive Action (Key Value : Type)
  | call (operation : Operation Key Value)
  | write (node : Nat) (value : Value)
  deriving DecidableEq, Repr

/-- The node is once on the free stack, or once on the chain of one bucket. -/
def InOnePlace (map : FixedSizedChainingHashMap initBuckets Key Value)
    (chains : Fin initBuckets.toNat → List Nat) (node : Nat) : Prop :=
  (map.freeNodes.count node = 1 ∧ ∀ bucket, (chains bucket).count node = 0) ∨
  (map.freeNodes.count node = 0 ∧ ∃ bucket, (chains bucket).count node = 1 ∧
    ∀ other ≠ bucket, (chains other).count node = 0)

variable [DecidableEq Key] [Inhabited Value]

def act (hash : Key → Word64) (map : FixedSizedChainingHashMap initBuckets Key Value) :
    Action Key Value → FixedSizedChainingHashMap initBuckets Key Value
  | .call operation => (map.apply hash operation).2
  | .write node value => map.setValueAt node value

def afterActions (hash : Key → Word64)
    (map : FixedSizedChainingHashMap initBuckets Key Value)
    (actions : List (Action Key Value)) : FixedSizedChainingHashMap initBuckets Key Value :=
  actions.foldl (act hash) map

/-- Where the nodes of a map are, and what its loops and calls come to. -/
structure Conserved (hash : Key → Word64)
    (map : FixedSizedChainingHashMap initBuckets Key Value)
    (chains : Fin initBuckets.toNat → List Nat) : Prop where
  ends : ∀ bucket, Chain (fun node => (map.nodesPool node).next) (map.buckets bucket)
    (chains bucket)
  hashed : ∀ bucket, ∀ node ∈ chains bucket,
    bucketOf initBuckets hash (map.nodesPool node).key = bucket
  inPool : ∀ node, node ∈ map.freeNodes ∨ (∃ bucket, node ∈ chains bucket) →
    node < poolSize initBuckets
  inOnePlace : ∀ node < poolSize initBuckets, InOnePlace map chains node
  total : map.freeNodes.length + ∑ bucket, (chains bucket).length =
    16 * initBuckets.toNat
  searches : ∀ key, ∃ result, map.lookup hash key = .ok result
  reachesEnd : ∀ bucket node, map.buckets bucket = some node →
    ∃ last, map.tail (poolSize initBuckets) node = .ok last
  answers : ∀ operation, (∃ result, (map.apply hash operation).1 = .ok result) ∨
    ((map.apply hash operation).1 = .error .noFreeNodes ∧ map.freeNodes = [] ∧
      (map.apply hash operation).2 = map)

section Calls

variable {hash : Key → Word64} {map : FixedSizedChainingHashMap initBuckets Key Value}
  {chains : Fin initBuckets.toNat → List Nat}

/-- A call keeps each node in one place. It yields nothing only where it throws for want
of a free node, and then the map stays as it was. -/
theorem Placed.apply (placed : Placed hash map chains) (operation : Operation Key Value) :
    (∃ nextChains, Placed hash (map.apply hash operation).2 nextChains) ∧
    ((∃ result, (map.apply hash operation).1 = .ok result) ∨
      ((map.apply hash operation).1 = .error .noFreeNodes ∧ map.freeNodes = [] ∧
        (map.apply hash operation).2 = map)) := by
  cases operation with
  | insert key value =>
      rw [FixedSizedChainingHashMap.apply]
      rcases placed.insert_or_throw key value with
        ⟨empty, throws⟩ | ⟨next, nextChains, inserts, nextPlaced⟩
      · rw [throws]
        exact ⟨⟨chains, placed⟩, .inr ⟨rfl, empty, rfl⟩⟩
      · rw [inserts]
        exact ⟨⟨nextChains, nextPlaced⟩, .inl ⟨.done, rfl⟩⟩
  | read key =>
      rw [FixedSizedChainingHashMap.apply]
      rcases placed.operatorIndex_or_throw key with
        ⟨empty, throws⟩ | ⟨node, next, nextChains, returns, nextPlaced⟩
      · rw [throws]
        exact ⟨⟨chains, placed⟩, .inr ⟨rfl, empty, rfl⟩⟩
      · rw [returns]
        exact ⟨⟨nextChains, nextPlaced⟩, .inl ⟨.value (next.valueAt node), rfl⟩⟩
  | assign key value =>
      rw [FixedSizedChainingHashMap.apply]
      rcases placed.operatorIndex_or_throw key with
        ⟨empty, throws⟩ | ⟨node, next, nextChains, returns, nextPlaced⟩
      · rw [throws]
        exact ⟨⟨chains, placed⟩, .inr ⟨rfl, empty, rfl⟩⟩
      · rw [returns]
        exact ⟨⟨nextChains, nextPlaced.setValueAt node value⟩, .inl ⟨.done, rfl⟩⟩
  | contains key =>
      rw [FixedSizedChainingHashMap.apply]
      rcases placed.contains_spec key with ⟨flag, contains, _⟩
      rw [contains]
      exact ⟨⟨chains, placed⟩, .inl ⟨.flag flag, rfl⟩⟩
  | erase key =>
      rw [FixedSizedChainingHashMap.apply]
      rcases placed.erase key with ⟨flag, next, nextChains, erases, nextPlaced⟩
      rw [erases]
      exact ⟨⟨nextChains, nextPlaced⟩, .inl ⟨.flag flag, rfl⟩⟩
  | find key =>
      rw [FixedSizedChainingHashMap.apply]
      rcases placed.exists_lookup key with ⟨result, _, looks⟩
      refine ⟨⟨chains, placed⟩, .inl ⟨.pointer (result.2.map map.valueAt), ?_⟩⟩
      rw [FixedSizedChainingHashMap.find, looks]
      rfl

theorem Placed.act (placed : Placed hash map chains) (action : Action Key Value) :
    ∃ nextChains, Placed hash (map.act hash action) nextChains := by
  cases action with
  | call operation => exact (placed.apply operation).1
  | write node value => exact ⟨chains, placed.setValueAt node value⟩

theorem Placed.afterActions (placed : Placed hash map chains)
    (actions : List (Action Key Value)) :
    ∃ nextChains, Placed hash (map.afterActions hash actions) nextChains := by
  induction actions generalizing map chains with
  | nil => exact ⟨chains, placed⟩
  | cons action actions induction =>
      rcases placed.act action with ⟨nextChains, nextPlaced⟩
      exact induction nextPlaced

theorem Placed.conserved (placed : Placed hash map chains) : Conserved hash map chains where
  ends := placed.chain
  hashed := placed.hashed
  inPool node somewhere := by
    apply Multiset.mem_range.mp
    apply placed.stock.mem_stock_iff.mpr
    exact somewhere.symm
  inOnePlace node below :=
    placed.stock.one_place (Multiset.nodup_range _) (Multiset.mem_range.mpr below)
  total := by
    have count := placed.stock.card_eq
    rw [Multiset.card_range, poolSize] at count
    omega
  searches key := by
    rcases placed.exists_lookup key with ⟨result, _, looks⟩
    exact ⟨result, looks⟩
  reachesEnd _ _ starts := placed.exists_tail starts
  answers operation := (placed.apply operation).2

end Calls

/-- Whatever is done to a new map, each node of the pool stays in one place and each chain
ends. -/
theorem conserved_after [Inhabited Key] (initBuckets : PowerOfTwo) (hash : Key → Word64)
    (actions : List (Action Key Value)) :
    ∃ chains, Conserved hash
      ((construct : FixedSizedChainingHashMap initBuckets Key Value).afterActions hash
        actions) chains := by
  rcases (placed_construct hash).afterActions actions with ⟨chains, placed⟩
  exact ⟨chains, placed.conserved⟩

end FeederNet.HashMap.FixedSizedChainingHashMap
