import FeederNet.HashMap.ChainingHashMap
import Mathlib.Data.List.Nodup

/-! # ChainingHashMap as a finite map

The buckets after any sequence of calls, and what a call on one key leaves alone.
-/

namespace FeederNet.HashMap.ChainingHashMap

open FixedSizedChainingHashMap (bucketOf)

variable {initBuckets : PowerOfTwo} {Key Value : Type}

def keysIn (map : ChainingHashMap initBuckets Key Value)
    (bucket : Fin initBuckets.toNat) : List Key :=
  (map.table bucket).map Node.key

/-- Every node sits in the bucket of its own hash, and no bucket holds two nodes of one
key. -/
structure Bucketed (hash : Key → Word64) (map : ChainingHashMap initBuckets Key Value) :
    Prop where
  hashed : ∀ bucket, ∀ key ∈ map.keysIn bucket, bucketOf initBuckets hash key = bucket
  distinct : ∀ bucket, (map.keysIn bucket).Nodup

section Buckets

variable {hash : Key → Word64} {map : ChainingHashMap initBuckets Key Value}
  {nodes : List (Node Key Value)} {bucket : Fin initBuckets.toNat}

theorem bucketed_construct (hash : Key → Word64) :
    Bucketed hash (construct : ChainingHashMap initBuckets Key Value) where
  hashed _ := List.forall_mem_nil _
  distinct _ := List.nodup_nil

theorem Bucketed.setBucket (bucketed : Bucketed hash map)
    (hashed : ∀ key ∈ nodes.map Node.key, bucketOf initBuckets hash key = bucket)
    (distinct : (nodes.map Node.key).Nodup) :
    Bucketed hash (map.setBucket bucket nodes) := by
  have keys : ∀ other, (map.setBucket bucket nodes).keysIn other =
      if other = bucket then nodes.map Node.key else map.keysIn other := by
    intro other
    rw [keysIn, table_setBucket]
    split <;> rfl
  constructor
  · intro other
    rw [keys]
    by_cases same : other = bucket
    · rw [if_pos same, same]
      exact hashed
    · rw [if_neg same]
      exact bucketed.hashed other
  · intro other
    rw [keys]
    by_cases same : other = bucket
    · rw [if_pos same]
      exact distinct
    · rw [if_neg same]
      exact bucketed.distinct other

theorem map_key_modify (nodes : List (Node Key Value)) (place : Nat) (value : Value) :
    (nodes.modify place fun node => { node with value := value }).map Node.key =
      nodes.map Node.key := by
  induction nodes generalizing place with
  | nil => cases place <;> rfl
  | cons node nodes induction =>
      cases place with
      | zero => rfl
      | succ place =>
          rw [List.modify_succ_cons, List.map_cons, List.map_cons, induction]

theorem Bucketed.setValueAt (bucketed : Bucketed hash map)
    (reference : Fin initBuckets.toNat × Nat) (value : Value) :
    Bucketed hash (map.setValueAt reference value) := by
  apply bucketed.setBucket
  · rw [map_key_modify]
    exact bucketed.hashed reference.1
  · rw [map_key_modify]
    exact bucketed.distinct reference.1

variable [DecidableEq Key] {key : Key}

theorem not_mem_keys_of_search (absent : search key nodes = none) :
    key ∉ nodes.map Node.key := by
  intro member
  rcases List.mem_map.mp member with ⟨node, inside, same⟩
  have different := List.findIdx?_eq_none_iff.mp absent node inside
  rw [decide_eq_false_iff_not] at different
  exact different same

theorem Bucketed.append (bucketed : Bucketed hash map)
    (absent : search key (map.table (bucketOf initBuckets hash key)) = none)
    (value : Value) :
    Bucketed hash (map.setBucket (bucketOf initBuckets hash key)
      (map.table (bucketOf initBuckets hash key) ++ [⟨key, value⟩])) := by
  apply bucketed.setBucket
  · rw [List.map_append]
    intro other member
    rcases List.mem_append.mp member with before | last
    · exact bucketed.hashed _ other before
    · rw [List.mem_singleton.mp last]
  · rw [List.map_append]
    refine List.nodup_append.mpr ⟨bucketed.distinct _, List.nodup_singleton _, ?_⟩
    intro other before last inLast same
    rw [same, List.mem_singleton.mp inLast] at before
    exact not_mem_keys_of_search absent before

variable [Inhabited Value]

theorem Bucketed.operatorIndex (bucketed : Bucketed hash map) (key : Key) :
    Bucketed hash (map.operatorIndex hash key).2 := by
  unfold ChainingHashMap.operatorIndex
  cases found : search key (map.table (bucketOf initBuckets hash key)) with
  | some place =>
      simp only [found]
      exact bucketed
  | none =>
      simp only [found]
      exact bucketed.append found default

omit [Inhabited Value] in
theorem Bucketed.insert (bucketed : Bucketed hash map) (key : Key) (value : Value) :
    Bucketed hash (map.insert hash key value) := by
  unfold ChainingHashMap.insert
  cases found : search key (map.table (bucketOf initBuckets hash key)) with
  | some place =>
      simp only [found]
      exact bucketed.setValueAt _ value
  | none =>
      simp only [found]
      exact bucketed.append found value

omit [Inhabited Value] in
theorem Bucketed.erase (bucketed : Bucketed hash map) (key : Key) :
    Bucketed hash (map.erase hash key).2 := by
  unfold ChainingHashMap.erase
  cases found : search key (map.table (bucketOf initBuckets hash key)) with
  | none =>
      simp only [found]
      exact bucketed
  | some place =>
      simp only [found]
      have fewer := (List.filter_sublist (l := map.table (bucketOf initBuckets hash key))
        (p := fun node => decide (node.key ≠ key))).map Node.key
      apply bucketed.setBucket
      · exact fun other member => bucketed.hashed _ other (fewer.subset member)
      · exact (bucketed.distinct _).sublist fewer

theorem Bucketed.apply (bucketed : Bucketed hash map)
    (operation : Operation Key Value) : Bucketed hash (map.apply hash operation).2 := by
  cases operation with
  | insert key value => exact bucketed.insert key value
  | read key => exact bucketed.operatorIndex key
  | assign key value => exact (bucketed.operatorIndex key).setValueAt _ value
  | contains key => exact bucketed
  | erase key => exact bucketed.erase key
  | find key => exact bucketed

end Buckets

/-! ## Sequences of calls -/

section Sequences

variable [DecidableEq Key] [Inhabited Value] {hash : Key → Word64}
  {map : ChainingHashMap initBuckets Key Value}

theorem find_apply_of_ne (hash : Key → Word64)
    (map : ChainingHashMap initBuckets Key Value) (operation : Operation Key Value)
    {other : Key} (different : other ≠ operation.key) :
    ((map.apply hash operation).2.apply hash (.find other)).1 =
      (map.apply hash (.find other)).1 := by
  have after := (apply_spec hash (map.apply hash operation).2 (.find other)).1
  have before := (apply_spec hash map (.find other)).1
  rw [after, before, (apply_spec hash map operation).2, FiniteMap.apply, FiniteMap.apply,
    FiniteMap.apply_of_ne _ operation different]

theorem Bucketed.run (bucketed : Bucketed hash map)
    (operations : List (Operation Key Value)) :
    trace (ChainingHashMap.apply hash) map operations =
        FiniteMap.results (contents hash map) operations ∧
      Bucketed hash (reach (ChainingHashMap.apply hash) map operations) := by
  induction operations generalizing map with
  | nil => exact ⟨rfl, bucketed⟩
  | cons operation operations induction =>
      have first := apply_spec hash map operation
      have rest := induction (bucketed.apply operation)
      refine ⟨?_, rest.2⟩
      rw [trace, FiniteMap.results, first.1, rest.1, first.2]

/-- A new map returns what a finite map returns, its nodes are where they belong, and a
further call on one key is not seen by a look for another. -/
structure IsFiniteMap (initBuckets : PowerOfTwo) (hash : Key → Word64)
    (operations : List (Operation Key Value)) : Prop where
  results : trace (ChainingHashMap.apply hash)
      (construct : ChainingHashMap initBuckets Key Value) operations =
    FiniteMap.results (fun _ => none) operations
  bucketed : Bucketed hash
    (reach (ChainingHashMap.apply hash) (construct : ChainingHashMap initBuckets Key Value)
      operations)
  others : ∀ map, map = reach (ChainingHashMap.apply hash)
      (construct : ChainingHashMap initBuckets Key Value) operations →
    ∀ (operation : Operation Key Value) (other : Key), other ≠ operation.key →
      ((map.apply hash operation).2.apply hash (.find other)).1 =
        (map.apply hash (.find other)).1

/-- Every sequence of calls on a new map returns what it returns on a finite map. No
bucket ever holds a key twice or a node of another bucket, and a call on one key leaves
the other keys alone. -/
theorem isFiniteMap (initBuckets : PowerOfTwo) (hash : Key → Word64)
    (operations : List (Operation Key Value)) :
    IsFiniteMap initBuckets hash operations := by
  have start : Bucketed hash (construct : ChainingHashMap initBuckets Key Value) :=
    bucketed_construct hash
  rcases start.run operations with ⟨results, bucketed⟩
  exact ⟨results, bucketed, fun map _ operation _ => find_apply_of_ne hash map operation⟩

end Sequences

end FeederNet.HashMap.ChainingHashMap
