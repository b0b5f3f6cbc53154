import FeederNet.HashMap.FiniteMap
import FeederNet.HashMap.FixedSizedChainingHashMap
import Mathlib.Data.List.Basic

/-! # ChainingHashMap

A bucket is the list of its nodes in order. A reference to a value is the bucket and
the place of its node, and every loop over a bucket stops at the first node of the key.
-/

namespace FeederNet.HashMap

open FixedSizedChainingHashMap (bucketOf)

namespace ChainingHashMap

structure Node (Key Value : Type) where
  key : Key
  value : Value
  deriving DecidableEq, Repr

end ChainingHashMap

/-- The map for one value of `Const::initBuckets`, which the constructor refuses
unless it is a power of two. -/
structure ChainingHashMap (initBuckets : PowerOfTwo) (Key Value : Type) where
  table : Fin initBuckets.toNat → List (ChainingHashMap.Node Key Value)

namespace ChainingHashMap

section Code

variable {initBuckets : PowerOfTwo} {Key Value : Type} [DecidableEq Key]
  [Inhabited Value]

def construct : ChainingHashMap initBuckets Key Value where
  table _ := []

def setBucket (map : ChainingHashMap initBuckets Key Value)
    (index : Fin initBuckets.toNat) (nodes : List (Node Key Value)) :
    ChainingHashMap initBuckets Key Value where
  table := Function.update map.table index nodes

def search (key : Key) (nodes : List (Node Key Value)) : Option Nat :=
  nodes.findIdx? fun node => decide (node.key = key)

def valueAt (map : ChainingHashMap initBuckets Key Value)
    (reference : Fin initBuckets.toNat × Nat) : Value :=
  (((map.table reference.1)[reference.2]?).map Node.value).getD default

def setValueAt (map : ChainingHashMap initBuckets Key Value)
    (reference : Fin initBuckets.toNat × Nat) (value : Value) :
    ChainingHashMap initBuckets Key Value :=
  map.setBucket reference.1
    ((map.table reference.1).modify reference.2 fun node => { node with value := value })

variable (hash : Key → Word64)

def operatorIndex (map : ChainingHashMap initBuckets Key Value) (key : Key) :
    (Fin initBuckets.toNat × Nat) × ChainingHashMap initBuckets Key Value :=
  let index := bucketOf initBuckets hash key
  match search key (map.table index) with
  | some place => ((index, place), map)
  | none =>
      ((index, (map.table index).length),
        map.setBucket index (map.table index ++ [⟨key, default⟩]))

def insert (map : ChainingHashMap initBuckets Key Value) (key : Key) (value : Value) :
    ChainingHashMap initBuckets Key Value :=
  let index := bucketOf initBuckets hash key
  match search key (map.table index) with
  | some place => map.setValueAt (index, place) value
  | none => map.setBucket index (map.table index ++ [⟨key, value⟩])

def contains (map : ChainingHashMap initBuckets Key Value) (key : Key) : Bool :=
  (search key (map.table (bucketOf initBuckets hash key))).isSome

/-- `table_[index].remove(node)` takes off every node equal to the one found, which is
every node of its key. -/
def erase (map : ChainingHashMap initBuckets Key Value) (key : Key) :
    Bool × ChainingHashMap initBuckets Key Value :=
  let index := bucketOf initBuckets hash key
  match search key (map.table index) with
  | some _ =>
      (true, map.setBucket index
        ((map.table index).filter fun node => decide (node.key ≠ key)))
  | none => (false, map)

def find (map : ChainingHashMap initBuckets Key Value) (key : Key) :
    Option (Fin initBuckets.toNat × Nat) :=
  let index := bucketOf initBuckets hash key
  (search key (map.table index)).map fun place => (index, place)

def apply (map : ChainingHashMap initBuckets Key Value) :
    Operation Key Value → Result Value × ChainingHashMap initBuckets Key Value
  | .insert key value => (.done, map.insert hash key value)
  | .read key =>
      let result := map.operatorIndex hash key
      (.value (result.2.valueAt result.1), result.2)
  | .assign key value =>
      let result := map.operatorIndex hash key
      (.done, result.2.setValueAt result.1 value)
  | .contains key => (.flag (map.contains hash key), map)
  | .erase key =>
      let result := map.erase hash key
      (.flag result.1, result.2)
  | .find key => (.pointer ((map.find hash key).map map.valueAt), map)

end Code

/-! ## Contents -/

section Nodes

variable {Key Value : Type} [DecidableEq Key] {key : Key} {nodes : List (Node Key Value)}
  {place : Nat}

def entry (key : Key) (nodes : List (Node Key Value)) : Option Value :=
  (nodes.find? fun node => decide (node.key = key)).map Node.value

theorem entry_cons (key : Key) (node : Node Key Value) (nodes : List (Node Key Value)) :
    entry key (node :: nodes) = if node.key = key then some node.value
      else entry key nodes := by
  unfold entry
  by_cases same : node.key = key
  · rw [List.find?_cons_of_pos (by simpa using same), if_pos same]
    rfl
  · rw [List.find?_cons_of_neg (by simpa using same), if_neg same]

theorem search_cons (key : Key) (node : Node Key Value) (nodes : List (Node Key Value)) :
    search key (node :: nodes) = if node.key = key then some 0
      else (search key nodes).map (· + 1) := by
  simp [search, List.findIdx?_cons]

theorem search_cons_eq_none {node : Node Key Value}
    (absent : search key (node :: nodes) = none) :
    node.key ≠ key ∧ search key nodes = none := by
  rw [search_cons] at absent
  by_cases same : node.key = key
  · rw [if_pos same] at absent
    cases absent
  · rw [if_neg same, Option.map_eq_none_iff] at absent
    exact ⟨same, absent⟩

theorem entry_cons_congr {node : Node Key Value} {changed : List (Node Key Value)}
    {other : Key} {found : Option Value} (different : node.key ≠ key)
    (rest : entry other changed = if other = key then found else entry other nodes) :
    entry other (node :: changed) =
      if other = key then found else entry other (node :: nodes) := by
  rw [entry_cons, entry_cons, rest]
  by_cases here : node.key = other
  · rw [if_pos here, if_pos here, if_neg fun asked => different (here.trans asked)]
  · rw [if_neg here, if_neg here]

theorem entry_eq_none_of_search (absent : search key nodes = none) :
    entry key nodes = none := by
  induction nodes with
  | nil => rfl
  | cons node nodes induction =>
      rcases search_cons_eq_none absent with ⟨different, absent⟩
      rw [entry_cons, if_neg different]
      exact induction absent

theorem entry_eq_of_search (found : search key nodes = some place) :
    entry key nodes = (nodes[place]?).map Node.value ∧ place < nodes.length := by
  induction nodes generalizing place with
  | nil => cases found
  | cons node nodes induction =>
      rw [search_cons] at found
      rw [entry_cons]
      by_cases same : node.key = key
      · rw [if_pos same] at found ⊢
        cases found
        exact ⟨rfl, Nat.zero_lt_succ _⟩
      · rw [if_neg same, Option.map_eq_some_iff] at found
        rcases found with ⟨earlier, found, rfl⟩
        rw [if_neg same]
        exact ⟨(induction found).1, Nat.succ_lt_succ (induction found).2⟩

theorem entry_modify (found : search key nodes = some place) (value : Value)
    (other : Key) :
    entry other (nodes.modify place fun node => { node with value := value }) =
      if other = key then some value else entry other nodes := by
  induction nodes generalizing place with
  | nil => cases found
  | cons node nodes induction =>
      rw [search_cons] at found
      by_cases same : node.key = key
      · rw [if_pos same] at found
        cases found
        rw [List.modify_zero_cons, entry_cons, entry_cons, same]
        by_cases asked : other = key
        · rw [if_pos asked.symm, if_pos asked]
        · rw [if_neg (Ne.symm asked), if_neg (Ne.symm asked), if_neg asked]
      · rw [if_neg same, Option.map_eq_some_iff] at found
        rcases found with ⟨earlier, found, rfl⟩
        rw [List.modify_succ_cons]
        exact entry_cons_congr same (induction found)

theorem entry_append (absent : search key nodes = none) (value : Value) (other : Key) :
    entry other (nodes ++ [⟨key, value⟩]) =
      if other = key then some value else entry other nodes := by
  induction nodes with
  | nil =>
      rw [List.nil_append, entry_cons]
      by_cases asked : other = key
      · rw [if_pos asked.symm, if_pos asked]
      · rw [if_neg (Ne.symm asked), if_neg asked]
  | cons node nodes induction =>
      rcases search_cons_eq_none absent with ⟨different, absent⟩
      rw [List.cons_append]
      exact entry_cons_congr different (induction absent)

theorem search_append (absent : search key nodes = none) (value : Value) :
    search key (nodes ++ [⟨key, value⟩]) = some nodes.length := by
  induction nodes with
  | nil => simp [search]
  | cons node nodes induction =>
      rcases search_cons_eq_none absent with ⟨different, absent⟩
      rw [List.cons_append, search_cons, if_neg different, induction absent]
      rfl

theorem entry_filter (key other : Key) (nodes : List (Node Key Value)) :
    entry other (nodes.filter fun node => decide (node.key ≠ key)) =
      if other = key then none else entry other nodes := by
  induction nodes with
  | nil => exact (ite_self _).symm
  | cons node nodes induction =>
      by_cases same : node.key = key
      · rw [List.filter_cons_of_neg (by simpa using same), induction, entry_cons, same]
        by_cases asked : other = key
        · rw [if_pos asked, if_pos asked]
        · rw [if_neg asked, if_neg asked, if_neg (Ne.symm asked)]
      · rw [List.filter_cons_of_pos (by simpa using same)]
        exact entry_cons_congr same induction

end Nodes

section Contents

variable {initBuckets : PowerOfTwo} {Key Value : Type} [DecidableEq Key]
  {hash : Key → Word64} {map : ChainingHashMap initBuckets Key Value}
  {key : Key} {place : Nat}

def contents (hash : Key → Word64) (map : ChainingHashMap initBuckets Key Value)
    (key : Key) : Option Value :=
  entry key (map.table (bucketOf initBuckets hash key))

omit [DecidableEq Key] in
theorem table_setBucket (map : ChainingHashMap initBuckets Key Value)
    (index other : Fin initBuckets.toNat) (nodes : List (Node Key Value)) :
    (map.setBucket index nodes).table other =
      if other = index then nodes else map.table other :=
  Function.update_apply _ _ _ _

theorem contents_setBucket {nodes : List (Node Key Value)} {found : Option Value}
    (changed : ∀ other, entry other nodes =
      if other = key then found
      else entry other (map.table (bucketOf initBuckets hash key))) :
    contents hash (map.setBucket (bucketOf initBuckets hash key) nodes) =
      Function.update (contents hash map) key found := by
  funext other
  rw [contents, table_setBucket, Function.update_apply]
  by_cases same : bucketOf initBuckets hash other = bucketOf initBuckets hash key
  · rw [if_pos same, changed, contents, same]
  · have asked : other ≠ key := by
      intro equal
      subst equal
      exact same rfl
    rw [if_neg same, if_neg asked, contents]

theorem contents_setValueAt
    (found : search key (map.table (bucketOf initBuckets hash key)) = some place)
    (value : Value) :
    contents hash (map.setValueAt (bucketOf initBuckets hash key, place) value) =
      Function.update (contents hash map) key (some value) :=
  contents_setBucket (entry_modify found value)

theorem contents_append
    (absent : search key (map.table (bucketOf initBuckets hash key)) = none)
    (value : Value) :
    contents hash (map.setBucket (bucketOf initBuckets hash key)
      (map.table (bucketOf initBuckets hash key) ++ [⟨key, value⟩])) =
      Function.update (contents hash map) key (some value) :=
  contents_setBucket (entry_append absent value)

theorem isSome_search (hash : Key → Word64)
    (map : ChainingHashMap initBuckets Key Value) (key : Key) :
    (search key (map.table (bucketOf initBuckets hash key))).isSome =
      (contents hash map key).isSome := by
  cases found : search key (map.table (bucketOf initBuckets hash key)) with
  | none =>
      rw [contents, entry_eq_none_of_search found]
      rfl
  | some place =>
      rcases entry_eq_of_search found with ⟨same, below⟩
      rw [contents, same, List.getElem?_eq_getElem below]
      rfl

theorem insert_spec (hash : Key → Word64) (map : ChainingHashMap initBuckets Key Value)
    (key : Key) (value : Value) :
    contents hash (map.insert hash key value) =
      Function.update (contents hash map) key (some value) := by
  unfold insert
  cases found : search key (map.table (bucketOf initBuckets hash key)) with
  | some place =>
      simp only [found]
      exact contents_setValueAt found value
  | none =>
      simp only [found]
      exact contents_append found value

theorem erase_spec (hash : Key → Word64) (map : ChainingHashMap initBuckets Key Value)
    (key : Key) :
    (map.erase hash key).1 = (contents hash map key).isSome ∧
      contents hash (map.erase hash key).2 =
        Function.update (contents hash map) key none := by
  rw [← isSome_search]
  unfold erase
  cases found : search key (map.table (bucketOf initBuckets hash key)) with
  | some place =>
      simp only [found]
      exact ⟨rfl, contents_setBucket fun other => entry_filter key other _⟩
  | none =>
      have missing : contents hash map key = none := entry_eq_none_of_search found
      simp only [found]
      refine ⟨rfl, ?_⟩
      rw [← missing, Function.update_eq_self]

variable [Inhabited Value]

theorem valueAt_of_search
    (found : search key (map.table (bucketOf initBuckets hash key)) = some place) :
    contents hash map key = some (map.valueAt (bucketOf initBuckets hash key, place)) := by
  rcases entry_eq_of_search found with ⟨same, below⟩
  rw [contents, same, valueAt, List.getElem?_eq_getElem below]
  rfl

/-- `operator[]` refers to the value of the key, a default one when the key is new. -/
theorem operatorIndex_spec (hash : Key → Word64)
    (map : ChainingHashMap initBuckets Key Value) (key : Key) :
    (map.operatorIndex hash key).2.valueAt (map.operatorIndex hash key).1 =
        (contents hash map key).getD default ∧
      contents hash (map.operatorIndex hash key).2 =
        Function.update (contents hash map) key
          (some ((contents hash map key).getD default)) ∧
      ∀ value, contents hash
        ((map.operatorIndex hash key).2.setValueAt (map.operatorIndex hash key).1 value) =
          Function.update (contents hash map) key (some value) := by
  unfold operatorIndex
  cases found : search key (map.table (bucketOf initBuckets hash key)) with
  | some place =>
      have present := valueAt_of_search found
      simp only [found]
      refine ⟨by rw [present]; rfl, ?_, contents_setValueAt found⟩
      rw [present, Option.getD_some, ← present, Function.update_eq_self]
  | none =>
      have missing : contents hash map key = none := entry_eq_none_of_search found
      have grown := contents_append found default
      have last : search key ((map.setBucket (bucketOf initBuckets hash key)
          (map.table (bucketOf initBuckets hash key) ++ [⟨key, default⟩])).table
            (bucketOf initBuckets hash key)) =
          some (map.table (bucketOf initBuckets hash key)).length := by
        rw [table_setBucket, if_pos rfl]
        exact search_append found default
      simp only [found, missing, Option.getD_none]
      refine ⟨?_, grown, fun value => ?_⟩
      · simp [valueAt, table_setBucket]
      · have written := contents_setValueAt last value
        rw [grown, Function.update_idem] at written
        exact written

/-- Every call does what it does to a finite map. -/
theorem apply_spec (hash : Key → Word64) (map : ChainingHashMap initBuckets Key Value)
    (operation : Operation Key Value) :
    (map.apply hash operation).1 = (FiniteMap.apply (contents hash map) operation).1 ∧
      contents hash (map.apply hash operation).2 =
        (FiniteMap.apply (contents hash map) operation).2 := by
  cases operation with
  | insert key value => exact ⟨rfl, insert_spec hash map key value⟩
  | read key =>
      rcases operatorIndex_spec hash map key with ⟨value, kept, _⟩
      exact ⟨congrArg Result.value value, kept⟩
  | assign key value => exact ⟨rfl, (operatorIndex_spec hash map key).2.2 value⟩
  | contains key => exact ⟨congrArg Result.flag (isSome_search hash map key), rfl⟩
  | erase key =>
      rcases erase_spec hash map key with ⟨flag, kept⟩
      exact ⟨congrArg Result.flag flag, kept⟩
  | find key =>
      refine ⟨congrArg Result.pointer ?_, rfl⟩
      unfold find
      cases found : search key (map.table (bucketOf initBuckets hash key)) with
      | some place =>
          simp only [found]
          exact (valueAt_of_search found).symm
      | none =>
          simp only [found]
          exact (entry_eq_none_of_search found).symm

end Contents

end ChainingHashMap

end FeederNet.HashMap
