import FeederNet.Foundation.LinkedChain
import FeederNet.Foundation.Ownership
import FeederNet.HashMap.FixedSizedChainingHashMap

/-! # Nodes of FixedSizedChainingHashMap

Each node is in one chain or on the free stack. All calls keep this, also `insert` of a
key that is there already.
-/

namespace FeederNet.HashMap.FixedSizedChainingHashMap

variable {initBuckets : PowerOfTwo} {Key Value : Type}

/-- `chains` are the nodes of the buckets in order, and the key of a node belongs to its
bucket. -/
structure Placed (hash : Key → Word64)
    (map : FixedSizedChainingHashMap initBuckets Key Value)
    (chains : Fin initBuckets.toNat → List Nat) : Prop where
  chain : ∀ bucket, Chain (fun node => (map.nodesPool node).next) (map.buckets bucket)
    (chains bucket)
  stock : Partition chains map.freeNodes (Multiset.range (poolSize initBuckets))
  hashed : ∀ bucket, ∀ node ∈ chains bucket,
    bucketOf initBuckets hash (map.nodesPool node).key = bucket

section Walk

variable {hash : Key → Word64} {map : FixedSizedChainingHashMap initBuckets Key Value}
  {key : Key} {chains : Fin initBuckets.toNat → List Nat}

inductive Walks (map : FixedSizedChainingHashMap initBuckets Key Value) (key : Key) :
    List Nat → Option Nat → Option Nat × Option Nat → Prop
  | found {front back : List Nat} {node : Nat} {previous : Option Nat}
      (passed : ∀ earlier ∈ front, (map.nodesPool earlier).key ≠ key)
      (holds : (map.nodesPool node).key = key) :
      Walks map key (front ++ node :: back) previous (front.getLast?.or previous, some node)
  | absent {nodes : List Nat} {previous : Option Nat}
      (passed : ∀ node ∈ nodes, (map.nodesPool node).key ≠ key) :
      Walks map key nodes previous (nodes.getLast?.or previous, none)

theorem Walks.skip {nodes : List Nat} {node : Nat} {previous : Option Nat}
    {result : Option Nat × Option Nat} (different : (map.nodesPool node).key ≠ key)
    (walks : Walks map key nodes (some node) result) :
    Walks map key (node :: nodes) previous result := by
  have last : ∀ front : List Nat, front.getLast?.or (some node) =
      (node :: front).getLast?.or previous := fun front => by
    rw [List.getLast?_cons]
    cases front.getLast? <;> rfl
  cases walks with
  | found passed holds =>
      rw [last]
      exact .found (List.forall_mem_cons.mpr ⟨different, passed⟩) holds
  | absent passed =>
      rw [last]
      exact .absent (List.forall_mem_cons.mpr ⟨different, passed⟩)

variable [DecidableEq Key] in
theorem exists_walk {nodes : List Nat} {start : Option Nat} (steps : Nat)
    (previous : Option Nat)
    (chain : Chain (fun node => (map.nodesPool node).next) start nodes)
    (enough : nodes.length ≤ steps) :
    ∃ result, Walks map key nodes previous result ∧
      map.walk key steps previous start = .ok result := by
  induction nodes generalizing start steps previous with
  | nil =>
      cases chain
      refine ⟨_, .absent nofun, ?_⟩
      rw [walk]
      rfl
  | cons node rest induction =>
      rcases chain with ⟨rfl, chain⟩
      cases steps with
      | zero => cases enough
      | succ steps =>
          rw [walk]
          by_cases holds : (map.nodesPool node).key = key
          · rw [if_pos holds]
            have walks : Walks map key ([] ++ node :: rest) previous
                (([] : List Nat).getLast?.or previous, some node) := .found nofun holds
            exact ⟨_, walks, rfl⟩
          · rw [if_neg holds]
            rcases induction steps (some node) chain (Nat.le_of_succ_le_succ enough) with
              ⟨result, walks, equal⟩
            exact ⟨result, walks.skip holds, equal⟩

theorem Placed.length_le (placed : Placed hash map chains)
    (bucket : Fin initBuckets.toNat) : (chains bucket).length ≤ poolSize initBuckets := by
  have short := placed.stock.length_le bucket
  rw [Multiset.card_range] at short
  exact short

variable [DecidableEq Key] in
theorem Placed.exists_lookup (placed : Placed hash map chains) (key : Key) :
    ∃ result, Walks map key (chains (bucketOf initBuckets hash key)) none result ∧
      map.lookup hash key = .ok result :=
  exists_walk _ none (placed.chain _) (placed.length_le _)

end Walk

/-! ## Writing nodes -/

section Write

variable {hash : Key → Word64} {map : FixedSizedChainingHashMap initBuckets Key Value}
  {key : Key} {chains : Fin initBuckets.toNat → List Nat}

theorem Placed.not_free (placed : Placed hash map chains)
    {bucket : Fin initBuckets.toNat} {node : Nat} (member : node ∈ chains bucket) :
    node ∉ map.freeNodes :=
  placed.stock.not_mem_shared_of_owned (Multiset.nodup_range _) member

theorem Placed.bucket_unique (placed : Placed hash map chains)
    {left right : Fin initBuckets.toNat} {node : Nat} (inLeft : node ∈ chains left)
    (inRight : node ∈ chains right) : left = right :=
  placed.stock.owner_unique (Multiset.nodup_range _) inLeft inRight

theorem Placed.update (placed : Placed hash map chains)
    {next : FixedSizedChainingHashMap initBuckets Key Value}
    {bucket : Fin initBuckets.toNat} {nodes : List Nat}
    (heads : ∀ other ≠ bucket, next.buckets other = map.buckets other)
    (untouched : ∀ other ≠ bucket, ∀ node ∈ chains other,
      next.nodesPool node = map.nodesPool node)
    (chain : Chain (fun node => (next.nodesPool node).next) (next.buckets bucket) nodes)
    (moved : (nodes : Multiset Nat) + next.freeNodes =
      (chains bucket : Multiset Nat) + map.freeNodes)
    (hashed : ∀ node ∈ nodes,
      bucketOf initBuckets hash (next.nodesPool node).key = bucket) :
    Placed hash next (Function.update chains bucket nodes) where
  chain other := by
    by_cases same : other = bucket
    · subst same
      rw [Function.update_self]
      exact chain
    · rw [Function.update_of_ne same, heads other same]
      refine (placed.chain other).congr fun node member => ?_
      rw [untouched other same node member]
  stock := (placed.stock.update_iff bucket nodes next.freeNodes).mpr moved
  hashed other := by
    by_cases same : other = bucket
    · subst same
      rw [Function.update_self]
      exact hashed
    · rw [Function.update_of_ne same]
      intro node member
      rw [untouched other same node member]
      exact placed.hashed other node member

theorem nodesPool_setNext (node : Nat) (next : Option Nat) :
    (map.setNext node next).nodesPool =
      Function.update map.nodesPool node { map.nodesPool node with next := next } :=
  rfl

theorem nodesPool_setValueAt (node : Nat) (value : Value) :
    (map.setValueAt node value).nodesPool =
      Function.update map.nodesPool node { map.nodesPool node with value := value } :=
  rfl

@[simp] theorem setNext_key (node other : Nat) (next : Option Nat) :
    ((map.setNext node next).nodesPool other).key = (map.nodesPool other).key := by
  by_cases same : other = node
  · subst same
    rw [nodesPool_setNext, Function.update_self]
  · rw [nodesPool_setNext, Function.update_of_ne same]

@[simp] theorem setNext_value (node other : Nat) (next : Option Nat) :
    ((map.setNext node next).nodesPool other).value = (map.nodesPool other).value := by
  by_cases same : other = node
  · subst same
    rw [nodesPool_setNext, Function.update_self]
  · rw [nodesPool_setNext, Function.update_of_ne same]

theorem setNext_of_ne {node other : Nat} (next : Option Nat) (different : other ≠ node) :
    (map.setNext node next).nodesPool other = map.nodesPool other := by
  rw [nodesPool_setNext, Function.update_of_ne different]

theorem setNext_next (node : Nat) (next : Option Nat) :
    ((map.setNext node next).nodesPool node).next = next := by
  rw [nodesPool_setNext, Function.update_self]

@[simp] theorem setValueAt_key (node other : Nat) (value : Value) :
    ((map.setValueAt node value).nodesPool other).key = (map.nodesPool other).key := by
  by_cases same : other = node
  · subst same
    rw [nodesPool_setValueAt, Function.update_self]
  · rw [nodesPool_setValueAt, Function.update_of_ne same]

@[simp] theorem setValueAt_next (node other : Nat) (value : Value) :
    ((map.setValueAt node value).nodesPool other).next =
      (map.nodesPool other).next := by
  by_cases same : other = node
  · subst same
    rw [nodesPool_setValueAt, Function.update_self]
  · rw [nodesPool_setValueAt, Function.update_of_ne same]

theorem Placed.setValueAt (placed : Placed hash map chains) (node : Nat) (value : Value) :
    Placed hash (map.setValueAt node value) chains where
  chain bucket := by
    refine (placed.chain bucket).congr fun other _ => ?_
    rw [setValueAt_next]
  stock := placed.stock
  hashed bucket other inside := by
    rw [setValueAt_key]
    exact placed.hashed bucket other inside

end Write

/-! ## The calls -/

section Calls

variable {hash : Key → Word64} {map : FixedSizedChainingHashMap initBuckets Key Value}
  {key : Key} {chains : Fin initBuckets.toNat → List Nat}

theorem placed_construct [Inhabited Key] [Inhabited Value] (hash : Key → Word64) :
    Placed hash (construct : FixedSizedChainingHashMap initBuckets Key Value)
      fun _ => [] := by
  refine ⟨fun _ => rfl, ?_, nofun⟩
  rw [Partition, construct]
  simp [Multiset.range]

/-- A node of the free stack has been filled and put at the end of the chain of its
key. -/
structure Appended (hash : Key → Word64)
    (map : FixedSizedChainingHashMap initBuckets Key Value)
    (chains : Fin initBuckets.toNat → List Nat) (key : Key) (value : Value)
    (newNode : Nat) (next : FixedSizedChainingHashMap initBuckets Key Value) : Prop where
  free : map.freeNodes = newNode :: next.freeNodes
  heads : ∀ other ≠ bucketOf initBuckets hash key,
    next.buckets other = map.buckets other
  untouched : ∀ other ≠ bucketOf initBuckets hash key, ∀ node ∈ chains other,
    next.nodesPool node = map.nodesPool node
  kept : ∀ bucket, ∀ node ∈ chains bucket,
    (next.nodesPool node).key = (map.nodesPool node).key ∧
      (next.nodesPool node).value = (map.nodesPool node).value
  filled : (next.nodesPool newNode).key = key ∧ (next.nodesPool newNode).value = value
  chain : Chain (fun node => (next.nodesPool node).next)
    (next.buckets (bucketOf initBuckets hash key))
    (chains (bucketOf initBuckets hash key) ++ [newNode])

theorem Appended.stock {newNode : Nat} {value : Value}
    {next : FixedSizedChainingHashMap initBuckets Key Value}
    (appended : Appended hash map chains key value newNode next)
    (stock : Partition chains map.freeNodes (Multiset.range (poolSize initBuckets))) :
    Partition (Function.update chains (bucketOf initBuckets hash key)
      (chains (bucketOf initBuckets hash key) ++ [newNode])) next.freeNodes
      (Multiset.range (poolSize initBuckets)) := by
  apply (stock.update_iff _ _ next.freeNodes).mpr
  rw [appended.free, Multiset.coe_add, Multiset.coe_add, List.append_assoc]
  rfl

theorem Placed.ne_free (placed : Placed hash map chains) {newNode : Nat}
    {freeNodes : List Nat} (free : map.freeNodes = newNode :: freeNodes)
    {bucket : Fin initBuckets.toNat} {node : Nat} (member : node ∈ chains bucket) :
    node ≠ newNode := by
  intro equal
  subst equal
  exact placed.not_free member (by rw [free]; exact List.mem_cons_self)

theorem Placed.append_head (placed : Placed hash map chains) {newNode : Nat}
    {freeNodes : List Nat} (free : map.freeNodes = newNode :: freeNodes)
    (empty : chains (bucketOf initBuckets hash key) = []) (value : Value) :
    Appended hash map chains key value newNode { map with
      freeNodes := freeNodes
      nodesPool := Function.update map.nodesPool newNode ⟨key, value, none⟩
      buckets := Function.update map.buckets (bucketOf initBuckets hash key)
        (some newNode) } where
  free := free
  heads bucket different := Function.update_of_ne different _ _
  untouched bucket _ node member := Function.update_of_ne (placed.ne_free free member) _ _
  kept bucket node member := by
    simp only [Function.update_of_ne (placed.ne_free free member), and_self]
  filled := by simp only [Function.update_self, and_self]
  chain := by
    rw [empty]
    simp only [Function.update_self, List.nil_append]
    exact ⟨rfl, by simp only [Function.update_self]; rfl⟩

theorem Placed.append_last (placed : Placed hash map chains) {newNode : Nat}
    {freeNodes : List Nat} (free : map.freeNodes = newNode :: freeNodes)
    {front : List Nat} {previous : Nat}
    (ends : chains (bucketOf initBuckets hash key) = front ++ [previous])
    (value : Value) :
    Appended hash map chains key value newNode
      (setNext { map with
        freeNodes := freeNodes
        nodesPool := Function.update map.nodesPool newNode ⟨key, value, none⟩ }
        previous (some newNode)) where
  free := free
  heads _ _ := rfl
  untouched bucket different node member := by
    have apart : node ≠ previous := by
      intro equal
      subst equal
      refine different (placed.bucket_unique member ?_)
      rw [ends]
      exact List.mem_append_right _ (List.mem_singleton_self node)
    rw [setNext_of_ne _ apart]
    exact Function.update_of_ne (placed.ne_free free member) _ _
  kept bucket node member := by
    rw [setNext_key, setNext_value]
    simp only [Function.update_of_ne (placed.ne_free free member), and_self]
  filled := by
    rw [setNext_key, setNext_value]
    simp only [Function.update_self, and_self]
  chain := by
    have start := placed.chain (bucketOf initBuckets hash key)
    have inside : previous ∈ chains (bucketOf initBuckets hash key) := by
      rw [ends]
      exact List.mem_append_right _ (List.mem_singleton_self previous)
    have before : newNode ≠ previous := (placed.ne_free free inside).symm
    rw [ends] at start
    rw [ends, List.append_assoc]
    refine Chain.relink start ?_ ⟨setNext_next _ _, ?_⟩
    · intro earlier member
      have apart : earlier ≠ previous := by
        intro equal
        subst equal
        have separate := List.disjoint_of_nodup_append start.nodup
        exact separate member (List.mem_singleton_self earlier)
      have known : earlier ∈ chains (bucketOf initBuckets hash key) := by
        rw [ends]
        exact List.mem_append_left _ member
      rw [setNext_of_ne _ apart]
      simp only [Function.update_of_ne (placed.ne_free free known)]
    · apply Chain.nil_iff.mpr
      simp only [setNext_of_ne _ before, Function.update_self]
theorem Appended.placed (placed : Placed hash map chains) {newNode : Nat} {value : Value}
    {next : FixedSizedChainingHashMap initBuckets Key Value}
    (appended : Appended hash map chains key value newNode next) :
    Placed hash next (Function.update chains (bucketOf initBuckets hash key)
      (chains (bucketOf initBuckets hash key) ++ [newNode])) := by
  have moved := (placed.stock.update_iff _ _ _).mp (appended.stock placed.stock)
  apply placed.update appended.heads appended.untouched appended.chain moved
  intro node member
  rcases List.mem_append.mp member with before | last
  · rw [(appended.kept _ node before).1]
    exact placed.hashed _ node before
  · rw [List.mem_singleton.mp last, appended.filled.1]

theorem tail_of_chain {steps node last : Nat} {front : List Nat}
    (chain : Chain (fun node => (map.nodesPool node).next) (some node) (front ++ [last]))
    (enough : front.length < steps) : map.tail steps node = .ok last := by
  induction front generalizing node steps with
  | nil =>
      cases steps with
      | zero => cases enough
      | succ steps =>
          rcases chain with ⟨same, ends⟩
          cases same
          have ends : (map.nodesPool last).next = none := ends
          rw [tail, ends]
  | cons head front induction =>
      cases steps with
      | zero => cases enough
      | succ steps =>
          rcases chain with ⟨same, rest⟩
          cases same
          have rest : Chain (fun node => (map.nodesPool node).next)
            (map.nodesPool head).next (front ++ [last]) := rest
          rcases rest.exists_start with ⟨next, links⟩
          rw [links] at rest
          rw [tail, links]
          exact induction rest (Nat.lt_of_succ_lt_succ enough)

/-- `insert` takes the top of the free stack also for a key that is there. -/
theorem Placed.insert (placed : Placed hash map chains) {newNode : Nat}
    {freeNodes : List Nat} (free : map.freeNodes = newNode :: freeNodes) (key : Key)
    (value : Value) :
    ∃ next, map.insert hash key value = .ok next ∧
      Appended hash map chains key value newNode next := by
  have start := placed.chain (bucketOf initBuckets hash key)
  rw [FixedSizedChainingHashMap.insert]
  simp only [free]
  rcases (chains (bucketOf initBuckets hash key)).eq_nil_or_concat with
    empty | ⟨front, previous, ends⟩
  · rw [empty] at start
    have head : map.buckets (bucketOf initBuckets hash key) = none := start
    simp only [head]
    exact ⟨_, rfl, placed.append_head free empty value⟩
  · rw [List.concat_eq_append] at ends
    rw [ends] at start
    rcases start.exists_start with ⟨head, headed⟩
    have taken : Chain (fun node => (Function.update map.nodesPool newNode
        ⟨key, value, none⟩ node).next) (some head) (front ++ [previous]) := by
      rw [← headed]
      apply start.congr
      intro node member
      rw [← ends] at member
      rw [Function.update_of_ne (placed.ne_free free member)]
    have short := placed.length_le (bucketOf initBuckets hash key)
    rw [ends, List.length_append, List.length_singleton] at short
    have reaches : tail { map with
        freeNodes := freeNodes
        nodesPool := Function.update map.nodesPool newNode ⟨key, value, none⟩ }
        (poolSize initBuckets) head = .ok previous := tail_of_chain taken short
    simp only [headed, reaches]
    exact ⟨_, rfl, placed.append_last free ends value⟩

theorem Placed.insert_or_throw (placed : Placed hash map chains) (key : Key)
    (value : Value) :
    (map.freeNodes = [] ∧ map.insert hash key value = .error .noFreeNodes) ∨
    ∃ next nextChains, map.insert hash key value = .ok next ∧
      Placed hash next nextChains := by
  cases free : map.freeNodes with
  | nil =>
      refine .inl ⟨rfl, ?_⟩
      rw [FixedSizedChainingHashMap.insert]
      simp only [free]
  | cons newNode freeNodes =>
      rcases placed.insert free key value with ⟨next, inserts, appended⟩
      exact .inr ⟨next, _, inserts, appended.placed placed⟩

theorem Placed.exists_tail (placed : Placed hash map chains)
    {bucket : Fin initBuckets.toNat} {node : Nat} (starts : map.buckets bucket = some node) :
    ∃ last, map.tail (poolSize initBuckets) node = .ok last := by
  have start := placed.chain bucket
  have short := placed.length_le bucket
  rcases (chains bucket).eq_nil_or_concat with empty | ⟨front, last, ends⟩
  · rw [empty, Chain.nil_iff, starts] at start
    cases start
  · rw [List.concat_eq_append] at ends
    rw [ends, starts] at start
    rw [ends, List.length_append, List.length_singleton] at short
    exact ⟨last, tail_of_chain start short⟩

variable [DecidableEq Key]

theorem Placed.operatorIndex_append [Inhabited Value] (placed : Placed hash map chains)
    {newNode : Nat} {freeNodes : List Nat} (free : map.freeNodes = newNode :: freeNodes)
    (looks : map.lookup hash key =
      .ok ((chains (bucketOf initBuckets hash key)).getLast?.or none, none)) :
    ∃ next, map.operatorIndex hash key = .ok (newNode, next) ∧
      Appended hash map chains key default newNode next := by
  have start := placed.chain (bucketOf initBuckets hash key)
  rw [operatorIndex, looks]
  simp only [free]
  rcases (chains (bucketOf initBuckets hash key)).eq_nil_or_concat with
    empty | ⟨front, previous, ends⟩
  · rw [empty] at start
    have head : map.buckets (bucketOf initBuckets hash key) = none := start
    simp only [head]
    exact ⟨_, rfl, placed.append_head free empty default⟩
  · rw [List.concat_eq_append] at ends
    rw [ends] at start
    rcases start.exists_start with ⟨head, headed⟩
    have last : (chains (bucketOf initBuckets hash key)).getLast?.or none =
        some previous := by
      rw [ends, List.getLast?_concat]
      rfl
    simp only [headed, last]
    exact ⟨_, rfl, placed.append_last free ends default⟩

structure Unlinked (hash : Key → Word64)
    (map : FixedSizedChainingHashMap initBuckets Key Value) (key : Key)
    (front back : List Nat) (node : Nat)
    (next : FixedSizedChainingHashMap initBuckets Key Value) : Prop where
  pushed : next.freeNodes = node :: map.freeNodes
  heads : ∀ other ≠ bucketOf initBuckets hash key,
    next.buckets other = map.buckets other
  untouched : ∀ other ∉ front, next.nodesPool other = map.nodesPool other
  kept : ∀ node, (next.nodesPool node).key = (map.nodesPool node).key ∧
    (next.nodesPool node).value = (map.nodesPool node).value
  chain : Chain (fun node => (next.nodesPool node).next)
    (next.buckets (bucketOf initBuckets hash key)) (front ++ back)

theorem erase_of_chain {front back : List Nat} {node : Nat}
    (start : Chain (fun node => (map.nodesPool node).next)
      (map.buckets (bucketOf initBuckets hash key)) (front ++ node :: back))
    (looks : map.lookup hash key = .ok (front.getLast?.or none, some node)) :
    ∃ next, map.erase hash key = .ok (true, next) ∧
      Unlinked hash map key front back node next := by
  have nodup := start.nodup
  have continued := start.suffix.2
  rw [FixedSizedChainingHashMap.erase, looks]
  rcases front.eq_nil_or_concat with rfl | ⟨earlier, prev, rfl⟩
  · refine ⟨_, rfl, rfl, ?_, fun _ _ => rfl, fun _ => ⟨rfl, rfl⟩, ?_⟩
    · exact fun bucket different => Function.update_of_ne different _ _
    · simp only [List.getLast?_nil, Option.or_none, Function.update_self, List.nil_append]
      exact continued
  · rw [List.concat_eq_append] at start nodup ⊢
    rw [List.getLast?_concat]
    refine ⟨_, rfl, rfl, fun _ _ => rfl, ?_, ?_, ?_⟩
    · intro other outside
      apply setNext_of_ne
      intro equal
      subst equal
      exact outside (List.mem_append_right _ (List.mem_singleton_self _))
    · exact fun other => ⟨setNext_key _ _ _, setNext_value _ _ _⟩
    · rw [← List.append_cons] at start nodup ⊢
      have separate := (List.nodup_append.mp nodup).2.2
      apply start.relink
      · intro other member
        have apart : other ≠ prev := separate other member prev List.mem_cons_self
        exact congrArg Node.next (setNext_of_ne _ apart)
      · have last : ((map.setNext prev (map.nodesPool node).next).nodesPool prev).next =
            (map.nodesPool node).next := setNext_next _ _
        refine last.symm ▸ continued.congr fun other member => ?_
        have apart : other ≠ prev := by
          intro equal
          subst equal
          rw [List.nodup_append, List.nodup_cons] at nodup
          exact nodup.2.1.1 (List.mem_cons_of_mem _ member)
        exact congrArg Node.next (setNext_of_ne _ apart)

theorem mem_of_split {nodes front back : List Nat} {node other : Nat}
    (split : nodes = front ++ node :: back) (member : other ∈ front ++ back) :
    other ∈ nodes := by
  rw [split]
  exact ((List.sublist_cons_self node back).append_left front).subset member

omit [DecidableEq Key] in
theorem Unlinked.placed (placed : Placed hash map chains) {front back : List Nat}
    {node : Nat}
    (split : chains (bucketOf initBuckets hash key) = front ++ node :: back)
    {next : FixedSizedChainingHashMap initBuckets Key Value}
    (unlinked : Unlinked hash map key front back node next) :
    Placed hash next
      (Function.update chains (bucketOf initBuckets hash key) (front ++ back)) := by
  have before : ∀ other ∈ front ++ back,
      other ∈ chains (bucketOf initBuckets hash key) := fun _ => mem_of_split split
  apply placed.update unlinked.heads _ unlinked.chain
  · rw [unlinked.pushed, split, Multiset.coe_add, Multiset.coe_add, Multiset.coe_eq_coe]
    simp only [List.append_assoc, List.cons_append]
    exact (List.Perm.append_left front List.perm_middle)
  · intro other member
    rw [(unlinked.kept other).1]
    exact placed.hashed _ other (before other member)
  · intro bucket different other member
    apply unlinked.untouched
    intro inFront
    have here := before other (List.mem_append_left _ inFront)
    exact different (placed.bucket_unique member here)

theorem Placed.operatorIndex_spec [Inhabited Value] (placed : Placed hash map chains)
    (key : Key) :
    (∃ node ∈ chains (bucketOf initBuckets hash key), (map.nodesPool node).key = key ∧
      map.operatorIndex hash key = .ok (node, map)) ∨
    ((∀ node ∈ chains (bucketOf initBuckets hash key), (map.nodesPool node).key ≠ key) ∧
      ((map.freeNodes = [] ∧ map.operatorIndex hash key = .error .noFreeNodes) ∨
        ∃ newNode next, map.operatorIndex hash key = .ok (newNode, next) ∧
          Appended hash map chains key default newNode next)) := by
  rcases placed.exists_lookup key with ⟨result, walks, looks⟩
  generalize nodes : chains (bucketOf initBuckets hash key) = chain at walks ⊢
  cases walks with
  | @found front back node _ _ named =>
      refine .inl ⟨node, List.mem_append_cons_self, named, ?_⟩
      rw [operatorIndex, looks]
  | absent passed =>
      refine .inr ⟨passed, ?_⟩
      cases free : map.freeNodes with
      | nil =>
          refine .inl ⟨rfl, ?_⟩
          rw [operatorIndex, looks]
          simp only [free]
      | cons newNode freeNodes =>
          subst nodes
          exact .inr ⟨newNode, placed.operatorIndex_append free looks⟩

theorem Placed.operatorIndex_or_throw [Inhabited Value] (placed : Placed hash map chains)
    (key : Key) :
    (map.freeNodes = [] ∧ map.operatorIndex hash key = .error .noFreeNodes) ∨
    ∃ node next nextChains, map.operatorIndex hash key = .ok (node, next) ∧
      Placed hash next nextChains := by
  rcases placed.operatorIndex_spec key with
    ⟨node, _, _, returns⟩ | ⟨_, throws | ⟨newNode, next, returns, appended⟩⟩
  · exact .inr ⟨node, map, chains, returns, placed⟩
  · exact .inl throws
  · exact .inr ⟨newNode, next, _, returns, appended.placed placed⟩

theorem Placed.erase_spec (placed : Placed hash map chains) (key : Key) :
    ((∀ node ∈ chains (bucketOf initBuckets hash key), (map.nodesPool node).key ≠ key) ∧
      map.erase hash key = .ok (false, map)) ∨
    ∃ front node back next,
      chains (bucketOf initBuckets hash key) = front ++ node :: back ∧
        (map.nodesPool node).key = key ∧ map.erase hash key = .ok (true, next) ∧
          Unlinked hash map key front back node next := by
  rcases placed.exists_lookup key with ⟨result, walks, looks⟩
  have start := placed.chain (bucketOf initBuckets hash key)
  generalize chains (bucketOf initBuckets hash key) = chain at walks start ⊢
  cases walks with
  | absent passed =>
      refine .inl ⟨passed, ?_⟩
      rw [FixedSizedChainingHashMap.erase, looks]
  | @found front back node _ _ named =>
      rcases erase_of_chain start looks with ⟨next, erases, unlinked⟩
      exact .inr ⟨front, node, back, next, rfl, named, erases, unlinked⟩

theorem Placed.erase (placed : Placed hash map chains) (key : Key) :
    ∃ flag next nextChains, map.erase hash key = .ok (flag, next) ∧
      Placed hash next nextChains := by
  rcases placed.erase_spec key with
    ⟨_, erases⟩ | ⟨front, node, back, next, split, _, erases, unlinked⟩
  · exact ⟨false, map, chains, erases, placed⟩
  · exact ⟨true, next, _, erases, unlinked.placed placed split⟩

theorem Placed.contains_spec (placed : Placed hash map chains) (key : Key) :
    ∃ flag, map.contains hash key = .ok flag ∧
      (flag = true ↔ ∃ node ∈ chains (bucketOf initBuckets hash key),
        (map.nodesPool node).key = key) := by
  rcases placed.exists_lookup key with ⟨result, walks, looks⟩
  refine ⟨result.2.isSome, ?_, ?_⟩
  · rw [FixedSizedChainingHashMap.contains, looks]
  · generalize chains (bucketOf initBuckets hash key) = chain at walks ⊢
    cases walks with
    | found _ named => exact iff_of_true rfl ⟨_, List.mem_append_cons_self, named⟩
    | absent passed =>
        apply iff_of_false Bool.false_ne_true
        rintro ⟨node, member, named⟩
        exact passed node member named

end Calls

end FeederNet.HashMap.FixedSizedChainingHashMap
