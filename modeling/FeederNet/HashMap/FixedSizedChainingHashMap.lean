import FeederNet.Foundation.MachineWord
import Mathlib.Logic.Function.Basic

/-! # FixedSizedChainingHashMap

Nodes are indices into `nodesPool_`, and `nullptr` is `none`. A chain that is longer
than the pool runs in a circle.
-/

namespace FeederNet.HashMap

namespace FixedSizedChainingHashMap

structure Node (Key Value : Type) where
  key : Key
  value : Value
  next : Option Nat
  deriving DecidableEq, Repr

/-- Why a call yields nothing: the exception of `insert` and `operator[]`, a loop
that does not end, or a member access through `nullptr`. -/
inductive Fault
  | noFreeNodes
  | endless
  | nullPointer
  deriving DecidableEq, Repr

end FixedSizedChainingHashMap

/-- The map for one value of `Const::initBuckets`, which the constructor refuses
unless it is a power of two. The top of `freeNodes_` comes first. -/
structure FixedSizedChainingHashMap (initBuckets : PowerOfTwo) (Key Value : Type) where
  buckets : Fin initBuckets.toNat → Option Nat
  nodesPool : Nat → FixedSizedChainingHashMap.Node Key Value
  freeNodes : List Nat

namespace FixedSizedChainingHashMap

def poolSize (initBuckets : PowerOfTwo) : Nat := initBuckets.toNat * 16

section Code

variable {initBuckets : PowerOfTwo} {Key Value : Type} [DecidableEq Key]
  [Inhabited Key] [Inhabited Value]

def construct : FixedSizedChainingHashMap initBuckets Key Value where
  buckets _ := none
  nodesPool _ := ⟨default, default, none⟩
  freeNodes := (List.range (poolSize initBuckets)).reverse

def bucketOf (initBuckets : PowerOfTwo) (hash : Key → Word64) (key : Key) :
    Fin initBuckets.toNat :=
  ⟨(hash key &&& initBuckets.mask).toNat, initBuckets.and_mask_lt (hash key)⟩

def walk (map : FixedSizedChainingHashMap initBuckets Key Value) (key : Key) :
    Nat → Option Nat → Option Nat → Except Fault (Option Nat × Option Nat)
  | _, previous, none => .ok (previous, none)
  | 0, _, some _ => .error .endless
  | steps + 1, previous, some node =>
      if (map.nodesPool node).key = key then .ok (previous, some node)
      else map.walk key steps (some node) (map.nodesPool node).next

def tail (map : FixedSizedChainingHashMap initBuckets Key Value) :
    Nat → Nat → Except Fault Nat
  | 0, _ => .error .endless
  | steps + 1, node =>
      match (map.nodesPool node).next with
      | none => .ok node
      | some next => map.tail steps next

def setNext (map : FixedSizedChainingHashMap initBuckets Key Value) (node : Nat)
    (next : Option Nat) : FixedSizedChainingHashMap initBuckets Key Value :=
  { map with
    nodesPool :=
      Function.update map.nodesPool node { map.nodesPool node with next := next } }

variable (hash : Key → Word64)

def lookup (map : FixedSizedChainingHashMap initBuckets Key Value) (key : Key) :
    Except Fault (Option Nat × Option Nat) :=
  map.walk key (poolSize initBuckets) none
    (map.buckets (bucketOf initBuckets hash key))

def operatorIndex (map : FixedSizedChainingHashMap initBuckets Key Value) (key : Key) :
    Except Fault (Nat × FixedSizedChainingHashMap initBuckets Key Value) :=
  match map.lookup hash key with
  | .error fault => .error fault
  | .ok (_, some node) => .ok (node, map)
  | .ok (previous, none) =>
      match map.freeNodes with
      | [] => .error .noFreeNodes
      | newNode :: freeNodes =>
          let taken := { map with
            freeNodes := freeNodes
            nodesPool := Function.update map.nodesPool newNode ⟨key, default, none⟩ }
          match map.buckets (bucketOf initBuckets hash key), previous with
          | none, _ =>
              .ok (newNode, { taken with
                buckets :=
                  Function.update map.buckets (bucketOf initBuckets hash key)
                    (some newNode) })
          | some _, some previous =>
              .ok (newNode, taken.setNext previous (some newNode))
          | some _, none => .error .nullPointer

/-- Adds a node without looking for the key. -/
def insert (map : FixedSizedChainingHashMap initBuckets Key Value) (key : Key)
    (value : Value) : Except Fault (FixedSizedChainingHashMap initBuckets Key Value) :=
  match map.freeNodes with
  | [] => .error .noFreeNodes
  | current :: freeNodes =>
      let taken := { map with
        freeNodes := freeNodes
        nodesPool := Function.update map.nodesPool current ⟨key, value, none⟩ }
      match map.buckets (bucketOf initBuckets hash key) with
      | none =>
          .ok { taken with
            buckets :=
              Function.update map.buckets (bucketOf initBuckets hash key)
                (some current) }
      | some node =>
          match taken.tail (poolSize initBuckets) node with
          | .error fault => .error fault
          | .ok node => .ok (taken.setNext node (some current))

def contains (map : FixedSizedChainingHashMap initBuckets Key Value) (key : Key) :
    Except Fault Bool :=
  match map.lookup hash key with
  | .error fault => .error fault
  | .ok (_, node) => .ok node.isSome

def erase (map : FixedSizedChainingHashMap initBuckets Key Value) (key : Key) :
    Except Fault (Bool × FixedSizedChainingHashMap initBuckets Key Value) :=
  match map.lookup hash key with
  | .error fault => .error fault
  | .ok (_, none) => .ok (false, map)
  | .ok (prev, some node) =>
      let next := (map.nodesPool node).next
      let unlinked :=
        match prev with
        | none =>
            { map with
              buckets :=
                Function.update map.buckets (bucketOf initBuckets hash key) next }
        | some prev => map.setNext prev next
      .ok (true, { unlinked with freeNodes := node :: map.freeNodes })

def find (map : FixedSizedChainingHashMap initBuckets Key Value) (key : Key) :
    Except Fault (Option Nat) :=
  match map.lookup hash key with
  | .error fault => .error fault
  | .ok (_, node) => .ok node

def valueAt (map : FixedSizedChainingHashMap initBuckets Key Value) (node : Nat) :
    Value :=
  (map.nodesPool node).value

def setValueAt (map : FixedSizedChainingHashMap initBuckets Key Value) (node : Nat)
    (value : Value) : FixedSizedChainingHashMap initBuckets Key Value :=
  { map with
    nodesPool :=
      Function.update map.nodesPool node { map.nodesPool node with value := value } }

end Code

end FixedSizedChainingHashMap

end FeederNet.HashMap
