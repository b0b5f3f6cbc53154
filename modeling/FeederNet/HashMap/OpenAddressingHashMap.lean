import FeederNet.Foundation.MachineWord
import FeederNet.HashMap.FiniteMap
import FeederNet.HashMap.LoadFactor

/-! # OpenAddressingHashMap

The loops and the growth of the table take fuel: a call that does not end has no
result for any amount.
-/

namespace FeederNet.HashMap

/-- Why a call yields nothing: the exception of `operator[]`, an access outside
`table_`, or fuel that ran out. -/
inductive Fault
  | full
  | outOfRange
  | outOfFuel
  deriving DecidableEq, Repr

inductive Status
  | empty
  | occupied
  | deleted
  deriving DecidableEq, Repr

structure Node (Key Value : Type) where
  key : Key
  value : Value
  status : Status
  deriving DecidableEq, Repr

instance [Inhabited Key] [Inhabited Value] : Inhabited (Node Key Value) where
  default := ⟨default, default, .empty⟩

namespace Node

def isOccupied (node : Node Key Value) : Bool := node.status = .occupied

def isEmpty (node : Node Key Value) : Bool := node.status = .empty

def holds [DecidableEq Key] (key : Key) (node : Node Key Value) : Bool :=
  node.isOccupied && decide (node.key = key)

end Node

/-- `size` is `size_`. Indices are natural numbers: masking keeps them below `2 ^ 64`. -/
structure OpenAddressingHashMap (Key Value : Type) where
  table : List (Node Key Value)
  size : Nat
  mask : Nat
  deriving DecidableEq, Repr

namespace OpenAddressingHashMap

/-- `buckets - 1` in `size_t`. -/
def maskOf (buckets : Nat) : Nat := if buckets = 0 then 2 ^ 64 - 1 else buckets - 1

section Code

variable {Key Value : Type} [DecidableEq Key] [Inhabited Key] [Inhabited Value]

def construct (buckets : Nat) : OpenAddressingHashMap Key Value where
  table := List.replicate buckets default
  size := 0
  mask := maskOf buckets

variable (hash : Key → Word64) (load : LoadFactor)

def getHash (map : OpenAddressingHashMap Key Value) (key : Key) : Nat :=
  (hash key).toNat &&& map.mask

def next (map : OpenAddressingHashMap Key Value) (index : Nat) : Nat :=
  (index + 1) &&& map.mask

/-- The loops that stop when they are back at `originalIndex`: from `index` on, the
first slot that `stops` accepts. -/
def probe (map : OpenAddressingHashMap Key Value) (stops : Node Key Value → Bool)
    (originalIndex : Nat) : Nat → Nat → Except Fault (Option (Nat × Node Key Value))
  | 0, _ => .error .outOfFuel
  | fuel + 1, index =>
      match map.table[index]? with
      | none => .error .outOfRange
      | some node =>
          if stops node then .ok (some (index, node))
          else if map.next index = originalIndex then .ok none
          else map.probe stops originalIndex fuel (map.next index)

/-- The loop of `insert`, which has no such test. -/
def insertProbe (map : OpenAddressingHashMap Key Value) (key : Key) :
    Nat → Nat → Except Fault (Nat × Node Key Value)
  | 0, _ => .error .outOfFuel
  | fuel + 1, index =>
      match map.table[index]? with
      | none => .error .outOfRange
      | some node =>
          if !node.isOccupied || decide (node.key = key) then .ok (index, node)
          else map.insertProbe key fuel (map.next index)

def insertLoaded (fuel : Nat) (map : OpenAddressingHashMap Key Value) (key : Key)
    (value : Value) : Except Fault (OpenAddressingHashMap Key Value) :=
  match map.insertProbe key fuel (map.getHash hash key) with
  | .error fault => .error fault
  | .ok (index, node) =>
      if node.isOccupied then
        .ok { map with table := map.table.set index { node with value := value } }
      else
        .ok { map with
          table := map.table.set index ⟨key, value, .occupied⟩
          size := map.size + 1 }

def reHashWith
    (insert : OpenAddressingHashMap Key Value → Key → Value →
      Except Fault (OpenAddressingHashMap Key Value))
    (map : OpenAddressingHashMap Key Value) :
    Except Fault (OpenAddressingHashMap Key Value) :=
  map.table.foldlM
    (fun map node =>
      if node.isOccupied then insert map node.key node.value else .ok map)
    (construct (map.table.length * 2))

def insert : Nat → OpenAddressingHashMap Key Value → Key → Value →
    Except Fault (OpenAddressingHashMap Key Value)
  | 0, _, _, _ => .error .outOfFuel
  | fuel + 1, map, key, value =>
      if load.exceeded (map.size + 1) map.table.length then
        match reHashWith (insert fuel) map with
        | .error fault => .error fault
        | .ok map => map.insertLoaded hash fuel key value
      else map.insertLoaded hash fuel key value

def reHash (fuel : Nat) (map : OpenAddressingHashMap Key Value) :
    Except Fault (OpenAddressingHashMap Key Value) :=
  reHashWith (insert hash load fuel) map

def operatorIndex : Nat → OpenAddressingHashMap Key Value → Key →
    Except Fault (Nat × OpenAddressingHashMap Key Value)
  | 0, _, _ => .error .outOfFuel
  | fuel + 1, map, key =>
      match map.probe (fun node => !node.isOccupied || decide (node.key = key))
          (map.getHash hash key) fuel (map.getHash hash key) with
      | .error fault => .error fault
      | .ok none => .error .full
      | .ok (some (index, node)) =>
          if node.isOccupied then .ok (index, map)
          else if load.exceeded (map.size + 1) map.table.length then
            match map.reHash hash load fuel with
            | .error fault => .error fault
            | .ok map => operatorIndex fuel map key
          else
            .ok (index, { map with
              table := map.table.set index ⟨key, default, .occupied⟩
              size := map.size + 1 })

/-- The loop that `contains`, `erase` and `find` share. -/
def lookup (fuel : Nat) (map : OpenAddressingHashMap Key Value) (key : Key) :
    Except Fault (Option (Nat × Node Key Value)) :=
  match map.probe (fun node => node.isEmpty || node.holds key)
      (map.getHash hash key) fuel (map.getHash hash key) with
  | .error fault => .error fault
  | .ok none => .ok none
  | .ok (some (index, node)) =>
      if node.isEmpty then .ok none else .ok (some (index, node))

def contains (fuel : Nat) (map : OpenAddressingHashMap Key Value) (key : Key) :
    Except Fault Bool :=
  (map.lookup hash fuel key).map Option.isSome

def erase (fuel : Nat) (map : OpenAddressingHashMap Key Value) (key : Key) :
    Except Fault (Bool × OpenAddressingHashMap Key Value) :=
  (map.lookup hash fuel key).map fun
    | none => (false, map)
    | some (index, node) =>
        (true, { map with
          table := map.table.set index { node with status := .deleted }
          size := map.size - 1 })

def find (fuel : Nat) (map : OpenAddressingHashMap Key Value) (key : Key) :
    Except Fault (Option Nat) :=
  (map.lookup hash fuel key).map fun found => found.map Prod.fst

def nodeAt (map : OpenAddressingHashMap Key Value) (index : Nat) : Node Key Value :=
  (map.table[index]?).getD default

def valueAt (map : OpenAddressingHashMap Key Value) (index : Nat) : Value :=
  (map.nodeAt index).value

def setValueAt (map : OpenAddressingHashMap Key Value) (index : Nat) (value : Value) :
    OpenAddressingHashMap Key Value :=
  { map with table := map.table.modify index fun node => { node with value := value } }

def apply (fuel : Nat) (map : OpenAddressingHashMap Key Value) :
    Operation Key Value → Except Fault (Result Value × OpenAddressingHashMap Key Value)
  | .insert key value =>
      (insert hash load fuel map key value).map fun map => (.done, map)
  | .read key =>
      (operatorIndex hash load fuel map key).map fun (index, map) =>
        (.value (map.valueAt index), map)
  | .assign key value =>
      (operatorIndex hash load fuel map key).map fun (index, map) =>
        (.done, map.setValueAt index value)
  | .contains key => (map.contains hash fuel key).map fun flag => (.flag flag, map)
  | .erase key => (map.erase hash fuel key).map fun (flag, map) => (.flag flag, map)
  | .find key =>
      (map.find hash fuel key).map fun index => (.pointer (index.map map.valueAt), map)

structure Call (Key Value : Type) where
  before : OpenAddressingHashMap Key Value
  operation : Operation Key Value
  result : Result Value
  after : OpenAddressingHashMap Key Value
  deriving DecidableEq, Repr

def run (fuel : Nat) : OpenAddressingHashMap Key Value → List (Operation Key Value) →
    Except Fault (List (Call Key Value))
  | _, [] => .ok []
  | map, operation :: operations =>
      match map.apply hash load fuel operation with
      | .error fault => .error fault
      | .ok (result, after) =>
          match run fuel after operations with
          | .error fault => .error fault
          | .ok calls => .ok (⟨map, operation, result, after⟩ :: calls)

end Code

end OpenAddressingHashMap

end FeederNet.HashMap
