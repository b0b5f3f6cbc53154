import FeederNet.HashMap.ChainingHashMap
import FeederNet.HashMap.FixedSizedChainingHashMap.Bounded

/-! # The maps behind HashMap

`ChainingHashMap`, `FixedSizedChainingHashMap` and `STLHashMap` under one sequence of
calls. `std::unordered_map` is a finite map.
-/

namespace FeederNet.HashMap

variable {Key Value : Type} [DecidableEq Key]

/-! ## STLHashMap -/

structure STLHashMap (Key Value : Type) where
  map : Key → Option Value

namespace STLHashMap

def construct : STLHashMap Key Value where
  map _ := none

def assign (map : STLHashMap Key Value) (key : Key) (value : Value) :
    STLHashMap Key Value where
  map := Function.update map.map key (some value)

/-- `std::unordered_map::insert` leaves an element alone that is there. -/
def insert (map : STLHashMap Key Value) (key : Key) (value : Value) :
    STLHashMap Key Value :=
  if (map.map key).isSome then map else map.assign key value

def apply [Inhabited Value] (map : STLHashMap Key Value) :
    Operation Key Value → Result Value × STLHashMap Key Value
  | .insert key value => (.done, map.insert key value)
  | .read key =>
      let value := (map.map key).getD default
      (.value value, map.assign key value)
  | .assign key value => (.done, map.assign key value)
  | .contains key => (.flag (map.map key).isSome, map)
  | .erase key =>
      (.flag (map.map key).isSome, ⟨Function.update map.map key none⟩)
  | .find key => (.pointer (map.map key), map)

end STLHashMap

/-! ## FixedSizedChainingHashMap -/

namespace FixedSizedChainingHashMap

/-- A call on the map. One that throws for want of a free node changes nothing. -/
def apply [Inhabited Value] {initBuckets : PowerOfTwo} (hash : Key → Word64)
    (map : FixedSizedChainingHashMap initBuckets Key Value) :
    Operation Key Value →
      Except Fault (Result Value) × FixedSizedChainingHashMap initBuckets Key Value
  | .insert key value =>
      match map.insert hash key value with
      | .ok map => (.ok .done, map)
      | .error fault => (.error fault, map)
  | .read key =>
      match map.operatorIndex hash key with
      | .ok (node, map) => (.ok (.value (map.valueAt node)), map)
      | .error fault => (.error fault, map)
  | .assign key value =>
      match map.operatorIndex hash key with
      | .ok (node, map) => (.ok .done, map.setValueAt node value)
      | .error fault => (.error fault, map)
  | .contains key => ((map.contains hash key).map .flag, map)
  | .erase key =>
      match map.erase hash key with
      | .ok (flag, map) => (.ok (.flag flag), map)
      | .error fault => (.error fault, map)
  | .find key =>
      ((map.find hash key).map fun node => .pointer (node.map map.valueAt), map)

end FixedSizedChainingHashMap

/-! ## Sequences of calls -/

def AtMost (capacity : Nat) (contents : Key → Option Value) : Prop :=
  ∀ keys : Finset Key, (∀ key ∈ keys, (contents key).isSome = true) →
    keys.card ≤ capacity

variable [Inhabited Value]

def Within (capacity : Nat) : (Key → Option Value) → List (Operation Key Value) → Prop
  | _, [] => True
  | contents, operation :: operations =>
      AtMost capacity (FiniteMap.apply contents operation).2 ∧
        Within capacity (FiniteMap.apply contents operation).2 operations

def Reinserts (contents : Key → Option Value) : Operation Key Value → Prop
  | .insert key _ => (contents key).isSome = true
  | _ => False

def NeverReinserts : (Key → Option Value) → List (Operation Key Value) → Prop
  | _, [] => True
  | contents, operation :: operations =>
      ¬ Reinserts contents operation ∧
        NeverReinserts (FiniteMap.apply contents operation).2 operations

variable [Inhabited Key]

def Agree (initBuckets : PowerOfTwo) (hash : Key → Word64)
    (operations : List (Operation Key Value)) : Prop :=
  trace (FixedSizedChainingHashMap.apply hash)
      (FixedSizedChainingHashMap.construct : FixedSizedChainingHashMap initBuckets Key Value)
      operations =
    (trace (ChainingHashMap.apply hash)
      (ChainingHashMap.construct : ChainingHashMap initBuckets Key Value)
      operations).map .ok ∧
  trace STLHashMap.apply STLHashMap.construct operations =
    trace (ChainingHashMap.apply hash)
      (ChainingHashMap.construct : ChainingHashMap initBuckets Key Value) operations

/-- At no point of the sequence can the three maps be told apart by calls that insert
no key again. -/
def Interchangeable (initBuckets : PowerOfTwo) (hash : Key → Word64)
    (operations : List (Operation Key Value)) : Prop :=
  ∀ front rest more, operations = front ++ rest →
    Within (FixedSizedChainingHashMap.poolSize initBuckets) (fun _ => none)
      (front ++ more) →
    NeverReinserts (reach FiniteMap.apply (fun _ => none) front) more →
    Agree initBuckets hash (front ++ more)

/-! ## Agreement -/

section Agreement

variable {initBuckets : PowerOfTwo} {hash : Key → Word64}
  {contents : Key → Option Value} {operation : Operation Key Value}
  {operations front back : List (Operation Key Value)}

omit [Inhabited Key] in
theorem neverReinserts_append :
    NeverReinserts contents (front ++ back) ↔ NeverReinserts contents front ∧
      NeverReinserts (reach FiniteMap.apply contents front) back := by
  induction front generalizing contents with
  | nil => exact (and_iff_right trivial).symm
  | cons operation front induction =>
      rw [List.cons_append, NeverReinserts, NeverReinserts, induction, and_assoc]
      rfl

omit [Inhabited Key] in
theorem within_append {capacity : Nat} :
    Within capacity contents (front ++ back) ↔ Within capacity contents front ∧
      Within capacity (reach FiniteMap.apply contents front) back := by
  induction front generalizing contents with
  | nil => exact (and_iff_right trivial).symm
  | cons operation front induction =>
      rw [List.cons_append, Within, Within, induction, and_assoc]
      rfl

omit [Inhabited Value] [Inhabited Key] in
theorem exists_room
    {map : FixedSizedChainingHashMap initBuckets Key Value}
    (represents : FixedSizedChainingHashMap.Represents hash map contents) {key : Key}
    (missing : contents key = none) {value : Value}
    (atMost : AtMost (FixedSizedChainingHashMap.poolSize initBuckets)
      (Function.update contents key (some value))) : map.freeNodes ≠ [] := by
  intro empty
  rcases represents.exists_keys with ⟨keys, present, count⟩
  have outside : key ∉ keys := by
    rw [present, missing]
    exact Bool.false_ne_true
  have more := atMost (insert key keys) (by
    intro other member
    rw [Function.update_apply]
    by_cases same : other = key
    · rw [if_pos same]
      rfl
    · rw [if_neg same]
      exact (present other).mp ((Finset.mem_insert.mp member).resolve_left same))
  rw [Finset.card_insert_of_notMem outside] at more
  rw [empty, List.length_nil] at count
  omega

namespace FixedSizedChainingHashMap

omit [Inhabited Key] in
theorem Represents.apply_spec {map : FixedSizedChainingHashMap initBuckets Key Value}
    (represents : Represents hash map contents) (fresh : ¬ Reinserts contents operation)
    (atMost : AtMost (poolSize initBuckets) (FiniteMap.apply contents operation).2) :
    (map.apply hash operation).1 = .ok (FiniteMap.apply contents operation).1 ∧
      Represents hash (map.apply hash operation).2
        (FiniteMap.apply contents operation).2 := by
  cases operation with
  | insert key value =>
      have missing : contents key = none := Option.not_isSome_iff_eq_none.mp fresh
      rcases represents.insert missing (exists_room represents missing atMost) value with
        ⟨next, inserts, kept⟩
      rw [FixedSizedChainingHashMap.apply, inserts]
      exact ⟨rfl, kept⟩
  | read key =>
      rw [FixedSizedChainingHashMap.apply, FiniteMap.apply]
      cases found : contents key with
      | some value =>
          rcases represents.read found with ⟨node, returns, reads⟩
          rw [returns]
          refine ⟨by rw [← reads]; rfl, ?_⟩
          rw [Option.getD_some, ← found, Function.update_eq_self]
          exact represents
      | none =>
          rcases represents.readNew found (exists_room represents found atMost) with
            ⟨node, next, returns, reads, kept⟩
          rw [returns]
          exact ⟨by rw [Option.getD_none, ← reads], kept⟩
  | assign key value =>
      rw [FixedSizedChainingHashMap.apply]
      rcases represents.assign key with ⟨missing, full, _⟩ | ⟨node, next, returns, kept⟩
      · exact absurd full (exists_room represents missing atMost)
      · rw [returns]
        exact ⟨rfl, kept value⟩
  | contains key =>
      rw [FixedSizedChainingHashMap.apply, represents.contains]
      exact ⟨rfl, represents⟩
  | erase key =>
      rcases represents.erase key with ⟨next, erases, kept⟩
      rw [FixedSizedChainingHashMap.apply, erases]
      exact ⟨rfl, kept⟩
  | find key =>
      rcases represents.find key with ⟨node, finds, points⟩
      rw [FixedSizedChainingHashMap.apply, finds]
      refine ⟨?_, represents⟩
      rw [FiniteMap.apply, ← points]
      rfl

end FixedSizedChainingHashMap

omit [Inhabited Key] in
theorem STLHashMap.apply_spec (map : STLHashMap Key Value)
    (fresh : ¬ Reinserts map.map operation) :
    (map.apply operation).1 = (FiniteMap.apply map.map operation).1 ∧
      (map.apply operation).2.map = (FiniteMap.apply map.map operation).2 := by
  cases operation with
  | insert key value =>
      have missing : ¬ (map.map key).isSome = true := fresh
      rw [STLHashMap.apply, STLHashMap.insert, if_neg missing]
      exact ⟨rfl, rfl⟩
  | _ => exact ⟨rfl, rfl⟩

structure Related (hash : Key → Word64) (contents : Key → Option Value)
    (fixed : FixedSizedChainingHashMap initBuckets Key Value)
    (chaining : ChainingHashMap initBuckets Key Value) (stl : STLHashMap Key Value) :
    Prop where
  fixed : FixedSizedChainingHashMap.Represents hash fixed contents
  chaining : chaining.contents hash = contents
  stl : stl.map = contents

omit [Inhabited Value] in
theorem Related.construct [Inhabited Value] (initBuckets : PowerOfTwo)
    (hash : Key → Word64) :
    Related hash (fun _ => none)
      (FixedSizedChainingHashMap.construct : FixedSizedChainingHashMap initBuckets Key Value)
      ChainingHashMap.construct STLHashMap.construct where
  fixed := FixedSizedChainingHashMap.represents_construct hash
  chaining := rfl
  stl := rfl

variable {fixed : FixedSizedChainingHashMap initBuckets Key Value}
  {chaining : ChainingHashMap initBuckets Key Value} {stl : STLHashMap Key Value}

omit [Inhabited Key] in
theorem Related.run (related : Related hash contents fixed chaining stl)
    (fresh : NeverReinserts contents operations)
    (within : Within (FixedSizedChainingHashMap.poolSize initBuckets) contents
      operations) :
    trace (FixedSizedChainingHashMap.apply hash) fixed operations =
        (trace (ChainingHashMap.apply hash) chaining operations).map .ok ∧
      trace STLHashMap.apply stl operations =
        trace (ChainingHashMap.apply hash) chaining operations ∧
      Related hash (reach FiniteMap.apply contents operations)
        (reach (FixedSizedChainingHashMap.apply hash) fixed operations)
        (reach (ChainingHashMap.apply hash) chaining operations)
        (reach STLHashMap.apply stl operations) := by
  induction operations generalizing contents fixed chaining stl with
  | nil => exact ⟨rfl, rfl, related⟩
  | cons operation operations induction =>
      rcases related with ⟨represents, rfl, same⟩
      have first := represents.apply_spec fresh.1 within.1
      have second := chaining.apply_spec hash operation
      have third := stl.apply_spec (by rw [same]; exact fresh.1)
      rw [same] at third
      have next : Related hash (FiniteMap.apply (chaining.contents hash) operation).2
          (fixed.apply hash operation).2 (chaining.apply hash operation).2
          (stl.apply operation).2 := ⟨first.2, second.2, third.2⟩
      rcases induction next fresh.2 within.2 with ⟨fixedSame, stlSame, reached⟩
      refine ⟨?_, ?_, reached⟩
      · rw [trace, trace, List.map_cons, fixedSame, first.1, second.1]
      · rw [trace, trace, stlSame, third.1, second.1]

theorem agree_of_neverReinserts
    (within : Within (FixedSizedChainingHashMap.poolSize initBuckets) (fun _ => none)
      operations)
    (fresh : NeverReinserts (fun _ => none) operations) :
    Agree initBuckets hash operations := by
  rcases (Related.construct initBuckets hash).run fresh within with ⟨fixed, stl, _⟩
  exact ⟨fixed, stl⟩

/-! ## Insertion of a key that is present -/

omit [Inhabited Key] in
/-- After `erase`, `FixedSizedChainingHashMap` still contains the key, or it had no
node for it in the first place. -/
theorem Related.differs (related : Related hash contents fixed chaining stl) {key : Key}
    (present : (contents key).isSome = true) (value : Value) :
    trace (FixedSizedChainingHashMap.apply hash) fixed
        [.insert key value, .erase key, .contains key] ≠
      (trace (ChainingHashMap.apply hash) chaining
        [.insert key value, .erase key, .contains key]).map .ok := by
  intro same
  have last : trace (ChainingHashMap.apply hash) chaining
      [.insert key value, .erase key, .contains key] =
        [.done, .flag true, .flag false] := by
    have afterInsert := ChainingHashMap.insert_spec hash chaining key value
    have afterErase := ChainingHashMap.erase_spec hash (chaining.insert hash key value) key
    simp only [trace, ChainingHashMap.apply, ChainingHashMap.contains,
      ChainingHashMap.isSome_search, afterErase, afterInsert, Function.update_self,
      Option.isSome_some, Option.isSome_none]
  rw [last] at same
  by_cases room : fixed.freeNodes = []
  · have throws : fixed.insert hash key value = .error .noFreeNodes := by
      rw [FixedSizedChainingHashMap.insert]
      simp only [room]
    simp [trace, FixedSizedChainingHashMap.apply, throws] at same
  · rcases related.fixed.insert_present present room value with
      ⟨next, erased, inserts, erases, contained⟩
    simp [trace, FixedSizedChainingHashMap.apply, inserts, erases, contained,
      Except.map] at same

omit [Inhabited Key] in
theorem exists_reinsertion (reinserts : ¬ NeverReinserts contents operations) :
    ∃ front key value rest, operations = front ++ .insert key value :: rest ∧
      NeverReinserts contents front ∧
      (reach FiniteMap.apply contents front key).isSome = true := by
  induction operations generalizing contents with
  | nil => exact absurd trivial reinserts
  | cons operation operations induction =>
      by_cases here : Reinserts contents operation
      · cases operation with
        | insert key value => exact ⟨[], key, value, operations, rfl, trivial, here⟩
        | _ => cases here
      · rcases induction fun later => reinserts ⟨here, later⟩ with
          ⟨front, key, value, rest, rfl, fresh, present⟩
        exact ⟨operation :: front, key, value, rest, rfl, ⟨here, fresh⟩, present⟩

omit [Inhabited Key] [Inhabited Value] in
theorem AtMost.erase {capacity : Nat} (atMost : AtMost capacity contents) (key : Key) :
    AtMost capacity (Function.update contents key none) := by
  intro keys present
  apply atMost keys
  intro other member
  have some := present other member
  rw [Function.update_apply] at some
  split at some
  · cases some
  · exact some

/-- The maps agree for good exactly as long as `insert` is not called on a key that
is present. -/
theorem interchangeable_iff_neverReinserts (initBuckets : PowerOfTwo)
    (hash : Key → Word64) (operations : List (Operation Key Value))
    (within : Within (FixedSizedChainingHashMap.poolSize initBuckets) (fun _ => none)
      operations) :
    (NeverReinserts (fun _ => none) operations → Agree initBuckets hash operations) ∧
      (Interchangeable initBuckets hash operations ↔
        NeverReinserts (fun _ => none) operations) := by
  refine ⟨agree_of_neverReinserts within, ?_, ?_⟩
  · intro interchangeable
    by_contra reinserts
    rcases exists_reinsertion reinserts with ⟨front, key, value, rest, rfl, fresh, present⟩
    have split : front ++ .insert key value :: rest =
      (front ++ [.insert key value]) ++ rest := (List.append_assoc _ [_] _).symm
    rw [split, within_append] at within
    rcases within_append.mp within.1 with ⟨before, inserted, _⟩
    have bounded : Within (FixedSizedChainingHashMap.poolSize initBuckets) (fun _ => none)
        (front ++ [.insert key value, .erase key, .contains key]) := by
      have erased := inserted.erase key
      exact within_append.mpr ⟨before, inserted, erased, erased, trivial⟩
    have joined := List.append_assoc front [.insert key value] [.erase key, .contains key]
    rw [List.singleton_append] at joined
    have agree := interchangeable (front ++ [.insert key value]) rest
      [.erase key, .contains key] split (joined ▸ bounded) ⟨nofun, nofun, trivial⟩
    rw [joined] at agree
    rcases (Related.construct initBuckets hash).run fresh before with
      ⟨fixedSame, _, related⟩
    have traces := agree.1
    rw [trace_append, trace_append, fixedSame, List.map_append] at traces
    exact related.differs present value (List.append_cancel_left traces)
  · rintro fresh front rest more rfl bounded later
    exact agree_of_neverReinserts bounded
      (neverReinserts_append.mpr ⟨(neverReinserts_append.mp fresh).1, later⟩)

end Agreement

/-! ## One bucket -/

def oneBucket : PowerOfTwo :=
  ⟨1, PowerOfTwo.one_nonzero, PowerOfTwo.one_disjoint⟩

omit [DecidableEq Key] [Inhabited Value] [Inhabited Key] in
theorem atMost_of_subset {capacity : Nat} {contents : Key → Option Value}
    (held : Finset Key) (few : held.card ≤ capacity)
    (inside : ∀ key, (contents key).isSome = true → key ∈ held) :
    AtMost capacity contents := fun _ present =>
  (Finset.card_le_card fun key member => inside key (present key member)).trans few

def insertedAgain : List (Operation Nat Nat) :=
  [.insert 1 10, .insert 1 20, .find 1, .erase 1, .contains 1]

theorem insertedAgain_within :
    Within (FixedSizedChainingHashMap.poolSize oneBucket) (fun _ => none)
      insertedAgain := by
  have held : ∀ contents : Nat → Option Nat,
      (∀ key, (contents key).isSome = true → key ∈ ({1} : Finset Nat)) →
      AtMost (FixedSizedChainingHashMap.poolSize oneBucket) contents :=
    fun contents inside => atMost_of_subset {1} (by decide) inside
  refine ⟨held _ ?_, held _ ?_, held _ ?_, held _ ?_, held _ ?_, trivial⟩ <;>
  · intro key present
    by_contra other
    rw [Finset.mem_singleton] at other
    simp [FiniteMap.apply, Function.update_of_ne other] at present

/-- `ChainingHashMap` returns the second value, the others the first, and
`FixedSizedChainingHashMap` contains the key after `erase`. -/
theorem insertedAgain_told_apart :
    Within (FixedSizedChainingHashMap.poolSize oneBucket) (fun _ => none) insertedAgain ∧
    ¬ Agree oneBucket (BitVec.ofNat 64) insertedAgain ∧
    trace (FixedSizedChainingHashMap.apply (BitVec.ofNat 64))
        (FixedSizedChainingHashMap.construct : FixedSizedChainingHashMap oneBucket Nat Nat)
        insertedAgain =
      [.ok .done, .ok .done, .ok (.pointer (some 10)), .ok (.flag true),
        .ok (.flag true)] ∧
    trace (ChainingHashMap.apply (BitVec.ofNat 64))
        (ChainingHashMap.construct : ChainingHashMap oneBucket Nat Nat) insertedAgain =
      [.done, .done, .pointer (some 20), .flag true, .flag false] ∧
    trace STLHashMap.apply STLHashMap.construct insertedAgain =
      [.done, .done, .pointer (some 10), .flag true, .flag false] := by
  have fixed : trace (FixedSizedChainingHashMap.apply (BitVec.ofNat 64))
      (FixedSizedChainingHashMap.construct : FixedSizedChainingHashMap oneBucket Nat Nat)
      insertedAgain = [.ok .done, .ok .done, .ok (.pointer (some 10)), .ok (.flag true),
        .ok (.flag true)] := by rfl
  have chaining : trace (ChainingHashMap.apply (BitVec.ofNat 64))
      (ChainingHashMap.construct : ChainingHashMap oneBucket Nat Nat) insertedAgain =
        [.done, .done, .pointer (some 20), .flag true, .flag false] := by decide
  refine ⟨insertedAgain_within, ?_, fixed, chaining, by decide⟩
  intro agree
  have same := agree.1
  rw [fixed, chaining] at same
  simp at same

theorem interchangeable_iff_neverReinserts_again :
    (NeverReinserts (fun _ => none) insertedAgain →
        Agree oneBucket (BitVec.ofNat 64) insertedAgain) ∧
      (Interchangeable oneBucket (BitVec.ofNat 64) insertedAgain ↔
        NeverReinserts (fun _ => none) insertedAgain) :=
  interchangeable_iff_neverReinserts oneBucket (BitVec.ofNat 64) insertedAgain
    insertedAgain_within

end FeederNet.HashMap
