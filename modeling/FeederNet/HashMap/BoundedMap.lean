import Mathlib.Data.Finmap

/-! # Bounded finite maps

A finite map takes a new key only as long as it has room. Its client keeps the references
that it is given; a reference is void once its key is erased.
-/

namespace FeederNet.HashMap

structure BoundedMap (capacity : Nat) (Key Value : Type) where
  entries : Finmap fun _ : Key => Value
  bounded : entries.keys.card ≤ capacity

namespace BoundedMap

variable {capacity : Nat} {Key Value : Type}

def empty : BoundedMap capacity Key Value where
  entries := ∅
  bounded := by simp

def HasRoom (map : BoundedMap capacity Key Value) : Prop :=
  map.entries.keys.card < capacity

instance (map : BoundedMap capacity Key Value) : Decidable map.HasRoom :=
  inferInstanceAs (Decidable (_ < _))

variable [DecidableEq Key] {key : Key}

def lookup (map : BoundedMap capacity Key Value) (key : Key) : Option Value :=
  map.entries.lookup key

theorem keys_insert (entries : Finmap fun _ : Key => Value) (key : Key) (value : Value) :
    (entries.insert key value).keys = insert key entries.keys := by
  ext other
  rw [Finmap.mem_keys, Finmap.mem_insert, Finset.mem_insert, Finmap.mem_keys]

/-- A key gets a value if it has one already or there is room. -/
def set (map : BoundedMap capacity Key Value) (key : Key) (value : Value)
    (fits : key ∈ map.entries ∨ map.HasRoom) : BoundedMap capacity Key Value where
  entries := map.entries.insert key value
  bounded := by
    rw [keys_insert]
    rcases fits with present | room
    · rw [Finset.insert_eq_of_mem (Finmap.mem_keys.mpr present)]
      exact map.bounded
    · exact (Finset.card_insert_le key _).trans room

def erase (map : BoundedMap capacity Key Value) (key : Key) :
    BoundedMap capacity Key Value where
  entries := map.entries.erase key
  bounded := by
    rw [Finmap.keys_erase]
    exact Finset.card_erase_le.trans map.bounded

theorem lookup_empty :
    (empty : BoundedMap capacity Key Value).lookup = fun _ => none :=
  funext fun key => Finmap.lookup_empty key

theorem lookup_set (map : BoundedMap capacity Key Value) (value : Value)
    (fits : key ∈ map.entries ∨ map.HasRoom) :
    (map.set key value fits).lookup = Function.update map.lookup key (some value) := by
  funext other
  by_cases same : other = key
  · subst same
    rw [Function.update_self]
    exact Finmap.lookup_insert _
  · rw [Function.update_of_ne same]
    exact Finmap.lookup_insert_of_ne _ same

theorem lookup_erase (map : BoundedMap capacity Key Value) (key : Key) :
    (map.erase key).lookup = Function.update map.lookup key none := by
  funext other
  by_cases same : other = key
  · subst same
    rw [Function.update_self]
    exact Finmap.lookup_erase _ _
  · rw [Function.update_of_ne same]
    exact Finmap.lookup_erase_ne same

theorem lookup_eq_none_iff (map : BoundedMap capacity Key Value) (key : Key) :
    map.lookup key = none ↔ key ∉ map.entries :=
  Finmap.lookup_eq_none

end BoundedMap

/-- `assign` names a reference by its place among those that the client holds, the newest
first. -/
inductive Request (Key Value : Type)
  | index (key : Key)
  | assign (place : Nat) (value : Value)
  | contains (key : Key)
  | find (key : Key)
  | erase (key : Key)
  deriving DecidableEq, Repr

inductive Answer (Value : Type)
  | reference (value : Value)
  | full
  | assigned
  | unheld
  | flag (flag : Bool)
  | pointer (value : Option Value)
  deriving DecidableEq, Repr

/-- A bounded map with the keys that its client holds references to. -/
structure Client (capacity : Nat) (Key Value : Type) where
  map : BoundedMap capacity Key Value
  references : List Key
  present : ∀ key ∈ references, key ∈ map.entries

namespace Client

variable {capacity : Nat} {Key Value : Type}

def initial : Client capacity Key Value where
  map := .empty
  references := []
  present := nofun

variable [DecidableEq Key] [Inhabited Value]

def serve (client : Client capacity Key Value) :
    Request Key Value → Answer Value × Client capacity Key Value
  | .index key =>
      if present : key ∈ client.map.entries then
        (.reference ((client.map.lookup key).getD default), {
          map := client.map
          references := key :: client.references
          present := List.forall_mem_cons.mpr ⟨present, client.present⟩ })
      else if room : client.map.HasRoom then
        (.reference default, {
          map := client.map.set key default (.inr room)
          references := key :: client.references
          present := List.forall_mem_cons.mpr ⟨Finmap.mem_insert.mpr (.inl rfl),
            fun other held => Finmap.mem_insert.mpr (.inr (client.present other held))⟩ })
      else (.full, client)
  | .assign place value =>
      match held : client.references[place]? with
      | none => (.unheld, client)
      | some key =>
          (.assigned, {
            map := client.map.set key value
              (.inl (client.present key (List.mem_of_getElem? held)))
            references := client.references
            present := fun other held =>
              Finmap.mem_insert.mpr (.inr (client.present other held)) })
  | .contains key => (.flag (client.map.lookup key).isSome, client)
  | .find key => (.pointer (client.map.lookup key), client)
  | .erase key =>
      (.flag (client.map.lookup key).isSome, {
        map := client.map.erase key
        references := client.references.filter fun held => decide (held ≠ key)
        present := fun other held => by
          rcases List.mem_filter.mp held with ⟨member, different⟩
          exact Finmap.mem_erase.mpr
            ⟨of_decide_eq_true different, client.present other member⟩ })

def after (requests : List (Request Key Value)) : Client capacity Key Value :=
  requests.foldl (fun client request => (client.serve request).2) initial

theorem index_spec (client : Client capacity Key Value) {key : Key}
    (fits : key ∈ client.map.entries ∨ client.map.HasRoom) :
    (client.serve (.index key)).1 = .reference ((client.map.lookup key).getD default) ∧
      (client.serve (.index key)).2.map.lookup = Function.update client.map.lookup key
        (some ((client.map.lookup key).getD default)) ∧
      (client.serve (.index key)).2.references = key :: client.references := by
  by_cases present : key ∈ client.map.entries
  · rcases Option.isSome_iff_exists.mp (Finmap.lookup_isSome.mpr present) with ⟨value, found⟩
    have found : client.map.lookup key = some value := found
    rw [serve, dif_pos present]
    refine ⟨rfl, ?_, rfl⟩
    rw [found, Option.getD_some, ← found, Function.update_eq_self]
  · have room := fits.resolve_left present
    have missing := (client.map.lookup_eq_none_iff key).mpr present
    rw [serve, dif_neg present, dif_pos room, missing]
    exact ⟨rfl, client.map.lookup_set default (.inr room), rfl⟩

theorem index_full (client : Client capacity Key Value) {key : Key}
    (absent : key ∉ client.map.entries) (full : ¬ client.map.HasRoom) :
    client.serve (.index key) = (.full, client) := by
  rw [serve, dif_neg absent, dif_neg full]

theorem assign_spec (client : Client capacity Key Value) {place : Nat} {key : Key}
    (held : client.references[place]? = some key) (value : Value) :
    (client.serve (.assign place value)).1 = .assigned ∧
      (client.serve (.assign place value)).2.map.lookup =
        Function.update client.map.lookup key (some value) ∧
      (client.serve (.assign place value)).2.references = client.references := by
  rw [serve]
  split
  · rename_i unheld
    rw [held] at unheld
    cases unheld
  · rename_i other found
    rw [held] at found
    cases found
    have present := client.present key (List.mem_of_getElem? held)
    exact ⟨rfl, client.map.lookup_set value (.inl present), rfl⟩

theorem assign_unheld (client : Client capacity Key Value) {place : Nat}
    (unheld : client.references[place]? = none) (value : Value) :
    client.serve (.assign place value) = (.unheld, client) := by
  rw [serve]
  split
  · rfl
  · rename_i other found
    rw [unheld] at found
    cases found

end Client

end FeederNet.HashMap
