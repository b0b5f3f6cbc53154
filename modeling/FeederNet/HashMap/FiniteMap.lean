import Mathlib.Logic.Function.Basic

/-! # Finite maps

What the hash maps are for: the operations of `HashMap` on a partial function.
-/

namespace FeederNet.HashMap

/-- A call, with the use made of the reference that `operator[]` returns. -/
inductive Operation (Key Value : Type)
  | insert (key : Key) (value : Value)
  | read (key : Key)
  | assign (key : Key) (value : Value)
  | contains (key : Key)
  | erase (key : Key)
  | find (key : Key)
  deriving DecidableEq, Repr

inductive Result (Value : Type)
  | done
  | value (value : Value)
  | flag (flag : Bool)
  | pointer (value : Option Value)
  deriving DecidableEq, Repr

section Traces

variable {Key Value State Outcome : Type}

def trace (apply : State → Operation Key Value → Outcome × State) (state : State) :
    List (Operation Key Value) → List Outcome
  | [] => []
  | operation :: operations =>
      (apply state operation).1 :: trace apply (apply state operation).2 operations

def reach (apply : State → Operation Key Value → Outcome × State) (state : State)
    (operations : List (Operation Key Value)) : State :=
  operations.foldl (fun state operation => (apply state operation).2) state

theorem trace_append (apply : State → Operation Key Value → Outcome × State)
    (state : State) (front back : List (Operation Key Value)) :
    trace apply state (front ++ back) =
      trace apply state front ++ trace apply (reach apply state front) back := by
  induction front generalizing state with
  | nil => rfl
  | cons operation front induction =>
      rw [List.cons_append, trace, trace, induction]
      rfl

end Traces

def Operation.key : Operation Key Value → Key
  | .insert key _ | .assign key _ => key
  | .read key | .contains key | .erase key | .find key => key

namespace FiniteMap

variable [DecidableEq Key] [Inhabited Value]

def apply (contents : Key → Option Value) :
    Operation Key Value → Result Value × (Key → Option Value)
  | .insert key value => (.done, Function.update contents key (some value))
  | .read key =>
      let value := (contents key).getD default
      (.value value, Function.update contents key (some value))
  | .assign key value => (.done, Function.update contents key (some value))
  | .contains key => (.flag (contents key).isSome, contents)
  | .erase key => (.flag (contents key).isSome, Function.update contents key none)
  | .find key => (.pointer (contents key), contents)

def results (contents : Key → Option Value) :
    List (Operation Key Value) → List (Result Value)
  | [] => []
  | operation :: operations =>
      (apply contents operation).1 :: results (apply contents operation).2 operations

theorem apply_of_ne (contents : Key → Option Value) (operation : Operation Key Value)
    {other : Key} (different : other ≠ operation.key) :
    (apply contents operation).2 other = contents other := by
  cases operation with
  | contains key | find key => rfl
  | insert key value | assign key value | read key | erase key =>
      exact Function.update_of_ne different _ _

end FiniteMap

end FeederNet.HashMap
