import FeederNet.Foundation.TransitionSystem

/-! # Linearization points

A concurrent object behaves like a sequential one when each of its operations takes
effect in one step: its linearization point. Between these points the abstract value
stands still.
-/

namespace FeederNet.TransitionSystem

variable {system : TransitionSystem State Event}

/-- The operations that take effect in a run, oldest first. -/
def effects (effect : State → Event → Option Operation)
    (past : List (State × Event)) : List Operation :=
  past.reverse.filterMap fun entry => effect entry.1 entry.2

@[simp] theorem effects_nil (effect : State → Event → Option Operation) :
    effects effect [] = [] := rfl

theorem effects_cons (effect : State → Event → Option Operation) (current : State)
    (event : Event) (past : List (State × Event)) :
    effects effect ((current, event) :: past) =
      effects effect past ++ (effect current event).toList :=
  filterMap_reverse_cons _ _ past

theorem execute_append (step : State → Event → Option State) (start : State)
    (left right : List Event) :
    execute step start (left ++ right) =
      (execute step start left).bind fun middle => execute step middle right := by
  rw [execute, List.foldlM_append]
  rfl

@[simp] theorem execute_singleton (step : State → Event → Option State) (start : State)
    (event : Event) : execute step start [event] = step start event := by
  simp [execute]

/-- Every run is a sequential history: the operations of its linearization points, in
the order of these points, are possible one after the other and lead to the abstract
value of the state that the run reaches. -/
theorem Run.linearizes (Represents : State → Abstract → Prop)
    (effect : State → Event → Option Operation)
    (apply : Abstract → Operation → Option Abstract) {start : Abstract}
    (initial : ∀ state, system.Initial state → Represents state start)
    (simulates : ∀ current event next abstract, Represents current abstract →
      system.Step current event next → ∃ after,
        execute apply abstract (effect current event).toList = some after ∧
          Represents next after)
    {past : List (State × Event)} {final : State} (run : system.Run past final) :
    ∃ abstract, execute apply start (effects effect past) = some abstract ∧
      Represents final abstract := by
  induction run with
  | start start => exact ⟨_, rfl, initial _ start⟩
  | @step past current event next run step induction =>
      rcases induction with ⟨abstract, executes, represents⟩
      rcases simulates _ _ _ _ represents step with ⟨after, taken, holds⟩
      refine ⟨after, ?_, holds⟩
      rw [effects_cons, execute_append, executes]
      exact taken

end FeederNet.TransitionSystem
