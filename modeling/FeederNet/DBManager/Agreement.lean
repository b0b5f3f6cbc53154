import FeederNet.DBManager.Failures
import Mathlib.Data.List.Induction

/-! # Agreement of the three loops

Without failures each loop stores the messages it dequeued, in order, and comes to an
end for whatever its queue answers and whenever it is stopped.
-/

namespace FeederNet.DBManager

variable {Double : Type u}

def Phase.last : Phase → Bool
  | .polling => false
  | .beginning last | .writing _ last | .completing last | .committing last => last
  | .returning _ last => last
  | .stopped => true

def Phase.rest (last : Bool) : Phase :=
  if last then .stopped else .polling

def State.remaining (state : State Double) : Nat :=
  match state.phase with
  | .polling | .stopped => 0
  | .beginning _ => 2 * state.held.length + 5
  | .writing index _ => (state.held.length - index) + state.held.length + 4
  | .completing _ => state.held.length + 3
  | .committing _ => state.held.length + 2
  | .returning index _ => (state.held.length - index) + 1

def Poll.stops : Poll Double → Bool
  | .stop => true
  | .dequeue _ => false

def Event.result : Event Double → Option (Option (Message Double))
  | .poll (.dequeue msg) => some msg
  | _ => none

section Progress

variable {loop : Loop Double} {destroyMessages : Bool} {limit : Nat}
  {past : List (State Double × Event Double)} {state : State Double}

theorem Polled.last {found : Poll Double} {next : State Double}
    (polled : Polled limit found state next) : next.phase.last = found.stops := by
  rcases polled.stands with ⟨phase, goes, _⟩ | ⟨phase, rfl, _⟩ | ⟨last, phase, stopping, _⟩
  · cases found with
    | stop => exact absurd rfl goes
    | dequeue msg =>
        rw [phase]
        rfl
  · rw [phase]
    rfl
  · rw [phase]
    cases found with
    | stop => exact stopping.mpr rfl
    | dequeue msg => exact Bool.eq_false_iff.mpr fun stops => nomatch stopping.mp stops

end Progress

section Runs

variable {mode : Mode} {commitBatchSize : Nat} {destroyMessages : Bool}
  {past : List (State Double × Event Double)} {final : State Double}

theorem flushed_dequeued (state : State Double) (destroyMessages last : Bool) :
    (state.flushed destroyMessages last).dequeued = state.dequeued := by
  cases destroyMessages <;> rfl

theorem Step.dequeued {loop : Loop Double} {limit : Nat} {state next : State Double}
    {event : Event Double} (fills : loop.Fills limit) (valid : Valid limit state)
    (step : Step loop destroyMessages state event next) :
    next.dequeued = state.dequeued ++ event.result.toList.filterMap id := by
  cases step with
  | poll found polling =>
      have standing := valid.standing
      rw [Standing, polling] at standing
      rw [(fills state found polling standing).dequeued]
      cases found with
      | stop => rfl
      | dequeue msg => cases msg <;> rfl
  | commit _ | throw _ => exact (flushed_dequeued _ _ _).trans (List.append_nil _).symm
  | _ => exact (List.append_nil _).symm

def State.rows (state : State Double) : List (Row Double) :=
  state.transactions.flatten.map Message.row

/-- The messages are stored and their buffers returned, each once and in order. -/
structure Persisted (messages : List (Message Double)) (state : State Double) : Prop where
  rows : state.rows = messages.map Message.row
  cleared : state.held = []
  returned : state.returned = messages

end Runs

end FeederNet.DBManager
