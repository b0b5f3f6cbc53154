import Mathlib.Logic.Basic

/-! # Labelled transition systems

Runs, reachability and the induction rules shared by every interleaving model.
An invariant is always proved by the same two facts: it holds where a run may
start, and one step keeps it.
-/

namespace FeederNet

/-- Where a run may start, and what one event may do to a state. -/
structure TransitionSystem (State : Type u) (Event : Type v) where
  Initial : State → Prop
  Step : State → Event → State → Prop

namespace TransitionSystem

/-- The system of a deterministic step function with one starting state. An
event with no result is not enabled. -/
@[reducible] def ofStep (start : State)
    (step : State → Event → Option State) : TransitionSystem State Event where
  Initial state := state = start
  Step current event next := step current event = some next

/-- A finite run, newest step first. Every entry pairs an event with the state
in which it happened; the last argument is the state now reached. -/
inductive Run (system : TransitionSystem State Event) :
    List (State × Event) → State → Prop
  | start {state} : system.Initial state → Run system [] state
  | step {past current event next} : Run system past current →
      system.Step current event next →
      Run system ((current, event) :: past) next

def Reachable (system : TransitionSystem State Event) (state : State) : Prop :=
  ∃ past, system.Run past state

/-- Reached by a run each of whose steps meets `condition` in the state before
the step. -/
def ReachableUnder (system : TransitionSystem State Event)
    (condition : State → Event → Prop) (state : State) : Prop :=
  ∃ past, system.Run past state ∧ ∀ entry ∈ past, condition entry.1 entry.2

def restrict (system : TransitionSystem State Event) (condition : State → Event → Prop) :
    TransitionSystem State Event where
  Initial := system.Initial
  Step current event next := system.Step current event next ∧ condition current event

def execute (step : State → Event → Option State) (start : State)
    (events : List Event) : Option State :=
  events.foldlM step start

section Invariants

variable {system : TransitionSystem State Event}

theorem ReachableUnder.start {condition : State → Event → Prop} {state : State}
    (initial : system.Initial state) : system.ReachableUnder condition state :=
  ⟨[], Run.start initial, by simp⟩

theorem ReachableUnder.step {condition : State → Event → Prop}
    {current next : State} {event : Event}
    (reachable : system.ReachableUnder condition current)
    (step : system.Step current event next)
    (met : condition current event) : system.ReachableUnder condition next := by
  rcases reachable with ⟨past, run, allMet⟩
  refine ⟨_, run.step step, ?_⟩
  intro entry member
  rcases List.mem_cons.mp member with rfl | member
  · exact met
  · exact allMet entry member

/-- Executing a list of events from where a run stands extends the run by these
events. -/
theorem Run.exists_execute {start : State}
    {step : State → Event → Option State} {past : List (State × Event)}
    {current final : State} (run : (ofStep start step).Run past current)
    {events : List Event} (executes : execute step current events = some final) :
    ∃ whole, (ofStep start step).Run whole final ∧
      whole.map Prod.snd = events.reverse ++ past.map Prod.snd := by
  induction events generalizing past current with
  | nil =>
      cases executes
      exact ⟨past, run, by simp⟩
  | cons event events induction =>
      rcases Option.bind_eq_some_iff.mp executes with ⟨middle, first, rest⟩
      rcases induction (run.step first) rest with ⟨whole, wholeRun, same⟩
      exact ⟨whole, wholeRun, by simp [same]⟩

theorem exists_run_of_execute (start : State)
    (step : State → Event → Option State) (events : List Event) {final : State}
    (executes : execute step start events = some final) :
    ∃ past, (ofStep start step).Run past final ∧ past.length = events.length := by
  rcases Run.exists_execute (.start rfl) executes with ⟨past, run, same⟩
  refine ⟨past, run, ?_⟩
  simpa using congrArg List.length same

theorem exists_run_of_events (start : State)
    (step : State → Event → Option State) (events : List Event)
    (Property : State → Prop) [DecidablePred Property]
    (found : (execute step start events).any (fun final => decide (Property final))
      = true) :
    ∃ past final, (ofStep start step).Run past final ∧
      past.map Prod.snd = events.reverse ∧ Property final := by
  cases executes : execute step start events with
  | none => simp [executes] at found
  | some final =>
      rcases Run.exists_execute (.start rfl) executes with ⟨past, run, same⟩
      refine ⟨past, final, run, by simpa using same, ?_⟩
      simpa [executes] using found

theorem exists_reachable_of_execute (start : State)
    (step : State → Event → Option State) (events : List Event)
    (Property : State → Prop) [DecidablePred Property]
    (found : (execute step start events).any (fun final => decide (Property final))
      = true) :
    ∃ final, (ofStep start step).Reachable final ∧ Property final := by
  rcases exists_run_of_events start step events Property found with
    ⟨past, final, run, _, holds⟩
  exact ⟨final, ⟨past, run⟩, holds⟩

/-- What can be observed of the events of a run, oldest first, after one more of
them. -/
theorem filterMap_reverse_cons (observe : α → Option β) (entry : α) (past : List α) :
    (entry :: past).reverse.filterMap observe =
      past.reverse.filterMap observe ++ (observe entry).toList := by
  rw [List.reverse_cons, List.filterMap_append]
  cases observed : observe entry <;> simp [observed]

def guarded (condition : State → Event → Prop)
    [∀ state event, Decidable (condition state event)]
    (step : State → Event → Option State) (state : State) (event : Event) :
    Option State :=
  if condition state event then step state event else none

theorem Reachable.reachableUnder {start : State}
    {step : State → Event → Option State} {condition : State → Event → Prop}
    [∀ state event, Decidable (condition state event)] {state : State}
    (reachable : (ofStep start (guarded condition step)).Reachable state) :
    (ofStep start step).ReachableUnder condition state := by
  rcases reachable with ⟨past, run⟩
  induction run with
  | start initial => exact .start initial
  | @step past current event next run stepped induction =>
      have allowed : condition current event ∧ step current event = some next := by
        simpa [guarded] using stepped
      exact induction.step allowed.2 allowed.1

theorem Run.of_guarded {start : State} {step : State → Event → Option State}
    {condition : State → Event → Prop} [∀ state event, Decidable (condition state event)]
    {past : List (State × Event)} {final : State}
    (run : (ofStep start (guarded condition step)).Run past final) :
    (ofStep start step).Run past final ∧
      ∀ entry ∈ past, condition entry.1 entry.2 := by
  induction run with
  | start initial => exact ⟨.start initial, List.forall_mem_nil _⟩
  | @step past current event next run stepped induction =>
      have allowed : condition current event ∧ step current event = some next := by
        simpa [guarded] using stepped
      exact ⟨.step induction.1 allowed.2,
        List.forall_mem_cons.mpr ⟨allowed.1, induction.2⟩⟩

/-- The invariant rule for runs whose steps meet a condition. -/
theorem ReachableUnder.invariant {condition : State → Event → Prop}
    (Inv : State → Prop) (initial : ∀ state, system.Initial state → Inv state)
    (preserved : ∀ current event next, Inv current → condition current event →
      system.Step current event next → Inv next)
    {state : State} (reachable : system.ReachableUnder condition state) :
    Inv state := by
  rcases reachable with ⟨past, run, allMet⟩
  induction run with
  | start start => exact initial _ start
  | @step past current event next run step induction =>
      have currentInv : Inv current :=
        induction fun entry member => allMet entry (List.mem_cons_of_mem _ member)
      exact preserved _ _ _ currentInv (allMet (current, event) (by simp)) step

/-- The invariant rule for unrestricted runs. -/
theorem Reachable.invariant (Inv : State → Prop)
    (initial : ∀ state, system.Initial state → Inv state)
    (preserved : ∀ current event next, Inv current →
      system.Step current event next → Inv next)
    {state : State} (reachable : system.Reachable state) : Inv state := by
  rcases reachable with ⟨past, run⟩
  induction run with
  | start start => exact initial _ start
  | step run step induction => exact preserved _ _ _ induction step

theorem Run.restrict {condition : State → Event → Prop} {past : List (State × Event)}
    {final : State} (run : system.Run past final)
    (allMet : ∀ entry ∈ past, condition entry.1 entry.2) :
    (system.restrict condition).Run past final := by
  induction run with
  | start start => exact .start start
  | step run stepped induction =>
      rcases List.forall_mem_cons.mp allMet with ⟨met, earlier⟩
      exact .step (induction earlier) ⟨stepped, met⟩

theorem Run.exists_step {past : List (State × Event)} {final : State}
    (run : system.Run past final) {entry : State × Event} (member : entry ∈ past) :
    ∃ next, system.Step entry.1 entry.2 next := by
  induction run with
  | start start => cases member
  | @step past current event next run stepped induction =>
      rcases List.mem_cons.mp member with rfl | earlier
      · exact ⟨next, stepped⟩
      · exact induction earlier

/-- The invariant rule for all states of a run. -/
theorem Run.invariant (Inv : State → Prop)
    (initial : ∀ state, system.Initial state → Inv state)
    (preserved : ∀ current event next, Inv current →
      system.Step current event next → Inv next)
    {past : List (State × Event)} {final : State} (run : system.Run past final) :
    (∀ entry ∈ past, Inv entry.1) ∧ Inv final := by
  induction run with
  | start start => exact ⟨nofun, initial _ start⟩
  | @step past current event next run step induction =>
      exact ⟨List.forall_mem_cons.mpr ⟨induction.2, induction.1⟩,
        preserved _ _ _ induction.2 step⟩

/-- When one step keeps a property exactly if it meets a condition, a run keeps
the property throughout exactly if all its steps meet the condition. The
invariant holds in every run and may be used to prove the step. -/
theorem Run.forall_iff (Inv Property : State → Prop)
    (condition : State → Event → Prop)
    (initial : ∀ state, system.Initial state → Inv state ∧ Property state)
    (preserved : ∀ current event next, Inv current →
      system.Step current event next → Inv next)
    (exact : ∀ current event next, Inv current → Property current →
      system.Step current event next →
        (Property next ↔ condition current event))
    {past : List (State × Event)} {final : State} (run : system.Run past final) :
    ((∀ entry ∈ past, Property entry.1) ∧ Property final) ↔
      ∀ entry ∈ past, condition entry.1 entry.2 := by
  have invariant : ∀ {past final}, system.Run past final → Inv final :=
    fun run => Reachable.invariant Inv (fun state start => (initial state start).1)
      preserved ⟨_, run⟩
  induction run with
  | start start => simp [(initial _ start).2]
  | @step past current event next run step induction =>
      simp only [List.forall_mem_cons]
      constructor
      · rintro ⟨⟨currentHolds, pastHolds⟩, nextHolds⟩
        exact ⟨(exact _ _ _ (invariant run) currentHolds step).mp nextHolds,
          induction.mp ⟨pastHolds, currentHolds⟩⟩
      · intro given
        rcases given with ⟨met, pastMet⟩
        rcases induction.mpr pastMet with ⟨pastHolds, currentHolds⟩
        exact ⟨⟨currentHolds, pastHolds⟩,
          (exact _ _ _ (invariant run) currentHolds step).mpr met⟩

/-- When one step gives a property exactly if the property holds before it and the step
meets a condition, a run ends with the property exactly if all its steps meet the
condition. -/
theorem Run.final_iff (Inv Property : State → Prop)
    (condition : State → Event → Prop)
    (initial : ∀ state, system.Initial state → Inv state ∧ Property state)
    (preserved : ∀ current event next, Inv current →
      system.Step current event next → Inv next)
    (exact : ∀ current event next, Inv current → system.Step current event next →
      (Property next ↔ Property current ∧ condition current event))
    {past : List (State × Event)} {final : State} (run : system.Run past final) :
    Property final ↔ ∀ entry ∈ past, condition entry.1 entry.2 := by
  induction run with
  | start start => exact iff_of_true (initial _ start).2 (List.forall_mem_nil _)
  | @step past current event next run step induction =>
      have inv : Inv current :=
        Reachable.invariant Inv (fun state start => (initial state start).1) preserved
          ⟨_, run⟩
      rw [exact _ _ _ inv step, List.forall_mem_cons, induction]
      exact and_comm

end Invariants

end TransitionSystem

end FeederNet
