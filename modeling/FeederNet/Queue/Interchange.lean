import FeederNet.Queue.CustomMPMCLockFreeQueue.Sequential
import FeederNet.Queue.CustomSPSCLockFreeQueue.Sequential
import Mathlib.Tactic.IntervalCases

/-! # The queues under one thread

`CustomSPSCLockFreeQueue` and `CustomMPMCLockFreeQueue` under one sequence of calls.
-/

namespace FeederNet.Queue

/-- Both queues answer like a list of at most `capacity` elements, and no call of theirs
runs for ever. `failures` are the exchanges of each call that fail for no reason. -/
structure Interchangeable (capacity : PowerOfTwo) (calls : List (Call α)) : Prop where
  spsc : (CustomSPSCLockFreeQueue.initial : CustomSPSCLockFreeQueue.State α).answers
      capacity calls = some (BoundedFifo.answers capacity.toNat [] calls)
  mpmc : ∀ failures : Nat → Nat, ∃ enough, ∀ fuel ≥ enough,
    (CustomMPMCLockFreeQueue.initial : CustomMPMCLockFreeQueue.State Unit α).answers
      capacity fuel failures calls = some (BoundedFifo.answers capacity.toNat [] calls)

/-- The queues agree unless a ring of one cell is full when an element comes. -/
theorem interchangeable_iff_clear (capacity : PowerOfTwo) (calls : List (Call α)) :
    Interchangeable capacity calls ↔
      2 ≤ capacity.toNat ∨ ¬ BoundedFifo.MeetsFull capacity.toNat [] calls := by
  constructor
  · intro interchangeable
    by_contra neither
    rw [not_or, not_not] at neither
    have one : capacity.toNat = 1 := by
      have positive := capacity.toNat_pos
      omega
    rcases interchangeable.mpmc fun _ => 0 with ⟨enough, answers⟩
    exact (CustomMPMCLockFreeQueue.between_initial capacity).answers_ne one neither.2
      (le_max_right enough 5) (answers _ (le_max_left enough 5))
  · intro clear
    refine ⟨CustomSPSCLockFreeQueue.answers_initial capacity calls, fun failures => ?_⟩
    rcases CustomMPMCLockFreeQueue.exists_answers capacity calls failures with
      ⟨enough, answers⟩
    exact ⟨enough, fun fuel most => answers fuel most _ 0 []
      (CustomMPMCLockFreeQueue.between_initial capacity) clear⟩

def oneCell : PowerOfTwo :=
  ⟨1, PowerOfTwo.one_nonzero, PowerOfTwo.one_disjoint⟩

/-- A ring of one cell takes a second element, and then `dequeue` loops for ever. -/
theorem second_element_is_accepted :
    ¬ Interchangeable oneCell [Call.enqueue 5, Call.enqueue 6, Call.dequeue] ∧
      ∀ fuel, (CustomMPMCLockFreeQueue.initial :
          CustomMPMCLockFreeQueue.State Unit Nat).answers oneCell fuel (fun _ => 0)
        [Call.enqueue 5, Call.enqueue 6, Call.dequeue] = none := by
  have never : ∀ fuel, (CustomMPMCLockFreeQueue.initial :
      CustomMPMCLockFreeQueue.State Unit Nat).answers oneCell fuel (fun _ => 0)
        [Call.enqueue 5, Call.enqueue 6, Call.dequeue] = none := by
    intro fuel
    rcases Nat.lt_or_ge fuel 5 with less | enough
    · interval_cases fuel <;> rfl
    · exact CustomMPMCLockFreeQueue.answers_ahead rfl 5 6 enough
  refine ⟨fun interchangeable => ?_, never⟩
  rcases interchangeable.mpmc fun _ => 0 with ⟨enough, answers⟩
  have returns := answers enough le_rfl
  rw [never] at returns
  cases returns

end FeederNet.Queue
