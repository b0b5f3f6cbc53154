import FeederNet.Foundation.TransitionSystem
import Mathlib.Algebra.BigOperators.Group.Finset.Basic
import Mathlib.Algebra.BigOperators.Group.List.Basic
import Mathlib.Algebra.GroupWithZero.Nat
import Mathlib.Algebra.Order.BigOperators.Group.Finset
import Mathlib.Data.Fintype.BigOperators

/-! # Progress

How long a run can be. Every step lowers a potential, except for what the step is
credited; so the length of a run is bounded by the potential at its start and by the
credits of its steps.
-/

open scoped BigOperators

namespace FeederNet

/-! ## Weights of threads -/

section Weights

variable {Thread Phase : Type*} [Fintype Thread] [DecidableEq Thread]

theorem sum_weight_update (weight : Phase → Nat) (phase : Thread → Phase) (thread : Thread)
    (after : Phase) :
    ∑ other, weight (Function.update phase thread after other) + weight (phase thread) =
      ∑ other, weight (phase other) + weight after := by
  have apart : ∀ values : Thread → Phase, ∑ other, weight (values other) =
      weight (values thread) + ∑ other ∈ Finset.univ.erase thread, weight (values other) :=
    fun values => (Finset.add_sum_erase _ _ (Finset.mem_univ thread)).symm
  have others : ∑ other ∈ Finset.univ.erase thread,
      weight (Function.update phase thread after other) =
        ∑ other ∈ Finset.univ.erase thread, weight (phase other) := by
    apply Finset.sum_congr rfl
    intro other member
    rw [Function.update_of_ne (Finset.ne_of_mem_erase member)]
  rw [apart (Function.update phase thread after), apart phase, others,
    Function.update_self]
  omega

theorem sum_weight_lt (weight : Phase → Nat) (phase : Thread → Phase) {thread : Thread}
    {after : Phase} (less : weight after < weight (phase thread)) :
    ∑ other, weight (Function.update phase thread after other) <
      ∑ other, weight (phase other) := by
  have sums := sum_weight_update weight phase thread after
  omega

omit [DecidableEq Thread] in
theorem sum_weight_le (weight : Phase → Nat) (phase : Thread → Phase) {most : Nat}
    (le : ∀ thread, weight (phase thread) ≤ most) :
    ∑ thread, weight (phase thread) ≤ most * Fintype.card Thread := by
  calc
    ∑ thread, weight (phase thread) ≤ ∑ _thread : Thread, most :=
      Finset.sum_le_sum fun thread _ => le thread
    _ = most * Fintype.card Thread := by simp [mul_comm]

end Weights

theorem sum_credits (first second : α → Bool) (each other : Nat) (entries : List α) :
    (entries.map fun entry =>
        each * (first entry).toNat + other * (second entry).toNat).sum =
      each * entries.countP first + other * entries.countP second := by
  induction entries with
  | nil => rfl
  | cons entry entries induction =>
      rw [List.map_cons, List.sum_cons, induction, List.countP_cons, List.countP_cons]
      cases first entry <;> cases second entry <;> simp [Nat.mul_add] <;> omega

/-! ## The length of a run -/

namespace TransitionSystem

variable {system : TransitionSystem State Event}

def credited (credit : State → Event → Nat) (past : List (State × Event)) : Nat :=
  (past.map fun entry => credit entry.1 entry.2).sum

theorem credited_one (past : List (State × Event)) :
    credited (fun _ _ => 1) past = past.length := by
  induction past with
  | nil => rfl
  | cons entry past induction =>
      rw [credited, List.map_cons, List.sum_cons, List.length_cons, ← induction, Nat.add_comm]
      rfl

theorem credited_zero (past : List (State × Event)) : credited (fun _ _ => 0) past = 0 := by
  induction past with
  | nil => rfl
  | cons entry past induction => exact (Nat.zero_add _).trans induction

theorem credited_toNat (kind : State → Event → Bool) (past : List (State × Event)) :
    credited (fun state event => (kind state event).toNat) past =
      past.countP fun entry => kind entry.1 entry.2 := by
  induction past with
  | nil => rfl
  | cons entry past induction =>
      rw [List.countP_cons, ← induction, credited, List.map_cons, List.sum_cons, Nat.add_comm]
      cases kind entry.1 entry.2 <;> rfl

/-- The rule for what the steps of a run cost, with an invariant that the step may use. -/
theorem Run.cost_add_potential_le (Inv : State → Prop) (potential : State → Nat)
    (cost credit : State → Event → Nat) (most : Nat)
    (initial : ∀ state, system.Initial state → Inv state ∧ potential state ≤ most)
    (preserved : ∀ current event next, Inv current →
      system.Step current event next → Inv next)
    (lowers : ∀ current event next, Inv current → system.Step current event next →
      potential next + cost current event ≤ potential current + credit current event)
    {past : List (State × Event)} {final : State} (run : system.Run past final) :
    credited cost past + potential final ≤ most + credited credit past := by
  induction run with
  | start start => simpa [credited] using (initial _ start).2
  | @step past current event next run step induction =>
      have inv : Inv current :=
        Reachable.invariant Inv (fun state start => (initial state start).1) preserved
          ⟨_, run⟩
      have lower := lowers _ _ _ inv step
      simp only [credited, List.map_cons, List.sum_cons] at induction ⊢
      omega

/-- The rule for the length of a run. -/
theorem Run.length_add_potential_le (Inv : State → Prop) (potential : State → Nat)
    (credit : State → Event → Nat) (most : Nat)
    (initial : ∀ state, system.Initial state → Inv state ∧ potential state ≤ most)
    (preserved : ∀ current event next, Inv current →
      system.Step current event next → Inv next)
    (lowers : ∀ current event next, Inv current → system.Step current event next →
      potential next + 1 ≤ potential current + credit current event)
    {past : List (State × Event)} {final : State} (run : system.Run past final) :
    past.length + potential final ≤ most + credited credit past := by
  have cost := run.cost_add_potential_le Inv potential (fun _ _ => 1) credit most initial
    preserved lowers
  rwa [credited_one] at cost

/-- The rule for how often a run takes a step of some kind. -/
theorem Run.countP_add_potential_le (Inv : State → Prop) (potential : State → Nat)
    (kind : State → Event → Bool) (most : Nat)
    (initial : ∀ state, system.Initial state → Inv state ∧ potential state ≤ most)
    (preserved : ∀ current event next, Inv current →
      system.Step current event next → Inv next)
    (lowers : ∀ current event next, Inv current → system.Step current event next →
      potential next + (kind current event).toNat ≤ potential current)
    {past : List (State × Event)} {final : State} (run : system.Run past final) :
    past.countP (fun entry => kind entry.1 entry.2) + potential final ≤ most := by
  have cost := run.cost_add_potential_le Inv potential
    (fun current event => (kind current event).toNat) (fun _ _ => 0) most initial preserved
    lowers
  rwa [credited_toNat, credited_zero] at cost

/-- Where every step of some kind lowers the potential, it bounds how many steps of that
kind can follow one another. -/
theorem length_le_of_execute {step : State → Event → Option State}
    (Inv : State → Prop) (Allowed : Event → Prop) (potential : State → Nat)
    (preserved : ∀ current event next, Inv current →
      step current event = some next → Inv next)
    (lowers : ∀ current event next, Inv current → Allowed event →
      step current event = some next → potential next < potential current)
    {current final : State} (inv : Inv current) {events : List Event}
    (allowed : ∀ event ∈ events, Allowed event)
    (executes : execute step current events = some final) :
    events.length + potential final ≤ potential current := by
  induction events generalizing current with
  | nil =>
      cases executes
      simp
  | cons event events induction =>
      rcases Option.bind_eq_some_iff.mp executes with ⟨middle, first, rest⟩
      rcases List.forall_mem_cons.mp allowed with ⟨here, later⟩
      have lower := lowers _ _ _ inv here first
      have others := induction (preserved _ _ _ inv first) later rest
      rw [List.length_cons]
      omega

end TransitionSystem

end FeederNet
