import FeederNet.Foundation.Linearization
import FeederNet.Foundation.Progress
import FeederNet.MemoryPool.LockFreeThreadSafePool.Interleaving

/-! # LockFreeThreadSafePool is a stack, and lock-free

The successful compare-exchange is where a call takes effect: there an `allocate` pops the
slot that it returns and a `deallocate` pushes its slot. A compare-exchange that fails
loses to one that has succeeded, so that the threads together always get on.
-/

open scoped BigOperators

namespace FeederNet.MemoryPool.LockFreeThreadSafePool.Interleaving

variable {Thread : Type} [DecidableEq Thread]

/-! ## The stack of the free slots -/

inductive Operation
  | pop (slot : Nat)
  | push (slot : Nat)
  deriving DecidableEq, Repr

/-- What a step does to the stack, with the thread for which it does so. A thread that
pops is handed the slot in the same step. -/
def effect (state : State Thread) : Thread × Action → Option (Thread × Operation)
  | (thread, .exchange) =>
      match state.phase thread with
      | .allocRead oldHead _ _ => some (thread, .pop (unpack oldHead).1.toNat)
      | .deallocWritten slot _ _ => some (thread, .push slot)
      | _ => none
  | _ => none

structure Stack (Thread : Type) where
  free : List Nat
  held : Thread → List Nat

def Stack.initial (poolMsgCount : Nat) : Stack Thread where
  free := (List.range poolMsgCount).reverse
  held _ := []

def serve (stack : Stack Thread) : Thread × Operation → Option (Stack Thread)
  | (thread, .pop slot) =>
      match stack.free with
      | [] => none
      | top :: rest =>
          if top = slot then
            some ⟨rest, Function.update stack.held thread (top :: stack.held thread)⟩
          else none
  | (thread, .push slot) =>
      if slot ∈ stack.held thread then
        some ⟨slot :: stack.free,
          Function.update stack.held thread ((stack.held thread).erase slot)⟩
      else none

section Stack

variable [Fintype Thread] {poolMsgCount : Nat} {state next : State Thread} {free : List Nat}

/-- Each step does to the free list and to the holders what its operation does to the
stack. -/
theorem Step.serves {event : Thread × Action} (bound : poolMsgCount < 2 ^ 32 - 1)
    (inv : Inv poolMsgCount state free) (provided : Provided poolMsgCount state event)
    (step : Step state event next) : ∃ after,
      TransitionSystem.execute serve ⟨free, state.holds⟩ (effect state event).toList =
          some ⟨after, next.holds⟩ ∧
        next.pool.FreeList after := by
  cases step with
  | callAllocate | callDeallocate | allocLoad | deallocLoad | readNext | readOutside =>
      exact ⟨free, rfl, inv.list⟩
  | allocRetry | deallocRetry => exact ⟨free, rfl, inv.list⟩
  | @writeNext thread slot oldHead readAt phase =>
      have valid := inv.phase thread
      rw [phase] at valid
      have fresh : slot ∉ free :=
        inv.split.not_mem_shared_of_owned (Multiset.nodup_range _) valid.1
      exact ⟨free, rfl, inv.list.setNextFree fresh⟩
  | @allocExchange thread oldHead nextIndex readAt phase atHead =>
      subst atHead
      have valid := inv.phase thread
      rw [phase] at valid
      have near : state.exchanges - readAt < 2 ^ 32 := by
        simpa [Provided, phase] using provided
      have now := valid.1.current_of_head_eq inv.tag near
      have inRange := valid.2.1
      rw [inv.count] at inRange
      rcases inv.list.of_index_lt (by omega) with ⟨rest, start⟩
      have list := inv.list
      rw [start] at list
      refine ⟨rest, ?_, ?_⟩
      · simp [effect, phase, TransitionSystem.execute, serve, start, State.publish]
      · rw [valid.2.2 now]
        exact list.unlink
  | @deallocExchange thread slot oldHead readAt phase atHead =>
      subst atHead
      have valid := inv.phase thread
      rw [phase] at valid
      have member : slot ∈ Multiset.range poolMsgCount :=
        inv.split.mem_stock_of_owned valid.1
      have inRange := Multiset.mem_range.mp member
      refine ⟨slot :: free, ?_, inv.list.publish (by omega) valid.2.2⟩
      simp [effect, phase, TransitionSystem.execute, serve, State.publish, valid.1]

/-- Every interleaving of any number of threads, provided allocations stay within the
pool and the tag does not go round, is a history of one stack: the operations of the
successful exchanges are possible one after the other, and what they leave on the stack
and with the threads is what is on the list that starts at `head_` and with the threads. -/
theorem linearized_of_provided (poolMsgCount : Nat) (bound : poolMsgCount < 2 ^ 32 - 1)
    {past : List (State Thread × Thread × Action)} {state : State Thread}
    (run : (system Thread poolMsgCount).Run past state)
    (provided : ∀ entry ∈ past, Provided poolMsgCount entry.1 entry.2) :
    ∃ free, TransitionSystem.execute serve (.initial poolMsgCount)
        (TransitionSystem.effects effect past) = some ⟨free, state.holds⟩ ∧
      state.pool.FreeList free := by
  have linearized : ∃ stack : Stack Thread,
      TransitionSystem.execute serve (.initial poolMsgCount)
          (TransitionSystem.effects effect past) = some stack ∧
        Inv poolMsgCount state stack.free ∧ stack.held = state.holds := by
    refine (run.restrict provided).linearizes
      (fun state (stack : Stack Thread) =>
        Inv poolMsgCount state stack.free ∧ stack.held = state.holds) effect serve ?_ ?_
    · intro state start
      cases start
      exact ⟨inv_initial bound, rfl⟩
    · rintro current event next ⟨free, held⟩ ⟨inv, same⟩ ⟨stepped, met⟩
      subst same
      have step := Step.of_step stepped
      rcases step.serves bound inv met with ⟨after, served, list⟩
      rcases step.inv bound inv met with ⟨kept, holds⟩
      have unique : kept = after := Chain.unique holds.list list
      subst unique
      exact ⟨_, served, holds, rfl⟩
  rcases linearized with ⟨⟨free, held⟩, executes, inv, same⟩
  subst same
  exact ⟨free, executes, inv.list⟩

/-- The competing threads pop both slots, and the faster one pushes its slot back. -/
theorem linearized_of_provided_competing :
    ∃ past, ∃ state : State Bool,
      (past.map Prod.snd = competingAllocates.reverse ∧ state.holds false = [0]) ∧
        ∃ free, TransitionSystem.execute serve (.initial 2)
            (TransitionSystem.effects effect past) = some ⟨free, state.holds⟩ ∧
          state.pool.FreeList free := by
  rcases TransitionSystem.exists_run_of_events (State.initial 2)
    (TransitionSystem.guarded (Provided 2) step) competingAllocates
    (fun state => state.holds false = [0]) (by decide) with
    ⟨past, state, run, events, held⟩
  rcases run.of_guarded with ⟨run, provided⟩
  exact ⟨past, state, ⟨events, held⟩, linearized_of_provided 2 (by decide) run provided⟩

end Stack

/-! ## Lock-freedom -/

/-- The steps that a call still needs if no other call takes effect meanwhile; a head that
has been exchanged since it was read costs another read. A call in progress also carries
what its own exchange will cost each of the other threads. -/
def remaining (threads exchanges : Nat) : Phase → Nat
  | .idle | .faulted => 0
  | .allocating | .deallocating _ => 2 * threads + 3
  | .allocLoaded _ readAt | .deallocLoaded _ _ readAt =>
      2 * threads + if readAt = exchanges then 2 else 4
  | .allocRead _ _ readAt | .deallocWritten _ _ readAt =>
      2 * threads + if readAt = exchanges then 1 else 3

theorem remaining_succ_le (threads exchanges : Nat) (phase : Phase) :
    remaining threads (exchanges + 1) phase ≤ remaining threads exchanges phase + 2 := by
  cases phase with
  | idle | allocating | deallocating slot | faulted => exact Nat.le_add_right _ _
  | allocLoaded oldHead readAt | deallocLoaded slot oldHead readAt =>
      simp only [remaining]
      split <;> split <;> omega
  | allocRead oldHead nextIndex readAt | deallocWritten slot oldHead readAt =>
      simp only [remaining]
      split <;> split <;> omega

def beginsCall : Thread × Action → Bool
  | (_, .callAllocate) | (_, .callDeallocate _) => true
  | _ => false

/-- The compare-exchange of the thread fails although `head_` has not been exchanged since
the thread read it. -/
def failsSpuriously (state : State Thread) : Thread × Action → Bool
  | (thread, .exchangeFailed) =>
      match state.phase thread with
      | .allocRead _ _ readAt | .deallocWritten _ _ readAt => readAt == state.exchanges
      | _ => false
  | _ => false

section LockFree

variable [Fintype Thread] {state next : State Thread}

def State.potential (state : State Thread) : Nat :=
  ∑ thread, remaining (Fintype.card Thread) state.exchanges (state.phase thread)

def credit (state : State Thread) (event : Thread × Action) : Nat :=
  (4 + 2 * Fintype.card Thread) * (beginsCall event).toNat +
    2 * (failsSpuriously state event).toNat

theorem potential_goto (state : State Thread) (thread : Thread) (phase : Phase) :
    (state.goto thread phase).potential +
        remaining (Fintype.card Thread) state.exchanges (state.phase thread) =
      state.potential + remaining (Fintype.card Thread) state.exchanges phase :=
  sum_weight_update (remaining (Fintype.card Thread) state.exchanges) state.phase thread phase

/-- An exchange makes what the other threads have read old, and has paid for it. -/
theorem potential_publish (state : State Thread) (thread : Thread) (newHead : Word64)
    (held : List Nat) :
    (state.publish thread newHead held).potential +
        remaining (Fintype.card Thread) state.exchanges (state.phase thread) ≤
      state.potential + 2 * Fintype.card Thread := by
  have sums := sum_weight_update (remaining (Fintype.card Thread) state.exchanges)
    state.phase thread .idle
  have later : (state.publish thread newHead held).potential ≤
      ∑ other, (remaining (Fintype.card Thread) state.exchanges
        (Function.update state.phase thread .idle other) + 2) :=
    Finset.sum_le_sum fun other _ => remaining_succ_le _ _ _
  have twos : ∑ _other : Thread, 2 = 2 * Fintype.card Thread := by simp [mul_comm]
  rw [Finset.sum_add_distrib, twos] at later
  have idle : remaining (Fintype.card Thread) state.exchanges .idle = 0 := rfl
  change ∑ other, _ + _ = state.potential + _ at sums
  omega

omit [DecidableEq Thread] in
theorem remaining_allocateFrom_le (state : State Thread) :
    remaining (Fintype.card Thread) state.exchanges state.allocateFrom ≤
      2 * Fintype.card Thread + 2 := by
  unfold State.allocateFrom
  split
  · exact Nat.zero_le _
  · simp [remaining]

/-- Every step but the beginning of a call and a spurious failure brings the calls
further. -/
theorem Step.lowers {event : Thread × Action} (step : Step state event next) :
    next.potential + 1 ≤ state.potential + credit state event := by
  cases step with
  | callAllocate thread phase =>
      have moved := potential_goto state thread .allocating
      rw [phase] at moved
      simp only [remaining] at moved
      simp only [credit, beginsCall, Bool.toNat_true]
      omega
  | callDeallocate thread slot phase member =>
      have moved := potential_goto state thread (.deallocating slot)
      rw [phase] at moved
      simp only [remaining] at moved
      simp only [credit, beginsCall, Bool.toNat_true]
      omega
  | allocLoad thread phase =>
      have moved := potential_goto state thread state.allocateFrom
      have small := remaining_allocateFrom_le state
      rw [phase] at moved
      have before : remaining (Fintype.card Thread) state.exchanges .allocating =
        2 * Fintype.card Thread + 3 := rfl
      omega
  | @deallocLoad thread slot phase =>
      have moved := potential_goto state thread
        (.deallocLoaded slot state.pool.head state.exchanges)
      rw [phase] at moved
      simp only [remaining, if_true] at moved
      omega
  | @readNext thread oldHead readAt nextIndex phase read =>
      have moved := potential_goto state thread
        (.allocRead oldHead nextIndex readAt)
      rw [phase] at moved
      simp only [remaining] at moved
      split at moved <;> omega
  | @readOutside thread oldHead readAt fault phase read =>
      have moved := potential_goto state thread .faulted
      rw [phase] at moved
      simp only [remaining] at moved
      split at moved <;> omega
  | @writeNext thread slot oldHead readAt phase =>
      have moved := potential_goto state thread
        (.deallocWritten slot oldHead readAt)
      rw [phase] at moved
      simp only [remaining] at moved
      change (state.goto thread (.deallocWritten slot oldHead readAt)).potential + 1 ≤ _
      split at moved <;> omega
  | @allocExchange thread oldHead nextIndex readAt phase atHead =>
      have moved := potential_publish state thread
        (pack nextIndex ((unpack oldHead).2 + 1))
        ((unpack oldHead).1.toNat :: state.holds thread)
      rw [phase] at moved
      simp only [remaining] at moved
      split at moved <;> omega
  | @deallocExchange thread slot oldHead readAt phase atHead =>
      have moved := potential_publish state thread
        (pack (BitVec.ofNat 64 slot) ((unpack oldHead).2 + 1))
        ((state.holds thread).erase slot)
      rw [phase] at moved
      simp only [remaining] at moved
      split at moved <;> omega
  | @allocRetry thread oldHead nextIndex readAt phase =>
      have moved := potential_goto state thread state.allocateFrom
      have small := remaining_allocateFrom_le state
      generalize remaining _ _ state.allocateFrom = after at moved small
      rw [phase] at moved
      by_cases current : readAt = state.exchanges
      · simp [credit, beginsCall, failsSpuriously, phase, current]
        simp only [remaining, current, if_true] at moved
        omega
      · simp only [remaining, current, if_false] at moved
        omega
  | @deallocRetry thread slot oldHead readAt phase =>
      have moved := potential_goto state thread
        (.deallocLoaded slot state.pool.head state.exchanges)
      rw [phase] at moved
      by_cases current : readAt = state.exchanges
      · simp [credit, beginsCall, failsSpuriously, phase, current]
        simp only [remaining, current, if_true] at moved
        omega
      · simp only [remaining, current, if_false, if_true] at moved
        omega

/-- The pool is lock-free: in every interleaving of any number of threads, the steps made
are bounded by the calls begun, whichever thread is delayed and where, not counting
exchanges that fail for no reason. -/
theorem lockFree_of_run (poolMsgCount : Nat)
    {past : List (State Thread × Thread × Action)} {state : State Thread}
    (run : (system Thread poolMsgCount).Run past state) :
    past.length ≤
      (4 + 2 * Fintype.card Thread) * past.countP (fun entry => beginsCall entry.2) +
        2 * past.countP (fun entry => failsSpuriously entry.1 entry.2) := by
  have bound := run.length_add_potential_le (fun _ => True) State.potential credit
    0 ?_ (fun _ _ _ _ _ => trivial)
    (fun _ _ _ _ stepped => (Step.of_step stepped).lowers)
  · simp only [TransitionSystem.credited, credit, sum_credits, Nat.zero_add] at bound
    exact (Nat.le_add_right _ _).trans bound
  · intro state start
    cases start
    exact ⟨trivial, by simp [State.potential, State.initial, remaining]⟩

/-- Two calls that compete three times over, one of the failures being spurious. -/
theorem lockFree_of_run_competing :
    ∃ past : List (State Bool × Bool × Action),
      past.map Prod.snd = competingAllocates.reverse ∧
      past.length ≤
        (4 + 2 * Fintype.card Bool) * past.countP (fun entry => beginsCall entry.2) +
          2 * past.countP (fun entry => failsSpuriously entry.1 entry.2) := by
  rcases TransitionSystem.exists_run_of_events (State.initial 2) step competingAllocates
    (fun _ => True) (by decide) with ⟨past, state, run, events, _⟩
  exact ⟨past, events, lockFree_of_run 2 run⟩

end LockFree

end FeederNet.MemoryPool.LockFreeThreadSafePool.Interleaving
