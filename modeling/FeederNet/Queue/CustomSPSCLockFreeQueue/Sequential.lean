import FeederNet.Foundation.Ring
import FeederNet.Queue.BoundedFifo
import FeederNet.Queue.CustomSPSCLockFreeQueue.Contents

/-! # CustomSPSCLockFreeQueue used by one thread

The steps of a call follow one another, and so do the calls.
-/

namespace FeederNet.Queue.CustomSPSCLockFreeQueue

def State.enqueue (capacity : PowerOfTwo) (queue : State α) (ptr : α) :
    Option (Answer α × State α) := do
  let queue ← step capacity queue (.enqueue ptr)
  let queue ← step capacity queue .loadHead
  match queue.producer with
  | .idle => return (.enqueued false, queue)
  | _ =>
      let queue ← step capacity queue .writeSlot
      let queue ← step capacity queue .storeTail
      return (.enqueued true, queue)

def State.dequeue (capacity : PowerOfTwo) (queue : State α) :
    Option (Answer α × State α) := do
  let queue ← step capacity queue .dequeue
  let queue ← step capacity queue .loadTail
  match queue.consumer with
  | .idle => return (.dequeued none, queue)
  | _ =>
      let queue ← step capacity queue .fetchAdd
      let value ← queue.returns capacity
      let queue ← step capacity queue .readSlot
      return (.dequeued value, queue)

def State.call (capacity : PowerOfTwo) (queue : State α) :
    Call α → Option (Answer α × State α)
  | .enqueue ptr => queue.enqueue capacity ptr
  | .dequeue => queue.dequeue capacity

def State.answers (capacity : PowerOfTwo) : State α → List (Call α) →
    Option (List (Answer α))
  | _, [] => some []
  | queue, call :: calls => do
      let (answer, queue) ← queue.call capacity call
      let answers ← queue.answers capacity calls
      return answer :: answers

/-! ## What each call comes to -/

section Calls

variable {capacity : PowerOfTwo} {queue : State α}

theorem enqueue_of_full (idle : queue.producer = .idle)
    (full : queue.tail + 1 - queue.head > capacity.value) (ptr : α) :
    queue.enqueue capacity ptr = some (.enqueued false, { queue with
      producer := .idle
      refused := queue.refused ++ [ptr] }) := by
  have started : step capacity queue (.enqueue ptr) =
      some { queue with producer := .loadedTail ptr queue.tail } := by
    rw [step, idle]
  have tested : step capacity { queue with producer := .loadedTail ptr queue.tail }
      .loadHead = some { queue with
        producer := .idle
        refused := queue.refused ++ [ptr] } := if_pos full
  simp only [State.enqueue, started, tested, Option.bind_eq_bind, Option.bind_some]
  rfl

theorem enqueue_of_room (idle : queue.producer = .idle)
    (room : ¬ queue.tail + 1 - queue.head > capacity.value) (ptr : α) :
    queue.enqueue capacity ptr = some (.enqueued true, { queue with
      buffer := Function.update queue.buffer (slot capacity queue.tail) (some ptr)
      tail := queue.tail + 1
      producer := .idle
      accepted := queue.accepted ++ [ptr] }) := by
  have started : step capacity queue (.enqueue ptr) =
      some { queue with producer := .loadedTail ptr queue.tail } := by
    rw [step, idle]
  have tested : step capacity { queue with producer := .loadedTail ptr queue.tail }
      .loadHead = some { queue with producer := .admitted ptr queue.tail } := if_neg room
  simp only [State.enqueue, started, tested, Option.bind_eq_bind, Option.bind_some]
  rfl

theorem dequeue_of_empty (idle : queue.consumer = .idle) (empty : queue.head = queue.tail) :
    queue.dequeue capacity = some (.dequeued none, { queue with consumer := .idle }) := by
  have started : step capacity queue .dequeue =
      some { queue with consumer := .loadedHead queue.head } := by
    rw [step, idle]
  have tested : step capacity { queue with consumer := .loadedHead queue.head }
      .loadTail = some { queue with consumer := .idle } := if_pos empty
  simp only [State.dequeue, started, tested, Option.bind_eq_bind, Option.bind_some]
  rfl

theorem dequeue_of_stored (idle : queue.consumer = .idle)
    (nonEmpty : queue.head ≠ queue.tail) {ptr : α}
    (stored : queue.buffer (slot capacity queue.head) = some ptr) :
    queue.dequeue capacity = some (.dequeued (some ptr), { queue with
      head := queue.head + 1
      consumer := .idle
      delivered := queue.delivered ++ [ptr] }) := by
  have started : step capacity queue .dequeue =
      some { queue with consumer := .loadedHead queue.head } := by
    rw [step, idle]
  have tested : step capacity { queue with consumer := .loadedHead queue.head }
      .loadTail = some { queue with consumer := .nonEmpty } := if_neg nonEmpty
  simp only [State.dequeue, started, tested, Option.bind_eq_bind, Option.bind_some]
  simp only [step, State.returns, Option.bind_some, stored]
  rfl

end Calls

/-- Both sides are between two calls, and the values are in the ring. -/
structure Between (capacity : PowerOfTwo) (queue : State α) (position : Nat)
    (queued : List α) : Prop where
  producer : queue.producer = .idle
  consumer : queue.consumer = .idle
  head : queue.head = BitVec.ofNat 64 position
  tail : queue.tail = BitVec.ofNat 64 (position + queued.length)
  bounded : queued.length ≤ capacity.toNat
  stored : RingHolds capacity.toNat queue.buffer position queued

section Between

variable {capacity : PowerOfTwo} {queue : State α} {position : Nat} {queued : List α}

theorem between_initial (capacity : PowerOfTwo) :
    Between capacity (initial : State α) 0 [] :=
  ⟨rfl, rfl, rfl, rfl, Nat.zero_le _, RingHolds.nil⟩

theorem Between.full_iff (between : Between capacity queue position queued) :
    queue.tail + 1 - queue.head > capacity.value ↔ capacity.toNat ≤ queued.length := by
  have bounded := between.bounded
  have small := capacity.toNat_le
  rw [between.tail, between.head, Word64.ofNat_add_one, gt_iff_lt, BitVec.lt_def,
    Word64.ofNat_sub_toNat (by omega) (by omega)]
  change capacity.toNat < _ ↔ _
  omega

theorem Between.room_iff (between : Between capacity queue position queued) :
    ¬ queue.tail + 1 - queue.head > capacity.value ↔ queued.length < capacity.toNat := by
  rw [between.full_iff, Nat.not_le]

theorem Between.empty_iff (between : Between capacity queue position queued) :
    queue.head = queue.tail ↔ queued = [] := by
  have bounded := between.bounded
  have small := capacity.toNat_le
  rw [between.tail, between.head, Word64.ofNat_inj_of_near (by omega) (by omega),
    ← List.length_eq_zero_iff]
  omega

theorem Between.enqueue (between : Between capacity queue position queued) (ptr : α) :
    ∃ next, queue.enqueue capacity ptr =
        some ((BoundedFifo.serve capacity.toNat queued (.enqueue ptr)).1, next) ∧
      Between capacity next position
        (BoundedFifo.serve capacity.toNat queued (.enqueue ptr)).2 := by
  rw [BoundedFifo.serve]
  by_cases room : queued.length < capacity.toNat
  · rw [if_pos room, enqueue_of_room between.producer (between.room_iff.mpr room)]
    refine ⟨_, rfl, rfl, between.consumer, between.head, ?_, ?_, ?_⟩
    · simp only [between.tail, Word64.ofNat_add_one, List.length_append,
        List.length_singleton, Nat.add_assoc]
    · rw [List.length_append]
      exact room
    · simp only [between.tail, slot_ofNat]
      exact between.stored.push room
  · have full := between.full_iff.mpr (Nat.le_of_not_lt room)
    rw [if_neg room, enqueue_of_full between.producer full]
    exact ⟨_, rfl, rfl, between.consumer, between.head, between.tail, between.bounded,
      between.stored⟩

theorem Between.head_ne_tail {ptr : α} {rest : List α}
    (between : Between capacity queue position (ptr :: rest)) : queue.head ≠ queue.tail :=
  fun same => List.cons_ne_nil _ _ (between.empty_iff.mp same)

theorem Between.first_stored {ptr : α} {rest : List α}
    (between : Between capacity queue position (ptr :: rest)) :
    queue.buffer (slot capacity queue.head) = some ptr := by
  rw [between.head, slot_ofNat]
  exact between.stored.first

theorem Between.dequeue (between : Between capacity queue position queued) :
    ∃ next position, queue.dequeue capacity =
        some ((BoundedFifo.serve capacity.toNat queued .dequeue).1, next) ∧
      Between capacity next position
        (BoundedFifo.serve capacity.toNat queued .dequeue).2 := by
  cases queued with
  | nil =>
      rw [dequeue_of_empty between.consumer (between.empty_iff.mpr rfl)]
      exact ⟨_, position, rfl, between.producer, rfl, between.head, between.tail,
        between.bounded, between.stored⟩
  | cons ptr queued =>
      rw [dequeue_of_stored between.consumer between.head_ne_tail between.first_stored]
      refine ⟨_, position + 1, rfl, between.producer, rfl, ?_, ?_, ?_, between.stored.pop⟩
      · simp only [between.head, Word64.ofNat_add_one]
      · simp only [between.tail, BoundedFifo.serve, List.tail_cons, List.length_cons]
        congr 1
        omega
      · exact (Nat.le_succ _).trans between.bounded

theorem Between.call (between : Between capacity queue position queued) (call : Call α) :
    ∃ next position, queue.call capacity call =
        some ((BoundedFifo.serve capacity.toNat queued call).1, next) ∧
      Between capacity next position (BoundedFifo.serve capacity.toNat queued call).2 := by
  cases call with
  | enqueue ptr =>
      rcases between.enqueue ptr with ⟨next, runs, after⟩
      exact ⟨next, position, runs, after⟩
  | dequeue => exact between.dequeue

theorem Between.answers (between : Between capacity queue position queued)
    (calls : List (Call α)) :
    queue.answers capacity calls =
      some (BoundedFifo.answers capacity.toNat queued calls) := by
  induction calls generalizing queue position queued with
  | nil => rfl
  | cons call calls induction =>
      rcases between.call call with ⟨next, after, runs, following⟩
      rw [State.answers, runs]
      simp only [Option.bind_eq_bind, Option.bind_some, induction following]
      rfl

end Between

/-- Alone with one thread the queue is a bounded FIFO. -/
theorem answers_initial (capacity : PowerOfTwo) (calls : List (Call α)) :
    (initial : State α).answers capacity calls =
      some (BoundedFifo.answers capacity.toNat [] calls) :=
  (between_initial capacity).answers calls

end FeederNet.Queue.CustomSPSCLockFreeQueue
