import FeederNet.Queue.CustomSPSCLockFreeQueue.Sequential

/-! # Wraparound of the counters of CustomSPSCLockFreeQueue

The counters run through all machine words and start again at zero. One thread that uses
the queue does not notice, wherever they start.
-/

namespace FeederNet.Queue.CustomSPSCLockFreeQueue

/-- An empty queue with some value in both counters and anything in the slots. -/
def State.startingAt (buffer : Nat → Option α) (counter : Word64) : State α :=
  { initial with
    buffer := buffer
    head := counter
    tail := counter }

def State.after (capacity : PowerOfTwo) : State α → List (Call α) → Option (State α)
  | queue, [] => some queue
  | queue, call :: calls => do
      let (_, queue) ← queue.call capacity call
      queue.after capacity calls

/-- What the two tests of a queue say, and where the queued elements are. They are the
ones that were accepted and not yet delivered. -/
structure Exact (capacity : PowerOfTwo) (queue : State α) (queued : List α) : Prop where
  full : queue.tail + 1 - queue.head > capacity.value ↔ queued.length = capacity.toNat
  empty : queue.head = queue.tail ↔ queued = []
  bounded : queued.length ≤ capacity.toNat
  apart : ∀ left < queued.length, ∀ right < queued.length, left ≠ right →
    slot capacity (queue.head + BitVec.ofNat 64 left) ≠
      slot capacity (queue.head + BitVec.ofNat 64 right)
  stored : ∀ offset < queued.length,
    queue.buffer (slot capacity (queue.head + BitVec.ofNat 64 offset)) = queued[offset]?
  inOrder : queue.accepted = queue.delivered ++ queued

structure Pending (capacity : PowerOfTwo) (queue : State α) (position : Nat)
    (queued : List α) : Prop extends Between capacity queue position queued where
  inOrder : queue.accepted = queue.delivered ++ queued

section Runs

variable {capacity : PowerOfTwo} {queue : State α} {position : Nat} {queued : List α}

theorem pending_startingAt (capacity : PowerOfTwo) (buffer : Nat → Option α)
    (counter : Word64) :
    Pending capacity (State.startingAt buffer counter) counter.toNat [] := by
  have same : counter = BitVec.ofNat 64 counter.toNat := by
    rw [BitVec.ofNat_toNat, BitVec.setWidth_eq]
  exact ⟨⟨rfl, rfl, same, same, Nat.zero_le _, RingHolds.nil⟩, rfl⟩

theorem Pending.enqueue (pending : Pending capacity queue position queued) (ptr : α) :
    ∃ next, queue.enqueue capacity ptr =
        some ((BoundedFifo.serve capacity.toNat queued (.enqueue ptr)).1, next) ∧
      Pending capacity next position
        (BoundedFifo.serve capacity.toNat queued (.enqueue ptr)).2 := by
  rcases pending.toBetween.enqueue ptr with ⟨next, runs, between⟩
  refine ⟨next, runs, between, ?_⟩
  rw [BoundedFifo.serve] at runs ⊢
  by_cases room : queued.length < capacity.toNat
  · rw [if_pos room, enqueue_of_room pending.producer (pending.room_iff.mpr room)] at runs
    rw [if_pos room]
    cases runs
    change queue.accepted ++ [ptr] = queue.delivered ++ (queued ++ [ptr])
    rw [pending.inOrder, List.append_assoc]
  · have full := pending.full_iff.mpr (Nat.le_of_not_lt room)
    rw [if_neg room, enqueue_of_full pending.producer full] at runs
    rw [if_neg room]
    cases runs
    exact pending.inOrder

theorem Pending.dequeue (pending : Pending capacity queue position queued) :
    ∃ next position, queue.dequeue capacity =
        some ((BoundedFifo.serve capacity.toNat queued .dequeue).1, next) ∧
      Pending capacity next position
        (BoundedFifo.serve capacity.toNat queued .dequeue).2 := by
  rcases pending.toBetween.dequeue with ⟨next, after, runs, between⟩
  refine ⟨next, after, runs, between, ?_⟩
  cases queued with
  | nil =>
      rw [dequeue_of_empty pending.consumer (pending.empty_iff.mpr rfl)] at runs
      cases runs
      exact pending.inOrder
  | cons ptr queued =>
      have first := pending.first_stored
      rw [dequeue_of_stored pending.consumer pending.head_ne_tail first] at runs
      cases runs
      change queue.accepted = queue.delivered ++ [ptr] ++ queued
      rw [pending.inOrder, List.append_assoc]
      rfl

theorem Pending.call (pending : Pending capacity queue position queued) (call : Call α) :
    ∃ next position, queue.call capacity call =
        some ((BoundedFifo.serve capacity.toNat queued call).1, next) ∧
      Pending capacity next position (BoundedFifo.serve capacity.toNat queued call).2 := by
  cases call with
  | enqueue ptr =>
      rcases pending.enqueue ptr with ⟨next, runs, after⟩
      exact ⟨next, position, runs, after⟩
  | dequeue => exact pending.dequeue

theorem Pending.after (pending : Pending capacity queue position queued)
    (calls : List (Call α)) :
    ∃ next position queued, queue.after capacity calls = some next ∧
      Pending capacity next position queued := by
  induction calls generalizing queue position queued with
  | nil => exact ⟨queue, position, queued, rfl, pending⟩
  | cons call calls induction =>
      rcases pending.call call with ⟨following, place, runs, stillPending⟩
      rcases induction stillPending with ⟨next, last, left, reaches, lastPending⟩
      refine ⟨next, last, left, ?_, lastPending⟩
      rw [State.after, runs]
      exact reaches

theorem Between.slot_add (between : Between capacity queue position queued)
    (offset : Nat) :
    slot capacity (queue.head + BitVec.ofNat 64 offset) =
      (position + offset) % capacity.toNat := by
  rw [between.head, ← BitVec.ofNat_add, slot_ofNat]

theorem Pending.exact (pending : Pending capacity queue position queued) :
    Exact capacity queue queued where
  full := pending.full_iff.trans
    ⟨fun crowded => Nat.le_antisymm pending.bounded crowded, fun equal => equal.ge⟩
  empty := pending.empty_iff
  bounded := pending.bounded
  apart left leftBelow right rightBelow different := by
    rw [pending.slot_add, pending.slot_add]
    have bounded := pending.bounded
    exact RingHolds.slot_ne (leftBelow.trans_le bounded) (rightBelow.trans_le bounded)
      different
  stored offset below := by
    rw [pending.slot_add]
    exact pending.stored offset below
  inOrder := pending.inOrder

end Runs

/-- From any equal counters the queue is a bounded FIFO, and after any calls its tests are
exact and its elements lie in different slots. -/
theorem exact_after (capacity : PowerOfTwo) (buffer : Nat → Option α) (counter : Word64)
    (calls : List (Call α)) :
    (State.startingAt buffer counter).answers capacity calls =
      some (BoundedFifo.answers capacity.toNat [] calls) ∧
    ∃ queue queued, (State.startingAt buffer counter).after capacity calls = some queue ∧
      Exact capacity queue queued := by
  have pending := pending_startingAt capacity buffer counter
  rcases pending.after calls with ⟨queue, position, queued, reaches, lastPending⟩
  exact ⟨pending.answers calls, queue, queued, reaches, lastPending.exact⟩

-- the second element gets the counter value zero
example : (State.startingAt (fun _ => none) (BitVec.allOnes 64)).answers
    ⟨2, by decide, by decide⟩ [.enqueue 5, .enqueue 6, .enqueue 7, .dequeue, .dequeue] =
    some [.enqueued true, .enqueued true, .enqueued false, .dequeued (some 5),
      .dequeued (some 6)] := by
  decide

end FeederNet.Queue.CustomSPSCLockFreeQueue
