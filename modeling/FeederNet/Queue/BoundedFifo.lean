import Mathlib.Data.List.Basic

/-! # Bounded FIFO

What the queues are for: the calls of one thread on a list of at most `capacity`
elements.
-/

namespace FeederNet.Queue

inductive Call (α : Type u)
  | enqueue (ptr : α)
  | dequeue
  deriving DecidableEq, Repr

/-- `dequeue` returns `none` for `nullptr`. -/
inductive Answer (α : Type u)
  | enqueued (accepted : Bool)
  | dequeued (ptr : Option α)
  deriving DecidableEq, Repr

namespace BoundedFifo

def serve (capacity : Nat) (queued : List α) : Call α → Answer α × List α
  | .enqueue ptr =>
      if queued.length < capacity then (.enqueued true, queued ++ [ptr])
      else (.enqueued false, queued)
  | .dequeue => (.dequeued queued.head?, queued.tail)

def answers (capacity : Nat) : List α → List (Call α) → List (Answer α)
  | _, [] => []
  | queued, call :: calls =>
      (serve capacity queued call).1 :: answers capacity (serve capacity queued call).2 calls

def MeetsFull (capacity : Nat) : List α → List (Call α) → Prop
  | _, [] => False
  | queued, call :: calls =>
      (∃ ptr, call = .enqueue ptr ∧ queued.length = capacity) ∨
        MeetsFull capacity (serve capacity queued call).2 calls

end BoundedFifo

end FeederNet.Queue
