import FeederNet.Foundation.MachineWord
import FeederNet.Foundation.TransitionSystem
import Mathlib.Data.List.Basic
import Mathlib.Logic.Function.Basic

/-! # CustomMPMCLockFreeQueue

A ring of cells shared by any number of producers and consumers. One step is one
load, store, compare-exchange or cell access of one thread.
-/

namespace FeederNet.Queue.CustomMPMCLockFreeQueue

/-- `data` is `none` until a producer has written the cell. -/
structure Cell (α : Type u) where
  seq : Word64
  data : Option α

/-- Where a thread stands between two of its steps. A thread that has started
loads the position next; this is also where a call resumes after finding its
position behind the cell. -/
inductive Phase (α : Type u)
  | idle
  | enqStarted (ptr : α)
  | enqLoaded (ptr : α) (pos : Word64)
  | enqMatched (ptr : α) (pos : Word64)
  | enqClaimed (ptr : α) (pos : Word64)
  | enqWritten (ptr : α) (pos : Word64)
  | deqStarted
  | deqLoaded (pos : Word64)
  | deqMatched (pos : Word64)
  | deqClaimed (pos : Word64)
  | deqRead (pos : Word64) (value : Option α)
  deriving DecidableEq, Repr

inductive Action (α : Type u)
  | enqueue (ptr : α)
  | dequeue
  | loadPos
  | loadSeq
  | exchange
  | exchangeFailed
  | accessData
  | storeSeq
  deriving DecidableEq, Repr

/-- A successful compare-exchange on `tail_`, made by the thread's `call`-th
enqueue. -/
structure TailClaim (Thread : Type v) (α : Type u) where
  ticket : Word64
  thread : Thread
  call : Nat
  ptr : α
  deriving DecidableEq, Repr

structure HeadClaim (Thread : Type v) where
  ticket : Word64
  thread : Thread
  deriving DecidableEq, Repr

structure Returned (Thread : Type v) (α : Type u) where
  ticket : Word64
  thread : Thread
  value : Option α
  deriving DecidableEq, Repr

/-- The queue, its threads, and the record of their calls so far. `calls` counts
the enqueues each thread has begun. -/
structure State (Thread : Type v) (α : Type u) where
  cells : Nat → Cell α
  head : Word64
  tail : Word64
  phase : Thread → Phase α
  calls : Thread → Nat
  tailClaims : List (TailClaim Thread α)
  headClaims : List (HeadClaim Thread)
  returned : List (Returned Thread α)

def initial : State Thread α where
  cells index := { seq := BitVec.ofNat 64 index, data := none }
  head := 0
  tail := 0
  phase _ := .idle
  calls _ := 0
  tailClaims := []
  headClaims := []
  returned := []

def slot (capacity : PowerOfTwo) (pos : Word64) : Nat :=
  (pos &&& capacity.mask).toNat

/-- The three branches after `cell->seq` is loaded in `enqueue`. The difference
is taken modulo `2 ^ 64` and its sign read as that of an `int64_t`. -/
def enqueueBranch (ptr : α) (pos seq : Word64) : Phase α :=
  if seq - pos = 0 then .enqMatched ptr pos
  else if (seq - pos).slt 0 then .idle
  else .enqStarted ptr

def dequeueBranch (pos seq : Word64) : Phase α :=
  if seq - (pos + 1) = 0 then .deqMatched pos
  else if (seq - (pos + 1)).slt 0 then .idle
  else .deqStarted

section Step

variable {Thread : Type v} [DecidableEq Thread] {α : Type u}

namespace State

def goto (state : State Thread α) (thread : Thread) (phase : Phase α) :
    State Thread α :=
  { state with phase := Function.update state.phase thread phase }

def enqueue (state : State Thread α) (thread : Thread) (ptr : α) : State Thread α where
  cells := state.cells
  head := state.head
  tail := state.tail
  phase := Function.update state.phase thread (.enqStarted ptr)
  calls := Function.update state.calls thread (state.calls thread + 1)
  tailClaims := state.tailClaims
  headClaims := state.headClaims
  returned := state.returned

def claimTail (state : State Thread α) (thread : Thread) (ptr : α) (pos : Word64) :
    State Thread α :=
  { state.goto thread (.enqClaimed ptr pos) with
    tail := pos + 1
    tailClaims := state.tailClaims ++ [⟨pos, thread, state.calls thread, ptr⟩] }

def claimHead (state : State Thread α) (thread : Thread) (pos : Word64) :
    State Thread α :=
  { state.goto thread (.deqClaimed pos) with
    head := pos + 1
    headClaims := state.headClaims ++ [⟨pos, thread⟩] }

def writeData (state : State Thread α) (capacity : PowerOfTwo) (thread : Thread)
    (ptr : α) (pos : Word64) : State Thread α :=
  { state.goto thread (.enqWritten ptr pos) with
    cells := Function.update state.cells (slot capacity pos)
      { state.cells (slot capacity pos) with data := some ptr } }

/-- `enqueue` stores the new sequence number and returns true. -/
def publish (state : State Thread α) (capacity : PowerOfTwo) (thread : Thread)
    (pos : Word64) : State Thread α :=
  { state.goto thread .idle with
    cells := Function.update state.cells (slot capacity pos)
      { state.cells (slot capacity pos) with seq := pos + 1 } }

/-- `dequeue` stores the new sequence number and returns the value. -/
def release (state : State Thread α) (capacity : PowerOfTwo) (thread : Thread)
    (pos : Word64) (value : Option α) : State Thread α :=
  { state.goto thread .idle with
    cells := Function.update state.cells (slot capacity pos)
      { state.cells (slot capacity pos) with seq := pos + capacity.value }
    returned := state.returned ++ [⟨pos, thread, value⟩] }

end State

def step (capacity : PowerOfTwo) (state : State Thread α) :
    Thread × Action α → Option (State Thread α)
  | (thread, .enqueue ptr) =>
      match state.phase thread with
      | .idle => some (state.enqueue thread ptr)
      | _ => none
  | (thread, .dequeue) =>
      match state.phase thread with
      | .idle => some (state.goto thread .deqStarted)
      | _ => none
  | (thread, .loadPos) =>
      match state.phase thread with
      | .enqStarted ptr => some (state.goto thread (.enqLoaded ptr state.tail))
      | .deqStarted => some (state.goto thread (.deqLoaded state.head))
      | _ => none
  | (thread, .loadSeq) =>
      match state.phase thread with
      | .enqLoaded ptr pos =>
          some (state.goto thread
            (enqueueBranch ptr pos (state.cells (slot capacity pos)).seq))
      | .deqLoaded pos =>
          some (state.goto thread
            (dequeueBranch pos (state.cells (slot capacity pos)).seq))
      | _ => none
  | (thread, .exchange) =>
      match state.phase thread with
      | .enqMatched ptr pos =>
          if state.tail = pos then some (state.claimTail thread ptr pos) else none
      | .deqMatched pos =>
          if state.head = pos then some (state.claimHead thread pos) else none
      | _ => none
  | (thread, .exchangeFailed) =>
      match state.phase thread with
      | .enqMatched ptr _ => some (state.goto thread (.enqLoaded ptr state.tail))
      | .deqMatched _ => some (state.goto thread (.deqLoaded state.head))
      | _ => none
  | (thread, .accessData) =>
      match state.phase thread with
      | .enqClaimed ptr pos => some (state.writeData capacity thread ptr pos)
      | .deqClaimed pos =>
          some (state.goto thread
            (.deqRead pos (state.cells (slot capacity pos)).data))
      | _ => none
  | (thread, .storeSeq) =>
      match state.phase thread with
      | .enqWritten _ pos => some (state.publish capacity thread pos)
      | .deqRead pos value => some (state.release capacity thread pos value)
      | _ => none

@[reducible] def system (Thread : Type v) [DecidableEq Thread] (α : Type u)
    (capacity : PowerOfTwo) : TransitionSystem (State Thread α) (Thread × Action α) :=
  .ofStep initial (step capacity)

inductive Step (capacity : PowerOfTwo) :
    State Thread α → Thread × Action α → State Thread α → Prop
  | enqueue {state} (thread) (ptr) :
      state.phase thread = .idle →
      Step capacity state (thread, .enqueue ptr) (state.enqueue thread ptr)
  | dequeue {state} (thread) :
      state.phase thread = .idle →
      Step capacity state (thread, .dequeue) (state.goto thread .deqStarted)
  | loadTail {state} (thread) {ptr} :
      state.phase thread = .enqStarted ptr →
      Step capacity state (thread, .loadPos)
        (state.goto thread (.enqLoaded ptr state.tail))
  | loadHead {state} (thread) :
      state.phase thread = .deqStarted →
      Step capacity state (thread, .loadPos)
        (state.goto thread (.deqLoaded state.head))
  | enqLoadSeq {state} (thread) {ptr pos} :
      state.phase thread = .enqLoaded ptr pos →
      Step capacity state (thread, .loadSeq)
        (state.goto thread
          (enqueueBranch ptr pos (state.cells (slot capacity pos)).seq))
  | deqLoadSeq {state} (thread) {pos} :
      state.phase thread = .deqLoaded pos →
      Step capacity state (thread, .loadSeq)
        (state.goto thread (dequeueBranch pos (state.cells (slot capacity pos)).seq))
  | claimTail {state} (thread) {ptr pos} :
      state.phase thread = .enqMatched ptr pos → state.tail = pos →
      Step capacity state (thread, .exchange) (state.claimTail thread ptr pos)
  | claimHead {state} (thread) {pos} :
      state.phase thread = .deqMatched pos → state.head = pos →
      Step capacity state (thread, .exchange) (state.claimHead thread pos)
  | enqRetry {state} (thread) {ptr pos} :
      state.phase thread = .enqMatched ptr pos →
      Step capacity state (thread, .exchangeFailed)
        (state.goto thread (.enqLoaded ptr state.tail))
  | deqRetry {state} (thread) {pos} :
      state.phase thread = .deqMatched pos →
      Step capacity state (thread, .exchangeFailed)
        (state.goto thread (.deqLoaded state.head))
  | writeData {state} (thread) {ptr pos} :
      state.phase thread = .enqClaimed ptr pos →
      Step capacity state (thread, .accessData)
        (state.writeData capacity thread ptr pos)
  | readData {state} (thread) {pos} :
      state.phase thread = .deqClaimed pos →
      Step capacity state (thread, .accessData)
        (state.goto thread (.deqRead pos (state.cells (slot capacity pos)).data))
  | publish {state} (thread) {ptr pos} :
      state.phase thread = .enqWritten ptr pos →
      Step capacity state (thread, .storeSeq) (state.publish capacity thread pos)
  | release {state} (thread) {pos value} :
      state.phase thread = .deqRead pos value →
      Step capacity state (thread, .storeSeq)
        (state.release capacity thread pos value)

theorem Step.of_step {capacity : PowerOfTwo} {state next : State Thread α}
    {event : Thread × Action α} (stepped : step capacity state event = some next) :
    Step capacity state event next := by
  unfold step at stepped
  split at stepped <;> split at stepped
  all_goals first
    | cases stepped; constructor <;> assumption
    | split at stepped <;> cases stepped <;> constructor <;> assumption
    | cases stepped

end Step

/-! ## Arithmetic of the sequence numbers -/

theorem slot_ofNat (capacity : PowerOfTwo) (position : Nat) :
    slot capacity (BitVec.ofNat 64 position) = position % capacity.toNat :=
  capacity.ofNat_and_mask_toNat position

theorem enqueueBranch_cases (ptr : α) (pos seq : Word64) :
    (enqueueBranch ptr pos seq = .enqMatched ptr pos ∧ seq = pos) ∨
      enqueueBranch ptr pos seq = .idle ∨
      enqueueBranch ptr pos seq = .enqStarted ptr := by
  unfold enqueueBranch
  split
  · rename_i zero
    exact .inl ⟨rfl, by bv_omega⟩
  · split
    · exact .inr (.inl rfl)
    · exact .inr (.inr rfl)

theorem dequeueBranch_cases (α : Type u) (pos seq : Word64) :
    (dequeueBranch pos seq = (.deqMatched pos : Phase α) ∧ seq = pos + 1) ∨
      dequeueBranch pos seq = (.idle : Phase α) ∨
      dequeueBranch pos seq = (.deqStarted : Phase α) := by
  unfold dequeueBranch
  split
  · rename_i zero
    exact .inl ⟨rfl, by bv_omega⟩
  · split
    · exact .inr (.inl rfl)
    · exact .inr (.inr rfl)

end FeederNet.Queue.CustomMPMCLockFreeQueue
