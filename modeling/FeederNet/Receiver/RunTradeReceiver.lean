import FeederNet.Receiver.Pipeline

/-! # RunTradeReceiver

`runMarketDataReceiverToSequencerPipeline`: the threads of the pipeline with the flags
that their loops test, and the main thread, which clears the flags one after the other and
joins the threads. No transaction fails, so a batch is committed when its flush begins.
-/

namespace FeederNet.Receiver.RunTradeReceiver

inductive Thread
  | receiver
  | sequencer
  | db
  deriving DecidableEq, Repr

inductive Main
  | sleeping
  | sequencerStopped
  | receiverStopped
  | dbStopped
  | joined
  deriving DecidableEq, Repr

def Main.runFlag : Main → Thread → Bool
  | .sleeping, _ => true
  | .sequencerStopped, thread => thread ≠ .sequencer
  | .receiverStopped, thread => thread = .db
  | .dbStopped, _ | .joined, _ => false

structure Message where
  buffer : Nat
  sequenceNumber : Word64
  deriving DecidableEq, Repr

/-- `tested` are the threads that found their flag set and have not gone on yet. The last
fields are the messages that `downstreamQ` accepted, those that it had accepted when
`DBManager::stop` cleared the flag, those committed, and the buffers that `runCopy` gave
back. -/
structure State where
  pipeline : Pipeline
  main : Main
  tested : Thread → Bool
  sequenced : List Message
  before : List Message
  committed : List Message
  returned : List Nat

inductive Event
  /-- The thread finds its flag set. -/
  | test (thread : Thread)
  /-- A step of a thread. The `stop` of its loop is the test that finds the flag
  cleared. -/
  | thread (event : Receiver.Event)
  /-- The next call in the main thread. -/
  | main
  deriving DecidableEq, Repr

def threadOf : Receiver.Event → Thread
  | .receiver _ => .receiver
  | .sequencer _ => .sequencer
  | .db _ => .db

def isStop : Receiver.Event → Bool
  | .receiver .stop | .sequencer .stop | .db .stop => true
  | _ => false

def AtTest (pipeline : Pipeline) : Thread → Prop
  | .receiver => pipeline.receiver = .looping
  | .sequencer => pipeline.sequencer = .polling ∧ pipeline.toSequencer.consumer = .idle
  | .db => pipeline.db = .polling ∧ pipeline.toDB.consumer = .idle

instance (pipeline : Pipeline) : (thread : Thread) → Decidable (AtTest pipeline thread)
  | .receiver => inferInstanceAs (Decidable (_ = _))
  | .sequencer => inferInstanceAs (Decidable (_ ∧ _))
  | .db => inferInstanceAs (Decidable (_ ∧ _))

def messageIn (pipeline : Pipeline) (buffer : Nat) : Message where
  buffer := buffer
  sequenceNumber := pipeline.sequenceNumber buffer

def accepts (current next : Pipeline) : List Nat :=
  next.toDB.accepted.drop current.toDB.accepted.length

def commits (current next : Pipeline) : List Nat :=
  if current.db = .polling ∧ next.db ≠ .polling then next.batch else []

def returns (current : Pipeline) : Receiver.Event → List Nat
  | .db .deallocate =>
      match current.db with
      | .flushing index _ => current.batch[index]?.toList
      | _ => []
  | _ => []

namespace State

def initial (poolMsgCount : Nat) : State where
  pipeline := .initial poolMsgCount
  main := .sleeping
  tested _ := false
  sequenced := []
  before := []
  committed := []
  returned := []

/-- A thread goes on from a flag it found set, and out of its loop from a flag it finds
cleared. -/
def Allows (state : State) (event : Receiver.Event) : Prop :=
  (isStop event = true →
    state.main.runFlag (threadOf event) = false ∧ state.tested (threadOf event) = false) ∧
  (isStop event = false → AtTest state.pipeline (threadOf event) →
    state.tested (threadOf event) = true)

instance (state : State) (event : Receiver.Event) : Decidable (state.Allows event) :=
  inferInstanceAs (Decidable (_ ∧ _))

def advance (state : State) (event : Receiver.Event) (next : Pipeline) : State where
  pipeline := next
  main := state.main
  tested := Function.update state.tested (threadOf event) false
  sequenced := state.sequenced ++ (accepts state.pipeline next).map (messageIn next)
  before := state.before
  committed := state.committed ++ (commits state.pipeline next).map (messageIn next)
  returned := state.returned ++ returns state.pipeline event

end State

def step (capacity : PowerOfTwo) (commitBatchSize : Nat) (state : State) :
    Event → Option State
  | .test thread =>
      if AtTest state.pipeline thread ∧ state.main.runFlag thread = true then
        some { state with tested := Function.update state.tested thread true }
      else none
  | .thread event =>
      if state.Allows event then
        (state.pipeline.step capacity commitBatchSize event).map (state.advance event)
      else none
  | .main =>
      match state.main with
      | .sleeping => some { state with main := .sequencerStopped }
      | .sequencerStopped => some { state with main := .receiverStopped }
      | .receiverStopped =>
          some { state with
            main := .dbStopped
            before := state.sequenced }
      | .dbStopped =>
          if state.pipeline.receiver = .stopped ∧ state.pipeline.sequencer = .stopped ∧
              state.pipeline.db = .stopped then
            some { state with main := .joined }
          else none
      | .joined => none

@[reducible] def system (poolMsgCount : Nat) (capacity : PowerOfTwo)
    (commitBatchSize : Nat) : TransitionSystem State Event :=
  .ofStep (.initial poolMsgCount) (step capacity commitBatchSize)

section Steps

variable {capacity : PowerOfTwo} {commitBatchSize : Nat} {state next : State}

theorem test_step {thread : Thread}
    (stepped : step capacity commitBatchSize state (.test thread) = some next) :
    state.main.runFlag thread = true ∧
      next = { state with tested := Function.update state.tested thread true } := by
  simp only [step] at stepped
  split at stepped
  · rename_i found
    cases stepped
    exact ⟨found.2, rfl⟩
  · cases stepped

theorem thread_step {event : Receiver.Event}
    (stepped : step capacity commitBatchSize state (.thread event) = some next) :
    state.Allows event ∧
      ∃ after, state.pipeline.step capacity commitBatchSize event = some after ∧
        next = state.advance event after := by
  simp only [step] at stepped
  split at stepped
  · rename_i allowed
    rcases Option.map_eq_some_iff.mp stepped with ⟨after, advanced, rfl⟩
    exact ⟨allowed, after, advanced, rfl⟩
  · cases stepped

end Steps

end FeederNet.Receiver.RunTradeReceiver
