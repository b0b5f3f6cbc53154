import FeederNet.Foundation.TransitionSystem
import FeederNet.Queue.CustomSPSCLockFreeQueue.Contents

/-! # The receiver pipeline

`MulticastTradeDataReceiver::run`, `TradeDataSequencer::run` with its recovery and
`DBManager::runCopy` with `DESTROY_MESSAGES`, joined by two
`CustomSPSCLockFreeQueue`s over one pool. A message is named by its buffer. The
pool is an atomic free list, and what `recv` writes to a buffer is arbitrary.
-/

namespace FeederNet.Receiver

open Queue (CustomSPSCLockFreeQueue.State CustomSPSCLockFreeQueue.step
  CustomSPSCLockFreeQueue.enqueueEvent CustomSPSCLockFreeQueue.dequeueEvent)

inductive MulticastReceiver
  | looping
  | receiving (msg : Nat)
  | returning (msg : Nat)
  | enqueueing (msg : Nat)
  | threw
  | stopped
  deriving DecidableEq, Repr

/-- Where the thread of `TradeDataSequencer` stands. `msg` is the message it
dequeued, `recovered` the buffer for a recovered one, which is `none` when the
pool returned `nullptr`. A thread that threw keeps what it had in hand. -/
inductive Sequencer
  | polling
  | dispatching (msg : Nat)
  | returning (msg : Nat)
  | requesting (msg : Nat)
  | waiting (msg : Nat) (numMessages messagesReceived : Word64)
  | receiving (msg : Nat) (recovered : Option Nat)
      (numMessages messagesReceived : Word64)
  | discarding (msg : Nat) (recovered : Option Nat)
      (numMessages messagesReceived : Word64) (closed : Bool)
  | checking (msg recovered : Nat) (numMessages messagesReceived : Word64)
  | enqueueingRecovered (msg recovered : Nat) (numMessages messagesReceived : Word64)
  | enqueueing (msg : Nat)
  | threw (held : List Nat)
  | stopped
  deriving DecidableEq, Repr

/-- Where the thread of `DBManager` stands. While it flushes, `index` is the
position of the loop over the batch; `stopping` marks the flush after the main
loop. -/
inductive DB
  | polling
  | flushing (index : Nat) (stopping : Bool)
  | stopped
  deriving DecidableEq, Repr

structure Pipeline where
  free : List Nat
  sequenceNumber : Nat → Word64
  receiver : MulticastReceiver
  toSequencer : CustomSPSCLockFreeQueue.State Nat
  sequencer : Sequencer
  nextSequence : Word64
  toDB : CustomSPSCLockFreeQueue.State Nat
  batch : List Nat
  db : DB

inductive ReceiverEvent
  | stop
  | allocate (msg : Nat)
  | exhausted
  | received (contents : Word64)
  | receiveFailed (contents : Word64)
  | deallocate
  | enqueue
  deriving DecidableEq, Repr

inductive SequencerEvent
  | stop
  | dequeue
  | dispatch
  | deallocate
  | sendRequest
  | requestFailed
  | timeout
  | epollFailed
  | allocate (msg : Nat)
  | exhausted
  | received (contents : Word64)
  | receiveShort (contents : Word64)
  | receiveClosed (contents : Word64)
  | onRecoveredMsg
  | enqueue
  deriving DecidableEq, Repr

inductive DBEvent
  | stop
  | dequeue
  | deallocate
  deriving DecidableEq, Repr

inductive Event
  | receiver (event : ReceiverEvent)
  | sequencer (event : SequencerEvent)
  | db (event : DBEvent)
  deriving DecidableEq, Repr

namespace Pipeline

def initial (poolMsgCount : Nat) : Pipeline where
  free := List.range poolMsgCount
  sequenceNumber _ := 0
  receiver := .looping
  toSequencer := Queue.CustomSPSCLockFreeQueue.initial
  sequencer := .polling
  nextSequence := 0
  toDB := Queue.CustomSPSCLockFreeQueue.initial
  batch := []
  db := .polling

def overwrite (pipeline : Pipeline) (msg : Nat) (contents : Word64) : Pipeline :=
  { pipeline with
    sequenceNumber := Function.update pipeline.sequenceNumber msg contents }

def receiverStep (capacity : PowerOfTwo) (pipeline : Pipeline) :
    ReceiverEvent → Option Pipeline
  | .stop =>
      match pipeline.receiver with
      | .looping => some { pipeline with receiver := .stopped }
      | _ => none
  | .allocate msg =>
      match pipeline.receiver with
      | .looping =>
          if msg ∈ pipeline.free then
            some { pipeline with
              free := pipeline.free.erase msg
              receiver := .receiving msg }
          else none
      | _ => none
  | .exhausted =>
      match pipeline.receiver with
      | .looping =>
          if pipeline.free = [] then some { pipeline with receiver := .threw } else none
      | _ => none
  | .received contents =>
      match pipeline.receiver with
      | .receiving msg =>
          some { pipeline.overwrite msg contents with receiver := .enqueueing msg }
      | _ => none
  | .receiveFailed contents =>
      match pipeline.receiver with
      | .receiving msg =>
          some { pipeline.overwrite msg contents with receiver := .returning msg }
      | _ => none
  | .deallocate =>
      match pipeline.receiver with
      | .returning msg =>
          some { pipeline with
            free := msg :: pipeline.free
            receiver := .looping }
      | _ => none
  | .enqueue =>
      match pipeline.receiver with
      | .enqueueing msg =>
          (CustomSPSCLockFreeQueue.step capacity pipeline.toSequencer
            (CustomSPSCLockFreeQueue.enqueueEvent msg
              pipeline.toSequencer.producer)).map fun queue =>
            { pipeline with
              toSequencer := queue
              receiver :=
                if queue.producer = .idle then .looping else .enqueueing msg }
      | _ => none

def dispatch (pipeline : Pipeline) (msg : Nat) : Sequencer :=
  if pipeline.sequenceNumber msg > pipeline.nextSequence then .requesting msg
  else if pipeline.sequenceNumber msg < pipeline.nextSequence then .returning msg
  else .enqueueing msg

def receiveLoop (msg : Nat) (numMessages messagesReceived : Word64) : Sequencer :=
  if messagesReceived < numMessages then .waiting msg numMessages messagesReceived
  else .enqueueing msg

/-- What a failed `recv` leads to once its buffer is back in the pool, which
refuses `nullptr`. -/
def discarded (msg : Nat) (recovered : Option Nat)
    (numMessages messagesReceived : Word64) (closed : Bool) : Sequencer :=
  match recovered, closed with
  | none, _ => .threw [msg]
  | some _, true => .enqueueing msg
  | some _, false => receiveLoop msg numMessages messagesReceived

def sequencerStep (capacity : PowerOfTwo) (pipeline : Pipeline) :
    SequencerEvent → Option Pipeline
  | .stop =>
      match pipeline.sequencer, pipeline.toSequencer.consumer with
      | .polling, .idle => some { pipeline with sequencer := .stopped }
      | _, _ => none
  | .dequeue =>
      match pipeline.sequencer with
      | .polling =>
          (CustomSPSCLockFreeQueue.step capacity pipeline.toSequencer
            (CustomSPSCLockFreeQueue.dequeueEvent
              pipeline.toSequencer.consumer)).map fun queue =>
            { pipeline with
              toSequencer := queue
              sequencer :=
                match pipeline.toSequencer.returns capacity with
                | some (some msg) => .dispatching msg
                | _ => .polling }
      | _ => none
  | .dispatch =>
      match pipeline.sequencer with
      | .dispatching msg => some { pipeline with sequencer := pipeline.dispatch msg }
      | _ => none
  | .deallocate =>
      match pipeline.sequencer with
      | .returning msg =>
          some { pipeline with
            free := msg :: pipeline.free
            sequencer := .polling }
      | .discarding msg recovered numMessages messagesReceived closed =>
          some { pipeline with
            free := recovered.toList ++ pipeline.free
            sequencer :=
              discarded msg recovered numMessages messagesReceived closed }
      | _ => none
  | .sendRequest =>
      match pipeline.sequencer with
      | .requesting msg =>
          let startSeq := pipeline.nextSequence
          let endSeq := pipeline.sequenceNumber msg - 1
          some { pipeline with
            sequencer := receiveLoop msg (endSeq - startSeq + 1) 0 }
      | _ => none
  | .requestFailed =>
      match pipeline.sequencer with
      | .requesting msg => some { pipeline with sequencer := .threw [msg] }
      | _ => none
  | .timeout =>
      match pipeline.sequencer with
      | .waiting _ _ _ => some pipeline
      | _ => none
  | .epollFailed =>
      match pipeline.sequencer with
      | .waiting msg _ _ => some { pipeline with sequencer := .enqueueing msg }
      | _ => none
  | .allocate recovered =>
      match pipeline.sequencer with
      | .waiting msg numMessages messagesReceived =>
          if recovered ∈ pipeline.free then
            some { pipeline with
              free := pipeline.free.erase recovered
              sequencer :=
                .receiving msg (some recovered) numMessages messagesReceived }
          else none
      | _ => none
  | .exhausted =>
      match pipeline.sequencer with
      | .waiting msg numMessages messagesReceived =>
          if pipeline.free = [] then
            some { pipeline with
              sequencer := .receiving msg none numMessages messagesReceived }
          else none
      | _ => none
  | .received contents =>
      match pipeline.sequencer with
      | .receiving msg (some recovered) numMessages messagesReceived =>
          some { pipeline.overwrite recovered contents with
            sequencer := .checking msg recovered numMessages messagesReceived }
      | _ => none
  | .receiveShort contents =>
      match pipeline.sequencer with
      | .receiving msg (some recovered) numMessages messagesReceived =>
          some { pipeline.overwrite recovered contents with
            sequencer :=
              .discarding msg (some recovered) numMessages messagesReceived false }
      | _ => none
  | .receiveClosed contents =>
      match pipeline.sequencer with
      | .receiving msg (some recovered) numMessages messagesReceived =>
          some { pipeline.overwrite recovered contents with
            sequencer :=
              .discarding msg (some recovered) numMessages messagesReceived true }
      | .receiving msg none numMessages messagesReceived =>
          some { pipeline with
            sequencer := .discarding msg none numMessages messagesReceived true }
      | _ => none
  | .onRecoveredMsg =>
      match pipeline.sequencer with
      | .checking msg recovered numMessages messagesReceived =>
          if pipeline.sequenceNumber recovered ≠ pipeline.nextSequence then
            some { pipeline with sequencer := .threw [msg, recovered] }
          else
            some { pipeline with
              sequencer :=
                .enqueueingRecovered msg recovered numMessages messagesReceived }
      | _ => none
  | .enqueue =>
      match pipeline.sequencer with
      | .enqueueing msg =>
          (CustomSPSCLockFreeQueue.step capacity pipeline.toDB
            (CustomSPSCLockFreeQueue.enqueueEvent msg
              pipeline.toDB.producer)).map fun queue =>
            if queue.producer = .idle then
              { pipeline with
                toDB := queue
                sequencer := .polling
                nextSequence := pipeline.nextSequence + 1 }
            else { pipeline with toDB := queue }
      | .enqueueingRecovered msg recovered numMessages messagesReceived =>
          (CustomSPSCLockFreeQueue.step capacity pipeline.toDB
            (CustomSPSCLockFreeQueue.enqueueEvent recovered
              pipeline.toDB.producer)).map fun queue =>
            if queue.producer = .idle then
              { pipeline with
                toDB := queue
                sequencer := receiveLoop msg numMessages (messagesReceived + 1)
                nextSequence := pipeline.nextSequence + 1 }
            else { pipeline with toDB := queue }
      | _ => none

/-- `runCopy` commits before it flushes; a failed commit is only reported. -/
def dbStep (capacity : PowerOfTwo) (commitBatchSize : Nat) (pipeline : Pipeline) :
    DBEvent → Option Pipeline
  | .stop =>
      match pipeline.db, pipeline.toDB.consumer with
      | .polling, .idle => some { pipeline with db := .flushing 0 true }
      | _, _ => none
  | .dequeue =>
      match pipeline.db with
      | .polling =>
          (CustomSPSCLockFreeQueue.step capacity pipeline.toDB
            (CustomSPSCLockFreeQueue.dequeueEvent
              pipeline.toDB.consumer)).map fun queue =>
            match pipeline.toDB.returns capacity with
            | none => { pipeline with toDB := queue }
            | some none =>
                { pipeline with
                  toDB := queue
                  db := if pipeline.batch = [] then .polling else .flushing 0 false }
            | some (some msg) =>
                { pipeline with
                  toDB := queue
                  batch := pipeline.batch ++ [msg]
                  db :=
                    if (pipeline.batch ++ [msg]).length ≥ commitBatchSize then
                      .flushing 0 false
                    else .polling }
      | _ => none
  | .deallocate =>
      match pipeline.db with
      | .flushing index stopping =>
          match pipeline.batch[index]? with
          | some msg =>
              some { pipeline with
                free := msg :: pipeline.free
                db := .flushing (index + 1) stopping }
          | none =>
              some { pipeline with
                batch := []
                db := if stopping then .stopped else .polling }
      | _ => none

def step (capacity : PowerOfTwo) (commitBatchSize : Nat) (pipeline : Pipeline) :
    Event → Option Pipeline
  | .receiver event => pipeline.receiverStep capacity event
  | .sequencer event => pipeline.sequencerStep capacity event
  | .db event => pipeline.dbStep capacity commitBatchSize event

@[reducible] def system (poolMsgCount : Nat) (capacity : PowerOfTwo)
    (commitBatchSize : Nat) : TransitionSystem Pipeline Event :=
  .ofStep (initial poolMsgCount) (step capacity commitBatchSize)

end Pipeline

end FeederNet.Receiver
