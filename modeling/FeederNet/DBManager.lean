import FeederNet.Foundation.TransitionSystem
import FeederNet.Messages

/-! # DBManager

The three loops that take messages from a queue and write them to a table, each
transaction with its rows one at a time. The pool takes back every buffer it is given.
-/

namespace FeederNet.DBManager

variable {Double : Type u}

/-- A message in its buffer. `following` is what lies behind the buffer in memory when
the row is built. -/
structure Message (Double : Type u) where
  buffer : Nat
  contents : ITCHTradeMsg Double
  following : List UInt8
  deriving DecidableEq, Repr

structure Row (Double : Type u) where
  messageType : List UInt8
  sequenceNumber : Word64
  tradeId : Word64
  timestamp : Word64
  price : Double
  quantity : Double
  buyerIsMaker : Bool
  bestMatch : Bool
  symbol : List UInt8
  deriving DecidableEq, Repr

/-- The parameters that all three commit functions build from a message. The string of
the symbol ends at the first zero byte, inside the field or behind it. -/
def Message.row (msg : Message Double) : Row Double where
  messageType := [msg.contents.messageType]
  sequenceNumber := msg.contents.sequenceNumber
  tradeId := msg.contents.tradeId
  timestamp := msg.contents.timestamp
  price := msg.contents.price
  quantity := msg.contents.quantity
  buyerIsMaker := msg.contents.buyerIsMaker
  bestMatch := msg.contents.bestMatch
  symbol := (msg.contents.symbol.toList ++ msg.following).takeWhile fun byte => byte ≠ 0

/-- Where the thread stands. `last` marks the flush after the loop. -/
inductive Phase
  | polling
  /-- Before `pqxx::work txn`. -/
  | beginning (last : Bool)
  /-- Before the row with this index in the batch. -/
  | writing (index : Nat) (last : Bool)
  /-- Before `stream.complete()`. -/
  | completing (last : Bool)
  /-- Before `txn.commit()`. -/
  | committing (last : Bool)
  /-- Before the buffer with this index in the batch goes back to the pool. -/
  | returning (index : Nat) (last : Bool)
  | stopped
  deriving DecidableEq, Repr

/-- `held` is the batch, or the one message of `runSingle`; `pending` are the messages
whose rows the open transaction has taken, `transactions` those of each committed
transaction, and `returned` those whose buffers went back to the pool. -/
structure State (Double : Type u) where
  phase : Phase
  held : List (Message Double)
  pending : List (Message Double)
  dequeued : List (Message Double)
  transactions : List (List (Message Double))
  returned : List (Message Double)

/-- What the loop finds at its head: `runFlag_` cleared, or the result of
`recvQueue_.dequeue()`. -/
inductive Poll (Double : Type u)
  | stop
  | dequeue (msg : Option (Message Double))
  deriving DecidableEq, Repr

inductive Event (Double : Type u)
  | poll (found : Poll Double)
  /-- The next call of a commit function, or the next `deallocate`, succeeds. -/
  | proceed
  /-- The next call of a commit function throws. -/
  | throw
  deriving DecidableEq, Repr

namespace State

def initial : State Double where
  phase := .polling
  held := []
  pending := []
  dequeued := []
  transactions := []
  returned := []

def goto (state : State Double) (phase : Phase) : State Double :=
  { state with phase := phase }

/-- `batch.clear()`, and the end of `run` after the last flush. -/
def clear (state : State Double) (last : Bool) : State Double :=
  { state with
    phase := if last then .stopped else .polling
    held := [] }

def flushed (state : State Double) (destroyMessages last : Bool) : State Double :=
  if destroyMessages then state.goto (.returning 0 last) else state.clear last

/-- The transaction is gone, and its rows with it. The exception is only printed. -/
def abort (state : State Double) (destroyMessages last : Bool) : State Double :=
  { state with pending := [] }.flushed destroyMessages last

end State

/-- One of the three `run` functions: what its loop does with what it finds, and whether
its commit function has a stream to complete. -/
structure Loop (Double : Type u) where
  poll : State Double → Poll Double → State Double
  completes : Bool

def pollBatch (commitBatchSize : Nat) (state : State Double) : Poll Double → State Double
  | .stop => if state.held = [] then state.goto .stopped else state.goto (.beginning true)
  | .dequeue none => if state.held = [] then state else state.goto (.beginning false)
  | .dequeue (some msg) =>
      let batch := state.held ++ [msg]
      { state with
        held := batch
        dequeued := state.dequeued ++ [msg]
        phase := if batch.length ≥ commitBatchSize then .beginning false else .polling }

def runSingle : Loop Double where
  poll state
    | .stop => state.goto .stopped
    | .dequeue none => state
    | .dequeue (some msg) =>
        { state with
          held := [msg]
          dequeued := state.dequeued ++ [msg]
          phase := .beginning false }
  completes := false

def runBatch (commitBatchSize : Nat) : Loop Double where
  poll := pollBatch commitBatchSize
  completes := false

def runCopy (commitBatchSize : Nat) : Loop Double where
  poll := pollBatch commitBatchSize
  completes := true

/-- The call that comes next succeeds. -/
def proceed (completes destroyMessages : Bool) (state : State Double) :
    Option (State Double) :=
  match state.phase with
  | .polling | .stopped => none
  | .beginning last => some { state with phase := .writing 0 last, pending := [] }
  | .writing index last =>
      match state.held[index]? with
      | some msg =>
          some { state with
            phase := .writing (index + 1) last
            pending := state.pending ++ [msg] }
      | none =>
          some (state.goto (if completes then .completing last else .committing last))
  | .completing last => some (state.goto (.committing last))
  | .committing last =>
      some ({ state with
        transactions := state.transactions ++ [state.pending]
        pending := [] }.flushed destroyMessages last)
  | .returning index last =>
      match state.held[index]? with
      | some msg =>
          some { state with
            phase := .returning (index + 1) last
            returned := state.returned ++ [msg] }
      | none => some (state.clear last)

/-- The call that comes next throws. There is none to throw after the last row. -/
def throws (destroyMessages : Bool) (state : State Double) : Option (State Double) :=
  match state.phase with
  | .beginning last | .completing last | .committing last =>
      some (state.abort destroyMessages last)
  | .writing index last =>
      if index < state.held.length then some (state.abort destroyMessages last) else none
  | .polling | .returning _ _ | .stopped => none

def step (loop : Loop Double) (destroyMessages : Bool) (state : State Double) :
    Event Double → Option (State Double)
  | .poll found => if state.phase = .polling then some (loop.poll state found) else none
  | .proceed => proceed loop.completes destroyMessages state
  | .throw => throws destroyMessages state

@[reducible] def system (loop : Loop Double) (destroyMessages : Bool) :
    TransitionSystem (State Double) (Event Double) :=
  .ofStep .initial (step loop destroyMessages)

end FeederNet.DBManager
