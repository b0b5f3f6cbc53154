import FeederNet.Foundation.CString
import FeederNet.Foundation.TransitionSystem
import FeederNet.Messages
import Mathlib.Data.List.Range

/-! # AggregatedTradeMQSender

The thread in `run` and the one call of `stop` from another thread, over one map. Each of
`SendMQ` and `AggregateTrade` is one step, and nothing throws. The arithmetic of `double`
is a parameter.
-/

namespace FeederNet.AggTradeMQSender

variable {Double : Type u}

class Arithmetic (Double : Type u) extends Zero Double, Add Double, Mul Double,
    Div Double where
  /-- `%.6f`. -/
  fixed : Double → List UInt8

structure Trade (Double : Type u) where
  buffer : Nat
  contents : ITCHTradeMsg Double
  deriving DecidableEq, Repr

namespace Trade

def symbol (msg : Trade Double) : List UInt8 :=
  CString.boundedText msg.contents.symbol.toList 8

def msgTime (msg : Trade Double) : Word64 :=
  msg.contents.timestamp / 1000

end Trade

/-- An entry of `aggMap_`, with the messages that went into its sums. -/
structure Entry (Double : Type u) where
  symbol : List UInt8
  first : Double
  second : Double
  trades : List (Trade Double)
  deriving DecidableEq, Repr

/-- What `SendMQ` makes of an entry, with the messages behind it. -/
structure Record (Double : Type u) where
  symbol : List UInt8
  time : Word64
  vwap : Double
  trades : List (Trade Double)
  deriving DecidableEq, Repr

inductive RunPhase (Double : Type u)
  /-- Before the test of `runFlag_`. -/
  | testing
  | dequeuing
  /-- Before the comparison of `msgTime` with `currentTime_`. -/
  | comparing (msg : Trade Double)
  | sending (msg : Trade Double)
  /-- Before `currentTime_ = msgTime`. -/
  | setting (msg : Trade Double)
  | aggregating (msg : Trade Double)
  | deallocating (msg : Trade Double)
  | returned
  deriving DecidableEq, Repr

inductive StopPhase
  | waiting
  /-- Before `aggMap_.size() > 0`. -/
  | checking
  | sending
  | returned
  deriving DecidableEq, Repr

/-- `published` are the records sent, `dropped` those whose text did not fit, `dequeued`
the messages `run` got and `returned` those whose buffers went back to the pool. -/
structure State (Double : Type u) where
  runFlag : Bool
  currentTime : Word64
  aggMap : List (Entry Double)
  run : RunPhase Double
  stop : StopPhase
  dequeued : List (Trade Double)
  published : List (Record Double)
  dropped : List (Record Double)
  returned : List (Trade Double)

inductive Event (Double : Type u)
  | test
  | dequeue (found : Option (Trade Double))
  | compare
  /-- `SendMQ` in `run`, which visits the entries of the map in some order. -/
  | sendMQ (order : List Nat)
  | setTime
  | aggregateTrade
  | deallocate
  /-- `runFlag_.store(false)`. -/
  | stop
  | checkSize
  /-- `SendMQ` in `stop`. -/
  | stopSendMQ (order : List Nat)
  deriving DecidableEq, Repr

section Code

variable [Arithmetic Double]

namespace Record

def text (record : Record Double) : List UInt8 :=
  CString.text record.symbol ++ [44] ++ CString.decimal record.time.toNat ++ [44] ++
    Arithmetic.fixed record.vwap

/-- The text and its zero byte fit the buffer of `SendMQ`. -/
def Fits (record : Record Double) : Prop :=
  0 < record.text.length ∧ record.text.length < 128

instance (record : Record Double) : Decidable record.Fits :=
  inferInstanceAs (Decidable (_ ∧ _))

end Record

namespace Entry

def empty (symbol : List UInt8) : Entry Double where
  symbol := symbol
  first := 0
  second := 0
  trades := []

def add (entry : Entry Double) (msg : Trade Double) : Entry Double where
  symbol := entry.symbol
  first := entry.first + msg.contents.price * msg.contents.quantity
  second := entry.second + msg.contents.quantity
  trades := entry.trades ++ [msg]

def record (currentTime : Word64) (entry : Entry Double) : Record Double where
  symbol := entry.symbol
  time := currentTime
  vwap := entry.first / entry.second
  trades := entry.trades

end Entry

def aggregateTrade (msg : Trade Double) : List (Entry Double) → List (Entry Double)
  | [] => [(Entry.empty msg.symbol).add msg]
  | entry :: rest =>
      if entry.symbol = msg.symbol then entry.add msg :: rest
      else entry :: aggregateTrade msg rest

namespace State

/-- `currentTime` is when the object was constructed. -/
def initial (currentTime : Word64) : State Double where
  runFlag := true
  currentTime := currentTime
  aggMap := []
  run := .testing
  stop := .waiting
  dequeued := []
  published := []
  dropped := []
  returned := []

def records (state : State Double) (order : List Nat) : List (Record Double) :=
  (order.filterMap fun index => state.aggMap[index]?).map (Entry.record state.currentTime)

def sendMQ (order : List Nat) (state : State Double) : Option (State Double) :=
  if order.Perm (List.range state.aggMap.length) then
    some { state with
      aggMap := []
      published := state.published ++
        (state.records order).filter fun record => record.Fits
      dropped := state.dropped ++
        (state.records order).filter fun record => ¬ record.Fits }
  else none

end State

def step (destroyMessages : Bool) (state : State Double) :
    Event Double → Option (State Double)
  | .test =>
      match state.run with
      | .testing =>
          some { state with run := if state.runFlag then .dequeuing else .returned }
      | _ => none
  | .dequeue found =>
      match state.run, found with
      | .dequeuing, none => some { state with run := .testing }
      | .dequeuing, some msg =>
          some { state with
            run := .comparing msg
            dequeued := state.dequeued ++ [msg] }
      | _, _ => none
  | .compare =>
      match state.run with
      | .comparing msg =>
          some { state with
            run :=
              if msg.msgTime ≠ state.currentTime then .sending msg
              else .aggregating msg }
      | _ => none
  | .sendMQ order =>
      match state.run with
      | .sending msg =>
          (state.sendMQ order).map fun sent => { sent with run := .setting msg }
      | _ => none
  | .setTime =>
      match state.run with
      | .setting msg =>
          some { state with
            currentTime := msg.msgTime
            run := .aggregating msg }
      | _ => none
  | .aggregateTrade =>
      match state.run with
      | .aggregating msg =>
          some { state with
            aggMap := aggregateTrade msg state.aggMap
            run := if destroyMessages then .deallocating msg else .testing }
      | _ => none
  | .deallocate =>
      match state.run with
      | .deallocating msg =>
          some { state with
            run := .testing
            returned := state.returned ++ [msg] }
      | _ => none
  | .stop =>
      match state.stop with
      | .waiting =>
          some { state with
            runFlag := false
            stop := .checking }
      | _ => none
  | .checkSize =>
      match state.stop with
      | .checking =>
          some { state with
            stop := if state.aggMap.length > 0 then .sending else .returned }
      | _ => none
  | .stopSendMQ order =>
      match state.stop with
      | .sending =>
          (state.sendMQ order).map fun sent => { sent with stop := .returned }
      | _ => none

@[reducible] def system (destroyMessages : Bool) (currentTime : Word64) :
    TransitionSystem (State Double) (Event Double) :=
  .ofStep (.initial currentTime) (step destroyMessages)

end Code

end FeederNet.AggTradeMQSender
