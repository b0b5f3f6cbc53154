import FeederNet.Messages.Wire
import FeederNet.TradeFeed.TradeDataSequencer

/-! # The recovery stream

`receiveRecoveryMessages` on the bytes that the non-blocking socket has to offer at
each `recv`. A `recv` of the size of a message is one whole message for the sequencer;
a shorter one is dropped.
-/

namespace FeederNet.TradeFeed.TradeRecoveryManager

abbrev Msg := ITCHTradeMsg Word64

/-- One turn of the receive loop. `accepted` is what `sendQueue_.enqueue` will answer
for a message that gets there. -/
inductive Arrival
  | timeout
  /-- `epoll_wait` fails, or reports no input. -/
  | epollFailed
  /-- The bytes that `recv` finds. There are none when the connection is closed. -/
  | recv (bytes : List UInt8) (accepted : Bool)
  deriving DecidableEq, Repr

namespace Arrival

def event : Arrival → TradeDataSequencer.Event Msg
  | .timeout => .timeout
  | .epollFailed => .epollFailed
  | .recv bytes accepted =>
      if bytes.length ≠ ITCHTradeMsg.size then
        if bytes.length = 0 then .receiveClosed else .receiveShort
      else .receive (ITCHTradeMsg.ofBytes bytes) accepted

def message : Arrival → List Msg
  | .recv bytes _ =>
      if bytes.length = ITCHTradeMsg.size then [ITCHTradeMsg.ofBytes bytes] else []
  | _ => []

/-- Some bytes of the stream, at most a message, or none yet. -/
def Open : Arrival → Prop
  | .timeout => True
  | .epollFailed => False
  | .recv bytes _ => 1 ≤ bytes.length ∧ bytes.length ≤ ITCHTradeMsg.size

instance : DecidablePred Open
  | .timeout => .isTrue trivial
  | .epollFailed => .isFalse id
  | .recv bytes _ =>
      inferInstanceAs
        (Decidable (1 ≤ bytes.length ∧ bytes.length ≤ ITCHTradeMsg.size))

def bytesOf : Arrival → Option (List UInt8)
  | .recv bytes _ => some bytes
  | _ => none

end Arrival

/-- `passed` lists the messages handed to the sequencer. -/
structure State where
  sequencer : TradeDataSequencer.State Msg
  passed : List Msg

/-- Once the loop is left, nothing more is received. -/
def State.receive (state : State) (arrival : Arrival) : State :=
  match TradeDataSequencer.step state.sequencer arrival.event with
  | none => state
  | some sequencer =>
      { sequencer := sequencer
        passed := state.passed ++ arrival.message }

def receiveRecoveryMessages (sequencer : TradeDataSequencer.State Msg) (msg : Msg)
    (startSeq endSeq : Word64) (arrivals : List Arrival) : State :=
  arrivals.foldl State.receive
    ⟨sequencer.receiveLoop msg (endSeq - startSeq + 1) 0, []⟩

/-! ## Replies -/

def NumberedFrom (first : Word64) : List Msg → Prop
  | [] => True
  | msg :: rest => msg.sequenceNumber = first ∧ NumberedFrom (first + 1) rest

structure Reply (startSeq endSeq : Word64) (reply : List Msg) : Prop where
  ordered : startSeq ≤ endSeq
  count : reply.length = endSeq.toNat - startSeq.toNat + 1
  numbered : NumberedFrom startSeq reply

/-- What `recv` finds on the socket, turn by turn. -/
def piecesOf (arrivals : List Arrival) : List (List UInt8) :=
  arrivals.filterMap Arrival.bytesOf

/-- The loop counts the messages in a word. Every `recv` that finds bytes finds a whole
message. -/
def WholeReads (startSeq endSeq : Word64) (arrivals : List Arrival) : Prop :=
  endSeq - startSeq + 1 ≠ 0 ∧
    ∀ bytes ∈ piecesOf arrivals, bytes.length = ITCHTradeMsg.size

section Receive

variable {state : State} {arrivals : List Arrival} {reply : List Msg}

theorem length_passed_receive_le (state : State) (arrival : Arrival) :
    (state.receive arrival).passed.length ≤
      state.passed.length + arrival.message.length := by
  unfold State.receive
  split
  · omega
  · rw [List.length_append]

theorem length_message (arrival : Arrival) : arrival.message.length =
    (wholePieces ITCHTradeMsg.size arrival.bytesOf.toList).length := by
  cases arrival with
  | recv bytes accepted =>
      by_cases whole : bytes.length = ITCHTradeMsg.size
      · simp [Arrival.message, Arrival.bytesOf, wholePieces, whole]
      · simp [Arrival.message, Arrival.bytesOf, wholePieces, whole]
  | _ => rfl

theorem piecesOf_cons (arrival : Arrival) (arrivals : List Arrival) :
    piecesOf (arrival :: arrivals) = arrival.bytesOf.toList ++ piecesOf arrivals := by
  cases arrival <;> rfl

theorem length_passed_le (state : State) (arrivals : List Arrival) :
    (arrivals.foldl State.receive state).passed.length ≤
      state.passed.length +
        (wholePieces ITCHTradeMsg.size (piecesOf arrivals)).length := by
  induction arrivals generalizing state with
  | nil => exact Nat.le_add_right _ _
  | cons arrival arrivals induction =>
      have first := length_passed_receive_le state arrival
      have rest := induction (state.receive arrival)
      rw [length_message] at first
      rw [List.foldl_cons, piecesOf_cons, wholePieces, List.filter_append,
        List.length_append, ← wholePieces, ← wholePieces]
      omega

theorem foldl_receive_of_forwarding {sequencer : TradeDataSequencer.State Msg}
    {msg : Msg} {cutShort : Bool} (left : sequencer.phase = .forwarding msg cutShort)
    (passed : List Msg) (arrivals : List Arrival) :
    arrivals.foldl State.receive ⟨sequencer, passed⟩ = ⟨sequencer, passed⟩ := by
  induction arrivals with
  | nil => rfl
  | cons arrival arrivals induction =>
      have refused : TradeDataSequencer.step sequencer arrival.event = none := by
        cases arrival with
        | recv bytes accepted =>
            simp only [Arrival.event]
            split
            · split
              · simp [TradeDataSequencer.step, left]
              · simp [TradeDataSequencer.step, left]
            · simp [TradeDataSequencer.step, left]
        | _ => simp [Arrival.event, TradeDataSequencer.step, left]
      rw [List.foldl_cons, State.receive, refused]
      exact induction

section Loop

variable (sequencer : TradeDataSequencer.State Msg) (msg : Msg)
  {numMessages messagesReceived : Word64} (passed : List Msg)

theorem receive_timeout (more : messagesReceived < numMessages) :
    State.receive ⟨sequencer.receiveLoop msg numMessages messagesReceived, passed⟩
      .timeout =
        ⟨sequencer.receiveLoop msg numMessages messagesReceived, passed⟩ := by
  simp [State.receive, Arrival.event, Arrival.message, TradeDataSequencer.step,
    TradeDataSequencer.State.receiveLoop, more, TradeDataSequencer.State.goto]

theorem receive_expected (more : messagesReceived < numMessages) (expected : Msg)
    (number : expected.sequenceNumber = sequencer.nextSequence) (accepted : Bool) :
    State.receive ⟨sequencer.receiveLoop msg numMessages messagesReceived, passed⟩
      (.recv expected.toBytes accepted) =
        ⟨(sequencer.enqueue expected accepted).receiveLoop msg numMessages
          (messagesReceived + 1), passed ++ [expected]⟩ := by
  have next : sequenceNumber expected = sequencer.nextSequence := number
  have event : (Arrival.recv expected.toBytes accepted).event =
      .receive expected accepted := by
    simp [Arrival.event]
  have message : (Arrival.recv expected.toBytes accepted).message = [expected] := by
    simp [Arrival.message]
  have looping : sequencer.receiveLoop msg numMessages messagesReceived =
      sequencer.goto (.recovering msg numMessages messagesReceived) := if_pos more
  have same : ((sequencer.goto (.recovering msg numMessages messagesReceived)).enqueue
      expected accepted).receiveLoop msg numMessages (messagesReceived + 1) =
        (sequencer.enqueue expected accepted).receiveLoop msg numMessages
          (messagesReceived + 1) := by
    unfold TradeDataSequencer.State.receiveLoop
    split
    · rfl
    · rfl
  have recovered : (sequencer.goto
      (.recovering msg numMessages messagesReceived)).onRecoveredMsg expected accepted =
        some ((sequencer.goto
          (.recovering msg numMessages messagesReceived)).enqueue expected accepted) :=
    if_neg (not_not_intro next)
  rw [looping, State.receive, event, message]
  simp only [TradeDataSequencer.step, TradeDataSequencer.State.goto] at recovered ⊢
  rw [recovered]
  exact congrArg (State.mk · _) same

end Loop

theorem receiveLoop_finished (sequencer : TradeDataSequencer.State Msg) (msg : Msg)
    {numMessages messagesReceived : Word64} (finished : ¬ messagesReceived < numMessages) :
    (sequencer.receiveLoop msg numMessages messagesReceived).phase =
      .forwarding msg false := by
  rw [TradeDataSequencer.State.receiveLoop, if_neg finished]
  rfl

theorem nonempty_of_live (live : ∀ arrival ∈ arrivals, arrival.Open) :
    ∀ bytes ∈ piecesOf arrivals, bytes ≠ [] := by
  intro bytes member empty
  rcases List.mem_filterMap.mp member with ⟨arrival, arrived, found⟩
  cases arrival with
  | recv _ accepted =>
      cases found
      have sized := (live _ arrived).1
      rw [empty] at sized
      exact absurd sized (by decide)
  | _ => cases found

/-- Whole reads of the messages that are still to come pass exactly these on. -/
theorem passed_of_whole_reads (sequencer : TradeDataSequencer.State Msg) (msg : Msg)
    (numMessages messagesReceived : Word64) (passed : List Msg)
    (live : ∀ arrival ∈ arrivals, arrival.Open)
    (pieces : piecesOf arrivals = reply.map ITCHTradeMsg.toBytes)
    (remaining : numMessages.toNat = messagesReceived.toNat + reply.length)
    (numbered : NumberedFrom sequencer.nextSequence reply) :
    (arrivals.foldl State.receive
      ⟨sequencer.receiveLoop msg numMessages messagesReceived, passed⟩).passed =
        passed ++ reply := by
  induction arrivals generalizing sequencer messagesReceived passed reply with
  | nil =>
      have none : reply = [] := List.map_eq_nil_iff.mp pieces.symm
      rw [none, List.append_nil]
      rfl
  | cons arrival arrivals induction =>
      rw [List.forall_mem_cons] at live
      cases reply with
      | nil =>
          have finished : ¬ messagesReceived < numMessages := by
            rw [BitVec.lt_def, remaining]
            exact Nat.lt_irrefl _
          rw [foldl_receive_of_forwarding (receiveLoop_finished sequencer msg finished),
            List.append_nil]
      | cons expected reply =>
          have more : messagesReceived < numMessages := by
            rw [BitVec.lt_def, remaining, List.length_cons]
            omega
          rw [List.foldl_cons]
          cases arrival with
          | epollFailed => exact live.1.elim
          | timeout =>
              rw [receive_timeout sequencer msg passed more]
              exact induction sequencer messagesReceived passed live.2 pieces remaining
                numbered
          | recv bytes accepted =>
              rw [piecesOf_cons, List.map_cons] at pieces
              rcases List.cons.inj pieces with ⟨rfl, rest⟩
              have counted : (messagesReceived + 1).toNat = messagesReceived.toNat + 1 := by
                bv_omega
              rw [receive_expected sequencer msg passed more expected numbered.1 accepted,
                induction _ _ _ live.2 rest _ _, List.append_assoc]
              · rfl
              · rw [counted, remaining, List.length_cons]
                omega
              · exact numbered.2

end Receive

/-- When the reply to a request arrives in pieces, the sequencer is handed exactly the
messages of the reply if and only if every piece that `recv` finds is a whole message,
and the gap is not the full range of sequence numbers. -/
theorem passed_iff_whole_reads (sequencer : TradeDataSequencer.State Msg) (msg : Msg)
    (endSeq : Word64) (reply : List Msg)
    (replied : Reply sequencer.nextSequence endSeq reply) (arrivals : List Arrival)
    (live : ∀ arrival ∈ arrivals, arrival.Open)
    (stream : (piecesOf arrivals).flatten = reply.flatMap ITCHTradeMsg.toBytes) :
    (receiveRecoveryMessages sequencer msg sequencer.nextSequence endSeq
      arrivals).passed = reply ↔
        WholeReads sequencer.nextSequence endSeq arrivals := by
  have sized : ∀ frame ∈ reply.map ITCHTradeMsg.toBytes,
      frame.length = ITCHTradeMsg.size :=
    List.forall_mem_map.mpr fun msg _ => ITCHTradeMsg.length_toBytes msg
  rw [List.flatMap_def] at stream
  constructor
  · intro complete
    rw [receiveRecoveryMessages] at complete
    constructor
    · intro wraps
      rw [wraps, foldl_receive_of_forwarding (receiveLoop_finished sequencer msg
        (BitVec.lt_irrefl _))] at complete
      have some := replied.count
      rw [← complete, List.length_nil] at some
      omega
    · apply forall_length_eq_of_count (nonempty_of_live live) sized stream
      have handed := length_passed_le
        ⟨sequencer.receiveLoop msg (endSeq - sequencer.nextSequence + 1) 0, []⟩ arrivals
      rw [complete, List.length_nil, Nat.zero_add] at handed
      rw [List.length_map]
      exact handed
  · intro given
    rcases given with ⟨counts, whole⟩
    have pieces : piecesOf arrivals = reply.map ITCHTradeMsg.toBytes :=
      eq_of_flatten_eq whole sized (by decide) stream
    have remaining : (endSeq - sequencer.nextSequence + 1).toNat =
        (0 : Word64).toNat + reply.length := by
      have ordered := replied.ordered
      rw [replied.count]
      bv_omega
    rw [receiveRecoveryMessages, passed_of_whole_reads sequencer msg _ _ [] live pieces
      remaining replied.numbered]
    rfl

/-! ## Short replies -/

def trade (sequence : Word64) : Msg where
  messageType := 80
  sequenceNumber := sequence
  tradeId := 7
  timestamp := 1000
  price := 0
  quantity := 0
  buyerIsMaker := true
  bestMatch := false
  symbol := Vector.replicate 8 66

theorem passed_iff_whole_reads_twice :
    (receiveRecoveryMessages (.initial 5) (trade 7) 5 6
      [.recv (trade 5).toBytes true, .timeout, .recv (trade 6).toBytes true]).passed =
        [trade 5, trade 6] ↔
      WholeReads 5 6
        [.recv (trade 5).toBytes true, .timeout, .recv (trade 6).toBytes true] :=
  passed_iff_whole_reads (.initial 5) (trade 7) 6 [trade 5, trade 6]
    ⟨by decide, by decide, rfl, rfl, trivial⟩
    [.recv (trade 5).toBytes true, .timeout, .recv (trade 6).toBytes true]
    (by decide) (by decide)

/-- The message arrives as 20 bytes and then 31: both are dropped. -/
theorem split_message_is_dropped :
    Reply 5 5 [trade 5] ∧
      (piecesOf [.recv ((trade 5).toBytes.take 20) true,
        .recv ((trade 5).toBytes.drop 20) true]).flatten =
          [trade 5].flatMap ITCHTradeMsg.toBytes ∧
      (receiveRecoveryMessages (.initial 5) (trade 6) 5 5
        [.recv ((trade 5).toBytes.take 20) true,
          .recv ((trade 5).toBytes.drop 20) true]).passed = [] :=
  ⟨⟨by decide, by decide, rfl, trivial⟩, by decide, by decide⟩

end FeederNet.TradeFeed.TradeRecoveryManager
