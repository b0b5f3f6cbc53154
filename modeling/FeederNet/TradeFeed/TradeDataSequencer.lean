import FeederNet.Foundation.TransitionSystem
import FeederNet.Messages

/-! # TradeDataSequencer

The loop of `run` with the recovery it calls, as one thread whose steps end at
the outcomes of its system calls and of `sendQueue_.enqueue`.
-/

namespace FeederNet.TradeFeed.TradeDataSequencer

/-- Where the thread stands. While it recovers, `msg` is the message that showed
the gap. `cutShort` records that `receiveRecoveryMessages` left its loop through
a `break`. -/
inductive Phase (TradeMsg : Type u)
  | polling
  | requesting (msg : TradeMsg)
  | recovering (msg : TradeMsg) (numMessages messagesReceived : Word64)
  | forwarding (msg : TradeMsg) (cutShort : Bool)
  | threw
  | stopped
  deriving DecidableEq, Repr

inductive Event (TradeMsg : Type u)
  /-- `runFlag_` is found cleared. -/
  | stop
  /-- The result of `recvQueue_.dequeue()`. -/
  | dequeue (msg : Option TradeMsg)
  /-- The request is sent whole and the epoll instance set up. -/
  | sendRequest
  /-- One of those two failed. -/
  | requestFailed
  /-- `epoll_wait` times out. -/
  | timeout
  /-- `epoll_wait` fails, or reports no input. -/
  | epollFailed
  /-- `recv` yields a whole message; `accepted` is the result of `enqueue`. -/
  | receive (msg : TradeMsg) (accepted : Bool)
  /-- `recv` yields some bytes, but not a whole message. -/
  | receiveShort
  /-- `recv` finds the connection closed, or fails. -/
  | receiveClosed
  /-- The pool refuses the buffer of a failed `recv`. -/
  | deallocateFailed
  /-- `run` enqueues the message it dequeued. -/
  | forward (accepted : Bool)
  deriving DecidableEq, Repr

/-- `sent` lists what `sendQueue_` has accepted. -/
structure State (TradeMsg : Type u) where
  nextSequence : Word64
  phase : Phase TradeMsg
  sent : List TradeMsg

variable {TradeMsg : Type u} [SequencedMsg TradeMsg]

namespace State

def initial (first : Word64) : State TradeMsg where
  nextSequence := first
  phase := .polling
  sent := []

def goto (state : State TradeMsg) (phase : Phase TradeMsg) : State TradeMsg :=
  { state with phase := phase }

/-- `sendQueue_.enqueue(msg); ++nextSequence_;`, whatever the queue answers. -/
def enqueue (state : State TradeMsg) (msg : TradeMsg) (accepted : Bool) :
    State TradeMsg :=
  { state with
    nextSequence := state.nextSequence + 1
    sent := if accepted then state.sent ++ [msg] else state.sent }

/-- The three branches of `run` for a dequeued message. A message that is too
old goes back to the pool. -/
def dispatch (state : State TradeMsg) (msg : TradeMsg) : State TradeMsg :=
  if sequenceNumber msg > state.nextSequence then state.goto (.requesting msg)
  else if sequenceNumber msg < state.nextSequence then state
  else state.goto (.forwarding msg false)

def receiveLoop (state : State TradeMsg) (msg : TradeMsg)
    (numMessages messagesReceived : Word64) : State TradeMsg :=
  if messagesReceived < numMessages then
    state.goto (.recovering msg numMessages messagesReceived)
  else state.goto (.forwarding msg false)

/-- `receiveRecoveryMessages(nextSequence_, msg->sequence_number - 1)` up to the
first test of its loop. -/
def startRecovery (state : State TradeMsg) (msg : TradeMsg) : State TradeMsg :=
  let startSeq := state.nextSequence
  let endSeq := sequenceNumber msg - 1
  state.receiveLoop msg (endSeq - startSeq + 1) 0

/-- The request that `sendRecoveryRequest` sends for the same range. -/
def gapRequest (state : State TradeMsg) (msg : TradeMsg) : GapRequestMsg where
  type := 48
  startSeq := state.nextSequence
  endSeq := sequenceNumber msg - 1

def onRecoveredMsg (state : State TradeMsg) (msg : TradeMsg) (accepted : Bool) :
    Option (State TradeMsg) :=
  if sequenceNumber msg ≠ state.nextSequence then none
  else some (state.enqueue msg accepted)

end State

def step (state : State TradeMsg) : Event TradeMsg → Option (State TradeMsg)
  | .stop =>
      match state.phase with
      | .polling => some (state.goto .stopped)
      | _ => none
  | .dequeue msg =>
      match state.phase, msg with
      | .polling, none => some state
      | .polling, some msg => some (state.dispatch msg)
      | _, _ => none
  | .sendRequest =>
      match state.phase with
      | .requesting msg => some (state.startRecovery msg)
      | _ => none
  | .requestFailed =>
      match state.phase with
      | .requesting _ => some (state.goto .threw)
      | _ => none
  | .timeout =>
      match state.phase with
      | .recovering _ _ _ => some state
      | _ => none
  | .epollFailed =>
      match state.phase with
      | .recovering msg _ _ => some (state.goto (.forwarding msg true))
      | _ => none
  | .receive recovered accepted =>
      match state.phase with
      | .recovering msg numMessages messagesReceived =>
          match state.onRecoveredMsg recovered accepted with
          | none => some (state.goto .threw)
          | some state =>
              some (state.receiveLoop msg numMessages (messagesReceived + 1))
      | _ => none
  | .receiveShort =>
      match state.phase with
      | .recovering _ _ _ => some state
      | _ => none
  | .receiveClosed =>
      match state.phase with
      | .recovering msg _ _ => some (state.goto (.forwarding msg true))
      | _ => none
  | .deallocateFailed =>
      match state.phase with
      | .recovering _ _ _ => some (state.goto .threw)
      | _ => none
  | .forward accepted =>
      match state.phase with
      | .forwarding msg _ => some ((state.enqueue msg accepted).goto .polling)
      | _ => none

@[reducible] def system (TradeMsg : Type u) [SequencedMsg TradeMsg] (first : Word64) :
    TransitionSystem (State TradeMsg) (Event TradeMsg) :=
  .ofStep (State.initial first) step

inductive Step : State TradeMsg → Event TradeMsg → State TradeMsg → Prop
  | stop {state} :
      state.phase = .polling → Step state .stop (state.goto .stopped)
  | dequeueNothing {state} :
      state.phase = .polling → Step state (.dequeue none) state
  | dequeue {state} (msg) :
      state.phase = .polling → Step state (.dequeue (some msg)) (state.dispatch msg)
  | sendRequest {state msg} :
      state.phase = .requesting msg → Step state .sendRequest (state.startRecovery msg)
  | requestFailed {state msg} :
      state.phase = .requesting msg → Step state .requestFailed (state.goto .threw)
  | timeout {state msg num received} :
      state.phase = .recovering msg num received → Step state .timeout state
  | epollFailed {state msg num received} :
      state.phase = .recovering msg num received →
      Step state .epollFailed (state.goto (.forwarding msg true))
  | mismatch {state msg num received} (recovered accepted) :
      state.phase = .recovering msg num received →
      sequenceNumber recovered ≠ state.nextSequence →
      Step state (.receive recovered accepted) (state.goto .threw)
  | receive {state msg num received} (recovered accepted) :
      state.phase = .recovering msg num received →
      sequenceNumber recovered = state.nextSequence →
      Step state (.receive recovered accepted)
        ((state.enqueue recovered accepted).receiveLoop msg num (received + 1))
  | receiveShort {state msg num received} :
      state.phase = .recovering msg num received → Step state .receiveShort state
  | receiveClosed {state msg num received} :
      state.phase = .recovering msg num received →
      Step state .receiveClosed (state.goto (.forwarding msg true))
  | deallocateFailed {state msg num received} :
      state.phase = .recovering msg num received →
      Step state .deallocateFailed (state.goto .threw)
  | forward {state msg cutShort} (accepted) :
      state.phase = .forwarding msg cutShort →
      Step state (.forward accepted) ((state.enqueue msg accepted).goto .polling)

theorem Step.of_step {state next : State TradeMsg} {event : Event TradeMsg}
    (stepped : step state event = some next) : Step state event next := by
  unfold step at stepped
  split at stepped
  case h_7 recovered accepted =>
    split at stepped
    · rename_i msg num received phase
      unfold State.onRecoveredMsg at stepped
      by_cases equal : sequenceNumber recovered = state.nextSequence
      · simp only [equal, ne_eq, not_true_eq_false, if_false] at stepped
        cases stepped
        exact .receive recovered accepted phase equal
      · simp only [ne_eq, equal, not_false_eq_true, if_true] at stepped
        cases stepped
        exact .mismatch recovered accepted phase equal
    · cases stepped
  all_goals
    split at stepped <;> first
      | cases stepped; constructor; assumption
      | cases stepped

/-! ## Where the thread stands in the sequence -/

/-- During a recovery the distance to the message that showed the gap is the
number of messages still to come. -/
def PhaseValid (nextSequence : Word64) : Phase TradeMsg → Prop
  | .polling | .threw | .stopped => True
  | .requesting msg => sequenceNumber msg > nextSequence
  | .recovering msg numMessages messagesReceived =>
      messagesReceived < numMessages ∧
        sequenceNumber msg - nextSequence = numMessages - messagesReceived
  | .forwarding msg cutShort =>
      cutShort = false ↔ sequenceNumber msg = nextSequence

section Invariance

variable {state : State TradeMsg} {msg : TradeMsg}
  {numMessages messagesReceived : Word64}

theorem receiveLoop_valid (le : messagesReceived ≤ numMessages)
    (distance : sequenceNumber msg - state.nextSequence =
      numMessages - messagesReceived) :
    PhaseValid state.nextSequence
      (state.receiveLoop msg numMessages messagesReceived).phase := by
  unfold State.receiveLoop
  split
  · rename_i more
    exact ⟨more, distance⟩
  · have reached : sequenceNumber msg = state.nextSequence := by bv_omega
    exact iff_of_true rfl reached

omit [SequencedMsg TradeMsg] in
theorem receiveLoop_nextSequence :
    (state.receiveLoop msg numMessages messagesReceived).nextSequence =
      state.nextSequence := by
  unfold State.receiveLoop
  split <;> rfl

omit [SequencedMsg TradeMsg] in
theorem receiveLoop_sent :
    (state.receiveLoop msg numMessages messagesReceived).sent = state.sent := by
  unfold State.receiveLoop
  split <;> rfl

/-- A recovery that is cut short has not reached the message that showed the
gap. -/
theorem cutShort_valid
    (valid : PhaseValid state.nextSequence
      (.recovering msg numMessages messagesReceived)) :
    PhaseValid state.nextSequence (.forwarding msg true) := by
  rcases valid with ⟨more, distance⟩
  have short : sequenceNumber msg ≠ state.nextSequence := by bv_omega
  exact iff_of_false Bool.true_eq_false_eq_False short

theorem Step.phaseValid {event : Event TradeMsg} {next : State TradeMsg}
    (valid : PhaseValid state.nextSequence state.phase)
    (step : Step state event next) : PhaseValid next.nextSequence next.phase := by
  cases step with
  | stop phase => trivial
  | dequeueNothing phase => exact valid
  | dequeue msg phase =>
      unfold State.dispatch
      split
      · assumption
      · split
        · exact valid
        · have reached : sequenceNumber msg = state.nextSequence := by bv_omega
          exact iff_of_true rfl reached
  | @sendRequest msg phase =>
      rw [State.startRecovery, receiveLoop_nextSequence]
      exact receiveLoop_valid (by bv_omega) (by bv_omega)
  | requestFailed phase => trivial
  | timeout phase => exact valid
  | epollFailed phase =>
      rw [phase] at valid
      exact cutShort_valid valid
  | mismatch recovered accepted phase different => trivial
  | @receive msg num received recovered accepted phase equal =>
      rw [phase] at valid
      rcases valid with ⟨more, distance⟩
      rw [receiveLoop_nextSequence]
      refine receiveLoop_valid (by bv_omega) ?_
      change sequenceNumber msg - (state.nextSequence + 1) = num - (received + 1)
      bv_omega
  | receiveShort phase => exact valid
  | receiveClosed phase =>
      rw [phase] at valid
      exact cutShort_valid valid
  | deallocateFailed phase => trivial
  | forward accepted phase => trivial

end Invariance

/-! ## Exactly when the sequence stays consecutive -/

/-- The messages sent carry consecutive numbers, and `nextSequence_` follows the
last of them. -/
def Consecutive (first : Word64) (state : State TradeMsg) : Prop :=
  state.sent.map sequenceNumber =
      (List.range state.sent.length).map (fun index => first + BitVec.ofNat 64 index) ∧
    state.nextSequence = first + BitVec.ofNat 64 state.sent.length

instance (first : Word64) (state : State TradeMsg) :
    Decidable (Consecutive first state) := by
  unfold Consecutive
  infer_instance

/-- The queue accepts what it is given, and no message is forwarded after its
recovery was cut short. -/
def Completed (state : State TradeMsg) : Event TradeMsg → Prop
  | .receive recovered accepted =>
      sequenceNumber recovered = state.nextSequence → accepted = true
  | .forward accepted =>
      match state.phase with
      | .forwarding _ cutShort => accepted = true ∧ cutShort = false
      | _ => True
  | _ => True

section Exactness

variable {state : State TradeMsg} {first : Word64}

/-- Enqueueing keeps the sequence exactly when the queue accepts and the number
is the expected one. -/
theorem enqueue_consecutive_iff (consecutive : Consecutive first state)
    (msg : TradeMsg) (accepted : Bool) :
    Consecutive first (state.enqueue msg accepted) ↔
      accepted = true ∧ sequenceNumber msg = state.nextSequence := by
  rcases consecutive with ⟨numbers, next⟩
  cases accepted with
  | false =>
      refine iff_of_false ?_ (by simp)
      intro given
      rcases given with ⟨_, after⟩
      simp only [State.enqueue, Bool.false_eq_true, if_false] at after
      rw [next] at after
      bv_omega
  | true =>
      simp only [State.enqueue, Consecutive, if_true, List.map_append, List.length_append,
        List.map_cons, List.map_nil, List.length_singleton, List.range_succ, numbers,
        next, true_and]
      constructor
      · intro given
        rcases given with ⟨appended, _⟩
        simpa using appended
      · intro equal
        refine ⟨by rw [equal], ?_⟩
        rw [← Word64.ofNat_add_one, BitVec.add_assoc]

theorem receiveLoop_consecutive {msg : TradeMsg} {numMessages messagesReceived : Word64} :
    Consecutive first (state.receiveLoop msg numMessages messagesReceived) ↔
      Consecutive first state := by
  unfold State.receiveLoop
  split <;> exact Iff.rfl

theorem Step.consecutive_iff {event : Event TradeMsg} {next : State TradeMsg}
    (valid : PhaseValid state.nextSequence state.phase)
    (consecutive : Consecutive first state) (step : Step state event next) :
    Consecutive first next ↔ Completed state event := by
  cases step with
  | dequeue msg phase =>
      refine iff_of_true ?_ trivial
      unfold State.dispatch
      split
      · exact consecutive
      · split <;> exact consecutive
  | @sendRequest msg phase =>
      exact iff_of_true (receiveLoop_consecutive.mpr consecutive) trivial
  | mismatch recovered accepted phase different =>
      exact iff_of_true consecutive fun equal => absurd equal different
  | receive recovered accepted phase equal =>
      rw [receiveLoop_consecutive, enqueue_consecutive_iff consecutive]
      simp [Completed, equal]
  | @forward msg cutShort accepted phase =>
      rw [phase] at valid
      have sent : Consecutive first ((state.enqueue msg accepted).goto .polling) ↔
          Consecutive first (state.enqueue msg accepted) := Iff.rfl
      have reached : cutShort = false ↔ sequenceNumber msg = state.nextSequence := valid
      simp only [Completed, phase]
      rw [sent, enqueue_consecutive_iff consecutive, reached]
  | _ => exact iff_of_true consecutive trivial

/-- The sequence stays consecutive throughout a run exactly when no message of
the run is forwarded after its recovery was cut short, and the queue accepts
every message. -/
theorem consecutive_iff_completed {past : List (State TradeMsg × Event TradeMsg)}
    {final : State TradeMsg} (run : (system TradeMsg first).Run past final) :
    ((∀ entry ∈ past, Consecutive first entry.1) ∧ Consecutive first final) ↔
      ∀ entry ∈ past, Completed entry.1 entry.2 := by
  refine run.forall_iff (fun state => PhaseValid state.nextSequence state.phase)
    (Consecutive first) Completed ?_ ?_ ?_
  · intro state start
    cases start
    exact ⟨trivial, by simp [Consecutive, State.initial]⟩
  · exact fun _ _ _ valid stepped => (Step.of_step stepped).phaseValid valid
  · exact fun _ _ _ valid consecutive stepped =>
      (Step.of_step stepped).consecutive_iff valid consecutive

end Exactness

def numbered (number : Word64) : ITCHTradeMsg Unit where
  messageType := 80
  sequenceNumber := number
  tradeId := 0
  timestamp := 0
  price := ()
  quantity := ()
  buyerIsMaker := false
  bestMatch := false
  symbol := .replicate 8 0

/-- A gap of one message is recovered, and an old copy of it dropped. -/
theorem consecutive_iff_completed_recovered :
    ∃ past final, (system (ITCHTradeMsg Unit) 0).Run past final ∧ past.length = 5 ∧
      (((∀ entry ∈ past, Consecutive 0 entry.1) ∧ Consecutive 0 final) ↔
        ∀ entry ∈ past, Completed entry.1 entry.2) := by
  rcases TransitionSystem.exists_run_of_execute (State.initial 0) step
    [.dequeue (some (numbered 1)), .sendRequest, .receive (numbered 0) true,
      .forward true, .dequeue (some (numbered 0))] rfl with ⟨past, run, length⟩
  exact ⟨past, _, run, length, consecutive_iff_completed run⟩

def closedRecovery : List (Event (ITCHTradeMsg Unit)) :=
  [.dequeue (some (numbered 2)), .sendRequest, .receiveClosed, .forward true]

/-- Message 2 is then sent first, and message 1 is expected next. -/
theorem closed_recovery_skips_messages :
    ∃ state, (system (ITCHTradeMsg Unit) 0).Reachable state ∧
      (state.sent = [numbered 2] ∧ state.nextSequence = 1 ∧ ¬ Consecutive 0 state) :=
  TransitionSystem.exists_reachable_of_execute (State.initial 0) step closedRecovery
    (fun state => state.sent = [numbered 2] ∧ state.nextSequence = 1 ∧
      ¬ Consecutive 0 state) (by decide)

end FeederNet.TradeFeed.TradeDataSequencer
