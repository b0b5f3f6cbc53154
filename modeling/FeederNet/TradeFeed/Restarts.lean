import FeederNet.TradeFeed.Ordering

/-! # Restarts

A receiver that is stopped, and, once its `run` has returned, a new one whose
`TradeDataSequencer` is told with `setSequenceNum` what `getSequenceNum` said of the old one.
The new receiver has its own connection and its own queue; both servers go on.
-/

namespace FeederNet.TradeFeed

namespace TradeDataSequencer

variable {TradeMsg : Type u}

namespace State

def setSequenceNum (state : State TradeMsg) (sequence : Word64) : State TradeMsg :=
  { state with nextSequence := sequence + 1 }

def getSequenceNum (state : State TradeMsg) : Word64 :=
  state.nextSequence - 1

def after (earlier : List TradeMsg) (state : State TradeMsg) : State TradeMsg :=
  { state with sent := earlier ++ state.sent }

/-- A sequencer that is told the number of another one expects the same message. -/
theorem setSequenceNum_getSequenceNum (state old : State TradeMsg) :
    (state.setSequenceNum old.getSequenceNum).nextSequence = old.nextSequence :=
  BitVec.sub_add_cancel _ _

end State

variable [SequencedMsg TradeMsg] {state next : State TradeMsg} {earlier : List TradeMsg}

theorem dispatch_after (msg : TradeMsg) :
    (state.after earlier).dispatch msg = (state.dispatch msg).after earlier := by
  rw [State.dispatch, State.dispatch, apply_ite (State.after earlier),
    apply_ite (State.after earlier)]
  rfl

omit [SequencedMsg TradeMsg] in
theorem receiveLoop_after (msg : TradeMsg) (numMessages messagesReceived : Word64) :
    (state.after earlier).receiveLoop msg numMessages messagesReceived =
      (state.receiveLoop msg numMessages messagesReceived).after earlier := by
  rw [State.receiveLoop, State.receiveLoop, apply_ite (State.after earlier)]
  rfl

omit [SequencedMsg TradeMsg] in
theorem enqueue_after (msg : TradeMsg) (accepted : Bool) :
    (state.after earlier).enqueue msg accepted =
      (state.enqueue msg accepted).after earlier := by
  cases accepted with
  | true => simp [State.enqueue, State.after]
  | false => rfl

theorem Step.after {event : Event TradeMsg} (stepped : Step state event next) :
    Step (state.after earlier) event (next.after earlier) := by
  cases stepped with
  | stop phase => exact .stop phase
  | dequeueNothing phase => exact .dequeueNothing phase
  | dequeue msg phase =>
      rw [← dispatch_after]
      exact .dequeue msg phase
  | sendRequest phase =>
      rw [State.startRecovery, ← receiveLoop_after]
      exact .sendRequest phase
  | requestFailed phase => exact .requestFailed phase
  | timeout phase => exact .timeout phase
  | epollFailed phase => exact .epollFailed phase
  | mismatch recovered accepted phase different =>
      exact .mismatch recovered accepted phase different
  | receive recovered accepted phase expected =>
      rw [← receiveLoop_after, ← enqueue_after]
      exact .receive recovered accepted phase expected
  | receiveShort phase => exact .receiveShort phase
  | receiveClosed phase => exact .receiveClosed phase
  | deallocateFailed phase => exact .deallocateFailed phase
  | forward accepted phase =>
      have forwarded : Step (state.after earlier) (.forward accepted)
          (((state.after earlier).enqueue _ accepted).goto .polling) :=
        .forward accepted phase
      rw [enqueue_after] at forwarded
      exact forwarded

end TradeDataSequencer

namespace Feed

variable {TradeMsg : Type u}

def after (earlier : List TradeMsg) (feed : Feed TradeMsg) : Feed TradeMsg :=
  { feed with sequencer := feed.sequencer.after earlier }

def restart (feed : Feed TradeMsg) : Feed TradeMsg where
  multicastIndex := feed.multicastIndex
  channel := feed.channel
  recvQueue := []
  requests := []
  server := .idle
  replies := []
  sequencer :=
    (TradeDataSequencer.State.initial 0).setSequenceNum feed.sequencer.getSequenceNum

theorem Step.after [SequencedMsg TradeMsg] [DecidableEq TradeMsg]
    {store : List TradeMsg} {createMulticastGap : Bool} {feed next : Feed TradeMsg}
    {event : Event TradeMsg} {earlier : List TradeMsg}
    (stepped : Step store createMulticastGap feed event next) :
    Step store createMulticastGap (feed.after earlier) event (next.after earlier) := by
  cases stepped with
  | multicast served => exact .multicast served
  | deliver msg member => exact .deliver msg member
  | readRequest idle waiting => exact .readRequest idle waiting
  | serve sends => exact .serve sends
  | dequeue waiting advanced => exact .dequeue waiting advanced.after
  | dequeueNothing advanced => exact .dequeueNothing advanced.after
  | sendRequest phase advanced => exact .sendRequest phase advanced.after
  | timeout advanced => exact .timeout advanced.after
  | receive waiting advanced => exact .receive waiting advanced.after
  | forward advanced => exact .forward advanced.after
  | stop advanced => exact .stop advanced.after

theorem sent_restart (earlier : List TradeMsg) (feed : Feed TradeMsg) :
    (feed.restart.after (earlier ++ feed.sequencer.sent)).sequencer.sent =
      (feed.after earlier).sequencer.sent :=
  List.append_nil _

theorem nextSequence_restart (earlier : List TradeMsg) (feed : Feed TradeMsg) :
    (feed.restart.after earlier).sequencer.nextSequence = feed.sequencer.nextSequence :=
  TradeDataSequencer.State.setSequenceNum_getSequenceNum (.initial 0) feed.sequencer

theorem Inv.restart [SequencedMsg TradeMsg] {store : List TradeMsg} {feed : Feed TradeMsg}
    {earlier : List TradeMsg} (inv : Inv store (feed.after earlier)) :
    Inv store (feed.restart.after (earlier ++ feed.sequencer.sent)) where
  channel := inv.channel
  recvQueue _ member := absurd member List.not_mem_nil
  sent := by
    rw [sent_restart]
    exact inv.sent
  number := by
    rw [nextSequence_restart, sent_restart]
    exact inv.number
  valid := trivial
  standing := ⟨rfl, rfl, rfl⟩

end Feed

/-! ## A feed with restarts -/

/-- `earlier` lists what the receivers before the present one have sent. -/
structure RestartedFeed (TradeMsg : Type u) where
  earlier : List TradeMsg
  feed : Feed TradeMsg

namespace RestartedFeed

inductive Event (TradeMsg : Type u)
  | feed (event : Feed.Event TradeMsg)
  | restart
  deriving DecidableEq, Repr

variable {TradeMsg : Type u} [DecidableEq TradeMsg] [SequencedMsg TradeMsg]

def initial : RestartedFeed TradeMsg where
  earlier := []
  feed := .initial

def step (store : List TradeMsg) (createMulticastGap : Bool)
    (state : RestartedFeed TradeMsg) : Event TradeMsg → Option (RestartedFeed TradeMsg)
  | .feed event =>
      (Feed.step store createMulticastGap state.feed event).map fun feed =>
        { state with feed := feed }
  | .restart =>
      match state.feed.sequencer.phase with
      | .stopped =>
          some {
            earlier := state.earlier ++ state.feed.sequencer.sent
            feed := state.feed.restart }
      | _ => none

@[reducible] def system (store : List TradeMsg) (createMulticastGap : Bool) :
    TransitionSystem (RestartedFeed TradeMsg) (Event TradeMsg) :=
  .ofStep initial (step store createMulticastGap)

/-- However often the receiver is stopped and started again, all receivers together have
sent an initial part of the store, each message once and in order, up to the one that the
last receiver expects. -/
theorem sent_eq_take_of_restarted (store : List TradeMsg) (createMulticastGap : Bool)
    (small : store.length < 2 ^ 31) (numbered : Feed.Numbered store)
    {state : RestartedFeed TradeMsg}
    (reachable : (system store createMulticastGap).Reachable state) :
    state.feed.sequencer.nextSequence.toNat ≤ store.length ∧
      state.earlier ++ state.feed.sequencer.sent =
        store.take state.feed.sequencer.nextSequence.toNat ∧
      state.feed.sequencer.phase ≠ .threw := by
  have inv : Feed.Inv store (state.feed.after state.earlier) := by
    apply reachable.invariant fun state => Feed.Inv store (state.feed.after state.earlier)
    · rintro state rfl
      exact Feed.inv_initial store
    · intro current event next inv stepped
      cases event with
      | feed event =>
          rcases Option.map_eq_some_iff.mp stepped with ⟨feed, taken, rfl⟩
          exact (Feed.Step.of_step taken).after.inv numbered small inv
      | restart =>
          simp only [step] at stepped
          split at stepped
          · cases stepped
            exact inv.restart
          · cases stepped
  have le := inv.sent_le
  have number : state.feed.sequencer.nextSequence.toNat =
      (state.feed.after state.earlier).sequencer.sent.length := by
    have number := inv.number
    change state.feed.sequencer.nextSequence = _ at number
    rw [number, Word64.ofNat_toNat _ (by omega)]
  refine ⟨number ▸ le, ?_, ?_⟩
  · rw [number]
    exact inv.sent
  · intro threw
    have standing := inv.standing
    change Feed.Standing store _ _ state.feed.sequencer.phase at standing
    rw [threw] at standing
    exact standing

/-- The first receiver is stopped after one message, and the second one has to recover what
was multicast in between. -/
def stoppedAfterFirst : List (Event (ITCHTradeMsg Unit)) :=
  [.feed .multicast, .feed (.deliver (TradeDataSequencer.numbered 0)), .feed .dequeue,
    .feed .forward, .feed .stop, .feed .multicast, .restart, .feed .multicast,
    .feed (.deliver (TradeDataSequencer.numbered 2)), .feed .dequeue, .feed .sendRequest,
    .feed .readRequest, .feed .serve, .feed .receive, .feed .forward]

theorem sent_eq_take_of_restarted_once :
    ∃ state : RestartedFeed (ITCHTradeMsg Unit), state.earlier.length = 1 ∧
      (state.feed.sequencer.nextSequence.toNat ≤ 3 ∧
        state.earlier ++ state.feed.sequencer.sent =
          ([0, 1, 2].map TradeDataSequencer.numbered).take
            state.feed.sequencer.nextSequence.toNat ∧
        state.feed.sequencer.phase ≠ .threw) := by
  have numbered : Feed.Numbered ([0, 1, 2].map TradeDataSequencer.numbered) := by
    intro index msg found
    match index with
    | 0 | 1 | 2 => cases found; rfl
    | _ + 3 => cases found
  rcases TransitionSystem.exists_reachable_of_execute initial
    (step ([0, 1, 2].map TradeDataSequencer.numbered) false) stoppedAfterFirst
    (fun state => state.earlier.length = 1 ∧ state.feed.sequencer.nextSequence = 3)
    (by decide) with ⟨state, reachable, one, _⟩
  exact ⟨state, one, sent_eq_take_of_restarted _ false (by decide) numbered reachable⟩

end RestartedFeed

end FeederNet.TradeFeed
