import FeederNet.TradeFeed.TradeDataSequencer
import FeederNet.TradeFeed.TradeServer

/-! # The feed from store to send queue

The multicast server, the snapshot server and the sequencer joined by a channel
that drops, duplicates and reorders datagrams, and by a connection that carries
requests and replies whole and in order. The pool and `sendQueue_` never run out.
-/

namespace FeederNet.TradeFeed

/-- `channel` lists the datagrams multicast so far; any of them may still arrive,
any number of times. -/
structure Feed (TradeMsg : Type u) where
  multicastIndex : Word32
  channel : List TradeMsg
  recvQueue : List TradeMsg
  requests : List GapRequestMsg
  server : SnapshotServer.Phase
  replies : List TradeMsg
  sequencer : TradeDataSequencer.State TradeMsg

namespace Feed

inductive Event (TradeMsg : Type u)
  | multicast
  | deliver (msg : TradeMsg)
  | readRequest
  | serve
  | dequeue
  | sendRequest
  | timeout
  | receive
  | forward
  | stop
  deriving DecidableEq, Repr

def initial : Feed TradeMsg where
  multicastIndex := 0
  channel := []
  recvQueue := []
  requests := []
  server := .idle
  replies := []
  sequencer := .initial 0

section Step

variable {TradeMsg : Type u} [DecidableEq TradeMsg] [SequencedMsg TradeMsg]

def advance (feed : Feed TradeMsg) (event : TradeDataSequencer.Event TradeMsg) :
    Option (Feed TradeMsg) :=
  (TradeDataSequencer.step feed.sequencer event).map fun sequencer =>
    { feed with sequencer := sequencer }

def step (store : List TradeMsg) (createMulticastGap : Bool) (feed : Feed TradeMsg) :
    Event TradeMsg → Option (Feed TradeMsg)
  | .multicast =>
      match MulticastServer.serveClients store createMulticastGap
          feed.multicastIndex with
      | none => none
      | some (datagrams, next) =>
          some { feed with
            multicastIndex := next
            channel := feed.channel ++ datagrams }
  | .deliver msg =>
      if msg ∈ feed.channel then
        some { feed with recvQueue := feed.recvQueue ++ [msg] }
      else none
  | .readRequest =>
      match feed.server, feed.requests with
      | .idle, msg :: requests =>
          some { feed with
            requests := requests
            server := SnapshotServer.request store msg }
      | _, _ => none
  | .serve =>
      match SnapshotServer.send store feed.server with
      | none => none
      | some (sent, server) =>
          some { feed with
            server := server
            replies := feed.replies ++ sent }
  | .dequeue =>
      match feed.recvQueue with
      | [] => feed.advance (.dequeue none)
      | msg :: recvQueue =>
          { feed with recvQueue := recvQueue }.advance (.dequeue (some msg))
  | .sendRequest =>
      match feed.sequencer.phase with
      | .requesting msg =>
          { feed with
            requests := feed.requests ++ [feed.sequencer.gapRequest msg] }.advance
              .sendRequest
      | _ => none
  | .timeout => feed.advance .timeout
  | .receive =>
      match feed.replies with
      | [] => none
      | msg :: replies => { feed with replies := replies }.advance (.receive msg true)
  | .forward => feed.advance (.forward true)
  | .stop => feed.advance .stop

@[reducible] def system (store : List TradeMsg) (createMulticastGap : Bool) :
    TransitionSystem (Feed TradeMsg) (Event TradeMsg) :=
  .ofStep initial (step store createMulticastGap)

inductive Step (store : List TradeMsg) (createMulticastGap : Bool) :
    Feed TradeMsg → Event TradeMsg → Feed TradeMsg → Prop
  | multicast {feed datagrams next} :
      MulticastServer.serveClients store createMulticastGap feed.multicastIndex =
        some (datagrams, next) →
      Step store createMulticastGap feed .multicast
        { feed with
          multicastIndex := next
          channel := feed.channel ++ datagrams }
  | deliver {feed} (msg) :
      msg ∈ feed.channel →
      Step store createMulticastGap feed (.deliver msg)
        { feed with recvQueue := feed.recvQueue ++ [msg] }
  | readRequest {feed msg requests} :
      feed.server = .idle → feed.requests = msg :: requests →
      Step store createMulticastGap feed .readRequest
        { feed with
          requests := requests
          server := SnapshotServer.request store msg }
  | serve {feed sent server} :
      SnapshotServer.send store feed.server = some (sent, server) →
      Step store createMulticastGap feed .serve
        { feed with
          server := server
          replies := feed.replies ++ sent }
  | dequeue {feed msg recvQueue sequencer} :
      feed.recvQueue = msg :: recvQueue →
      TradeDataSequencer.Step feed.sequencer (.dequeue (some msg)) sequencer →
      Step store createMulticastGap feed .dequeue
        { feed with
          recvQueue := recvQueue
          sequencer := sequencer }
  | dequeueNothing {feed sequencer} :
      TradeDataSequencer.Step feed.sequencer (.dequeue none) sequencer →
      Step store createMulticastGap feed .dequeue { feed with sequencer := sequencer }
  | sendRequest {feed msg sequencer} :
      feed.sequencer.phase = .requesting msg →
      TradeDataSequencer.Step feed.sequencer .sendRequest sequencer →
      Step store createMulticastGap feed .sendRequest
        { feed with
          requests := feed.requests ++ [feed.sequencer.gapRequest msg]
          sequencer := sequencer }
  | timeout {feed sequencer} :
      TradeDataSequencer.Step feed.sequencer .timeout sequencer →
      Step store createMulticastGap feed .timeout { feed with sequencer := sequencer }
  | receive {feed msg replies sequencer} :
      feed.replies = msg :: replies →
      TradeDataSequencer.Step feed.sequencer (.receive msg true) sequencer →
      Step store createMulticastGap feed .receive
        { feed with
          replies := replies
          sequencer := sequencer }
  | forward {feed sequencer} :
      TradeDataSequencer.Step feed.sequencer (.forward true) sequencer →
      Step store createMulticastGap feed .forward { feed with sequencer := sequencer }
  | stop {feed sequencer} :
      TradeDataSequencer.Step feed.sequencer .stop sequencer →
      Step store createMulticastGap feed .stop { feed with sequencer := sequencer }

omit [DecidableEq TradeMsg] in
theorem advance_eq_some {feed next : Feed TradeMsg}
    {event : TradeDataSequencer.Event TradeMsg}
    (advanced : feed.advance event = some next) :
    ∃ sequencer, TradeDataSequencer.Step feed.sequencer event sequencer ∧
      next = { feed with sequencer := sequencer } := by
  rcases Option.map_eq_some_iff.mp advanced with ⟨sequencer, stepped, rfl⟩
  exact ⟨sequencer, .of_step stepped, rfl⟩

theorem Step.of_step {store : List TradeMsg} {createMulticastGap : Bool}
    {feed next : Feed TradeMsg} {event : Event TradeMsg}
    (stepped : step store createMulticastGap feed event = some next) :
    Step store createMulticastGap feed event next := by
  cases event with
  | multicast =>
      simp only [step] at stepped
      split at stepped <;> cases stepped
      exact .multicast (by assumption)
  | deliver msg =>
      simp only [step] at stepped
      split at stepped <;> cases stepped
      exact .deliver msg (by assumption)
  | readRequest =>
      simp only [step] at stepped
      split at stepped <;> cases stepped
      exact .readRequest (by assumption) (by assumption)
  | serve =>
      simp only [step] at stepped
      split at stepped <;> cases stepped
      exact .serve (by assumption)
  | dequeue =>
      simp only [step] at stepped
      split at stepped
      · rcases advance_eq_some stepped with ⟨_, advanced, rfl⟩
        exact .dequeueNothing advanced
      · rcases advance_eq_some stepped with ⟨_, advanced, rfl⟩
        exact .dequeue (by assumption) advanced
  | sendRequest =>
      simp only [step] at stepped
      split at stepped
      · rcases advance_eq_some stepped with ⟨_, advanced, rfl⟩
        exact .sendRequest (by assumption) advanced
      · cases stepped
  | timeout =>
      rcases advance_eq_some stepped with ⟨_, advanced, rfl⟩
      exact .timeout advanced
  | receive =>
      simp only [step] at stepped
      split at stepped
      · cases stepped
      · rcases advance_eq_some stepped with ⟨_, advanced, rfl⟩
        exact .receive (by assumption) advanced
  | forward =>
      rcases advance_eq_some stepped with ⟨_, advanced, rfl⟩
      exact .forward advanced
  | stop =>
      rcases advance_eq_some stepped with ⟨_, advanced, rfl⟩
      exact .stop advanced

end Step

end Feed

end FeederNet.TradeFeed
