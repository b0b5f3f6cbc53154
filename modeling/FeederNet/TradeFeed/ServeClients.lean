import FeederNet.Foundation.TransitionSystem
import FeederNet.Messages.Wire
import FeederNet.TradeFeed.TradeServer

/-! # The loop of the snapshot server

`serveClients` reads all connections into one buffer and takes every read for one
message. Its steps end at the outcomes of `epoll_wait`, `accept`, `read` and `send`;
a failed `epoll_wait` throws, and no step follows it.
-/

namespace FeederNet.TradeFeed.SnapshotServer

/-- A connection has a number of its own, also when its descriptor is used again. -/
inductive Event
  /-- `epoll_wait` is interrupted by a signal. -/
  | interrupted
  | accepted (fd : Nat)
  /-- `accept` fails, or `epoll_ctl` does and the connection is closed at once. -/
  | acceptFailed
  /-- `read` yields between 1 and 1024 bytes. -/
  | read (fd : Nat) (bytes : List UInt8)
  /-- `read` finds the connection closed, or fails. -/
  | disconnected (fd : Nat)
  /-- The next `send` of `serveGapRequest` or `replayAll`. -/
  | send
  deriving DecidableEq, Repr

/-- `client` is the connection that `phase` serves. `served` lists the calls of
`serveGapRequest` and `replayAll`, and `sent` what they sent. -/
structure State (TradeMsg : Type u) where
  buffer : List UInt8
  connected : List Nat
  clients : List Nat
  phase : Phase
  client : Nat
  served : List (Nat × GapRequestMsg)
  sent : List (Nat × TradeMsg)

namespace State

variable {TradeMsg : Type u}

def initial : State TradeMsg where
  buffer := List.replicate 1024 0
  connected := []
  clients := []
  phase := .idle
  client := 0
  served := []
  sent := []

def serve (state : State TradeMsg) (store : List TradeMsg) (fd : Nat)
    (msg : GapRequestMsg) : State TradeMsg :=
  if msg.WellFormed then
    { state with
      phase := request store msg
      client := fd
      served := state.served ++ [(fd, msg)] }
  else state

/-- `read` overwrites the front of the buffer. What is not of the size of a request is
an unknown message. -/
def receive (state : State TradeMsg) (store : List TradeMsg) (fd : Nat)
    (bytes : List UInt8) : State TradeMsg :=
  let filled := bytes ++ state.buffer.drop bytes.length
  if bytes.length ≠ GapRequestMsg.size then { state with buffer := filled }
  else { state with buffer := filled }.serve store fd (GapRequestMsg.ofBytes filled)

def servedOn (state : State TradeMsg) (fd : Nat) : List GapRequestMsg :=
  (state.served.filter fun entry => entry.1 = fd).map Prod.snd

end State

section Step

variable {TradeMsg : Type u}

def step (store : List TradeMsg) (state : State TradeMsg) :
    Event → Option (State TradeMsg)
  | .interrupted | .acceptFailed => if state.phase = .idle then some state else none
  | .accepted fd =>
      if state.phase = .idle ∧ fd ∉ state.connected then
        some { state with
          connected := fd :: state.connected
          clients := fd :: state.clients }
      else none
  | .read fd bytes =>
      if state.phase = .idle ∧ fd ∈ state.clients ∧ 1 ≤ bytes.length ∧
          bytes.length ≤ 1024 then
        some (state.receive store fd bytes)
      else none
  | .disconnected fd =>
      if state.phase = .idle ∧ fd ∈ state.clients then
        some { state with clients := state.clients.erase fd }
      else none
  | .send =>
      match send store state.phase with
      | none => none
      | some (sent, phase) =>
          some { state with
            phase := phase
            sent := state.sent ++ sent.map (Prod.mk state.client) }

@[reducible] def system (store : List TradeMsg) :
    TransitionSystem (State TradeMsg) Event :=
  .ofStep .initial (step store)

end Step

/-! ## Reads and requests -/

def Event.bytesOf (fd : Nat) : Event → Option (List UInt8)
  | .read source bytes => if source = fd then some bytes else none
  | _ => none

def requestOf (bytes : List UInt8) : Option GapRequestMsg :=
  if bytes.length = GapRequestMsg.size ∧ (GapRequestMsg.ofBytes bytes).WellFormed then
    some (GapRequestMsg.ofBytes bytes)
  else none

theorem requestOf_toBytes {msg : GapRequestMsg} (wellFormed : msg.WellFormed) :
    requestOf msg.toBytes = some msg := by
  rw [requestOf, GapRequestMsg.ofBytes_toBytes,
    if_pos ⟨GapRequestMsg.length_toBytes msg, wellFormed⟩]

theorem filterMap_requestOf_toBytes {requests : List GapRequestMsg}
    (wellFormed : ∀ msg ∈ requests, msg.WellFormed) :
    (requests.map GapRequestMsg.toBytes).filterMap requestOf = requests := by
  induction requests with
  | nil => rfl
  | cons msg requests induction =>
      rw [List.forall_mem_cons] at wellFormed
      rw [List.map_cons, List.filterMap_cons_some (requestOf_toBytes wellFormed.1),
        induction wellFormed.2]

theorem length_filterMap_requestOf_le (reads : List (List UInt8)) :
    (reads.filterMap requestOf).length ≤
      (wholePieces GapRequestMsg.size reads).length := by
  induction reads with
  | nil => simp
  | cons bytes reads induction =>
      by_cases whole : bytes.length = GapRequestMsg.size
      · rw [wholePieces, List.filter_cons_of_pos (by simpa using whole), ← wholePieces,
          List.filterMap_cons, List.length_cons]
        split
        · omega
        · rw [List.length_cons]
          omega
      · have unknown : requestOf bytes = none := if_neg fun request => whole request.1
        rw [wholePieces, List.filter_cons_of_neg (by simpa using whole), ← wholePieces,
          List.filterMap_cons_none unknown]
        exact induction

section Runs

variable {TradeMsg : Type u} {store : List TradeMsg}

/-- The results of `read` on a connection in a run, the first one first. -/
def readsOf (fd : Nat) (past : List (State TradeMsg × Event)) : List (List UInt8) :=
  past.reverse.filterMap fun entry => entry.2.bytesOf fd

theorem readsOf_cons (fd : Nat) (past : List (State TradeMsg × Event))
    (state : State TradeMsg) (event : Event) :
    readsOf fd ((state, event) :: past) =
      readsOf fd past ++ (event.bytesOf fd).toList :=
  TransitionSystem.filterMap_reverse_cons _ _ _

theorem readsOf_eq (fd : Nat) (past : List (State TradeMsg × Event)) :
    readsOf fd past = (past.map Prod.snd).reverse.filterMap (Event.bytesOf fd) := by
  rw [readsOf, ← List.map_reverse, List.filterMap_map]
  rfl

theorem State.served_receive (state : State TradeMsg) (fd : Nat) (bytes : List UInt8) :
    (state.receive store fd bytes).served =
      state.served ++ (requestOf bytes).toList.map (Prod.mk fd) := by
  by_cases whole : bytes.length = GapRequestMsg.size
  · by_cases wellFormed : (GapRequestMsg.ofBytes bytes).WellFormed
    · simp [receive, serve, requestOf, whole, wellFormed,
        GapRequestMsg.ofBytes_append bytes _ whole]
    · simp [receive, serve, requestOf, whole, wellFormed,
        GapRequestMsg.ofBytes_append bytes _ whole]
  · simp [receive, requestOf, whole]

@[simp] theorem State.sent_receive (state : State TradeMsg) (fd : Nat)
    (bytes : List UInt8) : (state.receive store fd bytes).sent = state.sent := by
  simp only [receive, serve]
  split
  · rfl
  · split
    · rfl
    · rfl

theorem State.client_receive (state : State TradeMsg) (fd : Nat) (bytes : List UInt8) :
    (state.receive store fd bytes).phase = state.phase ∨
      (state.receive store fd bytes).client = fd ∧ requestOf bytes ≠ none := by
  by_cases whole : bytes.length = GapRequestMsg.size
  · by_cases wellFormed : (GapRequestMsg.ofBytes bytes).WellFormed
    · right
      simp [receive, serve, requestOf, whole, wellFormed,
        GapRequestMsg.ofBytes_append bytes _ whole]
    · left
      simp [receive, serve, whole, wellFormed,
        GapRequestMsg.ofBytes_append bytes _ whole]
  · left
    simp [receive, whole]

/-- The requests that a step serves on a connection are those its read is taken
for. -/
theorem servedOn_step {state next : State TradeMsg} {event : Event}
    (stepped : step store state event = some next) (fd : Nat) :
    next.servedOn fd =
      state.servedOn fd ++ (event.bytesOf fd).toList.filterMap requestOf := by
  cases event with
  | read source bytes =>
      simp only [step, Option.ite_none_right_eq_some, Option.some.injEq] at stepped
      rcases stepped with ⟨_, rfl⟩
      rw [State.servedOn, State.served_receive, List.filter_append, List.map_append,
        ← State.servedOn, Event.bytesOf]
      by_cases same : source = fd
      · cases request : requestOf bytes <;> simp [same, request]
      · cases request : requestOf bytes <;> simp [same]
  | send =>
      simp only [step] at stepped
      split at stepped
      · cases stepped
      · cases stepped
        exact (List.append_nil _).symm
  | interrupted | acceptFailed | accepted _ | disconnected _ =>
      simp only [step, Option.ite_none_right_eq_some, Option.some.injEq] at stepped
      rcases stepped with ⟨_, rfl⟩
      exact (List.append_nil _).symm

theorem servedOn_eq_filterMap {past : List (State TradeMsg × Event)}
    {final : State TradeMsg} (run : (system store).Run past final) (fd : Nat) :
    final.servedOn fd = (readsOf fd past).filterMap requestOf := by
  induction run with
  | start initial =>
      cases initial
      rfl
  | step run stepped induction =>
      rw [servedOn_step stepped, induction, readsOf_cons, List.filterMap_append]

theorem nonempty_of_mem_readsOf {past : List (State TradeMsg × Event)}
    {final : State TradeMsg} (run : (system store).Run past final) (fd : Nat) :
    ∀ bytes ∈ readsOf fd past, bytes ≠ [] := by
  induction run with
  | start initial => exact List.forall_mem_nil _
  | @step past current event next run stepped induction =>
      rw [readsOf_cons, List.forall_mem_append]
      refine ⟨induction, ?_⟩
      cases event with
      | read source bytes =>
          simp only [step, Option.ite_none_right_eq_some] at stepped
          intro read member empty
          have same : bytes = read := by
            rw [Event.bytesOf] at member
            split at member
            · simpa using (Option.mem_toList.mp member)
            · cases member
          rw [same, empty] at stepped
          exact absurd stepped.1.2.2.1 (by decide)
      | _ => exact List.forall_mem_nil _

/-- Every request is served once and in the order written, and only requests are taken
for requests. -/
structure Handled (fd : Nat) (requests : List GapRequestMsg)
    (past : List (State TradeMsg × Event)) (final : State TradeMsg) : Prop where
  served : final.servedOn fd = requests
  genuine : ∀ bytes ∈ readsOf fd past, bytes.length = GapRequestMsg.size →
    ∃ msg ∈ requests, bytes = msg.toBytes

/-- Once the requests written on a connection are read to their last byte, they have
been handled exactly if every `read` returned one request. -/
theorem handled_iff_whole_reads {past : List (State TradeMsg × Event)}
    {final : State TradeMsg} (run : (system store).Run past final) (fd : Nat)
    (requests : List GapRequestMsg) (wellFormed : ∀ msg ∈ requests, msg.WellFormed)
    (stream : (readsOf fd past).flatten = requests.flatMap GapRequestMsg.toBytes) :
    Handled fd requests past final ↔
      ∀ bytes ∈ readsOf fd past, bytes.length = GapRequestMsg.size := by
  have sized : ∀ frame ∈ requests.map GapRequestMsg.toBytes,
      frame.length = GapRequestMsg.size :=
    List.forall_mem_map.mpr fun msg _ => GapRequestMsg.length_toBytes msg
  rw [List.flatMap_def] at stream
  constructor
  · intro handled
    apply forall_length_eq_of_count (nonempty_of_mem_readsOf run fd) sized stream
    rw [List.length_map, ← handled.served, servedOn_eq_filterMap run]
    exact length_filterMap_requestOf_le _
  · intro whole
    have reads : readsOf fd past = requests.map GapRequestMsg.toBytes :=
      eq_of_flatten_eq whole sized (by decide) stream
    constructor
    · rw [servedOn_eq_filterMap run, reads, filterMap_requestOf_toBytes wellFormed]
    · intro bytes member _
      rw [reads] at member
      rcases List.mem_map.mp member with ⟨msg, requested, rfl⟩
      exact ⟨msg, requested, rfl⟩

theorem mem_of_send {phase next : Phase} {sent : List TradeMsg}
    (sends : send store phase = some (sent, next)) : ∀ msg ∈ sent, msg ∈ store := by
  intro msg member
  cases phase with
  | idle => cases sends
  | serving i endSeq =>
      cases sends
      exact mem_of_get (Option.mem_toList.mp member)
  | replaying i =>
      cases sends
      exact mem_of_get (Option.mem_toList.mp member)

/-- What is sent to a client comes from the store, and only a client with a request
is sent anything. -/
structure Answers (store : List TradeMsg) (state : State TradeMsg) : Prop where
  requested : state.phase ≠ .idle → state.servedOn state.client ≠ []
  sent : ∀ entry ∈ state.sent, entry.2 ∈ store ∧ state.servedOn entry.1 ≠ []

theorem answers_of_reachable {state : State TradeMsg}
    (reachable : (system store).Reachable state) : Answers store state := by
  apply reachable.invariant (Answers store)
  · intro state start
    cases start
    exact ⟨fun serving => absurd rfl serving, List.forall_mem_nil _⟩
  · intro current event next answers stepped
    have grows : ∀ fd, current.servedOn fd ≠ [] → next.servedOn fd ≠ [] := by
      intro fd asked
      rw [servedOn_step stepped]
      exact List.append_ne_nil_of_left_ne_nil asked _
    have before : ∀ entry ∈ current.sent, entry.2 ∈ store ∧ next.servedOn entry.1 ≠ [] :=
      fun entry member =>
        ⟨(answers.sent entry member).1, grows _ (answers.sent entry member).2⟩
    cases event with
    | read source bytes =>
        have asks := servedOn_step stepped source
        simp only [step, Option.ite_none_right_eq_some, Option.some.injEq] at stepped
        rcases stepped with ⟨enabled, rfl⟩
        refine ⟨fun serving => ?_, by simpa using before⟩
        have starts : (current.receive store source bytes).phase = current.phase ∨ _ :=
          current.client_receive source bytes
        rcases starts with same | ⟨client, request⟩
        · rw [same] at serving
          exact absurd enabled.1 serving
        · rcases Option.ne_none_iff_exists'.mp request with ⟨msg, request⟩
          rw [client, asks]
          simp [Event.bytesOf, request]
    | send =>
        simp only [step] at stepped
        split at stepped
        · cases stepped
        · rename_i sent phase sends
          have serving : current.phase ≠ .idle := by
            intro idle
            rw [idle] at sends
            cases sends
          have asked := grows _ (answers.requested serving)
          cases stepped
          refine ⟨fun _ => asked, ?_⟩
          intro entry member
          rcases List.mem_append.mp member with member | member
          · exact before entry member
          · rcases List.mem_map.mp member with ⟨msg, found, rfl⟩
            exact ⟨mem_of_send sends msg found, asked⟩
    | interrupted | acceptFailed | accepted _ | disconnected _ =>
        simp only [step, Option.ite_none_right_eq_some, Option.some.injEq] at stepped
        rcases stepped with ⟨_, rfl⟩
        exact ⟨answers.requested, answers.sent⟩

end Runs

/-! ## Two requests on one connection -/

def oneMessage : GapRequestMsg where
  type := 48
  startSeq := 1
  endSeq := 1

def allMessages : GapRequestMsg where
  type := 49
  startSeq := 0
  endSeq := 0

def separateReads : List Event :=
  [.accepted 5, .accepted 6, .read 5 oneMessage.toBytes, .send, .read 6 [48],
    .read 5 allMessages.toBytes, .send, .send, .send]

def coalescedRead : List Event :=
  [.accepted 5, .read 5 (oneMessage.toBytes ++ allMessages.toBytes)]

theorem handled_iff_whole_reads_separate :
    ∃ past final, (system [10, 11, 12]).Run past final ∧
      final.sent = [(5, 11), (5, 10), (5, 11), (5, 12)] ∧
      (Handled 5 [oneMessage, allMessages] past final ↔
        ∀ bytes ∈ readsOf 5 past, bytes.length = GapRequestMsg.size) := by
  rcases TransitionSystem.exists_run_of_events .initial (step [10, 11, 12]) separateReads
    (fun state => state.sent = [(5, 11), (5, 10), (5, 11), (5, 12)]) (by decide) with
    ⟨past, final, run, events, sent⟩
  have reads : readsOf 5 past = [oneMessage, allMessages].map GapRequestMsg.toBytes := by
    rw [readsOf_eq, events]
    decide
  refine ⟨past, final, run, sent, ?_⟩
  apply handled_iff_whole_reads run 5 [oneMessage, allMessages] (by decide)
  rw [reads, List.flatMap_def]

/-- Neither request is served. -/
theorem coalesced_requests_are_dropped :
    ∃ past final, (system [10, 11, 12]).Run past final ∧
      (∀ msg ∈ [oneMessage, allMessages], msg.WellFormed) ∧
      (readsOf 5 past).flatten =
        [oneMessage, allMessages].flatMap GapRequestMsg.toBytes ∧
      final.served = [] ∧ ¬ Handled 5 [oneMessage, allMessages] past final := by
  rcases TransitionSystem.exists_run_of_events .initial (step [10, 11, 12]) coalescedRead
    (fun state => state.served = []) (by decide) with ⟨past, final, run, events, served⟩
  have reads : readsOf 5 past = [oneMessage.toBytes ++ allMessages.toBytes] := by
    rw [readsOf_eq, events]
    decide
  refine ⟨past, final, run, by decide, ?_, served, ?_⟩
  · rw [reads]
    decide
  · intro handled
    have none : final.servedOn 5 = [] := by rw [State.servedOn, served]; rfl
    rw [handled.served] at none
    cases none

end FeederNet.TradeFeed.SnapshotServer
