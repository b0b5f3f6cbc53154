import FeederNet.TradeFeed.Feed

/-! # Order of the feed

Whatever the multicast channel does, the sequencer sends the store in order from
the start.
-/

namespace FeederNet.TradeFeed.Feed

open TradeDataSequencer (Phase PhaseValid)

/-! ## Stretches of the store -/

def stretch (store : List TradeMsg) (first last : Nat) : List TradeMsg :=
  (store.take last).drop first

section Stretch

variable {store : List TradeMsg} {first last : Nat}

theorem stretch_self (store : List TradeMsg) (index : Nat) :
    stretch store index index = [] := by
  simp [stretch]

theorem stretch_concat {msg : TradeMsg} (le : first ≤ last)
    (found : store[last]? = some msg) :
    stretch store first (last + 1) = stretch store first last ++ [msg] := by
  have bound := (List.getElem?_eq_some_iff.mp found).1
  rw [stretch, List.take_add_one, found, List.drop_append_of_le_length]
  · rfl
  · rw [List.length_take]
    omega

theorem stretch_cons {msg : TradeMsg} (lt : first < last)
    (found : store[first]? = some msg) :
    stretch store first last = msg :: stretch store (first + 1) last := by
  rcases List.getElem?_eq_some_iff.mp found with ⟨bound, equal⟩
  have inside : first < (store.take last).length := by
    rw [List.length_take]
    omega
  rw [stretch, List.drop_eq_getElem_cons inside, List.getElem_take, equal]
  rfl

end Stretch

/-! ## The conversation about a gap -/

/-- What is still to come of the messages from `first` up to `last`: the request
for all of them, or replies that the server has sent followed by those it will
send. -/
inductive Outstanding (store : List TradeMsg) (first last : Nat)
    (requests : List GapRequestMsg) (server : SnapshotServer.Phase)
    (replies : List TradeMsg) : Prop
  | requested :
      requests = [⟨48, BitVec.ofNat 64 first, BitVec.ofNat 64 (last - 1)⟩] →
      server = .idle → replies = [] →
      Outstanding store first last requests server replies
  | serving (index : Nat) :
      first ≤ index → index < last → requests = [] →
      server = .serving (BitVec.ofNat 32 index) (BitVec.ofNat 64 (last - 1)) →
      replies = stretch store first index →
      Outstanding store first last requests server replies
  | served :
      requests = [] → server = .idle → replies = stretch store first last →
      Outstanding store first last requests server replies

section Outstanding

variable {store : List TradeMsg} {first last : Nat} {requests : List GapRequestMsg}
  {server : SnapshotServer.Phase} {replies : List TradeMsg}

theorem Outstanding.readRequest {msg : GapRequestMsg} (lt : first < last)
    (small : last < 2 ^ 31)
    (outstanding : Outstanding store first last (msg :: requests) .idle replies) :
    Outstanding store first last requests (SnapshotServer.request store msg)
      replies := by
  cases outstanding with
  | requested request _ empty =>
      cases request
      refine .serving first le_rfl lt rfl ?_ (empty.trans (stretch_self _ _).symm)
      simp only [SnapshotServer.request, if_true, setWidth_ofNat]
      rw [serveLoop_ofNat _ _ (by omega) (by omega), if_pos (by omega)]
  | serving index _ _ none _ _ => cases none
  | served none _ _ => cases none

theorem Outstanding.serve {sent : List TradeMsg} {next : SnapshotServer.Phase}
    (inside : last < store.length) (small : last < 2 ^ 31)
    (outstanding : Outstanding store first last requests server replies)
    (sends : SnapshotServer.send store server = some (sent, next)) :
    Outstanding store first last requests next (replies ++ sent) := by
  cases outstanding with
  | requested _ idle _ => rw [idle] at sends; cases sends
  | served _ idle _ => rw [idle] at sends; cases sends
  | serving index le lt none serving already =>
      have found := List.getElem?_eq_getElem (show index < store.length by omega)
      have loop := serveLoop_ofNat (index + 1) (last - 1) (by omega) (by omega)
      have increment : BitVec.ofNat 32 index + 1 = BitVec.ofNat 32 (index + 1) := by
        apply BitVec.eq_of_toNat_eq
        simp
      simp only [serving, SnapshotServer.send, asSize_ofNat (show index < 2 ^ 31 by omega),
        get_ofNat store (show index < 2 ^ 64 by omega), found, increment, loop,
        Option.toList_some, Option.some.injEq, Prod.mk.injEq] at sends
      rcases sends with ⟨rfl, rfl⟩
      have grown : replies ++ [store[index]] = stretch store first (index + 1) := by
        rw [stretch_concat le found, already]
      by_cases more : index + 1 ≤ last - 1
      · exact .serving (index + 1) (by omega) (by omega) none (if_pos more) grown
      · refine .served none (if_neg more) (grown.trans ?_)
        rw [show index + 1 = last by omega]

theorem Outstanding.receive {msg : TradeMsg} (inside : last < store.length)
    (lt : first < last)
    (outstanding : Outstanding store first last requests server (msg :: replies)) :
    store[first]? = some msg ∧ requests = [] ∧
      Outstanding store (first + 1) last requests server replies := by
  have found := List.getElem?_eq_getElem (show first < store.length by omega)
  cases outstanding with
  | requested _ _ empty => cases empty
  | serving index le below none serving already =>
      have past : first < index := by
        rcases le.lt_or_eq with past | rfl
        · exact past
        · rw [stretch_self] at already
          cases already
      rw [stretch_cons past found] at already
      cases already
      exact ⟨found, none, .serving index past below none serving rfl⟩
  | served none idle already =>
      rw [stretch_cons lt found] at already
      cases already
      exact ⟨found, none, .served none idle rfl⟩

theorem Outstanding.finished
    (outstanding : Outstanding store last last requests server replies)
    (read : requests = []) : server = .idle ∧ replies = [] := by
  cases outstanding with
  | requested request _ _ => rw [read] at request; cases request
  | serving index le lt _ _ _ => omega
  | served _ idle already => exact ⟨idle, already.trans (stretch_self _ _)⟩

end Outstanding

/-! ## The invariant -/

def Quiet (feed : Feed TradeMsg) : Prop :=
  feed.requests = [] ∧ feed.server = .idle ∧ feed.replies = []

/-- Where the sequencer stands with the messages it has `sent` so far. `trigger`
is the index of the message that showed the gap. -/
def Standing (store : List TradeMsg) (feed : Feed TradeMsg) (sent : Nat) :
    Phase TradeMsg → Prop
  | .polling | .stopped => feed.Quiet
  | .requesting msg =>
      ∃ trigger, store[trigger]? = some msg ∧ sent < trigger ∧ feed.Quiet
  | .recovering msg _ _ =>
      ∃ trigger, store[trigger]? = some msg ∧ sent < trigger ∧
        Outstanding store sent trigger feed.requests feed.server feed.replies
  | .forwarding msg _ => store[sent]? = some msg ∧ feed.Quiet
  | .threw => False

structure Inv [SequencedMsg TradeMsg] (store : List TradeMsg)
    (feed : Feed TradeMsg) : Prop where
  channel : ∀ msg ∈ feed.channel, msg ∈ store
  recvQueue : ∀ msg ∈ feed.recvQueue, msg ∈ store
  sent : feed.sequencer.sent = store.take feed.sequencer.sent.length
  number : feed.sequencer.nextSequence =
    BitVec.ofNat 64 feed.sequencer.sent.length
  valid : PhaseValid feed.sequencer.nextSequence
    feed.sequencer.phase
  standing : feed.Standing store feed.sequencer.sent.length feed.sequencer.phase

def Numbered [SequencedMsg TradeMsg] (store : List TradeMsg) : Prop :=
  ∀ (index : Nat) (msg : TradeMsg), store[index]? = some msg →
    sequenceNumber msg = BitVec.ofNat 64 index

section Invariance

variable {TradeMsg : Type u} [SequencedMsg TradeMsg] {store : List TradeMsg}
  {feed : Feed TradeMsg}

theorem Inv.sent_le (inv : Inv store feed) :
    feed.sequencer.sent.length ≤ store.length := by
  have length := congrArg List.length inv.sent
  rw [List.length_take] at length
  omega

theorem Numbered.eq_iff (numbered : Numbered store) (small : store.length < 2 ^ 31)
    {index count : Nat} {msg : TradeMsg} (found : store[index]? = some msg)
    (le : count ≤ store.length) :
    sequenceNumber msg = BitVec.ofNat 64 count ↔ index = count := by
  have bound := (List.getElem?_eq_some_iff.mp found).1
  rw [numbered index msg found]
  exact Word64.ofNat_inj (by omega) (by omega)

theorem Inv.take_sent (inv : Inv store feed) {msg : TradeMsg}
    (found : store[feed.sequencer.sent.length]? = some msg) :
    feed.sequencer.sent ++ [msg] =
      store.take (feed.sequencer.sent ++ [msg]).length := by
  rw [List.length_append, List.length_singleton, List.take_add_one, found, ← inv.sent]
  rfl

/-- A message that is dequeued is forwarded in its turn, dropped when it is late,
and starts a recovery when it is early. -/
theorem Inv.dequeue (inv : Inv store feed) (numbered : Numbered store)
    (small : store.length < 2 ^ 31) {msg : TradeMsg} {recvQueue : List TradeMsg}
    {sequencer : TradeDataSequencer.State TradeMsg}
    (waiting : feed.recvQueue = msg :: recvQueue)
    (step : TradeDataSequencer.Step feed.sequencer (.dequeue (some msg)) sequencer) :
    Inv store { feed with
      recvQueue := recvQueue
      sequencer := sequencer } := by
  have valid := step.phaseValid inv.valid
  have stored : msg ∈ store := inv.recvQueue msg (by rw [waiting]; exact List.mem_cons_self)
  have rest : ∀ other ∈ recvQueue, other ∈ store := fun other member =>
    inv.recvQueue other (by rw [waiting]; exact List.mem_cons_of_mem _ member)
  rcases List.getElem?_of_mem stored with ⟨index, found⟩
  have bound := (List.getElem?_eq_some_iff.mp found).1
  have le := inv.sent_le
  cases step with
  | dequeue _ phase =>
      have standing := inv.standing
      rw [phase] at standing
      unfold TradeDataSequencer.State.dispatch at valid ⊢
      split at valid
      · rename_i early
        rw [if_pos early] at ⊢
        refine ⟨inv.channel, rest, inv.sent, inv.number, valid, index, found, ?_, standing⟩
        rw [numbered index msg found, inv.number, gt_iff_lt, BitVec.lt_def,
          Word64.ofNat_toNat _ (by omega), Word64.ofNat_toNat _ (by omega)] at early
        exact early
      · split at valid
        · rename_i notEarly late
          rw [if_neg notEarly, if_pos late]
          exact ⟨inv.channel, rest, inv.sent, inv.number, inv.valid,
            by rw [phase]; exact standing⟩
        · rename_i notEarly notLate
          rw [if_neg notEarly, if_neg notLate]
          have expected : sequenceNumber msg = feed.sequencer.nextSequence :=
            (show false = false ↔ _ from valid).mp rfl
          have now := (numbered.eq_iff small found le).mp (expected.trans inv.number)
          exact ⟨inv.channel, rest, inv.sent, inv.number, valid, now ▸ found, standing⟩

theorem inv_receiveLoop (feed : Feed TradeMsg)
    {base : TradeDataSequencer.State TradeMsg} {msg : TradeMsg}
    {numMessages messagesReceived : Word64} {trigger : Nat}
    (numbered : Numbered store) (small : store.length < 2 ^ 31)
    (channel : ∀ msg ∈ feed.channel, msg ∈ store)
    (recvQueue : ∀ msg ∈ feed.recvQueue, msg ∈ store)
    (sent : base.sent = store.take base.sent.length)
    (number : base.nextSequence = BitVec.ofNat 64 base.sent.length)
    (valid : PhaseValid base.nextSequence
      (base.receiveLoop msg numMessages messagesReceived).phase)
    (found : store[trigger]? = some msg) (le : base.sent.length ≤ trigger)
    (missing : base.sent.length < trigger → Outstanding store base.sent.length trigger
      feed.requests feed.server feed.replies)
    (complete : base.sent.length = trigger → feed.Quiet) :
    Inv store { feed with
      sequencer := base.receiveLoop msg numMessages messagesReceived } := by
  have bound := (List.getElem?_eq_some_iff.mp found).1
  have reached : sequenceNumber msg = base.nextSequence ↔
      trigger = base.sent.length := by
    rw [number]
    exact numbered.eq_iff small found (by omega)
  unfold TradeDataSequencer.State.receiveLoop at valid ⊢
  split at valid
  · rename_i more
    rw [if_pos more]
    have short : sequenceNumber msg ≠ base.nextSequence := by
      have distance := valid.2
      bv_omega
    have lt : base.sent.length < trigger := by
      have different := mt reached.mpr short
      omega
    exact ⟨channel, recvQueue, sent, number, valid, trigger, found, lt, missing lt⟩
  · rename_i done
    rw [if_neg done]
    have now := reached.mp ((show false = false ↔ _ from valid).mp rfl)
    exact ⟨channel, recvQueue, sent, number, valid, now ▸ found, complete now.symm⟩

theorem Inv.sendRequest (inv : Inv store feed) (numbered : Numbered store)
    (small : store.length < 2 ^ 31) {msg : TradeMsg}
    {sequencer : TradeDataSequencer.State TradeMsg}
    (phase : feed.sequencer.phase = .requesting msg)
    (step : TradeDataSequencer.Step feed.sequencer .sendRequest sequencer) :
    Inv store { feed with
      requests := feed.requests ++ [feed.sequencer.gapRequest msg]
      sequencer := sequencer } := by
  have valid := step.phaseValid inv.valid
  have standing := inv.standing
  rw [phase] at standing
  rcases standing with ⟨trigger, found, lt, quiet, idle, empty⟩
  have bound := (List.getElem?_eq_some_iff.mp found).1
  cases step with
  | sendRequest phase' =>
      cases Phase.requesting.inj (phase.symm.trans phase')
      rw [TradeDataSequencer.State.startRecovery,
        TradeDataSequencer.receiveLoop_nextSequence] at valid
      refine inv_receiveLoop { feed with
        requests := feed.requests ++ [feed.sequencer.gapRequest msg] } numbered small
        inv.channel inv.recvQueue inv.sent inv.number valid found lt.le ?_
        (fun equal => absurd equal lt.ne)
      intro _
      refine .requested ?_ idle empty
      have last : sequenceNumber msg - 1 = BitVec.ofNat 64 (trigger - 1) := by
        rw [numbered trigger msg found]
        bv_omega
      simp only [quiet, TradeDataSequencer.State.gapRequest, inv.number, last,
        List.nil_append]

/-- A reply is the next message to send, and the last of them is followed by the
message that showed the gap. -/
theorem Inv.receive (inv : Inv store feed) (numbered : Numbered store)
    (small : store.length < 2 ^ 31) {msg : TradeMsg} {replies : List TradeMsg}
    {sequencer : TradeDataSequencer.State TradeMsg}
    (waiting : feed.replies = msg :: replies)
    (step : TradeDataSequencer.Step feed.sequencer (.receive msg true) sequencer) :
    Inv store { feed with
      replies := replies
      sequencer := sequencer } := by
  have valid := step.phaseValid inv.valid
  have standing := inv.standing
  have next : ∀ {trigger num received},
      feed.sequencer.phase = .recovering trigger num received →
      ∃ index, store[index]? = some trigger ∧ feed.sequencer.sent.length < index ∧
        store[feed.sequencer.sent.length]? = some msg ∧ feed.requests = [] ∧
        Outstanding store (feed.sequencer.sent.length + 1) index feed.requests
          feed.server replies := by
    intro trigger num received phase
    rw [phase] at standing
    rcases standing with ⟨index, found, lt, outstanding⟩
    have bound := (List.getElem?_eq_some_iff.mp found).1
    rw [waiting] at outstanding
    exact ⟨index, found, lt, outstanding.receive bound lt⟩
  cases step with
  | mismatch _ _ phase different =>
      rcases next phase with ⟨index, _, _, reply, _⟩
      have expected := numbered _ _ reply
      exact absurd (expected.trans inv.number.symm) different
  | @receive trigger num received _ _ phase expected =>
      rcases next phase with ⟨index, found, lt, reply, read, outstanding⟩
      have count : (feed.sequencer.sent ++ [msg]).length =
          feed.sequencer.sent.length + 1 := by
        simp
      rw [TradeDataSequencer.receiveLoop_nextSequence] at valid
      refine inv_receiveLoop { feed with replies := replies } numbered small
        inv.channel inv.recvQueue (inv.take_sent reply) ?_ valid found ?_ ?_ ?_
      · change feed.sequencer.nextSequence + 1 = BitVec.ofNat 64 _
        rw [inv.number, Word64.ofNat_add_one, ← count]
        rfl
      · change (feed.sequencer.sent ++ [msg]).length ≤ index
        omega
      · intro _
        change Outstanding store (feed.sequencer.sent ++ [msg]).length _ _ _ _
        rw [count]
        exact outstanding
      · intro complete
        change (feed.sequencer.sent ++ [msg]).length = index at complete
        rw [← complete, count] at outstanding
        exact ⟨read, outstanding.finished read⟩

theorem Inv.forward (inv : Inv store feed)
    {sequencer : TradeDataSequencer.State TradeMsg}
    (step : TradeDataSequencer.Step feed.sequencer (.forward true) sequencer) :
    Inv store { feed with sequencer := sequencer } := by
  cases step with
  | forward _ phase =>
      have standing := inv.standing
      rw [phase] at standing
      rcases standing with ⟨found, quiet⟩
      refine ⟨inv.channel, inv.recvQueue, inv.take_sent found, ?_, trivial, quiet⟩
      change feed.sequencer.nextSequence + 1 = BitVec.ofNat 64 (_ ++ [_]).length
      rw [inv.number, Word64.ofNat_add_one, List.length_append, List.length_singleton]

/-- The snapshot server is only busy while the sequencer recovers. -/
theorem Inv.busy (inv : Inv store feed) (busy : ¬ feed.Quiet) :
    ∃ trigger < store.length, feed.sequencer.sent.length < trigger ∧
      Outstanding store feed.sequencer.sent.length trigger feed.requests feed.server
        feed.replies ∧
      ∀ feed' : Feed TradeMsg,
        Outstanding store feed.sequencer.sent.length trigger feed'.requests feed'.server
          feed'.replies →
        feed'.Standing store feed.sequencer.sent.length feed.sequencer.phase := by
  have standing := inv.standing
  cases phase : feed.sequencer.phase with
  | polling => rw [phase] at standing; exact absurd standing busy
  | stopped => rw [phase] at standing; exact absurd standing busy
  | threw => rw [phase] at standing; exact standing.elim
  | requesting _ =>
      rw [phase] at standing
      rcases standing with ⟨_, _, _, quiet⟩
      exact absurd quiet busy
  | forwarding _ _ => rw [phase] at standing; exact absurd standing.2 busy
  | recovering _ _ _ =>
      rw [phase] at standing
      rcases standing with ⟨trigger, found, lt, outstanding⟩
      have bound := (List.getElem?_eq_some_iff.mp found).1
      exact ⟨trigger, bound, lt, outstanding,
        fun _ outstanding' => ⟨trigger, found, lt, outstanding'⟩⟩

theorem Inv.readRequest (inv : Inv store feed) (small : store.length < 2 ^ 31)
    {msg : GapRequestMsg} {requests : List GapRequestMsg}
    (idle : feed.server = .idle) (waiting : feed.requests = msg :: requests) :
    Inv store { feed with
      requests := requests
      server := SnapshotServer.request store msg } := by
  have busy : ¬ feed.Quiet := by
    intro given
    rcases given with ⟨quiet, _⟩
    rw [quiet] at waiting
    cases waiting
  rcases inv.busy busy with ⟨trigger, bound, lt, outstanding, standing⟩
  rw [idle, waiting] at outstanding
  exact ⟨inv.channel, inv.recvQueue, inv.sent, inv.number, inv.valid,
    standing _ (outstanding.readRequest lt (by omega))⟩

theorem Inv.serve (inv : Inv store feed) (small : store.length < 2 ^ 31)
    {sent : List TradeMsg} {server : SnapshotServer.Phase}
    (sends : SnapshotServer.send store feed.server = some (sent, server)) :
    Inv store { feed with
      server := server
      replies := feed.replies ++ sent } := by
  have busy : ¬ feed.Quiet := by
    intro given
    rcases given with ⟨_, idle, _⟩
    rw [idle] at sends
    cases sends
  rcases inv.busy busy with ⟨trigger, bound, lt, outstanding, standing⟩
  exact ⟨inv.channel, inv.recvQueue, inv.sent, inv.number, inv.valid,
    standing _ (outstanding.serve bound (by omega) sends)⟩

theorem inv_initial (store : List TradeMsg) : Inv store (initial : Feed TradeMsg) where
  channel _ member := absurd member List.not_mem_nil
  recvQueue _ member := absurd member List.not_mem_nil
  sent := rfl
  number := rfl
  valid := trivial
  standing := ⟨rfl, rfl, rfl⟩

theorem Step.inv {createMulticastGap : Bool} {event : Event TradeMsg}
    {next : Feed TradeMsg} (numbered : Numbered store) (small : store.length < 2 ^ 31)
    (inv : Inv store feed) (step : Step store createMulticastGap feed event next) :
    Inv store next := by
  cases step with
  | @multicast datagrams _ served =>
      refine ⟨?_, inv.recvQueue, inv.sent, inv.number, inv.valid, inv.standing⟩
      intro msg member
      rcases List.mem_append.mp member with old | new
      · exact inv.channel msg old
      · exact MulticastServer.mem_of_serveClients served msg new
  | deliver msg member =>
      refine ⟨inv.channel, ?_, inv.sent, inv.number, inv.valid, inv.standing⟩
      intro other member'
      rcases List.mem_append.mp member' with old | new
      · exact inv.recvQueue other old
      · rw [List.mem_singleton.mp new]
        exact inv.channel msg member
  | readRequest idle waiting => exact inv.readRequest small idle waiting
  | serve sends => exact inv.serve small sends
  | dequeue waiting advanced => exact inv.dequeue numbered small waiting advanced
  | dequeueNothing advanced => cases advanced with | dequeueNothing phase => exact inv
  | sendRequest phase advanced => exact inv.sendRequest numbered small phase advanced
  | timeout advanced => cases advanced with | timeout phase => exact inv
  | receive waiting advanced => exact inv.receive numbered small waiting advanced
  | forward advanced => exact inv.forward advanced
  | stop advanced =>
      cases advanced with
      | stop phase =>
          have standing := inv.standing
          rw [phase] at standing
          exact ⟨inv.channel, inv.recvQueue, inv.sent, inv.number, trivial, standing⟩

end Invariance

/-- At every moment of every run the sequencer has sent the first
`nextSequence_` messages of the store, and it never throws. -/
theorem sent_eq_take_of_reachable {TradeMsg : Type u} [DecidableEq TradeMsg]
    [SequencedMsg TradeMsg] (store : List TradeMsg) (createMulticastGap : Bool)
    (small : store.length < 2 ^ 31) (numbered : Numbered store) {feed : Feed TradeMsg}
    (reachable : (system store createMulticastGap).Reachable feed) :
    feed.sequencer.nextSequence.toNat ≤ store.length ∧
      feed.sequencer.sent = store.take feed.sequencer.nextSequence.toNat ∧
      feed.sequencer.phase ≠ .threw := by
  have inv : Inv store feed := by
    refine reachable.invariant (Inv store) ?_ ?_
    · intro state start
      cases start
      exact inv_initial store
    · exact fun _ _ _ inv stepped => (Step.of_step stepped).inv numbered small inv
  have le := inv.sent_le
  have count : feed.sequencer.nextSequence.toNat = feed.sequencer.sent.length := by
    rw [inv.number, Word64.ofNat_toNat _ (by omega)]
  refine ⟨by omega, by rw [count]; exact inv.sent, ?_⟩
  intro threw
  have standing := inv.standing
  rw [threw] at standing
  exact standing

/-- Three messages are multicast, the last arrives first, and a copy of the first
arrives after its recovery. -/
def reorderedFeed : List (Event (ITCHTradeMsg Unit)) :=
  [.multicast, .multicast, .multicast, .deliver (TradeDataSequencer.numbered 2),
    .dequeue, .sendRequest, .readRequest, .serve, .receive, .timeout, .serve, .receive,
    .forward, .deliver (TradeDataSequencer.numbered 0), .dequeue]

theorem sent_eq_take_of_reachable_reordered :
    ∃ feed : Feed (ITCHTradeMsg Unit), feed.sequencer.nextSequence = 3 ∧
      (feed.sequencer.nextSequence.toNat ≤ 3 ∧
        feed.sequencer.sent =
          ([0, 1, 2].map TradeDataSequencer.numbered).take
            feed.sequencer.nextSequence.toNat ∧
        feed.sequencer.phase ≠ .threw) := by
  have numbered : Numbered ([0, 1, 2].map TradeDataSequencer.numbered) := by
    intro index msg found
    match index with
    | 0 | 1 | 2 => cases found; rfl
    | _ + 3 => cases found
  rcases TransitionSystem.exists_reachable_of_execute initial
    (step ([0, 1, 2].map TradeDataSequencer.numbered) false) reorderedFeed
    (fun feed => feed.sequencer.nextSequence = 3) (by decide)
    with ⟨feed, reachable, three⟩
  exact ⟨feed, three, sent_eq_take_of_reachable _ false (by decide) numbered reachable⟩

end FeederNet.TradeFeed.Feed
