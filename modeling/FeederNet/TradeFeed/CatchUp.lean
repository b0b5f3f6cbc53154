import FeederNet.Foundation.Progress
import FeederNet.TradeFeed.Ordering

/-! # Catching up

Once nothing more arrives, the feed comes to rest after a bounded number of steps. It has
then sent everything up to the newest message that was delivered, and nothing beyond.
-/

namespace FeederNet.TradeFeed.Feed

open TradeDataSequencer (Phase)

/-! ## Steps that the parties take by themselves -/

/-- Nothing from outside is needed: neither a datagram nor the end of a wait. -/
def Continues (feed : Feed TradeMsg) : Event TradeMsg → Prop
  | .dequeue => feed.recvQueue ≠ []
  | .readRequest | .serve | .sendRequest | .receive | .forward => True
  | .multicast | .deliver _ | .timeout | .stop => False

instance [DecidableEq TradeMsg] (feed : Feed TradeMsg) (event : Event TradeMsg) :
    Decidable (feed.Continues event) := by
  cases event <;> unfold Continues <;> infer_instance

/-- A gap costs a request and the reading of it. -/
def pending : Phase TradeMsg → Nat
  | .requesting _ => 2
  | .polling | .recovering _ _ _ | .forwarding _ _ | .threw | .stopped => 0

/-- The steps still to come: three for a message that waits, two for a message that has not
been sent, unless its reply has been. -/
def remaining (store : List TradeMsg) (feed : Feed TradeMsg) : Nat :=
  3 * feed.recvQueue.length +
    (2 * (store.length - feed.sequencer.sent.length) - feed.replies.length) +
    feed.requests.length + pending feed.sequencer.phase

theorem pending_le_two (phase : Phase TradeMsg) : pending phase ≤ 2 := by
  cases phase with
  | requesting msg => exact le_rfl
  | polling | recovering _ _ _ | forwarding _ _ | threw | stopped => exact Nat.zero_le 2

theorem pending_receiveLoop (state : TradeDataSequencer.State TradeMsg) (msg : TradeMsg)
    (numMessages messagesReceived : Word64) :
    pending (state.receiveLoop msg numMessages messagesReceived).phase = 0 := by
  unfold TradeDataSequencer.State.receiveLoop
  split <;> rfl

section Outstanding

variable {store : List TradeMsg} {first last : Nat} {requests : List GapRequestMsg}
  {server : SnapshotServer.Phase} {replies : List TradeMsg}

theorem length_stretch_le (store : List TradeMsg) (first last : Nat) :
    (stretch store first last).length ≤ last - first := by
  rw [stretch, List.length_drop, List.length_take]
  omega

theorem Outstanding.length_replies_le
    (outstanding : Outstanding store first last requests server replies) :
    replies.length ≤ last - first := by
  cases outstanding with
  | requested _ _ empty => simp [empty]
  | serving index le lt _ _ already =>
      have length := length_stretch_le store first index
      rw [already]
      omega
  | served _ _ already =>
      rw [already]
      exact length_stretch_le store first last

theorem Outstanding.length_requests_le
    (outstanding : Outstanding store first last requests server replies) :
    requests.length ≤ 1 := by
  cases outstanding with
  | requested request _ _ => simp [request]
  | serving _ _ _ none _ _ => simp [none]
  | served none _ _ => simp [none]

theorem Outstanding.exists_next (inside : last < store.length) (lt : first < last)
    (outstanding : Outstanding store first last requests server replies) :
    (server = .idle ∧ requests ≠ []) ∨ (SnapshotServer.send store server).isSome ∨
      replies ≠ [] := by
  cases outstanding with
  | requested request idle _ => exact .inl ⟨idle, by simp [request]⟩
  | serving index _ _ _ serving _ => exact .inr (.inl (by simp [serving, SnapshotServer.send]))
  | served _ _ already =>
      have found := List.getElem?_eq_getElem (show first < store.length by omega)
      exact .inr (.inr (by rw [already, stretch_cons lt found]; exact List.cons_ne_nil _ _))

end Outstanding

section Progress

variable {TradeMsg : Type u} [DecidableEq TradeMsg] [SequencedMsg TradeMsg]
  {store : List TradeMsg} {createMulticastGap : Bool} {feed next : Feed TradeMsg}

omit [DecidableEq TradeMsg] in
theorem Inv.bounds (inv : Inv store feed) :
    feed.replies.length ≤ store.length - feed.sequencer.sent.length ∧
      feed.requests.length + pending feed.sequencer.phase ≤ 2 := by
  have small := pending_le_two feed.sequencer.phase
  by_cases quiet : feed.Quiet
  · rcases quiet with ⟨none, _, empty⟩
    simp [none, empty, small]
  · rcases inv.busy quiet with ⟨trigger, bound, lt, outstanding, _⟩
    have replies := outstanding.length_replies_le
    have requests := outstanding.length_requests_le
    have standing := inv.standing
    refine ⟨by omega, ?_⟩
    cases phase : feed.sequencer.phase with
    | requesting msg =>
        rw [phase] at standing
        rcases standing with ⟨_, _, _, given⟩
        exact absurd given quiet
    | polling | recovering _ _ _ | forwarding _ _ | threw | stopped =>
        exact requests.trans (Nat.le_succ 1)

omit [DecidableEq TradeMsg] in
theorem Inv.length_served (inv : Inv store feed) (small : store.length < 2 ^ 31)
    {sent : List TradeMsg} {server : SnapshotServer.Phase}
    (sends : SnapshotServer.send store feed.server = some (sent, server)) :
    sent.length = 1 := by
  have busy : ¬ feed.Quiet := by
    intro given
    rcases given with ⟨_, idle, _⟩
    rw [idle] at sends
    cases sends
  rcases inv.busy busy with ⟨trigger, bound, lt, outstanding, _⟩
  cases outstanding with
  | requested _ idle _ => rw [idle] at sends; cases sends
  | served _ idle _ => rw [idle] at sends; cases sends
  | serving index le below _ serving _ =>
      have found := List.getElem?_eq_getElem (show index < store.length by omega)
      simp only [serving, SnapshotServer.send, asSize_ofNat (show index < 2 ^ 31 by omega),
        get_ofNat store (show index < 2 ^ 64 by omega), found, Option.toList_some,
        Option.some.injEq, Prod.mk.injEq] at sends
      rw [← sends.1]
      rfl

/-- Every step of this kind leaves fewer to come. -/
theorem Step.lowers {event : Event TradeMsg} (numbered : Numbered store)
    (small : store.length < 2 ^ 31) (inv : Inv store feed)
    (continues : feed.Continues event)
    (stepped : step store createMulticastGap feed event = some next) :
    remaining store next < remaining store feed := by
  have bounds := inv.bounds
  have after := ((Step.of_step stepped).inv numbered small inv)
  have nextBounds := after.bounds
  have le := after.sent_le
  unfold remaining
  cases Step.of_step stepped with
  | multicast | deliver | timeout | stop => cases continues
  | @readRequest msg requests idle waiting =>
      simp only [waiting, List.length_cons]
      omega
  | @serve sent server sends =>
      have one := inv.length_served small sends
      simp only [List.length_append] at nextBounds
      simp only [List.length_append]
      omega
  | @dequeue msg recvQueue sequencer waiting advanced =>
      cases advanced with
      | dequeue _ phase =>
          have more := pending_le_two (feed.sequencer.dispatch msg).phase
          have none : pending feed.sequencer.phase = 0 := by rw [phase]; rfl
          have same : (feed.sequencer.dispatch msg).sent = feed.sequencer.sent := by
            unfold TradeDataSequencer.State.dispatch
            split
            · rfl
            · split <;> rfl
          simp only [waiting, List.length_cons, same]
          omega
  | dequeueNothing advanced =>
      -- The queue is not empty, so this is not what the step did.
      rcases List.exists_cons_of_ne_nil continues with ⟨msg, recvQueue, waiting⟩
      simp only [step, waiting] at stepped
      rcases advance_eq_some stepped with ⟨sequencer, _, same⟩
      have shorter := congrArg (fun feed => feed.recvQueue.length) same
      simp only [List.length_cons] at shorter
      omega
  | @sendRequest msg sequencer phase advanced =>
      cases advanced with
      | sendRequest phase' =>
          have two : pending feed.sequencer.phase = 2 := by rw [phase]; rfl
          simp only [TradeDataSequencer.State.startRecovery, pending_receiveLoop,
            TradeDataSequencer.receiveLoop_sent, List.length_append, List.length_singleton,
            two]
          omega
  | @receive msg replies sequencer waiting advanced =>
      cases advanced with
      | mismatch _ _ phase different => exact after.standing.elim
      | receive _ _ phase equal =>
          simp only [TradeDataSequencer.receiveLoop_sent, TradeDataSequencer.State.enqueue,
            if_true, List.length_append, List.length_singleton] at le
          simp only [waiting, List.length_cons] at bounds
          simp only [waiting, pending_receiveLoop,
            TradeDataSequencer.receiveLoop_sent, TradeDataSequencer.State.enqueue,
            if_true, List.length_append, List.length_cons]
          omega
  | forward advanced =>
      cases advanced with
      | forward _ phase =>
          have standing := inv.standing
          rw [phase] at standing
          rcases standing with ⟨_, _, _, empty⟩
          simp only [TradeDataSequencer.State.enqueue, TradeDataSequencer.State.goto,
            if_true, List.length_append, List.length_singleton] at le
          simp only [TradeDataSequencer.State.enqueue,
            TradeDataSequencer.State.goto, if_true, List.length_append,
            List.length_singleton, empty, List.length_nil]
          have none : pending (.polling : Phase TradeMsg) = 0 := rfl
          omega

def Rests (store : List TradeMsg) (createMulticastGap : Bool) (feed : Feed TradeMsg) :
    Prop :=
  ∀ event, feed.Continues event → step store createMulticastGap feed event = none

/-- A recovery under way can always go on, so that the feed only rests between two. -/
theorem Inv.rests_iff (inv : Inv store feed) : feed.Rests store createMulticastGap ↔
    feed.Quiet ∧ (feed.sequencer.phase = .polling ∧ feed.recvQueue = [] ∨
      feed.sequencer.phase = .stopped) := by
  constructor
  · intro rests
    have standing := inv.standing
    cases phase : feed.sequencer.phase with
    | polling =>
        rw [phase] at standing
        refine ⟨standing, .inl ⟨rfl, ?_⟩⟩
        by_contra waiting
        rcases List.exists_cons_of_ne_nil waiting with ⟨msg, recvQueue, same⟩
        have stuck := rests .dequeue waiting
        simp [step, advance, TradeDataSequencer.step, same, phase] at stuck
    | stopped =>
        rw [phase] at standing
        exact ⟨standing, .inr rfl⟩
    | threw =>
        rw [phase] at standing
        exact standing.elim
    | requesting msg =>
        have stuck := rests .sendRequest trivial
        simp [step, advance, TradeDataSequencer.step, phase] at stuck
    | forwarding msg cutShort =>
        have stuck := rests .forward trivial
        simp [step, advance, TradeDataSequencer.step, phase] at stuck
    | recovering msg numMessages messagesReceived =>
        rw [phase] at standing
        rcases standing with ⟨trigger, found, lt, outstanding⟩
        have bound := (List.getElem?_eq_some_iff.mp found).1
        rcases outstanding.exists_next bound lt with ⟨idle, some⟩ | some | some
        · rcases List.exists_cons_of_ne_nil some with ⟨request, requests, same⟩
          have stuck := rests .readRequest trivial
          simp [step, idle, same] at stuck
        · rcases Option.isSome_iff_exists.mp some with ⟨⟨sent, server⟩, sends⟩
          have stuck := rests .serve trivial
          simp [step, sends] at stuck
        · rcases List.exists_cons_of_ne_nil some with ⟨reply, replies, same⟩
          have stuck := rests .receive trivial
          simp only [step, advance, TradeDataSequencer.step, same, phase] at stuck
          split at stuck <;> cases stuck
  · rintro ⟨⟨requests, server, replies⟩, stands⟩ event continues
    cases event with
    | multicast | deliver | timeout | stop => cases continues
    | readRequest => simp [step, requests]
    | serve => simp [step, server, SnapshotServer.send]
    | receive => simp [step, replies]
    | dequeue =>
        rcases stands with ⟨_, empty⟩ | phase
        · exact absurd empty continues
        · rcases List.exists_cons_of_ne_nil continues with ⟨msg, recvQueue, same⟩
          simp [step, same, advance, TradeDataSequencer.step, phase]
    | sendRequest =>
        rcases stands with ⟨phase, _⟩ | phase <;> simp [step, phase]
    | forward =>
        rcases stands with ⟨phase, _⟩ | phase <;>
          simp [step, advance, TradeDataSequencer.step, phase]

end Progress

/-! ## What has been delivered -/

def inHand : Phase TradeMsg → Option TradeMsg
  | .requesting msg | .recovering msg _ _ | .forwarding msg _ => some msg
  | .polling | .threw | .stopped => none

def Delivered (past : List (Feed TradeMsg × Event TradeMsg)) (msg : TradeMsg) : Prop :=
  Event.deliver msg ∈ past.map Prod.snd

def Reached (store : List TradeMsg) (past : List (Feed TradeMsg × Event TradeMsg))
    (index : Nat) : Prop :=
  ∃ later msg, index ≤ later ∧ store[later]? = some msg ∧ Delivered past msg

/-- Every message delivered has been sent or is on its way, and the messages sent are
those delivered and the ones before them. -/
structure Accounted (store : List TradeMsg) (past : List (Feed TradeMsg × Event TradeMsg))
    (feed : Feed TradeMsg) : Prop where
  kept : ∀ (index : Nat) (msg : TradeMsg), store[index]? = some msg → Delivered past msg →
    index < feed.sequencer.sent.length ∨ msg ∈ feed.recvQueue ∨
      inHand feed.sequencer.phase = some msg
  waiting : ∀ msg ∈ feed.recvQueue, Delivered past msg
  hand : ∀ msg, inHand feed.sequencer.phase = some msg → Delivered past msg
  reached : ∀ index < feed.sequencer.sent.length, Reached store past index

section Delivery

variable {TradeMsg : Type u} {store : List TradeMsg}
  {past : List (Feed TradeMsg × Event TradeMsg)} {feed next : Feed TradeMsg}
  {event : Event TradeMsg}

theorem Delivered.cons {msg : TradeMsg} (delivered : Delivered past msg) :
    Delivered ((feed, event) :: past) msg :=
  List.mem_cons_of_mem _ delivered

theorem Reached.cons {index : Nat} (reached : Reached store past index) :
    Reached store ((feed, event) :: past) index := by
  rcases reached with ⟨later, msg, le, found, delivered⟩
  exact ⟨later, msg, le, found, delivered.cons⟩

theorem Delivered.of_cons {msg : TradeMsg} (other : event ≠ .deliver msg)
    (delivered : Delivered ((feed, event) :: past) msg) : Delivered past msg := by
  rcases List.mem_cons.mp delivered with same | earlier
  · exact absurd same.symm other
  · exact earlier

theorem inHand_receiveLoop (state : TradeDataSequencer.State TradeMsg) (msg : TradeMsg)
    (numMessages messagesReceived : Word64) :
    inHand (state.receiveLoop msg numMessages messagesReceived).phase = some msg := by
  unfold TradeDataSequencer.State.receiveLoop
  split <;> rfl

theorem accounted_initial (store : List TradeMsg) :
    Accounted store [] (initial : Feed TradeMsg) where
  kept _ _ _ delivered := absurd delivered List.not_mem_nil
  waiting _ member := absurd member List.not_mem_nil
  hand _ hand := by cases hand
  reached _ below := absurd below (Nat.not_lt_zero _)

theorem Accounted.stay (accounted : Accounted store past feed)
    (quiet : ∀ msg, event ≠ .deliver msg) (queue : next.recvQueue = feed.recvQueue)
    (sent : next.sequencer.sent = feed.sequencer.sent)
    (hand : inHand next.sequencer.phase = inHand feed.sequencer.phase) :
    Accounted store ((feed, event) :: past) next where
  kept index msg found delivered := by
    rw [queue, sent, hand]
    exact accounted.kept index msg found (delivered.of_cons (quiet msg))
  waiting msg member := (accounted.waiting msg (queue ▸ member)).cons
  hand msg taken := (accounted.hand msg (hand ▸ taken)).cons
  reached index below := (accounted.reached index (sent ▸ below)).cons

theorem Accounted.deliver (accounted : Accounted store past feed) (msg : TradeMsg) :
    Accounted store ((feed, .deliver msg) :: past)
      { feed with recvQueue := feed.recvQueue ++ [msg] } where
  kept index other found delivered := by
    by_cases same : other = msg
    · subst same
      exact .inr (.inl (List.mem_append_right _ (List.mem_singleton_self other)))
    · have different : Event.deliver msg ≠ .deliver other := fun equal =>
        same (Event.deliver.inj equal).symm
      rcases accounted.kept index other found (delivered.of_cons different) with
        below | member | taken
      · exact .inl below
      · exact .inr (.inl (List.mem_append_left _ member))
      · exact .inr (.inr taken)
  waiting other member := by
    rcases List.mem_append.mp member with old | new
    · exact (accounted.waiting other old).cons
    · rw [List.mem_singleton.mp new]
      exact List.mem_cons_self
  hand other taken := (accounted.hand other taken).cons
  reached index below := (accounted.reached index below).cons

theorem Accounted.send (accounted : Accounted store past feed)
    (quiet : ∀ msg, event ≠ .deliver msg) (queue : next.recvQueue = feed.recvQueue)
    (sent : next.sequencer.sent.length = feed.sequencer.sent.length + 1)
    (reached : Reached store past feed.sequencer.sent.length)
    (hand : inHand next.sequencer.phase = inHand feed.sequencer.phase ∨
      (inHand next.sequencer.phase = none ∧ ∀ index msg, store[index]? = some msg →
        inHand feed.sequencer.phase = some msg → index = feed.sequencer.sent.length)) :
    Accounted store ((feed, event) :: past) next where
  kept index msg found delivered := by
    rw [queue, sent]
    rcases accounted.kept index msg found (delivered.of_cons (quiet msg)) with
      below | member | taken
    · exact .inl (by omega)
    · exact .inr (.inl member)
    · rcases hand with same | ⟨_, turn⟩
      · exact .inr (.inr (same.trans taken))
      · have now := turn index msg found taken
        exact .inl (by omega)
  waiting msg member := (accounted.waiting msg (queue ▸ member)).cons
  hand msg taken := by
    rcases hand with same | ⟨none, _⟩
    · exact (accounted.hand msg (same ▸ taken)).cons
    · cases none.symm.trans taken
  reached index below := by
    rw [sent] at below
    rcases Nat.lt_succ_iff_lt_or_eq.mp below with earlier | rfl
    · exact (accounted.reached index earlier).cons
    · exact reached.cons

/-- Once the sequencer polls an empty queue, exactly the messages reached are sent. -/
theorem Accounted.lt_sent_iff (accounted : Accounted store past feed)
    (polling : feed.sequencer.phase = .polling) (empty : feed.recvQueue = []) (index : Nat) :
    index < feed.sequencer.sent.length ↔ Reached store past index := by
  constructor
  · exact accounted.reached index
  · rintro ⟨later, msg, le, found, delivered⟩
    rcases accounted.kept later msg found delivered with below | member | taken
    · exact le.trans_lt below
    · rw [empty] at member
      cases member
    · rw [polling] at taken
      cases taken

variable [SequencedMsg TradeMsg]

/-- A message leaves the queue: it is dropped only if it has been sent before. -/
theorem Accounted.dequeue (accounted : Accounted store past feed) (inv : Inv store feed)
    (numbered : Numbered store) (small : store.length < 2 ^ 31) {msg : TradeMsg}
    {recvQueue : List TradeMsg} (phase : feed.sequencer.phase = .polling)
    (waiting : feed.recvQueue = msg :: recvQueue) :
    Accounted store ((feed, .dequeue) :: past)
      { feed with recvQueue := recvQueue, sequencer := feed.sequencer.dispatch msg } := by
  have le := inv.sent_le
  have arrived : Delivered past msg :=
    accounted.waiting msg (by rw [waiting]; exact List.mem_cons_self)
  have same : (feed.sequencer.dispatch msg).sent = feed.sequencer.sent := by
    unfold TradeDataSequencer.State.dispatch
    split
    · rfl
    · split <;> rfl
  have taken : inHand (feed.sequencer.dispatch msg).phase = some msg ∨
      (inHand (feed.sequencer.dispatch msg).phase = none ∧
        sequenceNumber msg < feed.sequencer.nextSequence) := by
    unfold TradeDataSequencer.State.dispatch
    split
    · exact .inl rfl
    · split
      · rename_i late
        exact .inr ⟨by rw [phase]; rfl, late⟩
      · exact .inl rfl
  refine ⟨?_, ?_, ?_, ?_⟩
  · intro index other found delivered
    change index < (feed.sequencer.dispatch msg).sent.length ∨ other ∈ recvQueue ∨ _
    rw [same]
    rcases accounted.kept index other found (delivered.of_cons (by rintro ⟨⟩)) with
      below | member | inHand
    · exact .inl below
    · rw [waiting] at member
      rcases List.mem_cons.mp member with rfl | member
      · rcases taken with taken | ⟨_, late⟩
        · exact .inr (.inr taken)
        · have bound := (List.getElem?_eq_some_iff.mp found).1
          rw [numbered index other found, inv.number, BitVec.lt_def,
            Word64.ofNat_toNat _ (by omega), Word64.ofNat_toNat _ (by omega)] at late
          exact .inl late
      · exact .inr (.inl member)
    · rw [phase] at inHand
      cases inHand
  · intro other member
    exact (accounted.waiting other (by rw [waiting]; exact List.mem_cons_of_mem _ member)).cons
  · intro other hand
    rcases taken with taken | ⟨none, _⟩
    · cases taken.symm.trans hand
      exact arrived.cons
    · cases none.symm.trans hand
  · intro index below
    change index < (feed.sequencer.dispatch msg).sent.length at below
    rw [same] at below
    exact (accounted.reached index below).cons

theorem Step.accounted [DecidableEq TradeMsg] {createMulticastGap : Bool}
    (numbered : Numbered store) (small : store.length < 2 ^ 31) (inv : Inv store feed)
    (nextInv : Inv store next) (accounted : Accounted store past feed)
    (step : Step store createMulticastGap feed event next) :
    Accounted store ((feed, event) :: past) next := by
  cases step with
  | multicast | readRequest | serve => exact accounted.stay (by rintro _ ⟨⟩) rfl rfl rfl
  | deliver msg => exact accounted.deliver msg
  | dequeue waiting advanced =>
      cases advanced with
      | dequeue _ phase => exact accounted.dequeue inv numbered small phase waiting
  | dequeueNothing advanced =>
      cases advanced with
      | dequeueNothing phase => exact accounted.stay (by rintro _ ⟨⟩) rfl rfl rfl
  | sendRequest phase advanced =>
      cases advanced with
      | sendRequest phase =>
          refine accounted.stay (by rintro _ ⟨⟩) rfl
            TradeDataSequencer.receiveLoop_sent ?_
          rw [phase]
          exact inHand_receiveLoop _ _ _ _
  | timeout advanced =>
      cases advanced with
      | timeout phase => exact accounted.stay (by rintro _ ⟨⟩) rfl rfl rfl
  | receive waiting advanced =>
      cases advanced with
      | mismatch _ _ phase different => exact nextInv.standing.elim
      | @receive trigger num received _ _ phase equal =>
          -- The message that showed the gap comes after every message recovered.
          have standing := inv.standing
          rw [phase] at standing
          rcases standing with ⟨index, found, lt, _⟩
          refine accounted.send (by rintro _ ⟨⟩) rfl ?_
            ⟨index, trigger, lt.le, found, accounted.hand trigger (by rw [phase]; rfl)⟩
            (.inl ?_)
          · simp [TradeDataSequencer.receiveLoop_sent, TradeDataSequencer.State.enqueue]
          · rw [phase]
            exact inHand_receiveLoop _ _ _ _
  | forward advanced =>
      cases advanced with
      | @forward msg _ _ phase =>
          have standing := inv.standing
          have le := inv.sent_le
          rw [phase] at standing
          refine accounted.send (by rintro _ ⟨⟩) rfl ?_
            ⟨_, msg, le_rfl, standing.1, accounted.hand msg (by rw [phase]; rfl)⟩
            (.inr ⟨rfl, ?_⟩)
          · simp [TradeDataSequencer.State.enqueue, TradeDataSequencer.State.goto]
          · intro index other found taken
            rw [phase] at taken
            cases taken
            apply (numbered.eq_iff small found le).mp
            rw [numbered _ _ standing.1]
  | stop advanced =>
      cases advanced with
      | stop phase =>
          refine accounted.stay (by rintro _ ⟨⟩) rfl rfl ?_
          rw [phase]
          rfl

theorem accounted_of_run [DecidableEq TradeMsg] {createMulticastGap : Bool}
    (numbered : Numbered store) (small : store.length < 2 ^ 31)
    (run : (system store createMulticastGap).Run past feed) :
    Inv store feed ∧ Accounted store past feed := by
  induction run with
  | start start =>
      cases start
      exact ⟨inv_initial store, accounted_initial store⟩
  | step _ stepped induction =>
      rcases induction with ⟨inv, accounted⟩
      have step := Step.of_step stepped
      have nextInv := step.inv numbered small inv
      exact ⟨nextInv, step.accounted numbered small inv nextInv accounted⟩

end Delivery

/-- The feed makes up for everything that it has missed.
* By themselves, without new datagrams, the parties make a bounded number of steps.
* They stop only with no request under way and nothing waiting, or once told to stop.
* Then exactly the messages up to the newest one delivered have been sent, in order. -/
structure CatchesUp [DecidableEq TradeMsg] [SequencedMsg TradeMsg] (store : List TradeMsg)
    (createMulticastGap : Bool) (past : List (Feed TradeMsg × Event TradeMsg))
    (feed : Feed TradeMsg) : Prop where
  bounded : ∀ events final, TransitionSystem.execute
    (TransitionSystem.guarded Continues (step store createMulticastGap)) feed events =
      some final →
    events.length ≤ 3 * feed.recvQueue.length +
      2 * (store.length - feed.sequencer.nextSequence.toNat) + 2
  settled : feed.Rests store createMulticastGap →
    feed.Quiet ∧ (feed.sequencer.phase = .polling ∧ feed.recvQueue = [] ∨
      feed.sequencer.phase = .stopped)
  complete : feed.Rests store createMulticastGap → feed.sequencer.phase = .polling →
    feed.sequencer.sent = store.take feed.sequencer.nextSequence.toNat ∧
      ∀ index, index < feed.sequencer.nextSequence.toNat ↔ Reached store past index

section CatchesUp

variable {TradeMsg : Type u} [DecidableEq TradeMsg] [SequencedMsg TradeMsg]
  {past : List (Feed TradeMsg × Event TradeMsg)} {feed : Feed TradeMsg}

omit [DecidableEq TradeMsg] in
theorem Inv.length_sent {store : List TradeMsg} (inv : Inv store feed)
    (small : store.length < 2 ^ 31) :
    feed.sequencer.nextSequence.toNat = feed.sequencer.sent.length := by
  have le := inv.sent_le
  rw [inv.number, Word64.ofNat_toNat _ (by omega)]

/-- Whatever the channel drops, repeats and reorders, in every run. -/
theorem catchesUp_of_run (store : List TradeMsg) (createMulticastGap : Bool)
    (small : store.length < 2 ^ 31) (numbered : Numbered store)
    (run : (system store createMulticastGap).Run past feed) :
    CatchesUp store createMulticastGap past feed := by
  rcases accounted_of_run numbered small run with ⟨inv, accounted⟩
  refine ⟨?_, inv.rests_iff.mp, ?_⟩
  · intro events final executes
    have guard : ∀ {current next event}, TransitionSystem.guarded Continues
        (step store createMulticastGap) current event = some next →
        current.Continues event ∧ step store createMulticastGap current event = some next := by
      intro current next event stepped
      simpa [TransitionSystem.guarded] using stepped
    have bound := TransitionSystem.length_le_of_execute (Inv store) (fun _ => True)
      (remaining store)
      (fun _ _ _ inv stepped =>
        (Step.of_step (guard stepped).2).inv numbered small inv)
      (fun _ _ _ inv _ stepped =>
        Step.lowers numbered small inv (guard stepped).1 (guard stepped).2)
      inv (fun _ _ => trivial) executes
    have most := inv.bounds
    rw [inv.length_sent small]
    unfold remaining at bound
    omega
  · intro rests polling
    rcases (inv.rests_iff.mp rests).2 with ⟨_, empty⟩ | stopped
    · rw [inv.length_sent small]
      exact ⟨inv.sent, accounted.lt_sent_iff polling empty⟩
    · cases polling.symm.trans stopped

theorem numbered_three : Numbered ([0, 1, 2].map TradeDataSequencer.numbered) := by
  intro index msg found
  match index with
  | 0 | 1 | 2 => cases found; rfl
  | _ + 3 => cases found

/-- The last message arrives first and brings the other two with it. -/
theorem catchesUp_of_run_reordered :
    ∃ past, ∃ feed : Feed (ITCHTradeMsg Unit),
      (past.map Prod.snd = reorderedFeed.reverse ∧ feed.sequencer.nextSequence = 3) ∧
        CatchesUp ([0, 1, 2].map TradeDataSequencer.numbered) false past feed := by
  rcases TransitionSystem.exists_run_of_events initial
    (step ([0, 1, 2].map TradeDataSequencer.numbered) false) reorderedFeed
    (fun feed => feed.sequencer.nextSequence = 3) (by decide)
    with ⟨past, feed, run, events, three⟩
  exact ⟨past, feed, ⟨events, three⟩,
    catchesUp_of_run _ false (by decide) numbered_three run⟩

end CatchesUp

end FeederNet.TradeFeed.Feed
