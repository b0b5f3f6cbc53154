import FeederNet.TradeFeed.CatchUp

/-! # Gaps of the multicast

The loop of `MulticastServer` can leave out two messages in a thousand. A sequencer that
is delivered everything multicast gets them from the snapshot server, except for those
that nothing follows: it never learns that they are missing.
-/

namespace FeederNet.TradeFeed

/-! ## The artificial gaps -/

/-- The last two messages of every thousand. -/
def leftOut (createMulticastGap : Bool) (index : Nat) : Bool :=
  createMulticastGap && (index % 1000 == 998 || index % 1000 == 999)

/-- How many messages at the end of a store are left out. -/
def finalGap (createMulticastGap : Bool) (length : Nat) : Nat :=
  if createMulticastGap = false then 0
  else if length % 1000 = 999 then 1
  else if length % 1000 = 0 then 2
  else 0

theorem srem_ofNat {value : Nat} (small : value ≤ 2 ^ 31) :
    ((BitVec.ofNat 32 value).srem 1000 == 0) = (value % 1000 == 0) := by
  rcases small.lt_or_eq with below | rfl
  · have same : (BitVec.ofNat 32 value).toNat = value := Nat.mod_eq_of_lt (by omega)
    have signed : (BitVec.ofNat 32 value).toInt = value := by
      rw [BitVec.toInt_eq_toNat_of_lt (by omega), same]
    have remainder : ((BitVec.ofNat 32 value).srem 1000).toInt =
        ((value % 1000 : Nat) : Int) := by
      rw [BitVec.toInt_srem, signed]
      rfl
    rw [Bool.eq_iff_iff, beq_iff_eq, beq_iff_eq, ← BitVec.toInt_inj, remainder]
    exact Int.natCast_eq_zero
  · -- The sum overflows to the least `int`, which is no multiple either.
    decide

theorem skips_ofNat (createMulticastGap : Bool) {index : Nat} (small : index + 2 ≤ 2 ^ 31) :
    MulticastServer.skips createMulticastGap (BitVec.ofNat 32 index) =
      leftOut createMulticastGap index := by
  have one : BitVec.ofNat 32 index + 1 = BitVec.ofNat 32 (index + 1) :=
    (BitVec.ofNat_add _ _).symm
  have two : BitVec.ofNat 32 index + 2 = BitVec.ofNat 32 (index + 2) :=
    (BitVec.ofNat_add _ _).symm
  rw [MulticastServer.skips, one, two, srem_ofNat (by omega), srem_ofNat small, leftOut]
  congr 1
  rw [Bool.eq_iff_iff, Bool.or_eq_true, Bool.or_eq_true]
  simp only [beq_iff_eq]
  omega

/-- Nothing after the end of what is multicast is multicast. -/
theorem lt_sub_finalGap_iff (createMulticastGap : Bool) (length index : Nat) :
    index < length - finalGap createMulticastGap length ↔
      ∃ later < length, leftOut createMulticastGap later = false ∧ index ≤ later := by
  cases createMulticastGap with
  | false =>
      constructor
      · intro below
        exact ⟨index, by simpa [finalGap] using below, rfl, le_rfl⟩
      · rintro ⟨later, below, _, le⟩
        simp only [finalGap, if_true]
        omega
  | true =>
      have last : ∀ later, leftOut true later = false ↔
          later % 1000 ≠ 998 ∧ later % 1000 ≠ 999 := by
        intro later
        simp [leftOut]
      simp only [last, finalGap, Bool.true_eq_false, if_false]
      constructor
      · intro below
        by_cases one : length % 1000 = 999
        · rw [if_pos one] at below
          exact ⟨length - 2, by omega, by omega, by omega⟩
        · by_cases two : length % 1000 = 0
          · rw [if_neg one, if_pos two] at below
            exact ⟨length - 3, by omega, by omega, by omega⟩
          · rw [if_neg one, if_neg two] at below
            exact ⟨length - 1, by omega, by omega, by omega⟩
      · rintro ⟨later, below, kept, le⟩
        split
        · omega
        · split <;> omega

/-! ## The loop -/

/-- The datagrams of the first `count` iterations. -/
def announced (store : List TradeMsg) (createMulticastGap : Bool) (count : Nat) :
    List TradeMsg :=
  ((List.range count).filter fun index => !leftOut createMulticastGap index).filterMap
    (store[·]?)

theorem announced_succ (store : List TradeMsg) (createMulticastGap : Bool) (count : Nat) :
    announced store createMulticastGap (count + 1) =
      announced store createMulticastGap count ++
        if leftOut createMulticastGap count then [] else store[count]?.toList := by
  rw [announced, announced, List.range_succ, List.filter_append, List.filterMap_append]
  congr 1
  cases omitted : leftOut createMulticastGap count <;> cases found : store[count]? <;>
    simp [omitted, found]

theorem mem_announced_iff {store : List TradeMsg} {createMulticastGap : Bool} {count : Nat}
    {msg : TradeMsg} : msg ∈ announced store createMulticastGap count ↔
      ∃ index < count, leftOut createMulticastGap index = false ∧
        store[index]? = some msg := by
  simp [announced, and_assoc]

theorem serveClients_ofNat (store : List TradeMsg) (createMulticastGap : Bool) {count : Nat}
    (small : store.length < 2 ^ 31) (le : count ≤ store.length) :
    MulticastServer.serveClients store createMulticastGap (BitVec.ofNat 32 count) =
      if count < store.length then
        some (if leftOut createMulticastGap count then [] else store[count]?.toList,
          BitVec.ofNat 32 (count + 1))
      else none := by
  have next : BitVec.ofNat 32 count + 1 = BitVec.ofNat 32 (count + 1) :=
    (BitVec.ofNat_add _ _).symm
  have test : asSize (BitVec.ofNat 32 count) < TradeMsgStore.size store ↔
      count < store.length := by
    rw [asSize_ofNat (by omega), TradeMsgStore.size, BitVec.lt_def,
      Word64.ofNat_toNat _ (by omega), Word64.ofNat_toNat _ (by omega)]
  unfold MulticastServer.serveClients
  by_cases below : count < store.length
  · rw [if_pos (test.mpr below), if_pos below, skips_ofNat _ (by omega), next,
      asSize_ofNat (by omega), get_ofNat store (by omega)]
    cases leftOut createMulticastGap count <;> rfl
  · rw [if_neg (mt test.mp below), if_neg below]

namespace Feed

/-- The loop has made `count` iterations, and only its datagrams have been delivered. -/
structure Announces (store : List TradeMsg) (createMulticastGap : Bool) (count : Nat)
    (past : List (Feed TradeMsg × Event TradeMsg)) (feed : Feed TradeMsg) : Prop where
  le : count ≤ store.length
  index : feed.multicastIndex = BitVec.ofNat 32 count
  channel : feed.channel = announced store createMulticastGap count
  delivered : ∀ msg, Delivered past msg → msg ∈ feed.channel

section Announces

variable {TradeMsg : Type u} [DecidableEq TradeMsg] [SequencedMsg TradeMsg]
  {store : List TradeMsg} {createMulticastGap : Bool} {count : Nat}
  {past : List (Feed TradeMsg × Event TradeMsg)} {feed next : Feed TradeMsg}
  {event : Event TradeMsg}

omit [DecidableEq TradeMsg] [SequencedMsg TradeMsg] in
theorem Announces.stay (announces : Announces store createMulticastGap count past feed)
    (index : next.multicastIndex = feed.multicastIndex)
    (channel : next.channel = feed.channel)
    (allowed : ∀ msg, event = .deliver msg → msg ∈ feed.channel) :
    Announces store createMulticastGap count ((feed, event) :: past) next where
  le := announces.le
  index := index.trans announces.index
  channel := channel.trans announces.channel
  delivered msg delivered := by
    rw [channel]
    by_cases same : event = .deliver msg
    · exact allowed msg same
    · exact announces.delivered msg (delivered.of_cons same)

omit [DecidableEq TradeMsg] in
theorem Step.announces (small : store.length < 2 ^ 31)
    (announces : Announces store createMulticastGap count past feed)
    (step : Step store createMulticastGap feed event next) :
    ∃ count, Announces store createMulticastGap count ((feed, event) :: past) next := by
  cases step with
  | @multicast datagrams following served =>
      rw [announces.index, serveClients_ofNat store createMulticastGap small announces.le]
        at served
      split at served
      · rename_i below
        cases served
        refine ⟨count + 1, below, rfl, ?_, ?_⟩
        · change feed.channel ++ _ = _
          rw [announced_succ, announces.channel]
        · intro msg delivered
          apply List.mem_append_left
          exact announces.delivered msg (delivered.of_cons (by rintro ⟨⟩))
      · cases served
  | deliver msg member =>
      refine ⟨count, announces.stay rfl rfl ?_⟩
      rintro _ ⟨⟩
      exact member
  | readRequest | serve | dequeue | dequeueNothing | sendRequest | timeout | receive
  | forward | stop => exact ⟨count, announces.stay rfl rfl (by rintro _ ⟨⟩)⟩

theorem announces_of_run (small : store.length < 2 ^ 31)
    (run : (system store createMulticastGap).Run past feed) :
    ∃ count, Announces store createMulticastGap count past feed := by
  induction run with
  | start start =>
      cases start
      exact ⟨0, Nat.zero_le _, rfl, rfl, fun _ delivered => absurd delivered List.not_mem_nil⟩
  | step _ stepped induction =>
      rcases induction with ⟨count, announces⟩
      exact (Step.of_step stepped).announces small announces

omit [DecidableEq TradeMsg] [SequencedMsg TradeMsg] in
theorem Announces.eq_length (announces : Announces store createMulticastGap count past feed)
    (small : store.length < 2 ^ 31)
    (finished : MulticastServer.serveClients store createMulticastGap feed.multicastIndex =
      none) : count = store.length := by
  rw [announces.index, serveClients_ofNat store createMulticastGap small announces.le]
    at finished
  split at finished
  · cases finished
  · have le := announces.le
    omega

/-- The loop can make any number of its iterations before another party moves. -/
theorem exists_run_multicast (createMulticastGap : Bool) (small : store.length < 2 ^ 31)
    (le : count ≤ store.length) :
    ∃ past feed, (system store createMulticastGap).Run past feed ∧
      feed.multicastIndex = BitVec.ofNat 32 count := by
  induction count with
  | zero => exact ⟨[], initial, .start rfl, rfl⟩
  | succ count induction =>
      rcases induction (by omega) with ⟨past, feed, run, index⟩
      have served := serveClients_ofNat store createMulticastGap small (by omega : count ≤ _)
      rw [if_pos (Nat.lt_of_succ_le le), ← index] at served
      have stepped : step store createMulticastGap feed .multicast = some { feed with
          multicastIndex := BitVec.ofNat 32 (count + 1)
          channel := feed.channel ++
            if leftOut createMulticastGap count then [] else store[count]?.toList } := by
        rw [step, served]
      exact ⟨_, _, run.step stepped, rfl⟩

/-- Whatever the channel and the other parties do, a loop that has come to its end has
multicast every message once and in order, except for those that it leaves out. -/
theorem channel_eq_announced (small : store.length < 2 ^ 31)
    (run : (system store createMulticastGap).Run past feed)
    (finished : MulticastServer.serveClients store createMulticastGap feed.multicastIndex =
      none) : feed.channel = announced store createMulticastGap store.length := by
  rcases announces_of_run small run with ⟨count, announces⟩
  rw [announces.channel, announces.eq_length small finished]

def trades999 : List (ITCHTradeMsg Unit) :=
  (List.range 999).map fun number => TradeDataSequencer.numbered (BitVec.ofNat 64 number)

theorem channel_eq_announced_gap : ∃ feed : Feed (ITCHTradeMsg Unit),
    (system trades999 true).Reachable feed ∧ feed.channel = announced trades999 true 999 := by
  have length : trades999.length = 999 := by
    rw [trades999, List.length_map, List.length_range]
  have small : trades999.length < 2 ^ 31 := by
    rw [length]
    decide
  rcases exists_run_multicast true small le_rfl with ⟨past, feed, run, index⟩
  have finished : MulticastServer.serveClients trades999 true feed.multicastIndex = none := by
    rw [index, serveClients_ofNat trades999 true small le_rfl, if_neg (lt_irrefl _)]
  exact ⟨feed, ⟨past, run⟩, length ▸ channel_eq_announced small run finished⟩

omit [DecidableEq TradeMsg] in
theorem Announces.reached_iff (announces : Announces store createMulticastGap count past feed)
    (numbered : Numbered store) (small : store.length < 2 ^ 31)
    (all : ∀ msg ∈ feed.channel, Delivered past msg) (index : Nat) :
    Reached store past index ↔
      ∃ later < count, leftOut createMulticastGap later = false ∧ index ≤ later := by
  constructor
  · rintro ⟨later, msg, le, found, delivered⟩
    have member := announces.delivered msg delivered
    rw [announces.channel] at member
    rcases mem_announced_iff.mp member with ⟨other, below, kept, found'⟩
    have bound := (List.getElem?_eq_some_iff.mp found').1
    have same := (numbered.eq_iff small found bound.le).mp (numbered other msg found')
    exact ⟨other, below, kept, same ▸ le⟩
  · rintro ⟨later, below, kept, le⟩
    have bound := below.trans_le announces.le
    have found := List.getElem?_eq_getElem bound
    refine ⟨later, store[later], le, found, all _ ?_⟩
    rw [announces.channel]
    exact mem_announced_iff.mpr ⟨later, below, kept, found⟩

/-- The loop has come to its end, everything that it has multicast has been delivered at
some time, and the parties have come to rest: everything has been sent, except the final
messages that the loop has left out. -/
theorem sent_eq_of_announced (store : List TradeMsg) (createMulticastGap : Bool)
    (small : store.length < 2 ^ 31) (numbered : Numbered store)
    (run : (system store createMulticastGap).Run past feed)
    (finished : MulticastServer.serveClients store createMulticastGap feed.multicastIndex =
      none)
    (all : ∀ msg ∈ feed.channel, Delivered past msg)
    (rests : feed.Rests store createMulticastGap)
    (polling : feed.sequencer.phase = .polling) :
    feed.channel = announced store createMulticastGap store.length ∧
      feed.sequencer.sent =
        store.take (store.length - finalGap createMulticastGap store.length) := by
  rcases accounted_of_run numbered small run with ⟨inv, accounted⟩
  rcases announces_of_run small run with ⟨count, announces⟩
  obtain rfl := announces.eq_length small finished
  refine ⟨announces.channel, ?_⟩
  rcases (inv.rests_iff.mp rests).2 with ⟨_, empty⟩ | stopped
  · have same : ∀ index, index < feed.sequencer.sent.length ↔
        index < store.length - finalGap createMulticastGap store.length := by
      intro index
      rw [accounted.lt_sent_iff polling empty, announces.reached_iff numbered small all,
        lt_sub_finalGap_iff]
    rw [inv.sent, eq_of_forall_lt_iff same]
  · cases polling.symm.trans stopped

def wholeFeed : List (Event (ITCHTradeMsg Unit)) :=
  [.multicast, .multicast, .multicast, .deliver (TradeDataSequencer.numbered 2), .dequeue,
    .sendRequest, .readRequest, .serve, .receive, .serve, .receive, .forward,
    .deliver (TradeDataSequencer.numbered 0), .deliver (TradeDataSequencer.numbered 1),
    .dequeue, .dequeue]

theorem sent_eq_of_announced_whole :
    ∃ (past : List (Feed (ITCHTradeMsg Unit) × Event (ITCHTradeMsg Unit)))
      (feed : Feed (ITCHTradeMsg Unit)), past.map Prod.snd = wholeFeed.reverse ∧
      feed.channel = announced ([0, 1, 2].map TradeDataSequencer.numbered) true 3 ∧
      feed.sequencer.sent =
        ([0, 1, 2].map TradeDataSequencer.numbered).take (3 - finalGap true 3) := by
  rcases TransitionSystem.exists_run_of_events initial
    (step ([0, 1, 2].map TradeDataSequencer.numbered) true) wholeFeed
    (fun feed => (feed.multicastIndex = 3 ∧
      feed.channel = [0, 1, 2].map TradeDataSequencer.numbered) ∧
      (feed.requests = [] ∧ feed.server = .idle ∧ feed.replies = []) ∧
      feed.sequencer.phase = .polling ∧ feed.recvQueue = []) (by decide)
    with ⟨past, feed, run, events, ⟨index, channel⟩, quiet, polling, empty⟩
  have inv := (accounted_of_run numbered_three (by decide) run).1
  refine ⟨past, feed, events, sent_eq_of_announced _ true (by decide) numbered_three run ?_ ?_
    (inv.rests_iff.mpr ⟨quiet, .inl ⟨polling, empty⟩⟩) polling⟩
  · rw [index]
    decide
  · rw [channel]
    unfold Delivered
    rw [events]
    decide

end Announces

end Feed

end FeederNet.TradeFeed
