import FeederNet.DBManager.Failures
import FeederNet.TradeFeed.CatchUp
import FeederNet.TradeFeed.StoreOrder

/-! # From the trade files to the table

The feed of a store, and `DBManager` at the other end of `sendQueue_`. The queue is a FIFO
that never runs out of room.
-/

namespace FeederNet

open TradeFeed (Feed)

structure MarketData (Double : Type) where
  feed : Feed (ITCHTradeMsg Double)
  db : DBManager.State Double

namespace MarketData

variable {Double : Type}

inductive Event (Double : Type)
  | feed (event : Feed.Event (ITCHTradeMsg Double))
  | db (event : DBManager.Event Double)
  deriving DecidableEq, Repr

def initial : MarketData Double where
  feed := .initial
  db := .initial

def queue (state : MarketData Double) : List (ITCHTradeMsg Double) :=
  state.feed.sequencer.sent.drop state.db.dequeued.length

def table (state : MarketData Double) : List (ITCHTradeMsg Double) :=
  state.db.transactions.flatten.map DBManager.Message.contents

/-- A dequeue gets the first message of the queue, or `nullptr` from an empty one. -/
def Offers (queue : List (ITCHTradeMsg Double)) : DBManager.Event Double → Prop
  | .poll (.dequeue found) => found.map DBManager.Message.contents = queue.head?
  | .poll .stop | .proceed | .throw => True

instance [DecidableEq Double] (queue : List (ITCHTradeMsg Double))
    (event : DBManager.Event Double) : Decidable (Offers queue event) := by
  unfold Offers
  split <;> infer_instance

section Code

variable [DecidableEq Double]

def step (store : List (ITCHTradeMsg Double)) (createMulticastGap : Bool)
    (loop : DBManager.Loop Double) (destroyMessages : Bool) (state : MarketData Double) :
    Event Double → Option (MarketData Double)
  | .feed event =>
      (Feed.step store createMulticastGap state.feed event).map fun feed =>
        { state with feed := feed }
  | .db event =>
      if Offers state.queue event then
        (DBManager.step loop destroyMessages state.db event).map fun db =>
          { state with db := db }
      else none

@[reducible] def system (store : List (ITCHTradeMsg Double)) (createMulticastGap : Bool)
    (loop : DBManager.Loop Double) (destroyMessages : Bool) :
    TransitionSystem (MarketData Double) (Event Double) :=
  .ofStep initial (step store createMulticastGap loop destroyMessages)

inductive Step (store : List (ITCHTradeMsg Double)) (createMulticastGap : Bool)
    (loop : DBManager.Loop Double) (destroyMessages : Bool) :
    MarketData Double → Event Double → MarketData Double → Prop
  | feed {state event feed} : Feed.Step store createMulticastGap state.feed event feed →
      Step store createMulticastGap loop destroyMessages state (.feed event)
        { state with feed := feed }
  | db {state event db} : Offers state.queue event →
      DBManager.Step loop destroyMessages state.db event db →
      Step store createMulticastGap loop destroyMessages state (.db event)
        { state with db := db }

theorem Step.of_step {store : List (ITCHTradeMsg Double)} {createMulticastGap : Bool}
    {loop : DBManager.Loop Double} {destroyMessages : Bool}
    {state next : MarketData Double} {event : Event Double}
    (stepped : step store createMulticastGap loop destroyMessages state event = some next) :
    Step store createMulticastGap loop destroyMessages state event next := by
  cases event with
  | feed event =>
      rcases Option.map_eq_some_iff.mp stepped with ⟨feed, moved, rfl⟩
      exact .feed (.of_step moved)
  | db event =>
      simp only [step, Option.ite_none_right_eq_some] at stepped
      rcases stepped with ⟨offers, mapped⟩
      rcases Option.map_eq_some_iff.mp mapped with ⟨db, moved, rfl⟩
      exact .db offers (.of_step moved)

end Code

end MarketData

/-! ## What the components do to the messages -/

namespace TradeFeed

theorem TradeDataSequencer.Step.sent_grows {TradeMsg : Type u} [SequencedMsg TradeMsg]
    {state next : TradeDataSequencer.State TradeMsg}
    {event : TradeDataSequencer.Event TradeMsg}
    (step : TradeDataSequencer.Step state event next) : state.sent <+: next.sent := by
  have enqueued : ∀ msg accepted, state.sent <+: (state.enqueue msg accepted).sent := by
    intro msg accepted
    cases accepted with
    | true => exact List.prefix_append _ _
    | false => exact List.prefix_rfl
  cases step with
  | stop | dequeueNothing | requestFailed | timeout | epollFailed | mismatch
  | receiveShort | receiveClosed | deallocateFailed => exact List.prefix_rfl
  | dequeue msg phase =>
      unfold TradeDataSequencer.State.dispatch
      split
      · exact List.prefix_rfl
      · split <;> exact List.prefix_rfl
  | sendRequest phase =>
      simp [TradeDataSequencer.State.startRecovery, TradeDataSequencer.receiveLoop_sent]
  | receive recovered accepted phase expected =>
      rw [TradeDataSequencer.receiveLoop_sent]
      exact enqueued recovered accepted
  | forward accepted phase => exact enqueued _ accepted

theorem Feed.Step.sent_grows {TradeMsg : Type u} [DecidableEq TradeMsg]
    [SequencedMsg TradeMsg] {store : List TradeMsg} {createMulticastGap : Bool}
    {feed next : Feed TradeMsg} {event : Feed.Event TradeMsg}
    (step : Feed.Step store createMulticastGap feed event next) :
    feed.sequencer.sent <+: next.sequencer.sent := by
  cases step with
  | multicast | deliver | readRequest | serve => exact List.prefix_rfl
  | dequeue _ advanced | sendRequest _ advanced | receive _ advanced => exact advanced.sent_grows
  | dequeueNothing advanced | timeout advanced | forward advanced | stop advanced =>
      exact advanced.sent_grows

end TradeFeed

namespace DBManager

variable {Double : Type u}

/-- The committed messages and those still held come from the queue, in its order. What a
failed transaction has taken is missing. -/
def Selected (state : State Double) : Prop :=
  (state.transactions.flatten ++ state.kept).Sublist state.dequeued

theorem Selected.step {limit : Nat} {loop : Loop Double} {destroyMessages : Bool}
    {state next : State Double} {event : Event Double} (fills : loop.Fills limit)
    (valid : Valid limit state) (selected : Selected state)
    (step : Step loop destroyMessages state event next) : Selected next := by
  have standing := valid.standing
  unfold Standing at standing
  have committed : state.transactions.flatten.Sublist state.dequeued :=
    (List.sublist_append_left _ _).trans selected
  cases step with
  | poll found polling =>
      rw [polling] at standing
      have polled := fills state found polling standing
      have before : state.kept = state.held := by rw [State.kept, polling]
      have after : (loop.poll state found).kept = (loop.poll state found).held := by
        unfold State.kept
        rcases polled.stands with ⟨phase, _⟩ | ⟨phase, _, empty⟩ | ⟨last, phase, _⟩
        · rw [phase]
        · rw [phase, empty]
        · rw [phase]
      rw [Selected, polled.transactions, polled.dequeued, after, polled.held,
        ← List.append_assoc, ← before]
      exact selected.append_right _
  | begin phase | write phase | complete phase =>
      rw [Selected, kept_of_inTransaction (by rw [phase]; rfl)] at selected
      exact selected
  | written target phase _ last =>
      rw [Selected, kept_of_inTransaction (by rw [phase]; rfl)] at selected
      rcases last with rfl | rfl <;> exact selected
  | commit phase =>
      rw [phase] at standing
      rw [Selected, kept_of_inTransaction (by rw [phase]; rfl), ← standing.2] at selected
      rw [Selected, kept_flushed, List.append_nil]
      cases destroyMessages with
      | true => simpa [State.flushed, State.goto] using selected
      | false => simpa [State.flushed, State.clear] using selected
  | deallocate phase _ =>
      rw [Selected, State.kept, List.append_nil]
      exact committed
  | deallocated phase _ =>
      rw [Selected, kept_clear, List.append_nil]
      exact committed
  | throw inside =>
      rw [Selected, State.abort, kept_flushed, List.append_nil]
      cases destroyMessages <;> exact committed

end DBManager

/-! ## The table -/

namespace MarketData

open DBManager (Mode)
open TradeFeed

variable {Double : Type}

structure Inv (store : List (ITCHTradeMsg Double)) (limit : Nat)
    (state : MarketData Double) : Prop where
  feed : state.feed.Inv store
  valid : DBManager.Valid limit state.db
  dequeued : state.db.dequeued.map DBManager.Message.contents <+: state.feed.sequencer.sent
  selected : DBManager.Selected state.db

section Invariance

variable {store : List (ITCHTradeMsg Double)} {createMulticastGap : Bool}
  {loop : DBManager.Loop Double} {destroyMessages : Bool} {limit : Nat}
  {state next : MarketData Double} {event : Event Double}

theorem inv_initial (store : List (ITCHTradeMsg Double)) (positive : 0 < limit) :
    Inv store limit initial where
  feed := Feed.inv_initial store
  valid := DBManager.valid_initial positive
  dequeued := List.nil_prefix
  selected := List.nil_sublist _

theorem Inv.dequeue (inv : Inv store limit state) (fills : loop.Fills limit)
    {event : DBManager.Event Double} {db : DBManager.State Double}
    (offers : Offers state.queue event)
    (step : DBManager.Step loop destroyMessages state.db event db) :
    db.dequeued.map DBManager.Message.contents <+: state.feed.sequencer.sent := by
  have standing := inv.valid.standing
  unfold DBManager.Standing at standing
  have same := inv.dequeued
  cases step with
  | poll found polling =>
      rw [polling] at standing
      rw [(fills state.db found polling standing).dequeued, List.map_append]
      cases found with
      | stop => simpa [DBManager.Poll.messages] using same
      | dequeue found =>
          cases found with
          | none => simpa [DBManager.Poll.messages] using same
          | some msg =>
              rcases same with ⟨waiting, same⟩
              have rest : state.queue = waiting := by
                rw [queue, ← same]
                exact List.drop_left' (List.length_map _)
              rw [Offers, rest] at offers
              rcases List.head?_eq_some_iff.mp offers.symm with ⟨later, split⟩
              refine ⟨later, ?_⟩
              rw [← same, split, List.append_assoc]
              rfl
  | begin | write | written | complete | deallocate => exact same
  | commit | throw => cases destroyMessages <;> exact same
  | deallocated => exact same

theorem Step.inv [DecidableEq Double] (numbered : Feed.Numbered store)
    (small : store.length < 2 ^ 31) (positive : 0 < limit) (fills : loop.Fills limit)
    (inv : Inv store limit state)
    (step : Step store createMulticastGap loop destroyMessages state event next) :
    Inv store limit next := by
  cases step with
  | feed moved =>
      exact ⟨moved.inv numbered small inv.feed, inv.valid,
        inv.dequeued.trans moved.sent_grows, inv.selected⟩
  | db offers moved =>
      exact ⟨inv.feed, inv.valid.step fills positive moved, inv.dequeue fills offers moved,
        inv.selected.step fills inv.valid moved⟩

/-- Without failures nothing is missing. -/
theorem Step.accounted [DecidableEq Double] (fills : loop.Fills limit)
    (inv : Inv store limit state)
    (accounted : DBManager.Accounted destroyMessages state.db)
    (step : Step store createMulticastGap loop destroyMessages state event next)
    (succeeds : event ≠ .db .throw) : DBManager.Accounted destroyMessages next.db := by
  cases step with
  | feed moved => exact accounted
  | db offers moved =>
      exact accounted.step fills inv.valid moved fun throws => succeeds (by rw [throws])

end Invariance

section Persists

variable [DecidableEq Double] {store : List (ITCHTradeMsg Double)}
  {createMulticastGap destroyMessages : Bool} {loop : DBManager.Loop Double} {limit : Nat}
  {past : List (MarketData Double × Event Double)} {state : MarketData Double}

theorem inv_of_run (numbered : Feed.Numbered store) (small : store.length < 2 ^ 31)
    (positive : 0 < limit) (fills : loop.Fills limit)
    (run : (system store createMulticastGap loop destroyMessages).Run past state) :
    Inv store limit state ∧ ((∀ entry ∈ past, entry.2 ≠ .db .throw) →
      DBManager.Accounted destroyMessages state.db) := by
  induction run with
  | start start =>
      cases start
      exact ⟨inv_initial store positive, fun _ => DBManager.accounted_initial⟩
  | step _ stepped induction =>
      rcases induction with ⟨inv, accounted⟩
      have step := Step.of_step stepped
      refine ⟨step.inv numbered small positive fills inv, ?_⟩
      intro succeeds
      rw [List.forall_mem_cons] at succeeds
      exact step.accounted fills inv (accounted succeeds.2) succeeds.1

end Persists

end MarketData

end FeederNet
