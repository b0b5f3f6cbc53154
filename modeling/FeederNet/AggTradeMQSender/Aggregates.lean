import FeederNet.AggTradeMQSender.Stopping
import Mathlib.Algebra.BigOperators.Group.List.Basic
import Mathlib.Algebra.Order.Ring.Rat
import Mathlib.Data.List.Nodup

/-! # Aggregates

What `run` publishes for messages whose timestamps do not decrease, when `stop` has not
been called and one more `SendMQ` follows. Sums and quotients are those of the rational
numbers.
-/

namespace FeederNet.AggTradeMQSender

variable {Double : Type u}

def Trade.label (msg : Trade Double) : List UInt8 × Word64 :=
  (msg.symbol, msg.msgTime)

def Record.label (record : Record Double) : List UInt8 × Word64 :=
  (record.symbol, record.time)

def share (messages : List (Trade Double)) (label : List UInt8 × Word64) :
    List (Trade Double) :=
  messages.filter fun msg => msg.label = label

@[reducible] def rational (fixed : ℚ → List UInt8) : Arithmetic ℚ where
  fixed := fixed

def vwapOf (messages : List (Trade ℚ)) : ℚ :=
  (messages.map fun msg => msg.contents.price * msg.contents.quantity).sum /
    (messages.map fun msg => msg.contents.quantity).sum

/-- There is one record for each symbol and millisecond of the messages, it averages the
messages of that label, and the records come in the order of their milliseconds. -/
structure Aggregated (messages : List (Trade ℚ)) (published : List (Record ℚ)) : Prop where
  once : ∀ label, share messages label ≠ [] →
    ∃ record, (published.filter fun record => record.label = label) = [record]
  only : ∀ record ∈ published, share messages record.label ≠ []
  vwap : ∀ record ∈ published, record.vwap = vwapOf (share messages record.label)
  ordered : published.Pairwise fun earlier later => earlier.time ≤ later.time

theorem filter_flatMap_of_distinct {Element Item Key : Type*} [DecidableEq Key]
    {keyOf : Element → Key} {items : Element → List Item} {key : Item → Key}
    {elements : List Element} (distinct : (elements.map keyOf).Nodup)
    (keys : ∀ element ∈ elements, ∀ item ∈ items element, key item = keyOf element)
    {element : Element} (member : element ∈ elements) :
    ((elements.flatMap items).filter fun item => key item = keyOf element) =
      items element := by
  induction elements with
  | nil => cases member
  | cons first rest induction =>
      rw [List.map_cons, List.nodup_cons] at distinct
      rw [List.forall_mem_cons] at keys
      rw [List.flatMap_cons, List.filter_append]
      rcases List.mem_cons.mp member with rfl | later
      · have all : ((items element).filter fun item => key item = keyOf element) =
            items element :=
          List.filter_eq_self.mpr fun item inside => decide_eq_true (keys.1 item inside)
        have none : ((rest.flatMap items).filter fun item => key item = keyOf element) =
            [] := by
          refine List.filter_eq_nil_iff.mpr fun item inside => ?_
          rcases List.mem_flatMap.mp inside with ⟨other, inRest, holds⟩
          rw [decide_eq_true_iff, keys.2 other inRest item holds]
          intro same
          exact distinct.1 (same ▸ List.mem_map_of_mem inRest)
        rw [all, none, List.append_nil]
      · have none : ((items first).filter fun item => key item = keyOf element) = [] := by
          refine List.filter_eq_nil_iff.mpr fun item inside => ?_
          rw [decide_eq_true_iff, keys.1 item inside]
          intro same
          exact distinct.1 (same ▸ List.mem_map_of_mem later)
        rw [none, List.nil_append]
        exact induction distinct.2 keys.2 later

/-! ## One millisecond at a time -/

def Ordered (messages : List (Trade Double)) : Prop :=
  messages.Pairwise fun earlier later =>
    earlier.contents.timestamp ≤ later.contents.timestamp

instance (messages : List (Trade Double)) : Decidable (Ordered messages) :=
  inferInstanceAs (Decidable (List.Pairwise _ _))

theorem msgTime_le {earlier later : Trade Double}
    (ordered : earlier.contents.timestamp ≤ later.contents.timestamp) :
    earlier.msgTime ≤ later.msgTime := by
  rw [Trade.msgTime, Trade.msgTime, BitVec.le_def, BitVec.toNat_udiv, BitVec.toNat_udiv]
  exact Nat.div_le_div_right ordered

namespace State

/-- The records published so far belong to milliseconds before this one. -/
def horizon (state : State Double) : Word64 :=
  match state.run with
  | .setting msg => msg.msgTime
  | _ => state.currentTime

/-- The map is empty only until the first message, or from `SendMQ` until the message that
made `run` call it is added. -/
def Filled (state : State Double) : Prop :=
  match state.run with
  | .sending msg => msg.msgTime ≠ state.currentTime ∧
      (state.aggMap = [] → state.published = [])
  | .setting _ | .aggregating _ => True
  | _ => state.aggMap = [] → state.published = []

end State

section Code

variable [Arithmetic Double] {state next : State Double} {order : List Nat}

/-- No label is used twice, and the milliseconds of the records increase. -/
structure Labelled (state : State Double) : Prop where
  distinct : (state.published.map Record.label).Nodup
  symbols : (state.aggMap.map Entry.symbol).Nodup
  ordered : state.published.Pairwise fun earlier later => earlier.time ≤ later.time
  below : ∀ record ∈ state.published, record.time < state.horizon
  filled : state.Filled
  last : ∀ msg ∈ state.run.held, ∃ earlier, state.dequeued = earlier ++ [msg]

omit [Arithmetic Double] in
theorem labelled_initial (currentTime : Word64) :
    Labelled (.initial currentTime : State Double) where
  distinct := List.nodup_nil
  symbols := List.nodup_nil
  ordered := List.Pairwise.nil
  below := List.forall_mem_nil _
  filled _ := rfl
  last := List.forall_mem_nil _

theorem mem_symbols_aggregateTrade (msg : Trade Double) (aggMap : List (Entry Double))
    {symbol : List UInt8}
    (member : symbol ∈ (aggregateTrade msg aggMap).map Entry.symbol) :
    symbol = msg.symbol ∨ symbol ∈ aggMap.map Entry.symbol := by
  induction aggMap with
  | nil => exact .inl (List.mem_singleton.mp member)
  | cons entry rest induction =>
      rw [aggregateTrade] at member
      split at member
      · exact .inr member
      · rw [List.map_cons, List.mem_cons] at member ⊢
        rcases member with same | later
        · exact .inr (.inl same)
        · exact (induction later).imp_right .inr

theorem nodup_symbols_aggregateTrade (msg : Trade Double) {aggMap : List (Entry Double)}
    (symbols : (aggMap.map Entry.symbol).Nodup) :
    ((aggregateTrade msg aggMap).map Entry.symbol).Nodup := by
  induction aggMap with
  | nil => exact List.nodup_cons.mpr ⟨List.not_mem_nil, List.nodup_nil⟩
  | cons entry rest induction =>
      rw [aggregateTrade]
      split
      · exact symbols
      · rename_i other
        rw [List.map_cons, List.nodup_cons] at symbols ⊢
        refine ⟨fun member => ?_, induction symbols.2⟩
        rcases mem_symbols_aggregateTrade msg rest member with same | inRest
        · exact other same
        · exact symbols.1 inRest

theorem records_labelled (visits : order.Perm (List.range state.aggMap.length))
    (symbols : (state.aggMap.map Entry.symbol).Nodup) :
    ((state.records order).map Record.label).Nodup ∧
      ∀ record ∈ state.records order, record.time = state.currentTime := by
  have perm := records_perm visits
  constructor
  · have labels : (state.aggMap.map (Entry.record state.currentTime)).map Record.label =
        (state.aggMap.map Entry.symbol).map fun symbol => (symbol, state.currentTime) := by
      rw [List.map_map, List.map_map]
      rfl
    rw [(perm.map Record.label).nodup_iff, labels]
    exact symbols.map fun _ _ same => congrArg Prod.fst same
  · intro record member
    rcases List.mem_map.mp (perm.mem_iff.mp member) with ⟨entry, _, rfl⟩
    rfl

theorem Labelled.sendMQ (labelled : Labelled state)
    (here : state.horizon = state.currentTime)
    (sends : state.sendMQ order = some next) :
    (next.published.map Record.label).Nodup ∧
      (next.published.Pairwise fun earlier later => earlier.time ≤ later.time) ∧
      ∀ record ∈ next.published,
        record ∈ state.published ∨ (state.aggMap ≠ [] ∧ record.time = state.currentTime) := by
  rcases sendMQ_eq_some_iff.mp sends with ⟨visits, rfl⟩
  have below := labelled.below
  rw [here] at below
  rcases records_labelled visits labelled.symbols with ⟨labels, times⟩
  have timesSent : ∀ record ∈ (state.records order).filter fun record => record.Fits,
      record.time = state.currentTime :=
    fun record member => times record (List.mem_filter.mp member).1
  refine ⟨?_, ?_, ?_⟩
  · rw [List.map_append, List.nodup_append]
    refine ⟨labelled.distinct, labels.sublist (List.filter_sublist.map _), ?_⟩
    intro label early other late same
    rcases List.mem_map.mp early with ⟨record, inside, rfl⟩
    rcases List.mem_map.mp late with ⟨sent, inSent, rfl⟩
    have earlier := below record inside
    rw [show record.time = sent.time from congrArg Prod.snd same,
      timesSent sent inSent] at earlier
    exact absurd earlier (BitVec.lt_irrefl _)
  · rw [List.pairwise_append]
    refine ⟨labelled.ordered, ?_, ?_⟩
    · refine List.pairwise_of_forall_mem_list fun first inFirst second inSecond => ?_
      rw [timesSent first inFirst, timesSent second inSecond]
      exact BitVec.le_refl _
    · intro record inside sent inSent
      rw [timesSent sent inSent]
      exact BitVec.le_of_lt (below record inside)
  · intro record member
    rcases List.mem_append.mp member with early | late
    · exact .inl early
    · refine .inr ⟨?_, timesSent record late⟩
      rintro empty
      have nothing : state.records order = [] := by
        have perm := records_perm visits
        rw [empty] at perm
        exact perm.eq_nil
      rw [nothing] at late
      cases late

omit [Arithmetic Double] in
theorem Labelled.moveRun (labelled : Labelled state) (run : RunPhase Double)
    (dequeued returned : List (Trade Double))
    (horizon : State.horizon { state with run := run } = state.horizon)
    (filled : State.Filled { state with run := run })
    (last : ∀ msg ∈ run.held, ∃ earlier, dequeued = earlier ++ [msg]) :
    Labelled { state with run := run, dequeued := dequeued, returned := returned } where
  distinct := labelled.distinct
  symbols := labelled.symbols
  ordered := labelled.ordered
  below := by
    intro record member
    have below := labelled.below record member
    rw [← horizon] at below
    exact below
  filled := filled
  last := last

theorem Labelled.currentTime_le (labelled : Labelled state) (inv : Inv state)
    (ordered : Ordered state.dequeued) {msg : Trade Double} (held : state.run.held = [msg])
    (nonempty : state.aggMap ≠ []) : state.currentTime ≤ msg.msgTime := by
  rcases List.exists_mem_of_ne_nil _ nonempty with ⟨entry, inMap⟩
  have correct := inv.entries entry inMap
  rcases List.exists_mem_of_ne_nil _ correct.trades with ⟨trade, inEntry⟩
  have inPlaces : trade ∈ state.places := by
    simp only [State.places, List.mem_append, List.mem_flatMap]
    exact .inl (.inr ⟨entry, inMap, inEntry⟩)
  rw [← (correct.labels trade inEntry).2]
  rcases labelled.last msg (by rw [held]; exact List.mem_cons_self) with ⟨earlier, dequeued⟩
  have inDequeued := inv.conserved.mem_iff.mp inPlaces
  rw [dequeued] at ordered inDequeued
  rcases List.mem_append.mp inDequeued with early | same
  · exact msgTime_le ((List.pairwise_append.mp ordered).2.2 trade early msg
      List.mem_cons_self)
  · rw [List.mem_singleton.mp same]
    exact BitVec.le_refl _

theorem Labelled.step (labelled : Labelled state) (inv : Inv state)
    {destroyMessages : Bool} {event : Event Double}
    (stepped : Stepped destroyMessages state event next) (alone : next.stop = .waiting)
    (ordered : Ordered next.dequeued) : Labelled next := by
  have filled := labelled.filled
  have last := labelled.last
  cases stepped with
  | test phase =>
      rw [State.Filled, phase] at filled
      split
      · exact labelled.moveRun .dequeuing _ _ (by simp only [State.horizon, phase]) filled
          (List.forall_mem_nil _)
      · exact labelled.moveRun .returned _ _ (by simp only [State.horizon, phase]) filled
          (List.forall_mem_nil _)
  | nothing phase =>
      rw [State.Filled, phase] at filled
      exact labelled.moveRun .testing _ _ (by simp only [State.horizon, phase]) filled
        (List.forall_mem_nil _)
  | dequeue msg phase =>
      rw [State.Filled, phase] at filled
      exact labelled.moveRun (.comparing msg) _ _ (by simp only [State.horizon, phase]) filled
        (List.forall_mem_singleton.mpr ⟨_, rfl⟩)
  | compare msg phase =>
      rw [State.Filled, phase] at filled
      rw [phase] at last
      split
      · rename_i different
        exact labelled.moveRun (.sending msg) _ _ (by simp only [State.horizon, phase])
          ⟨different, filled⟩ last
      · exact labelled.moveRun (.aggregating msg) _ _ (by simp only [State.horizon, phase])
          trivial last
  | sendMQ order msg sent phase sends =>
      have here : state.horizon = state.currentTime := by simp only [State.horizon, phase]
      have published := labelled.sendMQ here sends
      rw [State.Filled, phase] at filled
      have below := labelled.below
      rw [here] at below
      rw [phase] at last
      rcases sendMQ_eq_some_iff.mp sends with ⟨_, rfl⟩
      have before : state.aggMap ≠ [] → state.currentTime < msg.msgTime := by
        intro nonempty
        have atMost := labelled.currentTime_le inv ordered (by rw [phase]; rfl) nonempty
        exact BitVec.lt_of_le_ne atMost filled.1.symm
      refine ⟨published.1, List.nodup_nil, published.2.1, ?_, trivial, last⟩
      intro record member
      change record.time < msg.msgTime
      rcases published.2.2 record member with early | ⟨nonempty, time⟩
      · by_cases nonempty : state.aggMap = []
        · rw [filled.2 nonempty] at early
          cases early
        · exact BitVec.lt_trans (below record early) (before nonempty)
      · rw [time]
        exact before nonempty
  | setTime msg phase =>
      have below := labelled.below
      simp only [State.horizon, phase] at below
      rw [phase] at last
      exact ⟨labelled.distinct, labelled.symbols, labelled.ordered, below, trivial, last⟩
  | aggregateTrade msg phase =>
      have below := labelled.below
      simp only [State.horizon, phase] at below
      have symbols := nodup_symbols_aggregateTrade msg labelled.symbols
      have nonempty := aggregateTrade_ne_nil msg state.aggMap
      split
      · exact ⟨labelled.distinct, symbols, labelled.ordered, below,
          fun empty => absurd empty nonempty, List.forall_mem_nil _⟩
      · exact ⟨labelled.distinct, symbols, labelled.ordered, below,
          fun empty => absurd empty nonempty, List.forall_mem_nil _⟩
  | deallocate msg phase =>
      rw [State.Filled, phase] at filled
      exact labelled.moveRun .testing _ _ (by simp only [State.horizon, phase]) filled
        (List.forall_mem_nil _)
  | stop phase => cases alone
  | checkSize phase =>
      simp only at alone
      split at alone
      · cases alone
      · cases alone
  | stopSendMQ order sent phase sends => cases alone

/-! ## Buffers -/

def RunPhase.pending : RunPhase Double → List (Trade Double)
  | .comparing msg | .sending msg | .setting msg | .aggregating msg
  | .deallocating msg => [msg]
  | .testing | .dequeuing | .returned => []

theorem returned_step {event : Event Double}
    (returned : state.dequeued = state.returned ++ state.run.pending)
    (stepped : Stepped true state event next) :
    next.dequeued = next.returned ++ next.run.pending := by
  cases stepped with
  | test phase =>
      rw [phase] at returned
      split
      · exact returned
      · exact returned
  | compare msg phase =>
      rw [phase] at returned
      split
      · exact returned
      · exact returned
  | dequeue msg phase =>
      rw [phase, RunPhase.pending, List.append_nil] at returned
      exact congrArg (· ++ [msg]) returned
  | deallocate msg phase =>
      rw [phase] at returned
      exact returned.trans (List.append_nil _).symm
  | sendMQ order msg sent phase sends =>
      rcases sendMQ_eq_some_iff.mp sends with ⟨_, rfl⟩
      rw [phase] at returned
      exact returned
  | stopSendMQ order sent phase sends =>
      rcases sendMQ_eq_some_iff.mp sends with ⟨_, rfl⟩
      exact returned
  | stop phase => exact returned
  | checkSize phase => exact returned
  | nothing phase | setTime msg phase | aggregateTrade msg phase =>
      rw [phase] at returned
      exact returned

/-- What holds of `run` as long as `stop` has not been called and the messages come in
order. -/
structure Alone (state : State Double) : Prop extends Inv state where
  returned : state.dequeued = state.returned ++ state.run.pending
  labelled : state.stop = .waiting → Ordered state.dequeued → Labelled state

omit [Arithmetic Double] in
theorem ordered_of_append {front back : List (Trade Double)}
    (ordered : Ordered (front ++ back)) : Ordered front :=
  (List.pairwise_append.mp ordered).1

/-- Neither a call of `stop` nor a message is taken back. -/
theorem before_step {destroyMessages : Bool} {event : Event Double}
    (stepped : Stepped destroyMessages state event next) (alone : next.stop = .waiting)
    (ordered : Ordered next.dequeued) :
    state.stop = .waiting ∧ Ordered state.dequeued := by
  cases stepped with
  | dequeue msg phase => exact ⟨alone, ordered_of_append ordered⟩
  | sendMQ order msg sent phase sends =>
      rcases sendMQ_eq_some_iff.mp sends with ⟨_, rfl⟩
      exact ⟨alone, ordered⟩
  | stopSendMQ order sent phase sends => cases alone
  | stop phase => cases alone
  | checkSize phase =>
      simp only at alone
      split at alone
      · cases alone
      · cases alone
  | test | nothing | compare | setTime | aggregateTrade | deallocate =>
      exact ⟨alone, ordered⟩

theorem alone_of_run {currentTime : Word64} {past : List (State Double × Event Double)}
    {final : State Double} (run : (system true currentTime).Run past final) :
    Alone final := by
  have reachable : (system true currentTime).Reachable final := ⟨past, run⟩
  apply reachable.invariant Alone
  · rintro state rfl
    exact ⟨inv_initial currentTime, rfl, fun _ _ => labelled_initial currentTime⟩
  · intro current event next alone stepped
    have stepped := stepped_of_step stepped
    refine ⟨alone.toInv.step stepped, returned_step alone.returned stepped, ?_⟩
    intro waiting ordered
    rcases before_step stepped waiting ordered with ⟨earlier, before⟩
    exact (alone.labelled earlier before).step alone.toInv stepped waiting ordered

end Code

/-! ## Averages -/

theorem foldl_add (fixed : ℚ → List UInt8) (trades : List (Trade ℚ)) (entry : Entry ℚ) :
    (trades.foldl (@Entry.add ℚ (rational fixed)) entry).first = entry.first +
        (trades.map fun msg => msg.contents.price * msg.contents.quantity).sum ∧
      (trades.foldl (@Entry.add ℚ (rational fixed)) entry).second = entry.second +
        (trades.map fun msg => msg.contents.quantity).sum := by
  induction trades generalizing entry with
  | nil => exact ⟨(add_zero _).symm, (add_zero _).symm⟩
  | cons msg trades induction =>
      rcases induction (@Entry.add ℚ (rational fixed) entry msg) with ⟨first, second⟩
      rw [List.foldl_cons, List.map_cons, List.map_cons, List.sum_cons, List.sum_cons, first,
        second, ← add_assoc, ← add_assoc]
      exact ⟨rfl, rfl⟩

theorem vwapOf_perm {left right : List (Trade ℚ)} (same : left.Perm right) :
    vwapOf left = vwapOf right := by
  rw [vwapOf, (same.map _).sum_eq, (same.map fun msg => msg.contents.quantity).sum_eq]
  rfl

theorem vwap_of_correct {fixed : ℚ → List UInt8} {record : Record ℚ}
    (correct : @Record.Correct ℚ (rational fixed) record) :
    record.vwap = vwapOf record.trades := by
  let := rational fixed
  have sums := congrArg Record.vwap correct.sums
  rcases foldl_add fixed record.trades (Entry.empty record.symbol) with ⟨first, second⟩
  have start : (Entry.empty record.symbol : Entry ℚ).first = 0 ∧
      (Entry.empty record.symbol : Entry ℚ).second = 0 := ⟨rfl, rfl⟩
  rw [start.1, zero_add] at first
  rw [start.2, zero_add] at second
  rw [vwapOf, ← first, ← second]
  exact sums

theorem aggregated_of_contributed {fixed : ℚ → List UInt8} {messages : List (Trade ℚ)}
    {published : List (Record ℚ)}
    (contributed : (published.flatMap Record.trades).Perm messages)
    (correct : ∀ record ∈ published, @Record.Correct ℚ (rational fixed) record)
    (distinct : (published.map Record.label).Nodup)
    (ordered : published.Pairwise fun earlier later => earlier.time ≤ later.time) :
    Aggregated messages published := by
  let := rational fixed
  have labels : ∀ record ∈ published, ∀ msg ∈ record.trades, msg.label = record.label := by
    intro record member msg inside
    rcases (correct record member).labels msg inside with ⟨symbol, time⟩
    exact Prod.ext symbol time
  have shares : ∀ record ∈ published,
      (share messages record.label).Perm record.trades := by
    intro record member
    have own := filter_flatMap_of_distinct distinct labels member
    rw [← own]
    exact (contributed.filter _).symm
  refine ⟨?_, ?_, ?_, ordered⟩
  · intro label nonempty
    rcases List.exists_mem_of_ne_nil _ nonempty with ⟨msg, inShare⟩
    rcases List.mem_filter.mp inShare with ⟨inMessages, named⟩
    rcases List.mem_flatMap.mp (contributed.mem_iff.mpr inMessages) with
      ⟨record, member, inside⟩
    have same : record.label = label :=
      (labels record member msg inside).symm.trans (of_decide_eq_true named)
    have one : ((published.flatMap fun other => [other]).filter fun other =>
        other.label = record.label) = [record] :=
      filter_flatMap_of_distinct distinct (fun _ _ => List.forall_mem_singleton.mpr rfl)
        member
    rw [List.flatMap_singleton', same] at one
    exact ⟨record, one⟩
  · intro record member empty
    have perm := shares record member
    rw [empty] at perm
    exact (correct record member).trades perm.nil_eq.symm
  · intro record member
    rw [vwap_of_correct (correct record member)]
    exact vwapOf_perm (shares record member).symm

/-- For messages in the order of their timestamps, `run` and a final `SendMQ` publish one
record for each symbol and millisecond, with the average over exactly its messages, and
every buffer goes back to the pool once. -/
theorem aggregated_of_run (fixed : ℚ → List UInt8) (currentTime : Word64)
    {past : List (State ℚ × Event ℚ)} {final sent : State ℚ} {order : List Nat}
    (run : (@system ℚ (rational fixed) true currentTime).Run past final)
    (processed : final.run = .testing) (alone : final.stop = .waiting)
    (ordered : Ordered final.dequeued)
    (sends : @State.sendMQ ℚ (rational fixed) order final = some sent)
    (fit : sent.dropped = []) :
    Aggregated final.dequeued sent.published ∧ sent.returned = final.dequeued := by
  let := rational fixed
  have inv := alone_of_run run
  have labelled := inv.labelled alone ordered
  have here : final.horizon = final.currentTime := by
    simp only [State.horizon, processed]
  have published := labelled.sendMQ here sends
  have hand : final.run.held = [] := by rw [processed]; rfl
  have conserved := inv.conserved
  rw [State.places, hand, List.append_nil] at conserved
  have contributed := (sendMQ_trades sends).trans conserved
  rw [fit, List.flatMap_nil, List.append_nil] at contributed
  have correct := sendMQ_records sends inv.entries inv.records
  have returned := inv.returned
  rw [processed, RunPhase.pending, List.append_nil] at returned
  rcases sendMQ_eq_some_iff.mp sends with ⟨_, rfl⟩
  refine ⟨?_, returned.symm⟩
  exact aggregated_of_contributed contributed
    (fun record member => correct record (List.mem_append_left _ member)) published.1
    published.2.1

def rationalTrade (buffer : Nat) (letter : UInt8) (timestamp : Word64) (price quantity : ℚ) :
    Trade ℚ where
  buffer := buffer
  contents := {
    messageType := 80
    sequenceNumber := 0
    tradeId := 7
    timestamp := timestamp
    price := price
    quantity := quantity
    buyerIsMaker := true
    bestMatch := true
    symbol := Vector.replicate 8 letter }

def twoMilliseconds : List (Event ℚ) :=
  [Event.test, .dequeue (some (rationalTrade 0 65 1500 2 3)), .compare, .sendMQ [], .setTime,
    .aggregateTrade, .deallocate,
    .test, .dequeue (some (rationalTrade 1 66 1700 5 1)), .compare, .aggregateTrade,
    .deallocate,
    .test, .dequeue (some (rationalTrade 0 65 2000 1 4)), .compare, .sendMQ [1, 0], .setTime,
    .aggregateTrade, .deallocate]

theorem aggregated_of_run_twoMilliseconds :
    ∃ past, ∃ final sent : State ℚ,
      (@system ℚ (rational fun _ => [48]) true 9).Run past final ∧
      sent.published.length = 3 ∧
      Aggregated final.dequeued sent.published ∧ sent.returned = final.dequeued := by
  let := rational fun _ => [48]
  rcases TransitionSystem.exists_run_of_events (State.initial 9 : State ℚ) (step true)
    twoMilliseconds
    (fun final => final.run = .testing ∧ final.stop = .waiting ∧ Ordered final.dequeued ∧
      (final.sendMQ [0]).any (fun sent => decide (sent.dropped = [] ∧
        sent.published.length = 3)) = true)
    (by decide +kernel) with ⟨past, final, run, _, processed, alone, ordered, sends⟩
  cases final_sends : final.sendMQ [0] with
  | none =>
      rw [final_sends] at sends
      cases sends
  | some sent =>
      rw [final_sends] at sends
      rcases of_decide_eq_true sends with ⟨fit, three⟩
      exact ⟨past, final, sent, run, three,
        aggregated_of_run (fun _ => [48]) 9 run processed alone ordered final_sends fit⟩

end FeederNet.AggTradeMQSender
