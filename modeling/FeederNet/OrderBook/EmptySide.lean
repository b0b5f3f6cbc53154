import FeederNet.OrderBook.LastUpdate
import FeederNet.OrderBook.OwnStorage

/-! # Empty sides

What `bestBid` and `bestAsk` read while no order of their side is live. A best index starts
outside the level arrays. The first order of its side brings it inside, and from there it
only moves within the arrays.
-/

namespace FeederNet.OrderBook

open HashMap

variable {Price : Type} {config : Config Price}

def bestIndex (book : OrderBook config) (isBuy : Bool) : Int :=
  if isBuy then book.bestBidIndex else book.bestAskIndex

/-- The best index that the constructor gives a side. -/
def unset (config : Config Price) (isBuy : Bool) : Int :=
  if isBuy then -1 else config.maxPriceLevels

def quote (book : OrderBook config) (isBuy : Bool) : Except Fault (Price × Int) :=
  if isBuy then book.bestBid else book.bestAsk

def Follows (config : Config Price) (before after : Int) : Prop :=
  after = before ∨ InRange config before ∧ InRange config after

def Settled (book : OrderBook config) : Prop :=
  ∀ isBuy, book.bestIndex isBuy = unset config isBuy ∨ InRange config (book.bestIndex isBuy)

/-! ## Best indices -/

section Indices

variable {book after : OrderBook config} {isBuy : Bool} {before later index : Int}

theorem not_inRange_unset (config : Config Price) (isBuy : Bool) :
    ¬ InRange config (unset config isBuy) := by
  intro inside
  cases isBuy with
  | true =>
      have nonnegative : (0 : Int) ≤ -1 := inside.1
      omega
  | false => exact lt_irrefl _ inside.2

theorem Follows.inRange_iff (follows : Follows config before later) :
    InRange config later ↔ InRange config before := by
  rcases follows with rfl | ⟨earlier, inside⟩
  · exact Iff.rfl
  · exact iff_of_true inside earlier

theorem Follows.settled (settled : book.Settled)
    (follows : ∀ isBuy, Follows config (book.bestIndex isBuy) (after.bestIndex isBuy)) :
    after.Settled := by
  intro isBuy
  rcases follows isBuy with same | ⟨_, inside⟩
  · rw [same]
    exact settled isBuy
  · exact .inr inside

theorem nextBest_follows {levels : Int → Int} {indices : List Int} {fallback best : Int}
    (inside : InRange config index) (last : InRange config fallback)
    (searched : ∀ other ∈ indices, InRange config other) :
    Follows config best (nextBest levels indices fallback index best) := by
  unfold nextBest
  split
  · rename_i emptied
    refine .inr ⟨emptied.1 ▸ inside, ?_⟩
    cases finds : firstPositive levels indices with
    | none => exact last
    | some found => exact searched found (List.mem_of_find?_eq_some finds)
  · exact .inl rfl

theorem moveLevel_follows (book : OrderBook config) (isBuy side : Bool) {delta : Int}
    (inside : InRange config index) :
    Follows config (book.bestIndex side) ((book.moveLevel isBuy index delta).bestIndex side) := by
  have nonnegative := inside.1
  have below := inside.2
  cases isBuy with
  | true =>
      cases side with
      | false => exact .inl rfl
      | true =>
          refine nextBest_follows inside ⟨le_rfl, lt_of_le_of_lt nonnegative below⟩ ?_
          intro other member
          have searched := mem_downFrom.mp member
          exact ⟨searched.1, by omega⟩
  | false =>
      cases side with
      | true => exact .inl rfl
      | false =>
          refine nextBest_follows inside ⟨by omega, by omega⟩ ?_
          intro other member
          have searched := (mem_upFrom (by omega)).mp member
          exact ⟨by omega, searched.2⟩

theorem updatePriceLevel_follows (book : OrderBook config) (isBuy side : Bool) (price : Price)
    (delta : Int) :
    Follows config (book.bestIndex side)
      ((book.updatePriceLevel isBuy price delta).2.bestIndex side) := by
  by_cases inside : InRange config (config.priceToIndex price)
  · rw [updatePriceLevel_eq book isBuy delta inside]
    exact moveLevel_follows book isBuy side inside
  · rw [OrderBook.updatePriceLevel, if_neg inside]
    exact .inl rfl

theorem bestIndex_findOrder (book : OrderBook config) (orderId : Word64) (side : Bool) :
    (book.findOrder orderId).2.bestIndex side = book.bestIndex side := by
  unfold OrderBook.findOrder
  split
  · rfl
  · rfl
  · split
    · rfl
    · split
      · rfl
      · rfl

theorem update_follows (book : OrderBook config) (orderId : Word64) (newQuantity : Int)
    (side : Bool) :
    Follows config (book.bestIndex side) ((book.update orderId newQuantity).2.bestIndex side) := by
  rw [← bestIndex_findOrder book orderId side]
  unfold OrderBook.update
  generalize book.findOrder orderId = found
  rcases found with ⟨fault | ord, book⟩
  · exact .inl rfl
  · have follows := updatePriceLevel_follows book (book.memory ord).isBuy side
      (book.memory ord).price (newQuantity - (book.memory ord).quantity)
    simp only
    generalize book.updatePriceLevel _ _ _ = moved at follows ⊢
    rcases moved with ⟨fault | _, after⟩
    · exact follows
    · exact follows

theorem cancel_follows (requireStorage : Bool) (book : OrderBook config) (orderId : Word64)
    (side : Bool) :
    Follows config (book.bestIndex side)
      ((book.cancel requireStorage orderId).2.bestIndex side) := by
  rw [← bestIndex_findOrder book orderId side]
  unfold OrderBook.cancel
  generalize book.findOrder orderId = found
  rcases found with ⟨fault | ord, book⟩
  · exact .inl rfl
  · have follows := updatePriceLevel_follows book (book.memory ord).isBuy side
      (book.memory ord).price (-(book.memory ord).quantity)
    simp only
    generalize book.updatePriceLevel _ _ _ = moved at follows ⊢
    rcases moved with ⟨fault | _, after⟩
    · exact follows
    · cases requireStorage with
      | true =>
          simp only [if_true]
          split
          · exact follows
          · exact follows
      | false =>
          simp only [Bool.false_eq_true, if_false]
          split
          · exact follows
          · exact follows

theorem inRange_raised {best : Int} (settled : best = -1 ∨ InRange config best)
    (inside : InRange config index) :
    InRange config (if index > best then index else best) := by
  split
  · exact inside
  · rename_i low
    rcases settled with rfl | within
    · have nonnegative := inside.1
      omega
    · exact within

theorem inRange_lowered {best : Int}
    (settled : best = config.maxPriceLevels ∨ InRange config best)
    (inside : InRange config index) :
    InRange config (if index < best then index else best) := by
  split
  · exact inside
  · rename_i high
    rcases settled with rfl | within
    · exact absurd inside.2 high
    · exact within

theorem insertStored_settles {order mem : Address} (settled : book.Settled)
    (inserts : book.insertStored order mem = (.ok (), after)) :
    InRange config (after.bestIndex (book.memory order).isBuy) ∧
      ∀ side, side ≠ (book.memory order).isBuy →
        after.bestIndex side = book.bestIndex side := by
  unfold OrderBook.insertStored at inserts
  cases assigned : book.orderMap.operatorIndex config.hash (book.memory order).orderId with
  | error fault =>
      rw [assigned] at inserts
      cases inserts
  | ok assignment =>
      by_cases inside : InRange config (config.priceToIndex (book.memory order).price)
      · simp only [assigned, if_pos inside] at inserts
        cases isBuy : (book.memory order).isBuy with
        | true =>
            simp only [isBuy, if_true] at inserts
            cases inserts
            constructor
            · exact inRange_raised (settled true) inside
            · intro side other
              cases side with
              | true => exact absurd rfl other
              | false => rfl
        | false =>
            simp only [isBuy, Bool.false_eq_true, if_false] at inserts
            cases inserts
            constructor
            · exact inRange_lowered (settled false) inside
            · intro side other
              cases side with
              | true => rfl
              | false => exact absurd rfl other
      · simp only [assigned, if_neg inside] at inserts
        cases inserts

end Indices

/-! ## Histories -/

namespace Market

def Enters (market : Market config) : Event Price → Prop
  | .insert _ order => ¬ market.session.IsLive order.orderId ∧
      InRange config (config.priceToIndex order.price)
  | _ => True

instance (market : Market config) : DecidablePred market.Enters
  | .insert _ _ => inferInstanceAs (Decidable (_ ∧ _))
  | .update _ _ => .isTrue trivial
  | .cancel _ => .isTrue trivial

/-- An order of the side comes in and finds room in the order map. -/
def Opens (isBuy : Bool) (market : Market config) : Event Price → Prop
  | .insert _ order => order.isBuy = isBuy ∧ market.book.orderMap.freeNodes ≠ []
  | _ => False

/-- The best price of the side is read inside its level array, and no quantity stands
there. -/
def ReadsEmpty (market : Market config) (isBuy : Bool) : Prop :=
  market.outside = false ∧ InRange config (market.book.bestIndex isBuy) ∧
    market.book.quote isBuy =
      .ok (config.indexToPrice (market.book.bestIndex isBuy), 0)

section Histories

variable {requireStorage : Bool} {market next : Market config} {event : Event Price}
  {isBuy : Bool}

theorem book_settle (market : Market config) (changed : List (LiveOrder Price))
    (result : Except Fault Unit × OrderBook config) :
    (market.settle changed result).book = result.2 := by
  rcases result with ⟨fault | _, book⟩
  · rfl
  · rfl

theorem total_eq_zero {live : List (LiveOrder Price)}
    (none : ∀ entry ∈ live, entry.order.isBuy ≠ isBuy) (index : Int) :
    total config isBuy live index = 0 := by
  rw [total, List.filter_eq_nil_iff.mpr]
  · rfl
  · intro entry member
    rw [decide_eq_true_iff]
    exact fun stands => none entry member stands.1

theorem readsEmpty_iff_inRange (totals : Totals market.book market.live)
    (none : ∀ entry ∈ market.live, entry.order.isBuy ≠ isBuy) :
    market.ReadsEmpty isBuy ↔
      market.outside = false ∧ InRange config (market.book.bestIndex isBuy) := by
  refine and_congr_right fun _ => and_iff_left_of_imp fun inside => ?_
  have empty : total config isBuy market.live (market.book.bestIndex isBuy) = 0 :=
    total_eq_zero none _
  cases isBuy with
  | true =>
      have inside : InRange config market.book.bestBidIndex := inside
      rw [← totals.bid] at empty
      rw [quote, if_pos rfl, bestBid, if_pos inside]
      exact congrArg (fun quantity => Except.ok (_, quantity)) empty
  | false =>
      have inside : InRange config market.book.bestAskIndex := inside
      rw [← totals.ask] at empty
      rw [quote, if_neg (by decide), bestAsk, if_pos inside]
      exact congrArg (fun quantity => Except.ok (_, quantity)) empty

structure Traded (market : Market config) : Prop where
  inside : market.outside = false
  valid : Valid false market
  totals : Totals market.book market.live
  settled : market.book.Settled

theorem Traded.initial (config : Config Price) (memory : Address → Order Price) :
    Traded (initial config memory) where
  inside := rfl
  valid := valid_initial config memory
  totals := ⟨rfl, rfl⟩
  settled isBuy := by
    cases isBuy with
    | true => exact .inl rfl
    | false => exact .inl rfl

/-- Only an order that gets in brings the best index of its side inside. -/
theorem Traded.bestIndex_step (traded : Traded market)
    (stepped : market.step false event = some next) (enters : market.Enters event)
    (isBuy : Bool) :
    next.book.Settled ∧ (InRange config (next.book.bestIndex isBuy) ↔
      InRange config (market.book.bestIndex isBuy) ∨ market.Opens isBuy event) := by
  rcases step_eq_some stepped with ⟨_, allowed, rfl⟩
  rw [book_settle]
  cases event with
  | update orderId newQuantity =>
      have follows := update_follows market.book orderId newQuantity
      exact ⟨Follows.settled traded.settled follows,
        (follows isBuy).inRange_iff.trans (or_iff_left id).symm⟩
  | cancel orderId =>
      have follows := cancel_follows false market.book orderId
      exact ⟨Follows.settled traded.settled follows,
        (follows isBuy).inRange_iff.trans (or_iff_left id).symm⟩
  | insert place order =>
      have inserted := traded.valid.inserted allowed
      generalize inserts : market.call false (.insert place order) = result at inserted
      cases inserted with
      | refused throws =>
          exact ⟨traded.settled, (or_iff_left fun opens => opens.2 throws.1).symm⟩
      | outside proceeds beyond book => exact absurd enters.2 beyond
      | placed proceeds inside after stored totals =>
          have settled : (market.session.filled place order).Settled := traded.settled
          have here : (market.session.filled place order).memory (.caller place) = order :=
            Function.update_self _ _ _
          have moves := insertStored_settles settled inserts
          rw [here] at moves
          have room : market.book.orderMap.freeNodes ≠ [] :=
            fun full => proceeds ⟨full, enters.1⟩
          constructor
          · intro side
            by_cases same : side = order.isBuy
            · rw [same]
              exact .inr moves.1
            · rw [moves.2 side same]
              exact traded.settled side
          · by_cases same : isBuy = order.isBuy
            · rw [same]
              exact iff_of_true moves.1 (.inr ⟨rfl, room⟩)
            · rw [moves.2 isBuy same]
              exact (or_iff_left fun opens => same opens.1.symm).symm

theorem Traded.step (traded : Traded market)
    (stepped : market.step false event = some next) (enters : market.Enters event) :
    Traded next := by
  have keeps : market.Keeps false event := by
    cases event with
    | insert place order =>
        intro _
        exact ⟨nofun, enters.2, fun entry member same => absurd ⟨entry, member, same⟩ enters.1⟩
    | update orderId newQuantity => trivial
    | cancel orderId => trivial
  have steps := traded.valid.step stepped
  have kept := (steps.2 traded.totals).mpr keeps
  exact ⟨kept.1, steps.1 kept.1, kept.2,
    (traded.bestIndex_step stepped enters true).1⟩

theorem Follows.unset {before after : Int} (follows : Follows config before after)
    (start : before = OrderBook.unset config isBuy) :
    after = OrderBook.unset config isBuy := by
  rcases follows with rfl | ⟨inside, _⟩
  · exact start
  · rw [start] at inside
    exact absurd inside (not_inRange_unset config isBuy)

/-- No order ever gets into an `OrderBook<true>`, whose `freeMsgPtrs_` is empty. -/
theorem Valid.unset_own (valid : Valid true market)
    (start : ∀ side, market.book.bestIndex side = unset config side)
    (stepped : market.step true event = some next) (inside : next.outside = false) :
    ∀ side, next.book.bestIndex side = unset config side := by
  rcases step_eq_some stepped with ⟨_, _, rfl⟩
  rw [book_settle]
  intro side
  cases event with
  | update orderId newQuantity =>
      exact Follows.unset (update_follows market.book orderId newQuantity side) (start side)
  | cancel orderId =>
      exact Follows.unset (cancel_follows true market.book orderId side) (start side)
  | insert place order =>
      rcases valid.insert_own place order with ⟨_, fails⟩ | ⟨_, book, fails⟩
      · rw [fails]
        exact start side
      · rw [fails] at inside
        cases inside

theorem unset_of_run {memory : Address → Order Price}
    {past : List (Market config × Event Price)} {final : Market config}
    (run : (system true config memory).Run past final) (inside : final.outside = false)
    (side : Bool) : final.book.bestIndex side = unset config side := by
  have reachable : (system true config memory).Reachable final := ⟨past, run⟩
  refine (reachable.invariant (fun market => market.outside = false →
    Valid true market ∧ ∀ side, market.book.bestIndex side = unset config side)
    ?_ ?_ inside).2 side
  · intro state start
    cases start
    refine fun _ => ⟨valid_initial config memory, fun side => ?_⟩
    cases side with
    | true => rfl
    | false => rfl
  · intro current event next kept stepped inside
    rcases kept (step_eq_some stepped).1 with ⟨valid, start⟩
    exact ⟨(valid.step stepped).1 inside, valid.unset_own start stepped inside⟩

/-- The best index of a side is inside exactly if an order of that side has got in. -/
theorem traded_of_run {memory : Address → Order Price}
    {past : List (Market config × Event Price)} {final : Market config}
    (run : (system false config memory).Run past final)
    (enters : ∀ entry ∈ past, entry.1.Enters entry.2) (isBuy : Bool) :
    Traded final ∧ (InRange config (final.book.bestIndex isBuy) ↔
      ∃ entry ∈ past, entry.1.Opens isBuy entry.2) := by
  have entering := run.restrict enters
  have traded : Traded final := by
    apply TransitionSystem.Reachable.invariant Traded _ _ ⟨past, entering⟩
    · intro state start
      cases start
      exact Traded.initial config memory
    · intro current event next traded stepped
      exact traded.step stepped.1 stepped.2
  refine ⟨traded, ?_⟩
  rw [← not_iff_not, not_exists]
  simp only [not_and]
  apply entering.final_iff Traded (fun market => ¬ InRange config (market.book.bestIndex isBuy))
    (fun market event => ¬ market.Opens isBuy event)
  · intro state start
    cases start
    refine ⟨Traded.initial config memory, ?_⟩
    have start : (initial config memory).book.bestIndex isBuy = unset config isBuy := by
      cases isBuy with
      | true => rfl
      | false => rfl
    rw [start]
    exact not_inRange_unset config isBuy
  · intro current event next traded stepped
    exact traded.step stepped.1 stepped.2
  · intro current event next traded stepped
    rw [(traded.bestIndex_step stepped.1 stepped.2 isBuy).2, not_or]

/-- Without a live order, the best price of a side is read inside its level array exactly
if the book keeps the orders of its callers and one of that side has got in. -/
theorem readsEmpty_iff {memory : Address → Order Price}
    {past : List (Market config × Event Price)} {final : Market config}
    (run : (system requireStorage config memory).Run past final)
    (enters : ∀ entry ∈ past, entry.1.Enters entry.2) (isBuy : Bool)
    (none : ∀ entry ∈ final.live, entry.order.isBuy ≠ isBuy) :
    final.ReadsEmpty isBuy ↔
      requireStorage = false ∧ ∃ entry ∈ past, entry.1.Opens isBuy entry.2 := by
  cases requireStorage with
  | true =>
      refine iff_of_false ?_ nofun
      rintro ⟨inside, within, _⟩
      rw [unset_of_run run inside isBuy] at within
      exact not_inRange_unset config isBuy within
  | false =>
      rcases traded_of_run run enters isBuy with ⟨traded, opened⟩
      rw [readsEmpty_iff_inRange traded.totals none, opened]
      exact and_congr_left fun _ => iff_of_true traded.inside rfl

end Histories

/-- A new book has no best bid: its index is -1. -/
theorem new_book_reads_outside :
    ∃ past final, (system false sourceConfig fun _ => ⟨0, 0, 0, false⟩).Run past final ∧
      (∀ entry ∈ past, entry.1.Enters entry.2) ∧
      (∀ entry ∈ final.live, entry.order.isBuy ≠ true) ∧
      final.book.bestBid = .error .outOfRange ∧ ¬ final.ReadsEmpty true := by
  refine ⟨[], _, .start rfl, nofun, nofun, rfl, ?_⟩
  exact fun reads => absurd reads.2.1 (by decide)

theorem readsEmpty_iff_cancelled :
    ∃ past final, (system false eightLevels fun _ => ⟨0, 0, 0, false⟩).Run past final ∧
      (∀ entry ∈ past, entry.1.Enters entry.2) ∧
      (∀ entry ∈ final.live, entry.order.isBuy ≠ true) ∧
      (final.ReadsEmpty true ↔
        false = false ∧ ∃ entry ∈ past, entry.1.Opens true entry.2) := by
  rcases TransitionSystem.exists_reachable_of_execute
    (initial eightLevels fun _ => ⟨0, 0, 0, false⟩)
    (TransitionSystem.guarded Market.Enters (step false))
    [.insert 0 ⟨1, 3, 5, true⟩, .insert 1 ⟨2, 6, 2, false⟩, .update 1 4, .cancel 1]
    (fun final => ∀ entry ∈ final.live, entry.order.isBuy ≠ true) (by decide) with
    ⟨final, reachable, none⟩
  rcases reachable.reachableUnder with ⟨past, run, enters⟩
  exact ⟨past, final, run, enters, none, readsEmpty_iff run enters true none⟩

end Market

end FeederNet.OrderBook
