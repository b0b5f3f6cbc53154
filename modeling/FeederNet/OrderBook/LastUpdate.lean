import FeederNet.OrderBook.AnyOrder
import Mathlib.Data.List.Find

/-! # The last update of an order

`update` after `update` on one live order, against the second call alone. The levels and
the quantities never show the first call. The best index does where the first call empties
the best level: it moves on, and nothing brings it back when the level fills again.
-/

namespace FeederNet.OrderBook

open HashMap

variable {Price : Type} {config : Config Price}

def nextBest (levels : Int → Int) (indices : List Int) (fallback index best : Int) : Int :=
  if index = best ∧ levels index = 0 then (firstPositive levels indices).getD fallback
  else best

def moveLevel (book : OrderBook config) (isBuy : Bool) (index delta : Int) :
    OrderBook config :=
  if isBuy then
    let bidLevels := Function.update book.bidLevels index (book.bidLevels index + delta)
    { book with
      bidLevels := bidLevels
      bestBidIndex :=
        nextBest bidLevels (downFrom (index - 1)) 0 index book.bestBidIndex }
  else
    let askLevels := Function.update book.askLevels index (book.askLevels index + delta)
    { book with
      askLevels := askLevels
      bestAskIndex := nextBest askLevels (upFrom config (index + 1))
        (config.maxPriceLevels - 1) index book.bestAskIndex }

theorem updatePriceLevel_eq (book : OrderBook config) (isBuy : Bool) {price : Price}
    (delta : Int) (inside : InRange config (config.priceToIndex price)) :
    book.updatePriceLevel isBuy price delta =
      (.ok (), book.moveLevel isBuy (config.priceToIndex price) delta) := by
  unfold OrderBook.updatePriceLevel
  simp only [if_pos inside]
  cases isBuy with
  | true => rfl
  | false => rfl

/-! ## The best index -/

section Levels

variable {levels : Int → Int} {indices : List Int} {index : Int}

theorem firstPositive_update (elsewhere : index ∉ indices) (value : Int) :
    firstPositive (Function.update levels index value) indices =
      firstPositive levels indices := by
  apply List.find?_congr
  intro other member
  have different : other ≠ index := fun same => elsewhere (same ▸ member)
  rw [Function.update_of_ne different]

theorem update_twice (levels : Int → Int) (index first second : Int) :
    let once := Function.update levels index (levels index + first)
    Function.update once index (once index + second) =
      Function.update levels index (levels index + (first + second)) := by
  simp only [Function.update_self, Function.update_idem, Int.add_assoc]

/-- Two changes of a level are seen in the best index exactly if the first one empties the
best level, the search ends elsewhere and the second one fills the level again. -/
theorem nextBest_twice_iff (elsewhere : index ∉ indices) (levels : Int → Int)
    (fallback best first second : Int) :
    let once := Function.update levels index (levels index + first)
    let twice := Function.update once index (once index + second)
    let both := Function.update levels index (levels index + (first + second))
    nextBest twice indices fallback index (nextBest once indices fallback index best) =
        nextBest both indices fallback index best ↔
      ¬ (index = best ∧ levels index + first = 0 ∧
        (firstPositive levels indices).getD fallback ≠ index ∧ second ≠ 0) := by
  simp only [update_twice]
  simp only [nextBest, firstPositive_update elsewhere, Function.update_self, ← Int.add_assoc]
  by_cases emptied : index = best ∧ levels index + first = 0
  · rcases emptied with ⟨rfl, empty⟩
    simp only [empty, zero_add, and_true, true_and, if_true]
    generalize (firstPositive levels indices).getD fallback = found
    by_cases zero : second = 0
    · subst zero
      simp
    · simp only [zero, and_false, if_false, not_false_eq_true, and_true, not_not, ne_eq]
  · rw [if_neg emptied]
    exact iff_of_true rfl fun given => emptied ⟨given.1, given.2.1⟩

theorem bid_found_eq_iff :
    (firstPositive levels (downFrom (index - 1))).getD 0 = index ↔ index = 0 := by
  cases finds : firstPositive levels (downFrom (index - 1)) with
  | none => exact eq_comm
  | some found =>
      have below := (mem_downFrom.mp (List.mem_of_find?_eq_some finds))
      simp only [Option.getD_some]
      omega

theorem ask_found_eq_iff (inside : InRange config index) :
    (firstPositive levels (upFrom config (index + 1))).getD (config.maxPriceLevels - 1) =
      index ↔ index = config.maxPriceLevels - 1 := by
  have nonnegative : 0 ≤ index + 1 := by
    have low := inside.1
    omega
  cases finds : firstPositive levels (upFrom config (index + 1)) with
  | none => exact eq_comm
  | some found =>
      have above := (mem_upFrom nonnegative).mp (List.mem_of_find?_eq_some finds)
      simp only [Option.getD_some]
      omega

end Levels

/-! ## Two updates -/

structure SameView (left right : OrderBook config) : Prop where
  bidLevels : left.bidLevels = right.bidLevels
  askLevels : left.askLevels = right.askLevels
  orders : left.memory = right.memory
  bestBidIndex : left.bestBidIndex = right.bestBidIndex
  bestAskIndex : left.bestAskIndex = right.bestAskIndex

/-- The second of two updates is answered and seen as if there had been no first one. -/
structure LastCounts (book : OrderBook config) (orderId : Word64) (first second : Int) :
    Prop where
  outcome : ((book.update orderId first).2.update orderId second).1 =
    (book.update orderId second).1
  view : SameView ((book.update orderId first).2.update orderId second).2
    (book.update orderId second).2

/-- The first quantity empties the best level, the search for another one does not end
where it began, and the second quantity would not empty the level. -/
def LeavesBest (book : OrderBook config) (order : Order Price) (first second : Int) :
    Prop :=
  let index := config.priceToIndex order.price
  if order.isBuy then
    index = book.bestBidIndex ∧ book.bidLevels index - order.quantity + first = 0 ∧
      index ≠ 0 ∧ first ≠ second
  else
    index = book.bestAskIndex ∧ book.askLevels index - order.quantity + first = 0 ∧
      index ≠ config.maxPriceLevels - 1 ∧ first ≠ second

section Updates

variable {book : OrderBook config} {live : List (LiveOrder Price)}
  {entry : LiveOrder Price} {index : Int}

theorem moveLevel_memory (book : OrderBook config) (memory : Address → Order Price)
    (isBuy : Bool) (index delta : Int) :
    ({ book with memory := memory } : OrderBook config).moveLevel isBuy index delta =
      { book.moveLevel isBuy index delta with memory := memory } := by
  cases isBuy <;> rfl

theorem Stored.update_eq (stored : Stored book live) (member : entry ∈ live)
    (inside : InRange config (config.priceToIndex entry.order.price))
    (newQuantity : Int) :
    book.update entry.order.orderId newQuantity =
      (.ok (), { book.moveLevel entry.order.isBuy (config.priceToIndex entry.order.price)
          (newQuantity - entry.order.quantity) with
        memory := Function.update book.memory entry.address
          { entry.order with quantity := newQuantity } }) := by
  have finds := stored.findOrder member
  have here := stored.memory entry member
  have kept : (book.moveLevel entry.order.isBuy (config.priceToIndex entry.order.price)
      (newQuantity - entry.order.quantity)).memory = book.memory := by
    cases entry.order.isBuy <;> rfl
  unfold OrderBook.update
  simp only [finds, here, updatePriceLevel_eq book _ _ inside, kept]

theorem Stored.update_update_eq (stored : Stored book live) (member : entry ∈ live)
    (inside : InRange config (config.priceToIndex entry.order.price))
    (first second : Int) :
    (book.update entry.order.orderId first).2.update entry.order.orderId second =
      (.ok (), { (book.moveLevel entry.order.isBuy
            (config.priceToIndex entry.order.price)
            (first - entry.order.quantity)).moveLevel entry.order.isBuy
          (config.priceToIndex entry.order.price) (second - first) with
        memory := Function.update book.memory entry.address
          { entry.order with quantity := second } }) := by
  have once := stored.update_eq member inside first
  rcases stored.update member inside first with ⟨_, _, _, updates, kept⟩
  rw [once] at updates
  rw [← (Prod.mk.inj updates).2] at kept
  let requantified : LiveOrder Price :=
    ⟨entry.address, { entry.order with quantity := first }⟩
  have remains : requantified ∈ live.map (Session.requantify entry.order.orderId first) :=
    List.mem_map.mpr ⟨entry, member, if_pos rfl⟩
  have twice := kept.update_eq remains inside second
  rw [moveLevel_memory (book.moveLevel _ _ _), Function.update_idem] at twice
  rw [once]
  exact twice

/-- The changes of one level add up, but for what the best index has gone through. -/
theorem moveLevel_twice_iff (book : OrderBook config) (inside : InRange config index)
    (isBuy : Bool) (first second : Int) :
    SameView ((book.moveLevel isBuy index first).moveLevel isBuy index second)
        (book.moveLevel isBuy index (first + second)) ↔
      ¬ if isBuy then
          index = book.bestBidIndex ∧ book.bidLevels index + first = 0 ∧ index ≠ 0 ∧
            second ≠ 0
        else
          index = book.bestAskIndex ∧ book.askLevels index + first = 0 ∧
            index ≠ config.maxPriceLevels - 1 ∧ second ≠ 0 := by
  cases isBuy with
  | true =>
      have elsewhere : index ∉ downFrom (index - 1) := by
        rw [mem_downFrom]
        omega
      have levels := update_twice book.bidLevels index first second
      have best := nextBest_twice_iff elsewhere book.bidLevels 0 book.bestBidIndex first
        second
      rw [ne_eq, bid_found_eq_iff] at best
      rw [if_pos rfl]
      refine Iff.trans ?_ best
      exact ⟨fun view => view.bestBidIndex, fun same => ⟨levels, rfl, rfl, same, rfl⟩⟩
  | false =>
      have elsewhere : index ∉ upFrom config (index + 1) := by
        have low := inside.1
        rw [mem_upFrom (by omega)]
        omega
      have levels := update_twice book.askLevels index first second
      have best := nextBest_twice_iff elsewhere book.askLevels (config.maxPriceLevels - 1)
        book.bestAskIndex first second
      rw [ne_eq, ask_found_eq_iff inside] at best
      rw [if_neg Bool.false_ne_true]
      refine Iff.trans ?_ best
      exact ⟨fun view => view.bestAskIndex, fun same => ⟨rfl, levels, rfl, rfl, same⟩⟩

/-- Of two updates of a live order only the last one counts, unless the first one moves
the best index away from the level of the order. -/
theorem Market.lastCounts_iff {memory : Address → Order Price} {market : Market config}
    (reachable : (Market.system false config memory).Reachable market)
    (inside : market.outside = false) {entry : LiveOrder Price}
    (member : entry ∈ market.live) (first second : Int) :
    LastCounts market.book entry.order.orderId first second ↔
      ¬ LeavesBest market.book entry.order first second := by
  rcases reachable with ⟨past, run⟩
  have valid := (Market.valid_of_run run).2 inside
  have inside := valid.inRange entry member
  have alone := valid.stored.update_eq member inside second
  have twice := valid.stored.update_update_eq member inside first second
  have levels := moveLevel_twice_iff market.book inside entry.order.isBuy
    (first - entry.order.quantity) (second - first)
  have sum : first - entry.order.quantity + (second - first) =
      second - entry.order.quantity := by omega
  have emptied : ∀ level : Int, level + (first - entry.order.quantity) = 0 ↔
      level - entry.order.quantity + first = 0 := by
    intro level
    omega
  have apart : second - first ≠ 0 ↔ first ≠ second := by omega
  rw [sum, emptied, emptied, apart] at levels
  refine Iff.trans ?_ levels
  constructor
  · intro counts
    have view := counts.view
    rw [twice, alone] at view
    exact ⟨view.bidLevels, view.askLevels, by cases entry.order.isBuy <;> rfl,
      view.bestBidIndex, view.bestAskIndex⟩
  · intro view
    refine ⟨by rw [twice, alone], ?_⟩
    rw [twice, alone]
    exact ⟨view.bidLevels, view.askLevels, rfl, view.bestBidIndex, view.bestAskIndex⟩

end Updates

/-- The only bid loses its quantity and gets one again. The best index has gone to the
bottom and stays there. -/
theorem refilled_level_is_not_best :
    ∃ market, (Market.system false eightLevels fun _ => ⟨0, 0, 0, false⟩).Reachable market ∧
      (market.outside = false ∧ (∃ entry ∈ market.live, entry.order.orderId = 1) ∧
        ((market.book.update 1 0).2.update 1 4).2.bestBidIndex = 0 ∧
        (market.book.update 1 4).2.bestBidIndex = 3) ∧
      ¬ LastCounts market.book 1 0 4 := by
  rcases TransitionSystem.exists_reachable_of_execute
    (Market.initial eightLevels fun _ => ⟨0, 0, 0, false⟩) (Market.step false)
    [.insert 0 ⟨1, 3, 5, true⟩]
    (fun market => market.outside = false ∧
      (∃ entry ∈ market.live, entry.order.orderId = 1) ∧
        ((market.book.update 1 0).2.update 1 4).2.bestBidIndex = 0 ∧
        (market.book.update 1 4).2.bestBidIndex = 3) (by decide) with
    ⟨market, reachable, inside, isLive, twice, alone⟩
  refine ⟨market, reachable, ⟨inside, isLive, twice, alone⟩, fun counts => ?_⟩
  have same := counts.view.bestBidIndex
  rw [twice, alone] at same
  cases same

/-- Two asks share the best level. -/
theorem lastCounts_iff_shared :
    ∃ market, (Market.system false eightLevels fun _ => ⟨0, 0, 0, false⟩).Reachable market ∧
      ∃ entry ∈ market.live, entry.order = ⟨1, 5, 4, false⟩ ∧
        (LastCounts market.book entry.order.orderId 0 7 ↔
          ¬ LeavesBest market.book entry.order 0 7) := by
  rcases TransitionSystem.exists_reachable_of_execute
    (Market.initial eightLevels fun _ => ⟨0, 0, 0, false⟩) (Market.step false)
    [.insert 0 ⟨1, 5, 3, false⟩, .insert 1 ⟨2, 5, 2, false⟩, .update 1 4]
    (fun market => market.outside = false ∧
      ∃ entry ∈ market.live, entry.order = ⟨1, 5, 4, false⟩) (by decide) with
    ⟨market, reachable, inside, entry, member, order⟩
  exact ⟨market, reachable, entry, member, order,
    Market.lastCounts_iff reachable inside member 0 7⟩

end FeederNet.OrderBook
