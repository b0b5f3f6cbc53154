import FeederNet.OrderBook.LiveOrders

/-! # Best prices

The best indices of an `OrderBook<false>` whose live orders all have a quantity.
-/

namespace FeederNet.OrderBook

open HashMap

variable {Price : Type} {config : Config Price}

/-- Every quantity is at least one, and only live orders are updated or cancelled. -/
def Session.Trades (session : Session config) : Event Price → Prop
  | .insert _ order => 1 ≤ order.quantity
  | .update orderId newQuantity => session.IsLive orderId ∧ 1 ≤ newQuantity
  | .cancel orderId => session.IsLive orderId

instance (session : Session config) (event : Event Price) :
    Decidable (session.Trades event) := by
  unfold Session.Trades
  cases event <;> exact inferInstance

/-! ## Best indices -/

/-- The best indices lead the level arrays. -/
structure Ranked (book : OrderBook config) (live : List (LiveOrder Price)) : Prop where
  positive : ∀ entry ∈ live, 0 < entry.order.quantity
  bidLeads : Leads 0 book.bidLevels book.bestBidIndex
  askLeads : Leads (OrderDual.toDual (config.maxPriceLevels - 1 : Int))
    (fun index => book.askLevels (OrderDual.ofDual index))
    (OrderDual.toDual book.bestAskIndex)

section Ranked

variable {book after : OrderBook config} {live next : List (LiveOrder Price)}
  {entry : LiveOrder Price} {isBuy : Bool} {index delta : Int}

theorem inRange_of_total (inRange : ∀ price, InRange config (config.priceToIndex price))
    (positive : ∀ entry ∈ live, 0 < entry.order.quantity)
    (exceeds : 0 < total config isBuy live index) : InRange config index := by
  rcases (total_pos_iff positive).mp exceeds with ⟨entry, _, _, rfl⟩
  exact inRange entry.order.price

theorem Ranked.updatePriceLevel
    (inRange : ∀ price, InRange config (config.priceToIndex price))
    (totals : Totals book live) (ranked : Ranked book live) (member : entry ∈ live)
    (moved : Moved config entry delta live next)
    (positive : ∀ entry ∈ next, 0 < entry.order.quantity)
    (returns : book.updatePriceLevel entry.order.isBuy entry.order.price delta =
      (.ok (), after)) : Ranked after next := by
  have held : 0 < total config entry.order.isBuy live
      (config.priceToIndex entry.order.price) :=
    (total_pos_iff ranked.positive).mpr ⟨entry, member, rfl, rfl⟩
  have left := total_nonneg config entry.order.isBuy
    (config.priceToIndex entry.order.price) positive
  have changed := update_total moved
  have untouched := total_of_ne moved
  have inside : ∀ isBuy index, 0 < total config isBuy next index →
      InRange config index := fun isBuy index => inRange_of_total inRange positive
  unfold OrderBook.updatePriceLevel at returns
  simp only [if_pos (inRange entry.order.price)] at returns
  cases side : entry.order.isBuy with
  | true =>
      rw [side] at held left changed untouched
      simp only [side, if_true, totals.bid, changed] at returns
      cases returns
      refine ⟨positive, ?_, ranked.askLeads⟩
      have leads := ranked.bidLeads
      rw [totals.bid] at leads
      by_cases emptied : config.priceToIndex entry.order.price = book.bestBidIndex ∧
          total config true next (config.priceToIndex entry.order.price) = 0
      · simp only [if_pos emptied]
        apply leads_downFrom
        intro index exceeds
        refine ⟨(inside true index exceeds).1, ?_⟩
        have different : index ≠ config.priceToIndex entry.order.price := by
          intro equal
          subst equal
          omega
        have bound := leads.upper index (by rw [← untouched index different]; exact exceeds)
        omega
      · simp only [if_neg emptied]
        apply leads.lower (fun _ => held) untouched
        intro same _
        have nonzero := fun zero => emptied ⟨same, zero⟩
        omega
  | false =>
      rw [side] at held left changed untouched
      simp only [side, Bool.false_eq_true, if_false, totals.ask, changed] at returns
      cases returns
      refine ⟨positive, ranked.bidLeads, ?_⟩
      have leads := ranked.askLeads
      rw [totals.ask] at leads
      by_cases emptied : config.priceToIndex entry.order.price = book.bestAskIndex ∧
          total config false next (config.priceToIndex entry.order.price) = 0
      · simp only [if_pos emptied]
        have nonnegative := (inRange entry.order.price).1
        apply leads_upFrom (by omega)
        intro index exceeds
        refine ⟨?_, (inside false index exceeds).2⟩
        have different : index ≠ config.priceToIndex entry.order.price := by
          intro equal
          subst equal
          omega
        have before : 0 < total config false live index := by
          rw [← untouched index different]
          exact exceeds
        have bound : book.bestAskIndex ≤ index :=
          leads.upper (OrderDual.toDual index) before
        omega
      · simp only [if_neg emptied]
        apply leads.lower (fun _ => held) untouched
        intro same _
        have nonzero := fun zero => emptied ⟨same, zero⟩
        exact lt_of_le_of_ne left (Ne.symm nonzero)

theorem Ranked.construct (config : Config Price) (memory : Address → Order Price) :
    Ranked (construct config memory) [] where
  positive := nofun
  bidLeads := ⟨nofun, .inr ⟨nofun, by simp [OrderBook.construct]⟩⟩
  askLeads := by
    refine ⟨nofun, .inr ⟨nofun, ?_⟩⟩
    change (config.maxPriceLevels - 1 : Int) ≤ config.maxPriceLevels
    omega

theorem Ranked.insertStored
    (inRange : ∀ price, InRange config (config.priceToIndex price))
    (totals : Totals book live) (ranked : Ranked book live) {order : Address}
    (quantity : 0 < (book.memory order).quantity) {node : Nat}
    {orderMap : FixedSizedChainingHashMap config.initBuckets Word64 (Option Address)}
    (assigned : book.orderMap.operatorIndex config.hash (book.memory order).orderId =
      .ok (node, orderMap))
    (returns : book.insertStored order order = (.ok (), after)) :
    Ranked after (⟨order, book.memory order⟩ :: live) := by
  have positive : ∀ entry ∈ (⟨order, book.memory order⟩ :: live : List (LiveOrder Price)),
      0 < entry.order.quantity := List.forall_mem_cons.mpr ⟨quantity, ranked.positive⟩
  have moved : Moved config ⟨order, book.memory order⟩ (book.memory order).quantity live
    (⟨order, book.memory order⟩ :: live) := moved_cons _ live
  have changed := update_total moved
  have untouched := total_of_ne moved
  unfold OrderBook.insertStored at returns
  simp only [assigned, if_pos (inRange (book.memory order).price)] at returns
  have inside := inRange (book.memory order).price
  cases side : (book.memory order).isBuy with
  | true =>
      simp only [side] at changed untouched
      simp only [side, if_true, totals.bid, changed] at returns
      cases returns
      refine ⟨positive, ?_, ranked.askLeads⟩
      have leads := ranked.bidLeads
      rw [totals.bid] at leads
      apply leads.raise inside.1 _ untouched
      exact (total_pos_iff positive).mpr ⟨_, List.mem_cons_self, side, rfl⟩
  | false =>
      simp only [side] at changed untouched
      simp only [side, Bool.false_eq_true, if_false, totals.ask, changed] at returns
      cases returns
      refine ⟨positive, ranked.bidLeads, ?_⟩
      have leads := ranked.askLeads
      rw [totals.ask] at leads
      apply leads.raise _ _ untouched
      · change config.priceToIndex (book.memory order).price ≤
          (config.maxPriceLevels - 1 : Int)
        have below := inside.2
        omega
      · exact (total_pos_iff positive).mpr ⟨_, List.mem_cons_self, side, rfl⟩

end Ranked

/-! ## Sessions -/

section Sessions

variable {session next : Session config}

theorem Ranked.step (inRange : ∀ price, InRange config (config.priceToIndex price))
    (accounts : Accounts session.book session.live)
    (ranked : Ranked session.book session.live) {event : Event Price}
    (trades : session.Trades event) (steps : session.step event = some next) :
    Ranked next.book next.live := by
  cases event with
  | insert place order =>
      by_cases fresh : session.Fresh place order
      · rw [Session.step, if_pos fresh] at steps
        rcases accounts.insert fresh (inRange order.price) with
          ⟨_, fails⟩ | ⟨node, orderMap, after, assigned, inserts, _⟩
        · rw [fails] at steps
          cases steps
          exact ⟨ranked.positive, ranked.bidLeads, ranked.askLeads⟩
        · rw [inserts] at steps
          cases steps
          have filled : Ranked (session.filled place order) session.live :=
            ⟨ranked.positive, ranked.bidLeads, ranked.askLeads⟩
          have here : (session.filled place order).memory (.caller place) = order :=
            Function.update_self _ _ _
          rw [← here] at trades assigned ⊢
          exact filled.insertStored inRange (accounts.filled fresh).toTotals trades assigned
            inserts
      · rw [Session.step, if_neg fresh] at steps
        cases steps
  | update orderId newQuantity =>
      rcases trades with ⟨⟨entry, member, rfl⟩, exceeds⟩
      rcases accounts.update member (inRange entry.order.price) newQuantity with
        ⟨priced, memory, prices, updates, _⟩
      rw [Session.step, updates] at steps
      cases steps
      have positive : ∀ other ∈ session.live.map
          (Session.requantify entry.order.orderId newQuantity),
          0 < other.order.quantity := by
        intro changed inList
        rcases List.mem_map.mp inList with ⟨other, also, rfl⟩
        unfold Session.requantify
        split
        · exact exceeds
        · exact ranked.positive other also
      have result := ranked.updatePriceLevel inRange accounts.toTotals member
        (moved_requantify accounts.ids member newQuantity) positive prices
      exact ⟨result.positive, result.bidLeads, result.askLeads⟩
  | cancel orderId =>
      rcases trades with ⟨entry, member, rfl⟩
      rcases accounts.cancel member (inRange entry.order.price) with
        ⟨priced, orderMap, prices, cancels, _⟩
      rw [Session.step, cancels] at steps
      cases steps
      have result := ranked.updatePriceLevel inRange accounts.toTotals member
        (moved_filter accounts.ids member)
        (fun other also => ranked.positive other (List.mem_filter.mp also).1) prices
      exact ⟨result.positive, result.bidLeads, result.askLeads⟩

end Sessions

end FeederNet.OrderBook
