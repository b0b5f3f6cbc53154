import FeederNet.Foundation.TransitionSystem
import FeederNet.HashMap.FixedSizedChainingHashMap.Contents
import FeederNet.OrderBook.Levels

/-! # Live orders

An `OrderBook<false>` together with the orders that are live in it. A caller fills an
order before it inserts it and leaves it alone while it is in the book. Quantities
are any integers.
-/

namespace FeederNet.OrderBook

open HashMap

variable {Price : Type} {config : Config Price}

structure Session (config : Config Price) where
  book : OrderBook config
  live : List (LiveOrder Price)

inductive Event (Price : Type)
  | insert (place : Nat) (order : Order Price)
  | update (orderId : Word64) (newQuantity : Int)
  | cancel (orderId : Word64)
  deriving DecidableEq, Repr

namespace Session

def initial (config : Config Price) (memory : Address → Order Price) :
    Session config where
  book := construct config memory
  live := []

def IsLive (session : Session config) (orderId : Word64) : Prop :=
  ∃ entry ∈ session.live, entry.order.orderId = orderId

instance (session : Session config) (orderId : Word64) :
    Decidable (session.IsLive orderId) :=
  inferInstanceAs (Decidable (∃ entry ∈ session.live, entry.order.orderId = orderId))

def Fresh (session : Session config) (place : Nat) (order : Order Price) : Prop :=
  ∀ entry ∈ session.live,
    entry.order.orderId ≠ order.orderId ∧ entry.address ≠ .caller place

instance (session : Session config) (place : Nat) (order : Order Price) :
    Decidable (session.Fresh place order) :=
  inferInstanceAs (Decidable (∀ entry ∈ session.live, _ ∧ _))

def filled (session : Session config) (place : Nat) (order : Order Price) :
    OrderBook config :=
  { session.book with
    memory := Function.update session.book.memory (.caller place) order }

/-- What a completed operation does to the live orders; one that throws leaves them as
they are. -/
def settle (live : List (LiveOrder Price)) :
    Except Fault Unit × OrderBook config → List (LiveOrder Price) → Session config
  | (.ok (), book), changed => ⟨book, changed⟩
  | (.error _, book), _ => ⟨book, live⟩

def requantify (orderId : Word64) (newQuantity : Int) (entry : LiveOrder Price) :
    LiveOrder Price :=
  if entry.order.orderId = orderId then
    { entry with order := { entry.order with quantity := newQuantity } }
  else entry

def step (session : Session config) : Event Price → Option (Session config)
  | .insert place order =>
      if session.Fresh place order then
        some (settle session.live
          ((session.filled place order).insert false (.caller place))
          (⟨.caller place, order⟩ :: session.live))
      else none
  | .update orderId newQuantity =>
      some (settle session.live (session.book.update orderId newQuantity)
        (session.live.map (requantify orderId newQuantity)))
  | .cancel orderId =>
      some (settle session.live (session.book.cancel false orderId)
        (session.live.filter fun entry => decide (entry.order.orderId ≠ orderId)))

@[reducible] def system (config : Config Price) (memory : Address → Order Price) :
    TransitionSystem (Session config) (Event Price) :=
  .ofStep (initial config memory) step

end Session

/-! ## Moving a level -/

/-- The level arrays hold the totals of the live orders. -/
structure Totals (book : OrderBook config) (live : List (LiveOrder Price)) : Prop where
  bid : book.bidLevels = total config true live
  ask : book.askLevels = total config false live

/-- The totals of `next` are those of `live` with `delta` more where `entry`
stands. -/
def Moved (config : Config Price) (entry : LiveOrder Price) (delta : Int)
    (live next : List (LiveOrder Price)) : Prop :=
  ∀ isBuy index, total config isBuy next index =
    total config isBuy live index + if entry.At config isBuy index then delta else 0

section Totals

variable {book after : OrderBook config} {live next : List (LiveOrder Price)}
  {entry : LiveOrder Price} {isBuy : Bool} {delta : Int}

theorem update_total (moved : Moved config entry delta live next) :
    Function.update (total config entry.order.isBuy live)
      (config.priceToIndex entry.order.price)
      (total config entry.order.isBuy live (config.priceToIndex entry.order.price) +
        delta) = total config entry.order.isBuy next := by
  funext index
  rw [moved]
  by_cases same : index = config.priceToIndex entry.order.price
  · subst same
    rw [Function.update_self, if_pos ⟨rfl, rfl⟩]
  · rw [Function.update_of_ne same, if_neg fun stands => same stands.2.symm, Int.add_zero]

theorem total_of_ne (moved : Moved config entry delta live next) (index : Int)
    (different : index ≠ config.priceToIndex entry.order.price) :
    total config entry.order.isBuy next index =
      total config entry.order.isBuy live index := by
  rw [← update_total moved, Function.update_of_ne different]

theorem total_other (moved : Moved config entry delta live next)
    (other : entry.order.isBuy ≠ isBuy) :
    total config isBuy live = total config isBuy next := by
  funext index
  rw [moved, if_neg fun stands => other stands.1, Int.add_zero]

theorem moved_cons (entry : LiveOrder Price) (live : List (LiveOrder Price)) :
    Moved config entry entry.order.quantity live (entry :: live) := by
  intro isBuy index
  rw [total_cons, Int.add_comm]

theorem updatePriceLevel_inside (book : OrderBook config) (isBuy : Bool) {price : Price}
    (delta : Int) (inside : InRange config (config.priceToIndex price)) :
    ∃ after, book.updatePriceLevel isBuy price delta = (.ok (), after) ∧
      after.memory = book.memory ∧ after.orderMap = book.orderMap := by
  unfold OrderBook.updatePriceLevel
  simp only [if_pos inside]
  cases isBuy with
  | true => exact ⟨_, rfl, rfl, rfl⟩
  | false => exact ⟨_, rfl, rfl, rfl⟩

theorem Totals.updatePriceLevel (totals : Totals book live)
    (inside : InRange config (config.priceToIndex entry.order.price))
    (moved : Moved config entry delta live next)
    (updates : book.updatePriceLevel entry.order.isBuy entry.order.price delta =
      (.ok (), after)) : Totals after next := by
  have changed := update_total moved
  unfold OrderBook.updatePriceLevel at updates
  simp only [if_pos inside] at updates
  cases side : entry.order.isBuy with
  | true =>
      rw [side] at changed
      simp only [side, if_true, totals.bid, changed] at updates
      cases updates
      exact ⟨rfl, totals.ask.trans (total_other moved (by simp [side]))⟩
  | false =>
      rw [side] at changed
      simp only [side, Bool.false_eq_true, if_false, totals.ask, changed] at updates
      cases updates
      exact ⟨totals.bid.trans (total_other moved (by simp [side])), rfl⟩

theorem insertStored_fails {book : OrderBook config} {order mem : Address}
    {fault : FixedSizedChainingHashMap.Fault}
    (fails : book.orderMap.operatorIndex config.hash (book.memory order).orderId =
      .error fault) : book.insertStored order mem = (.error (.orderMap fault), book) := by
  rw [OrderBook.insertStored, fails]

theorem insertStored_outside {book : OrderBook config} {order mem : Address}
    (outside : ¬ InRange config (config.priceToIndex (book.memory order).price)) {node : Nat}
    {orderMap : FixedSizedChainingHashMap config.initBuckets Word64 (Option Address)}
    (assigned : book.orderMap.operatorIndex config.hash (book.memory order).orderId =
      .ok (node, orderMap)) :
    ∃ after, book.insertStored order mem = (.error .outOfRange, after) := by
  rw [OrderBook.insertStored, assigned]
  exact ⟨_, if_neg outside⟩

theorem insertStored_inside {book : OrderBook config} {order : Address}
    (inside : InRange config (config.priceToIndex (book.memory order).price)) {node : Nat}
    {orderMap : FixedSizedChainingHashMap config.initBuckets Word64 (Option Address)}
    (assigned : book.orderMap.operatorIndex config.hash (book.memory order).orderId =
      .ok (node, orderMap)) :
    ∃ after, book.insertStored order order = (.ok (), after) ∧
      after.memory = book.memory ∧
        after.orderMap = orderMap.setValueAt node (some order) := by
  unfold OrderBook.insertStored
  simp only [assigned, if_pos inside]
  cases (book.memory order).isBuy with
  | true => exact ⟨_, rfl, rfl, rfl⟩
  | false => exact ⟨_, rfl, rfl, rfl⟩

theorem Totals.insertStored {order : Address} (totals : Totals book live)
    (inside : InRange config (config.priceToIndex (book.memory order).price)) {node : Nat}
    {orderMap : FixedSizedChainingHashMap config.initBuckets Word64 (Option Address)}
    (assigned : book.orderMap.operatorIndex config.hash (book.memory order).orderId =
      .ok (node, orderMap))
    (inserts : book.insertStored order order = (.ok (), after)) :
    Totals after (⟨order, book.memory order⟩ :: live) := by
  have moved : Moved config ⟨order, book.memory order⟩ (book.memory order).quantity live
    (⟨order, book.memory order⟩ :: live) := moved_cons _ live
  have changed := update_total moved
  unfold OrderBook.insertStored at inserts
  simp only [assigned, if_pos inside] at inserts
  cases side : (book.memory order).isBuy with
  | true =>
      simp only [side] at changed
      simp only [side, if_true, totals.bid, changed] at inserts
      cases inserts
      exact ⟨rfl, totals.ask.trans (total_other moved (by simp [side]))⟩
  | false =>
      simp only [side] at changed
      simp only [side, Bool.false_eq_true, if_false, totals.ask, changed] at inserts
      cases inserts
      exact ⟨totals.bid.trans (total_other moved (by simp [side])), rfl⟩

end Totals

/-! ## Live orders -/

/-- What `orderMap_` holds for the live orders. -/
def placesOf (live : List (LiveOrder Price)) (orderId : Word64) : Option (Option Address) :=
  (live.find? fun entry => decide (entry.order.orderId = orderId)).map
    fun entry => some entry.address

/-- Ids are not shared, and `orderMap_` leads from each to its order. -/
structure Stored (book : OrderBook config) (live : List (LiveOrder Price)) : Prop where
  ids : (live.map fun entry => entry.order.orderId).Nodup
  memory : ∀ entry ∈ live, book.memory entry.address = entry.order
  orderMap : FixedSizedChainingHashMap.Represents config.hash book.orderMap (placesOf live)

section Stored

variable {book : OrderBook config} {live : List (LiveOrder Price)}
  {entry : LiveOrder Price} {orderId : Word64}

theorem placesOf_cons (entry : LiveOrder Price) (live : List (LiveOrder Price)) :
    placesOf (entry :: live) =
      Function.update (placesOf live) entry.order.orderId (some (some entry.address)) := by
  funext orderId
  unfold placesOf
  by_cases same : orderId = entry.order.orderId
  · subst same
    rw [Function.update_self, List.find?_cons_of_pos (by simp)]
    rfl
  · rw [Function.update_of_ne same, List.find?_cons_of_neg (by simpa using Ne.symm same)]

theorem placesOf_filter (live : List (LiveOrder Price)) (orderId : Word64) :
    placesOf (live.filter fun entry => decide (entry.order.orderId ≠ orderId)) =
      Function.update (placesOf live) orderId none := by
  induction live with
  | nil =>
      funext other
      by_cases same : other = orderId
      · subst same
        rw [Function.update_self]
        rfl
      · rw [Function.update_of_ne same]
        rfl
  | cons entry live induction =>
      by_cases same : entry.order.orderId = orderId
      · rw [List.filter_cons_of_neg (by simpa using same), induction, placesOf_cons, same,
          Function.update_idem]
      · rw [List.filter_cons_of_pos (by simpa using same), placesOf_cons, induction,
          placesOf_cons, Function.update_comm (Ne.symm same)]

theorem placesOf_requantify (live : List (LiveOrder Price)) (orderId : Word64)
    (newQuantity : Int) :
    placesOf (live.map (Session.requantify orderId newQuantity)) = placesOf live := by
  induction live with
  | nil => rfl
  | cons entry live induction =>
      have kept : (Session.requantify orderId newQuantity entry).order.orderId =
            entry.order.orderId ∧
          (Session.requantify orderId newQuantity entry).address = entry.address := by
        unfold Session.requantify
        split <;> exact ⟨rfl, rfl⟩
      rw [List.map_cons, placesOf_cons, induction, placesOf_cons, kept.1, kept.2]

theorem Stored.unique (stored : Stored book live) {other : LiveOrder Price}
    (member : entry ∈ live) (also : other ∈ live)
    (same : entry.order.orderId = other.order.orderId) : entry = other :=
  List.inj_on_of_nodup_map stored.ids member also same

theorem placesOf_of_mem (ids : (live.map fun entry => entry.order.orderId).Nodup)
    (member : entry ∈ live) :
    placesOf live entry.order.orderId = some (some entry.address) := by
  induction live with
  | nil => cases member
  | cons head live induction =>
      rw [List.map_cons, List.nodup_cons] at ids
      rw [placesOf_cons]
      rcases List.mem_cons.mp member with rfl | later
      · rw [Function.update_self]
      · have different : entry.order.orderId ≠ head.order.orderId := by
          intro same
          refine ids.1 ?_
          rw [← same]
          exact List.mem_map_of_mem later
        rw [Function.update_of_ne different]
        exact induction ids.2 later

theorem Stored.findOrder (stored : Stored book live) (member : entry ∈ live) :
    book.findOrder entry.order.orderId = (.ok entry.address, book) := by
  have place := placesOf_of_mem stored.ids member
  rcases stored.orderMap.read place with ⟨node, returns, value⟩
  rw [OrderBook.findOrder, stored.orderMap.contains, place]
  simp only [Option.isSome_some, returns, value]

theorem perm_filter (ids : (live.map fun entry => entry.order.orderId).Nodup)
    (member : entry ∈ live) :
    live.Perm (entry ::
      live.filter fun other => decide (other.order.orderId ≠ entry.order.orderId)) := by
  induction live with
  | nil => cases member
  | cons head live induction =>
      rw [List.map_cons, List.nodup_cons] at ids
      rcases List.mem_cons.mp member with rfl | later
      · rw [List.filter_cons_of_neg (by simp), List.filter_eq_self.mpr]
        intro other inside
        have different : other.order.orderId ≠ entry.order.orderId := by
          intro same
          refine ids.1 ?_
          rw [← same]
          exact List.mem_map_of_mem inside
        simpa using different
      · have different : head.order.orderId ≠ entry.order.orderId := by
          intro same
          refine ids.1 ?_
          rw [same]
          exact List.mem_map_of_mem later
        rw [List.filter_cons_of_pos (by simpa using different)]
        exact ((induction ids.2 later).cons head).trans (List.Perm.swap entry head _)

theorem moved_filter (ids : (live.map fun entry => entry.order.orderId).Nodup)
    (member : entry ∈ live) :
    Moved config entry (-entry.order.quantity) live
      (live.filter fun other => decide (other.order.orderId ≠ entry.order.orderId)) := by
  intro isBuy index
  rw [total_perm (perm_filter ids member), total_cons]
  split <;> omega

theorem map_requantify_filter (live : List (LiveOrder Price)) (orderId : Word64)
    (newQuantity : Int) :
    (live.filter fun other => decide (other.order.orderId ≠ orderId)).map
      (Session.requantify orderId newQuantity) =
        live.filter fun other => decide (other.order.orderId ≠ orderId) := by
  rw [List.map_congr_left, List.map_id]
  intro entry member
  have different := of_decide_eq_true (List.mem_filter.mp member).2
  exact if_neg different

theorem moved_requantify (ids : (live.map fun entry => entry.order.orderId).Nodup)
    (member : entry ∈ live) (newQuantity : Int) :
    Moved config entry (newQuantity - entry.order.quantity) live
      (live.map (Session.requantify entry.order.orderId newQuantity)) := by
  intro isBuy index
  have perm := perm_filter ids member
  rw [total_perm (perm.map _), total_perm perm, List.map_cons, map_requantify_filter,
    total_cons, total_cons, Session.requantify, if_pos rfl]
  have same : (⟨entry.address, { entry.order with quantity := newQuantity }⟩ :
      LiveOrder Price).At config isBuy index ↔ entry.At config isBuy index := Iff.rfl
  simp only [same]
  split <;> omega

end Stored

/-! ## Operations -/

structure Accounts (book : OrderBook config) (live : List (LiveOrder Price)) : Prop
    extends Stored book live, Totals book live

section Operations

variable {book : OrderBook config} {live : List (LiveOrder Price)}
  {entry : LiveOrder Price} {orderId : Word64}

theorem Accounts.construct (config : Config Price) (memory : Address → Order Price) :
    Accounts (construct config memory) [] where
  ids := List.nodup_nil
  memory := nofun
  orderMap := FixedSizedChainingHashMap.represents_construct config.hash
  bid := rfl
  ask := rfl

theorem orderId_requantify (orderId : Word64) (newQuantity : Int)
    (entry : LiveOrder Price) :
    (Session.requantify orderId newQuantity entry).order.orderId =
      entry.order.orderId := by
  unfold Session.requantify
  split <;> rfl

theorem Stored.update (stored : Stored book live) (member : entry ∈ live)
    (inside : InRange config (config.priceToIndex entry.order.price))
    (newQuantity : Int) :
    ∃ priced memory,
      book.updatePriceLevel entry.order.isBuy entry.order.price
        (newQuantity - entry.order.quantity) = (.ok (), priced) ∧
      book.update entry.order.orderId newQuantity =
        (.ok (), { priced with memory := memory }) ∧
      Stored { priced with memory := memory }
        (live.map (Session.requantify entry.order.orderId newQuantity)) := by
  rcases updatePriceLevel_inside book entry.order.isBuy
      (newQuantity - entry.order.quantity) inside with ⟨priced, prices, memory, orderMap⟩
  have finds := stored.findOrder member
  have here := stored.memory entry member
  refine ⟨priced, Function.update book.memory entry.address
    { entry.order with quantity := newQuantity }, prices, ?_, ?_⟩
  · unfold OrderBook.update
    simp only [finds, here, prices, memory]
  · refine ⟨?_, ?_, ?_⟩
    · rw [List.map_map]
      have kept : live.map ((fun entry => entry.order.orderId) ∘
          Session.requantify entry.order.orderId newQuantity) =
            live.map fun entry => entry.order.orderId :=
        List.map_congr_left fun other _ => orderId_requantify _ _ other
      rw [kept]
      exact stored.ids
    · intro changed inList
      rcases List.mem_map.mp inList with ⟨other, also, rfl⟩
      unfold Session.requantify
      split
      · rename_i same
        rw [stored.unique also member same]
        exact Function.update_self _ _ _
      · rename_i different
        -- two live orders at one address would be the same order
        have apart : other.address ≠ entry.address := by
          intro same
          have orders := stored.memory other also
          rw [same, here] at orders
          exact different (congrArg Order.orderId orders).symm
        exact (Function.update_of_ne apart _ _).trans (stored.memory other also)
    · rw [placesOf_requantify]
      change FixedSizedChainingHashMap.Represents config.hash priced.orderMap _
      rw [orderMap]
      exact stored.orderMap

theorem Accounts.update (accounts : Accounts book live) (member : entry ∈ live)
    (inside : InRange config (config.priceToIndex entry.order.price))
    (newQuantity : Int) :
    ∃ priced memory,
      book.updatePriceLevel entry.order.isBuy entry.order.price
        (newQuantity - entry.order.quantity) = (.ok (), priced) ∧
      book.update entry.order.orderId newQuantity =
        (.ok (), { priced with memory := memory }) ∧
      Accounts { priced with memory := memory }
        (live.map (Session.requantify entry.order.orderId newQuantity)) := by
  rcases accounts.toStored.update member inside newQuantity with
    ⟨priced, memory, prices, updates, stored⟩
  have totals := accounts.toTotals.updatePriceLevel inside
    (moved_requantify accounts.ids member newQuantity) prices
  exact ⟨priced, memory, prices, updates, stored, ⟨totals.bid, totals.ask⟩⟩

theorem Stored.cancel (stored : Stored book live) (member : entry ∈ live)
    (inside : InRange config (config.priceToIndex entry.order.price)) :
    ∃ priced orderMap,
      book.updatePriceLevel entry.order.isBuy entry.order.price
        (-entry.order.quantity) = (.ok (), priced) ∧
      book.cancel false entry.order.orderId =
        (.ok (), { priced with orderMap := orderMap }) ∧
      Stored { priced with orderMap := orderMap }
        (live.filter fun other =>
          decide (other.order.orderId ≠ entry.order.orderId)) := by
  rcases updatePriceLevel_inside book entry.order.isBuy (-entry.order.quantity) inside with
    ⟨priced, prices, memory, orderMap⟩
  have finds := stored.findOrder member
  have here := stored.memory entry member
  rcases stored.orderMap.erase entry.order.orderId with ⟨erased, erases, represents⟩
  refine ⟨priced, erased, prices, ?_, ?_⟩
  · unfold OrderBook.cancel
    simp only [finds, here, prices, Bool.false_eq_true, if_false, orderMap, erases]
  · refine ⟨?_, ?_, ?_⟩
    · exact stored.ids.sublist (List.filter_sublist.map _)
    · intro other inList
      change priced.memory other.address = other.order
      rw [memory]
      exact stored.memory other (List.mem_filter.mp inList).1
    · rw [placesOf_filter]
      exact represents

theorem Accounts.cancel (accounts : Accounts book live) (member : entry ∈ live)
    (inside : InRange config (config.priceToIndex entry.order.price)) :
    ∃ priced orderMap,
      book.updatePriceLevel entry.order.isBuy entry.order.price
        (-entry.order.quantity) = (.ok (), priced) ∧
      book.cancel false entry.order.orderId =
        (.ok (), { priced with orderMap := orderMap }) ∧
      Accounts { priced with orderMap := orderMap }
        (live.filter fun other =>
          decide (other.order.orderId ≠ entry.order.orderId)) := by
  rcases accounts.toStored.cancel member inside with
    ⟨priced, orderMap, prices, cancels, stored⟩
  have totals := accounts.toTotals.updatePriceLevel inside
    (moved_filter accounts.ids member) prices
  exact ⟨priced, orderMap, prices, cancels, stored, ⟨totals.bid, totals.ask⟩⟩

theorem isSome_placesOf (session : Session config) (orderId : Word64) :
    (placesOf session.live orderId).isSome = decide (session.IsLive orderId) := by
  rw [placesOf, Option.isSome_map, Bool.eq_iff_iff, List.find?_isSome, decide_eq_true_iff]
  simp only [decide_eq_true_iff]
  exact Iff.rfl

theorem Stored.findOrder_missing (stored : Stored book live)
    (missing : ∀ entry ∈ live, entry.order.orderId ≠ orderId) :
    book.findOrder orderId = (.error .orderNotFound, book) := by
  have nowhere : placesOf live orderId = none := by
    rw [placesOf, Option.map_eq_none_iff, List.find?_eq_none]
    simpa using missing
  rw [OrderBook.findOrder, stored.orderMap.contains, nowhere]
  rfl

end Operations

section Sessions

variable {session next : Session config} {orderId : Word64}

theorem Accounts.filled (accounts : Accounts session.book session.live) {place : Nat}
    {order : Order Price} (fresh : session.Fresh place order) :
    Accounts (session.filled place order) session.live where
  ids := accounts.ids
  memory entry member :=
    (Function.update_of_ne (fresh entry member).2 _ _).trans (accounts.memory entry member)
  orderMap := accounts.orderMap
  bid := accounts.bid
  ask := accounts.ask

theorem Accounts.insert (accounts : Accounts session.book session.live) {place : Nat}
    {order : Order Price} (fresh : session.Fresh place order)
    (inside : InRange config (config.priceToIndex order.price)) :
    (session.book.orderMap.freeNodes = [] ∧
      (session.filled place order).insert false (.caller place) =
        (.error (.orderMap .noFreeNodes), session.filled place order)) ∨
    ∃ node orderMap after, session.book.orderMap.operatorIndex config.hash order.orderId =
        .ok (node, orderMap) ∧
      (session.filled place order).insert false (.caller place) = (.ok (), after) ∧
      Accounts after (⟨.caller place, order⟩ :: session.live) := by
  have kept := accounts.filled fresh
  have here : (session.filled place order).memory (.caller place) = order :=
    Function.update_self _ _ _
  rcases accounts.orderMap.assign order.orderId with
    ⟨_, none, fails⟩ | ⟨node, orderMap, assigned, represents⟩
  · refine .inl ⟨none, ?_⟩
    exact insertStored_fails (here.symm ▸ fails)
  · have assignedHere := assigned
    rw [← here] at inside assignedHere
    rcases insertStored_inside inside assignedHere with ⟨after, inserts, memory, stored⟩
    have totals := kept.toTotals.insertStored inside assignedHere inserts
    refine .inr ⟨node, orderMap, after, assigned, inserts, ?_⟩
    rw [here] at totals
    refine ⟨⟨?_, ?_, ?_⟩, totals⟩
    · rw [List.map_cons, List.nodup_cons]
      refine ⟨?_, accounts.ids⟩
      intro inList
      rcases List.mem_map.mp inList with ⟨entry, member, same⟩
      exact (fresh entry member).1 same
    · rw [memory]
      exact List.forall_mem_cons.mpr ⟨here, kept.memory⟩
    · rw [stored, placesOf_cons]
      exact represents (some (.caller place))

theorem Accounts.settle_update (accounts : Accounts session.book session.live)
    (inRange : ∀ price, InRange config (config.priceToIndex price))
    (orderId : Word64) (newQuantity : Int) :
    (session.book.update orderId newQuantity).1 =
        (if session.IsLive orderId then .ok () else .error .orderNotFound) ∧
      ∀ next, session.step (.update orderId newQuantity) = some next →
        Accounts next.book next.live := by
  by_cases isLive : session.IsLive orderId
  · rw [if_pos isLive]
    rcases isLive with ⟨entry, member, rfl⟩
    rcases accounts.update member (inRange entry.order.price) newQuantity with
      ⟨priced, memory, _, updates, kept⟩
    simp only [Session.step, updates, Session.settle, Option.some.injEq]
    exact ⟨trivial, fun next same => same ▸ kept⟩
  · rw [if_neg isLive]
    have missing : ∀ entry ∈ session.live, entry.order.orderId ≠ orderId :=
      fun entry member same => isLive ⟨entry, member, same⟩
    have updates : session.book.update orderId newQuantity =
        (.error .orderNotFound, session.book) := by
      rw [OrderBook.update, accounts.findOrder_missing missing]
    simp only [Session.step, updates, Session.settle, Option.some.injEq]
    exact ⟨trivial, fun next same => same ▸ accounts⟩

theorem Accounts.settle_cancel (accounts : Accounts session.book session.live)
    (inRange : ∀ price, InRange config (config.priceToIndex price)) (orderId : Word64) :
    (session.book.cancel false orderId).1 =
        (if session.IsLive orderId then .ok () else .error .orderNotFound) ∧
      ∀ next, session.step (.cancel orderId) = some next →
        Accounts next.book next.live := by
  by_cases isLive : session.IsLive orderId
  · rw [if_pos isLive]
    rcases isLive with ⟨entry, member, rfl⟩
    rcases accounts.cancel member (inRange entry.order.price) with
      ⟨priced, orderMap, _, cancels, kept⟩
    simp only [Session.step, cancels, Session.settle, Option.some.injEq]
    exact ⟨trivial, fun next same => same ▸ kept⟩
  · rw [if_neg isLive]
    have missing : ∀ entry ∈ session.live, entry.order.orderId ≠ orderId :=
      fun entry member same => isLive ⟨entry, member, same⟩
    have cancels : session.book.cancel false orderId =
        (.error .orderNotFound, session.book) := by
      rw [OrderBook.cancel, accounts.findOrder_missing missing]
    simp only [Session.step, cancels, Session.settle, Option.some.injEq]
    exact ⟨trivial, fun next same => same ▸ accounts⟩

theorem Accounts.step (accounts : Accounts session.book session.live)
    (inRange : ∀ price, InRange config (config.priceToIndex price)) {event : Event Price}
    (steps : session.step event = some next) : Accounts next.book next.live := by
  cases event with
  | insert place order =>
      by_cases fresh : session.Fresh place order
      · rw [Session.step, if_pos fresh] at steps
        rcases accounts.insert fresh (inRange order.price) with
          ⟨_, fails⟩ | ⟨_, _, after, _, inserts, kept⟩
        · rw [fails] at steps
          cases steps
          exact accounts.filled fresh
        · rw [inserts] at steps
          cases steps
          exact kept
      · rw [Session.step, if_neg fresh] at steps
        cases steps
  | update orderId newQuantity =>
      exact (accounts.settle_update inRange orderId newQuantity).2 next steps
  | cancel orderId => exact (accounts.settle_cancel inRange orderId).2 next steps

theorem accounts_of_reachable {memory : Address → Order Price}
    (inRange : ∀ price, InRange config (config.priceToIndex price))
    (reachable : (Session.system config memory).Reachable session) :
    Accounts session.book session.live := by
  apply reachable.invariant fun session => Accounts session.book session.live
  · intro state start
    cases start
    exact Accounts.construct config memory
  · intro current event next accounts steps
    exact accounts.step inRange steps

theorem Accounts.cancelAll (accounts : Accounts session.book session.live)
    (inRange : ∀ price, InRange config (config.priceToIndex price))
    {orderIds : List Word64}
    (all : orderIds.Perm (session.live.map fun entry => entry.order.orderId)) :
    ∃ last, TransitionSystem.execute Session.step session (orderIds.map .cancel) =
      some last ∧ last.live = [] ∧ Accounts last.book last.live := by
  induction orderIds generalizing session with
  | nil =>
      refine ⟨session, rfl, ?_, accounts⟩
      exact List.map_eq_nil_iff.mp all.nil_eq.symm
  | cons orderId orderIds induction =>
      rcases List.mem_map.mp (all.mem_iff.mp List.mem_cons_self) with ⟨entry, member, rfl⟩
      rcases accounts.cancel member (inRange entry.order.price) with
        ⟨priced, orderMap, _, cancels, kept⟩
      have rest := all.trans ((perm_filter accounts.ids member).map _)
      rcases @induction ⟨_, _⟩ kept rest.cons_inv with ⟨last, executes, empty, emptied⟩
      refine ⟨last, ?_, empty, emptied⟩
      rw [TransitionSystem.execute, List.map_cons, List.foldlM_cons, Session.step, cancels]
      exact executes

end Sessions

/-! ## Consistency -/

/-- The levels, the order map and the results of the calls follow from the live
orders. -/
structure Session.Consistent (session : Session config) : Prop where
  bidLevels : ∀ index, session.book.bidLevels index = total config true session.live index
  askLevels : ∀ index, session.book.askLevels index = total config false session.live index
  contains : ∀ orderId, session.book.orderMap.contains config.hash orderId =
    .ok (decide (session.IsLive orderId))
  mapped : ∀ entry ∈ session.live, ∃ node,
    session.book.orderMap.operatorIndex config.hash entry.order.orderId =
      .ok (node, session.book.orderMap) ∧
    session.book.orderMap.valueAt node = some entry.address ∧
    session.book.memory entry.address = entry.order
  inserts : ∀ place order, session.Fresh place order →
    session.book.orderMap.freeNodes ≠ [] →
    ((session.filled place order).insert false (.caller place)).1 = .ok ()
  updates : ∀ orderId newQuantity, (session.book.update orderId newQuantity).1 =
    if session.IsLive orderId then .ok () else .error .orderNotFound
  cancels : ∀ orderId, (session.book.cancel false orderId).1 =
    if session.IsLive orderId then .ok () else .error .orderNotFound
  cancelAll : ∀ orderIds : List Word64,
    orderIds.Perm (session.live.map fun entry => entry.order.orderId) →
    ∃ last, TransitionSystem.execute Session.step session (orderIds.map .cancel) =
      some last ∧ last.live = [] ∧
        ∀ index, last.book.bidLevels index = 0 ∧ last.book.askLevels index = 0

/-- In every history of insertions under ids that are not live, updates and
cancellations, the levels hold the sums of the live orders and the order map leads
from exactly the live ids to their orders. -/
theorem consistent_of_reachable {memory : Address → Order Price}
    (inRange : ∀ price, InRange config (config.priceToIndex price))
    {session : Session config}
    (reachable : (Session.system config memory).Reachable session) :
    session.Consistent := by
  have accounts := accounts_of_reachable inRange reachable
  constructor
  · exact congrFun accounts.bid
  · exact congrFun accounts.ask
  · intro orderId
    rw [accounts.orderMap.contains]
    congr 1
    exact isSome_placesOf session orderId
  · intro entry member
    rcases accounts.orderMap.read (placesOf_of_mem accounts.ids member) with
      ⟨node, returns, value⟩
    exact ⟨node, returns, value, accounts.memory entry member⟩
  · intro place order fresh free
    rcases accounts.insert fresh (inRange order.price) with
      ⟨none, _⟩ | ⟨_, _, _, _, inserts, _⟩
    · exact absurd none free
    · rw [inserts]
  · intro orderId newQuantity
    exact (accounts.settle_update inRange orderId newQuantity).1
  · intro orderId
    exact (accounts.settle_cancel inRange orderId).1
  · intro orderIds all
    rcases accounts.cancelAll inRange all with ⟨last, executes, empty, emptied⟩
    refine ⟨last, executes, empty, fun index => ?_⟩
    rw [emptied.bid, emptied.ask, empty]
    exact ⟨rfl, rfl⟩

def eightLevels : Config Nat where
  maxPriceLevels := 8
  poolSize := 4
  initBuckets := ⟨1, PowerOfTwo.one_nonzero, PowerOfTwo.one_disjoint⟩
  hash key := key
  priceToIndex price := (price % 8 : Nat)
  indexToPrice index := index.toNat

theorem eightLevels_inRange (price : Nat) :
    InRange eightLevels (eightLevels.priceToIndex price) := by
  change (0 : Int) ≤ (price % 8 : Nat) ∧ ((price % 8 : Nat) : Int) < (8 : Nat)
  omega

/-- An id comes back after its order was cancelled, with no quantity. -/
theorem consistent_of_reachable_reused :
    ∃ session, (Session.system eightLevels fun _ => ⟨0, 0, 0, false⟩).Reachable session ∧
      session.live.length = 2 ∧ session.Consistent := by
  rcases TransitionSystem.exists_reachable_of_execute
    (Session.initial eightLevels fun _ => ⟨0, 0, 0, false⟩) Session.step
    [.insert 0 ⟨1, 3, 5, true⟩, .insert 1 ⟨2, 11, -2, true⟩, .update 1 4, .cancel 1,
      .cancel 7, .insert 0 ⟨1, 6, 0, false⟩] (fun session => session.live.length = 2)
    (by decide) with ⟨session, reachable, two⟩
  exact ⟨session, reachable, two, consistent_of_reachable eightLevels_inRange reachable⟩

end FeederNet.OrderBook
