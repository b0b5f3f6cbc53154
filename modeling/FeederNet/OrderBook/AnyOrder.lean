import FeederNet.OrderBook.LiveOrders

/-! # Any order

A client that inserts orders under ids that are live already, and at any price. An order
that takes over an id replaces the live order of that id. A call that reaches outside the
level arrays or `freeMsgPtrs_` ends the run, as what follows is undefined.
-/

namespace FeederNet.OrderBook

open HashMap

variable {Price : Type} {config : Config Price}

def Event.orderId : Event Price → Word64
  | .insert _ order => order.orderId
  | .update orderId _ | .cancel orderId => orderId

/-- `outside` says that a call has reached outside an array. -/
structure Market (config : Config Price) where
  book : OrderBook config
  live : List (LiveOrder Price)
  outside : Bool

namespace Market

def initial (config : Config Price) (memory : Address → Order Price) : Market config where
  book := construct config memory
  live := []
  outside := false

def session (market : Market config) : Session config :=
  ⟨market.book, market.live⟩

def Vacant (market : Market config) (place : Nat) (orderId : Word64) : Prop :=
  ∀ entry ∈ market.live, entry.address = .caller place → entry.order.orderId = orderId

instance (market : Market config) (place : Nat) (orderId : Word64) :
    Decidable (market.Vacant place orderId) :=
  inferInstanceAs (Decidable (∀ entry ∈ market.live, _ → _))

def slot (requireStorage : Bool) (market : Market config) (place : Nat) : Address :=
  if requireStorage then market.book.freeMsgPtrs.headD (.caller place) else .caller place

def without (market : Market config) (orderId : Word64) : List (LiveOrder Price) :=
  market.live.filter fun entry => decide (entry.order.orderId ≠ orderId)

/-- A call that throws leaves the live orders as they are. -/
def settle (market : Market config) (changed : List (LiveOrder Price)) :
    Except Fault Unit × OrderBook config → Market config
  | (.ok (), book) => ⟨book, changed, false⟩
  | (.error fault, book) => ⟨book, market.live, decide (fault = .outOfRange)⟩

def call (requireStorage : Bool) (market : Market config) :
    Event Price → Except Fault Unit × OrderBook config
  | .insert place order =>
      (market.session.filled place order).insert requireStorage (.caller place)
  | .update orderId newQuantity => market.book.update orderId newQuantity
  | .cancel orderId => market.book.cancel requireStorage orderId

def succeeded (requireStorage : Bool) (market : Market config) :
    Event Price → List (LiveOrder Price)
  | .insert place order =>
      ⟨market.slot requireStorage place, order⟩ :: market.without order.orderId
  | .update orderId newQuantity =>
      market.live.map (Session.requantify orderId newQuantity)
  | .cancel orderId => market.without orderId

/-- A client fills a place only if it leaves the live orders of other ids alone. -/
def Allowed (market : Market config) : Event Price → Prop
  | .insert place order => market.Vacant place order.orderId
  | _ => True

instance (market : Market config) : DecidablePred market.Allowed
  | .insert place order => inferInstanceAs (Decidable (market.Vacant place order.orderId))
  | .update _ _ => .isTrue trivial
  | .cancel _ => .isTrue trivial

def step (requireStorage : Bool) (market : Market config) (event : Event Price) :
    Option (Market config) :=
  if market.outside = false ∧ market.Allowed event then
    some (market.settle (market.succeeded requireStorage event)
      (market.call requireStorage event))
  else none

@[reducible] def system (requireStorage : Bool) (config : Config Price)
    (memory : Address → Order Price) : TransitionSystem (Market config) (Event Price) :=
  .ofStep (initial config memory) (step requireStorage)

/-- `insert` throws before it has changed anything. -/
def Throws (requireStorage : Bool) (market : Market config) (order : Order Price) : Prop :=
  if requireStorage then config.poolSize ≤ market.book.orderCount
  else market.book.orderMap.freeNodes = [] ∧ ¬ market.session.IsLive order.orderId

instance (requireStorage : Bool) (market : Market config) (order : Order Price) :
    Decidable (market.Throws requireStorage order) :=
  inferInstanceAs (Decidable (if requireStorage then _ else _))

/-- What holds between two calls as long as none has reached outside. No order ever gets
into an `OrderBook<true>`. -/
structure Valid (requireStorage : Bool) (market : Market config) : Prop where
  stored : Stored market.book market.live
  inRange : ∀ entry ∈ market.live,
    InRange config (config.priceToIndex entry.order.price)
  unused : requireStorage = true → market.book.freeMsgPtrs = [] ∧ market.live = []

section Calls

variable {requireStorage : Bool} {market next : Market config} {place : Nat}
  {order : Order Price} {event : Event Price}

theorem valid_initial (config : Config Price) (memory : Address → Order Price) :
    Valid requireStorage (initial config memory) where
  stored := (Accounts.construct config memory).toStored
  inRange := nofun
  unused _ := ⟨rfl, rfl⟩

/-! ### insert -/

inductive Inserted (market : Market config) (place : Nat) (order : Order Price) :
    Except Fault Unit × OrderBook config → Prop
  | refused (throws : market.Throws false order) :
      Inserted market place order
        (.error (.orderMap .noFreeNodes), market.session.filled place order)
  | outside (proceeds : ¬ market.Throws false order)
      (beyond : ¬ InRange config (config.priceToIndex order.price))
      (book : OrderBook config) :
      Inserted market place order (.error .outOfRange, book)
  | placed (proceeds : ¬ market.Throws false order)
      (inside : InRange config (config.priceToIndex order.price))
      (after : OrderBook config)
      (stored : Stored after
        (⟨.caller place, order⟩ :: market.without order.orderId))
      (totals : ∀ live, Totals market.book live →
        Totals after (⟨.caller place, order⟩ :: live)) :
      Inserted market place order (.ok (), after)

/-- The live orders but for one id stay where they are when the caller fills a place. -/
theorem Valid.memory_filled (valid : Valid requireStorage market)
    (vacant : market.Vacant place order.orderId) :
    ∀ entry ∈ market.without order.orderId,
      (market.session.filled place order).memory entry.address = entry.order := by
  intro entry member
  rcases List.mem_filter.mp member with ⟨live, other⟩
  have elsewhere : entry.address ≠ .caller place := fun same =>
    of_decide_eq_true other (vacant entry live same)
  exact (Function.update_of_ne elsewhere _ _).trans (valid.stored.memory entry live)

theorem placesOf_eq_none_iff (market : Market config) (orderId : Word64) :
    placesOf market.live orderId = none ↔ ¬ market.session.IsLive orderId := by
  have present := isSome_placesOf market.session orderId
  change (placesOf market.live orderId).isSome = _ at present
  rw [← Option.not_isSome_iff_eq_none, present, decide_eq_true_iff]

theorem Valid.inserted (valid : Valid false market)
    (vacant : market.Vacant place order.orderId) :
    Inserted market place order (market.call false (.insert place order)) := by
  have here : (market.session.filled place order).memory (.caller place) = order :=
    Function.update_self _ _ _
  change Inserted market place order ((market.session.filled place order).insertStored _ _)
  by_cases throws : market.Throws false order
  · have missing := (placesOf_eq_none_iff market order.orderId).mpr throws.2
    have fails := valid.stored.orderMap.operatorIndex_full missing throws.1
    rw [insertStored_fails (here.symm ▸ fails)]
    exact .refused throws
  · rcases valid.stored.orderMap.assign order.orderId with
      ⟨missing, full, _⟩ | ⟨node, next, assigned, represents⟩
    · exact absurd ⟨full, (placesOf_eq_none_iff market order.orderId).mp missing⟩ throws
    · have assignedHere := assigned
      rw [← here] at assignedHere
      by_cases inside : InRange config (config.priceToIndex order.price)
      · have insideHere := inside
        rw [← here] at insideHere
        rcases insertStored_inside insideHere assignedHere with
          ⟨after, inserts, memory, stored⟩
        rw [inserts]
        refine .placed throws inside after ⟨?_, ?_, ?_⟩ ?_
        · rw [List.map_cons, List.nodup_cons]
          refine ⟨?_, valid.stored.ids.sublist (List.filter_sublist.map _)⟩
          intro inList
          rcases List.mem_map.mp inList with ⟨entry, member, same⟩
          exact of_decide_eq_true (List.mem_filter.mp member).2 same
        · rw [memory]
          exact List.forall_mem_cons.mpr ⟨here, valid.memory_filled vacant⟩
        · rw [stored, placesOf_cons, without, placesOf_filter, Function.update_idem]
          exact represents (some (.caller place))
        · intro live totals
          have filled : Totals (market.session.filled place order) live :=
            ⟨totals.bid, totals.ask⟩
          have moved := filled.insertStored insideHere assignedHere inserts
          rwa [here] at moved
      · rw [← here] at inside
        rcases insertStored_outside inside assignedHere with ⟨book, reaches⟩
        rw [reaches]
        exact .outside throws (here ▸ inside) book

/-- The first order for an `OrderBook<true>` finds `freeMsgPtrs_` empty. -/
theorem Valid.insert_own (valid : Valid true market) (place : Nat) (order : Order Price) :
    (market.Throws true order ∧ market.call true (.insert place order) =
        (.error .orderPoolFull, market.session.filled place order)) ∨
      (¬ market.Throws true order ∧ ∃ book,
        market.call true (.insert place order) = (.error .outOfRange, book)) := by
  have empty : (market.session.filled place order).freeMsgPtrs = [] :=
    (valid.unused rfl).1
  rw [call, OrderBook.insert, if_pos rfl]
  by_cases full : (market.session.filled place order).orderCount ≥ config.poolSize
  · exact .inl ⟨full, if_pos full⟩
  · refine .inr ⟨full, ?_⟩
    rw [if_neg full]
    simp only [empty]
    exact ⟨_, rfl⟩

/-! ### update and cancel -/

inductive Changed (requireStorage : Bool) (market : Market config) (event : Event Price) :
    Except Fault Unit × OrderBook config → Prop
  | refused (missing : ¬ market.session.IsLive event.orderId) :
      Changed requireStorage market event (.error .orderNotFound, market.book)
  | changed (present : market.session.IsLive event.orderId) (after : OrderBook config)
      (stored : Stored after (market.succeeded requireStorage event))
      (totals : Totals market.book market.live →
        Totals after (market.succeeded requireStorage event)) :
      Changed requireStorage market event (.ok (), after)

theorem Valid.updated (valid : Valid requireStorage market) (orderId : Word64)
    (newQuantity : Int) :
    Changed requireStorage market (.update orderId newQuantity)
      (market.call requireStorage (.update orderId newQuantity)) := by
  by_cases isLive : market.session.IsLive orderId
  · rcases isLive with ⟨entry, member, rfl⟩
    rcases valid.stored.update member (valid.inRange entry member) newQuantity with
      ⟨priced, memory, prices, updates, stored⟩
    rw [call, updates]
    refine .changed ⟨entry, member, rfl⟩ _ stored fun totals => ?_
    have kept := totals.updatePriceLevel (valid.inRange entry member)
      (moved_requantify valid.stored.ids member newQuantity) prices
    exact ⟨kept.bid, kept.ask⟩
  · have missing : ∀ entry ∈ market.live, entry.order.orderId ≠ orderId :=
      fun entry member same => isLive ⟨entry, member, same⟩
    rw [call, OrderBook.update, valid.stored.findOrder_missing missing]
    exact .refused isLive

theorem Valid.cancelled (valid : Valid requireStorage market) (orderId : Word64) :
    Changed requireStorage market (.cancel orderId)
      (market.call requireStorage (.cancel orderId)) := by
  by_cases isLive : market.session.IsLive orderId
  · rcases isLive with ⟨entry, member, rfl⟩
    cases requireStorage with
    | true =>
        have live : market.live = [] := (valid.unused rfl).2
        rw [session, live] at member
        cases member
    | false =>
        rcases valid.stored.cancel member (valid.inRange entry member) with
          ⟨priced, orderMap, prices, cancels, stored⟩
        rw [call, cancels]
        refine .changed ⟨entry, member, rfl⟩ _ stored fun totals => ?_
        have kept := totals.updatePriceLevel (valid.inRange entry member)
          (moved_filter valid.stored.ids member) prices
        exact ⟨kept.bid, kept.ask⟩
  · have missing : ∀ entry ∈ market.live, entry.order.orderId ≠ orderId :=
      fun entry member same => isLive ⟨entry, member, same⟩
    simp only [call, OrderBook.cancel, valid.stored.findOrder_missing missing]
    exact .refused isLive

/-! ### One step -/

theorem step_eq_some (stepped : market.step requireStorage event = some next) :
    market.outside = false ∧ market.Allowed event ∧
      next = market.settle (market.succeeded requireStorage event)
        (market.call requireStorage event) := by
  simp only [step, Option.ite_none_right_eq_some, Option.some.injEq] at stepped
  exact ⟨stepped.1.1, stepped.1.2, stepped.2.symm⟩

theorem Valid.changed (valid : Valid requireStorage market)
    {result : Except Fault Unit × OrderBook config}
    (changed : Changed requireStorage market event result)
    (inRange : ∀ entry ∈ market.succeeded requireStorage event,
      InRange config (config.priceToIndex entry.order.price))
    (settled : next = market.settle (market.succeeded requireStorage event) result) :
    next.outside = false ∧ Valid requireStorage next ∧
      (Totals market.book market.live → Totals next.book next.live) := by
  subst settled
  cases changed with
  | refused missing => exact ⟨rfl, ⟨valid.stored, valid.inRange, valid.unused⟩, id⟩
  | changed present after stored totals =>
      refine ⟨rfl, ⟨stored, inRange, ?_⟩, totals⟩
      intro own
      have empty : market.session.live = [] := (valid.unused own).2
      rcases present with ⟨entry, member, _⟩
      rw [empty] at member
      cases member

theorem Valid.inRange_without (valid : Valid requireStorage market) (orderId : Word64) :
    ∀ entry ∈ market.without orderId,
      InRange config (config.priceToIndex entry.order.price) :=
  fun entry member => valid.inRange entry (List.mem_filter.mp member).1

/-- Prices stay in the book when they come in only by insertions. -/
theorem Valid.inRange_succeeded (valid : Valid requireStorage market)
    (entering : ∀ place order, event = .insert place order →
      InRange config (config.priceToIndex order.price)) :
    ∀ entry ∈ market.succeeded requireStorage event,
      InRange config (config.priceToIndex entry.order.price) := by
  cases event with
  | insert place order =>
      exact List.forall_mem_cons.mpr
        ⟨entering place order rfl, valid.inRange_without order.orderId⟩
  | cancel orderId => exact valid.inRange_without orderId
  | update orderId newQuantity =>
      intro changed inList
      rcases List.mem_map.mp inList with ⟨entry, member, rfl⟩
      unfold Session.requantify
      split
      · exact valid.inRange entry member
      · exact valid.inRange entry member

theorem total_without_iff (stored : Stored market.book market.live) (orderId : Word64) :
    (∀ isBuy, total config isBuy (market.without orderId) =
        total config isBuy market.live) ↔
      ∀ entry ∈ market.live, entry.order.orderId = orderId → entry.order.quantity = 0 := by
  constructor
  · rintro same entry member rfl
    have moved : Moved config entry _ _ _ := moved_filter stored.ids member
    have moved := moved entry.order.isBuy (config.priceToIndex entry.order.price)
    have kept := congrFun (same entry.order.isBuy)
      (config.priceToIndex entry.order.price)
    rw [without] at kept
    rw [kept, if_pos ⟨rfl, rfl⟩] at moved
    omega
  · intro zero isBuy
    by_cases isLive : market.session.IsLive orderId
    · rcases isLive with ⟨entry, member, rfl⟩
      funext index
      rw [without, moved_filter stored.ids member, zero entry member rfl]
      simp
    · rw [without, List.filter_eq_self.mpr]
      intro entry member
      exact decide_eq_true fun same => isLive ⟨entry, member, same⟩

/-- Every insertion of the run throws, or finds its level in the book and nothing that
counts under its id. -/
def Keeps (requireStorage : Bool) (market : Market config) : Event Price → Prop
  | .insert _ order => ¬ market.Throws requireStorage order →
      (requireStorage = true → market.book.freeMsgPtrs ≠ []) ∧
        InRange config (config.priceToIndex order.price) ∧
        ∀ entry ∈ market.live, entry.order.orderId = order.orderId →
          entry.order.quantity = 0
  | _ => True

/-- The order of an id is replaced without a trace exactly if it has no quantity. -/
theorem Totals.replaced_iff {after : OrderBook config} {entry : LiveOrder Price}
    (stored : Stored market.book market.live) (orderId : Word64)
    (totals : Totals after (entry :: market.live)) :
    Totals after (entry :: market.without orderId) ↔
      ∀ entry ∈ market.live, entry.order.orderId = orderId →
        entry.order.quantity = 0 := by
  rw [← total_without_iff stored]
  constructor
  · intro replaced isBuy
    funext index
    have same : total config isBuy (entry :: market.without orderId) index =
        total config isBuy (entry :: market.live) index := by
      cases isBuy with
      | true => rw [← replaced.bid, totals.bid]
      | false => rw [← replaced.ask, totals.ask]
    rw [total_cons, total_cons] at same
    omega
  · intro same
    have grown : ∀ isBuy, total config isBuy (entry :: market.live) =
        total config isBuy (entry :: market.without orderId) := by
      intro isBuy
      funext index
      rw [total_cons, total_cons, same]
    exact ⟨totals.bid.trans (grown true), totals.ask.trans (grown false)⟩

/-- As long as nothing reaches outside, ids lead to their orders. The totals survive
exactly the steps that keep them. -/
theorem Valid.step (valid : Valid requireStorage market)
    (stepped : market.step requireStorage event = some next) :
    (next.outside = false → Valid requireStorage next) ∧
      (Totals market.book market.live →
        (next.outside = false ∧ Totals next.book next.live ↔
          market.Keeps requireStorage event)) := by
  rcases step_eq_some stepped with ⟨_, allowed, settled⟩
  cases event with
  | update orderId newQuantity =>
      have kept := valid.changed (valid.updated orderId newQuantity)
        (valid.inRange_succeeded nofun) settled
      exact ⟨fun _ => kept.2.1, fun totals => iff_of_true ⟨kept.1, kept.2.2 totals⟩ trivial⟩
  | cancel orderId =>
      have kept := valid.changed (valid.cancelled orderId)
        (valid.inRange_succeeded nofun) settled
      exact ⟨fun _ => kept.2.1, fun totals => iff_of_true ⟨kept.1, kept.2.2 totals⟩ trivial⟩
  | insert place order =>
      cases requireStorage with
      | true =>
          rcases valid.insert_own place order with
            ⟨throws, fails⟩ | ⟨proceeds, book, fails⟩
          · rw [fails] at settled
            subst settled
            have live : market.live = [] := (valid.unused rfl).2
            have filled : Stored (market.session.filled place order) market.live := by
              have stored := valid.stored
              rw [live] at stored ⊢
              exact ⟨stored.ids, List.forall_mem_nil _, stored.orderMap⟩
            refine ⟨fun _ => ⟨filled, valid.inRange, valid.unused⟩, fun totals => ?_⟩
            exact iff_of_true ⟨rfl, totals.bid, totals.ask⟩ (absurd throws)
          · rw [fails] at settled
            subst settled
            refine ⟨nofun, fun _ => iff_of_false (fun kept => nomatch kept.1) ?_⟩
            intro keeps
            exact (keeps proceeds).1 rfl (valid.unused rfl).1
      | false =>
          have inserted := valid.inserted allowed
          generalize market.call false (.insert place order) = result at inserted settled
          subst settled
          cases inserted with
          | refused throws =>
              have elsewhere : market.without order.orderId = market.live := by
                rw [without, List.filter_eq_self]
                intro entry member
                exact decide_eq_true fun same => throws.2 ⟨entry, member, same⟩
              have memory := valid.memory_filled allowed
              rw [elsewhere] at memory
              refine ⟨fun _ => ⟨⟨valid.stored.ids, memory, valid.stored.orderMap⟩,
                valid.inRange, nofun⟩, fun totals => ?_⟩
              exact iff_of_true ⟨rfl, totals.bid, totals.ask⟩ (absurd throws)
          | outside proceeds beyond book =>
              refine ⟨nofun, fun _ => iff_of_false (fun kept => nomatch kept.1) ?_⟩
              intro keeps
              exact beyond (keeps proceeds).2.1
          | placed proceeds inside after stored totals =>
              have ranged : ∀ entry ∈ market.succeeded false (.insert place order),
                  InRange config (config.priceToIndex entry.order.price) := by
                apply valid.inRange_succeeded
                rintro _ _ ⟨⟩
                exact inside
              refine ⟨fun _ => ⟨stored, ranged, nofun⟩, fun before => ?_⟩
              have replaced := Totals.replaced_iff valid.stored order.orderId
                (totals market.live before)
              constructor
              · intro kept _
                exact ⟨nofun, inside, replaced.mp kept.2⟩
              · intro keeps
                exact ⟨rfl, replaced.mpr (keeps proceeds).2.2⟩

/-! ### Runs -/

theorem valid_of_run {memory : Address → Order Price}
    {past : List (Market config × Event Price)} {final : Market config}
    (run : (system requireStorage config memory).Run past final) :
    (∀ entry ∈ past, entry.1.outside = false → Valid requireStorage entry.1) ∧
      (final.outside = false → Valid requireStorage final) := by
  apply run.invariant fun market => market.outside = false → Valid requireStorage market
  · intro state start
    cases start
    exact fun _ => valid_initial config memory
  · intro current event next valid stepped
    exact ((valid (step_eq_some stepped).1).step stepped).1

theorem Valid.cancel_live (valid : Valid requireStorage market)
    (totals : Totals market.book market.live) (inside : market.outside = false)
    {entry : LiveOrder Price} (member : entry ∈ market.live) :
    ∃ next, market.step requireStorage (.cancel entry.order.orderId) = some next ∧
      next.live = market.without entry.order.orderId ∧ next.outside = false ∧
        Valid requireStorage next ∧ Totals next.book next.live := by
  let next := market.settle (market.without entry.order.orderId)
    (market.call requireStorage (.cancel entry.order.orderId))
  have stepped : market.step requireStorage (.cancel entry.order.orderId) = some next :=
    if_pos ⟨inside, trivial⟩
  have changed := valid.cancelled entry.order.orderId
  have kept := valid.changed changed (valid.inRange_succeeded nofun)
    (step_eq_some stepped).2.2
  refine ⟨next, stepped, ?_, kept.1, kept.2.1, kept.2.2 totals⟩
  change (market.settle _ _).live = _
  generalize market.call requireStorage (.cancel entry.order.orderId) = result at changed
  cases changed with
  | refused missing => exact absurd ⟨entry, member, rfl⟩ missing
  | changed present after stored totals => rfl

theorem Valid.cancelAll (valid : Valid requireStorage market)
    (totals : Totals market.book market.live) (inside : market.outside = false)
    {orderIds : List Word64}
    (all : orderIds.Perm (market.live.map fun entry => entry.order.orderId)) :
    ∃ last, TransitionSystem.execute (Market.step requireStorage) market
        (orderIds.map Event.cancel) = some last ∧
      last.live = [] ∧ last.outside = false ∧ Totals last.book last.live := by
  induction orderIds generalizing market with
  | nil =>
      refine ⟨market, rfl, ?_, inside, totals⟩
      exact List.map_eq_nil_iff.mp all.nil_eq.symm
  | cons orderId orderIds induction =>
      rcases List.mem_map.mp (all.mem_iff.mp List.mem_cons_self) with ⟨entry, member, rfl⟩
      rcases valid.cancel_live totals inside member with
        ⟨next, stepped, live, inside, valid, totals⟩
      have rest := all.trans ((perm_filter ‹Valid _ market›.stored.ids member).map _)
      rw [List.map_cons, ← without, ← live] at rest
      rcases induction valid totals inside rest.cons_inv with ⟨last, executes, emptied⟩
      refine ⟨last, ?_, emptied⟩
      rw [TransitionSystem.execute, List.map_cons, List.foldlM_cons, stepped]
      exact executes

end Calls

/-! ## Ids that are used again -/

/-- The levels are the sums of the live orders, exactly the live ids lead to their orders,
and cancelling all live orders empties every level. -/
structure Sound (requireStorage : Bool) (market : Market config) : Prop where
  inside : market.outside = false
  bidLevels : ∀ index, market.book.bidLevels index = total config true market.live index
  askLevels : ∀ index, market.book.askLevels index = total config false market.live index
  contains : ∀ orderId, market.book.orderMap.contains config.hash orderId =
    .ok (decide (market.session.IsLive orderId))
  found : ∀ entry ∈ market.live,
    market.book.findOrder entry.order.orderId = (.ok entry.address, market.book) ∧
      market.book.memory entry.address = entry.order
  cancelAll : ∀ orderIds : List Word64,
    orderIds.Perm (market.live.map fun entry => entry.order.orderId) →
    ∃ last, TransitionSystem.execute (step requireStorage) market
        (orderIds.map Event.cancel) = some last ∧
      last.live = [] ∧ last.outside = false ∧
        ∀ index, last.book.bidLevels index = 0 ∧ last.book.askLevels index = 0

/-- `insert` throws and leaves the book as the caller handed it over, or the id leads to
the new order. -/
def Takes (requireStorage : Bool) (market : Market config) : Event Price → Prop
  | .insert place order =>
      (∃ fault, fault ≠ .outOfRange ∧ market.call requireStorage (.insert place order) =
        (.error fault, market.session.filled place order)) ∨
      ∃ after, market.call requireStorage (.insert place order) = (.ok (), after) ∧
        after.findOrder order.orderId =
          (.ok (market.slot requireStorage place), after) ∧
        after.memory (market.slot requireStorage place) = order
  | _ => True

/-- Every state of a run is sound, and every insertion is refused or takes its id. -/
structure Uncorrupted (requireStorage : Bool) (past : List (Market config × Event Price))
    (final : Market config) : Prop where
  before : ∀ entry ∈ past, Sound requireStorage entry.1
  final : Sound requireStorage final
  takes : ∀ entry ∈ past, entry.1.Takes requireStorage entry.2

section Runs

variable {requireStorage : Bool} {market next : Market config} {event : Event Price}

theorem Valid.sound_iff (valid : market.outside = false → Valid requireStorage market) :
    market.Sound requireStorage ↔
      market.outside = false ∧ Totals market.book market.live := by
  constructor
  · intro sound
    exact ⟨sound.inside, funext sound.bidLevels, funext sound.askLevels⟩
  · rintro ⟨inside, totals⟩
    have valid := valid inside
    constructor
    · exact inside
    · exact congrFun totals.bid
    · exact congrFun totals.ask
    · intro orderId
      rw [valid.stored.orderMap.contains]
      congr 1
      exact isSome_placesOf market.session orderId
    · intro entry member
      exact ⟨valid.stored.findOrder member, valid.stored.memory entry member⟩
    · intro orderIds all
      rcases valid.cancelAll totals inside all with
        ⟨last, executes, empty, stays, emptied⟩
      refine ⟨last, executes, empty, stays, fun index => ?_⟩
      rw [emptied.bid, emptied.ask, empty]
      exact ⟨rfl, rfl⟩

theorem Valid.takes (valid : Valid requireStorage market)
    (stepped : market.step requireStorage event = some next)
    (keeps : market.Keeps requireStorage event) : market.Takes requireStorage event := by
  cases event with
  | update orderId newQuantity => trivial
  | cancel orderId => trivial
  | insert place order =>
      cases requireStorage with
      | true =>
          rcases valid.insert_own place order with ⟨_, fails⟩ | ⟨proceeds, _⟩
          · exact .inl ⟨.orderPoolFull, nofun, fails⟩
          · exact absurd (valid.unused rfl).1 ((keeps proceeds).1 rfl)
      | false =>
          have inserted := valid.inserted (step_eq_some stepped).2.1
          change (∃ _, _) ∨ _
          generalize market.call false (.insert place order) = result at inserted ⊢
          cases inserted with
          | refused throws => exact .inl ⟨.orderMap .noFreeNodes, nofun, rfl⟩
          | outside proceeds beyond book => exact absurd (keeps proceeds).2.1 beyond
          | placed proceeds inside after stored totals =>
              exact .inr ⟨after, rfl, stored.findOrder List.mem_cons_self,
                stored.memory _ List.mem_cons_self⟩

/-- Reusing live ids leaves a book sound exactly as long as every order that gets in finds
its level in the book and only takes over ids of orders with no quantity. -/
theorem uncorrupted_iff {memory : Address → Order Price}
    {past : List (Market config × Event Price)} {final : Market config}
    (run : (system requireStorage config memory).Run past final) :
    Uncorrupted requireStorage past final ↔
      ∀ entry ∈ past, entry.1.Keeps requireStorage entry.2 := by
  have sound : ((∀ entry ∈ past, Sound requireStorage entry.1) ∧
      Sound requireStorage final) ↔
        ∀ entry ∈ past, entry.1.Keeps requireStorage entry.2 := by
    apply run.forall_iff
      (fun market => market.outside = false → Valid requireStorage market)
    · intro state start
      cases start
      have valid : Valid requireStorage (initial config memory) :=
        valid_initial config memory
      exact ⟨fun _ => valid, (Valid.sound_iff fun _ => valid).mpr ⟨rfl, rfl, rfl⟩⟩
    · intro current event next valid stepped
      exact ((valid (step_eq_some stepped).1).step stepped).1
    · intro current event next valid sound stepped
      have steps := (valid (step_eq_some stepped).1).step stepped
      rw [Valid.sound_iff steps.1]
      exact steps.2 ((Valid.sound_iff valid).mp sound).2
  constructor
  · intro uncorrupted
    exact sound.mp ⟨uncorrupted.before, uncorrupted.final⟩
  · intro keeps
    have throughout := sound.mpr keeps
    refine ⟨throughout.1, throughout.2, fun entry member => ?_⟩
    rcases run.exists_step member with ⟨next, stepped⟩
    exact ((valid_of_run run).1 entry member (throughout.1 entry member).inside).takes
      stepped (keeps entry member)

end Runs

/-- The order of id 1 moves from level 3 to level 6. Its five shares stay at level 3 when
no order is left. -/
theorem replaced_order_remains :
    ∃ past final, (system false eightLevels fun _ => ⟨0, 0, 0, false⟩).Run past final ∧
      past.map Prod.snd = [.cancel 1, .insert 1 ⟨1, 6, 2, true⟩, .insert 0 ⟨1, 3, 5, true⟩] ∧
      (final.live = [] ∧ final.book.bidLevels 3 = 5) ∧ ¬ Uncorrupted false past final := by
  rcases TransitionSystem.exists_run_of_events
    (initial eightLevels fun _ => ⟨0, 0, 0, false⟩) (step false)
    [.insert 0 ⟨1, 3, 5, true⟩, .insert 1 ⟨1, 6, 2, true⟩, .cancel 1]
    (fun final => final.live = [] ∧ final.book.bidLevels 3 = 5) (by decide) with
    ⟨past, final, run, events, empty, remains⟩
  refine ⟨past, final, run, events, ⟨empty, remains⟩, fun uncorrupted => ?_⟩
  have level := uncorrupted.final.bidLevels 3
  rw [empty, remains] at level
  cases level

/-- An order that has lost its quantity is replaced on the other side. -/
theorem uncorrupted_iff_emptied :
    ∃ past final, (system false eightLevels fun _ => ⟨0, 0, 0, false⟩).Run past final ∧
      past.map Prod.snd = [.insert 1 ⟨1, 6, 2, false⟩, .update 1 0,
        .insert 0 ⟨1, 3, 5, true⟩] ∧ final.live.length = 1 ∧
      (Uncorrupted false past final ↔ ∀ entry ∈ past, entry.1.Keeps false entry.2) := by
  rcases TransitionSystem.exists_run_of_events
    (initial eightLevels fun _ => ⟨0, 0, 0, false⟩) (step false)
    [.insert 0 ⟨1, 3, 5, true⟩, .update 1 0, .insert 1 ⟨1, 6, 2, false⟩]
    (fun final => final.live.length = 1) (by decide) with ⟨past, final, run, events, one⟩
  exact ⟨past, final, run, events, one, uncorrupted_iff run⟩

end Market

end FeederNet.OrderBook
