import FeederNet.OrderBook.OwnStorage

/-! # Exceptions

What a call of `insert`, `update` or `cancel` that throws leaves behind.
-/

namespace FeederNet.OrderBook

open HashMap

variable {Price : Type} {config : Config Price}

/-- The exceptions of the book and of its order map. The other faults are not thrown. -/
def Fault.Thrown : Fault → Prop
  | .orderPoolFull | .orderNotFound | .orderMap .noFreeNodes => True
  | _ => False

inductive Request
  | insert (order : Address)
  | update (orderId : Word64) (newQuantity : Int)
  | cancel (orderId : Word64)

def Request.perform (requireStorage : Bool) (book : OrderBook config) :
    Request → Except Fault Unit × OrderBook config
  | .insert order => book.insert requireStorage order
  | .update orderId newQuantity => book.update orderId newQuantity
  | .cancel orderId => book.cancel requireStorage orderId

/-- The books that calls lead to. Between two calls, the callers may do anything to
the orders. -/
inductive Reached (requireStorage : Bool) : OrderBook config → Prop
  | construct (memory : Address → Order Price) :
      Reached requireStorage (construct config memory)
  | fill {book : OrderBook config} (memory : Address → Order Price) :
      Reached requireStorage book → Reached requireStorage { book with memory := memory }
  | perform {book : OrderBook config} (request : Request) :
      Reached requireStorage book →
      Reached requireStorage (request.perform requireStorage book).2

def Mapped (book : OrderBook config) : Prop :=
  ∃ contents, FixedSizedChainingHashMap.Represents config.hash book.orderMap contents

/-- An `OrderBook<false>` that calls lead to, or any `OrderBook<true>` with a free slot. -/
inductive Given : Bool → OrderBook config → Prop
  | pointers {book : OrderBook config} (reached : Reached false book) : Given false book
  | ownStorage {book : OrderBook config} (mapped : book.Mapped)
      (free : book.freeMsgPtrs ≠ []) : Given true book

def liveOrder (book : OrderBook config) (orderId : Word64) : Option (Order Price) :=
  match (book.findOrder orderId).1 with
  | .ok ord => some (book.memory ord)
  | .error _ => none

structure Unchanged (book after : OrderBook config) : Prop where
  orders : after.liveOrder = book.liveOrder
  bidLevels : after.bidLevels = book.bidLevels
  askLevels : after.askLevels = book.askLevels
  bestBidIndex : after.bestBidIndex = book.bestBidIndex
  bestAskIndex : after.bestAskIndex = book.bestAskIndex
  orderCount : after.orderCount = book.orderCount
  freeMsgPtrs : after.freeMsgPtrs = book.freeMsgPtrs

/-- Nothing has been taken from the pool when the call throws. -/
def Request.LeavesPool (requireStorage : Bool) (book : OrderBook config) : Request → Prop
  | .insert _ => requireStorage = true → config.poolSize ≤ book.orderCount
  | _ => True

section Calls

variable {requireStorage : Bool} {book after : OrderBook config} {fault : Fault}

theorem Unchanged.refl (book : OrderBook config) : Unchanged book book :=
  ⟨rfl, rfl, rfl, rfl, rfl, rfl, rfl⟩

/-! ## The order map -/

theorem Mapped.findOrder (mapped : book.Mapped) (orderId : Word64) :
    (book.findOrder orderId).2 = book := by
  rcases mapped with ⟨contents, represents⟩
  unfold OrderBook.findOrder
  rw [represents.contains]
  cases found : contents orderId with
  | none => rfl
  | some value =>
      rcases represents.read found with ⟨node, returns, read⟩
      simp only [Option.isSome_some, returns, read]
      cases value with
      | none => rfl
      | some ord => rfl

theorem Mapped.insertStored (mapped : book.Mapped) (order mem : Address) :
    (book.insertStored order mem).2.Mapped := by
  rcases mapped with ⟨contents, represents⟩
  unfold OrderBook.insertStored
  rcases represents.assign (book.memory order).orderId with
    ⟨_, _, fails⟩ | ⟨node, next, assigned, assigns⟩
  · simp only [fails]
    exact ⟨contents, represents⟩
  · have stored := assigns (some mem)
    simp only [assigned]
    split
    · split
      · exact ⟨_, stored⟩
      · exact ⟨_, stored⟩
    · exact ⟨_, stored⟩

theorem Mapped.insert (mapped : book.Mapped) (requireStorage : Bool) (order : Address) :
    (book.insert requireStorage order).2.Mapped := by
  unfold OrderBook.insert
  cases requireStorage with
  | false => exact mapped.insertStored order order
  | true =>
      simp only [if_true]
      split
      · exact mapped
      · split
        · exact mapped
        · apply Mapped.insertStored
          exact mapped

/-- What `update` and `cancel` leave behind: an order map, and after an exception the
book as it was. -/
structure Guarded (book : OrderBook config) (result : Except Fault Unit × OrderBook config) :
    Prop where
  mapped : result.2.Mapped
  thrown : ∀ fault, result.1 = .error fault → fault.Thrown → result.2 = book

theorem Mapped.updatePriceLevel (mapped : book.Mapped) (isBuy : Bool) (price : Price)
    (delta : Int) : Guarded book (book.updatePriceLevel isBuy price delta) := by
  by_cases inside : InRange config (config.priceToIndex price)
  · rcases updatePriceLevel_inside book isBuy delta inside with ⟨priced, prices, _, same⟩
    rw [prices]
    refine ⟨?_, nofun⟩
    rw [Mapped, same]
    exact mapped
  · rw [OrderBook.updatePriceLevel, if_neg inside]
    refine ⟨mapped, ?_⟩
    rintro _ ⟨⟩ ⟨⟩

theorem Mapped.update (mapped : book.Mapped) (orderId : Word64) (newQuantity : Int) :
    Guarded book (book.update orderId newQuantity) := by
  have finds := mapped.findOrder orderId
  unfold OrderBook.update
  generalize book.findOrder orderId = found at finds
  rcases found with ⟨fault | ord, same⟩
  · subst finds
    exact ⟨mapped, fun _ _ _ => rfl⟩
  · subst finds
    have guarded := mapped.updatePriceLevel (same.memory ord).isBuy (same.memory ord).price
      (newQuantity - (same.memory ord).quantity)
    simp only
    generalize same.updatePriceLevel _ _ _ = priced at guarded ⊢
    rcases priced with ⟨fault | _, priced⟩
    · exact guarded
    · exact ⟨guarded.mapped, nofun⟩

theorem Mapped.cancel (mapped : book.Mapped) (requireStorage : Bool) (orderId : Word64) :
    Guarded book (book.cancel requireStorage orderId) := by
  have finds := mapped.findOrder orderId
  unfold OrderBook.cancel
  generalize book.findOrder orderId = found at finds
  rcases found with ⟨fault | ord, same⟩
  · subst finds
    exact ⟨mapped, fun _ _ _ => rfl⟩
  · subst finds
    have guarded := mapped.updatePriceLevel (same.memory ord).isBuy (same.memory ord).price
      (-(same.memory ord).quantity)
    simp only
    generalize same.updatePriceLevel _ _ _ = priced at guarded ⊢
    rcases priced with ⟨fault | _, priced⟩
    · exact guarded
    · rcases guarded.mapped with ⟨contents, represents⟩
      rcases represents.erase orderId with ⟨erased, erases, left⟩
      cases requireStorage with
      | true =>
          simp only [if_true, erases]
          exact ⟨⟨_, left⟩, nofun⟩
      | false =>
          simp only [Bool.false_eq_true, if_false, erases]
          exact ⟨⟨_, left⟩, nofun⟩

theorem Mapped.perform (mapped : book.Mapped) (requireStorage : Bool) (request : Request) :
    (request.perform requireStorage book).2.Mapped := by
  cases request with
  | insert order => exact mapped.insert requireStorage order
  | update orderId newQuantity => exact (mapped.update orderId newQuantity).mapped
  | cancel orderId => exact (mapped.cancel requireStorage orderId).mapped

theorem Reached.mapped (reached : Reached requireStorage book) : book.Mapped := by
  induction reached with
  | construct memory =>
      exact ⟨_, FixedSizedChainingHashMap.represents_construct config.hash⟩
  | fill memory reached induction => exact induction
  | perform request reached induction => exact induction.perform requireStorage request

theorem Given.mapped (given : Given requireStorage book) : book.Mapped := by
  cases given with
  | pointers reached => exact reached.mapped
  | ownStorage mapped free => exact mapped

/-! ## Calls that throw -/

theorem insertStored_throws {order mem : Address}
    (throws : book.insertStored order mem = (.error fault, after))
    (thrown : fault.Thrown) : after = book := by
  unfold OrderBook.insertStored at throws
  split at throws
  · cases throws
    rfl
  · simp only at throws
    split at throws
    · split at throws
      · cases throws
      · cases throws
    · cases throws
      exact thrown.elim

/-- `insert` has taken a slot by the time the order map throws. -/
theorem insert_own_throws_iff {order : Address} (free : book.freeMsgPtrs ≠ [])
    (throws : book.insert true order = (.error fault, after)) (thrown : fault.Thrown) :
    Unchanged book after ↔ config.poolSize ≤ book.orderCount := by
  rw [OrderBook.insert, if_pos rfl] at throws
  by_cases full : book.orderCount ≥ config.poolSize
  · rw [if_pos full] at throws
    cases throws
    exact iff_of_true (Unchanged.refl book) full
  · rw [if_neg full] at throws
    refine iff_of_false ?_ full
    intro unchanged
    have counted := unchanged.orderCount
    rcases List.exists_cons_of_ne_nil free with ⟨mem, freeMsgPtrs, slots⟩
    simp only [slots] at throws
    rw [insertStored_throws throws thrown] at counted
    exact absurd counted (Nat.succ_ne_self book.orderCount)

/-- A call that throws changes nothing, unless the order map runs out of nodes when an
`OrderBook<true>` has a slot to spare. -/
theorem unchanged_iff_leavesPool (given : Given requireStorage book) (request : Request)
    (throws : request.perform requireStorage book = (.error fault, after))
    (thrown : fault.Thrown) :
    Unchanged book after ↔ request.LeavesPool requireStorage book := by
  cases request with
  | update orderId newQuantity =>
      have guarded := given.mapped.update orderId newQuantity
      rw [Request.perform] at throws
      rw [throws] at guarded
      rw [show after = book from guarded.thrown fault rfl thrown]
      exact iff_of_true (Unchanged.refl book) trivial
  | cancel orderId =>
      have guarded := given.mapped.cancel requireStorage orderId
      rw [Request.perform] at throws
      rw [throws] at guarded
      rw [show after = book from guarded.thrown fault rfl thrown]
      exact iff_of_true (Unchanged.refl book) trivial
  | insert order =>
      cases given with
      | pointers reached =>
          rw [insertStored_throws throws thrown]
          exact iff_of_true (Unchanged.refl book) nofun
      | ownStorage mapped free =>
          rw [insert_own_throws_iff free throws thrown]
          exact ⟨fun full _ => full, fun leaves => leaves rfl⟩

theorem mapped_performAll (mapped : book.Mapped) (requests : List Request) :
    Mapped (requests.foldl (fun book request => (request.perform requireStorage book).2)
      book) := by
  induction requests generalizing book with
  | nil => exact mapped
  | cons request requests induction =>
      exact induction (mapped.perform requireStorage request)

theorem reached_performAll (reached : Reached requireStorage book) (requests : List Request) :
    Reached requireStorage
      (requests.foldl (fun book request => (request.perform requireStorage book).2) book) := by
  induction requests generalizing book with
  | nil => exact reached
  | cons request requests induction => exact induction (reached.perform request)

end Calls

def oneBucket : Config Nat :=
  { sourceConfig with
    initBuckets := ⟨1, PowerOfTwo.one_nonzero, PowerOfTwo.one_disjoint⟩ }

def sixteenOrders : OrderBook oneBucket :=
  ((List.range 16).map fun place => Request.insert (.caller place)).foldl
    (fun book request => (request.perform true book).2)
    { construct oneBucket fun address =>
        match address with
        | .caller place => ⟨BitVec.ofNat 64 place, place, 1, true⟩
        | .pool _ => ⟨0, 0, 0, false⟩ with
      freeMsgPtrs := (List.range 17).map .pool }

theorem sixteenOrders_mapped : sixteenOrders.Mapped :=
  mapped_performAll ⟨_, FixedSizedChainingHashMap.represents_construct oneBucket.hash⟩ _

/-- The seventeenth order takes the last slot before the order map refuses it. -/
theorem refused_order_takes_slot :
    ∃ after, Given true sixteenOrders ∧
      Request.perform true sixteenOrders (.insert (.caller 16)) =
        (.error (.orderMap .noFreeNodes), after) ∧
      sixteenOrders.orderCount = 16 ∧ after.orderCount = 17 ∧ after.freeMsgPtrs = [] ∧
      ¬ Unchanged sixteenOrders after := by
  have refused : (Request.perform true sixteenOrders (.insert (.caller 16))).1 =
      .error (.orderMap .noFreeNodes) := rfl
  have counted : sixteenOrders.orderCount = 16 := rfl
  have taken : (Request.perform true sixteenOrders (.insert (.caller 16))).2.orderCount =
      17 := rfl
  have free : sixteenOrders.freeMsgPtrs ≠ [] := by
    have one : sixteenOrders.freeMsgPtrs = [.pool 16] := rfl
    rw [one]
    exact List.cons_ne_nil _ _
  refine ⟨(Request.perform true sixteenOrders (.insert (.caller 16))).2,
    .ownStorage sixteenOrders_mapped free, Prod.ext refused rfl, counted, taken, rfl,
    fun unchanged => ?_⟩
  have same := unchanged.orderCount
  rw [counted, taken] at same
  cases same

def sixteenPointers : OrderBook oneBucket :=
  ((List.range 16).map fun place => Request.insert (.caller place)).foldl
    (fun book request => (request.perform false book).2)
    (construct oneBucket fun address =>
      match address with
      | .caller place => ⟨BitVec.ofNat 64 place, place, 1, true⟩
      | .pool _ => ⟨0, 0, 0, false⟩)

/-- The seventeenth order is refused, and the others stay. -/
theorem unchanged_iff_leavesPool_full :
    ∃ after, Given false sixteenPointers ∧
      Request.perform false sixteenPointers (.insert (.caller 16)) =
        (.error (.orderMap .noFreeNodes), after) ∧
      after.liveOrder 15 = some ⟨15, 15, 1, true⟩ ∧
      (Unchanged sixteenPointers after ↔
        Request.LeavesPool false sixteenPointers (.insert (.caller 16))) := by
  have given : Given false sixteenPointers := .pointers (reached_performAll (.construct _) _)
  have refused : (Request.perform false sixteenPointers (.insert (.caller 16))).1 =
      .error (.orderMap .noFreeNodes) := rfl
  have throws : Request.perform false sixteenPointers (.insert (.caller 16)) =
      (.error (.orderMap .noFreeNodes),
        (Request.perform false sixteenPointers (.insert (.caller 16))).2) := by
    rw [← refused]
  have live : (Request.perform false sixteenPointers (.insert (.caller 16))).2.liveOrder 15 =
      some ⟨15, 15, 1, true⟩ := by decide +kernel
  exact ⟨_, given, throws, live, unchanged_iff_leavesPool given _ throws trivial⟩

end FeederNet.OrderBook
