import FeederNet.OrderBook.LiveOrders

/-! # The book with its own storage

The calls of a client on an `OrderBook<true>` and on an `OrderBook<false>`.
-/

namespace FeederNet.OrderBook

open HashMap

variable {Price : Type} {config : Config Price}

/-- A client fills the place of an order before it inserts it. -/
inductive Call (Price : Type)
  | insert (place : Nat) (order : Order Price)
  | update (orderId : Word64) (newQuantity : Int)
  | cancel (orderId : Word64)
  | bestBid
  | bestAsk
  deriving DecidableEq, Repr

inductive Answer (Price : Type)
  | done (outcome : Except Fault Unit)
  | quote (outcome : Except Fault (Price × Int))

namespace Call

def Inserts : Call Price → Prop
  | .insert _ _ => True
  | _ => False

instance (call : Call Price) : Decidable call.Inserts := by
  unfold Inserts
  cases call <;> exact inferInstance

def fill (book : OrderBook config) (place : Nat) (order : Order Price) :
    OrderBook config :=
  { book with memory := Function.update book.memory (.caller place) order }

def perform (requireStorage : Bool) (book : OrderBook config) :
    Call Price → Answer Price × OrderBook config
  | .insert place order =>
      let result := (fill book place order).insert requireStorage (.caller place)
      (.done result.1, result.2)
  | .update orderId newQuantity =>
      let result := book.update orderId newQuantity
      (.done result.1, result.2)
  | .cancel orderId =>
      let result := book.cancel requireStorage orderId
      (.done result.1, result.2)
  | .bestBid => (.quote book.bestBid, book)
  | .bestAsk => (.quote book.bestAsk, book)

def after (config : Config Price) (memory : Address → Order Price)
    (requireStorage : Bool) (calls : List (Call Price)) : OrderBook config :=
  calls.foldl (fun book call => (perform requireStorage book call).2)
    (construct config memory)

end Call

structure SameAnswers (config : Config Price) (memory : Address → Order Price)
    (calls : List (Call Price)) : Prop where
  answers : ∀ front call rest, calls = front ++ call :: rest →
    (Call.perform true (Call.after config memory true front) call).1 =
      (Call.perform false (Call.after config memory false front) call).1
  levels : ∀ front rest, calls = front ++ rest →
    (Call.after config memory true front).bidLevels =
        (Call.after config memory false front).bidLevels ∧
      (Call.after config memory true front).askLevels =
        (Call.after config memory false front).askLevels

/-- The book that copies orders stands in for the one that keeps pointers, and its
pool is used properly. -/
structure Interchangeable (config : Config Price) (memory : Address → Order Price)
    (calls : List (Call Price)) : Prop extends SameAnswers config memory calls where
  reads : ∀ front place order rest, calls = front ++ .insert place order :: rest →
    (Call.after config memory true front).orderCount < config.poolSize →
    (Call.after config memory true front).freeMsgPtrs ≠ []
  slots : ∀ front rest, calls = front ++ rest →
    (Call.after config memory true front).freeMsgPtrs.length +
      (Call.after config memory true front).orderCount = config.poolSize
  backing : ∀ front rest, calls = front ++ rest → ∀ left right place,
    ((Call.after config memory true front).findOrder left).1 = .ok (.pool place) →
    ((Call.after config memory true front).findOrder right).1 = .ok (.pool place) →
    left = right

section Calls

variable {memory : Address → Order Price} {calls : List (Call Price)}

theorem findOrder_construct (config : Config Price) (memory : Address → Order Price)
    (orderId : Word64) :
    (construct config memory).findOrder orderId =
      (.error .orderNotFound, construct config memory) :=
  (Accounts.construct config memory).findOrder_missing nofun

theorem perform_construct (requireStorage : Bool) {call : Call Price}
    (quiet : ¬ call.Inserts) :
    Call.perform requireStorage (construct config memory) call =
      Call.perform false (construct config memory) call ∧
    (Call.perform requireStorage (construct config memory) call).2 =
      construct config memory := by
  cases call with
  | insert place order => exact absurd trivial quiet
  | update orderId newQuantity =>
      refine ⟨rfl, ?_⟩
      rw [Call.perform, OrderBook.update, findOrder_construct]
  | cancel orderId =>
      simp only [Call.perform, OrderBook.cancel, findOrder_construct, and_self]
  | bestBid => exact ⟨rfl, rfl⟩
  | bestAsk => exact ⟨rfl, rfl⟩

theorem after_quiet (requireStorage : Bool) (quiet : ∀ call ∈ calls, ¬ call.Inserts) :
    Call.after config memory requireStorage calls = construct config memory := by
  induction calls with
  | nil => rfl
  | cons call calls induction =>
      rw [List.forall_mem_cons] at quiet
      rw [Call.after, List.foldl_cons, (perform_construct requireStorage quiet.1).2]
      exact induction quiet.2

theorem insert_fails (config : Config Price) (memory : Address → Order Price) (place : Nat)
    (order : Order Price) :
    (Call.perform true (construct config memory) (.insert place order)).1 ≠
      .done (.ok ()) := by
  intro returns
  have returns : Answer.done (OrderBook.insert true
      (Call.fill (construct config memory) place order) (.caller place)).1 =
        (.done (.ok ()) : Answer Price) := returns
  rw [OrderBook.insert, if_pos rfl] at returns
  by_cases full : (Call.fill (construct config memory) place order).orderCount ≥
      config.poolSize
  · rw [if_pos full] at returns
    cases returns
  · rw [if_neg full] at returns
    cases returns

/-- The first insertion copies through the back of an empty vector, where the other
book takes the order. -/
theorem insert_answers_differ
    (inRange : ∀ price, InRange config (config.priceToIndex price)) (place : Nat)
    (order : Order Price) :
    (Call.perform true (construct config memory) (.insert place order)).1 ≠
      (Call.perform false (construct config memory) (.insert place order)).1 := by
  let session := Session.initial config memory
  have accounts : Accounts session.book session.live := Accounts.construct config memory
  have fresh : session.Fresh place order := nofun
  rcases accounts.insert fresh (inRange order.price) with
    ⟨none, _⟩ | ⟨_, _, after, _, inserts, _⟩
  · exact absurd none FixedSizedChainingHashMap.freeNodes_construct_ne_nil
  · have accepted : (Call.perform false (construct config memory)
        (.insert place order)).1 = .done (.ok ()) := by
      change Answer.done ((session.filled place order).insert false _).1 = _
      rw [inserts]
    rw [accepted]
    exact insert_fails config memory place order

theorem exists_first_insert (inserting : ¬ ∀ call ∈ calls, ¬ call.Inserts) :
    ∃ front place order rest, calls = front ++ .insert place order :: rest ∧
      ∀ call ∈ front, ¬ call.Inserts := by
  induction calls with
  | nil => exact absurd nofun inserting
  | cons call calls induction =>
      by_cases first : call.Inserts
      · cases call with
        | insert place order => exact ⟨[], place, order, calls, rfl, nofun⟩
        | _ => cases first
      · rw [List.forall_mem_cons, not_and] at inserting
        rcases induction (inserting first) with ⟨front, place, order, rest, rfl, quiet⟩
        exact ⟨call :: front, place, order, rest, rfl, List.forall_mem_cons.mpr ⟨first, quiet⟩⟩

theorem sameAnswers_iff (inRange : ∀ price, InRange config (config.priceToIndex price)) :
    SameAnswers config memory calls ↔ ∀ call ∈ calls, ¬ call.Inserts := by
  constructor
  · intro same
    by_contra inserting
    rcases exists_first_insert inserting with ⟨front, place, order, rest, rfl, quiet⟩
    have answers := same.answers front (.insert place order) rest rfl
    rw [after_quiet true quiet, after_quiet false quiet] at answers
    exact insert_answers_differ inRange place order answers
  · intro quiet
    constructor
    · rintro front call rest rfl
      have before : ∀ call ∈ front, ¬ call.Inserts := fun call member =>
        quiet call (List.mem_append_left _ member)
      rw [after_quiet true before, after_quiet false before,
        (perform_construct true (quiet call (by simp))).1]
    · rintro front rest rfl
      have before : ∀ call ∈ front, ¬ call.Inserts := fun call member =>
        quiet call (List.mem_append_left _ member)
      rw [after_quiet true before, after_quiet false before]
      exact ⟨rfl, rfl⟩

/-- The two books are told apart by the first insertion, and the pool is short of its
size from the start. -/
theorem interchangeable_iff
    (inRange : ∀ price, InRange config (config.priceToIndex price))
    (memory : Address → Order Price) (calls : List (Call Price)) :
    (SameAnswers config memory calls ↔ ∀ call ∈ calls, ¬ call.Inserts) ∧
      (Interchangeable config memory calls ↔
        config.poolSize = 0 ∧ ∀ call ∈ calls, ¬ call.Inserts) := by
  refine ⟨sameAnswers_iff inRange, ?_⟩
  constructor
  · intro interchangeable
    exact ⟨(interchangeable.slots [] calls rfl).symm,
      (sameAnswers_iff inRange).mp interchangeable.toSameAnswers⟩
  · intro given
    rcases given with ⟨empty, quiet⟩
    have initially : ∀ front rest, calls = front ++ rest →
        Call.after config memory true front = construct config memory := by
      rintro front rest rfl
      exact after_quiet true fun call member => quiet call (List.mem_append_left _ member)
    refine ⟨(sameAnswers_iff inRange).mpr quiet, ?_, ?_, ?_⟩
    · rintro front place order rest rfl
      exact absurd trivial (quiet (.insert place order) (by simp))
    · intro front rest split
      rw [initially front rest split, empty]
      rfl
    · intro front rest split left right place found
      rw [initially front rest split, findOrder_construct] at found
      cases found

def sourceConfig : Config Nat where
  maxPriceLevels := 100000
  poolSize := 10000000
  initBuckets := ⟨1048576, by decide, by decide⟩
  hash key := key
  priceToIndex price := price
  indexToPrice index := index.toNat

/-- The first order at all: no pool slot is there to copy it to. -/
theorem first_insert_reads_empty_pool :
    ¬ Interchangeable sourceConfig (fun _ => ⟨0, 0, 0, false⟩)
      [.insert 0 ⟨1, 10000, 10, true⟩] := by
  intro interchangeable
  have nonempty := interchangeable.reads [] 0 ⟨1, 10000, 10, true⟩ [] rfl (by decide)
  exact nonempty rfl

theorem interchangeable_iff_eightLevels :
    (SameAnswers eightLevels (fun _ => ⟨0, 0, 0, false⟩) [.update 1 4, .bestBid] ↔
        ∀ call ∈ [Call.update 1 4, .bestBid], ¬ Call.Inserts (call : Call Nat)) ∧
      (Interchangeable eightLevels (fun _ => ⟨0, 0, 0, false⟩) [.update 1 4, .bestBid] ↔
        eightLevels.poolSize = 0 ∧
          ∀ call ∈ [Call.update 1 4, .bestBid], ¬ Call.Inserts (call : Call Nat)) :=
  interchangeable_iff eightLevels_inRange _ _

end Calls

end FeederNet.OrderBook
