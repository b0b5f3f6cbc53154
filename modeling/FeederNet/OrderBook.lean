import FeederNet.HashMap.FixedSizedChainingHashMap
import Mathlib.Order.Defs.LinearOrder

/-! # OrderBook

Orders live at addresses, those of the callers and those of the book's own pool.
Quantities and level totals are exact integers, which is what `int` computes as long
as the totals are within its range. An operation returns the book also when it
throws. The text that `print` writes is left out.
-/

namespace FeederNet.OrderBook

open HashMap

inductive Address
  | caller (place : Nat)
  | pool (place : Nat)
  deriving DecidableEq, Repr

structure Order (Price : Type) where
  orderId : Word64
  price : Price
  quantity : Int
  isBuy : Bool
  deriving DecidableEq, Repr

/-- What a book is compiled with, and the conversion between prices and levels. -/
structure Config (Price : Type) where
  maxPriceLevels : Nat
  poolSize : Nat
  initBuckets : PowerOfTwo
  hash : Word64 → Word64
  priceToIndex : Price → Int
  indexToPrice : Int → Price

inductive Fault
  | orderPoolFull
  | orderNotFound
  | orderMap (fault : FixedSizedChainingHashMap.Fault)
  | outOfRange
  | nullPointer
  deriving DecidableEq, Repr

end OrderBook

open HashMap OrderBook

/-- `memory` is the store of all orders, and `nullptr` is the default `OrderPtr`. The
back of `freeMsgPtrs_` comes first. -/
structure OrderBook {Price : Type} (config : Config Price) where
  memory : Address → Order Price
  freeMsgPtrs : List Address
  orderCount : Nat
  orderMap : FixedSizedChainingHashMap config.initBuckets Word64 (Option Address)
  bidLevels : Int → Int
  askLevels : Int → Int
  bestBidIndex : Int
  bestAskIndex : Int

namespace OrderBook

variable {Price : Type} {config : Config Price}

/-- No element of `orderPool_` exists, as nothing resizes it, so that
`freeMsgPtrs_` starts empty. -/
def construct (config : Config Price) (memory : Address → Order Price) :
    OrderBook config where
  memory := memory
  freeMsgPtrs := []
  orderCount := 0
  orderMap := FixedSizedChainingHashMap.construct
  bidLevels _ := 0
  askLevels _ := 0
  bestBidIndex := -1
  bestAskIndex := config.maxPriceLevels

def InRange (config : Config Price) (index : Int) : Prop :=
  0 ≤ index ∧ index < config.maxPriceLevels

instance (index : Int) : Decidable (InRange config index) :=
  inferInstanceAs (Decidable (_ ∧ _))

def downFrom (start : Int) : List Int :=
  (List.range (start + 1).toNat).reverse.map Int.ofNat

/-- The indices of `for (int i = start; i < Const::MaxPriceLevels; ++i)`, where the
comparison is one of `size_t`. -/
def upFrom (config : Config Price) (start : Int) : List Int :=
  if 0 ≤ start then
    (List.range' start.toNat (config.maxPriceLevels - start.toNat)).map Int.ofNat
  else []

def firstPositive (levels : Int → Int) (indices : List Int) : Option Int :=
  indices.find? fun index => decide (0 < levels index)

def insertStored (book : OrderBook config) (order mem : Address) :
    Except Fault Unit × OrderBook config :=
  match book.orderMap.operatorIndex config.hash (book.memory order).orderId with
  | .error fault => (.error (.orderMap fault), book)
  | .ok (node, orderMap) =>
      let stored := { book with orderMap := orderMap.setValueAt node (some mem) }
      let quantity := (book.memory order).quantity
      let idx := config.priceToIndex (book.memory order).price
      if InRange config idx then
        if (book.memory order).isBuy then
          (.ok (), { stored with
            bidLevels := Function.update book.bidLevels idx (book.bidLevels idx + quantity)
            bestBidIndex := if idx > book.bestBidIndex then idx else book.bestBidIndex })
        else
          (.ok (), { stored with
            askLevels := Function.update book.askLevels idx (book.askLevels idx + quantity)
            bestAskIndex := if idx < book.bestAskIndex then idx else book.bestAskIndex })
      else (.error .outOfRange, stored)

def insert (requireStorage : Bool) (book : OrderBook config) (order : Address) :
    Except Fault Unit × OrderBook config :=
  if requireStorage then
    if book.orderCount ≥ config.poolSize then (.error .orderPoolFull, book)
    else
      match book.freeMsgPtrs with
      | [] => (.error .outOfRange, { book with orderCount := book.orderCount + 1 })
      | mem :: freeMsgPtrs =>
          insertStored
            { book with
              orderCount := book.orderCount + 1
              freeMsgPtrs := freeMsgPtrs
              memory := Function.update book.memory mem (book.memory order) } order mem
  else insertStored book order order

def updatePriceLevel (book : OrderBook config) (isBuy : Bool) (price : Price)
    (updateQuantity : Int) : Except Fault Unit × OrderBook config :=
  let idx := config.priceToIndex price
  if InRange config idx then
    if isBuy then
      let bidLevels :=
        Function.update book.bidLevels idx (book.bidLevels idx + updateQuantity)
      (.ok (), { book with
        bidLevels := bidLevels
        bestBidIndex :=
          if idx = book.bestBidIndex ∧ bidLevels idx = 0 then
            (firstPositive bidLevels (downFrom (idx - 1))).getD 0
          else book.bestBidIndex })
    else
      let askLevels :=
        Function.update book.askLevels idx (book.askLevels idx + updateQuantity)
      (.ok (), { book with
        askLevels := askLevels
        bestAskIndex :=
          if idx = book.bestAskIndex ∧ askLevels idx = 0 then
            (firstPositive askLevels (upFrom config (idx + 1))).getD
              (config.maxPriceLevels - 1)
          else book.bestAskIndex })
  else (.error .outOfRange, book)

def findOrder (book : OrderBook config) (orderId : Word64) :
    Except Fault Address × OrderBook config :=
  match book.orderMap.contains config.hash orderId with
  | .error fault => (.error (.orderMap fault), book)
  | .ok false => (.error .orderNotFound, book)
  | .ok true =>
      match book.orderMap.operatorIndex config.hash orderId with
      | .error fault => (.error (.orderMap fault), book)
      | .ok (node, orderMap) =>
          match orderMap.valueAt node with
          | none => (.error .nullPointer, { book with orderMap := orderMap })
          | some ord => (.ok ord, { book with orderMap := orderMap })

def update (book : OrderBook config) (orderId : Word64) (newQuantity : Int) :
    Except Fault Unit × OrderBook config :=
  match book.findOrder orderId with
  | (.error fault, book) => (.error fault, book)
  | (.ok ord, book) =>
      match book.updatePriceLevel (book.memory ord).isBuy (book.memory ord).price
          (newQuantity - (book.memory ord).quantity) with
      | (.error fault, book) => (.error fault, book)
      | (.ok (), book) =>
          (.ok (), { book with
            memory := Function.update book.memory ord
              { book.memory ord with quantity := newQuantity } })

def cancel (requireStorage : Bool) (book : OrderBook config) (orderId : Word64) :
    Except Fault Unit × OrderBook config :=
  match book.findOrder orderId with
  | (.error fault, book) => (.error fault, book)
  | (.ok ord, book) =>
      match book.updatePriceLevel (book.memory ord).isBuy (book.memory ord).price
          (-(book.memory ord).quantity) with
      | (.error fault, book) => (.error fault, book)
      | (.ok (), book) =>
          let returned :=
            if requireStorage then
              { book with
                freeMsgPtrs := ord :: book.freeMsgPtrs
                orderCount := book.orderCount - 1 }
            else book
          match returned.orderMap.erase config.hash orderId with
          | .error fault => (.error (.orderMap fault), returned)
          | .ok (_, orderMap) => (.ok (), { returned with orderMap := orderMap })

def bestBid (book : OrderBook config) : Except Fault (Price × Int) :=
  if InRange config book.bestBidIndex then
    .ok (config.indexToPrice book.bestBidIndex, book.bidLevels book.bestBidIndex)
  else .error .outOfRange

def bestAsk (book : OrderBook config) : Except Fault (Price × Int) :=
  if InRange config book.bestAskIndex then
    .ok (config.indexToPrice book.bestAskIndex, book.askLevels book.bestAskIndex)
  else .error .outOfRange

def collect (config : Config Price) (levels : Int → Int) (count : Nat) :
    List Int → List (Price × Int) → List (Price × Int)
  | [], collected => collected
  | index :: indices, collected =>
      if collected.length < count then
        collect config levels count indices
          (if 0 < levels index then
            collected ++ [(config.indexToPrice index, levels index)]
          else collected)
      else collected

end OrderBook

end FeederNet
