import FeederNet.Foundation.MachineWord
import Mathlib.Logic.Basic

/-! # Messages of the feed

The trade message and the gap request, field by field. Prices and quantities are
carried and never computed with, so their type is a parameter.
-/

namespace FeederNet

structure ITCHTradeMsg (Double : Type u) where
  messageType : UInt8
  sequenceNumber : Word64
  tradeId : Word64
  timestamp : Word64
  price : Double
  quantity : Double
  buyerIsMaker : Bool
  bestMatch : Bool
  symbol : Vector UInt8 8
  deriving DecidableEq, Repr

structure GapRequestMsg where
  type : UInt8
  startSeq : Word64
  endSeq : Word64
  deriving DecidableEq, Repr

class SequencedMsg (TradeMsg : Type u) where
  sequenceNumber : TradeMsg → Word64

export SequencedMsg (sequenceNumber)

instance (Double : Type u) : SequencedMsg (ITCHTradeMsg Double) where
  sequenceNumber := ITCHTradeMsg.sequenceNumber

end FeederNet
