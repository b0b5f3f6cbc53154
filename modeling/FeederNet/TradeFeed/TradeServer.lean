import FeederNet.Messages
import Mathlib.Data.List.TakeDrop

/-! # TradeServer

The store of trade messages, the loop that multicasts it, and the loops that
answer requests for parts of it. A loop variable declared `int` is a 32-bit word,
and is sign-extended where it meets a `size_t` or a `uint64_t`.
-/

namespace FeederNet.TradeFeed

def TradeMsgStore.get (store : List TradeMsg) (index : Word64) : Option TradeMsg :=
  if index.toNat ≥ store.length then none else store[index.toNat]?

def TradeMsgStore.size (store : List TradeMsg) : Word64 :=
  BitVec.ofNat 64 store.length

/-- An `int` where a 64-bit unsigned value is expected. -/
def asSize (i : Word32) : Word64 :=
  i.signExtend 64

namespace MulticastServer

def skips (createMulticastGap : Bool) (i : Word32) : Bool :=
  createMulticastGap && ((i + 1).srem 1000 == 0 || (i + 2).srem 1000 == 0)

/-- One iteration of `serveClients`: the datagram sent, if any, and the next value
of the loop variable. There is none after the loop. -/
def serveClients (store : List TradeMsg) (createMulticastGap : Bool) (i : Word32) :
    Option (List TradeMsg × Word32) :=
  if asSize i < TradeMsgStore.size store then
    if skips createMulticastGap i then some ([], i + 1)
    else some ((TradeMsgStore.get store (asSize i)).toList, i + 1)
  else none

end MulticastServer

namespace SnapshotServer

/-- Where the server stands: between two requests, or before the next `send` of
one of its loops. -/
inductive Phase
  | idle
  | serving (i : Word32) (endSeq : Word64)
  | replaying (i : Word32)
  deriving DecidableEq, Repr

/-- The test of the loop in `serveGapRequest`. The check before the loop only
prints. -/
def serveLoop (i : Word32) (endSeq : Word64) : Phase :=
  if asSize i ≤ endSeq then .serving i endSeq else .idle

def replayLoop (store : List TradeMsg) (i : Word32) : Phase :=
  if asSize i < TradeMsgStore.size store then .replaying i else .idle

def request (store : List TradeMsg) (msg : GapRequestMsg) : Phase :=
  if msg.type = 48 then serveLoop (msg.startSeq.setWidth 32) msg.endSeq
  else if msg.type = 49 then replayLoop store 0
  else .idle

/-- One `send` and the test after it. Nothing is sent for an index outside the
store, where `get` returns `nullptr`. -/
def send (store : List TradeMsg) : Phase → Option (List TradeMsg × Phase)
  | .idle => none
  | .serving i endSeq =>
      some ((TradeMsgStore.get store (asSize i)).toList, serveLoop (i + 1) endSeq)
  | .replaying i =>
      some ((TradeMsgStore.get store (asSize i)).toList, replayLoop store (i + 1))

end SnapshotServer

/-! ## Indices below `2 ^ 31` -/

theorem asSize_ofNat {index : Nat} (small : index < 2 ^ 31) :
    asSize (BitVec.ofNat 32 index) = BitVec.ofNat 64 index := by
  have value : (BitVec.ofNat 32 index).toNat = index :=
    Nat.mod_eq_of_lt (by omega)
  have positive : (BitVec.ofNat 32 index).msb = false :=
    BitVec.msb_eq_false_iff_two_mul_lt.mpr (by omega)
  apply BitVec.eq_of_toNat_eq
  rw [asSize, BitVec.signExtend_eq_setWidth_of_msb_false positive,
    Word64.ofNat_toNat index (by omega), BitVec.toNat_setWidth, value]
  exact Nat.mod_eq_of_lt (by omega)

theorem setWidth_ofNat (index : Nat) :
    (BitVec.ofNat 64 index).setWidth 32 = BitVec.ofNat 32 index := by
  apply BitVec.eq_of_toNat_eq
  simp only [BitVec.toNat_setWidth, BitVec.toNat_ofNat]
  omega

theorem get_ofNat (store : List TradeMsg) {index : Nat} (small : index < 2 ^ 64) :
    TradeMsgStore.get store (BitVec.ofNat 64 index) = store[index]? := by
  rw [TradeMsgStore.get, Word64.ofNat_toNat index small]
  split
  · rename_i outside
    exact (List.getElem?_eq_none outside).symm
  · rfl

theorem mem_of_get {store : List TradeMsg} {index : Word64} {msg : TradeMsg}
    (found : TradeMsgStore.get store index = some msg) : msg ∈ store := by
  rw [TradeMsgStore.get] at found
  split at found
  · cases found
  · exact List.mem_of_getElem? found

/-- The loop of `serveGapRequest` stands at an index up to the last one asked
for. -/
theorem serveLoop_ofNat (index last : Nat) (indexSmall : index < 2 ^ 31)
    (lastSmall : last < 2 ^ 64) :
    SnapshotServer.serveLoop (BitVec.ofNat 32 index) (BitVec.ofNat 64 last) =
      if index ≤ last then
        .serving (BitVec.ofNat 32 index) (BitVec.ofNat 64 last)
      else .idle := by
  simp only [SnapshotServer.serveLoop, asSize_ofNat indexSmall, BitVec.le_def,
    Word64.ofNat_toNat index (show index < 2 ^ 64 by omega),
    Word64.ofNat_toNat last lastSmall]

theorem MulticastServer.mem_of_serveClients {store : List TradeMsg}
    {createMulticastGap : Bool} {i next : Word32} {datagrams : List TradeMsg}
    (served : serveClients store createMulticastGap i = some (datagrams, next)) :
    ∀ msg ∈ datagrams, msg ∈ store := by
  unfold serveClients at served
  split at served
  · split at served
    · cases served
      simp
    · cases served
      intro msg member
      exact mem_of_get (Option.mem_toList.mp member)
  · cases served

end FeederNet.TradeFeed
