import FeederNet.Foundation.ByteStream
import FeederNet.Messages

/-! # Messages as bytes

The packed layout of the trade message and the gap request. A `double` is carried as
its 64 bits.
-/

namespace FeederNet

def wordAt (bytes : List UInt8) (offset : Nat) : Word64 :=
  Word64.ofBytes ((bytes.drop offset).take 8)

theorem wordAt_append (bytes rest : List UInt8) {offset : Nat}
    (inside : offset + 8 ≤ bytes.length) :
    wordAt (bytes ++ rest) offset = wordAt bytes offset := by
  rw [wordAt, List.drop_append_of_le_length (by omega),
    List.take_append_of_le_length (by rw [List.length_drop]; omega)]
  rfl

theorem length_flatMap_toBytes (words : List Word64) :
    (words.flatMap Word64.toBytes).length = 8 * words.length := by
  induction words with
  | nil => rfl
  | cons word words induction =>
      rw [List.flatMap_cons, List.length_append, induction, Word64.length_toBytes,
        List.length_cons]
      omega

theorem wordAt_words (type : UInt8) (words : List Word64) (rest : List UInt8)
    (index : Nat) (inside : index < words.length) :
    wordAt (type :: (words.flatMap Word64.toBytes ++ rest)) (1 + 8 * index) =
      words[index] := by
  rw [wordAt, Nat.add_comm, List.drop_succ_cons]
  induction index generalizing words with
  | zero =>
      cases words with
      | nil => cases inside
      | cons word words =>
          rw [Nat.mul_zero, List.drop_zero, List.flatMap_cons, List.append_assoc,
            List.take_left' (Word64.length_toBytes word), Word64.ofBytes_toBytes]
          rfl
  | succ index induction =>
      cases words with
      | nil => cases inside
      | cons word words =>
          rw [Nat.mul_succ, Nat.add_comm, ← List.drop_drop, List.flatMap_cons,
            List.append_assoc, List.drop_left' (Word64.length_toBytes word)]
          exact induction words (Nat.lt_of_succ_lt_succ inside)

theorem getD_words (type : UInt8) (words : List Word64) (rest : List UInt8)
    (index : Nat) :
    (type :: (words.flatMap Word64.toBytes ++ rest)).getD
      (8 * words.length + index + 1) 0 = rest.getD index 0 := by
  have length := length_flatMap_toBytes words
  rw [List.getD_cons_succ, List.getD_eq_getElem?_getD,
    List.getElem?_append_right (by omega), length, Nat.add_sub_cancel_left,
    List.getD_eq_getElem?_getD]

namespace GapRequestMsg

/-- `GapRequestMsgSize`. -/
def size : Nat := 17

def toBytes (msg : GapRequestMsg) : List UInt8 :=
  msg.type :: [msg.startSeq, msg.endSeq].flatMap Word64.toBytes

def ofBytes (bytes : List UInt8) : GapRequestMsg where
  type := bytes.getD 0 0
  startSeq := wordAt bytes 1
  endSeq := wordAt bytes 9

@[simp] theorem length_toBytes (msg : GapRequestMsg) : msg.toBytes.length = size := by
  simp [toBytes, size]

@[simp] theorem ofBytes_toBytes (msg : GapRequestMsg) : ofBytes msg.toBytes = msg := by
  have word : ∀ index (inside : index < [msg.startSeq, msg.endSeq].length),
      wordAt msg.toBytes (1 + 8 * index) = [msg.startSeq, msg.endSeq][index] := by
    intro index inside
    rw [toBytes, ← List.append_nil (List.flatMap _ _)]
    exact wordAt_words msg.type _ [] index inside
  have startSeq : wordAt msg.toBytes 1 = msg.startSeq := word 0 (by simp)
  have endSeq : wordAt msg.toBytes 9 = msg.endSeq := word 1 (by simp)
  rw [ofBytes, startSeq, endSeq]
  rfl

theorem ofBytes_append (bytes rest : List UInt8) (whole : bytes.length = size) :
    ofBytes (bytes ++ rest) = ofBytes bytes := by
  rw [size] at whole
  have type : (bytes ++ rest).getD 0 0 = bytes.getD 0 0 := by
    rw [List.getD_eq_getElem?_getD, List.getD_eq_getElem?_getD,
      List.getElem?_append_left (by omega)]
  rw [ofBytes, type, wordAt_append bytes rest (by omega),
    wordAt_append bytes rest (by omega)]
  rfl

/-- The types that the server knows. -/
def WellFormed (msg : GapRequestMsg) : Prop :=
  msg.type = 48 ∨ msg.type = 49

instance : DecidablePred WellFormed := fun _ => inferInstanceAs (Decidable (_ ∨ _))

end GapRequestMsg

namespace ITCHTradeMsg

/-- `ITCHTradeMsgSize`. -/
def size : Nat := 51

def words (msg : ITCHTradeMsg Word64) : List Word64 :=
  [msg.sequenceNumber, msg.tradeId, msg.timestamp, msg.price, msg.quantity]

def trailer (msg : ITCHTradeMsg Word64) : List UInt8 :=
  msg.buyerIsMaker.toNat.toUInt8 :: msg.bestMatch.toNat.toUInt8 :: msg.symbol.toList

def toBytes (msg : ITCHTradeMsg Word64) : List UInt8 :=
  msg.messageType :: (msg.words.flatMap Word64.toBytes ++ msg.trailer)

def ofBytes (bytes : List UInt8) : ITCHTradeMsg Word64 where
  messageType := bytes.getD 0 0
  sequenceNumber := wordAt bytes 1
  tradeId := wordAt bytes 9
  timestamp := wordAt bytes 17
  price := wordAt bytes 25
  quantity := wordAt bytes 33
  buyerIsMaker := bytes.getD 41 0 != 0
  bestMatch := bytes.getD 42 0 != 0
  symbol := Vector.ofFn fun index => bytes.getD (43 + index) 0

@[simp] theorem length_toBytes (msg : ITCHTradeMsg Word64) :
    msg.toBytes.length = size := by
  simp [toBytes, words, trailer, size]

theorem toUInt8_ne_zero (flag : Bool) : (flag.toNat.toUInt8 != 0) = flag := by
  cases flag <;> rfl

@[simp] theorem ofBytes_toBytes (msg : ITCHTradeMsg Word64) :
    ofBytes msg.toBytes = msg := by
  have word : ∀ index (inside : index < msg.words.length),
      wordAt msg.toBytes (1 + 8 * index) = msg.words[index] :=
    wordAt_words msg.messageType msg.words msg.trailer
  have trailing : ∀ index, msg.toBytes.getD (8 * msg.words.length + index + 1) 0 =
      msg.trailer.getD index 0 :=
    getD_words msg.messageType msg.words msg.trailer
  have symbol : (Vector.ofFn fun index : Fin 8 => msg.toBytes.getD (43 + index) 0) =
      msg.symbol := by
    apply Vector.ext
    intro index inside
    have shifted : 43 + index = 8 * msg.words.length + (index + 2) + 1 := by
      simp only [words, List.length_cons, List.length_nil]
      omega
    rw [Vector.getElem_ofFn, shifted, trailing]
    simp [trailer, inside]
  have buyerIsMaker : msg.toBytes.getD 41 0 = msg.buyerIsMaker.toNat.toUInt8 :=
    trailing 0
  have bestMatch : msg.toBytes.getD 42 0 = msg.bestMatch.toNat.toUInt8 := trailing 1
  have sequenceNumber : wordAt msg.toBytes 1 = msg.sequenceNumber := word 0 (by simp [words])
  have tradeId : wordAt msg.toBytes 9 = msg.tradeId := word 1 (by simp [words])
  have timestamp : wordAt msg.toBytes 17 = msg.timestamp := word 2 (by simp [words])
  have price : wordAt msg.toBytes 25 = msg.price := word 3 (by simp [words])
  have quantity : wordAt msg.toBytes 33 = msg.quantity := word 4 (by simp [words])
  rw [ofBytes, sequenceNumber, tradeId, timestamp, price, quantity, buyerIsMaker,
    bestMatch, symbol, toUInt8_ne_zero, toUInt8_ne_zero]
  rfl

end ITCHTradeMsg

end FeederNet
