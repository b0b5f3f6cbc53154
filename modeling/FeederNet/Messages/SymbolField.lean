import FeederNet.AggTradeMQSender
import FeederNet.DBManager
import FeederNet.TradeFeed.TradeMsgStore
import Mathlib.Data.List.GetD

/-! # The symbol of a message

`parseTrade` copies the symbol to a field of eight bytes, which need not end with a zero
byte. `DBManager` reads the field as a text that ends with one, `AggregateTrade` as a text
of at most eight bytes.
-/

namespace FeederNet

variable {Double : Type} {symbol : List UInt8}

/-! ## The writer -/

namespace TradeFeed.TradeMsgStore

theorem readTrade_symbol {stod : Stod Double} {sequenceNumber : Word64}
    {line : List UInt8} {msg : ITCHTradeMsg Double}
    (read : readTrade stod sequenceNumber line symbol = .ok msg) :
    msg.symbol = symbolField symbol := by
  simp only [readTrade, bind, Except.bind, pure, Except.pure] at read
  repeat' split at read
  all_goals cases read
  rfl

theorem toList_symbolField (fits : symbol.length ≤ 8) :
    (symbolField symbol).toList = symbol ++ List.replicate (8 - symbol.length) 0 := by
  apply List.ext_getElem
  · simp
    omega
  · intro index inside _
    simp only [symbolField, Vector.getElem_toList, Vector.getElem_ofFn, List.getElem_append]
    split
    · rename_i copied
      exact List.getD_eq_getElem _ _ copied
    · rename_i behind
      rw [List.getElem_replicate, List.getD_eq_default _ _ (by omega)]

end TradeFeed.TradeMsgStore

/-! ## The readers -/

/-- The field, and what lies behind the message in memory. -/
def DBManager.Message.symbolMemory (msg : DBManager.Message Double) : List UInt8 :=
  msg.contents.symbol.toList ++ msg.following

theorem DBManager.Message.row_symbol (msg : DBManager.Message Double) :
    msg.row.symbol = CString.text msg.symbolMemory :=
  rfl

def DBManager.Message.trade (msg : DBManager.Message Double) :
    AggTradeMQSender.Trade Double where
  buffer := msg.buffer
  contents := msg.contents

/-- Read in memory, the key of `AggregateTrade` is that of the field. -/
theorem DBManager.Message.trade_symbol (msg : DBManager.Message Double) :
    msg.trade.symbol = CString.boundedText msg.symbolMemory 8 := by
  have field := CString.boundedText_append msg.contents.symbol.toList
  rw [Vector.length_toList] at field
  have alone := field []
  rw [List.append_nil] at alone
  rw [symbolMemory, field msg.following]
  exact alone

/-- The same symbol reaches both consumers, and neither looks past the field. -/
structure SymbolSurvives (symbol : List UInt8) (msg : DBManager.Message Double) :
    Prop where
  row : msg.row.symbol = symbol
  key : msg.trade.symbol = symbol
  rowReads : CString.strlenReads msg.symbolMemory ≤ 8
  keyReads : CString.strnlenReads msg.symbolMemory 8 ≤ 8

section Stored

variable {stod : TradeFeed.TradeMsgStore.Stod Double} {sequenceNumber : Word64}
  {line : List UInt8} {contents : ITCHTradeMsg Double}

theorem symbolMemory_eq (fits : symbol.length ≤ 8)
    (read : TradeFeed.TradeMsgStore.readTrade stod sequenceNumber line symbol =
      .ok contents) (buffer : Nat) (following : List UInt8) :
    (DBManager.Message.mk buffer contents following).symbolMemory =
      symbol ++ (List.replicate (8 - symbol.length) 0 ++ following) := by
  rw [DBManager.Message.symbolMemory, TradeFeed.TradeMsgStore.readTrade_symbol read,
    TradeFeed.TradeMsgStore.toList_symbolField fits, List.append_assoc]

theorem trade_symbol_of_readTrade (fits : symbol.length ≤ 8)
    (nonNul : ∀ byte ∈ symbol, byte ≠ 0)
    (read : TradeFeed.TradeMsgStore.readTrade stod sequenceNumber line symbol =
      .ok contents) (buffer : Nat) (following : List UInt8) :
    (DBManager.Message.mk buffer contents following).trade.symbol = symbol := by
  have field : CString.text (symbol ++ List.replicate (8 - symbol.length) 0) = symbol := by
    rw [CString.text_append nonNul, CString.text_replicate_zero, List.append_nil]
  have length : (symbol ++ List.replicate (8 - symbol.length) (0 : UInt8)).length = 8 := by
    rw [List.length_append, List.length_replicate]
    omega
  rw [DBManager.Message.trade_symbol, symbolMemory_eq fits read, ← List.append_assoc]
  have whole := CString.boundedText_append
    (symbol ++ List.replicate (8 - symbol.length) 0) following
  rw [length, field] at whole
  exact whole

theorem text_symbolMemory_of_short (short : symbol.length < 8)
    (nonNul : ∀ byte ∈ symbol, byte ≠ 0)
    (read : TradeFeed.TradeMsgStore.readTrade stod sequenceNumber line symbol =
      .ok contents) (buffer : Nat) (following : List UInt8) :
    CString.text (DBManager.Message.mk buffer contents following).symbolMemory =
      symbol := by
  obtain ⟨zeros, room⟩ : ∃ zeros, 8 - symbol.length = zeros + 1 :=
    Nat.exists_eq_succ_of_ne_zero (by omega)
  rw [symbolMemory_eq short.le read, room, List.replicate_succ]
  exact CString.text_terminated nonNul _

/-- The database gets the symbol of a full field only when a zero byte happens to lie
behind it. -/
theorem row_symbol_iff_of_full (full : symbol.length = 8)
    (nonNul : ∀ byte ∈ symbol, byte ≠ 0)
    (read : TradeFeed.TradeMsgStore.readTrade stod sequenceNumber line symbol =
      .ok contents) (buffer : Nat) (following : List UInt8) :
    (DBManager.Message.mk buffer contents following).row.symbol = symbol ↔
      ∀ byte ∈ following.head?, byte = 0 := by
  rw [DBManager.Message.row_symbol, symbolMemory_eq full.le read, full, Nat.sub_self,
    List.replicate_zero, List.nil_append, CString.text_append nonNul,
    List.append_right_eq_self, CString.text_eq_nil_iff]

theorem strlenReads_of_full (full : symbol.length = 8)
    (nonNul : ∀ byte ∈ symbol, byte ≠ 0)
    (read : TradeFeed.TradeMsgStore.readTrade stod sequenceNumber line symbol =
      .ok contents) (buffer : Nat) (following : List UInt8) :
    8 < CString.strlenReads
      (DBManager.Message.mk buffer contents following).symbolMemory := by
  rw [CString.strlenReads, CString.strlen, symbolMemory_eq full.le read,
    CString.text_append nonNul, List.length_append]
  omega

/-- A symbol of at most eight characters survives the message format exactly when it
leaves room for a zero byte in the field. -/
theorem symbolSurvives_iff (stod : TradeFeed.TradeMsgStore.Stod Double)
    (sequenceNumber : Word64) (line symbol : List UInt8)
    (contents : ITCHTradeMsg Double) (buffer : Nat) (following : List UInt8)
    (fits : symbol.length ≤ 8) (nonNul : ∀ byte ∈ symbol, byte ≠ 0)
    (read : TradeFeed.TradeMsgStore.readTrade stod sequenceNumber line symbol =
      .ok contents) :
    SymbolSurvives symbol ⟨buffer, contents, following⟩ ↔ symbol.length < 8 := by
  constructor
  · intro survives
    by_contra long
    have full : symbol.length = 8 := by omega
    have beyond := strlenReads_of_full full nonNul read buffer following
    exact absurd survives.rowReads (Nat.not_le.mpr beyond)
  · intro short
    have text := text_symbolMemory_of_short short nonNul read buffer following
    refine ⟨text, trade_symbol_of_readTrade fits nonNul read buffer following, ?_,
      CString.strnlenReads_le _ _⟩
    rw [CString.strlenReads, CString.strlen, text]
    omega

/-- `7,2,3,6,1,True,True`. -/
def oneTradeLine : List UInt8 :=
  [55, 44, 50, 44, 51, 44, 54, 44, 49, 44, 84, 114, 117, 101, 44, 84, 114, 117, 101]

/-- `ETHUSDC`. -/
def shortSymbol : List UInt8 := [69, 84, 72, 85, 83, 68, 67]

/-- `BTCFDUSD`. -/
def fullSymbol : List UInt8 := [66, 84, 67, 70, 68, 85, 83, 68]

def tradeWith (symbol : List UInt8) : ITCHTradeMsg Unit where
  messageType := 80
  sequenceNumber := 0
  tradeId := 7
  timestamp := 1
  price := ()
  quantity := ()
  buyerIsMaker := true
  bestMatch := true
  symbol := TradeFeed.TradeMsgStore.symbolField symbol

theorem symbolSurvives_iff_short :
    SymbolSurvives shortSymbol ⟨0, tradeWith shortSymbol, [80]⟩ ↔ shortSymbol.length < 8 :=
  symbolSurvives_iff (fun _ => .ok ()) 0 oneTradeLine shortSymbol (tradeWith shortSymbol)
    0 [80] (by decide) (by simp [shortSymbol]) rfl

/-- The next slot of the pool holds a message of type `P`, which the row takes for the
ninth character of the symbol. -/
theorem full_symbol_runs_on :
    TradeFeed.TradeMsgStore.readTrade (fun _ => .ok ()) 0 oneTradeLine fullSymbol =
        .ok (tradeWith fullSymbol) ∧
      fullSymbol.length ≤ 8 ∧ (∀ byte ∈ fullSymbol, byte ≠ 0) ∧
      (DBManager.Message.mk 0 (tradeWith fullSymbol) [80]).row.symbol =
        fullSymbol ++ [80] ∧
      ¬ SymbolSurvives fullSymbol ⟨0, tradeWith fullSymbol, [80]⟩ := by
  have row : (DBManager.Message.mk 0 (tradeWith fullSymbol) [80]).row.symbol =
      fullSymbol ++ [80] := by decide
  refine ⟨rfl, by decide, by simp [fullSymbol], row, ?_⟩
  intro survives
  have same := survives.row
  rw [row] at same
  cases same

end Stored

end FeederNet
