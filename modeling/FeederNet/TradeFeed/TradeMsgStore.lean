import FeederNet.Foundation.Sorting
import FeederNet.Foundation.TextStream
import FeederNet.TradeFeed.TradeServer

/-! # TradeMsgStore

The store that a server reads from its trade files: one message for each line, numbered
in the order of the store. What `std::stod` makes of a text is a parameter, as the type of
its results is.
-/

namespace FeederNet.TradeFeed

inductive LoadError
  /-- `runtime_error("Trade file open failed")`. -/
  | openFailed
  | number (error : NumberError)
  deriving DecidableEq, Repr

/-- An entry of the directory. There are no `contents` when the file cannot be opened. -/
structure TradeFile where
  isRegularFile : Bool
  fileName : List UInt8
  contents : Option (List UInt8)
  deriving DecidableEq, Repr

/-- A regular file whose name ends with `.csv`. -/
def TradeFile.isTrades (file : TradeFile) : Bool :=
  file.isRegularFile && [46, 99, 115, 118].isSuffixOf file.fileName

namespace TradeMsgStore

variable {Double : Type}

abbrev Stod (Double : Type) := List UInt8 → Except NumberError Double

/-- `memcpy` of at most eight bytes into the zeroed `symbol` field. -/
def symbolField (symbol : List UInt8) : Vector UInt8 8 :=
  Vector.ofFn fun index => symbol.getD index 0

def isTrue (token : List UInt8) : Bool :=
  token == [84, 114, 117, 101]

/-- The message that `parseTrade` fills in. Every `getline` gets the token of the one
before it, and none of them is checked. -/
def readTrade (stod : Stod Double) (sequenceNumber : Word64) (line symbol : List UInt8) :
    Except NumberError (ITCHTradeMsg Double) := do
  let (token, ss) := (TextStream.ofBytes line).getline 44 []
  let tradeId ← stoull token
  let (token, ss) := ss.getline 44 token
  let price ← stod token
  let (token, ss) := ss.getline 44 token
  let quantity ← stod token
  let (token, ss) := ss.getline 44 token
  let (token, ss) := ss.getline 44 token
  let timestamp ← stoull token
  let (token, ss) := ss.getline 44 token
  let buyerIsMaker := isTrue token
  let (token, _) := ss.getline 44 token
  let bestMatch := isTrue token
  return {
    messageType := 80
    sequenceNumber := sequenceNumber
    tradeId := tradeId
    timestamp := timestamp
    price := price
    quantity := quantity
    buyerIsMaker := buyerIsMaker
    bestMatch := bestMatch
    symbol := symbolField symbol }

def parseTrade (stod : Stod Double) (symbol : List UInt8)
    (store : List (ITCHTradeMsg Double)) (line : List UInt8) :
    Except LoadError (List (ITCHTradeMsg Double)) :=
  match readTrade stod (size store) line symbol with
  | .error error => .error (.number error)
  | .ok msg => .ok (store ++ [msg])

def symbolOf (fileName : List UInt8) : List UInt8 :=
  fileName.takeWhile fun byte => byte ≠ 45

def readFile (stod : Stod Double) (store : List (ITCHTradeMsg Double))
    (file : TradeFile) : Except LoadError (List (ITCHTradeMsg Double)) :=
  match file.contents with
  | none => .error .openFailed
  | some bytes =>
      TextStream.forEachLine 10 (parseTrade stod (symbolOf file.fileName))
        (bytes.length + 2) (.ofBytes bytes) [] store

/-- `TradeMsgStore(fileName, path)`. -/
def ofFile (stod : Stod Double) (file : TradeFile) :
    Except LoadError (List (ITCHTradeMsg Double)) :=
  readFile stod [] file

def readDirectory (stod : Stod Double) (entries : List TradeFile) :
    Except LoadError (List (ITCHTradeMsg Double)) :=
  entries.foldlM (fun store file =>
    if file.isTrades then readFile stod store file else .ok store) []

/-- The comparator of the sort. -/
def earlier (first second : ITCHTradeMsg Double) : Prop :=
  first.timestamp < second.timestamp

def withSequence (sequenceNumber : Word64) (msg : ITCHTradeMsg Double) :
    ITCHTradeMsg Double :=
  { msg with sequenceNumber := sequenceNumber }

def byTimestamp : StdSort (ITCHTradeMsg Double) earlier :=
  .byKey earlier (fun msg => msg.timestamp.toNat) fun _ _ before => before

def numberedFrom (first : Nat) (store : List (ITCHTradeMsg Double)) :
    List (ITCHTradeMsg Double) :=
  store.mapIdx fun index msg => withSequence (BitVec.ofNat 64 (first + index)) msg

def ofDirectory (stod : Stod Double) (sort : StdSort (ITCHTradeMsg Double) earlier)
    (entries : List TradeFile) : Except LoadError (List (ITCHTradeMsg Double)) :=
  match readDirectory stod entries with
  | .error error => .error error
  | .ok store => .ok (numberedFrom 0 (sort.sort store))

/-! ## The messages of a file -/

def unnumbered (msg : ITCHTradeMsg Double) : ITCHTradeMsg Double :=
  withSequence 0 msg

def linesOf (file : TradeFile) : List (List UInt8) :=
  match file.contents with
  | none => []
  | some bytes => (TextStream.ofBytes bytes).lines 10

def tradeOf (stod : Stod Double) (file : TradeFile) (line : List UInt8) :
    Except NumberError (ITCHTradeMsg Double) :=
  readTrade stod 0 line (symbolOf file.fileName)

def tradesIn (stod : Stod Double) (file : TradeFile) : List (ITCHTradeMsg Double) :=
  (linesOf file).filterMap fun line => (tradeOf stod file line).toOption

def allTrades (stod : Stod Double) (entries : List TradeFile) :
    List (ITCHTradeMsg Double) :=
  (entries.filter TradeFile.isTrades).flatMap (tradesIn stod)

def Parses (stod : Stod Double) (file : TradeFile) : Prop :=
  file.contents.isSome = true ∧
    ∀ line ∈ linesOf file, (tradeOf stod file line).toOption.isSome = true

instance (stod : Stod Double) (file : TradeFile) : Decidable (Parses stod file) :=
  inferInstanceAs (Decidable (_ ∧ _))

section Reading

variable {stod : Stod Double} {file : TradeFile}

theorem numberedFrom_append (first : Nat) (front back : List (ITCHTradeMsg Double)) :
    numberedFrom first (front ++ back) =
      numberedFrom first front ++ numberedFrom (first + front.length) back := by
  rw [numberedFrom, numberedFrom, numberedFrom, List.mapIdx_append]
  simp only [Nat.add_assoc, Nat.add_comm front.length]

@[simp] theorem length_numberedFrom (first : Nat) (store : List (ITCHTradeMsg Double)) :
    (numberedFrom first store).length = store.length :=
  List.length_mapIdx

theorem map_numberedFrom {α : Type} (field : ITCHTradeMsg Double → α)
    (ignores : ∀ sequenceNumber msg, field (withSequence sequenceNumber msg) = field msg)
    (first : Nat) (store : List (ITCHTradeMsg Double)) :
    (numberedFrom first store).map field = store.map field := by
  apply List.ext_getElem
  · simp
  · intro index _ _
    simp [numberedFrom, ignores]

theorem map_unnumbered_numberedFrom (first : Nat) (store : List (ITCHTradeMsg Double)) :
    (numberedFrom first store).map unnumbered = store.map unnumbered :=
  map_numberedFrom unnumbered (fun _ _ => rfl) first store

theorem numberedFrom_ordered (first : Nat) {store : List (ITCHTradeMsg Double)}
    (ordered : store.Pairwise fun first second => first.timestamp ≤ second.timestamp) :
    (numberedFrom first store).Pairwise fun first second =>
      first.timestamp ≤ second.timestamp := by
  have timestamps : (store.map ITCHTradeMsg.timestamp).Pairwise (· ≤ ·) :=
    List.pairwise_map.mpr ordered
  rw [← map_numberedFrom ITCHTradeMsg.timestamp (fun _ _ => rfl) first] at timestamps
  exact List.pairwise_map.mp timestamps

theorem readTrade_eq_map (stod : Stod Double) (sequenceNumber : Word64)
    (line symbol : List UInt8) :
    readTrade stod sequenceNumber line symbol =
      (readTrade stod 0 line symbol).map (withSequence sequenceNumber) := by
  unfold readTrade
  rcases (TextStream.ofBytes line).getline 44 [] with ⟨token, ss⟩
  change (stoull token >>= _) = Except.map _ (stoull token >>= _)
  cases stoull token with
  | error error => rfl
  | ok tradeId =>
      rcases ss.getline 44 token with ⟨token, ss⟩
      change (stod token >>= _) = Except.map _ (stod token >>= _)
      cases stod token with
      | error error => rfl
      | ok price =>
          rcases ss.getline 44 token with ⟨token, ss⟩
          change (stod token >>= _) = Except.map _ (stod token >>= _)
          cases stod token with
          | error error => rfl
          | ok quantity =>
              rcases ss.getline 44 token with ⟨token, ss⟩
              dsimp only
              rcases ss.getline 44 token with ⟨token, ss⟩
              change (stoull token >>= _) = Except.map _ (stoull token >>= _)
              cases stoull token with
              | error error => rfl
              | ok timestamp => rfl

theorem parseTrade_of_ok {store : List (ITCHTradeMsg Double)} {line : List UInt8}
    {msg : ITCHTradeMsg Double} (parsed : tradeOf stod file line = .ok msg) :
    parseTrade stod (symbolOf file.fileName) store line =
      .ok (store ++ numberedFrom store.length [msg]) := by
  rw [parseTrade, readTrade_eq_map]
  rw [tradeOf] at parsed
  rw [parsed]
  rfl

/-- The loop of `ReadFile` appends the messages of its lines, numbered on from the size
of the store. -/
theorem foldlM_parseTrade (lines : List (List UInt8))
    (parses : ∀ line ∈ lines, (tradeOf stod file line).toOption.isSome = true)
    (store : List (ITCHTradeMsg Double)) :
    lines.foldlM (parseTrade stod (symbolOf file.fileName)) store =
      .ok (store ++ numberedFrom store.length
        (lines.filterMap fun line => (tradeOf stod file line).toOption)) := by
  induction lines generalizing store with
  | nil => exact congrArg Except.ok (List.append_nil store).symm
  | cons line lines induction =>
      rw [List.forall_mem_cons] at parses
      rcases Option.isSome_iff_exists.mp parses.1 with ⟨msg, found⟩
      have parsed : tradeOf stod file line = .ok msg := by
        cases result : tradeOf stod file line with
        | error error =>
            rw [result] at found
            cases found
        | ok other =>
            rw [result] at found
            exact congrArg Except.ok (Option.some.inj found)
      rw [List.foldlM_cons, parseTrade_of_ok parsed,
        List.filterMap_cons_some (f := fun line => (tradeOf stod file line).toOption) found]
      refine (induction parses.2 _).trans ?_
      rw [List.length_append, length_numberedFrom, List.append_assoc,
        ← numberedFrom_append]
      rfl

theorem readFile_of_parses (parses : Parses stod file)
    (store : List (ITCHTradeMsg Double)) :
    readFile stod store file =
      .ok (store ++ numberedFrom store.length (tradesIn stod file)) := by
  rcases parses with ⟨opens, lines⟩
  unfold readFile tradesIn
  unfold linesOf at lines ⊢
  cases contents : file.contents with
  | none =>
      rw [contents] at opens
      cases opens
  | some bytes =>
      rw [contents] at lines
      have enough : (TextStream.ofBytes bytes).size < bytes.length + 2 :=
        Nat.lt_succ_self _
      simp only [TextStream.forEachLine_eq_foldlM _ _ _ _ _ _ enough]
      exact foldlM_parseTrade _ lines store

theorem foldlM_readFile (entries : List TradeFile)
    (parses : ∀ file ∈ entries, file.isTrades = true → Parses stod file)
    (store : List (ITCHTradeMsg Double)) :
    entries.foldlM (fun store file =>
      if file.isTrades then readFile stod store file else .ok store) store =
        .ok (store ++ numberedFrom store.length (allTrades stod entries)) := by
  induction entries generalizing store with
  | nil => exact congrArg Except.ok (List.append_nil store).symm
  | cons file entries induction =>
      rw [List.forall_mem_cons] at parses
      rw [List.foldlM_cons]
      cases trades : file.isTrades with
      | false =>
          have same : allTrades stod (file :: entries) = allTrades stod entries := by
            rw [allTrades, List.filter_cons_of_neg (by simp [trades]), ← allTrades]
          rw [same]
          exact induction parses.2 store
      | true =>
          have more : allTrades stod (file :: entries) =
              tradesIn stod file ++ allTrades stod entries := by
            rw [allTrades, List.filter_cons_of_pos trades, List.flatMap_cons, ← allTrades]
          rw [more, numberedFrom_append, ← List.append_assoc]
          simp only [if_true, readFile_of_parses (parses.1 trades) store]
          refine (induction parses.2 _).trans ?_
          rw [List.length_append, length_numberedFrom]

theorem ofDirectory_of_parses {entries : List TradeFile}
    (sort : StdSort (ITCHTradeMsg Double) earlier)
    (parses : ∀ file ∈ entries, file.isTrades = true → Parses stod file) :
    ofDirectory stod sort entries =
      .ok (numberedFrom 0 (sort.sort (numberedFrom 0 (allTrades stod entries)))) := by
  rw [ofDirectory, readDirectory, foldlM_readFile entries parses []]
  rfl

theorem unnumbered_of_tradesIn : ∀ msg ∈ tradesIn stod file, unnumbered msg = msg := by
  intro msg member
  rcases List.mem_filterMap.mp member with ⟨line, _, found⟩
  have renumbered := readTrade_eq_map stod 0 line (symbolOf file.fileName)
  rw [tradeOf] at found
  cases result : readTrade stod 0 line (symbolOf file.fileName) with
  | error error =>
      rw [result] at found
      cases found
  | ok other =>
      rw [result] at found renumbered
      cases found
      exact (Except.ok.inj renumbered).symm

theorem map_unnumbered_allTrades (entries : List TradeFile) :
    (allTrades stod entries).map unnumbered = allTrades stod entries := by
  have same : ∀ msg ∈ allTrades stod entries, unnumbered msg = id msg := by
    intro msg member
    rcases List.mem_flatMap.mp member with ⟨file, _, found⟩
    exact unnumbered_of_tradesIn msg found
  rw [List.map_congr_left same, List.map_id]

theorem allTrades_perm {directory visited : List TradeFile}
    (same : visited.Perm directory) :
    (allTrades stod visited).Perm (allTrades stod directory) :=
  (same.filter _).flatMap_right _

end Reading

/-! ## What the constructors build -/

/-- The store holds the trades in the order of their timestamps, numbered by position,
and `get` finds each of them by its number. -/
structure WellOrdered (trades store : List (ITCHTradeMsg Double)) : Prop where
  same : (store.map unnumbered).Perm trades
  ordered : store.Pairwise fun first second => first.timestamp ≤ second.timestamp
  numbered : ∀ index (inside : index < store.length),
    store[index].sequenceNumber = BitVec.ofNat 64 index
  found : ∀ (index : Word64) (inside : index.toNat < store.length),
    get store index = some store[index.toNat]
  missing : ∀ index : Word64, store.length ≤ index.toNat → get store index = none

theorem wellOrdered_numberedFrom {trades sorted : List (ITCHTradeMsg Double)}
    (same : (sorted.map unnumbered).Perm trades)
    (ordered : sorted.Pairwise fun first second => first.timestamp ≤ second.timestamp) :
    WellOrdered trades (numberedFrom 0 sorted) where
  same := by
    rw [map_unnumbered_numberedFrom]
    exact same
  ordered := numberedFrom_ordered 0 ordered
  numbered index inside := by
    simp [numberedFrom, withSequence]
  found index inside := by
    rw [get, if_neg (Nat.not_le.mpr inside), List.getElem?_eq_getElem inside]
  missing index outside := if_pos outside

/-- From files whose lines all parse, the constructors build the store of the whole
directory in the order of the timestamps, however its entries are visited, and the store
of one file in the order of its lines. -/
theorem loads_wellOrdered (stod : Stod Double)
    (sort : StdSort (ITCHTradeMsg Double) earlier) (directory visited : List TradeFile)
    (visits : visited.Perm directory)
    (parses : ∀ file ∈ directory, file.isTrades = true → Parses stod file) :
    (∃ store, ofDirectory stod sort visited = .ok store ∧
      WellOrdered (allTrades stod directory) store) ∧
    ∀ file, Parses stod file →
      ofFile stod file = .ok (numberedFrom 0 (tradesIn stod file)) := by
  constructor
  · have parsesVisited : ∀ file ∈ visited, file.isTrades = true → Parses stod file :=
      fun file member => parses file (visits.subset member)
    refine ⟨_, ofDirectory_of_parses sort parsesVisited, ?_⟩
    apply wellOrdered_numberedFrom
    · have sorted := (sort.perm (numberedFrom 0 (allTrades stod visited))).map unnumbered
      rw [map_unnumbered_numberedFrom, map_unnumbered_allTrades] at sorted
      exact sorted.trans (allTrades_perm visits)
    · exact (sort.ordered _).imp BitVec.not_lt.mp
  · intro file parsesFile
    rw [ofFile, readFile_of_parses parsesFile]
    rfl

/-! ## Files of one trade -/

/-- A file with one line: a trade number, price and quantities of `1`, a timestamp of one
digit, and the two flags. -/
def oneTrade (symbol tradeId timestamp : UInt8) : TradeFile where
  isRegularFile := true
  fileName := [symbol, 45, 46, 99, 115, 118]
  contents := some ([tradeId, 44, 49, 44, 49, 44, 49, 44, timestamp, 44, 84, 114, 117, 101,
    44, 84, 114, 117, 101, 10])

def stodOne : Stod Word64 := fun token =>
  if token = [49] then .ok 0x3FF0000000000000 else .error .invalidArgument

theorem loads_wellOrdered_twoFiles :
    (∃ store, ofDirectory stodOne byTimestamp [oneTrade 66 50 54, oneTrade 65 49 53] =
        .ok store ∧
      WellOrdered (allTrades stodOne [oneTrade 65 49 53, oneTrade 66 50 54]) store) ∧
    ∀ file, Parses stodOne file →
      ofFile stodOne file = .ok (numberedFrom 0 (tradesIn stodOne file)) :=
  loads_wellOrdered stodOne byTimestamp _ _ (List.Perm.swap _ _ _) (by decide)

end TradeMsgStore

end FeederNet.TradeFeed
