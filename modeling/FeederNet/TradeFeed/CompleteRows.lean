import FeederNet.TradeFeed.TradeMsgStore
import Mathlib.Data.List.TakeWhile

/-! # Complete rows

Which lines `parseTrade` takes. Next to `std::stod`, it is a parameter which texts are
decimal numbers. The store changes only in the last line of `parseTrade`, so that a call
that throws yields none.
-/

namespace FeederNet.TradeFeed.TradeMsgStore

open TextStream

variable {Double : Type}

/-- The token that is converted for a column. A line with too few columns yields its last
cell. -/
def column (line : List UInt8) (index : Nat) : List UInt8 :=
  cellAt (line.splitOn 44) index

def valueOf (digits : List UInt8) : Nat :=
  digits.foldl (fun value byte => 10 * value + (byte.toNat - 48)) 0

/-- The whole text is a decimal number in the range of `uint64_t`. -/
structure IsUnsigned (text : List UInt8) : Prop where
  nonempty : text ≠ []
  digits : ∀ byte ∈ text, isDigit byte = true
  inRange : valueOf text < 2 ^ 64

/-- The whole text is a decimal number in the range of `double`. -/
def IsDouble (stod : Stod Double) (decimal : List UInt8 → Prop) (text : List UInt8) : Prop :=
  decimal text ∧ ∃ value, stod text = .ok value

/-- The line has all seven columns, and numbers in those that are numeric. What stands in
column 3 is not looked at by `parseTrade`. -/
structure Complete (stod : Stod Double) (decimal : List UInt8 → Prop) (line : List UInt8) :
    Prop where
  columns : 7 ≤ (line.splitOn 44).length
  tradeId : IsUnsigned (column line 0)
  price : IsDouble stod decimal (column line 1)
  quantity : IsDouble stod decimal (column line 2)
  quoteQuantity : IsDouble stod decimal (column line 3)
  timestamp : IsUnsigned (column line 4)

def rowMessage (sequenceNumber tradeId timestamp : Word64) (price quantity : Double)
    (line symbol : List UInt8) : ITCHTradeMsg Double where
  messageType := 80
  sequenceNumber := sequenceNumber
  tradeId := tradeId
  timestamp := timestamp
  price := price
  quantity := quantity
  buyerIsMaker := isTrue (column line 5)
  bestMatch := isTrue (column line 6)
  symbol := symbolField symbol

/-- A complete line adds one message to the store, and any other line throws. -/
structure TakesRow (stod : Stod Double) (decimal : List UInt8 → Prop) (symbol : List UInt8)
    (store : List (ITCHTradeMsg Double)) (line : List UInt8) : Prop where
  complete : Complete stod decimal line → ∃ price quantity,
    stod (column line 1) = .ok price ∧ stod (column line 2) = .ok quantity ∧
    parseTrade stod symbol store line = .ok (store ++
      [rowMessage (size store) (BitVec.ofNat 64 (valueOf (column line 0)))
        (BitVec.ofNat 64 (valueOf (column line 4))) price quantity line symbol])
  incomplete : ¬ Complete stod decimal line → ∃ error,
    parseTrade stod symbol store line = .error error

/-- White space, a sign and a row of digits whose value is in range, and then no digit. -/
def StartsUnsigned (text : List UInt8) : Prop :=
  ∃ spaces sign digits rest, text = spaces ++ (sign ++ (digits ++ rest)) ∧
    (∀ byte ∈ spaces, isSpace byte = true) ∧ (sign = [] ∨ sign = [43] ∨ sign = [45]) ∧
    digits ≠ [] ∧ (∀ byte ∈ digits, isDigit byte = true) ∧
    (∀ byte, rest.head? = some byte → isDigit byte = false) ∧ valueOf digits < 2 ^ 64

/-- The four tokens that are converted start with numbers in range. -/
structure Readable (value : List UInt8 → Option Double) (line : List UInt8) : Prop where
  tradeId : StartsUnsigned (column line 0)
  price : startsDouble (column line 1) = true ∧ value (column line 1) ≠ none
  quantity : startsDouble (column line 2) = true ∧ value (column line 2) ≠ none
  timestamp : StartsUnsigned (column line 4)

section Rows

variable {stod : Stod Double} {decimal : List UInt8 → Prop} {line symbol : List UInt8}
  {store : List (ITCHTradeMsg Double)}

/-! ## Tokens -/

theorem getline_first (line : List UInt8) :
    ∃ ss, (TextStream.ofBytes line).getline 44 [] = (column line 0, ss) ∧
      ss.cells 44 = (line.splitOn 44).drop 1 := by
  have reads := getline_cells (.ofBytes line) 44 []
  have cells : (TextStream.ofBytes line).cells 44 = line.splitOn 44 := rfl
  rw [cells] at reads
  refine ⟨_, Prod.ext ?_ rfl, by rw [reads.2, List.drop_one]⟩
  rw [reads.1, column, cellAt, List.headD_eq_head?_getD, List.head?_eq_getElem?,
    List.getD_eq_getElem?_getD, List.getElem?_eq_getElem (List.length_pos_iff.mpr
      (List.splitOn_ne_nil 44 line))]
  rfl

theorem getline_next {ss : TextStream} {index : Nat}
    (rest : ss.cells 44 = (line.splitOn 44).drop (index + 1)) :
    ∃ next, ss.getline 44 (column line index) = (column line (index + 1), next) ∧
      next.cells 44 = (line.splitOn 44).drop (index + 2) := by
  have reads := getline_cells ss 44 (column line index)
  rw [rest] at reads
  refine ⟨_, Prod.ext ?_ rfl, by rw [reads.2, List.tail_drop]⟩
  rw [reads.1]
  exact headD_drop_cellAt (List.splitOn_ne_nil 44 line) index

theorem readTrade_eq (stod : Stod Double) (sequenceNumber : Word64)
    (line symbol : List UInt8) :
    readTrade stod sequenceNumber line symbol = (do
      let tradeId ← stoull (column line 0)
      let price ← stod (column line 1)
      let quantity ← stod (column line 2)
      let timestamp ← stoull (column line 4)
      return rowMessage sequenceNumber tradeId timestamp price quantity line symbol) := by
  rcases getline_first line with ⟨ss0, read0, rest0⟩
  rcases getline_next rest0 with ⟨ss1, read1, rest1⟩
  rcases getline_next rest1 with ⟨ss2, read2, rest2⟩
  rcases getline_next rest2 with ⟨ss3, read3, rest3⟩
  rcases getline_next rest3 with ⟨ss4, read4, rest4⟩
  rcases getline_next rest4 with ⟨ss5, read5, rest5⟩
  rcases getline_next rest5 with ⟨ss6, read6, _⟩
  simp only [readTrade, read0, read1, read2, read3, read4, read5, read6]
  rfl

theorem parseTrade_eq_ok_iff {after : List (ITCHTradeMsg Double)} :
    parseTrade stod symbol store line = .ok after ↔ ∃ tradeId price quantity timestamp,
      (stoull (column line 0) = .ok tradeId ∧ stod (column line 1) = .ok price ∧
        stod (column line 2) = .ok quantity ∧ stoull (column line 4) = .ok timestamp) ∧
      after = store ++ [rowMessage (size store) tradeId timestamp price quantity line symbol] := by
  rw [parseTrade, readTrade_eq]
  constructor
  · intro parses
    cases first : stoull (column line 0) with
    | error error => rw [first] at parses; cases parses
    | ok tradeId =>
        cases second : stod (column line 1) with
        | error error => rw [first, second] at parses; cases parses
        | ok price =>
            cases third : stod (column line 2) with
            | error error => rw [first, second, third] at parses; cases parses
            | ok quantity =>
                cases last : stoull (column line 4) with
                | error error => rw [first, second, third, last] at parses; cases parses
                | ok timestamp =>
                    rw [first, second, third, last] at parses
                    cases parses
                    exact ⟨_, _, _, _, ⟨rfl, rfl, rfl, rfl⟩, rfl⟩
  · rintro ⟨tradeId, price, quantity, timestamp, ⟨first, second, third, last⟩, rfl⟩
    rw [first, second, third, last]
    rfl

/-! ## Numbers -/

theorem stoull_of_isUnsigned {text : List UInt8} (unsigned : IsUnsigned text) :
    stoull text = .ok (BitVec.ofNat 64 (valueOf text)) := by
  rcases unsigned with ⟨nonempty, digits, inRange⟩
  have whole : text.takeWhile isDigit = text := List.takeWhile_eq_self_iff.mpr digits
  rcases List.exists_cons_of_ne_nil nonempty with ⟨byte, rest, same⟩
  have digit := digits byte (by rw [same]; exact List.mem_cons_self)
  have start : readSign (text.dropWhile isSpace) = (false, text) := by
    rw [same, List.dropWhile_cons_of_neg (by rw [(isDigit_only digit).1]; decide),
      readSign_of_isDigit digit]
  have counted : ¬ text.isEmpty = true := by simpa using nonempty
  rw [stoull, start]
  simp only [whole, if_neg counted]
  exact if_neg (Nat.not_le.mpr inRange)

theorem takeWhile_digits {digits rest : List UInt8}
    (inside : ∀ byte ∈ digits, isDigit byte = true)
    (ends : ∀ byte, rest.head? = some byte → isDigit byte = false) :
    (digits ++ rest).takeWhile isDigit = digits := by
  rw [List.takeWhile_append_of_pos inside]
  cases rest with
  | nil => simp
  | cons byte rest =>
      rw [List.takeWhile_cons_of_neg (by rw [ends byte rfl]; exact Bool.false_ne_true),
        List.append_nil]

theorem readSign_digits {sign digits : List UInt8}
    (signed : sign = [] ∨ sign = [43] ∨ sign = [45]) (nonempty : digits ≠ [])
    (inside : ∀ byte ∈ digits, isDigit byte = true) (rest : List UInt8) :
    (readSign (sign ++ (digits ++ rest))).2 = digits ++ rest ∧
      (sign ++ (digits ++ rest)).dropWhile isSpace = sign ++ (digits ++ rest) := by
  rcases List.exists_cons_of_ne_nil nonempty with ⟨byte, digits, rfl⟩
  have digit := inside byte List.mem_cons_self
  rcases signed with rfl | rfl | rfl
  · refine ⟨?_, List.dropWhile_cons_of_neg ?_⟩
    · exact congrArg Prod.snd (readSign_of_isDigit digit (digits ++ rest))
    · rw [(isDigit_only digit).1]
      exact Bool.false_ne_true
  · exact ⟨rfl, List.dropWhile_cons_of_neg (by decide)⟩
  · exact ⟨rfl, List.dropWhile_cons_of_neg (by decide)⟩

theorem stoull_eq_ok_iff (text : List UInt8) :
    (∃ value, stoull text = .ok value) ↔ StartsUnsigned text := by
  have taken : (∃ value, stoull text = .ok value) ↔
      (readSign (text.dropWhile isSpace)).2.takeWhile isDigit ≠ [] ∧
        valueOf ((readSign (text.dropWhile isSpace)).2.takeWhile isDigit) < 2 ^ 64 := by
    rw [stoull, valueOf]
    simp only [List.isEmpty_iff]
    split
    · rename_i empty
      exact iff_of_false (fun ⟨_, same⟩ => by cases same) fun given => given.1 empty
    · split
      · rename_i large
        exact iff_of_false (fun ⟨_, same⟩ => by cases same)
          fun given => absurd large (Nat.not_le.mpr given.2)
      · rename_i found small
        exact iff_of_true ⟨_, rfl⟩ ⟨found, Nat.lt_of_not_le small⟩
  rw [taken]
  constructor
  · rintro ⟨nonempty, inRange⟩
    rcases exists_sign (text.dropWhile isSpace) with ⟨sign, signed, split⟩
    refine ⟨text.takeWhile isSpace, sign, _,
      (readSign (text.dropWhile isSpace)).2.dropWhile isDigit, ?_, ?_, signed, nonempty, ?_, ?_,
      inRange⟩
    · rw [List.takeWhile_append_dropWhile, ← split, List.takeWhile_append_dropWhile]
    · exact fun byte member => List.mem_takeWhile_imp member
    · exact fun byte member => List.mem_takeWhile_imp member
    · intro byte first
      have stops := List.head?_dropWhile_not isDigit (readSign (text.dropWhile isSpace)).2
      rw [first] at stops
      exact stops
  · rintro ⟨spaces, sign, digits, rest, rfl, blank, signed, nonempty, inside, ends, inRange⟩
    rcases readSign_digits signed nonempty inside rest with ⟨unsigned, start⟩
    rw [List.dropWhile_append_of_pos blank, start, unsigned, takeWhile_digits inside ends]
    exact ⟨nonempty, inRange⟩

theorem stod_eq_ok_iff (value : List UInt8 → Option Double) (text : List UInt8) :
    (∃ number, FeederNet.stod value text = .ok number) ↔
      startsDouble text = true ∧ value text ≠ none := by
  rw [FeederNet.stod]
  cases starts : startsDouble text with
  | false => simp
  | true => cases value text <;> simp

end Rows

/-! ## Lines -/

section Lines

variable {value : List UInt8 → Option Double} {decimal : List UInt8 → Prop}
  {line symbol : List UInt8} {store : List (ITCHTradeMsg Double)}

/-- `parseTrade` takes the readable lines, the incomplete ones among them. -/
theorem readable_iff :
    (∃ after, parseTrade (stod value) symbol store line = .ok after) ↔
      Readable value line := by
  constructor
  · rintro ⟨after, parses⟩
    rcases parseTrade_eq_ok_iff.mp parses with ⟨_, _, _, _, ⟨first, second, third, last⟩, _⟩
    exact ⟨(stoull_eq_ok_iff _).mp ⟨_, first⟩, (stod_eq_ok_iff _ _).mp ⟨_, second⟩,
      (stod_eq_ok_iff _ _).mp ⟨_, third⟩, (stoull_eq_ok_iff _).mp ⟨_, last⟩⟩
  · intro readable
    rcases (stoull_eq_ok_iff _).mpr readable.tradeId with ⟨_, first⟩
    rcases (stod_eq_ok_iff _ _).mpr readable.price with ⟨_, second⟩
    rcases (stod_eq_ok_iff _ _).mpr readable.quantity with ⟨_, third⟩
    rcases (stoull_eq_ok_iff _).mpr readable.timestamp with ⟨_, last⟩
    exact ⟨_, parseTrade_eq_ok_iff.mpr ⟨_, _, _, _, ⟨first, second, third, last⟩, rfl⟩⟩

theorem Complete.parseTrade {stod : Stod Double} (complete : Complete stod decimal line) :
    ∃ price quantity, stod (column line 1) = .ok price ∧ stod (column line 2) = .ok quantity ∧
      parseTrade stod symbol store line = .ok (store ++
        [rowMessage (size store) (BitVec.ofNat 64 (valueOf (column line 0)))
          (BitVec.ofNat 64 (valueOf (column line 4))) price quantity line symbol]) := by
  rcases complete.price.2 with ⟨price, second⟩
  rcases complete.quantity.2 with ⟨quantity, third⟩
  refine ⟨price, quantity, second, third, ?_⟩
  exact parseTrade_eq_ok_iff.mpr ⟨_, _, _, _, ⟨stoull_of_isUnsigned complete.tradeId, second,
    third, stoull_of_isUnsigned complete.timestamp⟩, rfl⟩

/-- `parseTrade` takes just the complete lines, except that it also takes the incomplete
lines whose tokens for the columns 0, 1, 2 and 4 start with numbers in range. -/
theorem takesRow_iff (value : List UInt8 → Option Double) (decimal : List UInt8 → Prop)
    (symbol : List UInt8) (store : List (ITCHTradeMsg Double)) (line : List UInt8) :
    TakesRow (stod value) decimal symbol store line ↔
      Complete (stod value) decimal line ∨ ¬ Readable value line := by
  constructor
  · intro takes
    by_contra neither
    rw [not_or, not_not] at neither
    rcases takes.incomplete neither.1 with ⟨error, throws⟩
    rcases readable_iff.mpr neither.2 with ⟨after, parses⟩
    rw [throws] at parses
    cases parses
  · intro given
    refine ⟨Complete.parseTrade, fun incomplete => ?_⟩
    have unreadable := given.resolve_left incomplete
    cases parses : parseTrade (stod value) symbol store line with
    | error error => exact ⟨error, rfl⟩
    | ok after => exact absurd (readable_iff.mp ⟨after, parses⟩) unreadable

end Lines

/-- A line of one digit. Its only cell is taken for every column. -/
theorem one_cell_is_taken :
    parseTrade (stod fun _ => some 0x3FF0000000000000) [] [] [49] = .ok
        [rowMessage 0 1 1 0x3FF0000000000000 (0x3FF0000000000000 : Word64) [49] []] ∧
      ∀ decimal, ¬ TakesRow (stod fun _ => some (0x3FF0000000000000 : Word64)) decimal
        [] [] [49] := by
  have taken : parseTrade (stod fun _ => some 0x3FF0000000000000) [] [] [49] = .ok
      [rowMessage 0 1 1 0x3FF0000000000000 (0x3FF0000000000000 : Word64) [49] []] := rfl
  refine ⟨taken, fun decimal takes => ?_⟩
  rcases takes.incomplete fun complete => absurd complete.columns (by decide) with
    ⟨error, throws⟩
  rw [taken] at throws
  cases throws

end FeederNet.TradeFeed.TradeMsgStore
