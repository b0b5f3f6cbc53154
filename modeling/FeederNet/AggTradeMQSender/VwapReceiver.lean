import FeederNet.AggTradeMQSender.Aggregates
import FeederNet.Foundation.DecimalText
import FeederNet.Foundation.Utf8

/-! # vwapReceiver

The Python process that subscribes to the records of the aggregator, takes their texts apart
and prints about once a second the first rows of what has come. The arithmetic of `double`,
how `%.6f` prints one and how `float` reads it are parameters, and so is which milliseconds
`pd.to_datetime` takes.
-/

namespace FeederNet.AggTradeMQSender.VwapReceiver

open DecimalText (int)

variable {Double : Type u}

inductive Error
  | unicodeDecodeError
  | valueError
  | outOfBoundsDatetime
  deriving DecidableEq, Repr

structure Row (Double : Type u) where
  timestamp : ℤ
  symbol : List UInt8
  vwap : Double
  deriving DecidableEq, Repr

/-- `printed` holds what has been printed so far. -/
structure State (Double : Type u) where
  records : List (Row Double)
  lastPrintTs : Option ℤ
  printed : List (List (Row Double))
  deriving DecidableEq, Repr

def initial : State Double where
  records := []
  lastPrintTs := none
  printed := []

/-- `df.head()`. -/
def head (frame : List (Row Double)) : List (Row Double) :=
  frame.take 5

def parse (float : List UInt8 → Option Double) (inRange : ℤ → Bool) (msg : List UInt8) :
    Except Error (Row Double) :=
  if IsUtf8 msg then
    match msg.splitOn 44 with
    | [symbol, tsStr, vwapStr] =>
        match int tsStr with
        | none => .error .valueError
        | some ts =>
            if inRange ts then
              match float vwapStr with
              | none => .error .valueError
              | some vwap => .ok { timestamp := ts, symbol := symbol, vwap := vwap }
            else .error .outOfBoundsDatetime
    | _ => .error .valueError
  else .error .unicodeDecodeError

def isDue (state : State Double) (ts : ℤ) : Bool :=
  match state.lastPrintTs with
  | none => true
  | some last => 1000 ≤ ts - last

def append (state : State Double) (row : Row Double) : State Double :=
  if isDue state row.timestamp then
    { records := []
      lastPrintTs := some row.timestamp
      printed := state.printed ++ [head (state.records ++ [row])] }
  else { state with records := state.records ++ [row] }

def receive (float : List UInt8 → Option Double) (inRange : ℤ → Bool) (state : State Double)
    (msg : List UInt8) : Except Error (State Double) :=
  (parse float inRange msg).map (append state)

def run (float : List UInt8 → Option Double) (inRange : ℤ → Bool) (state : State Double)
    (messages : List (List UInt8)) : Except Error (State Double) :=
  messages.foldlM (receive float inRange) state

/-! ## Texts -/

theorem text_boundedText (memory : List UInt8) (bound : Nat) :
    CString.text (CString.boundedText memory bound) = CString.boundedText memory bound := by
  rw [CString.boundedText, CString.strnlen, Nat.min_comm, ← List.take_take,
    CString.take_strlen, CString.text, List.takeWhile_eq_self_iff]
  intro byte member
  have inText : byte ∈ CString.text memory := List.mem_of_mem_take member
  exact List.mem_takeWhile_imp (p := fun byte => decide (byte ≠ 0)) inText

/-- A printed number consists of ASCII characters other than a comma. -/
structure IsPlain (text : List UInt8) : Prop where
  ascii : ∀ byte ∈ text, byte < 128
  noComma : 44 ∉ text

theorem isPlain_of_digits {text : List UInt8} (digits : ∀ byte ∈ text, isDigit byte = true) :
    IsPlain text where
  ascii := by
    intro byte member
    have digit := digits byte member
    rw [isDigit, Bool.and_eq_true, decide_eq_true_iff, decide_eq_true_iff] at digit
    exact UInt8.lt_of_le_of_lt digit.2 (by decide)
  noComma := DecimalText.not_mem_of_digits digits rfl

theorem IsPlain.append {front back : List UInt8} (first : IsPlain front)
    (second : IsPlain back) : IsPlain (front ++ back) where
  ascii := by
    intro byte member
    exact (List.mem_append.mp member).elim (first.ascii byte) (second.ascii byte)
  noComma := by
    intro member
    exact (List.mem_append.mp member).elim first.noComma second.noComma

theorem isPlain_singleton {byte : UInt8} (ascii : byte < 128) (noComma : byte ≠ 44) :
    IsPlain [byte] where
  ascii := List.forall_mem_singleton.mpr ascii
  noComma member := noComma (List.mem_singleton.mp member).symm

/-- What the receiver relies on: `%.6f` prints a plain text, which `float` reads. -/
structure ReadsBack [Arithmetic Double] (float : List UInt8 → Option Double)
    (rounded : Double → Double) : Prop where
  plain : ∀ value : Double, IsPlain (Arithmetic.fixed value)
  float : ∀ value, float (Arithmetic.fixed value) = some (rounded value)

@[reducible] def sixPlaces : Arithmetic ℚ :=
  rational (DecimalText.fixed 6)

theorem isPlain_fixed (places : Nat) (value : ℚ) : IsPlain (DecimalText.fixed places value) := by
  rw [DecimalText.fixed]
  apply IsPlain.append
  · apply IsPlain.append
    · apply IsPlain.append
      · split
        · exact isPlain_singleton (by decide) (by decide)
        · exact ⟨List.forall_mem_nil _, List.not_mem_nil⟩
      · exact isPlain_of_digits fun _ => DecimalText.isDigit_of_mem_decimal
    · exact isPlain_singleton (by decide) (by decide)
  · exact isPlain_of_digits fun _ => DecimalText.isDigit_of_mem_padded

theorem readsBack_sixPlaces :
    @ReadsBack ℚ sixPlaces DecimalText.float (DecimalText.rounded 6) := by
  let := sixPlaces
  exact ⟨isPlain_fixed 6, DecimalText.float_fixed (by decide)⟩

def refusal (inRange : ℤ → Bool) (record : Record Double) : Option Error :=
  if ¬ IsUtf8 record.symbol then some .unicodeDecodeError
  else if 44 ∈ record.symbol then some .valueError
  else if inRange record.time.toNat then none
  else some .outOfBoundsDatetime

def rowOf (rounded : Double → Double) (record : Record Double) : Row Double where
  timestamp := record.time.toNat
  symbol := record.symbol
  vwap := rounded record.vwap

section Texts

variable [Arithmetic Double] {float : List UInt8 → Option Double} {rounded : Double → Double}

theorem text_symbol {record : Record Double} (correct : record.Correct) :
    CString.text record.symbol = record.symbol := by
  rcases List.exists_mem_of_ne_nil _ correct.trades with ⟨msg, inside⟩
  rw [← (correct.labels msg inside).1]
  exact text_boundedText _ _

theorem parse_text (reads : ReadsBack float rounded) (inRange : ℤ → Bool)
    {record : Record Double} (symbol : CString.text record.symbol = record.symbol) :
    parse float inRange record.text =
      match refusal inRange record with
      | some error => .error error
      | none => .ok (rowOf rounded record) := by
  have time : IsPlain (CString.decimal record.time.toNat) :=
    isPlain_of_digits fun _ => DecimalText.isDigit_of_mem_decimal
  have vwap := reads.plain record.vwap
  have parts : record.text = record.symbol ++
      44 :: (CString.decimal record.time.toNat ++ 44 :: Arithmetic.fixed record.vwap) := by
    simp only [Record.text, symbol, List.append_assoc, List.cons_append, List.nil_append]
  have ascii : ∀ byte ∈ 44 :: (CString.decimal record.time.toNat ++
      44 :: Arithmetic.fixed record.vwap), byte < 128 := by
    intro byte member
    simp only [List.mem_cons, List.mem_append] at member
    rcases member with rfl | inTime | rfl | inVwap
    · decide
    · exact time.ascii byte inTime
    · decide
    · exact vwap.ascii byte inVwap
  have cells : record.text.splitOn 44 = record.symbol.splitOn 44 ++
      [CString.decimal record.time.toNat, Arithmetic.fixed record.vwap] := by
    rw [parts, List.splitOn_append_cons_self,
      List.splitOn_append_cons_self_of_not_mem time.noComma,
      List.splitOn_eq_singleton vwap.noComma]
  have decodes : IsUtf8 record.text ↔ IsUtf8 record.symbol := by
    rw [parts, isUtf8_append_iff _ ascii]
  rw [parse, refusal, cells]
  by_cases encoded : IsUtf8 record.symbol
  · rw [if_pos (decodes.mpr encoded), if_neg (not_not.mpr encoded)]
    by_cases comma : 44 ∈ record.symbol
    · rcases List.append_of_mem comma with ⟨front, back, same⟩
      have first := List.length_pos_iff.mpr (List.splitOn_ne_nil 44 front)
      have second := List.length_pos_iff.mpr (List.splitOn_ne_nil 44 back)
      rw [if_pos comma, same, List.splitOn_append_cons_self]
      split
      · rename_i three
        have length := congrArg List.length three
        simp only [List.length_append, List.length_cons, List.length_nil] at length
        omega
      · rfl
    · rw [if_neg comma, List.splitOn_eq_singleton comma]
      simp only [List.singleton_append, DecimalText.int_decimal, reads.float]
      split <;> rfl
  · rw [if_neg (mt decodes.mp encoded), if_pos encoded]

end Texts

/-! ## The loop -/

def printTimes (frames : List (List (Row Double))) : List ℤ :=
  (frames.filterMap List.getLast?).map Row.timestamp

/-- Every row is in one data frame or waits. Of a frame only the head has been printed.
Between two frames there is a second or more, and the rows that wait are less than a second
behind the last one. -/
structure State.Framed (state : State Double) (frames : List (List (Row Double)))
    (rows : List (Row Double)) : Prop where
  rows : frames.flatten ++ state.records = rows
  printed : state.printed = frames.map head
  filled : ∀ frame ∈ frames, frame ≠ []
  last : state.lastPrintTs = (printTimes frames).getLast?
  apart : (printTimes frames).IsChain fun earlier later => earlier + 1000 ≤ later
  waiting : ∀ row ∈ state.records, isDue state row.timestamp = false

theorem framed_initial : (initial : State Double).Framed [] [] where
  rows := rfl
  printed := rfl
  filled := List.forall_mem_nil _
  last := rfl
  apart := List.isChain_nil
  waiting := List.forall_mem_nil _

theorem State.Framed.append {state : State Double} {frames : List (List (Row Double))}
    {rows : List (Row Double)} (framed : state.Framed frames rows) (row : Row Double) :
    ∃ frames, (append state row).Framed frames (rows ++ [row]) := by
  rw [VwapReceiver.append]
  split
  · rename_i due
    have times : printTimes (frames ++ [state.records ++ [row]]) =
        printTimes frames ++ [row.timestamp] := by
      simp [printTimes]
    refine ⟨frames ++ [state.records ++ [row]], ?_, ?_, ?_, ?_, ?_, List.forall_mem_nil _⟩
    · rw [← framed.rows]
      simp
    · rw [framed.printed, List.map_append, List.map_singleton]
    · intro frame member
      rcases List.mem_append.mp member with earlier | added
      · exact framed.filled frame earlier
      · rw [List.mem_singleton.mp added]
        exact List.concat_ne_nil _ _
    · rw [times, List.getLast?_concat]
    · rw [times, List.isChain_append]
      refine ⟨framed.apart, List.isChain_singleton _, ?_⟩
      intro earlier isLast later isFirst
      cases Option.some.inj isFirst
      rw [isDue, framed.last, isLast, decide_eq_true_iff] at due
      omega
  · rename_i notDue
    refine ⟨frames, ?_, framed.printed, framed.filled, framed.last, framed.apart, ?_⟩
    · rw [← framed.rows, List.append_assoc]
    · intro other member
      rcases List.mem_append.mp member with earlier | added
      · exact framed.waiting other earlier
      · cases List.mem_singleton.mp added
        exact Bool.eq_false_iff.mpr notDue

theorem run_texts [Arithmetic Double] {float : List UInt8 → Option Double}
    {rounded : Double → Double} (reads : ReadsBack float rounded) (inRange : ℤ → Bool)
    {records : List (Record Double)}
    (symbols : ∀ record ∈ records, CString.text record.symbol = record.symbol)
    {state : State Double} {frames : List (List (Row Double))} {rows : List (Row Double)}
    (framed : state.Framed frames rows) :
    match run float inRange state (records.map Record.text) with
    | .ok final => (∀ record ∈ records, refusal inRange record = none) ∧
        ∃ frames, final.Framed frames (rows ++ records.map (rowOf rounded))
    | .error error => ∃ front record back, records = front ++ record :: back ∧
        (∀ earlier ∈ front, refusal inRange earlier = none) ∧
        refusal inRange record = some error := by
  induction records generalizing state frames rows with
  | nil => exact ⟨List.forall_mem_nil _, frames, (List.append_nil rows).symm ▸ framed⟩
  | cons record records induction =>
      rcases List.forall_mem_cons.mp symbols with ⟨symbol, others⟩
      rw [run, List.map_cons, List.foldlM_cons, receive, parse_text reads inRange symbol]
      cases refused : refusal inRange record with
      | some error => exact ⟨[], record, records, rfl, List.forall_mem_nil _, refused⟩
      | none =>
          rcases framed.append (rowOf rounded record) with ⟨frames, framed⟩
          have rest := induction others framed
          change match run float inRange (append state (rowOf rounded record))
              (records.map Record.text) with
            | .ok final => _
            | .error error => _
          cases result : run float inRange (append state (rowOf rounded record))
              (records.map Record.text) with
          | ok final =>
              rw [result] at rest
              rcases rest with ⟨readable, framed⟩
              refine ⟨List.forall_mem_cons.mpr ⟨refused, readable⟩, ?_⟩
              rwa [List.append_assoc] at framed
          | error error =>
              rw [result] at rest
              rcases rest with ⟨front, bad, back, rfl, readable, refusal⟩
              exact ⟨record :: front, bad, back, rfl,
                List.forall_mem_cons.mpr ⟨refused, readable⟩, refusal⟩

def eightRecords : List (Event ℚ) :=
  ([65, 66, 67, 68, 69, 70, 71].flatMap fun letter =>
    [.test, .dequeue (some (rationalTrade 0 letter 1500 (2 / 3) 3)), .compare,
      .aggregateTrade, .deallocate]) ++
    [.test, .dequeue (some (rationalTrade 0 65 1002500 1 4)), .compare,
      .sendMQ [0, 1, 2, 3, 4, 5, 6], .setTime, .aggregateTrade, .deallocate,
      .test, .dequeue (some (rationalTrade 0 65 1003500 1 4)), .compare, .sendMQ [0]]

theorem exists_eightRecords : ∃ state : AggTradeMQSender.State ℚ, ∃ final : State ℚ,
    (@system ℚ sixPlaces true 1).Reachable state ∧ state.published.length = 8 ∧
      run DecimalText.float (fun _ => true) initial
        (state.published.map (@Record.text ℚ sixPlaces)) = .ok final ∧
      final.printed.map List.length = [1, 5] ∧ final.records = [] := by
  let := sixPlaces
  rcases TransitionSystem.exists_reachable_of_execute (AggTradeMQSender.State.initial 1)
    (step true) eightRecords
    (fun state => state.published.length = 8 ∧
      (run DecimalText.float (fun _ => true) initial
        (state.published.map Record.text)).toOption.any (fun final =>
          decide (final.printed.map List.length = [1, 5] ∧ final.records = [])) = true)
    (by decide +kernel) with ⟨state, reachable, eight, prints⟩
  cases result : run DecimalText.float (fun _ => true) initial
      (state.published.map Record.text) with
  | ok final =>
      rw [result] at prints
      rcases of_decide_eq_true prints with ⟨five, empty⟩
      exact ⟨state, final, reachable, eight, result, five, empty⟩
  | error error =>
      rw [result] at prints
      cases prints

/-! ## The aggregator and its receiver -/

section Aggregator

variable [Arithmetic Double] {float : List UInt8 → Option Double} {rounded : Double → Double}

/-- The average of some messages, whose sums are taken from left to right. -/
def averageOf (trades : List (Trade Double)) : Double :=
  (trades.map fun msg => msg.contents.price * msg.contents.quantity).foldl (· + ·) 0 /
    (trades.map fun msg => msg.contents.quantity).foldl (· + ·) 0

theorem foldl_entryAdd (trades : List (Trade Double)) (entry : Entry Double) :
    (trades.foldl Entry.add entry).first =
        (trades.map fun msg => msg.contents.price * msg.contents.quantity).foldl (· + ·)
          entry.first ∧
      (trades.foldl Entry.add entry).second =
        (trades.map fun msg => msg.contents.quantity).foldl (· + ·) entry.second := by
  induction trades generalizing entry with
  | nil => exact ⟨rfl, rfl⟩
  | cons msg trades induction => exact induction (entry.add msg)

theorem vwap_eq_averageOf {record : Record Double} (correct : record.Correct) :
    record.vwap = averageOf record.trades := by
  have sums := congrArg Record.vwap correct.sums
  rcases foldl_entryAdd record.trades (Entry.empty record.symbol) with ⟨first, second⟩
  change record.vwap = Entry.first _ / Entry.second _ at sums
  rw [sums, first, second]
  rfl

/-- The messages behind a record all have the symbol and the millisecond of the row, and its
average is theirs as `float` reads it. -/
structure Reports (rounded : Double → Double) (record : Record Double) (row : Row Double) :
    Prop where
  symbol : ∀ msg ∈ record.trades, msg.symbol = row.symbol
  timestamp : ∀ msg ∈ record.trades, (msg.msgTime.toNat : ℤ) = row.timestamp
  vwap : row.vwap = rounded (averageOf record.trades)

theorem reports_rowOf {record : Record Double} (correct : record.Correct) :
    Reports rounded record (rowOf rounded record) where
  symbol msg member := (correct.labels msg member).1
  timestamp msg member := by
    rw [(correct.labels msg member).2]
    rfl
  vwap := congrArg rounded (vwap_eq_averageOf correct)

theorem correct_of_reachable {destroyMessages : Bool} {currentTime : Word64}
    {state : AggTradeMQSender.State Double}
    (reachable : (system destroyMessages currentTime).Reachable state) :
    ∀ record ∈ state.published, record.Correct := by
  have inv : Inv state := by
    apply reachable.invariant Inv
    · rintro state rfl
      exact inv_initial currentTime
    · intro current event next inv stepped
      exact inv.step (stepped_of_step stepped)
  intro record member
  exact inv.records record (List.mem_append_left _ member)

theorem reports_of_correct (reads : ReadsBack float rounded) (inRange : ℤ → Bool)
    {received : List (Record Double)} (correct : ∀ record ∈ received, record.Correct) :
    match run float inRange initial (received.map Record.text) with
    | .ok final => (∀ record ∈ received, refusal inRange record = none) ∧
        ∃ frames rows, final.Framed frames rows ∧ received.Forall₂ (Reports rounded) rows
    | .error error => ∃ front record back, received = front ++ record :: back ∧
        (∀ earlier ∈ front, refusal inRange earlier = none) ∧
        refusal inRange record = some error := by
  have texts := run_texts reads inRange
    (fun record member => text_symbol (correct record member)) framed_initial
  cases result : run float inRange initial (received.map Record.text) with
  | ok final =>
      rw [result] at texts
      rcases texts with ⟨readable, frames, framed⟩
      refine ⟨readable, frames, received.map (rowOf rounded), framed, ?_⟩
      rw [List.forall₂_map_right_iff, List.forall₂_same]
      exact fun record member => reports_rowOf (correct record member)
  | error error =>
      rw [result] at texts
      exact texts

/-- A subscriber that gets some of the published records reads them back. It prints the head
of each data frame, and its loop ends only at a record whose symbol is not UTF-8 or has a
comma, or whose time is out of range. -/
theorem reports_of_reachable (reads : ReadsBack float rounded) (inRange : ℤ → Bool)
    {destroyMessages : Bool} {currentTime : Word64} {state : AggTradeMQSender.State Double}
    (reachable : (system destroyMessages currentTime).Reachable state)
    {received : List (Record Double)} (subscribed : received.Sublist state.published) :
    match run float inRange initial (received.map Record.text) with
    | .ok final => (∀ record ∈ received, refusal inRange record = none) ∧
        ∃ frames rows, final.Framed frames rows ∧ received.Forall₂ (Reports rounded) rows
    | .error error => ∃ front record back, received = front ++ record :: back ∧
        (∀ earlier ∈ front, refusal inRange earlier = none) ∧
        refusal inRange record = some error :=
  reports_of_correct reads inRange fun record member =>
    correct_of_reachable reachable record (subscribed.mem member)

end Aggregator

theorem reports_of_reachable_eight : ∃ received : List (Record ℚ), ∃ final : State ℚ,
    received.length = 8 ∧
      run DecimalText.float (fun _ => true) initial
        (received.map (@Record.text ℚ sixPlaces)) = .ok final ∧
      final.printed.map List.length = [1, 5] ∧ final.records = [] ∧
      (∀ record ∈ received, refusal (fun _ => true) record = none) ∧
      ∃ frames rows, final.Framed frames rows ∧
        received.Forall₂ (@Reports ℚ sixPlaces (DecimalText.rounded 6)) rows := by
  let := sixPlaces
  rcases exists_eightRecords with ⟨state, final, reachable, eight, result, five, empty⟩
  have reports := reports_of_reachable readsBack_sixPlaces (fun _ => true) reachable
    (List.Sublist.refl state.published)
  rw [result] at reports
  exact ⟨state.published, final, eight, result, five, empty, reports⟩

/-! ## Exact arithmetic -/

theorem averageOf_sixPlaces (trades : List (Trade ℚ)) :
    @averageOf ℚ sixPlaces trades = vwapOf trades := by
  rw [vwapOf, List.sum_eq_foldl, List.sum_eq_foldl]
  rfl

/-- Where nothing but the printing rounds, the averages that are read are off by half a
millionth at most. -/
theorem near_of_reachable (inRange : ℤ → Bool) {destroyMessages : Bool} {currentTime : Word64}
    {state : AggTradeMQSender.State ℚ}
    (reachable : (@system ℚ sixPlaces destroyMessages currentTime).Reachable state)
    {received : List (Record ℚ)} (subscribed : received.Sublist state.published)
    {final : State ℚ} (ends : run DecimalText.float inRange initial
      (received.map (@Record.text ℚ sixPlaces)) = .ok final) :
    ∃ frames rows, final.Framed frames rows ∧ received.Forall₂ (fun record row =>
      |row.vwap - vwapOf record.trades| ≤ 1 / 2000000) rows := by
  let := sixPlaces
  have reports := reports_of_correct readsBack_sixPlaces inRange fun record member =>
    correct_of_reachable reachable record (subscribed.mem member)
  rw [ends] at reports
  rcases reports with ⟨_, frames, rows, framed, reports⟩
  refine ⟨frames, rows, framed, reports.imp ?_⟩
  intro record row reports
  have near := DecimalText.abs_rounded_sub_le 6 (vwapOf record.trades)
  rw [reports.vwap, averageOf_sixPlaces]
  norm_num at near ⊢
  exact near

theorem near_of_reachable_eight : ∃ received : List (Record ℚ), ∃ final : State ℚ,
    received.length = 8 ∧ ∃ frames rows, final.Framed frames rows ∧
      received.Forall₂ (fun record row =>
        |row.vwap - vwapOf record.trades| ≤ 1 / 2000000) rows := by
  rcases exists_eightRecords with ⟨state, final, reachable, eight, result, _⟩
  exact ⟨state.published, final, eight, near_of_reachable (fun _ => true) reachable
    (List.Sublist.refl state.published) result⟩

end FeederNet.AggTradeMQSender.VwapReceiver
