import FeederNet.Foundation.MachineWord

/-! # Text streams

`std::getline` and `std::stoull` on the bytes of a text.
-/

namespace FeederNet

structure TextStream where
  rest : List UInt8
  eof : Bool
  fail : Bool
  deriving DecidableEq, Repr

namespace TextStream

def ofBytes (bytes : List UInt8) : TextStream where
  rest := bytes
  eof := false
  fail := false

/-- `std::getline`. A stream that is not good leaves the text as it was, and a stream
that ends before anything is extracted fails. -/
def getline (stream : TextStream) (delimiter : UInt8) (text : List UInt8) :
    List UInt8 × TextStream :=
  if stream.eof || stream.fail then (text, { stream with fail := true })
  else
    let extracted := stream.rest.takeWhile fun byte => byte ≠ delimiter
    match stream.rest.dropWhile fun byte => byte ≠ delimiter with
    | [] => (extracted, { rest := [], eof := true, fail := extracted.isEmpty })
    | _ :: rest => (extracted, { rest := rest, eof := false, fail := false })

/-- The texts that a loop over `getline` gets from a good stream, when `text` is already
extracted. -/
def linesFrom (delimiter : UInt8) (text : List UInt8) : List UInt8 → List (List UInt8)
  | [] => if text.isEmpty then [] else [text]
  | byte :: rest =>
      if byte = delimiter then text :: linesFrom delimiter [] rest
      else linesFrom delimiter (text ++ [byte]) rest

def lines (delimiter : UInt8) (stream : TextStream) : List (List UInt8) :=
  if stream.eof || stream.fail then [] else linesFrom delimiter [] stream.rest

theorem linesFrom_eq (delimiter : UInt8) (text rest : List UInt8) :
    linesFrom delimiter text rest =
      match rest.dropWhile fun byte => byte ≠ delimiter with
      | [] =>
          if (text ++ rest.takeWhile fun byte => byte ≠ delimiter).isEmpty then []
          else [text ++ rest.takeWhile fun byte => byte ≠ delimiter]
      | _ :: after =>
          (text ++ rest.takeWhile fun byte => byte ≠ delimiter) ::
            linesFrom delimiter [] after := by
  induction rest generalizing text with
  | nil => simp [linesFrom]
  | cons byte rest induction =>
      by_cases found : byte = delimiter
      · simp [linesFrom, found]
      · rw [linesFrom, if_neg found, induction]
        simp [found]

theorem getline_lines (stream : TextStream) (delimiter : UInt8) (text : List UInt8) :
    stream.lines delimiter =
      if (stream.getline delimiter text).2.fail then []
      else (stream.getline delimiter text).1 ::
        (stream.getline delimiter text).2.lines delimiter := by
  by_cases bad : (stream.eof || stream.fail) = true
  · rw [lines, getline, if_pos bad, if_pos bad]
    rfl
  · rw [lines, getline, if_neg bad, if_neg bad, linesFrom_eq, List.nil_append]
    split
    · rename_i ended
      simp only [lines, Bool.true_or, if_true]
    · rename_i byte after found
      simp [lines]

def size (stream : TextStream) : Nat :=
  if stream.eof || stream.fail then 0 else stream.rest.length + 1

theorem size_getline_lt (stream : TextStream) (delimiter : UInt8) (text : List UInt8)
    (got : (stream.getline delimiter text).2.fail = false) :
    (stream.getline delimiter text).2.size < stream.size := by
  by_cases bad : (stream.eof || stream.fail) = true
  · rw [getline, if_pos bad] at got
    cases got
  · have shorter := List.dropWhile_sublist (fun byte => decide (byte ≠ delimiter))
      (l := stream.rest)
    rw [size, size, getline, if_neg bad, if_neg bad]
    split
    · simp
    · rename_i byte after found
      have length := shorter.length_le
      rw [found, List.length_cons] at length
      simp only [Bool.or_self, Bool.false_eq_true, if_false]
      omega

/-- `while (std::getline(stream, text)) body`, with a bound on the number of turns. -/
def forEachLine (delimiter : UInt8) (body : σ → List UInt8 → Except ε σ) :
    Nat → TextStream → List UInt8 → σ → Except ε σ
  | 0, _, _, state => .ok state
  | turns + 1, stream, text, state =>
      let (text, stream) := stream.getline delimiter text
      if stream.fail then .ok state
      else
        match body state text with
        | .error error => .error error
        | .ok state => forEachLine delimiter body turns stream text state

/-- With enough turns the loop runs its body on all lines. -/
theorem forEachLine_eq_foldlM (delimiter : UInt8) (body : σ → List UInt8 → Except ε σ)
    (turns : Nat) (stream : TextStream) (text : List UInt8) (state : σ)
    (enough : stream.size < turns) :
    forEachLine delimiter body turns stream text state =
      (stream.lines delimiter).foldlM body state := by
  induction turns generalizing stream text state with
  | zero => cases enough
  | succ turns induction =>
      rw [getline_lines stream delimiter text, forEachLine]
      cases got : (stream.getline delimiter text).2.fail with
      | true =>
          simp only [got, if_true]
          rfl
      | false =>
          have nearer := size_getline_lt stream delimiter text got
          simp only [got, Bool.false_eq_true, if_false, List.foldlM_cons]
          cases result : body state (stream.getline delimiter text).1 with
          | error error => rfl
          | ok next => exact induction _ _ next (by omega)

/-! ### Cells -/

/-- The texts between delimiters that a stream still holds. The last of them may be
empty. -/
def cells (delimiter : UInt8) (stream : TextStream) : List (List UInt8) :=
  if stream.eof || stream.fail then [] else stream.rest.splitOn delimiter

/-- The text that a call gets after `index` others. From the end of the stream on it stays
the last one. -/
def cellAt (cells : List (List UInt8)) (index : Nat) : List UInt8 :=
  cells.getD index (cells.getLastD [])

theorem splitOn_eq (delimiter : UInt8) (rest : List UInt8) :
    rest.splitOn delimiter =
      (rest.takeWhile fun byte => byte ≠ delimiter) ::
        match rest.dropWhile fun byte => byte ≠ delimiter with
        | [] => []
        | _ :: after => after.splitOn delimiter := by
  induction rest with
  | nil => rfl
  | cons byte rest induction =>
      rw [List.splitOn_cons_eq_if_modifyHead]
      by_cases found : byte = delimiter
      · subst found
        simp
      · rw [if_neg (by simpa using found), induction, List.modifyHead_cons]
        simp [found]

theorem getline_cells (stream : TextStream) (delimiter : UInt8) (text : List UInt8) :
    (stream.getline delimiter text).1 = (stream.cells delimiter).headD text ∧
      (stream.getline delimiter text).2.cells delimiter =
        (stream.cells delimiter).tail := by
  by_cases bad : (stream.eof || stream.fail) = true
  · rw [getline, cells, cells, if_pos bad, if_pos bad]
    exact ⟨rfl, by simp⟩
  · rw [getline, cells, cells, if_neg bad, if_neg bad, splitOn_eq]
    split
    · exact ⟨rfl, rfl⟩
    · exact ⟨rfl, rfl⟩

theorem headD_drop_cellAt {cells : List (List UInt8)} (nonempty : cells ≠ [])
    (index : Nat) :
    (cells.drop (index + 1)).headD (cellAt cells index) = cellAt cells (index + 1) := by
  have positive := List.length_pos_iff.mpr nonempty
  rw [List.headD_eq_head?_getD, List.head?_drop, cellAt, cellAt, List.getD_eq_getElem?_getD,
    List.getD_eq_getElem?_getD]
  by_cases inside : index + 1 < cells.length
  · rw [List.getElem?_eq_getElem inside]
    rfl
  · rw [List.getElem?_eq_none (by omega)]
    by_cases last : index < cells.length
    · have final : index = cells.length - 1 := by omega
      rw [final, ← List.getLast?_eq_getElem?, List.getLastD_eq_getLast?]
      cases cells.getLast? with
      | none => rfl
      | some text => rfl
    · rw [List.getElem?_eq_none (by omega)]
      rfl

end TextStream

/-! ## Numbers -/

inductive NumberError
  | invalidArgument
  | outOfRange
  deriving DecidableEq, Repr

def isSpace (byte : UInt8) : Bool :=
  byte == 32 || 9 ≤ byte && byte ≤ 13

def isDigit (byte : UInt8) : Bool :=
  48 ≤ byte && byte ≤ 57

def readSign : List UInt8 → Bool × List UInt8
  | 45 :: rest => (true, rest)
  | 43 :: rest => (false, rest)
  | rest => (false, rest)

/-- `std::stoull` to the base ten: white space, a sign and the longest row of digits.
What follows them is ignored, and a negative number wraps. -/
def stoull (text : List UInt8) : Except NumberError Word64 :=
  let (negative, rest) := readSign (text.dropWhile isSpace)
  let digits := rest.takeWhile isDigit
  let value := digits.foldl (fun value byte => 10 * value + (byte.toNat - 48)) 0
  if digits.isEmpty then .error .invalidArgument
  else if value ≥ 2 ^ 64 then .error .outOfRange
  else .ok (if negative then -BitVec.ofNat 64 value else BitVec.ofNat 64 value)

/-- Where `std::stod` finds a number: behind white space and a sign stands a digit, a point
with a digit behind it, `inf` or `nan`, these in letters of either case. -/
def startsDouble (text : List UInt8) : Bool :=
  let (_, rest) := readSign (text.dropWhile isSpace)
  rest.head?.any isDigit ||
    rest.head? == some 46 && rest.tail.head?.any isDigit ||
    [[105, 110, 102], [110, 97, 110]].contains ((rest.take 3).map fun byte => byte ||| 32)

/-- `std::stod`. The value of a text that starts with a number is given, and none is given
for a number out of range. -/
def stod (value : List UInt8 → Option Double) (text : List UInt8) :
    Except NumberError Double :=
  if startsDouble text then
    match value text with
    | none => .error .outOfRange
    | some number => .ok number
  else .error .invalidArgument

theorem isDigit_only {byte : UInt8} (digit : isDigit byte = true) :
    isSpace byte = false ∧ byte ≠ 45 ∧ byte ≠ 43 := by
  rw [isDigit, Bool.and_eq_true, decide_eq_true_iff, decide_eq_true_iff,
    UInt8.le_iff_toNat_le, UInt8.le_iff_toNat_le] at digit
  have low : 48 ≤ byte.toNat := digit.1
  have apart : ∀ {other : UInt8}, other.toNat < 48 → byte ≠ other := by
    rintro other below rfl
    omega
  refine ⟨?_, apart (by decide), apart (by decide)⟩
  have space : byte ≠ 32 := apart (by decide)
  have above : ¬ byte ≤ 13 := by
    rw [UInt8.le_iff_toNat_le]
    exact Nat.not_le.mpr (lt_of_lt_of_le (by decide) low)
  simp [isSpace, space, above]

theorem readSign_of_isDigit {byte : UInt8} (digit : isDigit byte = true)
    (rest : List UInt8) : readSign (byte :: rest) = (false, byte :: rest) := by
  rcases isDigit_only digit with ⟨_, minus, plus⟩
  unfold readSign
  split
  · rename_i same
    exact absurd (List.cons.inj same).1 minus
  · rename_i same
    exact absurd (List.cons.inj same).1 plus
  · rfl

theorem exists_sign (text : List UInt8) :
    ∃ sign, (sign = [] ∨ sign = [43] ∨ sign = [45]) ∧ text = sign ++ (readSign text).2 := by
  unfold readSign
  split
  · exact ⟨[45], .inr (.inr rfl), rfl⟩
  · exact ⟨[43], .inr (.inl rfl), rfl⟩
  · exact ⟨[], .inl rfl, rfl⟩

end FeederNet
