import FeederNet.TradeFeed.TradeServer

/-! # Gap requests

What `serveGapRequest` passes to `send`, with `nullptr` as `none`. The check of the
requested range prints and changes nothing, so the loop alone decides.
-/

namespace FeederNet.TradeFeed.SnapshotServer

variable {TradeMsg : Type u}

/-- The pointers that a loop passes to `send`, if it ends after at most `turns` of them. -/
def pointers (store : List TradeMsg) : Nat → Phase → Option (List (Option TradeMsg))
  | _, .idle => some []
  | 0, _ => none
  | turns + 1, .serving i endSeq =>
      (pointers store turns (serveLoop (i + 1) endSeq)).map
        (TradeMsgStore.get store (asSize i) :: ·)
  | turns + 1, .replaying i =>
      (pointers store turns (replayLoop store (i + 1))).map
        (TradeMsgStore.get store (asSize i) :: ·)

/-- The messages of a request, which has none unless it is a range of the store. -/
def requested (store : List TradeMsg) (msg : GapRequestMsg) : List TradeMsg :=
  if msg.startSeq ≤ msg.endSeq ∧ msg.endSeq < TradeMsgStore.size store then
    (store.drop msg.startSeq.toNat).take (msg.endSeq.toNat + 1 - msg.startSeq.toNat)
  else []

/-- The loop ends, and `send` gets exactly the messages of the request. -/
def AnswersGap (store : List TradeMsg) (msg : GapRequestMsg) : Prop :=
  ∃ turns, pointers store turns (request store msg) =
    some ((requested store msg).map some)

/-- The request is a range of the store, or the loop does not start. -/
def AnswerableGap (store : List TradeMsg) (msg : GapRequestMsg) : Prop :=
  (msg.startSeq ≤ msg.endSeq ∧ msg.endSeq < TradeMsgStore.size store) ∨
    msg.endSeq < asSize (msg.startSeq.setWidth 32)

section Requests

variable {store : List TradeMsg} {msg : GapRequestMsg}

/-- Each turn of a loop is one step of the server, which sends what the pointer leads
to. -/
theorem pointers_of_send {phase next : Phase} {sent : List TradeMsg} {turns : Nat}
    {passed : List (Option TradeMsg)} (sends : send store phase = some (sent, next))
    (rest : pointers store turns next = some passed) :
    ∃ pointer, pointers store (turns + 1) phase = some (pointer :: passed) ∧
      sent = pointer.toList := by
  cases phase with
  | idle => cases sends
  | serving i endSeq =>
      cases sends
      rw [pointers, rest]
      exact ⟨_, rfl, rfl⟩
  | replaying i =>
      cases sends
      rw [pointers, rest]
      exact ⟨_, rfl, rfl⟩

theorem pointers_serveLoop {index last : Nat} (count : Nat) (small : store.length < 2 ^ 31)
    (inside : last < store.length) (remaining : index + count = last + 1) :
    pointers store count (serveLoop (BitVec.ofNat 32 index) (BitVec.ofNat 64 last)) =
      some (((store.drop index).take count).map some) := by
  rw [serveLoop_ofNat index last (by omega) (by omega)]
  induction count generalizing index with
  | zero =>
      rw [if_neg (by omega)]
      rfl
  | succ count induction =>
      have present : index < store.length := by omega
      have follows : BitVec.ofNat 32 index + 1 = BitVec.ofNat 32 (index + 1) := by
        rw [BitVec.ofNat_add]
        rfl
      have rest := @induction (index + 1) (by omega)
      rw [← serveLoop_ofNat (index + 1) last (by omega) (by omega)] at rest
      rw [if_pos (by omega), pointers, follows, rest, asSize_ofNat (by omega),
        get_ofNat store (by omega), List.getElem?_eq_getElem present,
        List.drop_eq_getElem_cons present, List.take_succ_cons]
      rfl

theorem answersGap_of_range (small : store.length < 2 ^ 31) (gap : msg.type = 48)
    (ordered : msg.startSeq ≤ msg.endSeq)
    (inside : msg.endSeq < TradeMsgStore.size store) : AnswersGap store msg := by
  have range : requested store msg = (store.drop msg.startSeq.toNat).take
      (msg.endSeq.toNat + 1 - msg.startSeq.toNat) := if_pos ⟨ordered, inside⟩
  rw [BitVec.le_def] at ordered
  rw [BitVec.lt_def, TradeMsgStore.size, Word64.ofNat_toNat _ (by omega)] at inside
  refine ⟨msg.endSeq.toNat + 1 - msg.startSeq.toNat, ?_⟩
  have remaining : msg.startSeq.toNat + (msg.endSeq.toNat + 1 - msg.startSeq.toNat) =
      msg.endSeq.toNat + 1 := by omega
  have serves := pointers_serveLoop _ small inside remaining
  rw [BitVec.ofNat_toNat, BitVec.ofNat_toNat, BitVec.setWidth_eq] at serves
  rw [request, if_pos gap, serves, range]

theorem pointers_serving_ne_nil (turns : Nat) (i : Word32) (endSeq : Word64) :
    pointers store turns (.serving i endSeq) ≠ some [] := by
  cases turns with
  | zero => nofun
  | succ turns =>
      rw [pointers]
      cases pointers store turns (serveLoop (i + 1) endSeq) with
      | none => nofun
      | some rest => nofun

/-- The server answers a gap request as it should exactly if the range lies in the store
or the end lies below the start once that is cut to an `int`. -/
theorem answersGap_iff (small : store.length < 2 ^ 31) (gap : msg.type = 48) :
    AnswersGap store msg ↔ AnswerableGap store msg := by
  by_cases range : msg.startSeq ≤ msg.endSeq ∧ msg.endSeq < TradeMsgStore.size store
  · exact iff_of_true (answersGap_of_range small gap range.1 range.2) (.inl range)
  · have nothing : requested store msg = [] := if_neg range
    rw [AnswerableGap, or_iff_right range, AnswersGap, nothing, request, if_pos gap, serveLoop]
    by_cases starts : asSize (msg.startSeq.setWidth 32) ≤ msg.endSeq
    · rw [if_pos starts]
      refine iff_of_false ?_ (BitVec.not_lt.mpr starts)
      rintro ⟨turns, passes⟩
      exact pointers_serving_ne_nil turns _ _ passes
    · rw [if_neg starts]
      exact iff_of_true ⟨0, rfl⟩ (BitVec.not_le.mp starts)

end Requests

/-- Five messages, and a request for the last two and one more: the third pointer is
null. -/
theorem request_beyond_store :
    (request (List.range 5) ⟨48, 3, 5⟩ = .serving 3 5) ∧
      pointers (List.range 5) 3 (request (List.range 5) ⟨48, 3, 5⟩) =
        some [some 3, some 4, none] ∧
      ¬ AnswersGap (List.range 5) ⟨48, 3, 5⟩ := by
  refine ⟨rfl, rfl, ?_⟩
  rintro ⟨turns, passes⟩
  exact pointers_serving_ne_nil turns 3 5 passes

theorem answersGap_iff_range :
    AnswersGap (List.range 5) ⟨48, 1, 3⟩ ↔ AnswerableGap (List.range 5) ⟨48, 1, 3⟩ :=
  answersGap_iff (by decide) rfl

end FeederNet.TradeFeed.SnapshotServer
