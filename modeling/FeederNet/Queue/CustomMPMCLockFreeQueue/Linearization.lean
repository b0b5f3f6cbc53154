import FeederNet.Foundation.Linearization
import FeederNet.Foundation.Progress
import FeederNet.Queue.CustomMPMCLockFreeQueue.Delivery

/-! # CustomMPMCLockFreeQueue is a FIFO, and lock-free

A call that succeeds takes effect with its compare-exchange: an `enqueue` puts its pointer
at the back, a `dequeue` takes from the front. A call that is refused has found the cell of
its position still in use. A thread that has to try again has been overtaken.
-/

open scoped BigOperators

namespace FeederNet.Queue.CustomMPMCLockFreeQueue

variable {Thread : Type v} {α : Type u} {capacity : PowerOfTwo}
  {state next : State Thread α} {ledger : Ledger Thread}

/-! ## The FIFO -/

inductive Operation (α : Type u)
  | put (ptr : α)
  | take
  deriving DecidableEq, Repr

/-- What is queued, the oldest first, and what has been taken. -/
structure Fifo (α : Type u) where
  queued : List α
  taken : List α
  deriving DecidableEq, Repr

def serve (fifo : Fifo α) : Thread × Operation α → Option (Fifo α)
  | (_, .put ptr) => some ⟨fifo.queued ++ [ptr], fifo.taken⟩
  | (_, .take) =>
      match fifo.queued with
      | [] => none
      | oldest :: queued => some ⟨queued, fifo.taken ++ [oldest]⟩

theorem serve_take {fifo : Fifo α} {oldest : α} {queued : List α}
    (front : fifo.queued = oldest :: queued) (thread : Thread) :
    serve fifo (thread, .take) = some ⟨queued, fifo.taken ++ [oldest]⟩ := by
  rw [serve, front]

def effect (state : State Thread α) :
    Thread × Action α → Option (Thread × Operation α)
  | (thread, .exchange) =>
      match state.phase thread with
      | .enqMatched ptr _ => some (thread, .put ptr)
      | .deqMatched _ => some (thread, .take)
      | _ => none
  | _ => none

/-- The pointers whose tail tickets have been won, and the head tickets among them. -/
def fifo (state : State Thread α) : Fifo α where
  queued := (state.tailClaims.drop state.headClaims.length).map TailClaim.ptr
  taken := (state.tailClaims.take state.headClaims.length).map TailClaim.ptr

theorem Step.serves [DecidableEq Thread] {event : Thread × Action α}
    (small : state.tailClaims.length < 2 ^ 63) (inv : Inv capacity state ledger)
    (step : Step capacity state event next) :
    TransitionSystem.execute serve (fifo state) (effect state event).toList =
      some (fifo next) := by
  cases step with
  | enqueue | dequeue | loadTail | loadHead | enqLoadSeq | deqLoadSeq => rfl
  | enqRetry | deqRetry | writeData | readData | publish | release => rfl
  | @claimTail thread ptr pos phase current =>
      have ordered := inv.ordered
      simp only [effect, phase, Option.toList_some, TransitionSystem.execute_singleton,
        serve]
      simp [fifo, State.claimTail, State.goto, List.drop_append_of_le_length ordered,
        List.take_append_of_le_length ordered]
  | @claimHead thread pos phase current =>
      have ordered := inv.ordered
      have valid := inv.phase thread
      rw [phase] at valid
      rcases valid with ⟨ticket, past, rfl, full⟩
      have now : state.headClaims.length = ticket :=
        (Word64.ofNat_inj (by omega) (by omega)).mp (inv.head.symm.trans current)
      subst now
      have below := (inv.serving (full rfl)).2.1
      have longer : (state.claimHead thread (BitVec.ofNat 64 state.headClaims.length)
          ).headClaims.length = state.headClaims.length + 1 := List.length_append
      have split : (state.tailClaims.drop state.headClaims.length).map TailClaim.ptr =
          state.tailClaims[state.headClaims.length].ptr ::
            (state.tailClaims.drop (state.headClaims.length + 1)).map TailClaim.ptr := by
        rw [List.drop_eq_getElem_cons below, List.map_cons]
      have grown : (state.tailClaims.take (state.headClaims.length + 1)).map TailClaim.ptr =
          (state.tailClaims.take state.headClaims.length).map TailClaim.ptr ++
            [state.tailClaims[state.headClaims.length].ptr] := by
        rw [← List.take_append_getElem below, List.map_append]
        rfl
      simp only [effect, phase, Option.toList_some, TransitionSystem.execute_singleton]
      rw [serve_take split, fifo, fifo, longer, ← grown]
      rfl

section Run

variable [DecidableEq Thread]

end Run

/-! ## Refused calls -/

/-- The sequence number of the cell of a position, with the ticket that the cell serves:
behind it only the cells whose pointer is on its way in. -/
theorem Inv.exists_seq (inv : Inv capacity state ledger) (ticket : Nat) :
    (∃ seq, (state.cells (ticket % capacity.toNat)).seq = BitVec.ofNat 64 seq ∧
      ledger.ticket (ticket % capacity.toNat) ≤ seq ∧
      seq ≤ state.headClaims.length + capacity.toNat) ∧
    ((state.cells (ticket % capacity.toNat)).seq =
        BitVec.ofNat 64 (ledger.ticket (ticket % capacity.toNat)) →
      state.tailClaims.length < 2 ^ 63 →
      ledger.ticket (ticket % capacity.toNat) < state.tailClaims.length →
      ∃ thread, ledger.turn (ticket % capacity.toNat) = .writing thread ∧
        state.headClaims.length ≤ ledger.ticket (ticket % capacity.toNat) ∧
        (state.phase thread).owns =
          some (BitVec.ofNat 64 (ledger.ticket (ticket % capacity.toNat)))) := by
  have bound := index_lt capacity ticket
  have near := inv.near bound
  have valid := inv.turn _ bound
  cases stands : ledger.turn (ticket % capacity.toNat) with
  | free =>
      rw [stands] at valid
      refine ⟨⟨_, valid.2, le_rfl, near.le⟩, fun _ _ below => ?_⟩
      exact absurd below (Nat.not_lt.mpr valid.1)
  | writing thread =>
      rw [stands] at valid
      exact ⟨⟨_, valid.2.2.1, le_rfl, near.le⟩,
        fun _ _ _ => ⟨thread, rfl, valid.1, valid.2.2.2⟩⟩
  | full =>
      rw [stands] at valid
      refine ⟨⟨_, valid.2.2.1, Nat.le_succ _, near⟩, fun same small below => ?_⟩
      have equal := (Word64.ofNat_inj (by omega) (by omega)).mp (valid.2.2.1.symm.trans same)
      omega
  | reading thread =>
      rw [stands] at valid
      refine ⟨⟨_, valid.2.2.1, Nat.le_succ _, near⟩, fun same small below => ?_⟩
      have equal := (Word64.ofNat_inj (by omega) (by omega)).mp (valid.2.2.1.symm.trans same)
      omega

theorem Inv.not_returned (inv : Inv capacity state ledger) {ticket : Nat}
    (small : state.tailClaims.length < 2 ^ 63) (bound : ticket < state.tailClaims.length)
    (serves : ledger.ticket (ticket % capacity.toNat) = ticket) :
    BitVec.ofNat 64 ticket ∉ state.returned.map Returned.ticket := by
  intro member
  rcases List.mem_map.mp member with ⟨entry, inside, same⟩
  rcases inv.entries entry inside with ⟨other, number, passed, below, _, _⟩
  have equal : other = ticket :=
    (Word64.ofNat_inj (by omega) (by omega)).mp (number.symm.trans same)
  subst equal
  exact Nat.lt_irrefl _ (serves ▸ passed)

theorem lt_of_enqueueBranch_eq_idle {ptr : α} {pos seq : Nat}
    (above : seq < pos + 2 ^ 63) (below : pos ≤ seq + 2 ^ 63)
    (refused : enqueueBranch ptr (BitVec.ofNat 64 pos) (BitVec.ofNat 64 seq) = .idle) :
    seq < pos := by
  unfold enqueueBranch at refused
  split at refused
  · cases refused
  · split at refused
    · rename_i negative
      exact (Word64.ofNat_sub_slt_zero_iff above below).mp negative
    · cases refused

theorem le_of_dequeueBranch_eq_idle {pos seq : Nat}
    (above : seq < pos + 1 + 2 ^ 63) (below : pos + 1 ≤ seq + 2 ^ 63)
    (refused : dequeueBranch (BitVec.ofNat 64 pos) (BitVec.ofNat 64 seq) =
      (.idle : Phase α)) : seq ≤ pos := by
  unfold dequeueBranch at refused
  rw [Word64.ofNat_add_one] at refused
  split at refused
  · cases refused
  · split at refused
    · rename_i negative
      exact Nat.le_of_lt_succ ((Word64.ofNat_sub_slt_zero_iff above below).mp negative)
    · cases refused

/-- Why a call is refused.
* An `enqueue` returns false only while the pointer accepted one lap before the position
  that it has loaded has not been returned.
* A `dequeue` returns `nullptr` only at the head, and only if nothing is queued there or
  the oldest pointer is still on its way into its cell. -/
structure RefusesOnly (capacity : PowerOfTwo) (state : State Thread α) : Prop where
  enqueue : ∀ thread ptr pos, state.phase thread = .enqLoaded ptr pos →
    enqueueBranch ptr pos (state.cells (slot capacity pos)).seq = .idle →
    ∃ claim ∈ state.tailClaims, claim.ticket.toNat + capacity.toNat = pos.toNat ∧
      claim.ticket ∉ state.returned.map Returned.ticket
  dequeue : ∀ thread pos, state.phase thread = .deqLoaded pos →
    dequeueBranch pos (state.cells (slot capacity pos)).seq = (.idle : Phase α) →
    pos = state.head ∧ ((fifo state).queued = [] ∨
      ∃ claim ∈ state.tailClaims, claim.ticket = pos ∧
        (state.phase claim.thread).owns = some pos)

theorem Inv.refusesOnly (inv : Inv capacity state ledger)
    (small : state.tailClaims.length + capacity.toNat < 2 ^ 63) :
    RefusesOnly capacity state where
  enqueue thread ptr pos phase refused := by
    have valid := inv.phase thread
    rw [phase] at valid
    rcases valid with ⟨ticket, past, rfl⟩
    have ordered := inv.ordered
    have positive := capacity.toNat_pos
    rw [slot_ofNat] at refused
    rcases (inv.exists_seq ticket).1 with ⟨seq, stored, above, limit⟩
    rw [stored] at refused
    have behind := lt_of_enqueueBranch_eq_idle (by omega) (by omega) refused
    -- The cell serves an earlier ticket, hence the one that is a lap earlier.
    have congruent := inv.congruent _ (index_lt capacity ticket)
    have lap : ledger.ticket (ticket % capacity.toNat) + capacity.toNat ≤ ticket := by
      by_contra near
      have same := eq_of_mod_eq_of_near (by omega) (by omega) congruent
      omega
    have place : (ticket - capacity.toNat) % capacity.toNat = ticket % capacity.toNat :=
      (Nat.mod_eq_sub_mod (by omega)).symm
    have begun := inv.begun (ticket - capacity.toNat) (by omega)
    rw [place] at begun
    have bound : ticket - capacity.toNat < state.tailClaims.length := by omega
    have number := inv.tailTickets _ _ (List.getElem?_eq_getElem bound)
    refine ⟨_, List.getElem_mem bound, ?_, ?_⟩
    · rw [number, Word64.ofNat_toNat _ (by omega), Word64.ofNat_toNat _ (by omega)]
      omega
    · rw [number]
      exact inv.not_returned (by omega) bound (by rw [place]; omega)
  dequeue thread pos phase refused := by
    have valid := inv.phase thread
    rw [phase] at valid
    rcases valid with ⟨ticket, past, rfl⟩
    have ordered := inv.ordered
    rw [slot_ofNat] at refused
    rcases (inv.exists_seq ticket).1 with ⟨seq, stored, above, limit⟩
    rw [stored] at refused
    have behind := le_of_dequeueBranch_eq_idle (by omega) (by omega) refused
    by_cases accepted : ticket < state.tailClaims.length
    · have begun := inv.begun ticket accepted
      have serves : ledger.ticket (ticket % capacity.toNat) = ticket := by omega
      have equal : seq = ticket := by omega
      subst equal
      rcases (inv.exists_seq seq).2 (by rw [stored, serves]) (by omega)
        (by rw [serves]; exact accepted) with ⟨writer, turn, atHead, owns⟩
      rw [serves] at atHead owns
      have now : seq = state.headClaims.length := by omega
      refine ⟨by rw [inv.head, ← now], .inr ?_⟩
      rcases inv.owned owns with ⟨other, same, ⟨_, call, ptr, claim, _⟩ | reading⟩
      · exact ⟨_, List.mem_of_getElem? claim, rfl, owns⟩
      · have places := congrArg (slot capacity) same
        rw [slot_ofNat, slot_ofNat] at places
        rw [Ledger.Serves, ← places, turn] at reading
        cases reading.2
    · have empty : ticket = state.headClaims.length := by omega
      refine ⟨by rw [inv.head, ← empty], .inl ?_⟩
      rw [fifo, List.drop_of_length_le (by omega), List.map_nil]

/-- In every interleaving, while the positions stay clear of the sign bit, calls are
refused for these reasons only. -/
theorem refusesOnly_of_reachable [DecidableEq Thread] (two : 2 ≤ capacity.toNat)
    (reachable : (system Thread α capacity).Reachable state)
    (small : state.tailClaims.length + capacity.toNat < 2 ^ 63) :
    RefusesOnly capacity state := by
  have invariant : state.tailClaims.length < 2 ^ 63 →
      ∃ ledger, Inv capacity state ledger := by
    refine reachable.invariant (fun state => state.tailClaims.length < 2 ^ 63 →
      ∃ ledger, Inv capacity state ledger) ?_ ?_
    · intro state start _
      cases start
      exact ⟨_, inv_initial capacity⟩
    · intro current event next holds stepped nextSmall
      have step := Step.of_step stepped
      have currentSmall : current.tailClaims.length < 2 ^ 63 :=
        step.tailClaims_extend.length_le.trans_lt nextSmall
      rcases holds currentSmall with ⟨ledger, inv⟩
      exact step.inv two currentSmall inv
  rcases invariant (by omega) with ⟨ledger, inv⟩
  exact inv.refusesOnly small

/-- A consumer that finds the only pointer still on its way in. -/
def unwrittenPointer : List (Bool × Action Nat) :=
  [(true, .enqueue 10), (true, .loadPos), (true, .loadSeq), (true, .exchange),
    (false, .dequeue), (false, .loadPos)]

theorem refusesOnly_of_reachable_unwritten :
    ∃ state : State Bool Nat, (state.tailClaims.length = 1 ∧
      state.phase false = .deqLoaded 0 ∧
      dequeueBranch 0 (state.cells 0).seq = (.idle : Phase Nat)) ∧
      RefusesOnly ⟨2, by decide, by decide⟩ state := by
  rcases TransitionSystem.exists_reachable_of_execute initial
    (step ⟨2, by decide, by decide⟩) unwrittenPointer
    (fun state : State Bool Nat => state.tailClaims.length = 1 ∧
      state.phase false = .deqLoaded 0 ∧
      dequeueBranch 0 (state.cells 0).seq = (.idle : Phase Nat)) (by decide)
    with ⟨state, reachable, stands⟩
  refine ⟨state, stands, refusesOnly_of_reachable (by decide) reachable ?_⟩
  rw [stands.1]
  decide

/-! ## Lock-freedom -/

/-- The steps that a call still needs if no other call takes effect meanwhile; a position
that is out of date costs another read. A call that has not won a ticket yet also carries
what its own exchange will cost each of the other threads. -/
def remaining (threads : Nat) (head tail : Word64) : Phase α → Nat
  | .idle => 0
  | .enqStarted _ | .deqStarted => 2 * threads + 5
  | .enqLoaded _ pos => 2 * threads + if pos = tail then 4 else 6
  | .enqMatched _ pos => 2 * threads + if pos = tail then 3 else 5
  | .deqLoaded pos => 2 * threads + if pos = head then 4 else 6
  | .deqMatched pos => 2 * threads + if pos = head then 3 else 5
  | .enqClaimed _ _ | .deqClaimed _ => 2
  | .enqWritten _ _ | .deqRead _ _ => 1

theorem remaining_le_add_two (threads : Nat) (head tail head' tail' : Word64)
    (phase : Phase α) :
    remaining threads head' tail' phase ≤ remaining threads head tail phase + 2 := by
  cases phase with
  | enqLoaded ptr pos | enqMatched ptr pos | deqLoaded pos | deqMatched pos =>
      simp only [remaining]
      split <;> split <;> omega
  | _ => exact Nat.le_add_right _ _

def beginsCall : Thread × Action α → Bool
  | (_, .enqueue _) | (_, .dequeue) => true
  | _ => false

/-- The compare-exchange of the thread fails although its position is still the one in
`tail_` or `head_`. -/
def failsSpuriously (state : State Thread α) : Thread × Action α → Bool
  | (thread, .exchangeFailed) =>
      match state.phase thread with
      | .enqMatched _ pos => pos == state.tail
      | .deqMatched pos => pos == state.head
      | _ => false
  | _ => false

theorem Inv.seq_le_tail (inv : Inv capacity state ledger) :
    ∃ seq ≤ state.tailClaims.length,
      (state.cells (state.tailClaims.length % capacity.toNat)).seq = BitVec.ofNat 64 seq := by
  have bound := index_lt capacity state.tailClaims.length
  have near := inv.near bound
  have ordered := inv.ordered
  have congruent := inv.congruent _ bound
  have valid := inv.turn _ bound
  cases stands : ledger.turn (state.tailClaims.length % capacity.toNat) with
  | free =>
      rw [stands] at valid
      have same := eq_of_mod_eq_of_near valid.1 (by omega) congruent.symm
      exact ⟨_, same.ge, valid.2⟩
  | writing thread =>
      rw [stands] at valid
      exact ⟨_, valid.2.1.le, valid.2.2.1⟩
  | full =>
      rw [stands] at valid
      exact ⟨_, valid.2.1, valid.2.2.1⟩
  | reading thread =>
      rw [stands] at valid
      exact ⟨_, valid.2.1, valid.2.2.1⟩

theorem Inv.seq_le_head (inv : Inv capacity state ledger) :
    ∃ seq ≤ state.headClaims.length + 1,
      (state.cells (state.headClaims.length % capacity.toNat)).seq = BitVec.ofNat 64 seq := by
  have bound := index_lt capacity state.headClaims.length
  have near := inv.near bound
  have congruent := inv.congruent _ bound
  have valid := inv.turn _ bound
  have served : ledger.ticket (state.headClaims.length % capacity.toNat) ≤
      state.headClaims.length := by
    by_contra above
    have same := eq_of_mod_eq_of_near (by omega) near congruent.symm
    omega
  cases stands : ledger.turn (state.headClaims.length % capacity.toNat) with
  | free =>
      rw [stands] at valid
      exact ⟨_, by omega, valid.2⟩
  | writing thread =>
      rw [stands] at valid
      exact ⟨_, by omega, valid.2.2.1⟩
  | full =>
      rw [stands] at valid
      exact ⟨_, by omega, valid.2.2.1⟩
  | reading thread =>
      rw [stands] at valid
      exact ⟨_, by omega, valid.2.2.1⟩

theorem Inv.enqueueBranch_tail (inv : Inv capacity state ledger)
    (small : state.tailClaims.length + capacity.toNat < 2 ^ 63) (ptr : α) :
    enqueueBranch ptr state.tail (state.cells (slot capacity state.tail)).seq ≠
      .enqStarted ptr := by
  rcases inv.seq_le_tail with ⟨seq, le, stored⟩
  rw [inv.tail, slot_ofNat, stored]
  unfold enqueueBranch
  split
  · simp
  · rename_i different
    have below : seq < state.tailClaims.length := by
      apply lt_of_le_of_ne le
      rintro rfl
      exact different (BitVec.sub_self _)
    rw [if_pos ((Word64.ofNat_sub_slt_zero_iff (by omega) (by omega)).mpr below)]
    simp

theorem Inv.dequeueBranch_head (inv : Inv capacity state ledger)
    (small : state.tailClaims.length + capacity.toNat < 2 ^ 63) :
    dequeueBranch state.head (state.cells (slot capacity state.head)).seq ≠
      (.deqStarted : Phase α) := by
  have ordered := inv.ordered
  rcases inv.seq_le_head with ⟨seq, le, stored⟩
  rw [inv.head, slot_ofNat, stored]
  unfold dequeueBranch
  rw [Word64.ofNat_add_one]
  split
  · simp
  · rename_i different
    have below : seq < state.headClaims.length + 1 := by
      apply lt_of_le_of_ne le
      rintro rfl
      exact different (BitVec.sub_self _)
    rw [if_pos ((Word64.ofNat_sub_slt_zero_iff (by omega) (by omega)).mpr below)]
    simp

section LockFree

variable [DecidableEq Thread] [Fintype Thread]

/-- What the calls in progress still need, all threads together. -/
def State.potential (state : State Thread α) : Nat :=
  ∑ thread, remaining (Fintype.card Thread) state.head state.tail (state.phase thread)

def credit (state : State Thread α) (event : Thread × Action α) : Nat :=
  (6 + 2 * Fintype.card Thread) * (beginsCall event).toNat +
    2 * (failsSpuriously state event).toNat

theorem potential_move (state next : State Thread α) {thread : Thread} {phase : Phase α}
    (heads : next.head = state.head) (tails : next.tail = state.tail)
    (phases : next.phase = Function.update state.phase thread phase) :
    next.potential +
        remaining (Fintype.card Thread) state.head state.tail (state.phase thread) =
      state.potential + remaining (Fintype.card Thread) state.head state.tail phase := by
  rw [State.potential, heads, tails, phases]
  exact sum_weight_update (remaining (Fintype.card Thread) state.head state.tail)
    state.phase thread phase

/-- A claim puts the positions of other threads out of date. -/
theorem potential_claim (state next : State Thread α) {thread : Thread} (phase : Phase α)
    (claimed : ∀ head tail, remaining (Fintype.card Thread) head tail phase = 2)
    (phases : next.phase = Function.update state.phase thread phase) :
    next.potential +
        remaining (Fintype.card Thread) state.head state.tail (state.phase thread) ≤
      state.potential + 2 + 2 * Fintype.card Thread := by
  have sums := sum_weight_update (remaining (Fintype.card Thread) state.head state.tail)
    state.phase thread phase
  have later : next.potential ≤ ∑ other, (remaining (Fintype.card Thread) state.head
      state.tail (Function.update state.phase thread phase other) + 2) := by
    rw [State.potential, phases]
    exact Finset.sum_le_sum fun other _ => remaining_le_add_two _ _ _ _ _ _
  have twos : ∑ _other : Thread, 2 = 2 * Fintype.card Thread := by simp [mul_comm]
  rw [Finset.sum_add_distrib, twos] at later
  rw [claimed] at sums
  change ∑ other, _ + _ = state.potential + _ at sums
  omega

/-- Every step but the beginning of a call and a spurious failure brings the calls
further. -/
theorem Step.lowers {event : Thread × Action α} (inv : Inv capacity state ledger)
    (small : state.tailClaims.length + capacity.toNat < 2 ^ 63)
    (step : Step capacity state event next) :
    next.potential + 1 ≤ state.potential + credit state event := by
  cases step with
  | enqueue thread ptr phase =>
      have moved := potential_move state (state.enqueue thread ptr)
        rfl rfl rfl
      rw [phase] at moved
      simp only [remaining] at moved
      simp only [credit, beginsCall, Bool.toNat_true]
      omega
  | dequeue thread phase =>
      have moved := potential_move state
        (state.goto thread .deqStarted) rfl rfl rfl
      rw [phase] at moved
      simp only [remaining] at moved
      simp only [credit, beginsCall, Bool.toNat_true]
      omega
  | @loadTail thread ptr phase =>
      have moved := potential_move state
        (state.goto thread (.enqLoaded ptr state.tail)) rfl rfl rfl
      rw [phase] at moved
      simp only [remaining, if_true] at moved
      omega
  | @loadHead thread phase =>
      have moved := potential_move state
        (state.goto thread (.deqLoaded state.head)) rfl rfl rfl
      rw [phase] at moved
      simp only [remaining, if_true] at moved
      omega
  | @enqLoadSeq thread ptr pos phase =>
      have moved := potential_move state (state.goto thread
        (enqueueBranch ptr pos (state.cells (slot capacity pos)).seq)) rfl rfl rfl
      rw [phase] at moved
      rcases enqueueBranch_cases ptr pos (state.cells (slot capacity pos)).seq with
        ⟨branch, _⟩ | branch | branch
      · rw [branch] at moved ⊢
        simp only [remaining] at moved
        split at moved <;> omega
      · rw [branch] at moved ⊢
        simp only [remaining] at moved
        split at moved <;> omega
      · -- The position is out of date, or this branch would not have been taken.
        have old : pos ≠ state.tail := by
          rintro rfl
          exact inv.enqueueBranch_tail small ptr branch
        rw [branch] at moved ⊢
        simp only [remaining, if_neg old] at moved
        omega
  | @deqLoadSeq thread pos phase =>
      have moved := potential_move state (state.goto thread
        (dequeueBranch pos (state.cells (slot capacity pos)).seq)) rfl rfl rfl
      rw [phase] at moved
      rcases dequeueBranch_cases α pos (state.cells (slot capacity pos)).seq with
        ⟨branch, _⟩ | branch | branch
      · rw [branch] at moved ⊢
        simp only [remaining] at moved
        split at moved <;> omega
      · rw [branch] at moved ⊢
        simp only [remaining] at moved
        split at moved <;> omega
      · have old : pos ≠ state.head := by
          rintro rfl
          exact inv.dequeueBranch_head small branch
        rw [branch] at moved ⊢
        simp only [remaining, if_neg old] at moved
        omega
  | @claimTail thread ptr pos phase current =>
      have moved := potential_claim state
        (state.claimTail thread ptr pos) (.enqClaimed ptr pos)
        (fun _ _ => rfl) rfl
      rw [phase] at moved
      simp only [remaining, current, if_true] at moved
      omega
  | @claimHead thread pos phase current =>
      have moved := potential_claim state
        (state.claimHead thread pos) (.deqClaimed pos)
        (fun _ _ => rfl) rfl
      rw [phase] at moved
      simp only [remaining, current, if_true] at moved
      omega
  | @enqRetry thread ptr pos phase =>
      have moved := potential_move state
        (state.goto thread (.enqLoaded ptr state.tail)) rfl rfl rfl
      rw [phase] at moved
      by_cases current : pos = state.tail
      · simp [credit, beginsCall, failsSpuriously, phase, current]
        simp only [remaining, current, if_true] at moved
        omega
      · simp only [remaining, current, if_false, if_true] at moved
        omega
  | @deqRetry thread pos phase =>
      have moved := potential_move state
        (state.goto thread (.deqLoaded state.head)) rfl rfl rfl
      rw [phase] at moved
      by_cases current : pos = state.head
      · simp [credit, beginsCall, failsSpuriously, phase, current]
        simp only [remaining, current, if_true] at moved
        omega
      · simp only [remaining, current, if_false, if_true] at moved
        omega
  | @writeData thread ptr pos phase =>
      have moved := potential_move state
        (state.writeData capacity thread ptr pos) rfl rfl rfl
      rw [phase] at moved
      simp only [remaining] at moved
      omega
  | @readData thread pos phase =>
      have moved := potential_move state (state.goto thread
        (.deqRead pos (state.cells (slot capacity pos)).data)) rfl rfl rfl
      rw [phase] at moved
      simp only [remaining] at moved
      omega
  | @publish thread ptr pos phase =>
      have moved := potential_move state
        (state.publish capacity thread pos) rfl rfl rfl
      rw [phase] at moved
      simp only [remaining] at moved
      omega
  | @release thread pos value phase =>
      have moved := potential_move state
        (state.release capacity thread pos value) rfl rfl rfl
      rw [phase] at moved
      simp only [remaining] at moved
      omega

omit [Fintype Thread] in
theorem tailClaims_le_of_run {past : List (State Thread α × Thread × Action α)}
    (run : (system Thread α capacity).Run past state) {entry : State Thread α × Thread × Action α}
    (member : entry ∈ past) : entry.1.tailClaims.length ≤ state.tailClaims.length := by
  induction run with
  | start start => cases member
  | @step past current event next run stepped induction =>
      have longer := (Step.of_step stepped).tailClaims_extend.length_le
      rcases List.mem_cons.mp member with rfl | earlier
      · exact longer
      · exact (induction earlier).trans longer

/-- The queue is lock-free: in every interleaving of any number of producers and consumers,
the steps made are bounded by the calls begun, whichever thread is delayed and where, not
counting exchanges that fail for no reason. -/
theorem lockFree_of_small (two : 2 ≤ capacity.toNat)
    {past : List (State Thread α × Thread × Action α)}
    (run : (system Thread α capacity).Run past state)
    (small : state.tailClaims.length + capacity.toNat < 2 ^ 63) :
    past.length ≤
      (6 + 2 * Fintype.card Thread) * past.countP (fun entry => beginsCall entry.2) +
        2 * past.countP (fun entry => failsSpuriously entry.1 entry.2) := by
  have restricted : ((system Thread α capacity).restrict fun current _ =>
      current.tailClaims.length + capacity.toNat < 2 ^ 63).Run past state :=
    run.restrict fun entry member => by
      have le := tailClaims_le_of_run run member
      omega
  have bound := restricted.length_add_potential_le
    (fun state => ∃ ledger, Inv capacity state ledger) State.potential credit
    0 ?_ ?_ ?_
  · simp only [TransitionSystem.credited, credit, sum_credits, Nat.zero_add] at bound
    exact (Nat.le_add_right _ _).trans bound
  · intro state start
    cases start
    exact ⟨⟨_, inv_initial capacity⟩, by simp [State.potential, initial, remaining]⟩
  · rintro current event next ⟨ledger, inv⟩ ⟨stepped, small⟩
    exact (Step.of_step stepped).inv two (by omega) inv
  · rintro current event next ⟨ledger, inv⟩ ⟨stepped, small⟩
    exact (Step.of_step stepped).lowers inv small

/-- The overtaken enqueue pays for one retry. -/
theorem lockFree_of_small_overtaken :
    ∃ past : List (State Bool Nat × Bool × Action Nat),
      past.map Prod.snd = overtakenEnqueue.reverse ∧
      past.length ≤
        (6 + 2 * Fintype.card Bool) * past.countP (fun entry => beginsCall entry.2) +
          2 * past.countP (fun entry => failsSpuriously entry.1 entry.2) := by
  rcases TransitionSystem.exists_run_of_events initial
    (step ⟨2, by decide, by decide⟩) overtakenEnqueue
    (fun state : State Bool Nat => state.tailClaims.length = 2) (by decide) with
    ⟨past, state, run, events, claims⟩
  refine ⟨past, events, lockFree_of_small (by decide) run ?_⟩
  rw [claims]
  decide

end LockFree

end FeederNet.Queue.CustomMPMCLockFreeQueue
