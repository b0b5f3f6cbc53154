import FeederNet.Queue.CustomMPMCLockFreeQueue.Code
import Mathlib.Data.List.Infix
import Mathlib.Data.List.Nodup

/-! # Tickets of CustomMPMCLockFreeQueue

A position won by a compare-exchange is a ticket. Every cell serves one ticket
at a time, and passes through four turns for it: free for the producer, being
written, full, and being read. The sequence number tells the first two turns
from the last two, and the counters tell the members of each pair apart.
-/

namespace FeederNet.Queue.CustomMPMCLockFreeQueue

inductive Turn (Thread : Type u)
  | free
  | writing (thread : Thread)
  | full
  | reading (thread : Thread)

/-- The ticket each cell serves, and its turn. -/
structure Ledger (Thread : Type u) where
  ticket : Nat → Nat
  turn : Nat → Turn Thread

def Ledger.Serves (ledger : Ledger Thread) (capacity ticket : Nat)
    (turn : Turn Thread) : Prop :=
  ledger.ticket (ticket % capacity) = ticket ∧
    ledger.turn (ticket % capacity) = turn

def Ledger.assign (ledger : Ledger Thread) (index ticket : Nat) (turn : Turn Thread) :
    Ledger Thread where
  ticket := Function.update ledger.ticket index ticket
  turn := Function.update ledger.turn index turn

theorem Ledger.assign_ticket {ledger : Ledger Thread} {index ticket : Nat}
    (same : ledger.ticket index = ticket) (turn : Turn Thread) :
    (ledger.assign index ticket turn).ticket = ledger.ticket := by
  subst same
  exact Function.update_eq_self _ _

theorem Ledger.le_assign (ledger : Ledger Thread) (index ticket : Nat)
    (turn : Turn Thread) (above : ledger.ticket index ≤ ticket) (other : Nat) :
    ledger.ticket other ≤ (ledger.assign index ticket turn).ticket other := by
  by_cases same : other = index
  · subst same
    simpa [Ledger.assign] using above
  · simp [Ledger.assign, same]

/-- The position a thread has won and not yet given up by storing the cell's
sequence number. -/
def Phase.owns : Phase α → Option Word64
  | .enqClaimed _ pos | .enqWritten _ pos | .deqClaimed pos | .deqRead pos _ =>
      some pos
  | _ => none

def TurnValid (state : State Thread α) (cell : Cell α) (ticket : Nat) :
    Turn Thread → Prop
  | .free =>
      state.tailClaims.length ≤ ticket ∧ cell.seq = BitVec.ofNat 64 ticket
  | .writing thread =>
      state.headClaims.length ≤ ticket ∧ ticket < state.tailClaims.length ∧
        cell.seq = BitVec.ofNat 64 ticket ∧
        (state.phase thread).owns = some (BitVec.ofNat 64 ticket)
  | .full =>
      state.headClaims.length ≤ ticket ∧ ticket < state.tailClaims.length ∧
        cell.seq = BitVec.ofNat 64 (ticket + 1) ∧
        cell.data = state.tailClaims[ticket]?.map TailClaim.ptr
  | .reading thread =>
      ticket < state.headClaims.length ∧ ticket < state.tailClaims.length ∧
        cell.seq = BitVec.ofNat 64 (ticket + 1) ∧
        cell.data = state.tailClaims[ticket]?.map TailClaim.ptr ∧
        (state.phase thread).owns = some (BitVec.ofNat 64 ticket)

/-- What a thread between two steps knows. A position may be out of date; when
it is not, its cell still has the turn found there. -/
def PhaseValid (capacity : Nat) (state : State Thread α) (ledger : Ledger Thread)
    (thread : Thread) : Phase α → Prop
  | .idle | .enqStarted _ | .deqStarted => True
  | .enqLoaded _ pos =>
      ∃ ticket ≤ state.tailClaims.length, pos = BitVec.ofNat 64 ticket
  | .enqMatched _ pos =>
      ∃ ticket ≤ state.tailClaims.length, pos = BitVec.ofNat 64 ticket ∧
        (ticket = state.tailClaims.length → ledger.Serves capacity ticket .free)
  | .enqClaimed ptr pos =>
      ∃ ticket call, pos = BitVec.ofNat 64 ticket ∧
        ledger.Serves capacity ticket (.writing thread) ∧
        state.tailClaims[ticket]? = some ⟨pos, thread, call, ptr⟩
  | .enqWritten ptr pos =>
      ∃ ticket call, pos = BitVec.ofNat 64 ticket ∧
        ledger.Serves capacity ticket (.writing thread) ∧
        state.tailClaims[ticket]? = some ⟨pos, thread, call, ptr⟩ ∧
        (state.cells (ticket % capacity)).data = some ptr
  | .deqLoaded pos =>
      ∃ ticket ≤ state.headClaims.length, pos = BitVec.ofNat 64 ticket
  | .deqMatched pos =>
      ∃ ticket ≤ state.headClaims.length, pos = BitVec.ofNat 64 ticket ∧
        (ticket = state.headClaims.length → ledger.Serves capacity ticket .full)
  | .deqClaimed pos =>
      ∃ ticket, pos = BitVec.ofNat 64 ticket ∧
        ledger.Serves capacity ticket (.reading thread) ∧
        state.headClaims[ticket]? = some ⟨pos, thread⟩
  | .deqRead pos value =>
      ∃ ticket, pos = BitVec.ofNat 64 ticket ∧
        ledger.Serves capacity ticket (.reading thread) ∧
        state.headClaims[ticket]? = some ⟨pos, thread⟩ ∧
        value = state.tailClaims[ticket]?.map TailClaim.ptr

def EntryValid (capacity : Nat) (state : State Thread α) (ledger : Ledger Thread)
    (entry : Returned Thread α) : Prop :=
  ∃ ticket, entry.ticket = BitVec.ofNat 64 ticket ∧
    ticket < ledger.ticket (ticket % capacity) ∧
    ticket < state.tailClaims.length ∧
    state.headClaims[ticket]? = some ⟨entry.ticket, entry.thread⟩ ∧
    entry.value = state.tailClaims[ticket]?.map TailClaim.ptr

structure Inv (capacity : PowerOfTwo) (state : State Thread α)
    (ledger : Ledger Thread) : Prop where
  head : state.head = BitVec.ofNat 64 state.headClaims.length
  tail : state.tail = BitVec.ofNat 64 state.tailClaims.length
  ordered : state.headClaims.length ≤ state.tailClaims.length
  congruent : ∀ index < capacity.toNat,
    ledger.ticket index % capacity.toNat = index
  /-- No ticket is claimed before its cell serves it. -/
  begun : ∀ ticket < state.tailClaims.length,
    ticket ≤ ledger.ticket (ticket % capacity.toNat)
  /-- Tickets served earlier are done with. -/
  settled : ∀ ticket, ticket < ledger.ticket (ticket % capacity.toNat) →
    ticket < state.headClaims.length ∧
      BitVec.ofNat 64 ticket ∈ state.returned.map Returned.ticket
  turn : ∀ index < capacity.toNat, TurnValid state (state.cells index)
    (ledger.ticket index) (ledger.turn index)
  phase : ∀ thread, PhaseValid capacity.toNat state ledger thread (state.phase thread)
  tailTickets : ∀ ticket claim, state.tailClaims[ticket]? = some claim →
    claim.ticket = BitVec.ofNat 64 ticket
  headTickets : ∀ ticket claim, state.headClaims[ticket]? = some claim →
    claim.ticket = BitVec.ofNat 64 ticket
  entries : ∀ entry ∈ state.returned, EntryValid capacity.toNat state ledger entry
  once : (state.returned.map Returned.ticket).Nodup

/-! ## What other threads' steps leave alone -/

section Frame

variable {state state' : State Thread α} {ledger ledger' : Ledger Thread}
  {capacity : Nat}

theorem getElem?_extension {left right : List β} (extension : left <+: right) {index : Nat}
    (below : index < left.length) : right[index]? = left[index]? := by
  rw [List.prefix_iff_getElem?.mp extension index below,
    List.getElem?_eq_getElem below]

theorem getElem?_concat {list : List β} {last value : β} {index : Nat}
    (found : (list ++ [last])[index]? = some value) :
    list[index]? = some value ∨ index = list.length ∧ value = last := by
  by_cases old : index < list.length
  · exact .inl (by rwa [List.getElem?_append_left old] at found)
  · have bound := (List.getElem?_eq_some_iff.mp found).1
    rw [List.length_append, List.length_singleton] at bound
    obtain rfl : index = list.length := by omega
    exact .inr ⟨rfl, by simpa using found.symm⟩

theorem getElem?_extension_some {left right : List β} (extension : left <+: right)
    {index : Nat} {value : β} (found : left[index]? = some value) :
    right[index]? = some value := by
  rcases List.getElem?_eq_some_iff.mp found with ⟨below, _⟩
  rw [getElem?_extension extension below, found]

/-- A turn survives steps that claim other tickets. -/
theorem TurnValid.frame {cell : Cell α} {ticket : Nat} {turn : Turn Thread}
    (valid : TurnValid state cell ticket turn)
    (tails : state.tailClaims <+: state'.tailClaims)
    (notTail : ticket < state'.tailClaims.length → ticket < state.tailClaims.length)
    (notHead : ticket < state'.headClaims.length → ticket < state.headClaims.length)
    (heads : state.headClaims <+: state'.headClaims)
    (owners : ∀ thread, (state.phase thread).owns = some (BitVec.ofNat 64 ticket) →
      (state'.phase thread).owns = some (BitVec.ofNat 64 ticket)) :
    TurnValid state' cell ticket turn := by
  have longer := tails.length_le
  have headsLonger := heads.length_le
  cases turn with
  | free =>
      refine ⟨?_, valid.2⟩
      have above := valid.1
      omega
  | writing thread =>
      rcases valid with ⟨above, below, seq, owner⟩
      exact ⟨by omega, by omega, seq, owners thread owner⟩
  | full =>
      rcases valid with ⟨above, below, seq, data⟩
      refine ⟨by omega, by omega, seq, ?_⟩
      rw [getElem?_extension tails below, data]
  | reading thread =>
      rcases valid with ⟨served, below, seq, data, owner⟩
      refine ⟨by omega, by omega, seq, ?_, owners thread owner⟩
      rw [getElem?_extension tails below, data]

/-- A cell whose turn a thread may rely on while the counters stand at the
given numbers. -/
def Relevant (tails heads : Nat) (thread : Thread) (ticket : Nat) :
    Turn Thread → Prop
  | .free => ticket = tails
  | .full => ticket = heads
  | .writing owner | .reading owner => owner = thread

theorem PhaseValid.frame {thread : Thread} {phase : Phase α}
    (valid : PhaseValid capacity state ledger thread phase)
    (tails : state.tailClaims <+: state'.tailClaims)
    (heads : state.headClaims <+: state'.headClaims)
    (kept : ∀ index, Relevant state'.tailClaims.length state'.headClaims.length thread
      (ledger.ticket index) (ledger.turn index) →
        ledger'.ticket index = ledger.ticket index ∧
          ledger'.turn index = ledger.turn index ∧
          (state'.cells index).data = (state.cells index).data)
    (below : ∀ ticket, ledger.Serves capacity ticket (.reading thread) →
      ticket < state.tailClaims.length) :
    PhaseValid capacity state' ledger' thread phase := by
  have tailsLonger := tails.length_le
  have headsLonger := heads.length_le
  have serves : ∀ {ticket turn}, ledger.Serves capacity ticket turn →
      Relevant state'.tailClaims.length state'.headClaims.length thread ticket turn →
      ledger'.Serves capacity ticket turn := by
    rintro ticket turn ⟨serving, stands⟩ relevant
    have same := kept (ticket % capacity) (by rw [serving, stands]; exact relevant)
    exact ⟨same.1.trans serving, same.2.1.trans stands⟩
  cases phase with
  | idle => trivial
  | enqStarted ptr => trivial
  | deqStarted => trivial
  | enqLoaded ptr pos =>
      rcases valid with ⟨ticket, bound, equal⟩
      exact ⟨ticket, by omega, equal⟩
  | deqLoaded pos =>
      rcases valid with ⟨ticket, bound, equal⟩
      exact ⟨ticket, by omega, equal⟩
  | enqMatched ptr pos =>
      rcases valid with ⟨ticket, bound, equal, current⟩
      refine ⟨ticket, by omega, equal, fun now => ?_⟩
      exact serves (current (by omega)) now
  | deqMatched pos =>
      rcases valid with ⟨ticket, bound, equal, current⟩
      refine ⟨ticket, by omega, equal, fun now => ?_⟩
      exact serves (current (by omega)) now
  | enqClaimed ptr pos =>
      rcases valid with ⟨ticket, call, equal, serving, claim⟩
      exact ⟨ticket, call, equal, serves serving rfl,
        getElem?_extension_some tails claim⟩
  | enqWritten ptr pos =>
      rcases valid with ⟨ticket, call, equal, serving, claim, data⟩
      refine ⟨ticket, call, equal, serves serving rfl,
        getElem?_extension_some tails claim, ?_⟩
      have same := kept (ticket % capacity)
        (by rw [serving.1, serving.2]; exact rfl)
      rw [same.2.2, data]
  | deqClaimed pos =>
      rcases valid with ⟨ticket, equal, serving, claim⟩
      exact ⟨ticket, equal, serves serving rfl, getElem?_extension_some heads claim⟩
  | deqRead pos value =>
      rcases valid with ⟨ticket, equal, serving, claim, read⟩
      refine ⟨ticket, equal, serves serving rfl,
        getElem?_extension_some heads claim, ?_⟩
      rw [getElem?_extension tails (below ticket serving), read]

theorem EntryValid.frame {entry : Returned Thread α}
    (valid : EntryValid capacity state ledger entry)
    (tails : state.tailClaims <+: state'.tailClaims)
    (heads : state.headClaims <+: state'.headClaims)
    (later : ∀ index, ledger.ticket index ≤ ledger'.ticket index) :
    EntryValid capacity state' ledger' entry := by
  rcases valid with ⟨ticket, equal, passed, below, claim, value⟩
  refine ⟨ticket, equal, passed.trans_le (later _), below.trans_le tails.length_le,
    getElem?_extension_some heads claim, ?_⟩
  rw [getElem?_extension tails below, value]

end Frame

/-! ## Facts about one state -/

section Facts

variable {Thread : Type v} {α : Type u} {capacity : PowerOfTwo}
  {state : State Thread α} {ledger : Ledger Thread}

theorem Inv.index_eq (inv : Inv capacity state ledger) {index ticket : Nat}
    (bound : index < capacity.toNat) (same : ledger.ticket index = ticket) :
    index = ticket % capacity.toNat := by
  rw [← same, inv.congruent index bound]

theorem index_lt (capacity : PowerOfTwo) (ticket : Nat) :
    ticket % capacity.toNat < capacity.toNat :=
  Nat.mod_lt _ capacity.toNat_pos

theorem Inv.serving (inv : Inv capacity state ledger) {ticket : Nat}
    {turn : Turn Thread} (serves : ledger.Serves capacity.toNat ticket turn) :
    TurnValid state (state.cells (ticket % capacity.toNat)) ticket turn := by
  have valid := inv.turn _ (index_lt capacity ticket)
  rw [serves.1, serves.2] at valid
  exact valid

/-- A cell is at most one lap ahead of the consumers. -/
theorem Inv.near (inv : Inv capacity state ledger) {index : Nat}
    (bound : index < capacity.toNat) :
    ledger.ticket index < state.headClaims.length + capacity.toNat := by
  by_cases first : ledger.ticket index < capacity.toNat
  · omega
  · have lap : (ledger.ticket index - capacity.toNat) % capacity.toNat = index := by
      rw [← Nat.mod_eq_sub_mod (by omega), inv.congruent index bound]
    have earlier := (inv.settled (ledger.ticket index - capacity.toNat)
      (by rw [lap]; omega)).1
    omega

theorem mod_ne_succ (two : 2 ≤ capacity.toNat) (ticket : Nat) :
    ticket % capacity.toNat ≠ (ticket + 1) % capacity.toNat := by
  intro equal
  have same := eq_of_mod_eq_of_near (by omega) (by omega) equal
  omega

/-- A matching sequence number at the current tail means the cell is free for
the next ticket. -/
theorem Inv.serves_free (inv : Inv capacity state ledger)
    (two : 2 ≤ capacity.toNat) (small : state.tailClaims.length < 2 ^ 63)
    (matched : (state.cells (state.tailClaims.length % capacity.toNat)).seq =
      BitVec.ofNat 64 state.tailClaims.length) :
    ledger.Serves capacity.toNat state.tailClaims.length .free := by
  have bound := index_lt capacity state.tailClaims.length
  have near := inv.near bound
  have capacityBound := capacity.toNat_le
  have ordered := inv.ordered
  have congruent := inv.congruent _ bound
  have valid := inv.turn _ bound
  cases stands : ledger.turn (state.tailClaims.length % capacity.toNat) with
  | free =>
      rw [stands] at valid
      refine ⟨?_, stands⟩
      exact (Word64.ofNat_inj (by omega) (by omega)).mp (valid.2.symm.trans matched)
  | writing thread =>
      rw [stands] at valid
      have below := valid.2.1
      have same := (Word64.ofNat_inj (by omega) (by omega)).mp
        (valid.2.2.1.symm.trans matched)
      omega
  | full =>
      rw [stands] at valid
      have below := valid.2.1
      have same := (Word64.ofNat_inj (by omega) (by omega)).mp
        (valid.2.2.1.symm.trans matched)
      exact absurd (congruent.trans (by rw [same])) (mod_ne_succ two _)
  | reading thread =>
      rw [stands] at valid
      have below := valid.2.1
      have same := (Word64.ofNat_inj (by omega) (by omega)).mp
        (valid.2.2.1.symm.trans matched)
      exact absurd (congruent.trans (by rw [same])) (mod_ne_succ two _)

/-- A matching sequence number at the current head means the cell is full. -/
theorem Inv.serves_full (inv : Inv capacity state ledger)
    (two : 2 ≤ capacity.toNat) (small : state.tailClaims.length < 2 ^ 63)
    (matched : (state.cells (state.headClaims.length % capacity.toNat)).seq =
      BitVec.ofNat 64 (state.headClaims.length + 1)) :
    ledger.Serves capacity.toNat state.headClaims.length .full := by
  have bound := index_lt capacity state.headClaims.length
  have near := inv.near bound
  have capacityBound := capacity.toNat_le
  have ordered := inv.ordered
  have congruent := inv.congruent _ bound
  have valid := inv.turn _ bound
  cases stands : ledger.turn (state.headClaims.length % capacity.toNat) with
  | free =>
      rw [stands] at valid
      have same := (Word64.ofNat_inj (by omega) (by omega)).mp
        (valid.2.symm.trans matched)
      rw [same] at congruent
      exact absurd congruent.symm (mod_ne_succ two _)
  | writing thread =>
      rw [stands] at valid
      have same := (Word64.ofNat_inj (by omega) (by omega)).mp
        (valid.2.2.1.symm.trans matched)
      rw [same] at congruent
      exact absurd congruent.symm (mod_ne_succ two _)
  | full =>
      rw [stands] at valid
      have below := valid.2.1
      have same := (Word64.ofNat_inj (by omega) (by omega)).mp
        (valid.2.2.1.symm.trans matched)
      exact ⟨by omega, stands⟩
  | reading thread =>
      rw [stands] at valid
      have served := valid.1
      have same := (Word64.ofNat_inj (by omega) (by omega)).mp
        (valid.2.2.1.symm.trans matched)
      omega

theorem Inv.reading_lt (inv : Inv capacity state ledger) (thread : Thread) (ticket : Nat)
    (serves : ledger.Serves capacity.toNat ticket (.reading thread)) :
    ticket < state.tailClaims.length :=
  (inv.serving serves).2.1

/-- A step that concerns one cell and one ticket leaves the other cells in their
turns. -/
theorem Inv.turn_assign (inv : Inv capacity state ledger) {state' : State Thread α}
    {ticket ticket' : Nat} {turn : Turn Thread}
    (here : TurnValid state' (state'.cells (ticket % capacity.toNat)) ticket' turn)
    (cells : ∀ index, index ≠ ticket % capacity.toNat →
      state'.cells index = state.cells index)
    (tails : state.tailClaims <+: state'.tailClaims)
    (heads : state.headClaims <+: state'.headClaims)
    (tailOnly : ∀ other < state'.tailClaims.length,
      other < state.tailClaims.length ∨ other = ticket)
    (headOnly : ∀ other < state'.headClaims.length,
      other < state.headClaims.length ∨ other = ticket)
    (owners : ∀ thread pos, (state.phase thread).owns = some pos →
      pos ≠ BitVec.ofNat 64 ticket → (state'.phase thread).owns = some pos) :
    ∀ index < capacity.toNat, TurnValid state' (state'.cells index)
      ((ledger.assign (ticket % capacity.toNat) ticket' turn).ticket index)
      ((ledger.assign (ticket % capacity.toNat) ticket' turn).turn index) := by
  intro index bound
  by_cases served : index = ticket % capacity.toNat
  · subst served
    simpa only [Ledger.assign, Function.update_self] using here
  · simp only [Ledger.assign, Function.update_of_ne served, cells index served]
    have other : ledger.ticket index ≠ ticket :=
      fun same => served (inv.index_eq bound same)
    refine (inv.turn index bound).frame tails ?_ ?_ heads ?_
    · exact fun below => (tailOnly _ below).resolve_right other
    · exact fun below => (headOnly _ below).resolve_right other
    · intro thread owned
      refine owners thread _ owned fun equal => served ?_
      have slots := congrArg (slot capacity) equal
      rw [slot_ofNat, slot_ofNat] at slots
      exact (inv.congruent index bound).symm.trans slots

end Facts

/-! ## One step -/

section Invariance

variable {Thread : Type v} [DecidableEq Thread] {α : Type u} {capacity : PowerOfTwo}
  {state : State Thread α} {ledger : Ledger Thread} {thread : Thread}

theorem owns_update {phase : Thread → Phase α} {next : Phase α}
    (keeps : ∀ pos, (phase thread).owns = some pos → next.owns = some pos)
    (other : Thread) (pos : Word64) (owned : (phase other).owns = some pos) :
    (Function.update phase thread next other).owns = some pos := by
  by_cases same : other = thread
  · subst same
    simpa using keeps pos owned
  · simpa [same] using owned

theorem Inv.goto (inv : Inv capacity state ledger) (phase : Phase α)
    (keeps : ∀ pos, (state.phase thread).owns = some pos → phase.owns = some pos)
    (valid : PhaseValid capacity.toNat state ledger thread phase) :
    Inv capacity (state.goto thread phase) ledger where
  head := inv.head
  tail := inv.tail
  ordered := inv.ordered
  congruent := inv.congruent
  begun := inv.begun
  settled := inv.settled
  turn index bound := (inv.turn index bound).frame (List.prefix_refl _) id id
    (List.prefix_refl _) fun other owned => owns_update keeps other _ owned
  phase other := by
    by_cases same : other = thread
    · subst same
      simp only [State.goto, Function.update_self]
      exact valid.frame (List.prefix_refl _) (List.prefix_refl _)
        (fun _ _ => ⟨rfl, rfl, rfl⟩) (inv.reading_lt other)
    · simp only [State.goto, Function.update_of_ne same]
      exact (inv.phase other).frame (List.prefix_refl _) (List.prefix_refl _)
        (fun _ _ => ⟨rfl, rfl, rfl⟩) (inv.reading_lt other)
  tailTickets := inv.tailTickets
  headTickets := inv.headTickets
  entries := inv.entries
  once := inv.once

theorem Inv.enqueue (inv : Inv capacity state ledger) (ptr : α)
    (phase : state.phase thread = .idle) :
    Inv capacity (state.enqueue thread ptr) ledger := by
  have moved : Inv capacity (state.goto thread (.enqStarted ptr)) ledger :=
    inv.goto _ (by simp [phase, Phase.owns]) trivial
  exact ⟨moved.head, moved.tail, moved.ordered, moved.congruent, moved.begun,
    moved.settled, moved.turn, moved.phase, moved.tailTickets, moved.headTickets,
    moved.entries, moved.once⟩

theorem Inv.phase_assign (inv : Inv capacity state ledger) {state' : State Thread α}
    {phase : Phase α} {index ticket : Nat} {turn : Turn Thread}
    (moved : state'.phase = Function.update state.phase thread phase)
    (here : PhaseValid capacity.toNat state' (ledger.assign index ticket turn)
      thread phase)
    (data : ∀ other, other ≠ index →
      (state'.cells other).data = (state.cells other).data)
    (tails : state.tailClaims <+: state'.tailClaims)
    (heads : state.headClaims <+: state'.headClaims)
    (irrelevant : ∀ other, other ≠ thread →
      ¬ Relevant state'.tailClaims.length state'.headClaims.length other
        (ledger.ticket index) (ledger.turn index)) :
    ∀ other, PhaseValid capacity.toNat state' (ledger.assign index ticket turn) other
      (state'.phase other) := by
  intro other
  rw [moved]
  by_cases same : other = thread
  · subst same
    simpa only [Function.update_self] using here
  · rw [Function.update_of_ne same]
    refine (inv.phase other).frame tails heads ?_ (inv.reading_lt other)
    intro place relevant
    have different : place ≠ index := by
      intro equal
      subst equal
      exact irrelevant other same relevant
    exact ⟨Function.update_of_ne different _ _, Function.update_of_ne different _ _,
      data place different⟩

theorem Inv.claimTail (inv : Inv capacity state ledger) {ptr : α} {pos : Word64}
    (small : state.tailClaims.length < 2 ^ 63)
    (phase : state.phase thread = .enqMatched ptr pos) (current : state.tail = pos) :
    ∃ ledger', Inv capacity (state.claimTail thread ptr pos) ledger' := by
  have valid := inv.phase thread
  rw [phase] at valid
  rcases valid with ⟨ticket, past, rfl, free⟩
  have now : state.tailClaims.length = ticket :=
    (Word64.ofNat_inj (by omega) (by omega)).mp (inv.tail.symm.trans current)
  have serves := free now.symm
  subst now
  have cell := inv.serving serves
  have tails : state.tailClaims <+: (state.claimTail thread ptr
      (BitVec.ofNat 64 state.tailClaims.length)).tailClaims :=
    List.prefix_append _ _
  have longer : (state.claimTail thread ptr (BitVec.ofNat 64
      state.tailClaims.length)).tailClaims.length = state.tailClaims.length + 1 := by
    simp [State.claimTail]
  refine ⟨ledger.assign (state.tailClaims.length % capacity.toNat)
    state.tailClaims.length (.writing thread), ?_⟩
  have tickets := Ledger.assign_ticket serves.1 (.writing thread)
  constructor
  case head => exact inv.head
  case tail => rw [longer, ← Word64.ofNat_add_one]; rfl
  case ordered => exact inv.ordered.trans tails.length_le
  case congruent => rw [tickets]; exact inv.congruent
  case begun =>
    intro ticket bound
    rw [longer] at bound
    rw [tickets]
    by_cases new : ticket = state.tailClaims.length
    · subst new
      exact serves.1.ge
    · exact inv.begun ticket (by omega)
  case settled => rw [tickets]; exact inv.settled
  case turn =>
    refine inv.turn_assign ⟨inv.ordered, by omega, cell.2, ?_⟩
      (fun _ _ => rfl) tails (List.prefix_refl _) (by omega) (fun _ => Or.inl) ?_
    · simp [State.claimTail, State.goto, Phase.owns]
    · exact fun other pos owned _ =>
        owns_update (by simp [phase, Phase.owns]) other pos owned
  case phase =>
    refine inv.phase_assign rfl ?_ (fun _ _ => rfl) tails (List.prefix_refl _) ?_
    · refine ⟨state.tailClaims.length, state.calls thread, rfl,
        ⟨?_, Function.update_self ..⟩, ?_⟩
      · rw [tickets, serves.1]
      · simp [State.claimTail]
    · -- The cell was free for the old tail, so nobody relies on it at the new one.
      intro other _
      rw [serves.1, serves.2, longer]
      exact Nat.ne_of_lt (Nat.lt_succ_self _)
  case tailTickets =>
    intro ticket claim found
    rcases getElem?_concat found with old | ⟨rfl, rfl⟩
    · exact inv.tailTickets ticket claim old
    · rfl
  case headTickets => exact inv.headTickets
  case entries =>
    exact fun entry member => (inv.entries entry member).frame tails
      (List.prefix_refl _) fun index => (congrFun tickets index).ge
  case once => exact inv.once

theorem Inv.claimHead (inv : Inv capacity state ledger) {pos : Word64}
    (small : state.tailClaims.length < 2 ^ 63)
    (phase : state.phase thread = .deqMatched pos) (current : state.head = pos) :
    ∃ ledger', Inv capacity (state.claimHead thread pos) ledger' := by
  have ordered := inv.ordered
  have valid := inv.phase thread
  rw [phase] at valid
  rcases valid with ⟨ticket, past, rfl, full⟩
  have now : state.headClaims.length = ticket :=
    (Word64.ofNat_inj (by omega) (by omega)).mp (inv.head.symm.trans current)
  have serves := full now.symm
  subst now
  rcases inv.serving serves with ⟨_, below, seq, data⟩
  have heads : state.headClaims <+: (state.claimHead thread
      (BitVec.ofNat 64 state.headClaims.length)).headClaims :=
    List.prefix_append _ _
  have longer : (state.claimHead thread (BitVec.ofNat 64
      state.headClaims.length)).headClaims.length = state.headClaims.length + 1 := by
    simp [State.claimHead]
  refine ⟨ledger.assign (state.headClaims.length % capacity.toNat)
    state.headClaims.length (.reading thread), ?_⟩
  have tickets := Ledger.assign_ticket serves.1 (.reading thread)
  constructor
  case head => rw [longer, ← Word64.ofNat_add_one]; rfl
  case tail => exact inv.tail
  case ordered => rw [longer]; exact below
  case congruent => rw [tickets]; exact inv.congruent
  case begun => rw [tickets]; exact inv.begun
  case settled =>
    intro ticket passed
    rw [tickets] at passed
    have before := inv.settled ticket passed
    exact ⟨before.1.trans_le heads.length_le, before.2⟩
  case turn =>
    refine inv.turn_assign ⟨by omega, below, seq, data, ?_⟩ (fun _ _ => rfl)
      (List.prefix_refl _) heads (fun _ => Or.inl) (by omega) ?_
    · simp [State.claimHead, State.goto, Phase.owns]
    · exact fun other pos owned _ =>
        owns_update (by simp [phase, Phase.owns]) other pos owned
  case phase =>
    refine inv.phase_assign rfl ?_ (fun _ _ => rfl) (List.prefix_refl _) heads ?_
    · refine ⟨state.headClaims.length, rfl, ⟨?_, Function.update_self ..⟩, ?_⟩
      · rw [tickets, serves.1]
      · simp [State.claimHead]
    · intro other _
      rw [serves.1, serves.2, longer]
      exact Nat.ne_of_lt (Nat.lt_succ_self _)
  case tailTickets => exact inv.tailTickets
  case headTickets =>
    intro ticket claim found
    rcases getElem?_concat found with old | ⟨rfl, rfl⟩
    · exact inv.headTickets ticket claim old
    · rfl
  case entries =>
    exact fun entry member => (inv.entries entry member).frame (List.prefix_refl _)
      heads fun index => (congrFun tickets index).ge
  case once => exact inv.once

def State.setCell (state : State Thread α) (thread : Thread) (phase : Phase α)
    (index : Nat) (cell : Cell α) : State Thread α :=
  { state.goto thread phase with cells := Function.update state.cells index cell }

/-- A producer between its claim and its publication has the cell to itself. -/
theorem Inv.setCell (inv : Inv capacity state ledger) {phase : Phase α} {ticket : Nat}
    {cell : Cell α} (turn : Turn Thread)
    (serves : ledger.Serves capacity.toNat ticket (.writing thread))
    (owned : (state.phase thread).owns = some (BitVec.ofNat 64 ticket))
    (here : TurnValid (state.setCell thread phase (ticket % capacity.toNat) cell) cell
      ticket turn)
    (knows : PhaseValid capacity.toNat
      (state.setCell thread phase (ticket % capacity.toNat) cell)
      (ledger.assign (ticket % capacity.toNat) ticket turn) thread phase) :
    Inv capacity (state.setCell thread phase (ticket % capacity.toNat) cell)
      (ledger.assign (ticket % capacity.toNat) ticket turn) := by
  have tickets := Ledger.assign_ticket serves.1 turn
  have elsewhere : ∀ index, index ≠ ticket % capacity.toNat →
      (state.setCell thread phase (ticket % capacity.toNat) cell).cells index =
        state.cells index :=
    fun index different => Function.update_of_ne different _ _
  constructor
  case head => exact inv.head
  case tail => exact inv.tail
  case ordered => exact inv.ordered
  case congruent => rw [tickets]; exact inv.congruent
  case begun => rw [tickets]; exact inv.begun
  case settled => rw [tickets]; exact inv.settled
  case turn =>
    refine inv.turn_assign ?_ elsewhere (List.prefix_refl _) (List.prefix_refl _)
      (fun _ => Or.inl) (fun _ => Or.inl) ?_
    · simpa [State.setCell] using here
    · intro other pos holds different
      by_cases same : other = thread
      · subst same
        rw [owned] at holds
        exact absurd (Option.some.inj holds).symm different
      · simpa [State.setCell, State.goto, same] using holds
  case phase =>
    refine inv.phase_assign rfl knows
      (fun index different => by rw [elsewhere index different])
      (List.prefix_refl _) (List.prefix_refl _) ?_
    intro other different relevant
    rw [serves.1, serves.2] at relevant
    exact different relevant.symm
  case tailTickets => exact inv.tailTickets
  case headTickets => exact inv.headTickets
  case entries =>
    exact fun entry member => (inv.entries entry member).frame (List.prefix_refl _)
      (List.prefix_refl _) fun index => (congrFun tickets index).ge
  case once => exact inv.once

theorem Inv.writeData (inv : Inv capacity state ledger) {ptr : α} {pos : Word64}
    (phase : state.phase thread = .enqClaimed ptr pos) :
    ∃ ledger', Inv capacity (state.writeData capacity thread ptr pos) ledger' := by
  have valid := inv.phase thread
  rw [phase] at valid
  rcases valid with ⟨ticket, call, rfl, serves, claim⟩
  rcases inv.serving serves with ⟨above, below, seq, owned⟩
  rw [State.writeData, slot_ofNat]
  refine ⟨_, inv.setCell (.writing thread) serves owned
    ⟨above, below, seq, ?_⟩ ⟨ticket, call, rfl, ⟨?_, ?_⟩, claim, ?_⟩⟩
  · simp [State.setCell, State.goto, Phase.owns]
  · rw [Ledger.assign_ticket serves.1, serves.1]
  · exact Function.update_self ..
  · simp [State.setCell]

/-- Storing `pos + 1` hands the written cell to the consumers. -/
theorem Inv.publish (inv : Inv capacity state ledger) {ptr : α} {pos : Word64}
    (phase : state.phase thread = .enqWritten ptr pos) :
    ∃ ledger', Inv capacity (state.publish capacity thread pos) ledger' := by
  have valid := inv.phase thread
  rw [phase] at valid
  rcases valid with ⟨ticket, call, rfl, serves, claim, data⟩
  rcases inv.serving serves with ⟨above, below, seq, owned⟩
  rw [State.publish, slot_ofNat]
  refine ⟨_, inv.setCell .full serves owned
    ⟨above, below, Word64.ofNat_add_one ticket, ?_⟩ trivial⟩
  change (state.cells _).data = state.tailClaims[ticket]?.map _
  rw [data, claim]
  rfl

theorem Inv.release (inv : Inv capacity state ledger) {pos : Word64} {value : Option α}
    (small : state.tailClaims.length < 2 ^ 63)
    (phase : state.phase thread = .deqRead pos value) :
    ∃ ledger', Inv capacity (state.release capacity thread pos value) ledger' := by
  have valid := inv.phase thread
  rw [phase] at valid
  rcases valid with ⟨ticket, rfl, serves, claim, read⟩
  rcases inv.serving serves with ⟨served, below, seq, data, owned⟩
  have positive := capacity.toNat_pos
  rw [State.release, slot_ofNat]
  refine ⟨ledger.assign (ticket % capacity.toNat) (ticket + capacity.toNat) .free, ?_⟩
  have lap : (ticket + capacity.toNat) % capacity.toNat = ticket % capacity.toNat :=
    Nat.add_mod_right _ _
  have later := ledger.le_assign (ticket % capacity.toNat) (ticket + capacity.toNat)
    .free (by rw [serves.1]; omega)
  constructor
  case head => exact inv.head
  case tail => exact inv.tail
  case ordered => exact inv.ordered
  case congruent =>
    intro index bound
    by_cases same : index = ticket % capacity.toNat
    · subst same
      simpa only [Ledger.assign, Function.update_self] using lap
    · simpa only [Ledger.assign, Function.update_of_ne same] using
        inv.congruent index bound
  case begun =>
    exact fun other bound => (inv.begun other bound).trans (later _)
  case settled =>
    intro other passed
    simp only [List.map_append, List.mem_append]
    by_cases same : other % capacity.toNat = ticket % capacity.toNat
    · simp only [Ledger.assign, same, Function.update_self] at passed
      rcases Nat.lt_trichotomy other ticket with earlier | rfl | after
      · have before := inv.settled other (by rw [same, serves.1]; exact earlier)
        exact ⟨before.1, .inl before.2⟩
      · exact ⟨served, .inr (by simp)⟩
      · have equal := eq_of_mod_eq_of_near after.le passed same.symm
        omega
    · simp only [Ledger.assign, Function.update_of_ne same] at passed
      have before := inv.settled other passed
      exact ⟨before.1, .inl before.2⟩
  case turn =>
    refine inv.turn_assign ⟨?_, ?_⟩
      (fun index different => Function.update_of_ne different _ _)
      (List.prefix_refl _) (List.prefix_refl _) (fun _ => Or.inl) (fun _ => Or.inl) ?_
    · change state.tailClaims.length ≤ ticket + capacity.toNat
      by_contra claimed
      have begun := inv.begun (ticket + capacity.toNat) (by omega)
      rw [lap, serves.1] at begun
      omega
    · simp [capacity.ofNat_add_value]
    · intro other pos holds different
      by_cases same : other = thread
      · subst same
        rw [owned] at holds
        exact absurd (Option.some.inj holds).symm different
      · simpa [State.goto, same] using holds
  case phase =>
    refine inv.phase_assign rfl trivial
      (fun index different => congrArg Cell.data (Function.update_of_ne different _ _))
      (List.prefix_refl _) (List.prefix_refl _) ?_
    intro other different relevant
    rw [serves.1, serves.2] at relevant
    exact different relevant.symm
  case tailTickets => exact inv.tailTickets
  case headTickets => exact inv.headTickets
  case entries =>
    intro entry member
    rcases List.mem_append.mp member with old | new
    · exact (inv.entries entry old).frame (List.prefix_refl _) (List.prefix_refl _) later
    · obtain rfl := List.mem_singleton.mp new
      refine ⟨ticket, rfl, ?_, below, claim, read⟩
      simp only [Ledger.assign, Function.update_self]
      omega
  case once =>
    simp only [List.map_append, List.map_cons, List.map_nil]
    refine inv.once.append (List.nodup_singleton _) ?_
    intro word member new
    obtain rfl := List.mem_singleton.mp new
    rcases List.mem_map.mp member with ⟨entry, old, equal⟩
    rcases inv.entries entry old with ⟨other, word, passed, bound, _⟩
    have same := (Word64.ofNat_inj (by omega) (by omega)).mp (word.symm.trans equal)
    subst same
    exact absurd passed (by rw [serves.1]; exact Nat.lt_irrefl _)

omit [DecidableEq Thread] in
theorem inv_initial (capacity : PowerOfTwo) :
    Inv capacity (initial : State Thread α) { ticket := id, turn := fun _ => .free } where
  head := rfl
  tail := rfl
  ordered := le_rfl
  congruent _ bound := Nat.mod_eq_of_lt bound
  begun _ bound := absurd bound (Nat.not_lt_zero _)
  settled ticket passed := absurd (Nat.mod_le ticket _) (Nat.not_le_of_lt passed)
  turn _ _ := ⟨Nat.zero_le _, rfl⟩
  phase _ := trivial
  tailTickets _ _ found := absurd found (by simp [initial])
  headTickets _ _ found := absurd found (by simp [initial])
  entries _ member := absurd member (by simp [initial])
  once := List.nodup_nil

theorem Step.inv {event : Thread × Action α} {next : State Thread α}
    (two : 2 ≤ capacity.toNat) (small : state.tailClaims.length < 2 ^ 63)
    (inv : Inv capacity state ledger) (step : Step capacity state event next) :
    ∃ ledger', Inv capacity next ledger' := by
  cases step with
  | enqueue thread ptr phase => exact ⟨_, inv.enqueue ptr phase⟩
  | dequeue thread phase =>
      exact ⟨_, inv.goto _ (by simp [phase, Phase.owns]) trivial⟩
  | loadTail thread phase =>
      exact ⟨_, inv.goto _ (by simp [phase, Phase.owns]) ⟨_, le_rfl, inv.tail⟩⟩
  | loadHead thread phase =>
      exact ⟨_, inv.goto _ (by simp [phase, Phase.owns]) ⟨_, le_rfl, inv.head⟩⟩
  | @enqLoadSeq thread ptr pos phase =>
      have valid := inv.phase thread
      rw [phase] at valid
      rcases valid with ⟨ticket, past, rfl⟩
      rcases enqueueBranch_cases ptr (BitVec.ofNat 64 ticket)
        (state.cells (slot capacity (BitVec.ofNat 64 ticket))).seq with
        ⟨branch, matched⟩ | branch | branch
      · rw [branch]
        rw [slot_ofNat] at matched
        refine ⟨_, inv.goto _ (by simp [phase, Phase.owns]) ⟨ticket, past, rfl, ?_⟩⟩
        intro equal
        subst equal
        exact inv.serves_free two small matched
      · rw [branch]
        exact ⟨_, inv.goto _ (by simp [phase, Phase.owns]) trivial⟩
      · rw [branch]
        exact ⟨_, inv.goto _ (by simp [phase, Phase.owns]) trivial⟩
  | @deqLoadSeq thread pos phase =>
      have valid := inv.phase thread
      rw [phase] at valid
      rcases valid with ⟨ticket, past, rfl⟩
      rcases dequeueBranch_cases α (BitVec.ofNat 64 ticket)
        (state.cells (slot capacity (BitVec.ofNat 64 ticket))).seq with
        ⟨branch, matched⟩ | branch | branch
      · rw [branch]
        rw [slot_ofNat, Word64.ofNat_add_one] at matched
        refine ⟨_, inv.goto _ (by simp [phase, Phase.owns]) ⟨ticket, past, rfl, ?_⟩⟩
        intro equal
        subst equal
        exact inv.serves_full two small matched
      · rw [branch]
        exact ⟨_, inv.goto _ (by simp [phase, Phase.owns]) trivial⟩
      · rw [branch]
        exact ⟨_, inv.goto _ (by simp [phase, Phase.owns]) trivial⟩
  | claimTail thread phase current => exact inv.claimTail small phase current
  | claimHead thread phase current => exact inv.claimHead small phase current
  | enqRetry thread phase =>
      exact ⟨_, inv.goto _ (by simp [phase, Phase.owns]) ⟨_, le_rfl, inv.tail⟩⟩
  | deqRetry thread phase =>
      exact ⟨_, inv.goto _ (by simp [phase, Phase.owns]) ⟨_, le_rfl, inv.head⟩⟩
  | writeData thread phase => exact inv.writeData phase
  | @readData thread pos phase =>
      have valid := inv.phase thread
      rw [phase] at valid
      rcases valid with ⟨ticket, rfl, serves, claim⟩
      have data := (inv.serving serves).2.2.2.1
      refine ⟨_, inv.goto _ (by simp [phase, Phase.owns])
        ⟨ticket, rfl, serves, claim, ?_⟩⟩
      rw [slot_ofNat, data]
  | publish thread phase => exact inv.publish phase
  | release thread phase => exact inv.release small phase

end Invariance

end FeederNet.Queue.CustomMPMCLockFreeQueue
