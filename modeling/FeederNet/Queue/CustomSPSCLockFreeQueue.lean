import FeederNet.Foundation.MachineWord
import FeederNet.Foundation.TransitionSystem
import Mathlib.Data.List.Basic
import Mathlib.Logic.Function.Basic

/-! # CustomSPSCLockFreeQueue

A ring of pointers between one producer and one consumer. One step is one load,
store, fetch-add or slot access of one of the two threads.
-/

namespace FeederNet.Queue.CustomSPSCLockFreeQueue

inductive Producer (α : Type u)
  | idle
  | loadedTail (ptr : α) (tail : Word64)
  | admitted (ptr : α) (tail : Word64)
  | written (ptr : α) (tail : Word64)
  deriving DecidableEq, Repr

/-- Where the consumer stands between two steps of `dequeue`. Only the consumer
changes `head_`, so the order of the two loads in the empty test is immaterial. -/
inductive Consumer
  | idle
  | loadedHead (head : Word64)
  | nonEmpty
  | claimed (head : Word64)
  deriving DecidableEq, Repr

inductive Event (α : Type u)
  | enqueue (ptr : α)
  | loadHead
  | writeSlot
  | storeTail
  | dequeue
  | loadTail
  | fetchAdd
  | readSlot
  deriving DecidableEq, Repr

/-- The queue with the two threads that use it. A slot is `none` while it holds
`nullptr`. The last three fields record the values passed to `enqueue` when it
returned true and false, and the values `dequeue` returned. -/
structure State (α : Type u) where
  buffer : Nat → Option α
  head : Word64
  tail : Word64
  producer : Producer α
  consumer : Consumer
  accepted : List α
  refused : List α
  delivered : List α

def initial : State α where
  buffer _ := none
  head := 0
  tail := 0
  producer := .idle
  consumer := .idle
  accepted := []
  refused := []
  delivered := []

def slot (capacity : PowerOfTwo) (counter : Word64) : Nat :=
  (counter &&& capacity.mask).toNat

def step (capacity : PowerOfTwo) (state : State α) : Event α → Option (State α)
  | .enqueue ptr =>
      match state.producer with
      | .idle => some { state with producer := .loadedTail ptr state.tail }
      | _ => none
  | .loadHead =>
      match state.producer with
      | .loadedTail ptr tail =>
          if tail + 1 - state.head > capacity.value then
            some { state with
              producer := .idle
              refused := state.refused ++ [ptr] }
          else some { state with producer := .admitted ptr tail }
      | _ => none
  | .writeSlot =>
      match state.producer with
      | .admitted ptr tail =>
          some { state with
            buffer := Function.update state.buffer (slot capacity tail) (some ptr)
            producer := .written ptr tail }
      | _ => none
  | .storeTail =>
      match state.producer with
      | .written ptr tail =>
          some { state with
            tail := tail + 1
            producer := .idle
            accepted := state.accepted ++ [ptr] }
      | _ => none
  | .dequeue =>
      match state.consumer with
      | .idle => some { state with consumer := .loadedHead state.head }
      | _ => none
  | .loadTail =>
      match state.consumer with
      | .loadedHead head =>
          if head = state.tail then some { state with consumer := .idle }
          else some { state with consumer := .nonEmpty }
      | _ => none
  | .fetchAdd =>
      match state.consumer with
      | .nonEmpty =>
          some { state with
            head := state.head + 1
            consumer := .claimed state.head }
      | _ => none
  | .readSlot =>
      match state.consumer with
      | .claimed head =>
          some { state with
            consumer := .idle
            delivered := state.delivered ++ (state.buffer (slot capacity head)).toList }
      | _ => none

@[reducible] def system (α : Type u) (capacity : PowerOfTwo) :
    TransitionSystem (State α) (Event α) :=
  .ofStep initial (step capacity)

inductive Step (capacity : PowerOfTwo) : State α → Event α → State α → Prop
  | enqueue {state} (ptr) :
      state.producer = .idle →
      Step capacity state (.enqueue ptr)
        { state with producer := .loadedTail ptr state.tail }
  | full {state ptr tail} :
      state.producer = .loadedTail ptr tail →
      tail + 1 - state.head > capacity.value →
      Step capacity state .loadHead
        { state with
          producer := .idle
          refused := state.refused ++ [ptr] }
  | notFull {state ptr tail} :
      state.producer = .loadedTail ptr tail →
      ¬ tail + 1 - state.head > capacity.value →
      Step capacity state .loadHead { state with producer := .admitted ptr tail }
  | writeSlot {state ptr tail} :
      state.producer = .admitted ptr tail →
      Step capacity state .writeSlot
        { state with
          buffer := Function.update state.buffer (slot capacity tail) (some ptr)
          producer := .written ptr tail }
  | storeTail {state ptr tail} :
      state.producer = .written ptr tail →
      Step capacity state .storeTail
        { state with
          tail := tail + 1
          producer := .idle
          accepted := state.accepted ++ [ptr] }
  | dequeue {state} :
      state.consumer = .idle →
      Step capacity state .dequeue
        { state with consumer := .loadedHead state.head }
  | empty {state head} :
      state.consumer = .loadedHead head → head = state.tail →
      Step capacity state .loadTail { state with consumer := .idle }
  | nonEmpty {state head} :
      state.consumer = .loadedHead head → head ≠ state.tail →
      Step capacity state .loadTail { state with consumer := .nonEmpty }
  | fetchAdd {state} :
      state.consumer = .nonEmpty →
      Step capacity state .fetchAdd
        { state with
          head := state.head + 1
          consumer := .claimed state.head }
  | readSlot {state head} :
      state.consumer = .claimed head →
      Step capacity state .readSlot
        { state with
          consumer := .idle
          delivered := state.delivered ++ (state.buffer (slot capacity head)).toList }

theorem Step.of_step {capacity : PowerOfTwo} {state next : State α}
    {event : Event α} (stepped : step capacity state event = some next) :
    Step capacity state event next := by
  unfold step at stepped
  split at stepped <;> split at stepped
  all_goals first
    | cases stepped; constructor <;> assumption
    | split at stepped <;> cases stepped <;> constructor <;> assumption
    | cases stepped

/-! ## What every run keeps -/

/-- `head_` is already past the value being read. -/
def Consumer.pending : Consumer → Nat
  | .claimed _ => 1
  | _ => 0

def State.HoldsTicket (capacity : PowerOfTwo) (state : State α) (index : Nat) : Prop :=
  state.buffer (index % capacity.toNat) = state.accepted[index]?

def ProducerValid (capacity : PowerOfTwo) (buffer : Nat → Option α) (tail : Word64)
    (claims accepted : Nat) : Producer α → Prop
  | .idle => True
  | .loadedTail _ loaded => loaded = tail
  | .admitted _ loaded => loaded = tail ∧ accepted < claims + capacity.toNat
  | .written ptr loaded =>
      loaded = tail ∧ accepted < claims + capacity.toNat ∧
        buffer (accepted % capacity.toNat) = some ptr

def ConsumerValid (capacity : PowerOfTwo) (buffer : Nat → Option α) (head : Word64)
    (delivered accepted : Nat) : Consumer → Prop
  | .idle => True
  | .loadedHead loaded => loaded = head
  | .nonEmpty => delivered < accepted
  | .claimed claimed =>
      claimed = BitVec.ofNat 64 delivered ∧
        ∃ value, buffer (delivered % capacity.toNat) = some value

/-- The counters are the wrapped numbers of claims and acceptances, and slots
that are not claimed hold their values. -/
structure Inv (capacity : PowerOfTwo) (state : State α) (claims : Nat) : Prop where
  counted : claims = state.delivered.length + state.consumer.pending
  head : state.head = BitVec.ofNat 64 claims
  tail : state.tail = BitVec.ofNat 64 state.accepted.length
  ordered : claims ≤ state.accepted.length
  room : state.accepted.length ≤ claims + capacity.toNat
  unclaimed : ∀ index, claims ≤ index → index < state.accepted.length →
    state.HoldsTicket capacity index
  producer : ProducerValid capacity state.buffer state.tail claims
    state.accepted.length state.producer
  consumer : ConsumerValid capacity state.buffer state.head
    state.delivered.length state.accepted.length state.consumer

section Invariance

variable {capacity : PowerOfTwo} {state : State α} {claims : Nat}

theorem slot_ofNat (capacity : PowerOfTwo) (index : Nat) :
    slot capacity (BitVec.ofNat 64 index) = index % capacity.toNat :=
  capacity.ofNat_and_mask_toNat index

/-- The full test compares the true number of unclaimed values with the
capacity. -/
theorem Inv.full_iff (inv : Inv capacity state claims) :
    state.tail + 1 - state.head > capacity.value ↔
      claims + capacity.toNat ≤ state.accepted.length := by
  have ordered := inv.ordered
  have room := inv.room
  have small := capacity.toNat_le
  rw [inv.tail, inv.head, Word64.ofNat_add_one, gt_iff_lt, BitVec.lt_def,
    Word64.ofNat_sub_toNat (by omega) (by omega)]
  change capacity.toNat < _ ↔ _
  omega

theorem Inv.empty_iff (inv : Inv capacity state claims) :
    state.head = state.tail ↔ claims = state.accepted.length := by
  have room := inv.room
  have small := capacity.toNat_le
  rw [inv.tail, inv.head]
  exact Word64.ofNat_inj_of_near inv.ordered (by omega)

/-- The slot the producer may write is not the slot of an unclaimed value. -/
theorem slot_ne_of_unclaimed {accepted index : Nat} (unclaimed : claims ≤ index)
    (below : index < accepted) (admitted : accepted < claims + capacity.toNat) :
    index % capacity.toNat ≠ accepted % capacity.toNat := by
  intro equal
  have same := eq_of_mod_eq_of_near below.le (by omega) equal
  omega

theorem ConsumerValid.write {buffer : Nat → Option α} {head : Word64}
    {delivered accepted : Nat} {consumer : Consumer}
    (valid : ConsumerValid capacity buffer head delivered accepted consumer)
    (index : Nat) (ptr : α) :
    ConsumerValid capacity (Function.update buffer index (some ptr)) head delivered
      accepted consumer := by
  cases consumer with
  | claimed claimed =>
      rcases valid with ⟨counter, value, holds⟩
      by_cases same : delivered % capacity.toNat = index
      · exact ⟨counter, ptr, by rw [same, Function.update_self]⟩
      · exact ⟨counter, value, by rw [Function.update_of_ne same, holds]⟩
  | _ => exact valid

theorem ConsumerValid.accept {buffer : Nat → Option α} {head : Word64}
    {delivered accepted accepted' : Nat} {consumer : Consumer}
    (valid : ConsumerValid capacity buffer head delivered accepted consumer)
    (more : accepted ≤ accepted') :
    ConsumerValid capacity buffer head delivered accepted' consumer := by
  cases consumer with
  | nonEmpty => exact Nat.lt_of_lt_of_le valid more
  | _ => exact valid

theorem ProducerValid.claim {buffer : Nat → Option α} {tail : Word64}
    {accepted : Nat} {producer : Producer α}
    (valid : ProducerValid capacity buffer tail claims accepted producer) :
    ProducerValid capacity buffer tail (claims + 1) accepted producer := by
  cases producer with
  | admitted ptr loaded => exact ⟨valid.1, by have := valid.2; omega⟩
  | written ptr loaded => exact ⟨valid.1, by have := valid.2.1; omega, valid.2.2⟩
  | _ => exact valid

theorem inv_initial (capacity : PowerOfTwo) :
    Inv capacity (initial : State α) 0 where
  counted := rfl
  head := rfl
  tail := rfl
  ordered := le_rfl
  room := Nat.zero_le _
  unclaimed _ _ below := absurd below (Nat.not_lt_zero _)
  producer := trivial
  consumer := trivial

theorem Inv.setProducer (inv : Inv capacity state claims) (producer : Producer α)
    (refused : List α)
    (valid : ProducerValid capacity state.buffer state.tail claims
      state.accepted.length producer) :
    Inv capacity { state with producer := producer, refused := refused } claims :=
  ⟨inv.counted, inv.head, inv.tail, inv.ordered, inv.room, inv.unclaimed, valid,
    inv.consumer⟩

theorem Inv.setConsumer (inv : Inv capacity state claims) (consumer : Consumer)
    (pending : consumer.pending = state.consumer.pending)
    (valid : ConsumerValid capacity state.buffer state.head
      state.delivered.length state.accepted.length consumer) :
    Inv capacity { state with consumer := consumer } claims :=
  ⟨inv.counted.trans (by rw [pending]), inv.head, inv.tail, inv.ordered, inv.room,
    inv.unclaimed, inv.producer, valid⟩

/-- The slot of the producer is that of the next ticket, and no ticket in use shares
it. -/
theorem Inv.admitted (inv : Inv capacity state claims) {ptr : α} {tail : Word64}
    (phase : state.producer = .admitted ptr tail) :
    tail = state.tail ∧ slot capacity tail = state.accepted.length % capacity.toNat ∧
      state.accepted.length < claims + capacity.toNat := by
  have valid := inv.producer
  rw [phase] at valid
  rcases valid with ⟨rfl, room⟩
  refine ⟨rfl, ?_, room⟩
  rw [inv.tail, slot_ofNat]

theorem Inv.writeSlot (inv : Inv capacity state claims) {ptr : α} {tail : Word64}
    (phase : state.producer = .admitted ptr tail) :
    Inv capacity { state with
      buffer := Function.update state.buffer (slot capacity tail) (some ptr)
      producer := .written ptr tail } claims := by
  rcases inv.admitted phase with ⟨rfl, target, admitted⟩
  rw [target]
  constructor
  case unclaimed =>
    intro index unclaimed below
    have other := slot_ne_of_unclaimed unclaimed below admitted
    exact (Function.update_of_ne other _ _).trans
      (inv.unclaimed index unclaimed below)
  case producer => exact ⟨rfl, admitted, Function.update_self ..⟩
  case consumer => exact inv.consumer.write _ ptr
  case counted => exact inv.counted
  case head => exact inv.head
  case tail => exact inv.tail
  case ordered => exact inv.ordered
  case room => exact inv.room

theorem Inv.storeTail (inv : Inv capacity state claims) {ptr : α} {tail : Word64}
    (phase : state.producer = .written ptr tail) :
    Inv capacity { state with
      tail := tail + 1
      producer := .idle
      accepted := state.accepted ++ [ptr] } claims := by
  have valid := inv.producer
  rw [phase] at valid
  rcases valid with ⟨rfl, admitted, holds⟩
  have length : (state.accepted ++ [ptr]).length = state.accepted.length + 1 := by
    simp
  have ordered := inv.ordered
  constructor
  case unclaimed =>
    intro index unclaimed below
    by_cases new : index = state.accepted.length
    · subst new
      simpa [State.HoldsTicket] using holds
    · have old : index < state.accepted.length := by
        simp only [length] at below
        omega
      refine (inv.unclaimed index unclaimed old).trans ?_
      exact (List.getElem?_append_left old).symm
  case consumer => exact inv.consumer.accept (by simp)
  case tail => simp only [length, inv.tail, Word64.ofNat_add_one]
  case ordered => simp only [length]; omega
  case room => simp only [length]; omega
  case producer => trivial
  case counted => exact inv.counted
  case head => exact inv.head

theorem Inv.fetchAdd (inv : Inv capacity state claims)
    (phase : state.consumer = .nonEmpty) :
    Inv capacity { state with
      head := state.head + 1
      consumer := .claimed state.head } (claims + 1) := by
  have waiting : state.delivered.length < state.accepted.length := by
    simpa [phase, ConsumerValid] using inv.consumer
  have counted : claims = state.delivered.length := by
    simpa [phase, Consumer.pending] using inv.counted
  have room := inv.room
  subst counted
  constructor
  case head => rw [inv.head, Word64.ofNat_add_one]
  case consumer =>
    refine ⟨inv.head, state.accepted[state.delivered.length], ?_⟩
    exact (inv.unclaimed _ le_rfl waiting).trans (List.getElem?_eq_getElem waiting)
  case unclaimed =>
    exact fun index unclaimed => inv.unclaimed index (by omega)
  case producer => exact inv.producer.claim
  case counted => rfl
  case tail => exact inv.tail
  case ordered => exact waiting
  case room => exact room.trans (by simp)

theorem Inv.readSlot (inv : Inv capacity state claims) {head : Word64}
    (phase : state.consumer = .claimed head) :
    Inv capacity { state with
      consumer := .idle
      delivered := state.delivered ++
        (state.buffer (slot capacity head)).toList } claims := by
  have valid := inv.consumer
  rw [phase] at valid
  rcases valid with ⟨rfl, value, holds⟩
  refine ⟨?_, inv.head, inv.tail, inv.ordered, inv.room, inv.unclaimed,
    inv.producer, trivial⟩
  have counted := inv.counted
  rw [phase] at counted
  simpa [slot_ofNat, holds, Consumer.pending] using counted

theorem Step.inv {event : Event α} {next : State α} (inv : Inv capacity state claims)
    (step : Step capacity state event next) :
    ∃ claims', Inv capacity next claims' := by
  cases step with
  | enqueue ptr phase => exact ⟨_, inv.setProducer (.loadedTail ptr _) _ rfl⟩
  | full phase full => exact ⟨_, inv.setProducer .idle _ trivial⟩
  | @notFull ptr tail phase free =>
      have valid := inv.producer
      rw [phase] at valid
      subst valid
      rw [inv.full_iff] at free
      exact ⟨_, inv.setProducer (.admitted ptr _) _ ⟨rfl, by omega⟩⟩
  | writeSlot phase => exact ⟨_, inv.writeSlot phase⟩
  | storeTail phase => exact ⟨_, inv.storeTail phase⟩
  | dequeue phase =>
      exact ⟨_, inv.setConsumer (.loadedHead _) (by rw [phase]; rfl) rfl⟩
  | empty phase equal =>
      exact ⟨_, inv.setConsumer .idle (by rw [phase]; rfl) trivial⟩
  | @nonEmpty head phase different =>
      have valid := inv.consumer
      rw [phase] at valid
      subst valid
      have counted := inv.counted
      rw [phase] at counted
      simp only [Consumer.pending] at counted
      have ordered := inv.ordered
      rw [ne_eq, inv.empty_iff] at different
      exact ⟨_, inv.setConsumer .nonEmpty (by rw [phase]; rfl)
        (show _ < _ by omega)⟩
  | fetchAdd phase => exact ⟨_, inv.fetchAdd phase⟩
  | readSlot phase => exact ⟨_, inv.readSlot phase⟩

end Invariance

/-! ## Exactly when nothing is lost -/

/-- The values delivered are the first values accepted, in order, and every
accepted value still to be delivered is intact in its slot. -/
structure Lossless (capacity : PowerOfTwo) (state : State α) : Prop where
  inOrder : state.delivered <+: state.accepted
  intact : ∀ index, state.delivered.length ≤ index →
    index < state.accepted.length → state.HoldsTicket capacity index

/-- While the consumer has claimed a slot and not read it yet, the producer
writes no other pointer there. -/
def WritesClear (capacity : PowerOfTwo) (state : State α) : Event α → Prop
  | .writeSlot =>
      match state.producer, state.consumer with
      | .admitted ptr tail, .claimed head =>
          slot capacity tail = slot capacity head →
            state.buffer (slot capacity head) = some ptr
      | _, _ => True
  | _ => True

section Exactness

variable {capacity : PowerOfTwo} {state : State α} {claims : Nat}

theorem Inv.claimed (inv : Inv capacity state claims) {head : Word64}
    (phase : state.consumer = .claimed head) :
    head = BitVec.ofNat 64 state.delivered.length ∧
      claims = state.delivered.length + 1 := by
  have valid := inv.consumer
  have counted := inv.counted
  rw [phase] at valid counted
  exact ⟨valid.1, counted⟩

theorem Inv.read_claimed (inv : Inv capacity state claims)
    (lossless : Lossless capacity state) {head : Word64}
    (phase : state.consumer = .claimed head) :
    ∃ waiting : state.delivered.length < state.accepted.length,
      state.buffer (slot capacity head) = some state.accepted[state.delivered.length] := by
  rcases inv.claimed phase with ⟨rfl, counted⟩
  have ordered := inv.ordered
  have waiting : state.delivered.length < state.accepted.length := by omega
  refine ⟨waiting, ?_⟩
  rw [slot_ofNat]
  exact (lossless.intact _ le_rfl waiting).trans (List.getElem?_eq_getElem waiting)

theorem Inv.readSlot_lossless (inv : Inv capacity state claims)
    (lossless : Lossless capacity state) {head : Word64}
    (phase : state.consumer = .claimed head) :
    Lossless capacity { state with
      consumer := .idle
      delivered := state.delivered ++
        (state.buffer (slot capacity head)).toList } := by
  rcases inv.read_claimed lossless phase with ⟨waiting, read⟩
  rw [read]
  constructor
  case inOrder =>
    rcases lossless.inOrder with ⟨rest, split⟩
    have next : rest.head? = some state.accepted[state.delivered.length] := by
      rw [← List.getElem?_eq_getElem waiting, ← split,
        List.getElem?_append_right le_rfl, Nat.sub_self, List.head?_eq_getElem?]
    rcases List.head?_eq_some_iff.mp next with ⟨others, rfl⟩
    exact ⟨others, by simpa using split⟩
  case intact =>
    intro index after below
    refine lossless.intact index ?_ below
    simp only [Option.toList_some, List.length_append, List.length_singleton] at after
    omega

theorem Inv.storeTail_lossless (inv : Inv capacity state claims)
    (lossless : Lossless capacity state) {ptr : α} {tail : Word64}
    (phase : state.producer = .written ptr tail) :
    Lossless capacity { state with
      tail := tail + 1
      producer := .idle
      accepted := state.accepted ++ [ptr] } := by
  have valid := inv.producer
  rw [phase] at valid
  constructor
  case inOrder => exact lossless.inOrder.trans (List.prefix_append _ _)
  case intact =>
    intro index after below
    by_cases new : index = state.accepted.length
    · subst new
      simpa [State.HoldsTicket] using valid.2.2
    · have old : index < state.accepted.length := by
        simp only [List.length_append, List.length_singleton] at below
        omega
      refine (lossless.intact index after old).trans ?_
      exact (List.getElem?_append_left old).symm

/-- Only the slot that is claimed and not read yet can be lost to a write. -/
theorem Inv.writeSlot_lossless_iff (inv : Inv capacity state claims)
    (lossless : Lossless capacity state) {ptr : α} {tail : Word64}
    (phase : state.producer = .admitted ptr tail) :
    Lossless capacity { state with
        buffer := Function.update state.buffer (slot capacity tail) (some ptr)
        producer := .written ptr tail } ↔
      WritesClear capacity state .writeSlot := by
  rcases inv.admitted phase with ⟨rfl, target, admitted⟩
  constructor
  · intro after
    simp only [WritesClear, phase]
    split
    · rename_i ptr tail head written stands
      cases written
      rcases inv.claimed stands with ⟨rfl, counted⟩
      intro same
      have ordered := inv.ordered
      have before := lossless.intact state.delivered.length le_rfl (by omega)
      have kept := after.intact state.delivered.length le_rfl
        (show state.delivered.length < state.accepted.length by omega)
      simp only [State.HoldsTicket, ← slot_ofNat] at before kept
      rw [← same, Function.update_self] at kept
      rw [before, ← kept]
    · trivial
  · intro clear
    refine ⟨lossless.inOrder, ?_⟩
    intro index after below
    have before := lossless.intact index after below
    by_cases other : index % capacity.toNat = slot capacity state.tail
    · -- Only the claimed value can share the slot that is written.
      have early : index < claims := by
        by_contra late
        exact slot_ne_of_unclaimed (by omega) below admitted (other.trans target)
      have counted := inv.counted
      change state.delivered.length ≤ index at after
      cases stands : state.consumer with
      | claimed head =>
          rcases inv.claimed stands with ⟨rfl, one⟩
          obtain rfl : index = state.delivered.length := by omega
          rw [← slot_ofNat] at other
          simp only [WritesClear, phase, stands, other, forall_const] at clear
          simp only [State.HoldsTicket, ← slot_ofNat, other] at before ⊢
          rw [Function.update_self, ← clear, before]
      | _ =>
          rw [stands] at counted
          simp only [Consumer.pending] at counted
          omega
    · exact (Function.update_of_ne other _ _).trans before

theorem Step.lossless_iff {event : Event α} {next : State α}
    (inv : Inv capacity state claims) (lossless : Lossless capacity state)
    (step : Step capacity state event next) :
    Lossless capacity next ↔ WritesClear capacity state event := by
  cases step with
  | enqueue ptr phase => exact iff_of_true ⟨lossless.1, lossless.2⟩ trivial
  | full phase full => exact iff_of_true ⟨lossless.1, lossless.2⟩ trivial
  | notFull phase free => exact iff_of_true ⟨lossless.1, lossless.2⟩ trivial
  | writeSlot phase => exact inv.writeSlot_lossless_iff lossless phase
  | storeTail phase => exact iff_of_true (inv.storeTail_lossless lossless phase) trivial
  | dequeue phase => exact iff_of_true ⟨lossless.1, lossless.2⟩ trivial
  | empty phase equal => exact iff_of_true ⟨lossless.1, lossless.2⟩ trivial
  | nonEmpty phase different => exact iff_of_true ⟨lossless.1, lossless.2⟩ trivial
  | fetchAdd phase => exact iff_of_true ⟨lossless.1, lossless.2⟩ trivial
  | readSlot phase => exact iff_of_true (inv.readSlot_lossless lossless phase) trivial

theorem lossless_initial (capacity : PowerOfTwo) :
    Lossless capacity (initial : State α) where
  inOrder := List.prefix_refl _
  intact _ _ below := absurd below (Nat.not_lt_zero _)

/-- The queue is a lossless FIFO throughout a run exactly when no write of the
run lands in a slot that is claimed and not read yet. -/
theorem lossless_iff_writesClear {past : List (State α × Event α)} {final : State α}
    (run : (system α capacity).Run past final) :
    ((∀ entry ∈ past, Lossless capacity entry.1) ∧ Lossless capacity final) ↔
      ∀ entry ∈ past, WritesClear capacity entry.1 entry.2 := by
  refine run.forall_iff (fun state => ∃ claims, Inv capacity state claims)
    (Lossless capacity) (WritesClear capacity) ?_ ?_ ?_
  · intro state start
    cases start
    exact ⟨⟨0, inv_initial capacity⟩, lossless_initial capacity⟩
  · rintro _ _ _ ⟨_, inv⟩ stepped
    exact (Step.of_step stepped).inv inv
  · rintro _ _ _ ⟨_, inv⟩ lossless stepped
    exact (Step.of_step stepped).lossless_iff inv lossless

end Exactness

def twoSlots : PowerOfTwo where
  value := 2
  nonzero := by decide
  disjoint := by decide

/-- Two values go through a ring of two slots, and the producer fills the ring
again before the consumer starts. -/
theorem lossless_iff_writesClear_refill :
    ∃ past final, (system Nat twoSlots).Run past final ∧
      past.length = 16 ∧
      (((∀ entry ∈ past, Lossless twoSlots entry.1) ∧ Lossless twoSlots final) ↔
        ∀ entry ∈ past, WritesClear twoSlots entry.1 entry.2) := by
  rcases TransitionSystem.exists_run_of_execute initial (step twoSlots)
    [.enqueue 10, .loadHead, .writeSlot, .storeTail,
      .enqueue 11, .loadHead, .writeSlot, .storeTail,
      .dequeue, .loadTail, .fetchAdd, .readSlot,
      .enqueue 12, .loadHead, .writeSlot, .storeTail] rfl with ⟨past, run, length⟩
  exact ⟨past, _, run, length, lossless_iff_writesClear run⟩

/-- The ring is full, and the consumer has advanced `head_` but not read the
slot when the producer enqueues again. -/
def overtakenRead : List (Event Nat) :=
  [.enqueue 10, .loadHead, .writeSlot, .storeTail,
    .enqueue 11, .loadHead, .writeSlot, .storeTail,
    .dequeue, .loadTail, .fetchAdd,
    .enqueue 12, .loadHead, .writeSlot, .storeTail, .readSlot]

/-- The consumer then reads the third value in place of the first. -/
theorem overtaken_read_loses_value :
    ∃ state, (system Nat twoSlots).Reachable state ∧
      (state.accepted = [10, 11, 12] ∧ state.delivered = [12] ∧
        ¬ state.delivered <+: state.accepted) :=
  TransitionSystem.exists_reachable_of_execute initial (step twoSlots) overtakenRead
    (fun state => state.accepted = [10, 11, 12] ∧ state.delivered = [12] ∧
      ¬ state.delivered <+: state.accepted) (by decide)

end FeederNet.Queue.CustomSPSCLockFreeQueue
