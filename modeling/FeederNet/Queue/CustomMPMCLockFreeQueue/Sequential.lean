import FeederNet.Foundation.Ring
import FeederNet.Queue.BoundedFifo
import FeederNet.Queue.CustomMPMCLockFreeQueue.Code

/-! # CustomMPMCLockFreeQueue used by one thread

The steps of a call follow one another until it returns. A weak compare-exchange may fail
for no reason, but not for ever.
-/

namespace FeederNet.Queue.CustomMPMCLockFreeQueue

def Phase.action (failures : Nat) : Phase α → Option (Action α × Nat)
  | .idle => none
  | .enqStarted _ | .deqStarted => some (.loadPos, failures)
  | .enqLoaded _ _ | .deqLoaded _ => some (.loadSeq, failures)
  | .enqMatched _ _ | .deqMatched _ =>
      match failures with
      | 0 => some (.exchange, 0)
      | failures + 1 => some (.exchangeFailed, failures)
  | .enqClaimed _ _ | .deqClaimed _ => some (.accessData, failures)
  | .enqWritten _ _ | .deqRead _ _ => some (.storeSeq, failures)

def Phase.answer : Phase α → Option (Answer α)
  | .enqLoaded _ _ => some (.enqueued false)
  | .enqWritten _ _ => some (.enqueued true)
  | .deqLoaded _ => some (.dequeued none)
  | .deqRead _ value => some (.dequeued value)
  | _ => none

namespace State

/-- The call runs on until it returns, for at most `fuel` steps. -/
def finish (capacity : PowerOfTwo) : Nat → Nat → State Unit α →
    Option (Answer α × State Unit α)
  | 0, _, _ => none
  | fuel + 1, failures, queue => do
      let (action, left) ← (queue.phase ()).action failures
      let next ← step capacity queue ((), action)
      match next.phase () with
      | .idle => return (← (queue.phase ()).answer, next)
      | _ => finish capacity fuel left next

def call (capacity : PowerOfTwo) (fuel failures : Nat) (queue : State Unit α) :
    Call α → Option (Answer α × State Unit α)
  | .enqueue ptr => do
      finish capacity fuel failures (← step capacity queue ((), .enqueue ptr))
  | .dequeue => do
      finish capacity fuel failures (← step capacity queue ((), .dequeue))

def answers (capacity : PowerOfTwo) (fuel : Nat) : (Nat → Nat) → State Unit α →
    List (Call α) → Option (List (Answer α))
  | _, _, [] => some []
  | failures, queue, call :: calls => do
      let (answer, queue) ← queue.call capacity fuel (failures 0) call
      let answers ← answers capacity fuel (fun place => failures (place + 1)) queue calls
      return answer :: answers

end State

/-! ## The steps of a call -/

section Steps

variable {capacity : PowerOfTwo} {queue next : State Unit α} {action : Action α}
  {fuel failures left : Nat} {ptr : α} {answer : Answer α}

theorem finish_of_step (acts : (queue.phase ()).action failures = some (action, left))
    (steps : step capacity queue ((), action) = some next)
    (busy : next.phase () ≠ .idle) :
    queue.finish capacity (fuel + 1) failures = next.finish capacity fuel left := by
  rw [State.finish, acts]
  simp only [Option.bind_eq_bind, Option.bind_some, steps]

theorem finish_of_last (acts : (queue.phase ()).action failures = some (action, left))
    (steps : step capacity queue ((), action) = some next)
    (idle : next.phase () = .idle) (returns : (queue.phase ()).answer = some answer) :
    queue.finish capacity (fuel + 1) failures = some (answer, next) := by
  rw [State.finish, acts]
  simp only [Option.bind_eq_bind, Option.bind_some, steps, idle, returns]
  rfl

@[simp] theorem phase_goto (phase : Phase α) : (queue.goto () phase).phase () = phase := by
  simp only [State.goto, Function.update_self]

@[simp] theorem goto_goto (first second : Phase α) :
    (queue.goto () first).goto () second = queue.goto () second := by
  simp only [State.goto, Function.update_idem]

@[simp] theorem phase_claimTail (pos : Word64) :
    (queue.claimTail () ptr pos).phase () = .enqClaimed ptr pos := by
  simp only [State.claimTail, State.goto, Function.update_self]

@[simp] theorem phase_claimHead (pos : Word64) :
    (queue.claimHead () pos).phase () = .deqClaimed pos := by
  simp only [State.claimHead, State.goto, Function.update_self]

@[simp] theorem phase_writeData (pos : Word64) :
    (queue.writeData capacity () ptr pos).phase () = .enqWritten ptr pos := by
  simp only [State.writeData, State.goto, Function.update_self]

@[simp] theorem phase_publish (pos : Word64) :
    (queue.publish capacity () pos).phase () = .idle := by
  simp only [State.publish, State.goto, Function.update_self]

@[simp] theorem phase_release (pos : Word64) (value : Option α) :
    (queue.release capacity () pos value).phase () = .idle := by
  simp only [State.release, State.goto, Function.update_self]

theorem behind (first distance : Nat) (positive : 0 < distance)
    (near : distance ≤ 2 ^ 63) :
    BitVec.ofNat 64 first - BitVec.ofNat 64 (first + distance) ≠ 0 ∧
      (BitVec.ofNat 64 first - BitVec.ofNat 64 (first + distance)).slt 0 = true := by
  have value : (BitVec.ofNat 64 first - BitVec.ofNat 64 (first + distance)).toNat =
      2 ^ 64 - distance := by
    rw [BitVec.toNat_sub, BitVec.toNat_ofNat, BitVec.toNat_ofNat]
    omega
  constructor
  · intro zero
    rw [zero] at value
    have none : (0 : Word64).toNat = 0 := rfl
    omega
  · rw [BitVec.slt_eq_decide, decide_eq_true_iff, BitVec.toInt_eq_toNat_cond, value]
    split
    · omega
    · have none : (0 : Word64).toInt = 0 := rfl
      rw [none]
      omega

theorem finish_retries {loaded matched : Phase α}
    (loads : ∀ failures, loaded.action failures = some (.loadSeq, failures))
    (exchanges : ∀ failures, matched.action (failures + 1) =
      some (.exchangeFailed, failures))
    (meets : step capacity (queue.goto () loaded) ((), .loadSeq) =
      some (queue.goto () matched))
    (fails : step capacity (queue.goto () matched) ((), .exchangeFailed) =
      some (queue.goto () loaded)) (failures : Nat) :
    (queue.goto () loaded).finish capacity (fuel + 2 * failures) failures =
      (queue.goto () loaded).finish capacity fuel 0 := by
  have busy : loaded ≠ .idle ∧ matched ≠ .idle := by
    constructor
    · rintro rfl
      cases loads 0
    · rintro rfl
      cases exchanges 0
  induction failures with
  | zero => rfl
  | succ failures induction =>
      have longer : fuel + 2 * (failures + 1) = fuel + 2 * failures + 1 + 1 := by omega
      rw [longer, finish_of_step (by rw [phase_goto]; exact loads _) meets
        (by rw [phase_goto]; exact busy.2),
        finish_of_step (by rw [phase_goto]; exact exchanges _) fails
        (by rw [phase_goto]; exact busy.1), induction]

theorem finish_enqueue (ptr : α)
    (free : (queue.cells (slot capacity queue.tail)).seq = queue.tail)
    (enough : 2 * failures + 4 ≤ fuel) :
    ∃ next, (queue.goto () (.enqLoaded ptr queue.tail)).finish capacity fuel failures =
        some (.enqueued true, next) ∧
      next.phase () = .idle ∧ next.head = queue.head ∧ next.tail = queue.tail + 1 ∧
      next.cells = Function.update queue.cells (slot capacity queue.tail)
        ⟨queue.tail + 1, some ptr⟩ := by
  have branch : enqueueBranch ptr queue.tail queue.tail = .enqMatched ptr queue.tail := by
    rw [enqueueBranch, BitVec.sub_self]
    rfl
  have matched : step capacity (queue.goto () (.enqLoaded ptr queue.tail)) ((), .loadSeq) =
      some (queue.goto () (.enqMatched ptr queue.tail)) := by
    simp only [step, phase_goto, goto_goto]
    change some (queue.goto () (enqueueBranch ptr queue.tail
      (queue.cells (slot capacity queue.tail)).seq)) = _
    rw [free, branch]
  have fails : step capacity (queue.goto () (.enqMatched ptr queue.tail))
      ((), .exchangeFailed) = some (queue.goto () (.enqLoaded ptr queue.tail)) := by
    simp only [step, phase_goto, goto_goto]
    rfl
  let claimed := (queue.goto () (.enqMatched ptr queue.tail)).claimTail () ptr queue.tail
  let written := claimed.writeData capacity () ptr queue.tail
  have claims : step capacity (queue.goto () (.enqMatched ptr queue.tail))
      ((), .exchange) = some claimed := by
    simp only [step, phase_goto]
    exact if_pos rfl
  have writes : step capacity claimed ((), .accessData) = some written := by
    simp only [step, claimed, phase_claimTail, written]
  have publishes : step capacity written ((), .storeSeq) =
      some (written.publish capacity () queue.tail) := by
    simp only [step, written, phase_writeData]
  obtain ⟨fuel, rfl⟩ : ∃ rest, fuel = rest + 4 + 2 * failures :=
    ⟨fuel - 4 - 2 * failures, by omega⟩
  rw [finish_retries (fun _ => rfl) (fun _ => rfl) matched fails,
    finish_of_step (by rw [phase_goto]; rfl) matched (by rw [phase_goto]; nofun),
    finish_of_step (by rw [phase_goto]; rfl) claims (by rw [phase_claimTail]; nofun),
    finish_of_step (by rw [phase_claimTail]; rfl) writes (by rw [phase_writeData]; nofun),
    finish_of_last (by rw [phase_writeData]; rfl) publishes (phase_publish _)
      (by rw [phase_writeData]; rfl)]
  refine ⟨_, rfl, phase_publish _, rfl, rfl, ?_⟩
  simp only [State.publish, written, State.writeData, claimed, State.claimTail,
    State.goto, Function.update_self, Function.update_idem]

theorem finish_dequeue
    (filled : (queue.cells (slot capacity queue.head)).seq = queue.head + 1)
    (enough : 2 * failures + 4 ≤ fuel) :
    ∃ next, (queue.goto () (.deqLoaded queue.head)).finish capacity fuel failures =
        some (.dequeued (queue.cells (slot capacity queue.head)).data, next) ∧
      next.phase () = .idle ∧ next.head = queue.head + 1 ∧ next.tail = queue.tail ∧
      next.cells = Function.update queue.cells (slot capacity queue.head)
        { queue.cells (slot capacity queue.head) with
          seq := queue.head + capacity.value } := by
  have branch : dequeueBranch queue.head (queue.head + 1) =
      (.deqMatched queue.head : Phase α) := by
    rw [dequeueBranch, BitVec.sub_self]
    rfl
  have matched : step capacity (queue.goto () (.deqLoaded queue.head)) ((), .loadSeq) =
      some (queue.goto () (.deqMatched queue.head)) := by
    simp only [step, phase_goto, goto_goto]
    change some (queue.goto () (dequeueBranch queue.head
      (queue.cells (slot capacity queue.head)).seq)) = _
    rw [filled, branch]
  have fails : step capacity (queue.goto () (.deqMatched queue.head))
      ((), .exchangeFailed) = some (queue.goto () (.deqLoaded queue.head)) := by
    simp only [step, phase_goto, goto_goto]
    rfl
  let claimed := (queue.goto () (.deqMatched queue.head)).claimHead () queue.head
  let read := claimed.goto ()
    (.deqRead queue.head (queue.cells (slot capacity queue.head)).data)
  have claims : step capacity (queue.goto () (.deqMatched queue.head))
      ((), .exchange) = some claimed := by
    simp only [step, phase_goto]
    exact if_pos rfl
  have reads : step capacity claimed ((), .accessData) = some read := by
    simp only [step, claimed, phase_claimHead]
    rfl
  have releases : step capacity read ((), .storeSeq) =
      some (read.release capacity () queue.head
        (queue.cells (slot capacity queue.head)).data) := by
    simp only [step, read, phase_goto]
  obtain ⟨fuel, rfl⟩ : ∃ rest, fuel = rest + 4 + 2 * failures :=
    ⟨fuel - 4 - 2 * failures, by omega⟩
  rw [finish_retries (fun _ => rfl) (fun _ => rfl) matched fails,
    finish_of_step (by rw [phase_goto]; rfl) matched (by rw [phase_goto]; nofun),
    finish_of_step (by rw [phase_goto]; rfl) claims (by rw [phase_claimHead]; nofun),
    finish_of_step (by rw [phase_claimHead]; rfl) reads (by rw [phase_goto]; nofun),
    finish_of_last (by rw [phase_goto]; rfl) releases (phase_release _ _)
      (by rw [phase_goto]; rfl)]
  refine ⟨_, rfl, phase_release _ _, rfl, rfl, ?_⟩
  simp only [State.release, read, claimed, State.claimHead, State.goto]

end Steps

/-! ## Between two calls -/

/-- The thread is between two calls, and the values are in the ring. A cell that holds one
is a turn ahead of the others. -/
structure Between (capacity : PowerOfTwo) (queue : State Unit α) (position : Nat)
    (queued : List α) : Prop where
  idle : queue.phase () = .idle
  head : queue.head = BitVec.ofNat 64 position
  tail : queue.tail = BitVec.ofNat 64 (position + queued.length)
  bounded : queued.length ≤ capacity.toNat
  turns : ∀ offset < capacity.toNat,
    (queue.cells ((position + offset) % capacity.toNat)).seq =
      BitVec.ofNat 64 (position + offset + if offset < queued.length then 1 else 0)
  stored : RingHolds capacity.toNat (fun index => (queue.cells index).data) position queued

section Between

variable {capacity : PowerOfTwo} {queue : State Unit α} {position : Nat} {queued : List α}
  {fuel failures : Nat}

theorem between_initial (capacity : PowerOfTwo) :
    Between capacity (initial : State Unit α) 0 [] where
  idle := rfl
  head := rfl
  tail := rfl
  bounded := Nat.zero_le _
  turns offset below := by
    rw [Nat.zero_add, Nat.mod_eq_of_lt below]
    rfl
  stored := RingHolds.nil

theorem call_enqueue (idle : queue.phase () = .idle) (ptr : α) (fuel failures : Nat) :
    queue.call capacity (fuel + 1) failures (.enqueue ptr) =
      ((queue.enqueue () ptr).goto () (.enqLoaded ptr queue.tail)).finish capacity fuel
        failures := by
  have started : step capacity queue ((), .enqueue ptr) = some (queue.enqueue () ptr) := by
    simp only [step, idle]
  have phase : (queue.enqueue () ptr).phase () = .enqStarted ptr := by
    simp only [State.enqueue, Function.update_self]
  have loads : step capacity (queue.enqueue () ptr) ((), .loadPos) =
      some ((queue.enqueue () ptr).goto () (.enqLoaded ptr queue.tail)) := by
    simp only [step, phase]
    rfl
  simp only [State.call, started, Option.bind_eq_bind, Option.bind_some]
  exact finish_of_step (by rw [phase]; rfl) loads (by rw [phase_goto]; nofun)

theorem call_dequeue (idle : queue.phase () = .idle) (fuel failures : Nat) :
    queue.call capacity (fuel + 1) failures .dequeue =
      (queue.goto () (.deqLoaded queue.head)).finish capacity fuel failures := by
  have started : step capacity queue ((), .dequeue) = some (queue.goto () .deqStarted) := by
    simp only [step, idle]
  have loads : step capacity (queue.goto () .deqStarted) ((), .loadPos) =
      some (queue.goto () (.deqLoaded queue.head)) := by
    simp only [step, phase_goto, goto_goto]
    rfl
  simp only [State.call, started, Option.bind_eq_bind, Option.bind_some]
  exact finish_of_step (by rw [phase_goto]; rfl) loads (by rw [phase_goto]; nofun)

theorem Between.enqueue_free (between : Between capacity queue position queued) (ptr : α)
    (free : (queue.cells (slot capacity queue.tail)).seq = queue.tail)
    (enough : 2 * failures + 5 ≤ fuel) :
    ∃ next, queue.call capacity fuel failures (.enqueue ptr) =
        some (.enqueued true, next) ∧
      next.phase () = .idle ∧ next.head = queue.head ∧ next.tail = queue.tail + 1 ∧
      next.cells = Function.update queue.cells (slot capacity queue.tail)
        ⟨queue.tail + 1, some ptr⟩ := by
  obtain ⟨rest, rfl⟩ : ∃ rest, fuel = rest + 1 := ⟨fuel - 1, by omega⟩
  have less : 2 * failures + 4 ≤ rest := by omega
  have started : ((queue.enqueue () ptr).cells
      (slot capacity (queue.enqueue () ptr).tail)).seq = (queue.enqueue () ptr).tail := free
  rw [call_enqueue between.idle]
  exact finish_enqueue ptr started less

theorem Between.enqueue_room (between : Between capacity queue position queued)
    (failures : Nat) (ptr : α) (room : queued.length < capacity.toNat)
    (enough : 2 * failures + 5 ≤ fuel) :
    ∃ next, queue.call capacity fuel failures (.enqueue ptr) =
        some (.enqueued true, next) ∧
      Between capacity next position (queued ++ [ptr]) := by
  have place : slot capacity queue.tail = (position + queued.length) % capacity.toNat := by
    rw [between.tail, slot_ofNat]
  have free : (queue.cells (slot capacity queue.tail)).seq = queue.tail := by
    rw [place, between.turns _ room, if_neg (Nat.lt_irrefl _), between.tail, Nat.add_zero]
  rcases between.enqueue_free ptr free enough with ⟨next, runs, idle, head, tail, cells⟩
  rw [place] at cells
  refine ⟨next, runs, idle, head.trans between.head, ?_, ?_, ?_, ?_⟩
  · rw [tail, between.tail, Word64.ofNat_add_one, List.length_append, List.length_singleton,
      Nat.add_assoc]
  · rw [List.length_append]
    exact room
  · intro offset below
    rw [cells, List.length_append, List.length_singleton]
    by_cases last : offset = queued.length
    · subst last
      rw [Function.update_self, if_pos (Nat.lt_succ_self _), between.tail,
        Word64.ofNat_add_one]
    · rw [Function.update_of_ne (RingHolds.slot_ne below room last), between.turns _ below]
      have same : offset < queued.length + 1 ↔ offset < queued.length := by omega
      simp only [same]
  · rw [cells]
    have moved := Function.comp_update Cell.data queue.cells
      ((position + queued.length) % capacity.toNat) ⟨queue.tail + 1, some ptr⟩
    change RingHolds _ (Cell.data ∘ _) _ _
    rw [moved]
    exact between.stored.push room

/-- A cell that is used twice for the same turn tells a full ring from one with room. -/
theorem Between.enqueue_full (between : Between capacity queue position queued)
    (failures : Nat) (ptr : α) (two : 2 ≤ capacity.toNat)
    (full : queued.length = capacity.toNat) (enough : 2 ≤ fuel) :
    ∃ next, queue.call capacity fuel failures (.enqueue ptr) =
        some (.enqueued false, next) ∧ Between capacity next position queued := by
  have place : slot capacity queue.tail = (position + 0) % capacity.toNat := by
    rw [between.tail, slot_ofNat, full, Nat.add_mod_right, Nat.add_zero]
  have seq : (queue.cells (slot capacity queue.tail)).seq =
      BitVec.ofNat 64 (position + 1) := by
    rw [place, between.turns 0 (by omega), if_pos (by omega), Nat.add_zero]
  have branch : enqueueBranch ptr queue.tail
      (queue.cells (slot capacity queue.tail)).seq = .idle := by
    have small := capacity.toNat_le
    have late := behind (position + 1) (capacity.toNat - 1) (by omega) (by omega)
    have total : position + 1 + (capacity.toNat - 1) = position + queued.length := by omega
    rw [total, ← between.tail, ← seq] at late
    rw [enqueueBranch, if_neg late.1, if_pos late.2]
  obtain ⟨rest, rfl⟩ : ∃ rest, fuel = rest + 1 + 1 := ⟨fuel - 2, by omega⟩
  have tested : step capacity ((queue.enqueue () ptr).goto () (.enqLoaded ptr queue.tail))
      ((), .loadSeq) = some ((queue.enqueue () ptr).goto () .idle) := by
    simp only [step, phase_goto, goto_goto]
    change some ((queue.enqueue () ptr).goto () (enqueueBranch ptr queue.tail
      (queue.cells (slot capacity queue.tail)).seq)) = _
    rw [branch]
  refine ⟨(queue.enqueue () ptr).goto () .idle, ?_, phase_goto _, between.head,
    between.tail, between.bounded, between.turns, between.stored⟩
  rw [call_enqueue between.idle]
  exact finish_of_last (by rw [phase_goto]; rfl) tested (phase_goto _)
    (by rw [phase_goto]; rfl)

theorem Between.dequeue_empty (between : Between capacity queue position ([] : List α))
    (failures : Nat) (enough : 2 ≤ fuel) :
    ∃ next, queue.call capacity fuel failures .dequeue = some (.dequeued none, next) ∧
      Between capacity next position [] := by
  have place : slot capacity queue.head = (position + 0) % capacity.toNat := by
    rw [between.head, slot_ofNat, Nat.add_zero]
  have seq : (queue.cells (slot capacity queue.head)).seq = BitVec.ofNat 64 position := by
    rw [place, between.turns 0 capacity.toNat_pos]
    rfl
  have branch : dequeueBranch queue.head (queue.cells (slot capacity queue.head)).seq =
      (.idle : Phase α) := by
    have late := behind position 1 (by omega) (by omega)
    rw [← Word64.ofNat_add_one, ← between.head] at late
    rw [dequeueBranch, seq, ← between.head, if_neg late.1, if_pos late.2]
  obtain ⟨rest, rfl⟩ : ∃ rest, fuel = rest + 1 + 1 := ⟨fuel - 2, by omega⟩
  have tested : step capacity (queue.goto () (.deqLoaded queue.head)) ((), .loadSeq) =
      some (queue.goto () .idle) := by
    simp only [step, phase_goto, goto_goto]
    change some (queue.goto () (dequeueBranch queue.head
      (queue.cells (slot capacity queue.head)).seq)) = _
    rw [branch]
  refine ⟨queue.goto () .idle, ?_, phase_goto _, between.head, between.tail,
    between.bounded, between.turns, between.stored⟩
  rw [call_dequeue between.idle]
  exact finish_of_last (by rw [phase_goto]; rfl) tested (phase_goto _)
    (by rw [phase_goto]; rfl)

theorem Between.dequeue_first {ptr : α}
    (between : Between capacity queue position (ptr :: queued))
    (enough : 2 * failures + 5 ≤ fuel) :
    ∃ next, queue.call capacity fuel failures .dequeue =
        some (.dequeued (some ptr), next) ∧ Between capacity next (position + 1) queued := by
  have bounded := between.bounded
  rw [List.length_cons] at bounded
  have place : slot capacity queue.head = position % capacity.toNat := by
    rw [between.head, slot_ofNat]
  have filled : (queue.cells (slot capacity queue.head)).seq = queue.head + 1 := by
    have turn := between.turns 0 capacity.toNat_pos
    rw [Nat.add_zero, List.length_cons, if_pos (Nat.zero_lt_succ _)] at turn
    rw [place, turn, between.head, Word64.ofNat_add_one]
  have data : (queue.cells (slot capacity queue.head)).data = some ptr := by
    rw [place]
    exact between.stored.first
  obtain ⟨rest, rfl⟩ : ∃ rest, fuel = rest + 1 := ⟨fuel - 1, by omega⟩
  have less : 2 * failures + 4 ≤ rest := by omega
  rcases finish_dequeue filled less with ⟨next, runs, idle, head, tail, cells⟩
  rw [data] at runs
  refine ⟨next, (call_dequeue between.idle rest failures).trans runs, idle, ?_, ?_, ?_, ?_,
    ?_⟩
  · rw [head, between.head, Word64.ofNat_add_one]
  · rw [tail, between.tail, List.length_cons]
    congr 1
    omega
  · omega
  · intro offset below
    rw [cells, place]
    by_cases last : offset + 1 = capacity.toNat
    · have around : (position + 1 + offset) % capacity.toNat =
          position % capacity.toNat := by
        rw [Nat.add_assoc, Nat.add_comm 1, last, Nat.add_mod_right]
      rw [around, Function.update_self, if_neg (by omega), between.head,
        capacity.ofNat_add_value, Nat.add_zero]
      exact congrArg (BitVec.ofNat 64) (by omega)
    · have later : position + 1 + offset = position + (offset + 1) := by omega
      have apart : (position + (offset + 1)) % capacity.toNat ≠
          position % capacity.toNat :=
        @RingHolds.slot_ne capacity.toNat position (offset + 1) 0 (by omega) (by omega)
          (Nat.succ_ne_zero offset)
      rw [later, Function.update_of_ne apart, between.turns _ (by omega), List.length_cons]
      simp only [Nat.add_lt_add_iff_right]
  · have kept := Function.comp_update Cell.data queue.cells (slot capacity queue.head)
      { queue.cells (slot capacity queue.head) with
        seq := queue.head + capacity.value }
    change RingHolds _ (Cell.data ∘ _) _ _
    rw [cells, kept]
    have same : Function.update (Cell.data ∘ queue.cells) (slot capacity queue.head)
        (queue.cells (slot capacity queue.head)).data = Cell.data ∘ queue.cells :=
      Function.update_eq_self _ _
    rw [same]
    exact between.stored.pop

theorem Between.call (between : Between capacity queue position queued) (failures : Nat)
    (call : Call α)
    (clear : 2 ≤ capacity.toNat ∨
      ¬ ∃ ptr, call = .enqueue ptr ∧ queued.length = capacity.toNat)
    (enough : 2 * failures + 5 ≤ fuel) :
    ∃ next position, queue.call capacity fuel failures call =
        some ((BoundedFifo.serve capacity.toNat queued call).1, next) ∧
      Between capacity next position (BoundedFifo.serve capacity.toNat queued call).2 := by
  cases call with
  | enqueue ptr =>
      rw [BoundedFifo.serve]
      by_cases room : queued.length < capacity.toNat
      · rw [if_pos room]
        rcases between.enqueue_room failures ptr room enough with ⟨next, runs, after⟩
        exact ⟨next, position, runs, after⟩
      · have full : queued.length = capacity.toNat :=
          Nat.le_antisymm between.bounded (Nat.le_of_not_lt room)
        have two := clear.resolve_right fun given => given ⟨ptr, rfl, full⟩
        have steps : 2 ≤ fuel := by omega
        rw [if_neg room]
        rcases between.enqueue_full failures ptr two full steps with
          ⟨next, runs, after⟩
        exact ⟨next, position, runs, after⟩
  | dequeue =>
      cases queued with
      | nil =>
          have steps : 2 ≤ fuel := by omega
          rcases between.dequeue_empty failures steps with
            ⟨next, runs, after⟩
          exact ⟨next, position, runs, after⟩
      | cons ptr queued =>
          rcases between.dequeue_first enough with ⟨next, runs, after⟩
          exact ⟨next, position + 1, runs, after⟩

/-- In a ring of one cell the value that is still there is written over, and the cell is
two turns ahead of `head_`. -/
theorem Between.enqueue_over (between : Between capacity queue position queued)
    (failures : Nat) (ptr : α) (one : capacity.toNat = 1)
    (full : queued.length = capacity.toNat) (enough : 2 * failures + 5 ≤ fuel) :
    ∃ next, queue.call capacity fuel failures (.enqueue ptr) =
        some (.enqueued true, next) ∧ next.phase () = .idle ∧
      (next.cells (slot capacity next.head)).seq = next.head + 2 := by
  have free : (queue.cells (slot capacity queue.tail)).seq = queue.tail := by
    have turn := between.turns 0 capacity.toNat_pos
    rw [if_pos (by omega), Nat.add_zero] at turn
    rw [between.tail, slot_ofNat, full, Nat.add_mod_right, turn, one]
  rcases between.enqueue_free ptr free enough with ⟨next, runs, idle, head, _, cells⟩
  have together : slot capacity queue.head = slot capacity queue.tail := by
    rw [between.head, between.tail, slot_ofNat, slot_ofNat, full, Nat.add_mod_right]
  refine ⟨next, runs, idle, ?_⟩
  rw [head, cells, together, Function.update_self, between.tail, between.head, full, one,
    ← Word64.ofNat_add_one, BitVec.add_assoc]
  rfl

/-- A cell that is two turns ahead is loaded again and again. -/
theorem finish_ahead (ahead : (queue.cells (slot capacity queue.head)).seq = queue.head + 2)
    (fuel failures : Nat) :
    (queue.goto () (.deqLoaded queue.head)).finish capacity fuel failures = none ∧
      (queue.goto () .deqStarted).finish capacity fuel failures = none := by
  have branch : dequeueBranch queue.head (queue.head + 2) = (.deqStarted : Phase α) := by
    have difference : queue.head + 2 - (queue.head + 1) = 1 := by bv_omega
    rw [dequeueBranch, difference]
    rfl
  have again : step capacity (queue.goto () (.deqLoaded queue.head)) ((), .loadSeq) =
      some (queue.goto () .deqStarted) := by
    simp only [step, phase_goto, goto_goto]
    change some (queue.goto () (dequeueBranch queue.head
      (queue.cells (slot capacity queue.head)).seq)) = _
    rw [ahead, branch]
  have loads : step capacity (queue.goto () .deqStarted) ((), .loadPos) =
      some (queue.goto () (.deqLoaded queue.head)) := by
    simp only [step, phase_goto, goto_goto]
    rfl
  induction fuel with
  | zero => exact ⟨rfl, rfl⟩
  | succ fuel induction =>
      constructor
      · rw [finish_of_step (by rw [phase_goto]; rfl) again (by rw [phase_goto]; nofun)]
        exact induction.2
      · rw [finish_of_step (by rw [phase_goto]; rfl) loads (by rw [phase_goto]; nofun)]
        exact induction.1

/-- With a cell two turns ahead `dequeue` never returns. -/
theorem call_dequeue_ahead (idle : queue.phase () = .idle)
    (ahead : (queue.cells (slot capacity queue.head)).seq = queue.head + 2)
    (fuel failures : Nat) : queue.call capacity fuel failures .dequeue = none := by
  cases fuel with
  | zero =>
      simp only [State.call, step, idle, Option.bind_eq_bind, Option.bind_some]
      rfl
  | succ fuel =>
      rw [call_dequeue idle]
      exact (finish_ahead ahead fuel failures).1

theorem exists_answers (capacity : PowerOfTwo) (calls : List (Call α))
    (failures : Nat → Nat) :
    ∃ enough, ∀ fuel ≥ enough, ∀ (queue : State Unit α) (position : Nat) (queued : List α),
      Between capacity queue position queued →
      2 ≤ capacity.toNat ∨ ¬ BoundedFifo.MeetsFull capacity.toNat queued calls →
      queue.answers capacity fuel failures calls =
        some (BoundedFifo.answers capacity.toNat queued calls) := by
  induction calls generalizing failures with
  | nil => exact ⟨0, fun _ _ _ _ _ _ _ => rfl⟩
  | cons call calls induction =>
      rcases induction fun place => failures (place + 1) with ⟨enough, rest⟩
      refine ⟨max enough (2 * failures 0 + 5), fun fuel most queue position queued between
        clear => ?_⟩
      have first : 2 ≤ capacity.toNat ∨
          ¬ ∃ ptr, call = .enqueue ptr ∧ queued.length = capacity.toNat :=
        clear.imp_right fun never here => never (.inl here)
      have later := clear.imp_right fun never more => never (.inr more)
      rcases between.call (failures 0) call first ((le_max_right _ _).trans most) with
        ⟨next, after, runs, following⟩
      have tail := rest fuel ((le_max_left _ _).trans most) next after _ following later
      rw [State.answers, runs]
      simp only [Option.bind_eq_bind, Option.bind_some, tail]
      rfl

theorem Between.answers_ne (between : Between capacity queue position queued)
    (one : capacity.toNat = 1) {calls : List (Call α)}
    (meets : BoundedFifo.MeetsFull capacity.toNat queued calls) (enough : 5 ≤ fuel) :
    queue.answers capacity fuel (fun _ => 0) calls ≠
      some (BoundedFifo.answers capacity.toNat queued calls) := by
  induction calls generalizing queue position queued with
  | nil => cases meets
  | cons call calls induction =>
      by_cases here : ∃ ptr, call = .enqueue ptr ∧ queued.length = capacity.toNat
      · rcases here with ⟨ptr, rfl, full⟩
        rcases between.enqueue_over 0 ptr one full enough with ⟨next, runs, _⟩
        have crowded : ¬ queued.length < capacity.toNat := by omega
        rw [State.answers, runs, BoundedFifo.answers, BoundedFifo.serve, if_neg crowded]
        simp only [Option.bind_eq_bind, Option.bind_some]
        intro same
        rcases Option.bind_eq_some_iff.mp same with ⟨rest, _, equal⟩
        cases equal
      · rcases between.call 0 call (.inr here) enough with
          ⟨next, after, runs, following⟩
        have differ := induction following (meets.resolve_left here)
        rw [State.answers, runs, BoundedFifo.answers]
        simp only [Option.bind_eq_bind, Option.bind_some]
        intro same
        rcases Option.bind_eq_some_iff.mp same with ⟨rest, answers, equal⟩
        cases equal
        exact differ answers

theorem answers_ahead (one : capacity.toNat = 1) (first second : α) (enough : 5 ≤ fuel) :
    (initial : State Unit α).answers capacity fuel (fun _ => 0)
      [.enqueue first, .enqueue second, .dequeue] = none := by
  have room : ([] : List α).length < capacity.toNat := capacity.toNat_pos
  rcases (between_initial capacity).enqueue_room 0 first room enough with
    ⟨filled, fills, between⟩
  rcases between.enqueue_over 0 second one one.symm enough with ⟨written, writes, idle, ahead⟩
  have stuck := call_dequeue_ahead idle ahead fuel 0
  simp only [State.answers, fills, writes, stuck, Option.bind_eq_bind, Option.bind_some,
    Option.bind_none]

end Between

end FeederNet.Queue.CustomMPMCLockFreeQueue
