import FeederNet.Queue.CustomSPSCLockFreeQueue

/-! # Contents of CustomSPSCLockFreeQueue

What one step of an `enqueue` or `dequeue` call does to the list of values in the
queue, and what a producer that never fills the ring is spared.
-/

namespace FeederNet.Queue.CustomSPSCLockFreeQueue

def enqueueEvent (ptr : α) : Producer α → Event α
  | .idle => .enqueue ptr
  | .loadedTail _ _ => .loadHead
  | .admitted _ _ => .writeSlot
  | .written _ _ => .storeTail

def dequeueEvent : Consumer → Event α
  | .idle => .dequeue
  | .loadedHead _ => .loadTail
  | .nonEmpty => .fetchAdd
  | .claimed _ => .readSlot

def Producer.ptr : Producer α → Option α
  | .idle => none
  | .loadedTail ptr _ | .admitted ptr _ | .written ptr _ => some ptr

def State.returns (capacity : PowerOfTwo) (queue : State α) : Option (Option α) :=
  match queue.consumer with
  | .loadedHead head => if head = queue.tail then some none else none
  | .claimed head => some (queue.buffer (slot capacity head))
  | _ => none

def State.contents (queue : State α) : List α :=
  queue.accepted.drop queue.delivered.length

structure Intact (capacity : PowerOfTwo) (queue : State α) : Prop where
  invariant : ∃ claims, Inv capacity queue claims
  lossless : Lossless capacity queue

/-- A queue that has lost and refused nothing. -/
structure Sound (capacity : PowerOfTwo) (queue : State α) : Prop where
  invariant : ∃ claims, Inv capacity queue claims
  lossless : Lossless capacity queue
  accepts : queue.refused = []

inductive Enqueued (queue next : State α) (ptr : α) : Prop
  | accepted (idle : next.producer = .idle)
      (accepted : next.accepted = queue.accepted ++ [ptr])
      (refused : next.refused = queue.refused)
  | refused (idle : next.producer = .idle) (accepted : next.accepted = queue.accepted)
      (refused : next.refused = queue.refused ++ [ptr])
  | continues (calls : next.producer.ptr = some ptr)
      (accepted : next.accepted = queue.accepted)
      (refused : next.refused = queue.refused)

section Contents

variable {capacity : PowerOfTwo} {queue next : State α} {claims : Nat}

theorem Enqueued.exists_append {ptr : α} (enqueued : Enqueued queue next ptr) :
    ∃ values, next.accepted = queue.accepted ++ values := by
  cases enqueued with
  | accepted idle accepted refused => exact ⟨[ptr], accepted⟩
  | refused idle accepted refused => exact ⟨[], by rw [accepted, List.append_nil]⟩
  | continues calls accepted refused => exact ⟨[], by rw [accepted, List.append_nil]⟩

theorem intact_initial (capacity : PowerOfTwo) : Intact capacity (initial : State α) where
  invariant := ⟨0, inv_initial capacity⟩
  lossless := lossless_initial capacity

theorem Sound.intact (sound : Sound capacity queue) : Intact capacity queue :=
  ⟨sound.invariant, sound.lossless⟩

theorem Intact.sound (intact : Intact capacity queue) (accepts : queue.refused = []) :
    Sound capacity queue :=
  ⟨intact.invariant, intact.lossless, accepts⟩

theorem Lossless.delivered_le (lossless : Lossless capacity queue) :
    queue.delivered.length ≤ queue.accepted.length :=
  lossless.inOrder.length_le

theorem Lossless.contents_append (lossless : Lossless capacity queue) {values : List α}
    (accepted : next.accepted = queue.accepted ++ values)
    (delivered : next.delivered = queue.delivered) :
    next.contents = queue.contents ++ values := by
  rw [State.contents, State.contents, accepted, delivered,
    List.drop_append_of_le_length lossless.delivered_le]

theorem Intact.step (intact : Intact capacity queue) {event : Event α}
    (step : Step capacity queue event next) (clear : WritesClear capacity queue event) :
    Intact capacity next := by
  rcases intact.invariant with ⟨claims, inv⟩
  exact ⟨step.inv inv, (step.lossless_iff inv intact.lossless).mpr clear⟩

theorem writesClear_enqueueEvent (clear : WritesClear capacity queue .writeSlot) (ptr : α) :
    WritesClear capacity queue (enqueueEvent ptr queue.producer) := by
  cases queue.producer with
  | admitted => exact clear
  | idle | loadedTail | written => exact trivial

theorem writesClear_of_idle (idle : queue.producer.ptr = none) :
    WritesClear capacity queue .writeSlot := by
  cases stands : queue.producer with
  | idle => simp only [WritesClear, stands]
  | loadedTail | admitted | written =>
      rw [stands] at idle
      cases idle

theorem enqueued_of_step {ptr : α}
    (pending : ∀ other, queue.producer.ptr = some other → other = ptr)
    (stepped : CustomSPSCLockFreeQueue.step capacity queue
      (enqueueEvent ptr queue.producer) = some next) :
    next.delivered = queue.delivered ∧ next.consumer = queue.consumer ∧
      Enqueued queue next ptr := by
  have step := Step.of_step stepped
  cases stands : queue.producer with
  | idle =>
      rw [stands] at step
      cases step with
      | enqueue _ _ => exact ⟨rfl, rfl, .continues rfl rfl rfl⟩
  | loadedTail loaded tail =>
      rw [stands] at step pending
      have same := pending loaded rfl
      cases step with
      | full phase full =>
          cases stands.symm.trans phase
          exact ⟨rfl, rfl, .refused rfl rfl (by rw [same])⟩
      | notFull phase free =>
          cases stands.symm.trans phase
          exact ⟨rfl, rfl, .continues (congrArg some same) rfl rfl⟩
  | admitted loaded tail =>
      rw [stands] at step pending
      have same := pending loaded rfl
      cases step with
      | writeSlot phase =>
          cases stands.symm.trans phase
          exact ⟨rfl, rfl, .continues (congrArg some same) rfl rfl⟩
  | written loaded tail =>
      rw [stands] at step pending
      have same := pending loaded rfl
      cases step with
      | storeTail phase =>
          cases stands.symm.trans phase
          exact ⟨rfl, rfl, .accepted rfl (by rw [same]) rfl⟩

/-- One step of an `enqueue` call that overwrites no slot the consumer has yet to read. -/
theorem Intact.enqueue (intact : Intact capacity queue) {ptr : α}
    (clear : WritesClear capacity queue .writeSlot)
    (stepped : CustomSPSCLockFreeQueue.step capacity queue
      (enqueueEvent ptr queue.producer) = some next) : Intact capacity next :=
  intact.step (Step.of_step stepped) (writesClear_enqueueEvent clear ptr)

/-! ## A slot to spare -/

/-- With a slot to spare the producer never meets the consumer's claimed slot. -/
theorem Inv.slot_ne_of_room (inv : Inv capacity queue claims)
    (room : queue.contents.length < capacity.toNat) {head : Word64}
    (phase : queue.consumer = .claimed head) :
    slot capacity queue.tail ≠ slot capacity head := by
  rcases inv.claimed phase with ⟨rfl, counted⟩
  have ordered := inv.ordered
  rw [State.contents, List.length_drop] at room
  rw [inv.tail, slot_ofNat, slot_ofNat]
  intro equal
  have same := eq_of_mod_eq_of_near (by omega) (by omega) equal.symm
  omega

theorem Intact.writesClear_of_room (intact : Intact capacity queue)
    (room : queue.contents.length < capacity.toNat) :
    WritesClear capacity queue .writeSlot := by
  rcases intact.invariant with ⟨claims, inv⟩
  rw [WritesClear]
  split
  · rename_i ptr tail head stands claimed
    have valid := inv.producer
    rw [stands] at valid
    intro equal
    rw [valid.1] at equal
    exact absurd equal (inv.slot_ne_of_room room claimed)
  · trivial

theorem Intact.refused_of_room (intact : Intact capacity queue)
    (room : queue.contents.length < capacity.toNat) {ptr : α}
    (stepped : CustomSPSCLockFreeQueue.step capacity queue
      (enqueueEvent ptr queue.producer) = some next) :
    next.refused = queue.refused := by
  rcases intact.invariant with ⟨claims, inv⟩
  have step := Step.of_step stepped
  cases stands : queue.producer with
  | loadedTail loaded tail =>
      rw [stands] at step
      cases step with
      | full phase full =>
          have valid := inv.producer
          rw [phase] at valid
          subst valid
          rw [inv.full_iff] at full
          have counted := inv.counted
          rw [State.contents, List.length_drop] at room
          omega
      | notFull phase free => rfl
  | idle | admitted | written =>
      rw [stands] at step
      cases step
      rfl

/-! ## The consumer -/

/-- One step of a `dequeue` call. A value it returns is the first of the
contents. -/
theorem Intact.dequeue (intact : Intact capacity queue)
    (stepped : CustomSPSCLockFreeQueue.step capacity queue
      (dequeueEvent queue.consumer) = some next) :
    Intact capacity next ∧ next.producer = queue.producer ∧
      next.accepted = queue.accepted ∧ next.refused = queue.refused ∧
      queue.contents = (queue.returns capacity).join.toList ++ next.contents := by
  rcases intact.invariant with ⟨claims, inv⟩
  have step := Step.of_step stepped
  unfold State.returns
  cases stands : queue.consumer with
  | idle =>
      rw [stands] at step
      have after := intact.step step trivial
      cases step with
      | dequeue _ => exact ⟨after, rfl, rfl, rfl, rfl⟩
  | loadedHead head =>
      rw [stands] at step
      have after := intact.step step trivial
      cases step with
      | empty phase equal =>
          cases stands.symm.trans phase
          refine ⟨after, rfl, rfl, rfl, ?_⟩
          simp [equal, State.contents]
      | nonEmpty phase different =>
          cases stands.symm.trans phase
          refine ⟨after, rfl, rfl, rfl, ?_⟩
          simp [different, State.contents]
  | nonEmpty =>
      rw [stands] at step
      have after := intact.step step trivial
      cases step with
      | fetchAdd _ => exact ⟨after, rfl, rfl, rfl, rfl⟩
  | claimed head =>
      rw [stands] at step
      have after := intact.step step trivial
      cases step with
      | readSlot phase =>
          cases stands.symm.trans phase
          refine ⟨after, rfl, rfl, rfl, ?_⟩
          rcases inv.read_claimed intact.lossless phase with ⟨waiting, read⟩
          simp only [read, State.contents, Option.join_some, Option.toList_some,
            List.length_append, List.length_singleton, List.singleton_append]
          exact List.drop_eq_getElem_cons waiting

end Contents

end FeederNet.Queue.CustomSPSCLockFreeQueue
