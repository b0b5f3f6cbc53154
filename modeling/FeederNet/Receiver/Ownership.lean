import FeederNet.Receiver.Steps
import Mathlib.Data.List.Range

/-! # Owners of the buffers in the receiver pipeline

Every buffer is in one place, or lost because an `enqueue` returned false, as long as no
queue has a slot overwritten that its consumer has yet to read.
-/

namespace FeederNet.Receiver

open Queue.CustomSPSCLockFreeQueue (Intact WritesClear)

namespace Pipeline

def unflushed (pipeline : Pipeline) : List Nat :=
  match pipeline.db with
  | .flushing index _ => pipeline.batch.drop index
  | _ => pipeline.batch

def places (pipeline : Pipeline) : List Nat :=
  pipeline.free ++ pipeline.receiver.held ++ pipeline.toSequencer.contents ++
    pipeline.sequencer.held ++ pipeline.toDB.contents ++ pipeline.unflushed

/-- The buffers whose `enqueue` returned false, which nobody has. -/
def leaked (pipeline : Pipeline) : List Nat :=
  pipeline.toSequencer.refused ++ pipeline.toDB.refused

structure Owned (poolMsgCount : Nat) (capacity : PowerOfTwo)
    (pipeline : Pipeline) : Prop where
  places : (pipeline.places ++ pipeline.leaked).Perm (List.range poolMsgCount)
  toSequencer : Intact capacity pipeline.toSequencer
  toDB : Intact capacity pipeline.toDB
  receiverCall : ∀ msg, pipeline.toSequencer.producer.ptr = some msg →
    pipeline.receiver = .enqueueing msg
  sequencerCall : ∀ msg, pipeline.toDB.producer.ptr = some msg →
    pipeline.sequencer.passes = some msg

/-- No producer writes to a slot that its consumer has claimed and not read yet. -/
def Clear (capacity : PowerOfTwo) (pipeline : Pipeline) : Event → Prop
  | .receiver .enqueue => WritesClear capacity pipeline.toSequencer .writeSlot
  | .sequencer .enqueue => WritesClear capacity pipeline.toDB .writeSlot
  | _ => True

section Invariance

variable {poolMsgCount : Nat} {capacity : PowerOfTwo} {pipeline : Pipeline}

theorem owned_initial (poolMsgCount : Nat) (capacity : PowerOfTwo) :
    Owned poolMsgCount capacity (initial poolMsgCount) where
  places := by
    simp [places, leaked, initial, MulticastReceiver.held, Sequencer.held, unflushed,
      Queue.CustomSPSCLockFreeQueue.State.contents,
      Queue.CustomSPSCLockFreeQueue.initial]
  toSequencer := Queue.CustomSPSCLockFreeQueue.intact_initial capacity
  toDB := Queue.CustomSPSCLockFreeQueue.intact_initial capacity
  receiverCall _ calls := by cases calls
  sequencerCall _ calls := by cases calls

/-- The total number of buffers bounds what a queue holds beside a buffer in
hand. -/
theorem Owned.lengths (owned : Owned poolMsgCount capacity pipeline) :
    pipeline.free.length + pipeline.receiver.held.length +
      pipeline.toSequencer.contents.length + pipeline.sequencer.held.length +
      pipeline.toDB.contents.length + pipeline.unflushed.length +
      pipeline.leaked.length = poolMsgCount := by
  simpa only [Pipeline.places, List.length_append, List.length_range] using
    owned.places.length_eq

theorem Owned.moveReceiver (owned : Owned poolMsgCount capacity pipeline) (free : List Nat)
    (contents : Nat → Word64) (receiver : MulticastReceiver)
    (idle : ∀ msg, pipeline.receiver ≠ .enqueueing msg)
    (moved : (free ++ receiver.held).Perm
      (pipeline.free ++ pipeline.receiver.held)) :
    Owned poolMsgCount capacity { pipeline with
      free := free
      sequenceNumber := contents
      receiver := receiver } where
  places := by
    refine List.Perm.trans ?_ owned.places
    have places := ((moved.append_right pipeline.toSequencer.contents).append_right
      pipeline.sequencer.held).append_right pipeline.toDB.contents
    exact (places.append_right pipeline.unflushed).append_right pipeline.leaked
  toSequencer := owned.toSequencer
  toDB := owned.toDB
  receiverCall msg calls := absurd (owned.receiverCall msg calls) (idle msg)
  sequencerCall := owned.sequencerCall

theorem Owned.moveSequencer (owned : Owned poolMsgCount capacity pipeline) (free : List Nat)
    (contents : Nat → Word64) (sequencer : Sequencer)
    (idle : pipeline.sequencer.passes = none)
    (moved : (free ++ sequencer.held).Perm
      (pipeline.free ++ pipeline.sequencer.held)) :
    Owned poolMsgCount capacity { pipeline with
      free := free
      sequenceNumber := contents
      sequencer := sequencer } where
  places := by
    refine List.Perm.trans ?_ owned.places
    have counts := fun msg => moved.count_eq msg
    refine List.perm_iff_count.mpr fun msg => ?_
    have count := counts msg
    simp only [Pipeline.places, leaked, unflushed, List.count_append] at count ⊢
    omega
  toSequencer := owned.toSequencer
  toDB := owned.toDB
  receiverCall := owned.receiverCall
  sequencerCall msg calls := by
    have passes := owned.sequencerCall msg calls
    rw [idle] at passes
    cases passes

/-! ## The receiver -/

theorem Owned.receiverEnqueue (owned : Owned poolMsgCount capacity pipeline)
    (clear : WritesClear capacity pipeline.toSequencer .writeSlot) {msg : Nat}
    {queue : Queue.CustomSPSCLockFreeQueue.State Nat}
    (phase : pipeline.receiver = .enqueueing msg)
    (stepped : Queue.CustomSPSCLockFreeQueue.step capacity pipeline.toSequencer
      (Queue.CustomSPSCLockFreeQueue.enqueueEvent msg
        pipeline.toSequencer.producer) = some queue) :
    Owned poolMsgCount capacity { pipeline with
      toSequencer := queue
      receiver := if queue.producer = .idle then .looping else .enqueueing msg } := by
  have pending : ∀ other, pipeline.toSequencer.producer.ptr = some other →
      other = msg := fun other calls =>
    MulticastReceiver.enqueueing.inj ((owned.receiverCall other calls).symm.trans phase)
  have intact := owned.toSequencer.enqueue clear stepped
  rcases Queue.CustomSPSCLockFreeQueue.enqueued_of_step pending stepped with
    ⟨delivered, _, outcome⟩
  have contents : ∀ {values}, queue.accepted = pipeline.toSequencer.accepted ++ values →
      queue.contents = pipeline.toSequencer.contents ++ values := fun accepted =>
    owned.toSequencer.lossless.contents_append accepted delivered
  cases outcome with
  | accepted idle accepted refused =>
      rw [if_pos idle]
      refine ⟨List.Perm.trans ?_ owned.places, intact, owned.toDB, ?_, owned.sequencerCall⟩
      · refine List.perm_iff_count.mpr fun other => ?_
        simp only [Pipeline.places, leaked, unflushed, contents accepted, refused, phase,
          MulticastReceiver.held, List.count_append, List.count_nil]
        omega
      · rw [idle]
        nofun
  | refused idle accepted refused =>
      have same := contents (accepted.trans (List.append_nil _).symm)
      rw [if_pos idle]
      refine ⟨List.Perm.trans ?_ owned.places, intact, owned.toDB, ?_, owned.sequencerCall⟩
      · refine List.perm_iff_count.mpr fun other => ?_
        simp only [Pipeline.places, leaked, unflushed, same, refused, phase,
          MulticastReceiver.held, List.count_append, List.count_nil]
        omega
      · rw [idle]
        nofun
  | continues calls accepted refused =>
      have same := contents (accepted.trans (List.append_nil _).symm)
      have notDone : queue.producer ≠ .idle := by
        intro idle
        rw [idle] at calls
        cases calls
      rw [if_neg notDone]
      refine ⟨List.Perm.trans ?_ owned.places, intact, owned.toDB, ?_, owned.sequencerCall⟩
      · refine List.perm_iff_count.mpr fun other => ?_
        simp only [Pipeline.places, leaked, unflushed, same, refused, phase,
          List.count_append, List.count_nil]
        omega
      · rw [calls]
        rintro _ ⟨⟩
        rfl

theorem Owned.receiverStep (owned : Owned poolMsgCount capacity pipeline)
    {event : ReceiverEvent} {next : Pipeline}
    (clear : Clear capacity pipeline (.receiver event))
    (stepped : ReceiverStepped capacity pipeline event next) :
    Owned poolMsgCount capacity next := by
  cases stepped with
  | moves event free contents receiver idle queues moved numbers =>
      exact owned.moveReceiver free contents receiver idle moved
  | enqueue msg queue phase advanced => exact owned.receiverEnqueue clear phase advanced

/-! ## The sequencer -/

theorem Owned.sequencerDequeue (owned : Owned poolMsgCount capacity pipeline)
    {queue : Queue.CustomSPSCLockFreeQueue.State Nat}
    (phase : pipeline.sequencer = .polling)
    (stepped : Queue.CustomSPSCLockFreeQueue.step capacity pipeline.toSequencer
      (Queue.CustomSPSCLockFreeQueue.dequeueEvent
        pipeline.toSequencer.consumer) = some queue) :
    Owned poolMsgCount capacity { pipeline with
      toSequencer := queue
      sequencer :=
        match pipeline.toSequencer.returns capacity with
        | some (some msg) => .dispatching msg
        | _ => .polling } := by
  rcases owned.toSequencer.dequeue stepped with
    ⟨intact, producer, _, refused, contents⟩
  refine ⟨List.Perm.trans ?_ owned.places, intact, owned.toDB, ?_, ?_⟩
  · have held : (match pipeline.toSequencer.returns capacity with
        | some (some msg) => Sequencer.dispatching msg
        | _ => .polling).held = (pipeline.toSequencer.returns capacity).join.toList := by
      rcases pipeline.toSequencer.returns capacity with _ | _ | msg <;> rfl
    have before : pipeline.sequencer.held = [] := by rw [phase]; rfl
    refine List.perm_iff_count.mpr fun msg => ?_
    simp only [Pipeline.places, leaked, unflushed, before, contents, refused, held,
      List.count_append, List.count_nil]
    omega
  · rw [producer]
    exact owned.receiverCall
  · intro msg calls
    have passes := owned.sequencerCall msg calls
    rw [phase] at passes
    cases passes

theorem Owned.toDBPending (owned : Owned poolMsgCount capacity pipeline) {msg : Nat}
    (passes : pipeline.sequencer.passes = some msg) (other : Nat)
    (calls : pipeline.toDB.producer.ptr = some other) : other = msg :=
  Option.some.inj ((owned.sequencerCall other calls).symm.trans passes)

/-- A step of `sendQueue_.enqueue(msg)`, and where the sequencer goes once it has
returned. -/
theorem Owned.sequencerEnqueue (owned : Owned poolMsgCount capacity pipeline)
    (clear : WritesClear capacity pipeline.toDB .writeSlot) {msg : Nat}
    {sequencer : Sequencer} {queue : Queue.CustomSPSCLockFreeQueue.State Nat}
    (passes : pipeline.sequencer.passes = some msg)
    (after : (msg :: sequencer.held).Perm pipeline.sequencer.held)
    (stepped : Queue.CustomSPSCLockFreeQueue.step capacity pipeline.toDB
      (Queue.CustomSPSCLockFreeQueue.enqueueEvent msg
        pipeline.toDB.producer) = some queue) :
    Owned poolMsgCount capacity
      (if queue.producer = .idle then
        { pipeline with
          toDB := queue
          sequencer := sequencer
          nextSequence := pipeline.nextSequence + 1 }
      else { pipeline with toDB := queue }) := by
  have hand : ∀ other, [msg].count other + sequencer.held.count other =
      pipeline.sequencer.held.count other := by
    intro other
    rw [← List.count_append, List.singleton_append]
    exact after.count_eq other
  have intact := owned.toDB.enqueue clear stepped
  rcases Queue.CustomSPSCLockFreeQueue.enqueued_of_step (owned.toDBPending passes)
    stepped with ⟨delivered, _, outcome⟩
  have contents : ∀ {values}, queue.accepted = pipeline.toDB.accepted ++ values →
      queue.contents = pipeline.toDB.contents ++ values := fun accepted =>
    owned.toDB.lossless.contents_append accepted delivered
  cases outcome with
  | accepted idle accepted refused =>
      rw [if_pos idle]
      refine ⟨List.Perm.trans ?_ owned.places, owned.toSequencer, intact,
        owned.receiverCall, ?_⟩
      · refine List.perm_iff_count.mpr fun other => ?_
        have hand := hand other
        simp only [Pipeline.places, leaked, unflushed, contents accepted, refused,
          List.count_append]
        omega
      · rw [idle]
        nofun
  | refused idle accepted refused =>
      have same := contents (accepted.trans (List.append_nil _).symm)
      rw [if_pos idle]
      refine ⟨List.Perm.trans ?_ owned.places, owned.toSequencer, intact,
        owned.receiverCall, ?_⟩
      · refine List.perm_iff_count.mpr fun other => ?_
        have hand := hand other
        simp only [Pipeline.places, leaked, unflushed, same, refused, List.count_append,
          List.count_nil]
        omega
      · rw [idle]
        nofun
  | continues calls accepted refused =>
      have same := contents (accepted.trans (List.append_nil _).symm)
      have notDone : queue.producer ≠ .idle := by
        intro idle
        rw [idle] at calls
        cases calls
      rw [if_neg notDone]
      refine ⟨List.Perm.trans ?_ owned.places, owned.toSequencer, intact,
        owned.receiverCall, ?_⟩
      · refine List.perm_iff_count.mpr fun other => ?_
        simp only [Pipeline.places, leaked, unflushed, same, refused, List.count_append,
          List.count_nil]
        omega
      · rw [calls]
        rintro _ ⟨⟩
        exact passes

theorem Owned.sequencerStep (owned : Owned poolMsgCount capacity pipeline)
    {event : SequencerEvent} {next : Pipeline}
    (clear : Clear capacity pipeline (.sequencer event))
    (stepped : SequencerStepped capacity pipeline event next) :
    Owned poolMsgCount capacity next := by
  cases stepped with
  | moves event free contents sequencer idle queues moved numbers =>
      exact owned.moveSequencer free contents sequencer idle moved
  | dequeue queue phase advanced => exact owned.sequencerDequeue phase advanced
  | enqueue msg sequencer queue passes after advanced =>
      exact owned.sequencerEnqueue clear passes after advanced

/-! ## The database manager -/

theorem Owned.dbDequeue (owned : Owned poolMsgCount capacity pipeline) {batch : List Nat}
    {db : DB} {queue : Queue.CustomSPSCLockFreeQueue.State Nat}
    (phase : pipeline.db = .polling)
    (kept : unflushed { pipeline with batch := batch, db := db } =
      pipeline.batch ++ (pipeline.toDB.returns capacity).join.toList)
    (stepped : Queue.CustomSPSCLockFreeQueue.step capacity pipeline.toDB
      (Queue.CustomSPSCLockFreeQueue.dequeueEvent
        pipeline.toDB.consumer) = some queue) :
    Owned poolMsgCount capacity { pipeline with
      toDB := queue
      batch := batch
      db := db } := by
  rcases owned.toDB.dequeue stepped with ⟨intact, producer, _, refused, contents⟩
  refine ⟨List.Perm.trans ?_ owned.places, owned.toSequencer, intact, owned.receiverCall,
    ?_⟩
  · refine List.perm_iff_count.mpr fun msg => ?_
    have same : unflushed { pipeline with toDB := queue, batch := batch, db := db } =
        unflushed { pipeline with batch := batch, db := db } := rfl
    have before : pipeline.unflushed = pipeline.batch := by simp [unflushed, phase]
    simp only [Pipeline.places, leaked, same, kept, before, contents, refused,
      List.count_append]
    omega
  · rw [producer]
    exact owned.sequencerCall

theorem Owned.dbStep (owned : Owned poolMsgCount capacity pipeline) {commitBatchSize : Nat}
    {event : DBEvent} {next : Pipeline}
    (stepped : DBStepped capacity commitBatchSize pipeline event next) :
    Owned poolMsgCount capacity next := by
  have places := owned.places
  cases stepped with
  | stop phase =>
      refine ⟨?_, owned.toSequencer, owned.toDB, owned.receiverCall, owned.sequencerCall⟩
      simp only [Pipeline.places, unflushed, phase, List.drop_zero] at places ⊢
      exact places
  | dequeue queue batch db phase taken goesOn advanced =>
      refine owned.dbDequeue phase ?_ advanced
      rw [← taken]
      rcases goesOn with rfl | rfl <;> rfl
  | deallocate index stopping msg phase found =>
      refine ⟨List.Perm.trans ?_ places, owned.toSequencer, owned.toDB,
        owned.receiverCall, owned.sequencerCall⟩
      rcases List.getElem?_eq_some_iff.mp found with ⟨bound, rfl⟩
      refine List.perm_iff_count.mpr fun other => ?_
      simp only [Pipeline.places, leaked, unflushed, phase, List.count_append,
        List.drop_eq_getElem_cons bound, List.count_cons]
      omega
  | finish index stopping phase finished =>
      refine ⟨?_, owned.toSequencer, owned.toDB, owned.receiverCall, owned.sequencerCall⟩
      have nothing : pipeline.batch.drop index = [] :=
        List.drop_eq_nil_of_le (List.getElem?_eq_none_iff.mp finished)
      simp only [Pipeline.places, leaked, unflushed, phase, nothing] at places ⊢
      split <;> simpa only [List.drop_nil] using places

theorem Owned.step (owned : Owned poolMsgCount capacity pipeline) {commitBatchSize : Nat}
    {event : Event} {next : Pipeline} (clear : Clear capacity pipeline event)
    (stepped : pipeline.step capacity commitBatchSize event = some next) :
    Owned poolMsgCount capacity next := by
  cases event with
  | receiver event =>
      exact owned.receiverStep clear (receiverStepped_of_receiverStep stepped)
  | sequencer event =>
      exact owned.sequencerStep clear (sequencerStepped_of_sequencerStep stepped)
  | db event => exact owned.dbStep (dbStepped_of_dbStep stepped)

end Invariance

end Pipeline

end FeederNet.Receiver
