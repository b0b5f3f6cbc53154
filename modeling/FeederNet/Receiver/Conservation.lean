import FeederNet.Receiver.Ownership

/-! # Buffers of the receiver pipeline

At most `poolMsgCount` buffers exist, so the rings never fill up. That is all that
keeps the ignored results of `enqueue` and the early release of slots harmless.
-/

namespace FeederNet.Receiver

open Queue.CustomSPSCLockFreeQueue (Sound Lossless WritesClear)

namespace Pipeline

/-- Every buffer is in exactly one place, no `enqueue` has returned false, and no
queue has lost a value or had one overwritten. -/
structure Conserved (poolMsgCount : Nat) (capacity : PowerOfTwo)
    (pipeline : Pipeline) : Prop where
  places : pipeline.places.Perm (List.range poolMsgCount)
  toSequencerAccepts : pipeline.toSequencer.refused = []
  toDBAccepts : pipeline.toDB.refused = []
  toSequencerLossless : Lossless capacity pipeline.toSequencer
  toDBLossless : Lossless capacity pipeline.toDB

structure Inv (poolMsgCount : Nat) (capacity : PowerOfTwo)
    (pipeline : Pipeline) : Prop where
  places : pipeline.places.Perm (List.range poolMsgCount)
  toSequencer : Sound capacity pipeline.toSequencer
  toDB : Sound capacity pipeline.toDB
  receiverCall : ∀ msg, pipeline.toSequencer.producer.ptr = some msg →
    pipeline.receiver = .enqueueing msg
  sequencerCall : ∀ msg, pipeline.toDB.producer.ptr = some msg →
    pipeline.sequencer.passes = some msg

section Invariance

variable {poolMsgCount : Nat} {capacity : PowerOfTwo} {pipeline next : Pipeline}

theorem Inv.conserved (inv : Inv poolMsgCount capacity pipeline) :
    Conserved poolMsgCount capacity pipeline where
  places := inv.places
  toSequencerAccepts := inv.toSequencer.accepts
  toDBAccepts := inv.toDB.accepts
  toSequencerLossless := inv.toSequencer.lossless
  toDBLossless := inv.toDB.lossless

theorem Inv.owned (inv : Inv poolMsgCount capacity pipeline) :
    Owned poolMsgCount capacity pipeline where
  places := by
    rw [leaked, inv.toSequencer.accepts, inv.toDB.accepts, List.append_nil, List.append_nil]
    exact inv.places
  toSequencer := inv.toSequencer.intact
  toDB := inv.toDB.intact
  receiverCall := inv.receiverCall
  sequencerCall := inv.sequencerCall

theorem Owned.inv (owned : Owned poolMsgCount capacity pipeline)
    (toSequencer : pipeline.toSequencer.refused = [])
    (toDB : pipeline.toDB.refused = []) : Inv poolMsgCount capacity pipeline where
  places := by
    have places := owned.places
    rwa [leaked, toSequencer, toDB, List.append_nil, List.append_nil] at places
  toSequencer := owned.toSequencer.sound toSequencer
  toDB := owned.toDB.sound toDB
  receiverCall := owned.receiverCall
  sequencerCall := owned.sequencerCall

theorem inv_initial (poolMsgCount : Nat) (capacity : PowerOfTwo) :
    Inv poolMsgCount capacity (initial poolMsgCount) :=
  (owned_initial poolMsgCount capacity).inv rfl rfl

theorem Owned.toSequencerRoom (owned : Owned poolMsgCount capacity pipeline)
    (fits : poolMsgCount ≤ capacity.toNat) {msg : Nat}
    (phase : pipeline.receiver = .enqueueing msg) :
    pipeline.toSequencer.contents.length < capacity.toNat := by
  have lengths := owned.lengths
  simp only [phase, MulticastReceiver.held, List.length_singleton] at lengths
  omega

theorem Owned.toDBRoom (owned : Owned poolMsgCount capacity pipeline)
    (fits : poolMsgCount ≤ capacity.toNat) {msg : Nat}
    (passes : pipeline.sequencer.passes = some msg) :
    pipeline.toDB.contents.length < capacity.toNat := by
  have lengths := owned.lengths
  have held : 0 < pipeline.sequencer.held.length := by
    cases phase : pipeline.sequencer with
    | enqueueing | enqueueingRecovered => exact Nat.succ_pos _
    | _ =>
        rw [phase] at passes
        cases passes
  omega

/-- With no more buffers than slots no write meets a slot that is still to be read. -/
theorem Owned.clear_of_fits (owned : Owned poolMsgCount capacity pipeline)
    (fits : poolMsgCount ≤ capacity.toNat) (event : Event) :
    Clear capacity pipeline event := by
  have toSequencer : WritesClear capacity pipeline.toSequencer .writeSlot := by
    cases calls : pipeline.toSequencer.producer.ptr with
    | none => exact Queue.CustomSPSCLockFreeQueue.writesClear_of_idle calls
    | some msg =>
        have room := owned.toSequencerRoom fits (owned.receiverCall msg calls)
        exact owned.toSequencer.writesClear_of_room room
  have toDB : WritesClear capacity pipeline.toDB .writeSlot := by
    cases calls : pipeline.toDB.producer.ptr with
    | none => exact Queue.CustomSPSCLockFreeQueue.writesClear_of_idle calls
    | some msg =>
        have room := owned.toDBRoom fits (owned.sequencerCall msg calls)
        exact owned.toDB.writesClear_of_room room
  rcases event with event | event | event
  · cases event <;> first | exact toSequencer | exact trivial
  · cases event <;> first | exact toDB | exact trivial
  · exact trivial

/-- With no more buffers than slots nothing is refused. -/
theorem Inv.accepts (inv : Inv poolMsgCount capacity pipeline)
    (fits : poolMsgCount ≤ capacity.toNat) {commitBatchSize : Nat} {event : Event}
    (stepped : pipeline.step capacity commitBatchSize event = some next) :
    next.toSequencer.refused = [] ∧ next.toDB.refused = [] := by
  have toSequencer := inv.toSequencer.accepts
  have toDB := inv.toDB.accepts
  cases event with
  | receiver event =>
      cases receiverStepped_of_receiverStep stepped with
      | moves => exact ⟨toSequencer, toDB⟩
      | enqueue msg queue phase advanced =>
          have room := inv.owned.toSequencerRoom fits phase
          have refused := inv.toSequencer.intact.refused_of_room room advanced
          exact ⟨refused.trans toSequencer, toDB⟩
  | sequencer event =>
      cases sequencerStepped_of_sequencerStep stepped with
      | moves => exact ⟨toSequencer, toDB⟩
      | dequeue queue phase advanced =>
          rcases inv.toSequencer.intact.dequeue advanced with ⟨_, _, _, refused, _⟩
          exact ⟨refused.trans toSequencer, toDB⟩
      | enqueue msg sequencer queue passes after advanced =>
          have room := inv.owned.toDBRoom fits passes
          have refused := inv.toDB.intact.refused_of_room room advanced
          split <;> exact ⟨toSequencer, refused.trans toDB⟩
  | db event =>
      cases dbStepped_of_dbStep stepped with
      | stop | deallocate | finish => exact ⟨toSequencer, toDB⟩
      | dequeue queue batch db phase taken goesOn advanced =>
          rcases inv.toDB.intact.dequeue advanced with ⟨_, _, _, refused, _⟩
          exact ⟨toSequencer, refused.trans toDB⟩

end Invariance

/-- Every interleaving of the three threads conserves the buffers and fills
neither queue, whatever `recv` yields and wherever a thread throws. -/
theorem conserved_of_reachable (poolMsgCount : Nat) (capacity : PowerOfTwo)
    (commitBatchSize : Nat) (fits : poolMsgCount ≤ capacity.toNat)
    {pipeline : Pipeline}
    (reachable : (system poolMsgCount capacity commitBatchSize).Reachable pipeline) :
    Conserved poolMsgCount capacity pipeline := by
  have inv : Inv poolMsgCount capacity pipeline := by
    refine reachable.invariant (Inv poolMsgCount capacity) ?_ ?_
    · intro state start
      cases start
      exact inv_initial poolMsgCount capacity
    · intro current event next inv stepped
      have accepts := inv.accepts fits stepped
      exact (inv.owned.step (inv.owned.clear_of_fits fits event) stepped).inv accepts.1
        accepts.2
  exact inv.conserved

/-- Message 1 arrives first, message 0 is recovered into the second buffer, and the
database manager has given that one back. -/
def recoveredGap : List Event :=
  [Event.receiver (.allocate 0), .receiver (.received 1)] ++
  List.replicate 4 (Event.receiver .enqueue) ++
  List.replicate 4 (Event.sequencer .dequeue) ++
  [Event.sequencer .dispatch, .sequencer .sendRequest, .sequencer (.allocate 1),
    .sequencer (.received 0), .sequencer .onRecoveredMsg] ++
  List.replicate 8 (Event.sequencer .enqueue) ++
  List.replicate 4 (Event.db .dequeue) ++ [Event.db .deallocate]

theorem conserved_of_reachable_recovered :
    ∃ pipeline,
      (system 2 Queue.CustomSPSCLockFreeQueue.twoSlots 1).Reachable pipeline ∧
        pipeline.nextSequence = 2 ∧ pipeline.free = [1] ∧
        Conserved 2 Queue.CustomSPSCLockFreeQueue.twoSlots pipeline := by
  rcases TransitionSystem.exists_reachable_of_execute (initial 2)
    (step Queue.CustomSPSCLockFreeQueue.twoSlots 1) recoveredGap
    (fun pipeline => pipeline.nextSequence = 2 ∧ pipeline.free = [1]) (by decide) with
    ⟨pipeline, reachable, counted, returned⟩
  exact ⟨pipeline, reachable, counted, returned,
    conserved_of_reachable 2 Queue.CustomSPSCLockFreeQueue.twoSlots 1 (by decide)
      reachable⟩

end Pipeline

end FeederNet.Receiver
