import FeederNet.Receiver.Pipeline
import Mathlib.Data.List.Perm.Basic

/-! # The steps of the receiver pipeline

What a step of each thread does to the buffers and the queues: it takes buffers from the
pool or gives them back, or it is one step of an `enqueue` or a `dequeue`.
-/

namespace FeederNet.Receiver

def MulticastReceiver.held : MulticastReceiver → List Nat
  | .receiving msg | .returning msg | .enqueueing msg => [msg]
  | .looping | .threw | .stopped => []

def Sequencer.held : Sequencer → List Nat
  | .polling | .stopped => []
  | .dispatching msg | .returning msg | .requesting msg | .waiting msg _ _
  | .enqueueing msg => [msg]
  | .receiving msg recovered _ _ | .discarding msg recovered _ _ _ =>
      msg :: recovered.toList
  | .checking msg recovered _ _ | .enqueueingRecovered msg recovered _ _ =>
      [msg, recovered]
  | .threw held => held

def Sequencer.passes : Sequencer → Option Nat
  | .enqueueing msg => some msg
  | .enqueueingRecovered _ recovered _ _ => some recovered
  | _ => none

namespace Pipeline

variable {capacity : PowerOfTwo} {commitBatchSize : Nat} {pipeline next : Pipeline}

inductive ReceiverStepped (capacity : PowerOfTwo) (pipeline : Pipeline) :
    ReceiverEvent → Pipeline → Prop
  /-- Only buffers of the pool and of the receiver's hand change places, and only those in
  hand are written to. -/
  | moves (event : ReceiverEvent) (free : List Nat) (contents : Nat → Word64)
      (receiver : MulticastReceiver) (idle : ∀ msg, pipeline.receiver ≠ .enqueueing msg)
      (queues : event ≠ .enqueue)
      (moved : (free ++ receiver.held).Perm (pipeline.free ++ pipeline.receiver.held))
      (numbers : ∀ msg ∉ pipeline.receiver.held, contents msg = pipeline.sequenceNumber msg) :
      ReceiverStepped capacity pipeline event { pipeline with
        free := free
        sequenceNumber := contents
        receiver := receiver }
  | enqueue (msg : Nat) (queue : Queue.CustomSPSCLockFreeQueue.State Nat)
      (phase : pipeline.receiver = .enqueueing msg)
      (advanced : Queue.CustomSPSCLockFreeQueue.step capacity pipeline.toSequencer
        (Queue.CustomSPSCLockFreeQueue.enqueueEvent msg
          pipeline.toSequencer.producer) = some queue) :
      ReceiverStepped capacity pipeline .enqueue { pipeline with
        toSequencer := queue
        receiver := if queue.producer = .idle then .looping else .enqueueing msg }

inductive SequencerStepped (capacity : PowerOfTwo) (pipeline : Pipeline) :
    SequencerEvent → Pipeline → Prop
  | moves (event : SequencerEvent) (free : List Nat) (contents : Nat → Word64)
      (sequencer : Sequencer) (idle : pipeline.sequencer.passes = none)
      (queues : event ≠ .enqueue ∧ event ≠ .dequeue)
      (moved : (free ++ sequencer.held).Perm (pipeline.free ++ pipeline.sequencer.held))
      (numbers : ∀ msg ∉ pipeline.sequencer.held,
        contents msg = pipeline.sequenceNumber msg) :
      SequencerStepped capacity pipeline event { pipeline with
        free := free
        sequenceNumber := contents
        sequencer := sequencer }
  | dequeue (queue : Queue.CustomSPSCLockFreeQueue.State Nat)
      (phase : pipeline.sequencer = .polling)
      (advanced : Queue.CustomSPSCLockFreeQueue.step capacity pipeline.toSequencer
        (Queue.CustomSPSCLockFreeQueue.dequeueEvent
          pipeline.toSequencer.consumer) = some queue) :
      SequencerStepped capacity pipeline .dequeue { pipeline with
        toSequencer := queue
        sequencer :=
          match pipeline.toSequencer.returns capacity with
          | some (some msg) => .dispatching msg
          | _ => .polling }
  /-- `sequencer` is where the thread goes once `enqueue` has returned. -/
  | enqueue (msg : Nat) (sequencer : Sequencer)
      (queue : Queue.CustomSPSCLockFreeQueue.State Nat)
      (passes : pipeline.sequencer.passes = some msg)
      (after : (msg :: sequencer.held).Perm pipeline.sequencer.held)
      (advanced : Queue.CustomSPSCLockFreeQueue.step capacity pipeline.toDB
        (Queue.CustomSPSCLockFreeQueue.enqueueEvent msg
          pipeline.toDB.producer) = some queue) :
      SequencerStepped capacity pipeline .enqueue
        (if queue.producer = .idle then
          { pipeline with
            toDB := queue
            sequencer := sequencer
            nextSequence := pipeline.nextSequence + 1 }
        else { pipeline with toDB := queue })

inductive DBStepped (capacity : PowerOfTwo) (commitBatchSize : Nat) (pipeline : Pipeline) :
    DBEvent → Pipeline → Prop
  | stop (phase : pipeline.db = .polling) :
      DBStepped capacity commitBatchSize pipeline .stop
        { pipeline with db := .flushing 0 true }
  | dequeue (queue : Queue.CustomSPSCLockFreeQueue.State Nat) (batch : List Nat) (db : DB)
      (phase : pipeline.db = .polling)
      (taken : batch = pipeline.batch ++ (pipeline.toDB.returns capacity).join.toList)
      (goesOn : db = .polling ∨ db = .flushing 0 false)
      (advanced : Queue.CustomSPSCLockFreeQueue.step capacity pipeline.toDB
        (Queue.CustomSPSCLockFreeQueue.dequeueEvent
          pipeline.toDB.consumer) = some queue) :
      DBStepped capacity commitBatchSize pipeline .dequeue { pipeline with
        toDB := queue
        batch := batch
        db := db }
  | deallocate (index : Nat) (stopping : Bool) (msg : Nat)
      (phase : pipeline.db = .flushing index stopping)
      (found : pipeline.batch[index]? = some msg) :
      DBStepped capacity commitBatchSize pipeline .deallocate { pipeline with
        free := msg :: pipeline.free
        db := .flushing (index + 1) stopping }
  | finish (index : Nat) (stopping : Bool) (phase : pipeline.db = .flushing index stopping)
      (finished : pipeline.batch[index]? = none) :
      DBStepped capacity commitBatchSize pipeline .deallocate { pipeline with
        batch := []
        db := if stopping then .stopped else .polling }

/-! ## The receiver -/

theorem overwrite_of_not_mem {msg : Nat} {held : List Nat} (mine : msg ∈ held)
    (contents : Word64) (other : Nat) (elsewhere : other ∉ held) :
    (pipeline.overwrite msg contents).sequenceNumber other =
      pipeline.sequenceNumber other := by
  have different : other ≠ msg := by
    rintro rfl
    exact elsewhere mine
  exact Function.update_of_ne different _ _

theorem perm_erase_append {msg : Nat} {free : List Nat} (member : msg ∈ free)
    (rest : List Nat) : (free.erase msg ++ msg :: rest).Perm (free ++ rest) := by
  refine List.perm_middle.trans ?_
  exact ((List.perm_cons_erase member).symm).append_right rest

theorem receiverStepped_of_receiverStep {event : ReceiverEvent}
    (stepped : pipeline.receiverStep capacity event = some next) :
    ReceiverStepped capacity pipeline event next := by
  cases event with
  | stop =>
      simp only [receiverStep] at stepped
      split at stepped <;> cases stepped
      rename_i phase
      refine .moves _ _ _ .stopped (by simp [phase]) nofun ?_ fun _ _ => rfl
      rw [phase]
      exact List.Perm.refl _
  | allocate msg =>
      simp only [receiverStep] at stepped
      split at stepped
      · rename_i phase
        split at stepped <;> cases stepped
        rename_i member
        refine .moves _ _ _ (.receiving msg) (by simp [phase]) nofun ?_ fun _ _ => rfl
        rw [phase]
        exact perm_erase_append member []
      · cases stepped
  | exhausted =>
      simp only [receiverStep] at stepped
      split at stepped
      · rename_i phase
        split at stepped <;> cases stepped
        refine .moves _ _ _ .threw (by simp [phase]) nofun ?_ fun _ _ => rfl
        rw [phase]
        exact List.Perm.refl _
      · cases stepped
  | received contents =>
      simp only [receiverStep] at stepped
      split at stepped <;> cases stepped
      rename_i msg phase
      refine .moves _ _ _ (.enqueueing msg) (by simp [phase]) nofun ?_
        (overwrite_of_not_mem ?_ contents)
      · rw [phase]
        exact List.Perm.refl _
      · rw [phase]
        exact List.mem_singleton_self msg
  | receiveFailed contents =>
      simp only [receiverStep] at stepped
      split at stepped <;> cases stepped
      rename_i msg phase
      refine .moves _ _ _ (.returning msg) (by simp [phase]) nofun ?_
        (overwrite_of_not_mem ?_ contents)
      · rw [phase]
        exact List.Perm.refl _
      · rw [phase]
        exact List.mem_singleton_self msg
  | deallocate =>
      simp only [receiverStep] at stepped
      split at stepped <;> cases stepped
      rename_i msg phase
      refine .moves _ _ _ .looping (by simp [phase]) nofun ?_ fun _ _ => rfl
      rw [phase]
      exact List.perm_middle.symm
  | enqueue =>
      simp only [receiverStep] at stepped
      split at stepped
      · rename_i msg phase
        rcases Option.map_eq_some_iff.mp stepped with ⟨queue, advanced, rfl⟩
        exact .enqueue msg queue phase advanced
      · cases stepped

/-! ## The sequencer -/

theorem dispatch_held (msg : Nat) : (pipeline.dispatch msg).held = [msg] := by
  unfold dispatch
  split
  · rfl
  · split <;> rfl

theorem receiveLoop_held (msg : Nat) (numMessages messagesReceived : Word64) :
    (receiveLoop msg numMessages messagesReceived).held = [msg] := by
  unfold receiveLoop
  split <;> rfl

theorem discarded_held (msg : Nat) (recovered : Option Nat)
    (numMessages messagesReceived : Word64) (closed : Bool) :
    (discarded msg recovered numMessages messagesReceived closed).held = [msg] := by
  cases recovered with
  | none => rfl
  | some recovered =>
      cases closed with
      | true => rfl
      | false => exact receiveLoop_held _ _ _

theorem SequencerStepped.goto {event : SequencerEvent} (sequencer : Sequencer)
    (idle : pipeline.sequencer.passes = none) (queues : event ≠ .enqueue ∧ event ≠ .dequeue)
    (held : sequencer.held = pipeline.sequencer.held) :
    SequencerStepped capacity pipeline event { pipeline with sequencer := sequencer } := by
  refine .moves event _ _ sequencer idle queues ?_ fun _ _ => rfl
  rw [held]

theorem SequencerStepped.overwrite {event : SequencerEvent} {msg recovered : Nat}
    {numMessages messagesReceived : Word64}
    (phase : pipeline.sequencer =
      .receiving msg (some recovered) numMessages messagesReceived)
    (contents : Word64) (sequencer : Sequencer)
    (queues : event ≠ .enqueue ∧ event ≠ .dequeue)
    (held : sequencer.held = [msg, recovered]) :
    SequencerStepped capacity pipeline event
      { pipeline.overwrite recovered contents with sequencer := sequencer } := by
  refine .moves event _ _ sequencer (by rw [phase]; rfl) queues ?_
    (overwrite_of_not_mem ?_ contents)
  · rw [held, phase]
    exact List.Perm.refl _
  · rw [phase]
    exact List.mem_cons_of_mem _ (List.mem_singleton_self recovered)

theorem sequencerStepped_of_sequencerStep {event : SequencerEvent}
    (stepped : pipeline.sequencerStep capacity event = some next) :
    SequencerStepped capacity pipeline event next := by
  cases event with
  | stop =>
      simp only [sequencerStep] at stepped
      split at stepped <;> cases stepped
      rename_i phase _
      exact .goto .stopped (by rw [phase]; rfl) ⟨nofun, nofun⟩ (by rw [phase]; rfl)
  | dequeue =>
      simp only [sequencerStep] at stepped
      split at stepped
      · rename_i phase
        rcases Option.map_eq_some_iff.mp stepped with ⟨queue, advanced, rfl⟩
        exact .dequeue queue phase advanced
      · cases stepped
  | dispatch =>
      simp only [sequencerStep] at stepped
      split at stepped <;> cases stepped
      rename_i msg phase
      exact .goto _ (by rw [phase]; rfl) ⟨nofun, nofun⟩
        (by rw [phase]; exact dispatch_held msg)
  | deallocate =>
      simp only [sequencerStep] at stepped
      split at stepped
      · cases stepped
        rename_i msg phase
        refine .moves _ _ _ .polling (by rw [phase]; rfl) ⟨nofun, nofun⟩ ?_ fun _ _ => rfl
        rw [phase]
        exact List.perm_middle.symm
      · cases stepped
        rename_i msg recovered numMessages messagesReceived closed phase
        refine .moves _ _ _ _ (by rw [phase]; rfl) ⟨nofun, nofun⟩ ?_ fun _ _ => rfl
        rw [phase, discarded_held]
        refine List.perm_iff_count.mpr fun other => ?_
        simp only [Sequencer.held, List.count_append, List.count_cons, List.count_nil]
        omega
      · cases stepped
  | sendRequest =>
      simp only [sequencerStep] at stepped
      split at stepped <;> cases stepped
      rename_i msg phase
      exact .goto _ (by rw [phase]; rfl) ⟨nofun, nofun⟩
        (by rw [phase]; exact receiveLoop_held _ _ _)
  | requestFailed =>
      simp only [sequencerStep] at stepped
      split at stepped <;> cases stepped
      rename_i msg phase
      exact .goto (.threw [msg]) (by rw [phase]; rfl) ⟨nofun, nofun⟩ (by rw [phase]; rfl)
  | timeout =>
      simp only [sequencerStep] at stepped
      split at stepped <;> cases stepped
      rename_i phase
      exact .goto pipeline.sequencer (by rw [phase]; rfl) ⟨nofun, nofun⟩ rfl
  | epollFailed =>
      simp only [sequencerStep] at stepped
      split at stepped <;> cases stepped
      rename_i msg _ _ phase
      exact .goto (.enqueueing msg) (by rw [phase]; rfl) ⟨nofun, nofun⟩ (by rw [phase]; rfl)
  | allocate recovered =>
      simp only [sequencerStep] at stepped
      split at stepped
      · rename_i msg numMessages messagesReceived phase
        split at stepped <;> cases stepped
        rename_i member
        refine .moves _ _ _ (.receiving msg (some recovered) _ _) (by rw [phase]; rfl)
          ⟨nofun, nofun⟩ ?_ fun _ _ => rfl
        rw [phase]
        have taken := perm_erase_append member [msg]
        refine List.Perm.trans ?_ taken
        exact (List.Perm.swap recovered msg []).append_left _
      · cases stepped
  | exhausted =>
      simp only [sequencerStep] at stepped
      split at stepped
      · rename_i msg numMessages messagesReceived phase
        split at stepped <;> cases stepped
        exact .goto (.receiving msg none _ _) (by rw [phase]; rfl) ⟨nofun, nofun⟩
          (by rw [phase]; rfl)
      · cases stepped
  | received contents =>
      simp only [sequencerStep] at stepped
      split at stepped <;> cases stepped
      rename_i msg recovered numMessages messagesReceived phase
      exact .overwrite phase contents (.checking msg recovered _ _) ⟨nofun, nofun⟩ rfl
  | receiveShort contents =>
      simp only [sequencerStep] at stepped
      split at stepped <;> cases stepped
      rename_i msg recovered numMessages messagesReceived phase
      exact .overwrite phase contents (.discarding msg (some recovered) _ _ false)
        ⟨nofun, nofun⟩ rfl
  | receiveClosed contents =>
      simp only [sequencerStep] at stepped
      split at stepped
      · cases stepped
        rename_i msg recovered numMessages messagesReceived phase
        exact .overwrite phase contents (.discarding msg (some recovered) _ _ true)
          ⟨nofun, nofun⟩ rfl
      · cases stepped
        rename_i msg numMessages messagesReceived phase
        exact .goto (.discarding msg none _ _ true) (by rw [phase]; rfl) ⟨nofun, nofun⟩
          (by rw [phase]; rfl)
      · cases stepped
  | onRecoveredMsg =>
      simp only [sequencerStep] at stepped
      split at stepped
      · rename_i msg recovered numMessages messagesReceived phase
        split at stepped <;> cases stepped
        · exact .goto (.threw [msg, recovered]) (by rw [phase]; rfl) ⟨nofun, nofun⟩
            (by rw [phase]; rfl)
        · exact .goto (.enqueueingRecovered msg recovered _ _) (by rw [phase]; rfl)
            ⟨nofun, nofun⟩ (by rw [phase]; rfl)
      · cases stepped
  | enqueue =>
      simp only [sequencerStep] at stepped
      split at stepped
      · rename_i msg phase
        rcases Option.map_eq_some_iff.mp stepped with ⟨queue, advanced, rfl⟩
        exact .enqueue msg .polling queue (by rw [phase]; rfl)
          (by rw [phase]; exact List.Perm.refl _) advanced
      · rename_i msg recovered numMessages messagesReceived phase
        rcases Option.map_eq_some_iff.mp stepped with ⟨queue, advanced, rfl⟩
        refine .enqueue recovered _ queue (by rw [phase]; rfl) ?_ advanced
        rw [phase, receiveLoop_held]
        exact List.Perm.swap _ _ _
      · cases stepped

/-! ## The database manager -/

theorem dbStepped_of_dbStep {event : DBEvent}
    (stepped : pipeline.dbStep capacity commitBatchSize event = some next) :
    DBStepped capacity commitBatchSize pipeline event next := by
  cases event with
  | stop =>
      simp only [dbStep] at stepped
      split at stepped <;> cases stepped
      rename_i phase _
      exact .stop phase
  | dequeue =>
      simp only [dbStep] at stepped
      split at stepped
      · rename_i phase
        rcases Option.map_eq_some_iff.mp stepped with ⟨queue, advanced, rfl⟩
        split
        · rename_i result
          exact .dequeue queue _ _ phase (by simp [result]) (Or.inl phase) advanced
        · rename_i result
          refine .dequeue queue _ _ phase (by simp [result]) ?_ advanced
          split
          · exact Or.inl rfl
          · exact Or.inr rfl
        · rename_i msg result
          refine .dequeue queue _ _ phase (by simp [result]) ?_ advanced
          split
          · exact Or.inr rfl
          · exact Or.inl rfl
      · cases stepped
  | deallocate =>
      simp only [dbStep] at stepped
      split at stepped
      · rename_i index stopping phase
        split at stepped <;> cases stepped
        · rename_i msg found
          exact .deallocate index stopping msg phase found
        · rename_i finished
          exact .finish index stopping phase finished
      · cases stepped

end Pipeline

end FeederNet.Receiver
