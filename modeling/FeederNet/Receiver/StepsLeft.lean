import FeederNet.Receiver.RunTradeReceiver
import FeederNet.Receiver.Steps

/-! # Steps left

How many steps each thread of `RunTradeReceiver` still takes before it has left its loop,
when its flag is no longer set. One step of the thread takes one away.
-/

namespace FeederNet.Receiver.RunTradeReceiver

open Queue (CustomSPSCLockFreeQueue.State CustomSPSCLockFreeQueue.Producer
  CustomSPSCLockFreeQueue.Consumer CustomSPSCLockFreeQueue.step
  CustomSPSCLockFreeQueue.enqueueEvent CustomSPSCLockFreeQueue.dequeueEvent)

/-! ## Steps left -/

def producerLeft : CustomSPSCLockFreeQueue.Producer Nat → Nat
  | .idle => 4
  | .loadedTail _ _ => 3
  | .admitted _ _ => 2
  | .written _ _ => 1

def consumerLeft : CustomSPSCLockFreeQueue.Consumer → Nat
  | .idle => 4
  | .loadedHead _ => 3
  | .nonEmpty => 2
  | .claimed _ => 1

def receiverLeft (tested : Bool) (producer : CustomSPSCLockFreeQueue.Producer Nat) :
    MulticastReceiver → Nat
  | .looping => if tested then 7 else 1
  | .receiving _ => 6
  | .returning _ => 2
  | .enqueueing _ => producerLeft producer + 1
  | .threw | .stopped => 0

def missing : Sequencer → Nat
  | .waiting _ numMessages messagesReceived
  | .receiving _ _ numMessages messagesReceived
  | .discarding _ _ numMessages messagesReceived false
  | .checking _ _ numMessages messagesReceived
  | .enqueueingRecovered _ _ numMessages messagesReceived =>
      numMessages.toNat - messagesReceived.toNat
  | _ => 0

def sequencerLeft (tested : Bool) (consumer : CustomSPSCLockFreeQueue.Consumer)
    (producer : CustomSPSCLockFreeQueue.Producer Nat) : Sequencer → Nat
  | .polling => if consumer = .idle ∧ tested = false then 1 else consumerLeft consumer + 11
  | .dispatching _ => 11
  | .returning _ => 2
  | .requesting _ => 10
  | .waiting _ _ _ => 9
  | .receiving _ _ _ _ => 8
  | .discarding _ _ _ _ false => 10
  | .discarding _ _ _ _ true => 6
  | .checking _ _ _ _ => 7
  | .enqueueingRecovered _ _ _ _ => producerLeft producer + 2
  | .enqueueing _ => producerLeft producer + 1
  | .threw _ | .stopped => 0

def dbLeft (tested : Bool) (consumer : CustomSPSCLockFreeQueue.Consumer) (length : Nat) :
    DB → Nat
  | .polling =>
      if consumer = .idle ∧ tested = false then length + 2
      else consumerLeft consumer + length + 4
  | .flushing index true => length - index + 1
  | .flushing index false => length - index + 3
  | .stopped => 0

def sequencerWork (tested : Bool) (consumer : CustomSPSCLockFreeQueue.Consumer)
    (producer : CustomSPSCLockFreeQueue.Producer Nat) (sequencer : Sequencer) : Nat :=
  8 * missing sequencer + sequencerLeft tested consumer producer sequencer

def mainLeft : Main → Nat
  | .joined => 0
  | _ => 1

def State.left (state : State) : Nat :=
  receiverLeft (state.tested .receiver) state.pipeline.toSequencer.producer
      state.pipeline.receiver +
    sequencerWork (state.tested .sequencer) state.pipeline.toSequencer.consumer
      state.pipeline.toDB.producer state.pipeline.sequencer +
    dbLeft (state.tested .db) state.pipeline.toDB.consumer state.pipeline.batch.length
      state.pipeline.db +
    mainLeft state.main

def requested (pipeline : Pipeline) : Nat :=
  match pipeline.sequencer with
  | .requesting msg =>
      (pipeline.sequenceNumber msg - 1 - pipeline.nextSequence + 1).toNat
  | _ => 0

/-- What a recovery adds to the steps: eight for each message that it asks for, and those
of its timeouts and of its partial messages. -/
def recoverySteps (pipeline : Pipeline) : SequencerEvent → Nat
  | .sendRequest => 8 * requested pipeline
  | .timeout => 1
  | .receiveShort _ => 3
  | _ => 0

def stepsAdded (state : State) : Event → Nat
  | .thread (.sequencer event) => recoverySteps state.pipeline event
  | _ => 0

/-- A recovery goes on only while a message is missing. -/
def Expects : Sequencer → Prop
  | .waiting _ numMessages messagesReceived
  | .receiving _ _ numMessages messagesReceived
  | .discarding _ _ numMessages messagesReceived false
  | .checking _ _ numMessages messagesReceived
  | .enqueueingRecovered _ _ numMessages messagesReceived => messagesReceived < numMessages
  | _ => True

structure Settled (pipeline : Pipeline) : Prop where
  sequencer : pipeline.sequencer ≠ .polling → pipeline.toSequencer.consumer = .idle
  db : pipeline.db ≠ .polling → pipeline.toDB.consumer = .idle
  expects : Expects pipeline.sequencer

/-! ## Calls -/

section Calls

variable {capacity : PowerOfTwo} {queue next : CustomSPSCLockFreeQueue.State Nat}

theorem enqueue_left {msg : Nat}
    (advanced : CustomSPSCLockFreeQueue.step capacity queue
      (CustomSPSCLockFreeQueue.enqueueEvent msg queue.producer) = some next) :
    next.consumer = queue.consumer ∧
      (next.producer ≠ .idle → producerLeft next.producer + 1 ≤ producerLeft queue.producer) := by
  cases phase : queue.producer <;>
    rw [phase, CustomSPSCLockFreeQueue.enqueueEvent] at advanced <;>
    cases Queue.CustomSPSCLockFreeQueue.Step.of_step advanced <;>
    simp [producerLeft]

/-- One step of `dequeue` brings it nearer to its end, and it returns at its end. -/
theorem dequeue_left
    (advanced : CustomSPSCLockFreeQueue.step capacity queue
      (CustomSPSCLockFreeQueue.dequeueEvent queue.consumer) = some next) :
    next.producer = queue.producer ∧
      (next.consumer = .idle ∨ queue.returns capacity = none ∧
        consumerLeft next.consumer + 1 ≤ consumerLeft queue.consumer) := by
  cases phase : queue.consumer with
  | idle =>
      rw [phase] at advanced
      cases Queue.CustomSPSCLockFreeQueue.Step.of_step advanced with
      | dequeue _ => exact ⟨rfl, .inr ⟨by simp [CustomSPSCLockFreeQueue.State.returns, phase],
          by simp [consumerLeft]⟩⟩
  | loadedHead head =>
      rw [phase] at advanced
      cases Queue.CustomSPSCLockFreeQueue.Step.of_step advanced with
      | empty _ _ => exact ⟨rfl, .inl rfl⟩
      | nonEmpty loaded different =>
          cases phase.symm.trans loaded
          exact ⟨rfl, .inr ⟨by simp [CustomSPSCLockFreeQueue.State.returns, phase, different],
            by simp [consumerLeft]⟩⟩
  | nonEmpty =>
      rw [phase] at advanced
      cases Queue.CustomSPSCLockFreeQueue.Step.of_step advanced with
      | fetchAdd _ => exact ⟨rfl, .inr ⟨by simp [CustomSPSCLockFreeQueue.State.returns, phase],
          by simp [consumerLeft]⟩⟩
  | claimed head =>
      rw [phase] at advanced
      cases Queue.CustomSPSCLockFreeQueue.Step.of_step advanced with
      | readSlot _ => exact ⟨rfl, .inl rfl⟩

theorem producerLeft_le (producer : CustomSPSCLockFreeQueue.Producer Nat) :
    1 ≤ producerLeft producer ∧ producerLeft producer ≤ 4 := by
  cases producer <;> simp [producerLeft]

theorem consumerLeft_le (consumer : CustomSPSCLockFreeQueue.Consumer) :
    1 ≤ consumerLeft consumer ∧ consumerLeft consumer ≤ 4 := by
  cases consumer <;> simp [consumerLeft]

end Calls

/-! ## The threads -/

section Threads

variable {capacity : PowerOfTwo} {commitBatchSize : Nat} {pipeline next : Pipeline}
  {tested : Bool}

structure ReceiverFrame (pipeline next : Pipeline) : Prop where
  consumer : next.toSequencer.consumer = pipeline.toSequencer.consumer
  sequencer : next.sequencer = pipeline.sequencer
  toDB : next.toDB = pipeline.toDB
  batch : next.batch = pipeline.batch
  db : next.db = pipeline.db

theorem receiver_frame {event : ReceiverEvent}
    (stepped : pipeline.receiverStep capacity event = some next) :
    ReceiverFrame pipeline next := by
  cases Pipeline.receiverStepped_of_receiverStep stepped with
  | moves => exact ⟨rfl, rfl, rfl, rfl, rfl⟩
  | enqueue msg queue phase advanced =>
      exact ⟨(enqueue_left advanced).1, rfl, rfl, rfl, rfl⟩

theorem receiver_left {event : ReceiverEvent}
    (allowed : event ≠ .stop → pipeline.receiver = .looping → tested = true)
    (stepped : pipeline.receiverStep capacity event = some next) :
    receiverLeft false next.toSequencer.producer next.receiver + 1 ≤
      receiverLeft tested pipeline.toSequencer.producer pipeline.receiver := by
  have bounds := producerLeft_le pipeline.toSequencer.producer
  cases event with
  | stop =>
      simp only [Pipeline.receiverStep] at stepped
      split at stepped <;> cases stepped
      rename_i phase
      rw [phase]
      simp only [receiverLeft]
      split <;> omega
  | allocate msg =>
      simp only [Pipeline.receiverStep] at stepped
      split at stepped
      · rename_i phase
        split at stepped <;> cases stepped
        have entered := allowed (by rintro ⟨⟩) phase
        rw [phase, entered]
        simp [receiverLeft]
      · cases stepped
  | exhausted =>
      simp only [Pipeline.receiverStep] at stepped
      split at stepped
      · rename_i phase
        split at stepped <;> cases stepped
        have entered := allowed (by rintro ⟨⟩) phase
        rw [phase, entered]
        simp [receiverLeft]
      · cases stepped
  | received contents =>
      simp only [Pipeline.receiverStep] at stepped
      split at stepped <;> cases stepped
      rename_i msg phase
      rw [phase]
      simp only [receiverLeft, Pipeline.overwrite]
      omega
  | receiveFailed contents =>
      simp only [Pipeline.receiverStep] at stepped
      split at stepped <;> cases stepped
      rename_i msg phase
      rw [phase]
      simp [receiverLeft]
  | deallocate =>
      simp only [Pipeline.receiverStep] at stepped
      split at stepped <;> cases stepped
      rename_i msg phase
      rw [phase]
      simp [receiverLeft]
  | enqueue =>
      simp only [Pipeline.receiverStep] at stepped
      split at stepped
      · rename_i msg phase
        rcases Option.map_eq_some_iff.mp stepped with ⟨queue, advanced, rfl⟩
        have nearer := (enqueue_left advanced).2
        rw [phase]
        by_cases returned : queue.producer = .idle
        · simp only [returned, if_true, receiverLeft, Bool.false_eq_true, if_false]
          omega
        · simp only [if_neg returned, receiverLeft]
          exact Nat.add_le_add_right (nearer returned) 1
      · cases stepped

structure SequencerFrame (pipeline next : Pipeline) : Prop where
  receiver : next.receiver = pipeline.receiver
  producer : next.toSequencer.producer = pipeline.toSequencer.producer
  consumer : next.toDB.consumer = pipeline.toDB.consumer
  batch : next.batch = pipeline.batch
  db : next.db = pipeline.db

theorem sequencer_frame {event : SequencerEvent}
    (stepped : pipeline.sequencerStep capacity event = some next) :
    SequencerFrame pipeline next := by
  cases Pipeline.sequencerStepped_of_sequencerStep stepped with
  | moves => exact ⟨rfl, rfl, rfl, rfl, rfl⟩
  | dequeue queue phase advanced => exact ⟨rfl, (dequeue_left advanced).1, rfl, rfl, rfl⟩
  | enqueue msg sequencer queue passes after advanced =>
      split <;> exact ⟨rfl, rfl, (enqueue_left advanced).1, rfl, rfl⟩

structure LoopTested (sequencer : Sequencer) (missing : Nat) : Prop where
  away : sequencer ≠ .polling
  expects : Expects sequencer
  work : ∀ tested consumer producer,
    sequencerWork tested consumer producer sequencer ≤ 8 * missing + 9

theorem loopTested_receiveLoop (msg : Nat) (numMessages messagesReceived : Word64) :
    LoopTested (Pipeline.receiveLoop msg numMessages messagesReceived)
      (numMessages.toNat - messagesReceived.toNat) := by
  rw [Pipeline.receiveLoop]
  split
  · rename_i more
    exact ⟨by rintro ⟨⟩, more, fun _ _ _ => le_rfl⟩
  · refine ⟨by rintro ⟨⟩, trivial, fun _ _ producer => ?_⟩
    have bounds := producerLeft_le producer
    simp only [sequencerWork, missing, sequencerLeft]
    omega

theorem missing_succ {numMessages messagesReceived : Word64}
    (more : messagesReceived < numMessages) :
    numMessages.toNat - (messagesReceived + 1).toNat + 1 =
      numMessages.toNat - messagesReceived.toNat := by
  have below := BitVec.lt_def.mp more
  have bound := numMessages.isLt
  have next : (messagesReceived + 1).toNat = messagesReceived.toNat + 1 := by
    rw [BitVec.toNat_add]
    exact Nat.mod_eq_of_lt (by simp; omega)
  omega

theorem sequencerWork_polling_le (consumer : CustomSPSCLockFreeQueue.Consumer)
    (producer : CustomSPSCLockFreeQueue.Producer Nat) :
    sequencerWork tested consumer producer .polling ≤ consumerLeft consumer + 11 := by
  have bounds := consumerLeft_le consumer
  simp only [sequencerWork, missing, sequencerLeft]
  split <;> omega

theorem sequencerWork_polling {consumer : CustomSPSCLockFreeQueue.Consumer}
    (producer : CustomSPSCLockFreeQueue.Producer Nat)
    (entered : consumer = .idle → tested = true) :
    sequencerWork tested consumer producer .polling = consumerLeft consumer + 11 := by
  have inside : ¬ (consumer = .idle ∧ tested = false) := by
    rintro ⟨idle, untested⟩
    rw [entered idle] at untested
    cases untested
  simp only [sequencerWork, missing, sequencerLeft, if_neg inside]
  omega

structure SequencerNearer (tested : Bool) (pipeline : Pipeline) (event : SequencerEvent)
    (next : Pipeline) : Prop where
  idle : next.sequencer ≠ .polling → next.toSequencer.consumer = .idle
  expects : Expects next.sequencer
  work : sequencerWork false next.toSequencer.consumer next.toDB.producer next.sequencer + 1 ≤
    sequencerWork tested pipeline.toSequencer.consumer pipeline.toDB.producer
      pipeline.sequencer + recoverySteps pipeline event

theorem sequencerNearer_dequeue
    (queue : CustomSPSCLockFreeQueue.State Nat)
    (entered : pipeline.toSequencer.consumer = .idle → tested = true)
    (phase : pipeline.sequencer = .polling)
    (advanced : CustomSPSCLockFreeQueue.step capacity pipeline.toSequencer
      (CustomSPSCLockFreeQueue.dequeueEvent pipeline.toSequencer.consumer) = some queue) :
    SequencerNearer tested pipeline .dequeue { pipeline with
      toSequencer := queue
      sequencer :=
        match pipeline.toSequencer.returns capacity with
        | some (some msg) => .dispatching msg
        | _ => .polling } := by
  have before := sequencerWork_polling pipeline.toDB.producer entered
  have bounds := consumerLeft_le pipeline.toSequencer.consumer
  rcases (dequeue_left advanced).2 with returned | ⟨running, nearer⟩
  · have after : sequencerWork false queue.consumer pipeline.toDB.producer .polling = 1 := by
      simp [sequencerWork, missing, sequencerLeft, returned]
    refine ⟨fun _ => returned, ?_, ?_⟩
    · split <;> trivial
    · rw [phase, before]
      split
      · change 8 * 0 + 11 + 1 ≤ _
        omega
      · change sequencerWork false queue.consumer pipeline.toDB.producer .polling + 1 ≤ _
        omega
  · have after : sequencerWork false queue.consumer pipeline.toDB.producer .polling ≤
        consumerLeft queue.consumer + 11 :=
      sequencerWork_polling_le queue.consumer pipeline.toDB.producer
    simp only [running]
    refine ⟨fun away => absurd rfl away, trivial, ?_⟩
    rw [phase, before]
    change sequencerWork false queue.consumer pipeline.toDB.producer .polling + 1 ≤ _
    omega

theorem SequencerNearer.goto {event : SequencerEvent} (settled : Settled pipeline)
    (away : pipeline.sequencer ≠ .polling) (sequencer : Sequencer)
    (expects : Expects sequencer)
    (work : sequencerWork false .idle pipeline.toDB.producer sequencer + 1 ≤
      sequencerWork tested .idle pipeline.toDB.producer pipeline.sequencer +
        recoverySteps pipeline event)
    (free : List Nat) (contents : Nat → Word64) :
    SequencerNearer tested pipeline event { pipeline with
      free := free
      sequenceNumber := contents
      sequencer := sequencer } := by
  have idle := settled.sequencer away
  refine ⟨fun _ => idle, expects, ?_⟩
  rw [idle]
  exact work

theorem sequencerNearer_deallocate (settled : Settled pipeline)
    (stepped : pipeline.sequencerStep capacity .deallocate = some next) :
    SequencerNearer tested pipeline .deallocate next := by
  have bounds := producerLeft_le pipeline.toDB.producer
  simp only [Pipeline.sequencerStep] at stepped
  split at stepped
  · cases stepped
    rename_i msg phase
    have away : pipeline.sequencer ≠ .polling := by simp [phase]
    refine ⟨fun polling => absurd rfl polling, trivial, ?_⟩
    rw [phase, settled.sequencer away]
    exact le_rfl
  · cases stepped
    rename_i msg recovered numMessages messagesReceived closed phase
    have away : pipeline.sequencer ≠ .polling := by simp [phase]
    cases recovered with
    | none =>
        apply SequencerNearer.goto settled away (.threw [msg]) trivial
        rw [phase]
        cases closed with
        | true =>
            change 0 + 1 ≤ 8 * 0 + 6 + 0
            omega
        | false =>
            change 0 + 1 ≤ 8 * _ + 10 + 0
            omega
    | some recovered =>
        cases closed with
        | true =>
            apply SequencerNearer.goto settled away (.enqueueing msg) trivial
            rw [phase]
            change 8 * 0 + (producerLeft _ + 1) + 1 ≤ 8 * 0 + 6 + 0
            omega
        | false =>
            have loop := loopTested_receiveLoop msg numMessages messagesReceived
            apply SequencerNearer.goto settled away _ loop.expects
            have work := loop.work false .idle pipeline.toDB.producer
            rw [phase]
            change _ + 1 ≤ 8 * (numMessages.toNat - messagesReceived.toNat) + 10 + 0
            omega
  · cases stepped

theorem sequencerNearer_enqueue (settled : Settled pipeline)
    (stepped : pipeline.sequencerStep capacity .enqueue = some next) :
    SequencerNearer tested pipeline .enqueue next := by
  have bounds := producerLeft_le pipeline.toDB.producer
  simp only [Pipeline.sequencerStep] at stepped
  split at stepped
  · rename_i msg phase
    have away : pipeline.sequencer ≠ .polling := by simp [phase]
    have idle := settled.sequencer away
    rcases Option.map_eq_some_iff.mp stepped with ⟨queue, advanced, rfl⟩
    have nearer := (enqueue_left advanced).2
    split
    · refine ⟨fun polling => absurd rfl polling, trivial, ?_⟩
      rw [phase, idle]
      change 1 + 1 ≤ 8 * 0 + (producerLeft _ + 1) + 0
      omega
    · rename_i running
      refine ⟨fun _ => idle, settled.expects, ?_⟩
      have less := nearer running
      simp only [phase]
      change 8 * 0 + (producerLeft _ + 1) + 1 ≤ 8 * 0 + (producerLeft _ + 1) + 0
      omega
  · rename_i msg recovered numMessages messagesReceived phase
    have away : pipeline.sequencer ≠ .polling := by simp [phase]
    have idle := settled.sequencer away
    have expects := settled.expects
    rw [phase] at expects
    rcases Option.map_eq_some_iff.mp stepped with ⟨queue, advanced, rfl⟩
    have nearer := (enqueue_left advanced).2
    split
    · have loop := loopTested_receiveLoop msg numMessages (messagesReceived + 1)
      have fewer := missing_succ expects
      refine ⟨fun _ => idle, loop.expects, ?_⟩
      have work := loop.work false pipeline.toSequencer.consumer queue.producer
      rw [phase]
      change sequencerWork false pipeline.toSequencer.consumer queue.producer
          (Pipeline.receiveLoop msg numMessages (messagesReceived + 1)) + 1 ≤
        8 * (numMessages.toNat - messagesReceived.toNat) + (producerLeft _ + 2) + 0
      omega
    · rename_i running
      refine ⟨fun _ => idle, settled.expects, ?_⟩
      have less := nearer running
      simp only [phase]
      change 8 * (numMessages.toNat - messagesReceived.toNat) + (producerLeft _ + 2) + 1 ≤
        8 * (numMessages.toNat - messagesReceived.toNat) + (producerLeft _ + 2) + 0
      omega
  · cases stepped

/-- A step of the sequencer brings it nearer to leaving its loop, apart from what a recovery
adds. -/
theorem sequencerNearer_of_step {event : SequencerEvent} (settled : Settled pipeline)
    (allowed : event ≠ .stop → pipeline.sequencer = .polling →
      pipeline.toSequencer.consumer = .idle → tested = true)
    (stepped : pipeline.sequencerStep capacity event = some next) :
    SequencerNearer tested pipeline event next := by
  have bounds := producerLeft_le pipeline.toDB.producer
  have expects := settled.expects
  cases event with
  | stop =>
      simp only [Pipeline.sequencerStep] at stepped
      split at stepped <;> cases stepped
      rename_i phase consumer
      refine ⟨fun _ => consumer, trivial, ?_⟩
      rw [phase]
      simp only [sequencerWork, missing, sequencerLeft, consumer]
      split <;> omega
  | dequeue =>
      simp only [Pipeline.sequencerStep] at stepped
      split at stepped
      · rename_i phase
        rcases Option.map_eq_some_iff.mp stepped with ⟨queue, advanced, rfl⟩
        have entered := allowed (by rintro ⟨⟩) phase
        exact sequencerNearer_dequeue queue entered phase advanced
      · cases stepped
  | deallocate => exact sequencerNearer_deallocate settled stepped
  | enqueue => exact sequencerNearer_enqueue settled stepped
  | dispatch =>
      simp only [Pipeline.sequencerStep] at stepped
      split at stepped <;> cases stepped
      rename_i msg phase
      have away : pipeline.sequencer ≠ .polling := by simp [phase]
      have decided : Expects (pipeline.dispatch msg) ∧
          sequencerWork false .idle pipeline.toDB.producer (pipeline.dispatch msg) ≤ 10 := by
        rw [Pipeline.dispatch]
        split
        · exact ⟨trivial, le_rfl⟩
        · split
          · refine ⟨trivial, ?_⟩
            change 8 * 0 + 2 ≤ 10
            omega
          · refine ⟨trivial, ?_⟩
            change 8 * 0 + (producerLeft _ + 1) ≤ 10
            omega
      apply SequencerNearer.goto settled away _ decided.1
      rw [phase]
      exact Nat.succ_le_succ decided.2
  | sendRequest =>
      simp only [Pipeline.sequencerStep] at stepped
      split at stepped <;> cases stepped
      rename_i msg phase
      have away : pipeline.sequencer ≠ .polling := by simp [phase]
      have loop := loopTested_receiveLoop msg
        (pipeline.sequenceNumber msg - 1 - pipeline.nextSequence + 1) 0
      have work := loop.work false .idle pipeline.toDB.producer
      have asked : recoverySteps pipeline .sendRequest =
          8 * (pipeline.sequenceNumber msg - 1 - pipeline.nextSequence + 1).toNat := by
        simp only [recoverySteps, requested, phase]
      apply SequencerNearer.goto settled away _ loop.expects
      rw [phase, asked]
      change _ + 1 ≤ 8 * 0 + 10 + _
      omega
  | requestFailed =>
      simp only [Pipeline.sequencerStep] at stepped
      split at stepped <;> cases stepped
      rename_i msg phase
      apply SequencerNearer.goto settled (by simp [phase]) (.threw [msg]) trivial
      rw [phase]
      exact Nat.le_add_left 1 9
  | timeout =>
      simp only [Pipeline.sequencerStep] at stepped
      split at stepped <;> cases stepped
      rename_i msg numMessages messagesReceived phase
      have away : pipeline.sequencer ≠ .polling := by simp [phase]
      refine ⟨settled.sequencer, expects, ?_⟩
      rw [phase]
      exact le_rfl
  | epollFailed =>
      simp only [Pipeline.sequencerStep] at stepped
      split at stepped <;> cases stepped
      rename_i msg numMessages messagesReceived phase
      apply SequencerNearer.goto settled (by simp [phase]) (.enqueueing msg) trivial
      rw [phase]
      change 8 * 0 + (producerLeft _ + 1) + 1 ≤ 8 * _ + 9 + 0
      omega
  | allocate recovered =>
      simp only [Pipeline.sequencerStep] at stepped
      split at stepped
      · rename_i msg numMessages messagesReceived phase
        split at stepped <;> cases stepped
        rw [phase] at expects
        apply SequencerNearer.goto settled (by simp [phase])
          (.receiving msg (some recovered) numMessages messagesReceived) expects
        rw [phase]
        exact le_rfl
      · cases stepped
  | exhausted =>
      simp only [Pipeline.sequencerStep] at stepped
      split at stepped
      · rename_i msg numMessages messagesReceived phase
        split at stepped <;> cases stepped
        rw [phase] at expects
        apply SequencerNearer.goto settled (by simp [phase])
          (.receiving msg none numMessages messagesReceived) expects
        rw [phase]
        exact le_rfl
      · cases stepped
  | received contents =>
      simp only [Pipeline.sequencerStep] at stepped
      split at stepped <;> cases stepped
      rename_i msg recovered numMessages messagesReceived phase
      rw [phase] at expects
      apply SequencerNearer.goto settled (by simp [phase])
        (.checking msg recovered numMessages messagesReceived) expects
      rw [phase]
      exact le_rfl
  | receiveShort contents =>
      simp only [Pipeline.sequencerStep] at stepped
      split at stepped <;> cases stepped
      rename_i msg recovered numMessages messagesReceived phase
      rw [phase] at expects
      apply SequencerNearer.goto settled (by simp [phase])
        (.discarding msg (some recovered) numMessages messagesReceived false) expects
      rw [phase]
      exact le_rfl
  | receiveClosed contents =>
      simp only [Pipeline.sequencerStep] at stepped
      split at stepped <;> cases stepped
      · rename_i msg recovered numMessages messagesReceived phase
        apply SequencerNearer.goto settled (by simp [phase])
          (.discarding msg (some recovered) numMessages messagesReceived true) trivial
        rw [phase]
        change 8 * 0 + 6 + 1 ≤ 8 * _ + 8 + 0
        omega
      · rename_i msg numMessages messagesReceived phase
        apply SequencerNearer.goto settled (by simp [phase])
          (.discarding msg none numMessages messagesReceived true) trivial
        rw [phase]
        change 8 * 0 + 6 + 1 ≤ 8 * _ + 8 + 0
        omega
  | onRecoveredMsg =>
      simp only [Pipeline.sequencerStep] at stepped
      split at stepped
      · rename_i msg recovered numMessages messagesReceived phase
        rw [phase] at expects
        split at stepped <;> cases stepped
        · apply SequencerNearer.goto settled (by simp [phase]) (.threw [msg, recovered]) trivial
          rw [phase]
          change 0 + 1 ≤ 8 * _ + 7 + 0
          omega
        · apply SequencerNearer.goto settled (by simp [phase])
            (.enqueueingRecovered msg recovered numMessages messagesReceived) expects
          rw [phase]
          change 8 * (numMessages.toNat - messagesReceived.toNat) + (producerLeft _ + 2) + 1 ≤
            8 * (numMessages.toNat - messagesReceived.toNat) + 7 + 0
          omega
      · cases stepped

structure DBFrame (pipeline next : Pipeline) : Prop where
  receiver : next.receiver = pipeline.receiver
  toSequencer : next.toSequencer = pipeline.toSequencer
  sequencer : next.sequencer = pipeline.sequencer
  producer : next.toDB.producer = pipeline.toDB.producer

theorem db_frame {event : DBEvent}
    (stepped : pipeline.dbStep capacity commitBatchSize event = some next) :
    DBFrame pipeline next := by
  cases Pipeline.dbStepped_of_dbStep stepped with
  | stop | deallocate | finish => exact ⟨rfl, rfl, rfl, rfl⟩
  | dequeue queue batch db phase taken goesOn advanced =>
      exact ⟨rfl, rfl, rfl, (dequeue_left advanced).1⟩

structure DBNearer (tested : Bool) (pipeline next : Pipeline) : Prop where
  idle : next.db ≠ .polling → next.toDB.consumer = .idle
  work : dbLeft false next.toDB.consumer next.batch.length next.db + 1 ≤
    dbLeft tested pipeline.toDB.consumer pipeline.batch.length pipeline.db

theorem dbLeft_polling_le (tested : Bool) (consumer : CustomSPSCLockFreeQueue.Consumer)
    (length : Nat) :
    dbLeft tested consumer length .polling ≤ consumerLeft consumer + length + 4 := by
  simp only [dbLeft]
  split <;> omega

theorem dbLeft_polling {consumer : CustomSPSCLockFreeQueue.Consumer} (length : Nat)
    (entered : consumer = .idle → tested = true) :
    dbLeft tested consumer length .polling = consumerLeft consumer + length + 4 := by
  have inside : ¬ (consumer = .idle ∧ tested = false) := by
    rintro ⟨idle, untested⟩
    rw [entered idle] at untested
    cases untested
  simp only [dbLeft, if_neg inside]

theorem dbNearer_dequeue (entered : pipeline.toDB.consumer = .idle → tested = true)
    (stepped : pipeline.dbStep capacity commitBatchSize .dequeue = some next) :
    DBNearer tested pipeline next := by
  have bounds := consumerLeft_le pipeline.toDB.consumer
  simp only [Pipeline.dbStep] at stepped
  split at stepped
  · rename_i phase
    have before := dbLeft_polling pipeline.batch.length entered
    rcases Option.map_eq_some_iff.mp stepped with ⟨queue, advanced, rfl⟩
    rcases (dequeue_left advanced).2 with returned | ⟨running, nearer⟩
    · have after : ∀ length, dbLeft false queue.consumer length .polling = length + 2 := by
        intro length
        simp [dbLeft, returned]
      split
      · refine ⟨fun _ => returned, ?_⟩
        simp only [phase, before, after]
        omega
      · refine ⟨fun _ => returned, ?_⟩
        simp only [phase, before]
        split
        · rw [after]
          omega
        · simp only [dbLeft]
          omega
      · refine ⟨fun _ => returned, ?_⟩
        simp only [phase, before, List.length_append, List.length_singleton]
        split
        · simp only [dbLeft]
          omega
        · rw [after]
          omega
    · simp only [running]
      refine ⟨fun away => absurd phase away, ?_⟩
      have le := dbLeft_polling_le false queue.consumer pipeline.batch.length
      simp only [phase, before]
      omega
  · cases stepped

/-- A step of the database manager brings it nearer to leaving its loop. -/
theorem dbNearer_of_step {event : DBEvent} (settled : Settled pipeline)
    (allowed : event ≠ .stop → pipeline.db = .polling →
      pipeline.toDB.consumer = .idle → tested = true)
    (stepped : pipeline.dbStep capacity commitBatchSize event = some next) :
    DBNearer tested pipeline next := by
  cases event with
  | stop =>
      simp only [Pipeline.dbStep] at stepped
      split at stepped <;> cases stepped
      rename_i phase consumer
      refine ⟨fun _ => consumer, ?_⟩
      rw [phase]
      simp only [dbLeft]
      split <;> omega
  | dequeue =>
      have phase : pipeline.db = .polling := by
        simp only [Pipeline.dbStep] at stepped
        split at stepped
        · assumption
        · cases stepped
      have entered := allowed (by rintro ⟨⟩) phase
      exact dbNearer_dequeue entered stepped
  | deallocate =>
      cases Pipeline.dbStepped_of_dbStep stepped with
      | deallocate index stopping msg phase found =>
          have idle := settled.db (by simp [phase])
          have inside := (List.getElem?_eq_some_iff.mp found).1
          refine ⟨fun _ => idle, ?_⟩
          rw [phase]
          cases stopping <;> simp only [dbLeft] <;> omega
      | finish index stopping phase finished =>
          have idle := settled.db (by simp [phase])
          refine ⟨fun _ => idle, ?_⟩
          rw [phase]
          cases stopping <;> simp [dbLeft, idle]

end Threads

end FeederNet.Receiver.RunTradeReceiver
