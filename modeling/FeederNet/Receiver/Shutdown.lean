import FeederNet.Foundation.Progress
import FeederNet.Receiver.StepsLeft

/-! # Leaving the loops

Once all flags are cleared the threads of `RunTradeReceiver` leave their loops, and nothing
but an exception keeps the main thread from joining them.
-/

namespace FeederNet.Receiver.RunTradeReceiver

open Queue (CustomSPSCLockFreeQueue.State CustomSPSCLockFreeQueue.Producer
  CustomSPSCLockFreeQueue.Consumer CustomSPSCLockFreeQueue.step
  CustomSPSCLockFreeQueue.enqueueEvent CustomSPSCLockFreeQueue.dequeueEvent)

/-! ## All threads -/

section Runs

variable {poolMsgCount commitBatchSize : Nat} {capacity : PowerOfTwo} {state next : State}

theorem settled_initial (poolMsgCount : Nat) : Settled (.initial poolMsgCount) where
  sequencer _ := rfl
  db _ := rfl
  expects := trivial

namespace State.Allows

theorem receiver {event : ReceiverEvent} (allowed : state.Allows (.receiver event)) :
    event ≠ .stop → state.pipeline.receiver = .looping → state.tested .receiver = true := by
  intro other phase
  apply allowed.2 _ phase
  cases event <;> first | rfl | exact absurd rfl other

theorem sequencer {event : SequencerEvent} (allowed : state.Allows (.sequencer event)) :
    event ≠ .stop → state.pipeline.sequencer = .polling →
      state.pipeline.toSequencer.consumer = .idle → state.tested .sequencer = true := by
  intro other phase idle
  apply allowed.2 _ ⟨phase, idle⟩
  cases event <;> first | rfl | exact absurd rfl other

theorem db {event : DBEvent} (allowed : state.Allows (.db event)) :
    event ≠ .stop → state.pipeline.db = .polling →
      state.pipeline.toDB.consumer = .idle → state.tested .db = true := by
  intro other phase idle
  apply allowed.2 _ ⟨phase, idle⟩
  cases event <;> first | rfl | exact absurd rfl other

end State.Allows

/-- A step of a thread keeps the threads settled and brings them nearer to their ends. -/
theorem Settled.advance {event : Receiver.Event} {after : Pipeline}
    (settled : Settled state.pipeline) (allowed : state.Allows event)
    (stepped : state.pipeline.step capacity commitBatchSize event = some after) :
    Settled after ∧
      (state.advance event after).left + 1 ≤ state.left + stepsAdded state (.thread event) := by
  cases event with
  | receiver event =>
      have frame := receiver_frame stepped
      have nearer := receiver_left allowed.receiver stepped
      refine ⟨⟨?_, ?_, ?_⟩, ?_⟩
      · rw [frame.sequencer, frame.consumer]
        exact settled.sequencer
      · rw [frame.db, frame.toDB]
        exact settled.db
      · rw [frame.sequencer]
        exact settled.expects
      · change receiverLeft false after.toSequencer.producer after.receiver +
          sequencerWork (state.tested .sequencer) after.toSequencer.consumer
            after.toDB.producer after.sequencer +
          dbLeft (state.tested .db) after.toDB.consumer after.batch.length after.db +
          mainLeft state.main + 1 ≤ _
        rw [frame.sequencer, frame.consumer, frame.toDB, frame.batch, frame.db, State.left]
        omega
  | sequencer event =>
      have frame := sequencer_frame stepped
      have nearer := sequencerNearer_of_step settled allowed.sequencer stepped
      refine ⟨⟨nearer.idle, ?_, nearer.expects⟩, ?_⟩
      · rw [frame.db, frame.consumer]
        exact settled.db
      · have work := nearer.work
        change receiverLeft (state.tested .receiver) after.toSequencer.producer after.receiver +
          sequencerWork false after.toSequencer.consumer after.toDB.producer after.sequencer +
          dbLeft (state.tested .db) after.toDB.consumer after.batch.length after.db +
          mainLeft state.main + 1 ≤ _ + recoverySteps state.pipeline event
        rw [frame.receiver, frame.producer, frame.consumer, frame.batch, frame.db, State.left]
        omega
  | db event =>
      have frame := db_frame stepped
      have nearer := dbNearer_of_step settled allowed.db stepped
      refine ⟨⟨?_, nearer.idle, ?_⟩, ?_⟩
      · rw [frame.sequencer, frame.toSequencer]
        exact settled.sequencer
      · rw [frame.sequencer]
        exact settled.expects
      · have work := nearer.work
        change receiverLeft (state.tested .receiver) after.toSequencer.producer after.receiver +
          sequencerWork (state.tested .sequencer) after.toSequencer.consumer
            after.toDB.producer after.sequencer +
          dbLeft false after.toDB.consumer after.batch.length after.db +
          mainLeft state.main + 1 ≤ _
        rw [frame.receiver, frame.sequencer, frame.toSequencer, frame.producer, State.left]
        omega

theorem main_frame (stepped : step capacity commitBatchSize state .main = some next) :
    next.pipeline = state.pipeline ∧ next.tested = state.tested := by
  simp only [RunTradeReceiver.step] at stepped
  split at stepped
  · cases stepped
    exact ⟨rfl, rfl⟩
  · cases stepped
    exact ⟨rfl, rfl⟩
  · cases stepped
    exact ⟨rfl, rfl⟩
  · split at stepped <;> cases stepped
    exact ⟨rfl, rfl⟩
  · cases stepped

theorem Settled.step {event : Event} (settled : Settled state.pipeline)
    (stepped : step capacity commitBatchSize state event = some next) :
    Settled next.pipeline := by
  cases event with
  | test thread =>
      rcases test_step stepped with ⟨_, rfl⟩
      exact settled
  | thread event =>
      rcases thread_step stepped with ⟨allowed, after, advanced, rfl⟩
      exact (settled.advance allowed advanced).1
  | main =>
      rw [(main_frame stepped).1]
      exact settled

/-- All three `stop` calls have cleared their flags. -/
def Main.Cleared (main : Main) : Prop :=
  ∀ thread, main.runFlag thread = false

theorem Main.cleared_iff (main : Main) :
    main.Cleared ↔ main = .dbStopped ∨ main = .joined := by
  constructor
  · intro cleared
    have db := cleared .db
    cases main with
    | sleeping | sequencerStopped | receiverStopped => cases db
    | dbStopped => exact .inl rfl
    | joined => exact .inr rfl
  · rintro (rfl | rfl) thread <;> rfl

/-- Once all flags are cleared every step brings the threads nearer to their ends. -/
theorem left_of_step {event : Event} (settled : Settled state.pipeline)
    (cleared : state.main.Cleared)
    (stepped : step capacity commitBatchSize state event = some next) :
    next.main.Cleared ∧ next.left + 1 ≤ state.left + stepsAdded state event := by
  cases event with
  | test thread =>
      have flag := (test_step stepped).1
      rw [cleared thread] at flag
      cases flag
  | thread event =>
      rcases thread_step stepped with ⟨allowed, after, advanced, rfl⟩
      exact ⟨cleared, (settled.advance allowed advanced).2⟩
  | main =>
      rcases state.main.cleared_iff.mp cleared with stopped | joined
      · simp only [step, stopped] at stepped
        split at stepped <;> cases stepped
        refine ⟨(Main.cleared_iff _).mpr (.inr rfl), ?_⟩
        simp only [State.left, stopped, mainLeft]
        omega
      · simp only [step, joined] at stepped
        cases stepped

/-! ## The last recovery -/

/-- How many recoveries the sequencer can still start before it has left its loop. -/
def startsLeft (tested : Bool) (consumer : CustomSPSCLockFreeQueue.Consumer) :
    Sequencer → Nat
  | .polling => if consumer = .idle ∧ tested = false then 0 else 1
  | .dispatching _ | .requesting _ => 1
  | _ => 0

def State.startsLeft (state : State) : Nat :=
  RunTradeReceiver.startsLeft (state.tested .sequencer) state.pipeline.toSequencer.consumer
    state.pipeline.sequencer

theorem startsLeft_le (tested : Bool) (consumer : CustomSPSCLockFreeQueue.Consumer)
    (sequencer : Sequencer) : startsLeft tested consumer sequencer ≤ 1 := by
  unfold startsLeft
  split
  · split
    · exact Nat.zero_le 1
    · exact le_rfl
  · exact le_rfl
  · exact le_rfl
  · exact Nat.zero_le 1

def startsRecovery : Event → Bool
  | .thread (.sequencer .sendRequest) => true
  | _ => false

theorem startsLeft_receiveLoop (tested : Bool) (consumer : CustomSPSCLockFreeQueue.Consumer)
    (msg : Nat) (numMessages messagesReceived : Word64) :
    startsLeft tested consumer (Pipeline.receiveLoop msg numMessages messagesReceived) = 0 := by
  unfold Pipeline.receiveLoop
  split <;> rfl

theorem startsLeft_discarded (tested : Bool) (consumer : CustomSPSCLockFreeQueue.Consumer)
    (msg : Nat) (recovered : Option Nat) (numMessages messagesReceived : Word64)
    (closed : Bool) :
    startsLeft tested consumer
      (Pipeline.discarded msg recovered numMessages messagesReceived closed) = 0 := by
  unfold Pipeline.discarded
  split
  · rfl
  · rfl
  · exact startsLeft_receiveLoop _ _ _ _ _

theorem startsLeft_of_step {tested : Bool} {pipeline after : Pipeline}
    {event : SequencerEvent} (settled : Settled pipeline)
    (entered : event ≠ .stop → pipeline.sequencer = .polling →
      pipeline.toSequencer.consumer = .idle → tested = true)
    (stepped : pipeline.sequencerStep capacity event = some after) :
    startsLeft false after.toSequencer.consumer after.sequencer +
        (startsRecovery (.thread (.sequencer event))).toNat ≤
      startsLeft tested pipeline.toSequencer.consumer pipeline.sequencer := by
  have most := startsLeft_le false after.toSequencer.consumer after.sequencer
  cases event with
  | dequeue =>
      simp only [Pipeline.sequencerStep] at stepped
      split at stepped
      · rename_i phase
        have inside : ¬ (pipeline.toSequencer.consumer = .idle ∧ tested = false) := by
          rintro ⟨idle, untested⟩
          have found := entered (by rintro ⟨⟩) phase idle
          rw [found] at untested
          cases untested
        rw [phase, startsLeft.eq_def tested, if_neg inside]
        exact most
      · cases stepped
  | dispatch =>
      simp only [Pipeline.sequencerStep] at stepped
      split at stepped <;> cases stepped
      rename_i msg phase
      rw [phase]
      exact most
  | sendRequest =>
      simp only [Pipeline.sequencerStep] at stepped
      split at stepped <;> cases stepped
      rename_i msg phase
      rw [phase, startsLeft_receiveLoop]
      exact le_rfl
  | deallocate =>
      simp only [Pipeline.sequencerStep] at stepped
      split at stepped
      · cases stepped
        rename_i msg phase
        have idle := settled.sequencer (by simp [phase])
        rw [startsLeft.eq_def, if_pos ⟨idle, rfl⟩]
        exact Nat.zero_le _
      · cases stepped
        rw [startsLeft_discarded]
        exact Nat.zero_le _
      · cases stepped
  | enqueue =>
      simp only [Pipeline.sequencerStep] at stepped
      split at stepped
      · rename_i msg phase
        have idle := settled.sequencer (by simp [phase])
        rcases Option.map_eq_some_iff.mp stepped with ⟨queue, _, rfl⟩
        split
        · rw [startsLeft.eq_def, if_pos ⟨idle, rfl⟩]
          exact Nat.zero_le _
        · rw [phase]
          exact Nat.zero_le _
      · rename_i msg recovered numMessages messagesReceived phase
        rcases Option.map_eq_some_iff.mp stepped with ⟨queue, _, rfl⟩
        split
        · rw [startsLeft_receiveLoop]
          exact Nat.zero_le _
        · rw [phase]
          exact Nat.zero_le _
      · cases stepped
  | onRecoveredMsg =>
      simp only [Pipeline.sequencerStep] at stepped
      split at stepped
      · split at stepped <;> cases stepped <;> exact Nat.zero_le _
      · cases stepped
  | allocate recovered =>
      simp only [Pipeline.sequencerStep] at stepped
      split at stepped
      · split at stepped <;> cases stepped
        exact Nat.zero_le _
      · cases stepped
  | exhausted =>
      simp only [Pipeline.sequencerStep] at stepped
      split at stepped
      · split at stepped <;> cases stepped
        exact Nat.zero_le _
      · cases stepped
  | timeout =>
      simp only [Pipeline.sequencerStep] at stepped
      split at stepped <;> cases stepped
      rename_i phase
      rw [phase]
      exact Nat.zero_le _
  | stop | requestFailed | epollFailed | received | receiveShort | receiveClosed =>
      simp only [Pipeline.sequencerStep] at stepped
      split at stepped <;> cases stepped <;> exact Nat.zero_le _

/-- Once all flags are cleared every recovery that starts is one less to start. -/
theorem startsLeft_of_cleared {event : Event} (settled : Settled state.pipeline)
    (cleared : state.main.Cleared)
    (stepped : step capacity commitBatchSize state event = some next) :
    next.startsLeft + (startsRecovery event).toNat ≤ state.startsLeft := by
  cases event with
  | test thread =>
      have flag := (test_step stepped).1
      rw [cleared thread] at flag
      cases flag
  | thread event =>
      rcases thread_step stepped with ⟨allowed, after, advanced, rfl⟩
      cases event with
      | receiver event =>
          have frame := receiver_frame advanced
          change RunTradeReceiver.startsLeft (state.tested .sequencer)
            after.toSequencer.consumer after.sequencer ≤ _
          rw [frame.sequencer, frame.consumer]
          exact le_rfl
      | sequencer event => exact startsLeft_of_step settled allowed.sequencer advanced
      | db event =>
          have frame := db_frame advanced
          change RunTradeReceiver.startsLeft (state.tested .sequencer)
            after.toSequencer.consumer after.sequencer ≤ _
          rw [frame.sequencer, frame.toSequencer]
          exact le_rfl
  | main =>
      rw [State.startsLeft, (main_frame stepped).1, (main_frame stepped).2]
      exact le_rfl

/-! ## The length of a run -/

theorem receiverLeft_le (tested : Bool) (producer : CustomSPSCLockFreeQueue.Producer Nat)
    (receiver : MulticastReceiver) : receiverLeft tested producer receiver ≤ 7 := by
  have bounds := producerLeft_le producer
  cases receiver with
  | looping =>
      simp only [receiverLeft]
      split <;> omega
  | receiving | returning | enqueueing | threw | stopped =>
      simp only [receiverLeft]
      omega

theorem sequencerLeft_le (tested : Bool) (consumer : CustomSPSCLockFreeQueue.Consumer)
    (producer : CustomSPSCLockFreeQueue.Producer Nat) (sequencer : Sequencer) :
    sequencerLeft tested consumer producer sequencer ≤ 15 := by
  have enqueueing := producerLeft_le producer
  have dequeueing := consumerLeft_le consumer
  cases sequencer with
  | polling =>
      simp only [sequencerLeft]
      split <;> omega
  | discarding _ _ _ _ closed => cases closed <;> simp [sequencerLeft]
  | dispatching | returning | requesting | waiting | receiving | checking |
    enqueueingRecovered | enqueueing | threw | stopped =>
      simp only [sequencerLeft]
      omega

theorem dbLeft_le (tested : Bool) (consumer : CustomSPSCLockFreeQueue.Consumer)
    (length : Nat) (db : DB) : dbLeft tested consumer length db ≤ length + 8 := by
  cases db with
  | polling =>
      have bounds := consumerLeft_le consumer
      have polling := dbLeft_polling_le tested consumer length
      omega
  | flushing index stopping => cases stopping <;> simp only [dbLeft] <;> omega
  | stopped => exact Nat.zero_le _

theorem State.left_le (state : State) :
    state.left ≤ state.pipeline.batch.length + 8 * missing state.pipeline.sequencer + 31 := by
  have receiver := receiverLeft_le (state.tested .receiver)
    state.pipeline.toSequencer.producer state.pipeline.receiver
  have sequencer := sequencerLeft_le (state.tested .sequencer)
    state.pipeline.toSequencer.consumer state.pipeline.toDB.producer state.pipeline.sequencer
  have db := dbLeft_le (state.tested .db) state.pipeline.toDB.consumer
    state.pipeline.batch.length state.pipeline.db
  have main : mainLeft state.main ≤ 1 := by
    cases state.main <;> simp [mainLeft]
  simp only [State.left, sequencerWork]
  omega

/-! ## The pool -/

/-- The pool has a message for whoever asks. -/
def Supplied (_ : State) (event : Event) : Prop :=
  event ≠ .thread (.receiver .exhausted) ∧ event ≠ .thread (.sequencer .exhausted)

instance (state : State) (event : Event) : Decidable (Supplied state event) :=
  inferInstanceAs (Decidable (_ ∧ _))

theorem receiverStep_ne_threw {pipeline after : Pipeline} {event : ReceiverEvent}
    (supplied : event ≠ .exhausted)
    (stepped : pipeline.receiverStep capacity event = some after) :
    after.receiver ≠ .threw := by
  cases event with
  | exhausted => exact absurd rfl supplied
  | allocate msg =>
      simp only [Pipeline.receiverStep] at stepped
      split at stepped
      · split at stepped <;> cases stepped
        rintro ⟨⟩
      · cases stepped
  | enqueue =>
      simp only [Pipeline.receiverStep] at stepped
      split at stepped
      · rcases Option.map_eq_some_iff.mp stepped with ⟨queue, _, rfl⟩
        change (if queue.producer = .idle then MulticastReceiver.looping else _) ≠ _
        split <;> rintro ⟨⟩
      · cases stepped
  | stop | received | receiveFailed | deallocate =>
      simp only [Pipeline.receiverStep] at stepped
      split at stepped <;> cases stepped
      rintro ⟨⟩

theorem receiver_ne_threw {event : Event} (supplied : Supplied state event)
    (before : state.pipeline.receiver ≠ .threw)
    (stepped : step capacity commitBatchSize state event = some next) :
    next.pipeline.receiver ≠ .threw := by
  cases event with
  | test thread =>
      rcases test_step stepped with ⟨_, rfl⟩
      exact before
  | thread event =>
      rcases thread_step stepped with ⟨_, after, advanced, rfl⟩
      cases event with
      | receiver event =>
          apply receiverStep_ne_threw _ advanced
          rintro rfl
          exact supplied.1 rfl
      | sequencer event =>
          change after.receiver ≠ .threw
          rw [(sequencer_frame advanced).receiver]
          exact before
      | db event =>
          change after.receiver ≠ .threw
          rw [(db_frame advanced).receiver]
          exact before
  | main =>
      rw [(main_frame stepped).1]
      exact before

/-! ## At rest -/

theorem enqueue_enabled (capacity : PowerOfTwo) (queue : CustomSPSCLockFreeQueue.State Nat)
    (msg : Nat) : CustomSPSCLockFreeQueue.step capacity queue
      (CustomSPSCLockFreeQueue.enqueueEvent msg queue.producer) ≠ none := by
  cases phase : queue.producer with
  | loadedTail ptr tail =>
      simp only [CustomSPSCLockFreeQueue.enqueueEvent, CustomSPSCLockFreeQueue.step, phase]
      split <;> simp
  | idle | admitted | written =>
      simp [CustomSPSCLockFreeQueue.enqueueEvent, CustomSPSCLockFreeQueue.step, phase]

theorem dequeue_enabled (capacity : PowerOfTwo) (queue : CustomSPSCLockFreeQueue.State Nat) :
    CustomSPSCLockFreeQueue.step capacity queue
      (CustomSPSCLockFreeQueue.dequeueEvent queue.consumer) ≠ none := by
  cases phase : queue.consumer with
  | loadedHead head =>
      simp only [CustomSPSCLockFreeQueue.dequeueEvent, CustomSPSCLockFreeQueue.step, phase]
      split <;> simp
  | idle | nonEmpty | claimed =>
      simp [CustomSPSCLockFreeQueue.dequeueEvent, CustomSPSCLockFreeQueue.step, phase]

def Rests (capacity : PowerOfTwo) (commitBatchSize : Nat) (state : State) : Prop :=
  ∀ event, step capacity commitBatchSize state event = none

namespace Rests

theorem thread {event : Receiver.Event} (rests : Rests capacity commitBatchSize state)
    (allowed : state.Allows event) :
    state.pipeline.step capacity commitBatchSize event = none := by
  have nothing := rests (.thread event)
  simp only [step, if_pos allowed] at nothing
  exact Option.map_eq_none_iff.mp nothing

theorem away (event : Receiver.Event) (rests : Rests capacity commitBatchSize state)
    (inside : isStop event = false) (away : ¬ AtTest state.pipeline (threadOf event)) :
    state.pipeline.step capacity commitBatchSize event = none := by
  apply rests.thread
  refine ⟨fun stops => ?_, fun _ head => absurd head away⟩
  rw [inside] at stops
  cases stops

theorem entered (event : Receiver.Event) (rests : Rests capacity commitBatchSize state)
    (inside : isStop event = false) (tested : state.tested (threadOf event) = true) :
    state.pipeline.step capacity commitBatchSize event = none := by
  apply rests.thread
  refine ⟨fun stops => ?_, fun _ _ => tested⟩
  rw [inside] at stops
  cases stops

theorem leaves (event : Receiver.Event) (rests : Rests capacity commitBatchSize state)
    (stops : isStop event = true) (cleared : state.main.Cleared)
    (untested : state.tested (threadOf event) = false) :
    state.pipeline.step capacity commitBatchSize event = none := by
  apply rests.thread
  refine ⟨fun _ => ⟨cleared _, untested⟩, fun inside => ?_⟩
  rw [stops] at inside
  cases inside

theorem receiver (rests : Rests capacity commitBatchSize state)
    (cleared : state.main.Cleared) :
    state.pipeline.receiver = .threw ∨ state.pipeline.receiver = .stopped := by
  cases phase : state.pipeline.receiver with
  | looping =>
      cases tested : state.tested .receiver with
      | false =>
          have nothing := rests.leaves (.receiver .stop) rfl cleared tested
          simp [Pipeline.step, Pipeline.receiverStep, phase] at nothing
      | true =>
          cases free : state.pipeline.free with
          | nil =>
              have nothing := rests.entered (.receiver .exhausted) rfl tested
              simp [Pipeline.step, Pipeline.receiverStep, phase, free] at nothing
          | cons msg others =>
              have nothing := rests.entered (.receiver (.allocate msg)) rfl tested
              simp [Pipeline.step, Pipeline.receiverStep, phase, free] at nothing
  | receiving msg =>
      have nothing := rests.away (.receiver (.received 0)) rfl (by simp [AtTest, threadOf, phase])
      simp [Pipeline.step, Pipeline.receiverStep, phase] at nothing
  | returning msg =>
      have nothing := rests.away (.receiver .deallocate) rfl (by simp [AtTest, threadOf, phase])
      simp [Pipeline.step, Pipeline.receiverStep, phase] at nothing
  | enqueueing msg =>
      have nothing := rests.away (.receiver .enqueue) rfl (by simp [AtTest, threadOf, phase])
      simp only [Pipeline.step, Pipeline.receiverStep, phase] at nothing
      exact absurd (Option.map_eq_none_iff.mp nothing) (enqueue_enabled _ _ _)
  | threw => exact .inl rfl
  | stopped => exact .inr rfl

theorem sequencer (rests : Rests capacity commitBatchSize state)
    (cleared : state.main.Cleared) :
    (∃ held, state.pipeline.sequencer = .threw held) ∨
      state.pipeline.sequencer = .stopped := by
  have stuck : ∀ event, isStop (.sequencer event) = false →
      state.pipeline.sequencer ≠ .polling →
      state.pipeline.sequencerStep capacity event = none := by
    intro event inside away
    exact rests.away (.sequencer event) inside fun head => away head.1
  cases phase : state.pipeline.sequencer with
  | polling =>
      have polls : ¬ (state.pipeline.toSequencer.consumer = .idle ∧
          state.tested .sequencer = false) := by
        rintro ⟨idle, untested⟩
        have nothing := rests.leaves (.sequencer .stop) rfl cleared untested
        simp [Pipeline.step, Pipeline.sequencerStep, phase, idle] at nothing
      have nothing : state.pipeline.sequencerStep capacity .dequeue = none := by
        by_cases idle : state.pipeline.toSequencer.consumer = .idle
        · have tested : state.tested .sequencer = true := by
            simpa using fun untested => polls ⟨idle, untested⟩
          exact rests.entered (.sequencer .dequeue) rfl tested
        · exact rests.away (.sequencer .dequeue) rfl fun head => idle head.2
      simp only [Pipeline.sequencerStep, phase] at nothing
      exact absurd (Option.map_eq_none_iff.mp nothing) (dequeue_enabled _ _)
  | dispatching msg =>
      have nothing := stuck .dispatch rfl (by simp [phase])
      simp [Pipeline.sequencerStep, phase] at nothing
  | returning msg =>
      have nothing := stuck .deallocate rfl (by simp [phase])
      simp [Pipeline.sequencerStep, phase] at nothing
  | requesting msg =>
      have nothing := stuck .requestFailed rfl (by simp [phase])
      simp [Pipeline.sequencerStep, phase] at nothing
  | waiting msg numMessages messagesReceived =>
      have nothing := stuck .epollFailed rfl (by simp [phase])
      simp [Pipeline.sequencerStep, phase] at nothing
  | receiving msg recovered numMessages messagesReceived =>
      have nothing := stuck (.receiveClosed 0) rfl (by simp [phase])
      cases recovered <;> simp [Pipeline.sequencerStep, phase] at nothing
  | discarding msg recovered numMessages messagesReceived closed =>
      have nothing := stuck .deallocate rfl (by simp [phase])
      simp [Pipeline.sequencerStep, phase] at nothing
  | checking msg recovered numMessages messagesReceived =>
      have nothing := stuck .onRecoveredMsg rfl (by simp [phase])
      simp only [Pipeline.sequencerStep, phase] at nothing
      split at nothing <;> cases nothing
  | enqueueingRecovered msg recovered numMessages messagesReceived =>
      have nothing := stuck .enqueue rfl (by simp [phase])
      simp only [Pipeline.sequencerStep, phase] at nothing
      exact absurd (Option.map_eq_none_iff.mp nothing) (enqueue_enabled _ _ _)
  | enqueueing msg =>
      have nothing := stuck .enqueue rfl (by simp [phase])
      simp only [Pipeline.sequencerStep, phase] at nothing
      exact absurd (Option.map_eq_none_iff.mp nothing) (enqueue_enabled _ _ _)
  | threw held => exact .inl ⟨held, rfl⟩
  | stopped => exact .inr rfl

theorem db (rests : Rests capacity commitBatchSize state) (cleared : state.main.Cleared) :
    state.pipeline.db = .stopped := by
  cases phase : state.pipeline.db with
  | polling =>
      have polls : ¬ (state.pipeline.toDB.consumer = .idle ∧ state.tested .db = false) := by
        rintro ⟨idle, untested⟩
        have nothing := rests.leaves (.db .stop) rfl cleared untested
        simp [Pipeline.step, Pipeline.dbStep, phase, idle] at nothing
      have nothing : state.pipeline.dbStep capacity commitBatchSize .dequeue = none := by
        by_cases idle : state.pipeline.toDB.consumer = .idle
        · have tested : state.tested .db = true := by
            simpa using fun untested => polls ⟨idle, untested⟩
          exact rests.entered (.db .dequeue) rfl tested
        · exact rests.away (.db .dequeue) rfl fun head => idle head.2
      simp only [Pipeline.dbStep, phase] at nothing
      exact absurd (Option.map_eq_none_iff.mp nothing) (dequeue_enabled _ _)
  | flushing index stopping =>
      have nothing := rests.away (.db .deallocate) rfl (by simp [AtTest, threadOf, phase])
      simp only [Pipeline.step, Pipeline.dbStep, phase] at nothing
      split at nothing <;> cases nothing
  | stopped => rfl

/-- Nothing but an exception keeps the main thread from joining the threads. -/
theorem joined (rests : Rests capacity commitBatchSize state)
    (cleared : state.main.Cleared) :
    state.main = .joined ∨ state.pipeline.receiver = .threw ∨
      ∃ held, state.pipeline.sequencer = .threw held := by
  rcases rests.receiver cleared with threw | receiver
  · exact .inr (.inl threw)
  rcases rests.sequencer cleared with threw | sequencer
  · exact .inr (.inr threw)
  rcases state.main.cleared_iff.mp cleared with waits | joined
  · have nothing := rests .main
    simp [step, waits, receiver, sequencer, rests.db cleared] at nothing
  · exact .inl joined

end Rests

/-- With a pool that does not run empty, and once the main thread has called `stop` on all
three: a run is as long as what the threads have left, with eight steps for each message that
a recovery asks for, one for each of its timeouts and three for each partial message; one
recovery more may start; and where the run cannot go on the main thread has joined all
threads, or the sequencer threw. -/
theorem joins_of_reachable {poolMsgCount : Nat} {capacity : PowerOfTwo}
    {commitBatchSize : Nat} {state : State}
    (reachable : (system poolMsgCount capacity commitBatchSize).ReachableUnder Supplied state)
    (cleared : ∀ thread, state.main.runFlag thread = false)
    {past : List (State × Event)} {final : State}
    (run : (TransitionSystem.ofStep state (step capacity commitBatchSize)).Run past final)
    (supplied : ∀ entry ∈ past, Supplied entry.1 entry.2) :
    past.length ≤ state.pipeline.batch.length + 8 * missing state.pipeline.sequencer + 31 +
        TransitionSystem.credited stepsAdded past ∧
      past.countP (fun entry => startsRecovery entry.2) ≤ 1 ∧
      (Rests capacity commitBatchSize final →
        final.main = .joined ∨ ∃ held, final.pipeline.sequencer = .threw held) := by
  have start : Settled state.pipeline ∧ state.pipeline.receiver ≠ .threw := by
    apply reachable.invariant fun state =>
      Settled state.pipeline ∧ state.pipeline.receiver ≠ .threw
    · rintro state rfl
      exact ⟨settled_initial poolMsgCount, by rintro ⟨⟩⟩
    · intro current event next inv supplied stepped
      exact ⟨inv.1.step stepped, receiver_ne_threw supplied inv.2 stepped⟩
  have preserved : ∀ current event next,
      Settled current.pipeline ∧ current.main.Cleared →
      step capacity commitBatchSize current event = some next →
      Settled next.pipeline ∧ next.main.Cleared :=
    fun _ _ _ inv stepped => ⟨inv.1.step stepped, (left_of_step inv.1 inv.2 stepped).1⟩
  refine ⟨?_, ?_, ?_⟩
  · have bound := run.length_add_potential_le
      (fun state => Settled state.pipeline ∧ state.main.Cleared) State.left stepsAdded
      (state.pipeline.batch.length + 8 * missing state.pipeline.sequencer + 31)
      (by rintro _ rfl; exact ⟨⟨start.1, cleared⟩, State.left_le _⟩) preserved
      (fun _ _ _ inv stepped => (left_of_step inv.1 inv.2 stepped).2)
    omega
  · have bound := run.countP_add_potential_le
      (fun state => Settled state.pipeline ∧ state.main.Cleared) State.startsLeft
      (fun _ event => startsRecovery event) 1
      (by rintro _ rfl; exact ⟨⟨start.1, cleared⟩, startsLeft_le _ _ _⟩) preserved
      (fun _ _ _ inv stepped => startsLeft_of_cleared inv.1 inv.2 stepped)
    omega
  · intro rests
    have calm := ((run.restrict supplied).invariant
      (fun state => state.pipeline.receiver ≠ .threw) (by rintro _ rfl; exact start.2)
      fun _ _ _ before (stepped : _ ∧ _) => receiver_ne_threw stepped.2 before stepped.1).2
    have inv := (run.invariant (fun state => Settled state.pipeline ∧ state.main.Cleared)
      (by rintro _ rfl; exact ⟨start.1, cleared⟩) preserved).2
    rcases rests.joined inv.2 with joined | threw | threw
    · exact .inl joined
    · exact absurd threw calm
    · exact .inr threw

def stoppedInGap : List Event :=
  [Event.test .receiver, .thread (.receiver (.allocate 0)),
    .thread (.receiver (.received 1))] ++
  List.replicate 4 (Event.thread (.receiver .enqueue)) ++ [Event.test .sequencer] ++
  List.replicate 4 (Event.thread (.sequencer .dequeue)) ++
  [Event.thread (.sequencer .dispatch), .main, .main, .main]

def leaveLoops : List Event :=
  [Event.thread (.sequencer .sendRequest), .thread (.sequencer .timeout),
    .thread (.sequencer (.allocate 1)), .thread (.sequencer (.received 0)),
    .thread (.sequencer .onRecoveredMsg)] ++
  List.replicate 8 (Event.thread (.sequencer .enqueue)) ++
  [Event.thread (.sequencer .stop), .thread (.receiver .stop), .thread (.db .stop),
    .thread (.db .deallocate), .main]

theorem joins_of_reachable_gap :
    ∃ (state : State) (past : List (State × Event)) (final : State),
      state.main = .dbStopped ∧ state.pipeline.sequencer = .requesting 0 ∧
      final.main = .joined ∧
      past.length ≤ state.pipeline.batch.length + 8 * missing state.pipeline.sequencer + 31 +
        TransitionSystem.credited stepsAdded past ∧
      past.countP (fun entry => startsRecovery entry.2) ≤ 1 := by
  rcases TransitionSystem.exists_reachable_of_execute (.initial 2)
    (TransitionSystem.guarded Supplied (step Queue.CustomSPSCLockFreeQueue.twoSlots 1))
    stoppedInGap
    (fun state => state.main = .dbStopped ∧ state.pipeline.sequencer = .requesting 0 ∧
      (TransitionSystem.execute (TransitionSystem.guarded Supplied
        (step Queue.CustomSPSCLockFreeQueue.twoSlots 1)) state
        leaveLoops).any (fun final => decide (final.main = .joined)) = true) (by decide) with
    ⟨state, reachable, stopped, gap, leaves⟩
  rcases TransitionSystem.exists_run_of_events state
    (TransitionSystem.guarded Supplied (step Queue.CustomSPSCLockFreeQueue.twoSlots 1))
    leaveLoops (fun final => final.main = .joined) leaves with ⟨past, final, run, _, joined⟩
  rcases run.of_guarded with ⟨run, supplied⟩
  have joins := joins_of_reachable reachable.reachableUnder
    (state.main.cleared_iff.mpr (.inl stopped)) run supplied
  exact ⟨state, past, final, stopped, gap, joined, joins.1, joins.2.1⟩

end Runs

end FeederNet.Receiver.RunTradeReceiver
