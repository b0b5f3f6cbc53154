import FeederNet.AsyncLogger.Delivery
import FeederNet.Queue.CustomMPMCLockFreeQueue.SingleConsumer

/-! # The logger over the steps of its queue

The queue is CustomMPMCLockFreeQueue with its loads, stores and exchanges, between which
any other thread may take a step. A `dequeue` may find nothing although a message is
queued; the logger delivers the same.
-/

namespace FeederNet.AsyncLogger.QueueSteps

open Queue.CustomMPMCLockFreeQueue (Action IsDequeue IsEnqueue OneConsumer Phase Separate
  accepts accepts_eq_nil delivers delivers_eq_nil)

structure Setup where
  poolMsgCount : Nat
  queueCapacity : PowerOfTwo
  logBufferSize : Nat

def Setup.config (setup : Setup) : Config where
  poolMsgCount := setup.poolMsgCount
  queueCapacity := setup.queueCapacity.toNat
  logBufferSize := setup.logBufferSize

/-- The thread in `LoggerThread` is `none` to the queue. -/
abbrev LogQueue (Thread : Type u) :=
  Queue.CustomMPMCLockFreeQueue.State (Option Thread) (LogMsg Thread)

/-- No step looks at `logger.queue`, which records what the queue has accepted and not
returned. -/
structure State (Thread : Type u) where
  logger : AsyncLogger.State Thread
  queue : LogQueue Thread

inductive Event (Thread : Type u)
  /-- A step outside the queue. -/
  | logger (event : AsyncLogger.Event Thread)
  /-- A step inside `queue_.enqueue`. -/
  | enqueue (thread : Thread) (action : Action (LogMsg Thread))
  /-- A step inside `queue_.dequeue`. -/
  | dequeue (action : Action (LogMsg Thread))
  deriving DecidableEq, Repr

def initial (setup : Setup) : State Thread where
  logger := .initial setup.config
  queue := Queue.CustomMPMCLockFreeQueue.initial

def State.allows (state : State Thread) : AsyncLogger.Event Thread → Bool
  | .call _ .enqueue | .dequeue => false
  | .call thread .finish => !(state.queue.phase (some thread)).enqueues
  | _ => true

def State.record (logger : AsyncLogger.State Thread) (queue : LogQueue Thread) :
    State Thread where
  logger := { logger with queue := queue.pending }
  queue := queue

def received (logger : AsyncLogger.State Thread) (value : Option (LogMsg Thread)) :
    AsyncLogger.State Thread :=
  match value with
  | some msg => { logger with worker := .writing msg }
  | none => { logger with worker := .testing }

section System

variable {Thread : Type u} [DecidableEq Thread]

/-- The message is enqueued, or refused, which is not looked at. -/
def enqueued (logger : AsyncLogger.State Thread) (thread : Thread) (msg : LogMsg Thread) :
    AsyncLogger.State Thread :=
  { logger with
    numbers := Function.update logger.numbers thread
      (logger.numbers thread + 1) }.goto thread (.returning msg)

/-- From its claim on, or from its refusal, a call of `enqueue` counts as made. -/
def enqueueStep (setup : Setup) (state : State Thread) (thread : Thread)
    (action : Action (LogMsg Thread)) : Option (State Thread) :=
  match state.logger.call thread with
  | .enqueueing msg =>
      if IsEnqueue msg action then
        (Queue.CustomMPMCLockFreeQueue.step setup.queueCapacity state.queue
          (some thread, action)).map fun queue =>
            .record (if (queue.phase (some thread)).seeking then state.logger
              else enqueued state.logger thread msg) queue
      else none
  | .returning msg =>
      if IsEnqueue msg action ∧ (state.queue.phase (some thread)).enqueues = true then
        (Queue.CustomMPMCLockFreeQueue.step setup.queueCapacity state.queue
          (some thread, action)).map (.record state.logger)
      else none
  | _ => none

def dequeueStep (setup : Setup) (state : State Thread) (action : Action (LogMsg Thread)) :
    Option (State Thread) :=
  match state.logger.worker with
  | .dequeuing =>
      if IsDequeue action then
        (Queue.CustomMPMCLockFreeQueue.step setup.queueCapacity state.queue
          (none, action)).map fun queue =>
            .record (if (queue.phase none).dequeues then state.logger
              else received state.logger (state.queue.phase none).value) queue
      else none
  | _ => none

def step (setup : Setup) (state : State Thread) : Event Thread → Option (State Thread)
  | .logger event =>
      if state.allows event then
        (AsyncLogger.step setup.config state.logger event).map fun logger =>
          { state with logger := logger }
      else none
  | .enqueue thread action =>
      if state.logger.destructor = .returned then none
      else enqueueStep setup state thread action
  | .dequeue action => dequeueStep setup state action

@[reducible] def system (setup : Setup) : TransitionSystem (State Thread) (Event Thread) :=
  .ofStep (initial setup) (step setup)

inductive Step (setup : Setup) (state : State Thread) : Event Thread → State Thread → Prop
  | logger (event : AsyncLogger.Event Thread) (logger : AsyncLogger.State Thread)
      (allowed : state.allows event = true)
      (stepped : Stepped setup.config state.logger event logger) :
      Step setup state (.logger event) { state with logger := logger }
  | enqueue (thread : Thread) (action : Action (LogMsg Thread)) (queue : LogQueue Thread)
      (msg : LogMsg Thread) (running : state.logger.destructor ≠ .returned)
      (phase : state.logger.call thread = .enqueueing msg)
      (permitted : IsEnqueue msg action)
      (stepped : Queue.CustomMPMCLockFreeQueue.Step setup.queueCapacity state.queue
        (some thread, action) queue) :
      Step setup state (.enqueue thread action)
        (.record (if (queue.phase (some thread)).seeking then state.logger
          else enqueued state.logger thread msg) queue)
  | writes (thread : Thread) (action : Action (LogMsg Thread)) (queue : LogQueue Thread)
      (msg : LogMsg Thread) (phase : state.logger.call thread = .returning msg)
      (permitted : IsEnqueue msg action)
      (inside : (state.queue.phase (some thread)).enqueues = true)
      (stepped : Queue.CustomMPMCLockFreeQueue.Step setup.queueCapacity state.queue
        (some thread, action) queue) :
      Step setup state (.enqueue thread action) (.record state.logger queue)
  | dequeue (action : Action (LogMsg Thread)) (queue : LogQueue Thread)
      (phase : state.logger.worker = .dequeuing) (permitted : IsDequeue action)
      (stepped : Queue.CustomMPMCLockFreeQueue.Step setup.queueCapacity state.queue
        (none, action) queue) :
      Step setup state (.dequeue action)
        (.record (if (queue.phase none).dequeues then state.logger
          else received state.logger (state.queue.phase none).value) queue)

theorem Step.of_step {setup : Setup} {state next : State Thread} {event : Event Thread}
    (stepped : step setup state event = some next) : Step setup state event next := by
  cases event with
  | logger event =>
      simp only [step] at stepped
      split at stepped
      · rcases Option.map_eq_some_iff.mp stepped with ⟨logger, moved, rfl⟩
        exact .logger event logger (by assumption) (stepped_of_step moved)
      · cases stepped
  | enqueue thread action =>
      simp only [step, enqueueStep] at stepped
      split at stepped
      · cases stepped
      · split at stepped
        · split at stepped
          · rcases Option.map_eq_some_iff.mp stepped with ⟨queue, moved, rfl⟩
            exact .enqueue thread action queue _ (by assumption) (by assumption)
              (by assumption) (.of_step moved)
          · cases stepped
        · split at stepped
          · rename_i inside
            rcases Option.map_eq_some_iff.mp stepped with ⟨queue, moved, rfl⟩
            exact .writes thread action queue _ (by assumption) inside.1 inside.2
              (.of_step moved)
          · cases stepped
        · cases stepped
  | dequeue action =>
      simp only [step, dequeueStep] at stepped
      split at stepped
      · split at stepped
        · rcases Option.map_eq_some_iff.mp stepped with ⟨queue, moved, rfl⟩
          exact .dequeue action queue (by assumption) (by assumption) (.of_step moved)
        · cases stepped
      · cases stepped

end System

/-! ## What the steps look like to the logger -/

/-- The loop ends with nothing queued, nothing is accepted after it, and the destructor
does not return while a call of `log` has a buffer in hand. -/
def Keeps (state : State Thread) : Event Thread → Prop
  | .logger event => AsyncLogger.Keeps state.logger event
  | .enqueue thread action =>
      accepts state.queue (some thread, action) ≠ [] → state.logger.worker ≠ .ended
  | .dequeue _ => True

def Stands (phase : Phase (LogMsg Thread)) : Call Thread → Prop
  | .enqueueing msg => phase = .idle ∨ phase.Seeks msg
  | .returning _ => phase = .idle ∨ phase.Writes
  | .idle | .formatting _ | .failed _ => phase = .idle

variable {Thread : Type u} {setup : Setup} {state next : State Thread}
  {event : Event Thread}

structure Inv [Fintype Thread] (setup : Setup) (state : State Thread) : Prop where
  logger : AsyncLogger.Inv setup.config state.logger
  tickets : ∃ ledger, Queue.CustomMPMCLockFreeQueue.Inv setup.queueCapacity state.queue
    ledger
  one : OneConsumer none state.queue
  queued : state.queue.pending = state.logger.queue
  stands : ∀ thread, Stands (state.queue.phase (some thread)) (state.logger.call thread)

theorem record_eq {logger : AsyncLogger.State Thread} {queue : LogQueue Thread}
    (same : queue.pending = logger.queue) : (State.record logger queue).logger = logger := by
  rw [State.record, same]

theorem inv_initial [Fintype Thread] (setup : Setup) :
    Inv setup (initial setup : State Thread) where
  logger := AsyncLogger.inv_initial setup.config
  tickets := ⟨_, Queue.CustomMPMCLockFreeQueue.inv_initial setup.queueCapacity⟩
  one := Queue.CustomMPMCLockFreeQueue.oneConsumer_initial none
  queued := rfl
  stands _ := rfl

theorem isEnqueue_separate {thread : Thread} {msg : LogMsg Thread}
    {action : Action (LogMsg Thread)} (permitted : IsEnqueue msg action) :
    Separate none (some thread, action) := by
  cases action with
  | enqueue => rintro ⟨⟩
  | dequeue => cases permitted
  | loadPos | loadSeq | exchange | exchangeFailed | accessData | storeSeq => trivial

theorem isDequeue_separate {action : Action (LogMsg Thread)} (permitted : IsDequeue action) :
    Separate (none : Option Thread) (none, action) := by
  cases action with
  | enqueue => cases permitted
  | dequeue => rfl
  | loadPos | loadSeq | exchange | exchangeFailed | accessData | storeSeq => trivial

theorem Inv.writing [Fintype Thread] (inv : Inv setup state) {thread : Thread}
    {msg : LogMsg Thread} (phase : state.logger.call thread = .returning msg)
    (inside : (state.queue.phase (some thread)).enqueues = true) :
    (state.queue.phase (some thread)).Writes := by
  have stands := inv.stands thread
  rw [phase] at stands
  rcases stands with idle | writes
  · rw [idle] at inside
    cases inside
  · exact writes

section Steps

variable [DecidableEq Thread]

/-- The logger takes no step, or one of its steps with an atomic queue, or finds nothing in
a queue that need not be empty. -/
inductive Seen (setup : Setup) (state next : State Thread) (event : Event Thread) : Prop
  | same (logger : next.logger = state.logger) (keeps : Keeps state event)
  | steps (seen : AsyncLogger.Event Thread)
      (stepped : Stepped setup.config state.logger seen next.logger)
      (keeps : Keeps state event ↔ AsyncLogger.Keeps state.logger seen)
  | nothing (phase : state.logger.worker = .dequeuing)
      (logger : next.logger = { state.logger with worker := .testing })
      (keeps : Keeps state event)

variable [Fintype Thread]

theorem Inv.pending_enqueue (inv : Inv setup state)
    (small : state.queue.tailClaims.length < 2 ^ 63) {thread : Thread}
    {action : Action (LogMsg Thread)} {queue : LogQueue Thread}
    (stepped : Queue.CustomMPMCLockFreeQueue.Step setup.queueCapacity state.queue
      (some thread, action) queue) :
    state.logger.queue ++ accepts state.queue (some thread, action) = queue.pending := by
  rcases inv.tickets with ⟨ledger, tickets⟩
  have quiet : (state.queue.phase (some thread)).dequeues = false := by
    by_contra dequeues
    cases inv.one.others _ (Bool.not_eq_false _ ▸ dequeues)
  have pending := inv.one.pending_step small tickets stepped
  rwa [delivers_eq_nil quiet, List.nil_append, inv.queued] at pending

theorem Inv.pending_dequeue (inv : Inv setup state)
    (small : state.queue.tailClaims.length < 2 ^ 63)
    {action : Action (LogMsg Thread)} {queue : LogQueue Thread}
    (stepped : Queue.CustomMPMCLockFreeQueue.Step setup.queueCapacity state.queue
      (none, action) queue) :
    state.logger.queue = delivers state.queue (none, action) ++ queue.pending := by
  rcases inv.tickets with ⟨ledger, tickets⟩
  have pending := inv.one.pending_step small tickets stepped
  rwa [accepts_eq_nil inv.one.consumes, List.append_nil,
    inv.queued] at pending

theorem Inv.seen (inv : Inv setup state)
    (fits : setup.poolMsgCount ≤ setup.queueCapacity.toNat)
    (small : state.queue.tailClaims.length + setup.queueCapacity.toNat < 2 ^ 63)
    (step : Step setup state event next) : Seen setup state next event := by
  rcases inv.tickets with ⟨ledger, tickets⟩
  cases step with
  | logger event logger allowed stepped => exact .steps event stepped Iff.rfl
  | enqueue thread action queue msg running phase permitted stepped =>
      have stands := inv.stands thread
      rw [phase] at stands
      have pending := inv.pending_enqueue (by omega) stepped
      have room : state.logger.queue.length < setup.config.queueCapacity :=
        inv.logger.room fits (by rw [phase]; rfl)
      cases stepped.enqueues permitted stands with
      | seeks after accepted =>
          rw [accepted, List.append_nil] at pending
          rw [if_pos after.seeking]
          exact .same (record_eq pending.symm) fun accepts => absurd accepted accepts
      | refused pos before behind after =>
          have full := inv.one.le_pending tickets small before behind
          rw [inv.queued] at full
          exact absurd full (Nat.not_le.mpr room)
      | claims after accepted =>
          rw [accepted] at pending
          have made : CallStepped setup.config state.logger thread .enqueue _ :=
            .enqueue msg phase
          rw [if_pos room, pending] at made
          rw [if_neg (by rw [after.seeking]; exact Bool.false_ne_true)]
          refine .steps (.call thread .enqueue) (.call thread _ _ running made) ?_
          rw [Keeps, accepted]
          exact forall_prop_of_true (List.cons_ne_nil _ _)
  | writes thread action queue msg phase permitted inside stepped =>
      have pending := inv.pending_enqueue (by omega) stepped
      have accepted := (stepped.writes (inv.writing phase inside)).2
      rw [accepted, List.append_nil] at pending
      exact .same (record_eq pending.symm) fun accepts => absurd accepted accepts
  | dequeue action queue phase permitted stepped =>
      have pending := inv.pending_dequeue (by omega) stepped
      cases stepped.dequeues permitted inv.one.consumes with
      | runs after delivered =>
          rw [delivered, List.nil_append] at pending
          rw [if_pos after]
          exact .same (record_eq pending.symm) trivial
      | returns after delivered =>
          rw [delivered] at pending
          rw [if_neg (by rw [after]; exact Bool.false_ne_true)]
          cases value : (state.queue.phase none).value with
          | none =>
              rw [value, Option.toList_none, List.nil_append] at pending
              exact .nothing phase (record_eq pending.symm) trivial
          | some msg =>
              rw [value] at pending
              refine .steps .dequeue ?_ Iff.rfl
              exact .dequeue msg queue.pending phase pending

theorem Seen.inv (seen : Seen setup state next event)
    (fits : setup.poolMsgCount ≤ setup.queueCapacity.toNat)
    (inv : AsyncLogger.Inv setup.config state.logger) :
    AsyncLogger.Inv setup.config next.logger := by
  cases seen with
  | same logger =>
      rw [logger]
      exact inv
  | steps seen stepped => exact inv.step fits stepped
  | nothing phase logger =>
      rw [logger]
      exact inv.dequeueNothing phase

theorem Seen.kept_iff (seen : Seen setup state next event)
    (fits : setup.poolMsgCount ≤ setup.queueCapacity.toNat)
    (inv : AsyncLogger.Inv setup.config state.logger) :
    Kept next.logger ↔ Kept state.logger ∧ Keeps state event := by
  cases seen with
  | same logger keeps =>
      rw [logger]
      exact (and_iff_left keeps).symm
  | steps seen stepped keeps =>
      rw [keeps]
      exact inv.kept_iff fits stepped
  | nothing phase logger keeps =>
      rw [logger, kept_iff_of_working (by rw [phase]; nofun) _ _ .testing nofun]
      exact (and_iff_left keeps).symm

/-! ## Runs -/

theorem Inv.record (inv : Inv setup state) (two : 2 ≤ setup.queueCapacity.toNat)
    (small : state.queue.tailClaims.length < 2 ^ 63) {thread : Option Thread}
    {action : Action (LogMsg Thread)} {queue : LogQueue Thread}
    (stepped : Queue.CustomMPMCLockFreeQueue.Step setup.queueCapacity state.queue
      (thread, action) queue)
    (separate : Separate none (thread, action))
    {logger : AsyncLogger.State Thread}
    (kept : AsyncLogger.Inv setup.config (State.record logger queue).logger)
    (stands : ∀ thread, Stands (queue.phase (some thread)) (logger.call thread)) :
    Inv setup (.record logger queue) := by
  rcases inv.tickets with ⟨ledger, tickets⟩
  exact ⟨kept, stepped.inv two small tickets, inv.one.step tickets separate stepped, rfl,
    stands⟩

theorem Inv.stands_logger (inv : Inv setup state) {event : AsyncLogger.Event Thread}
    {logger : AsyncLogger.State Thread} (allowed : state.allows event = true)
    (stepped : Stepped setup.config state.logger event logger) :
    logger.queue = state.logger.queue ∧
      ∀ thread, Stands (state.queue.phase (some thread)) (logger.call thread) := by
  have keeps : ∀ thread call,
      Stands (state.queue.phase (some thread)) call → ∀ other,
      Stands (state.queue.phase (some other)) ((state.logger.goto thread call).call other) :=
    fun thread call here => goto_call
      (fun other call => Stands (state.queue.phase (some other)) call) here
      fun other _ => inv.stands other
  cases stepped with
  | test | destroy | join => exact ⟨rfl, inv.stands⟩
  | nothing | dequeue => cases allowed
  | write | deallocate => exact ⟨rfl, inv.stands⟩
  | call thread event next running stepped =>
      have here := inv.stands thread
      cases stepped with
      | exhausted => exact ⟨rfl, inv.stands⟩
      | allocate buffer phase =>
          rw [phase] at here
          exact ⟨rfl, keeps thread (.formatting buffer) here⟩
      | format text buffer phase =>
          rw [phase] at here
          exact ⟨rfl, keeps thread (.enqueueing _) (.inl here)⟩
      | formatFailed buffer phase =>
          rw [phase] at here
          exact ⟨rfl, keeps thread (.failed buffer) here⟩
      | deallocate buffer phase =>
          rw [phase] at here
          exact ⟨rfl, keeps thread .idle here⟩
      | enqueue => cases allowed
      | finish msg phase =>
          rw [phase] at here
          refine ⟨rfl, keeps thread .idle ?_⟩
          rcases here with idle | writes
          · exact idle
          · rw [State.allows, writes.enqueues] at allowed
            cases allowed

/-- A call of `enqueue` counts as made when it has won its ticket or been refused. -/
theorem Inv.stands_enqueue (inv : Inv setup state) {thread : Thread} {msg : LogMsg Thread}
    {action : Action (LogMsg Thread)} {queue : LogQueue Thread}
    (phase : state.logger.call thread = .enqueueing msg) (permitted : IsEnqueue msg action)
    (stepped : Queue.CustomMPMCLockFreeQueue.Step setup.queueCapacity state.queue
      (some thread, action) queue) (other : Thread) :
    Stands (queue.phase (some other))
      ((if (queue.phase (some thread)).seeking then state.logger
        else enqueued state.logger thread msg).call other) := by
  have here := inv.stands thread
  rw [phase] at here
  have others : ∀ other ≠ thread,
      Stands (queue.phase (some other)) (state.logger.call other) := by
    intro other different
    rw [stepped.phase_of_ne fun equal => different (Option.some.inj equal)]
    exact inv.stands other
  have made : (queue.phase (some thread)).seeking = false →
      Stands (queue.phase (some thread)) (.returning msg) →
      Stands (queue.phase (some other))
        ((if (queue.phase (some thread)).seeking then state.logger
          else enqueued state.logger thread msg).call other) := by
    intro found stands
    rw [if_neg (by rw [found]; exact Bool.false_ne_true)]
    exact goto_call (fun other call => Stands (queue.phase (some other)) call) stands
      others other
  cases stepped.enqueues permitted here with
  | seeks after =>
      rw [if_pos after.seeking]
      by_cases same : other = thread
      · subst same
        rw [phase]
        exact .inr after
      · exact others other same
  | refused pos before behind after => exact made (by rw [after]; rfl) (.inl after)
  | claims after => exact made after.seeking (.inr after)

theorem Inv.step (inv : Inv setup state) (two : 2 ≤ setup.queueCapacity.toNat)
    (fits : setup.poolMsgCount ≤ setup.queueCapacity.toNat)
    (small : state.queue.tailClaims.length + setup.queueCapacity.toNat < 2 ^ 63)
    (step : Step setup state event next) : Inv setup next := by
  have kept := (inv.seen fits small step).inv fits inv.logger
  cases step with
  | logger event logger allowed stepped =>
      rcases inv.stands_logger allowed stepped with ⟨same, stands⟩
      exact ⟨kept, inv.tickets, inv.one, inv.queued.trans same.symm, stands⟩
  | enqueue thread action queue msg running phase permitted stepped =>
      exact inv.record two (by omega) stepped (isEnqueue_separate permitted) kept
        (inv.stands_enqueue phase permitted stepped)
  | writes thread action queue msg phase permitted inside stepped =>
      refine inv.record two (by omega) stepped (isEnqueue_separate permitted) kept ?_
      intro other
      by_cases same : other = thread
      · subst same
        rw [phase]
        exact (stepped.writes (inv.writing phase inside)).1
      · rw [stepped.phase_of_ne fun equal => same (Option.some.inj equal)]
        exact inv.stands other
  | dequeue action queue phase permitted stepped =>
      refine inv.record two (by omega) stepped (isDequeue_separate permitted) kept ?_
      intro other
      have same : ∀ value, (received state.logger value).call = state.logger.call := by
        intro value
        cases value <;> rfl
      rw [stepped.phase_of_ne (Option.some_ne_none other), apply_ite AsyncLogger.State.call,
        same, ite_self]
      exact inv.stands other

omit [Fintype Thread] in
theorem tailClaims_le_of_run {past : List (State Thread × Event Thread)}
    {final : State Thread} (run : (system setup).Run past final)
    {entry : State Thread × Event Thread} (member : entry ∈ past) :
    entry.1.queue.tailClaims.length ≤ final.queue.tailClaims.length := by
  induction run with
  | start start => cases member
  | @step past current event next run stepped induction =>
      have longer : current.queue.tailClaims.length ≤ next.queue.tailClaims.length := by
        cases Step.of_step stepped with
        | logger => exact le_rfl
        | enqueue _ _ queue _ _ _ _ moved => exact moved.tailClaims_extend.length_le
        | writes _ _ queue _ _ _ _ moved => exact moved.tailClaims_extend.length_le
        | dequeue _ queue _ _ moved => exact moved.tailClaims_extend.length_le
      rcases List.mem_cons.mp member with rfl | earlier
      · exact longer
      · exact (induction earlier).trans longer

/-- The logger delivers every message under the same condition when its queue is
CustomMPMCLockFreeQueue and every load, store and exchange of the queue is a step of its
own, while fewer than `2 ^ 63` messages have been logged. -/
theorem delivered_iff_over_queueSteps (setup : Setup) (two : 2 ≤ setup.queueCapacity.toNat)
    (fits : setup.poolMsgCount ≤ setup.queueCapacity.toNat)
    {past : List (State Thread × Event Thread)} {final : State Thread}
    (run : (system setup).Run past final)
    (small : final.queue.tailClaims.length + setup.queueCapacity.toNat < 2 ^ 63)
    (returned : final.logger.destructor = .returned) :
    Delivered setup.config final.logger ↔ ∀ entry ∈ past, Keeps entry.1 entry.2 := by
  have restricted : ((system setup).restrict fun current _ =>
      current.queue.tailClaims.length + setup.queueCapacity.toNat < 2 ^ 63).Run past final :=
    run.restrict fun entry member => by
      have le := tailClaims_le_of_run run member
      omega
  have preserved : ∀ (current : State Thread) event next, Inv setup current →
      ((system setup).restrict fun current _ =>
        current.queue.tailClaims.length + setup.queueCapacity.toNat < 2 ^ 63).Step
          current event next → Inv setup next := by
    rintro current event next inv ⟨stepped, small⟩
    exact inv.step two fits small (.of_step stepped)
  have start : ∀ state : State Thread, (system setup).Initial state →
      Inv setup state ∧ Kept state.logger := by
    rintro state rfl
    exact ⟨inv_initial setup, nofun, nofun⟩
  have inv : Inv setup final := by
    refine (TransitionSystem.Run.invariant (Inv setup) ?_ preserved restricted).2
    exact fun state initial => (start state initial).1
  rw [inv.logger.delivered_iff_kept returned]
  refine restricted.final_iff (Inv setup) (fun state => Kept state.logger) Keeps ?_
    preserved ?_
  · exact start
  · rintro current event next inv ⟨stepped, small⟩
    exact (inv.seen fits small (.of_step stepped)).kept_iff fits inv.logger

end Steps

def fourPlaces : Setup where
  poolMsgCount := 2
  queueCapacity := ⟨4, by decide, by decide⟩
  logBufferSize := 512

/-- A `dequeue` finds nothing between the claim of the message and its publication. -/
def interruptedEnqueue : List (Event Unit) :=
  [.logger (.call () (.allocate 1)), .logger (.call () (.format [72])),
    .enqueue () (.enqueue ⟨(), 0, 1, [72]⟩), .enqueue () .loadPos, .enqueue () .loadSeq,
    .enqueue () .exchange, .logger .test, .dequeue .dequeue, .dequeue .loadPos,
    .dequeue .loadSeq, .enqueue () .accessData, .enqueue () .storeSeq,
    .logger (.call () .finish), .logger .test, .dequeue .dequeue, .dequeue .loadPos,
    .dequeue .loadSeq, .dequeue .exchange, .dequeue .accessData, .dequeue .storeSeq,
    .logger (.write 5), .logger .deallocate, .logger .destroy, .logger .test, .logger .join]

theorem delivered_iff_over_queueSteps_interrupted :
    ∃ past, ∃ final : State Unit, (system fourPlaces).Run past final ∧
      final.logger.messages.length = 1 ∧
      (Delivered fourPlaces.config final.logger ↔ ∀ entry ∈ past, Keeps entry.1 entry.2) := by
  rcases TransitionSystem.exists_run_of_events (initial fourPlaces) (step fourPlaces)
    interruptedEnqueue (fun final => final.logger.destructor = .returned ∧
      final.queue.tailClaims.length = 1 ∧ final.logger.messages.length = 1)
    (by decide) with ⟨past, final, run, _, returned, claims, written⟩
  refine ⟨past, final, run, written,
    delivered_iff_over_queueSteps fourPlaces (by decide) (by decide) run ?_ returned⟩
  rw [claims]
  decide

end FeederNet.AsyncLogger.QueueSteps
