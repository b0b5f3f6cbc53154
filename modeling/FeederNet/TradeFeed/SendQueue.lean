import FeederNet.Queue.CustomSPSCLockFreeQueue.Contents
import FeederNet.TradeFeed.TradeDataSequencer

/-! # TradeDataSequencer and its send queue

`TradeDataSequencer` with the calls of `sendQueue_.enqueue` run step by step against a
consumer. A message is its buffer with the number that was received into it, and the
buffers that are not on the way through the sequencer and the queue are free for the
receiver to fill.
-/

namespace FeederNet.TradeFeed.SendQueue

open Queue (CustomSPSCLockFreeQueue.step CustomSPSCLockFreeQueue.enqueueEvent
  CustomSPSCLockFreeQueue.dequeueEvent)

structure Message where
  buffer : Nat
  number : Word64
  deriving DecidableEq, Repr

instance : SequencedMsg Message where
  sequenceNumber := Message.number

inductive Event
  /-- A step of the sequencer that neither takes nor passes on a message. -/
  | sequencer (event : TradeDataSequencer.Event Message)
  /-- `recvQueue_.dequeue()` yields a message. -/
  | dequeue (msg : Message)
  /-- `recv` yields a whole message, which `onRecoveredMsg` checks. -/
  | receive (msg : Message)
  /-- The next step of the call of `sendQueue_.enqueue`. -/
  | enqueue
  /-- The next step of the consumer's `dequeue`. -/
  | consume
  /-- The consumer returns the first buffer it has. -/
  | deallocate
  deriving DecidableEq, Repr

/-- `recovered` is the recovered message on its way to the queue, and `consumed` are
the buffers that the consumer has. -/
structure State where
  free : List Nat
  sequencer : TradeDataSequencer.State Message
  recovered : Option Message
  queue : Queue.CustomSPSCLockFreeQueue.State Message
  consumed : List Nat

namespace State

def initial (poolMsgCount : Nat) (first : Word64) : State where
  free := List.range poolMsgCount
  sequencer := .initial first
  recovered := none
  queue := Queue.CustomSPSCLockFreeQueue.initial
  consumed := []

/-- The message that `sendQueue_.enqueue` is called with, and the end of the call for
the sequencer. -/
def passes (state : State) :
    Option (Message × (Bool → TradeDataSequencer.Event Message)) :=
  match state.recovered, state.sequencer.phase with
  | some msg, _ => some (msg, .receive msg)
  | none, .forwarding msg _ => some (msg, .forward)
  | none, _ => none

def held (state : State) : List Message :=
  state.recovered.toList ++
    match state.sequencer.phase with
    | .requesting msg | .recovering msg _ _ | .forwarding msg _ => [msg]
    | .polling | .threw | .stopped => []

def places (state : State) : List Nat :=
  state.free ++ state.held.map Message.buffer ++
    state.queue.contents.map Message.buffer ++ state.consumed

end State

/-- The sequencer's other steps: it is stopped, finds no message, or gets on with a
recovery. -/
def Quiet : TradeDataSequencer.Event Message → Bool
  | .dequeue (some _) | .receive _ _ | .forward _ => false
  | _ => true

def step (capacity : PowerOfTwo) (state : State) : Event → Option State
  | .sequencer event =>
      if Quiet event = true ∧ state.recovered = none then
        (TradeDataSequencer.step state.sequencer event).map fun sequencer =>
          { state with sequencer := sequencer }
      else none
  | .dequeue msg =>
      if msg.buffer ∈ state.free then
        (TradeDataSequencer.step state.sequencer (.dequeue (some msg))).map fun sequencer =>
          { state with
            sequencer := sequencer
            free :=
              if sequencer.phase = .polling then state.free
              else state.free.erase msg.buffer }
      else none
  | .receive msg =>
      match state.recovered, state.sequencer.phase with
      | none, .recovering _ _ _ =>
          if msg.buffer ∈ state.free then
            if msg.number ≠ state.sequencer.nextSequence then
              some { state with
                sequencer := state.sequencer.goto .threw
                free := state.free.erase msg.buffer }
            else
              some { state with
                recovered := some msg
                free := state.free.erase msg.buffer }
          else none
      | _, _ => none
  | .enqueue =>
      match state.passes with
      | none => none
      | some (msg, returns) =>
          match CustomSPSCLockFreeQueue.step capacity state.queue
              (CustomSPSCLockFreeQueue.enqueueEvent msg state.queue.producer) with
          | none => none
          | some queue =>
              if queue.producer = .idle then
                let accepted := decide (state.queue.accepted.length < queue.accepted.length)
                (TradeDataSequencer.step state.sequencer (returns accepted)).map
                  fun sequencer =>
                    { state with
                      sequencer := sequencer
                      recovered := none
                      queue := queue }
              else some { state with queue := queue }
  | .consume =>
      (CustomSPSCLockFreeQueue.step capacity state.queue
        (CustomSPSCLockFreeQueue.dequeueEvent state.queue.consumer)).map fun queue =>
          { state with
            queue := queue
            consumed := state.consumed ++
              ((state.queue.returns capacity).join.map Message.buffer).toList }
  | .deallocate =>
      match state.consumed with
      | [] => none
      | msg :: consumed => some { state with free := msg :: state.free, consumed := consumed }

@[reducible] def system (poolMsgCount : Nat) (capacity : PowerOfTwo) (first : Word64) :
    TransitionSystem State Event :=
  .ofStep (State.initial poolMsgCount first) (step capacity)

/-! ## What the queue accepts -/

/-- The accepted messages are those numbered from `first` up to `nextSequence_ - 1`,
and every buffer that the queue refused is still somewhere. -/
structure Delivered (first : Word64) (state : State) : Prop where
  numbers : state.queue.accepted.map Message.number =
    (List.range state.queue.accepted.length).map fun index =>
      first + BitVec.ofNat 64 index
  next : state.sequencer.nextSequence =
    first + BitVec.ofNat 64 state.queue.accepted.length
  kept : ∀ msg ∈ state.queue.refused, msg.buffer ∈ state.places

instance (first : Word64) (state : State) : Decidable (Delivered first state) :=
  decidable_of_iff (_ ∧ _ ∧ _) ⟨fun ⟨numbers, next, kept⟩ => ⟨numbers, next, kept⟩,
    fun delivered => ⟨delivered.numbers, delivered.next, delivered.kept⟩⟩

/-- The queue has a slot when the sequencer looks, and the message that showed a gap
is passed on only after its whole recovery. -/
def Delivers (capacity : PowerOfTwo) (state : State) : Event → Prop
  | .enqueue =>
      match state.queue.producer, state.sequencer.phase with
      | .loadedTail _ tail, _ => ¬ tail + 1 - state.queue.head > capacity.value
      | .written _ _, .forwarding _ cutShort => cutShort = false
      | _, _ => True
  | _ => True

/-! ## One call of enqueue -/

section Enqueue

variable {capacity : PowerOfTwo} {queue next : Queue.CustomSPSCLockFreeQueue.State Message}
  {msg : Message}

inductive Enqueues (capacity : PowerOfTwo) (msg : Message)
    (queue next : Queue.CustomSPSCLockFreeQueue.State Message) : Prop
  | goesOn (calls : next.producer.ptr = some msg) (accepted : next.accepted = queue.accepted)
      (refused : next.refused = queue.refused)
      (room : ∀ ptr tail, queue.producer = .loadedTail ptr tail →
        ¬ tail + 1 - queue.head > capacity.value)
      (unwritten : ∀ ptr tail, queue.producer ≠ .written ptr tail)
  | refuses (tail : Word64) (loaded : queue.producer = .loadedTail msg tail)
      (full : tail + 1 - queue.head > capacity.value) (returned : next.producer = .idle)
      (accepted : next.accepted = queue.accepted)
      (refused : next.refused = queue.refused ++ [msg])
  | accepts (tail : Word64) (written : queue.producer = .written msg tail)
      (returned : next.producer = .idle) (accepted : next.accepted = queue.accepted ++ [msg])
      (refused : next.refused = queue.refused)

theorem enqueues_of_step
    (calls : ∀ other, queue.producer.ptr = some other → other = msg)
    (stepped : CustomSPSCLockFreeQueue.step capacity queue
      (CustomSPSCLockFreeQueue.enqueueEvent msg queue.producer) = some next) :
    Enqueues capacity msg queue next := by
  have step := Queue.CustomSPSCLockFreeQueue.Step.of_step stepped
  cases stands : queue.producer with
  | idle =>
      rw [stands] at step
      cases step with
      | enqueue _ _ =>
          exact .goesOn rfl rfl rfl (fun _ _ loaded => by rw [stands] at loaded; cases loaded)
            (fun _ _ written => by rw [stands] at written; cases written)
  | loadedTail loaded tail =>
      have same := calls loaded (by rw [stands]; rfl)
      rw [stands] at step
      cases step with
      | full phase full =>
          cases stands.symm.trans phase
          subst same
          exact .refuses tail stands full rfl rfl rfl
      | notFull phase room =>
          cases stands.symm.trans phase
          refine .goesOn (congrArg some same) rfl rfl (fun _ _ again => ?_)
            (fun _ _ written => by rw [stands] at written; cases written)
          rw [stands] at again
          cases again
          exact room
  | admitted loaded tail =>
      have same := calls loaded (by rw [stands]; rfl)
      rw [stands] at step
      cases step with
      | writeSlot phase =>
          cases stands.symm.trans phase
          exact .goesOn (congrArg some same) rfl rfl
            (fun _ _ loaded => by rw [stands] at loaded; cases loaded)
            (fun _ _ written => by rw [stands] at written; cases written)
  | written loaded tail =>
      have same := calls loaded (by rw [stands]; rfl)
      rw [stands] at step
      cases step with
      | storeTail phase =>
          cases stands.symm.trans phase
          subst same
          exact .accepts tail stands rfl rfl rfl

theorem dequeue_frame
    (stepped : CustomSPSCLockFreeQueue.step capacity queue
      (CustomSPSCLockFreeQueue.dequeueEvent queue.consumer) = some next) :
    next.producer = queue.producer ∧ next.accepted = queue.accepted ∧
      next.refused = queue.refused := by
  have step := Queue.CustomSPSCLockFreeQueue.Step.of_step stepped
  cases stands : queue.consumer with
  | idle =>
      rw [stands] at step
      cases step with
      | dequeue _ => exact ⟨rfl, rfl, rfl⟩
  | loadedHead head =>
      rw [stands] at step
      cases step with
      | empty _ _ => exact ⟨rfl, rfl, rfl⟩
      | nonEmpty _ _ => exact ⟨rfl, rfl, rfl⟩
  | nonEmpty =>
      rw [stands] at step
      cases step with
      | fetchAdd _ => exact ⟨rfl, rfl, rfl⟩
  | claimed head =>
      rw [stands] at step
      cases step with
      | readSlot _ => exact ⟨rfl, rfl, rfl⟩

end Enqueue

/-! ## The sequencer between two calls -/

section Sequencer

variable {state : State} {sequencer : TradeDataSequencer.State Message}
  {event : TradeDataSequencer.Event Message} {msg : Message}
  {returns : Bool → TradeDataSequencer.Event Message}

/-- A quiet step happens between two calls, and sends nothing. -/
theorem quiet_step (quiet : Quiet event = true) (idle : state.recovered = none)
    (stepped : TradeDataSequencer.step state.sequencer event = some sequencer) :
    state.passes = none ∧ sequencer.sent = state.sequencer.sent ∧
      TradeDataSequencer.Completed state.sequencer event := by
  have step := TradeDataSequencer.Step.of_step stepped
  unfold State.passes
  rw [idle]
  cases step with
  | stop phase => exact ⟨by rw [phase], rfl, trivial⟩
  | dequeueNothing phase => exact ⟨by rw [phase], rfl, trivial⟩
  | dequeue msg phase => cases quiet
  | sendRequest phase =>
      exact ⟨by rw [phase], TradeDataSequencer.receiveLoop_sent, trivial⟩
  | requestFailed phase => exact ⟨by rw [phase], rfl, trivial⟩
  | timeout phase => exact ⟨by rw [phase], rfl, trivial⟩
  | epollFailed phase => exact ⟨by rw [phase], rfl, trivial⟩
  | mismatch recovered accepted phase different => cases quiet
  | receive recovered accepted phase equal => cases quiet
  | receiveShort phase => exact ⟨by rw [phase], rfl, trivial⟩
  | receiveClosed phase => exact ⟨by rw [phase], rfl, trivial⟩
  | deallocateFailed phase => exact ⟨by rw [phase], rfl, trivial⟩
  | forward accepted phase => cases quiet

theorem dequeue_step
    (stepped : TradeDataSequencer.step state.sequencer (.dequeue (some msg)) =
      some sequencer) :
    state.sequencer.phase = .polling ∧ sequencer.sent = state.sequencer.sent := by
  have step := TradeDataSequencer.Step.of_step stepped
  cases step with
  | dequeue msg phase =>
      refine ⟨phase, ?_⟩
      unfold TradeDataSequencer.State.dispatch
      split
      · rfl
      · split <;> rfl

/-- The recovered message was checked before the call. -/
structure Inv (state : State) : Prop where
  phase : TradeDataSequencer.PhaseValid state.sequencer.nextSequence state.sequencer.phase
  sent : state.sequencer.sent = state.queue.accepted
  checked : ∀ msg, state.recovered = some msg →
    (∃ gap num received, state.sequencer.phase = .recovering gap num received) ∧
      msg.number = state.sequencer.nextSequence
  calls : ∀ msg, state.queue.producer.ptr = some msg →
    state.passes.map Prod.fst = some msg

theorem Inv.idle (inv : Inv state) (nothing : state.passes = none) :
    state.queue.producer.ptr = none := by
  cases calls : state.queue.producer.ptr with
  | none => rfl
  | some msg =>
      have passes := inv.calls msg calls
      rw [nothing] at passes
      cases passes

theorem Inv.call_end (inv : Inv state) (passes : state.passes = some (msg, returns))
    {accepted : Bool}
    (stepped : TradeDataSequencer.step state.sequencer (returns accepted) =
      some sequencer) :
    (sequencer.sent = if accepted then state.sequencer.sent ++ [msg]
      else state.sequencer.sent) ∧
    (TradeDataSequencer.Completed state.sequencer (returns accepted) ↔
      accepted = true ∧ ∀ gap cutShort,
        state.sequencer.phase = .forwarding gap cutShort → cutShort = false) := by
  unfold State.passes at passes
  cases recovered : state.recovered with
  | some msg =>
      rw [recovered] at passes
      cases passes
      rcases inv.checked msg recovered with ⟨⟨gap, num, received, phase⟩, number⟩
      have step := TradeDataSequencer.Step.of_step stepped
      cases step with
      | mismatch _ _ _ different => exact absurd number different
      | receive _ _ _ equal =>
          refine ⟨TradeDataSequencer.receiveLoop_sent, ?_⟩
          rw [phase]
          constructor
          · intro completed
            exact ⟨completed equal, nofun⟩
          · intro accepts _
            exact accepts.1
  | none =>
      rw [recovered] at passes
      cases phase : state.sequencer.phase with
      | forwarding gap cutShort =>
          rw [phase] at passes
          cases passes
          have step := TradeDataSequencer.Step.of_step stepped
          cases step with
          | forward _ here =>
              cases phase.symm.trans here
              refine ⟨rfl, ?_⟩
              simp only [TradeDataSequencer.Completed, phase]
              constructor
              · intro given
                rcases given with ⟨accepts, whole⟩
                refine ⟨accepts, ?_⟩
                rintro _ _ ⟨⟩
                exact whole
              · intro given
                rcases given with ⟨accepts, whole⟩
                exact ⟨accepts, whole _ _ rfl⟩
      | _ =>
          rw [phase] at passes
          cases passes

end Sequencer

/-! ## Exactly when nextSequence_ counts what was accepted -/

/-- `Delivered` with no refused message at all. -/
structure Counted (first : Word64) (state : State) : Prop where
  consecutive : TradeDataSequencer.Consecutive first state.sequencer
  refused : state.queue.refused = []

section Exactness

variable {capacity : PowerOfTwo} {first : Word64} {state next : State} {event : Event}

theorem inv_initial (poolMsgCount : Nat) (first : Word64) :
    Inv (State.initial poolMsgCount first) where
  phase := trivial
  sent := rfl
  checked := nofun
  calls := nofun

theorem counted_initial (poolMsgCount : Nat) (first : Word64) :
    Counted first (State.initial poolMsgCount first) where
  consecutive := by simp [TradeDataSequencer.Consecutive, State.initial,
    TradeDataSequencer.State.initial]
  refused := rfl

structure Keeps (capacity : PowerOfTwo) (first : Word64) (state : State) (event : Event)
    (next : State) : Prop where
  inv : Inv next
  consecutive : TradeDataSequencer.Consecutive first state.sequencer →
    (TradeDataSequencer.Consecutive first next.sequencer ↔ Delivers capacity state event)
  refused : Delivers capacity state event → next.queue.refused = state.queue.refused

theorem Keeps.counted_iff (keeps : Keeps capacity first state event next)
    (counted : Counted first state) :
    Counted first next ↔ Delivers capacity state event := by
  have exact := keeps.consecutive counted.consecutive
  constructor
  · intro after
    exact exact.mp after.consecutive
  · intro delivers
    exact ⟨exact.mpr delivers, (keeps.refused delivers).trans counted.refused⟩

theorem Inv.between (inv : Inv state) {sequencer : TradeDataSequencer.State Message}
    {inner : TradeDataSequencer.Event Message}
    (stepped : TradeDataSequencer.step state.sequencer inner = some sequencer)
    (nothing : state.passes = none) (sent : sequencer.sent = state.sequencer.sent)
    (completed : TradeDataSequencer.Completed state.sequencer inner) (free : List Nat) :
    Inv { state with sequencer := sequencer, free := free } ∧
      (TradeDataSequencer.Consecutive first state.sequencer →
        TradeDataSequencer.Consecutive first sequencer) := by
  have step := TradeDataSequencer.Step.of_step stepped
  have idle : state.recovered = none := by
    cases recovered : state.recovered with
    | none => rfl
    | some msg =>
        rw [State.passes, recovered] at nothing
        cases nothing
  refine ⟨⟨step.phaseValid inv.phase, sent.trans inv.sent, ?_, ?_⟩, fun consecutive => ?_⟩
  · intro msg recovered
    have recovered : state.recovered = some msg := recovered
    rw [idle] at recovered
    cases recovered
  · intro msg calls
    have calls : state.queue.producer.ptr = some msg := calls
    rw [inv.idle nothing] at calls
    cases calls
  · exact (step.consecutive_iff inv.phase consecutive).mpr completed

theorem Inv.of_returned (inv : Inv state) {sequencer : TradeDataSequencer.State Message}
    {inner : TradeDataSequencer.Event Message}
    {queue : Queue.CustomSPSCLockFreeQueue.State Message}
    (ended : TradeDataSequencer.step state.sequencer inner = some sequencer)
    (returned : queue.producer = .idle) (sent : sequencer.sent = queue.accepted) :
    Inv { state with sequencer := sequencer, recovered := none, queue := queue } where
  phase := (TradeDataSequencer.Step.of_step ended).phaseValid inv.phase
  sent := sent
  checked := nofun
  calls msg calls := by
    have calls : queue.producer.ptr = some msg := calls
    rw [returned] at calls
    cases calls

theorem Inv.enqueue (inv : Inv state) (stepped : step capacity state .enqueue = some next) :
    Keeps capacity first state .enqueue next := by
  simp only [step] at stepped
  cases passes : state.passes with
  | none =>
      rw [passes] at stepped
      cases stepped
  | some call =>
      rcases call with ⟨msg, returns⟩
      rw [passes] at stepped
      simp only at stepped
      cases advanced : CustomSPSCLockFreeQueue.step capacity state.queue
          (CustomSPSCLockFreeQueue.enqueueEvent msg state.queue.producer) with
      | none =>
          rw [advanced] at stepped
          cases stepped
      | some queue =>
          rw [advanced] at stepped
          simp only at stepped
          have calls : ∀ other, state.queue.producer.ptr = some other → other = msg := by
            intro other called
            have same := inv.calls other called
            rw [passes] at same
            exact (Option.some.inj same).symm
          cases enqueues_of_step calls advanced with
          | goesOn called accepted refused room unwritten =>
              have busy : queue.producer ≠ .idle := by
                intro idle
                rw [idle] at called
                cases called
              rw [if_neg busy] at stepped
              cases stepped
              refine ⟨⟨inv.phase, inv.sent.trans accepted.symm, inv.checked, ?_⟩, ?_,
                fun _ => refused⟩
              · intro other again
                have again : queue.producer.ptr = some other := again
                rw [called] at again
                have same : state.passes.map Prod.fst = some other := by
                  rw [passes]
                  exact again
                exact same
              · intro consecutive
                have delivers : Delivers capacity state .enqueue := by
                  simp only [Delivers]
                  split
                  · rename_i loaded
                    exact room _ _ loaded
                  · rename_i written _
                    exact absurd written (unwritten _ _)
                  · trivial
                exact iff_of_true consecutive delivers
          | refuses tail loaded full returned accepted refused =>
              have flag : decide (state.queue.accepted.length < queue.accepted.length) =
                  false := by
                rw [accepted]
                simp
              rw [if_pos returned, flag] at stepped
              rcases Option.map_eq_some_iff.mp stepped with ⟨sequencer, ended, rfl⟩
              rcases inv.call_end passes ended with ⟨sent, completed⟩
              have sent : sequencer.sent = state.sequencer.sent := sent
              have stuck : ¬ Delivers capacity state .enqueue := by
                simp only [Delivers, loaded]
                exact fun room => room full
              refine ⟨inv.of_returned ended returned ?_, fun consecutive => ?_,
                fun delivers => absurd delivers stuck⟩
              · rw [sent, inv.sent, accepted]
              · have step := TradeDataSequencer.Step.of_step ended
                rw [step.consecutive_iff inv.phase consecutive, completed]
                exact iff_of_false (fun ends => nomatch ends.1) stuck
          | accepts tail written returned accepted refused =>
              have flag : decide (state.queue.accepted.length < queue.accepted.length) =
                  true := by
                rw [accepted]
                simp
              rw [if_pos returned, flag] at stepped
              rcases Option.map_eq_some_iff.mp stepped with ⟨sequencer, ended, rfl⟩
              rcases inv.call_end passes ended with ⟨sent, completed⟩
              have sent : sequencer.sent = state.sequencer.sent ++ [msg] := sent
              refine ⟨inv.of_returned ended returned ?_, fun consecutive => ?_,
                fun _ => refused⟩
              · rw [sent, inv.sent, accepted]
              · have step := TradeDataSequencer.Step.of_step ended
                rw [step.consecutive_iff inv.phase consecutive, completed, and_iff_right rfl]
                simp only [Delivers, written]
                cases state.sequencer.phase with
                | forwarding gap cutShort =>
                    constructor
                    · exact fun whole => whole _ _ rfl
                    · rintro whole _ _ ⟨⟩
                      exact whole
                | _ => exact iff_of_true nofun trivial

theorem Inv.step (inv : Inv state) (stepped : step capacity state event = some next) :
    Keeps capacity first state event next := by
  cases event with
  | sequencer inner =>
      rw [SendQueue.step] at stepped
      by_cases allowed : Quiet inner = true ∧ state.recovered = none
      · rw [if_pos allowed] at stepped
        rcases Option.map_eq_some_iff.mp stepped with ⟨sequencer, advanced, rfl⟩
        rcases quiet_step allowed.1 allowed.2 advanced with ⟨nothing, sent, completed⟩
        rcases inv.between advanced nothing sent completed state.free with ⟨kept, counts⟩
        exact ⟨kept, fun consecutive => iff_of_true (counts consecutive) trivial, fun _ => rfl⟩
      · rw [if_neg allowed] at stepped
        cases stepped
  | dequeue msg =>
      rw [SendQueue.step] at stepped
      by_cases filled : msg.buffer ∈ state.free
      · rw [if_pos filled] at stepped
        rcases Option.map_eq_some_iff.mp stepped with ⟨sequencer, advanced, rfl⟩
        rcases dequeue_step advanced with ⟨polling, sent⟩
        have idle : state.recovered = none := by
          cases recovered : state.recovered with
          | none => rfl
          | some msg =>
              rcases (inv.checked msg recovered).1 with ⟨_, _, _, recovering⟩
              rw [polling] at recovering
              cases recovering
        have nothing : state.passes = none := by
          rw [State.passes, idle, polling]
        rcases inv.between advanced nothing sent trivial
          (if sequencer.phase = .polling then state.free
            else state.free.erase msg.buffer) with ⟨kept, counts⟩
        exact ⟨kept, fun consecutive => iff_of_true (counts consecutive) trivial, fun _ => rfl⟩
      · rw [if_neg filled] at stepped
        cases stepped
  | receive msg =>
      simp only [SendQueue.step] at stepped
      split at stepped
      · rename_i gap num received idle phase
        have nothing : state.passes = none := by
          rw [State.passes, idle, phase]
        split at stepped
        · split at stepped
          · cases stepped
            refine ⟨⟨trivial, inv.sent, ?_, ?_⟩,
              fun consecutive => iff_of_true consecutive trivial, fun _ => rfl⟩
            · intro other recovered
              have recovered : state.recovered = some other := recovered
              rw [idle] at recovered
              cases recovered
            · intro other calls
              have calls : state.queue.producer.ptr = some other := calls
              rw [inv.idle nothing] at calls
              cases calls
          · rename_i expected
            cases stepped
            refine ⟨⟨inv.phase, inv.sent, ?_, ?_⟩,
              fun consecutive => iff_of_true consecutive trivial, fun _ => rfl⟩
            · rintro _ ⟨⟩
              exact ⟨⟨gap, num, received, phase⟩, not_not.mp expected⟩
            · intro other calls
              have calls : state.queue.producer.ptr = some other := calls
              rw [inv.idle nothing] at calls
              cases calls
        · cases stepped
      · cases stepped
  | enqueue => exact inv.enqueue stepped
  | consume =>
      rw [SendQueue.step] at stepped
      rcases Option.map_eq_some_iff.mp stepped with ⟨queue, advanced, rfl⟩
      rcases dequeue_frame advanced with ⟨producer, accepted, refused⟩
      refine ⟨⟨inv.phase, inv.sent.trans accepted.symm, inv.checked, ?_⟩,
        fun consecutive => iff_of_true consecutive trivial, fun _ => refused⟩
      intro msg calls
      have calls : queue.producer.ptr = some msg := calls
      rw [producer] at calls
      exact inv.calls msg calls
  | deallocate =>
      simp only [SendQueue.step] at stepped
      split at stepped
      · cases stepped
      · cases stepped
        exact ⟨⟨inv.phase, inv.sent, inv.checked, inv.calls⟩,
          fun consecutive => iff_of_true consecutive trivial, fun _ => rfl⟩

theorem Counted.delivered (inv : Inv state) (counted : Counted first state) :
    Delivered first state where
  numbers := by
    rw [← inv.sent]
    exact counted.consecutive.1
  next := by
    rw [← inv.sent]
    exact counted.consecutive.2
  kept := by
    rw [counted.refused]
    exact nofun

theorem Delivered.consecutive (inv : Inv state) (delivered : Delivered first state) :
    TradeDataSequencer.Consecutive first state.sequencer := by
  rw [TradeDataSequencer.Consecutive, inv.sent]
  exact ⟨delivered.numbers, delivered.next⟩

theorem Inv.afterStep (inv : Inv state)
    (stepped : SendQueue.step capacity state event = some next) :
    Inv next := by
  have keeps : Keeps capacity 0 state event next := inv.step stepped
  exact keeps.inv

theorem inv_of_run {poolMsgCount : Nat} {past : List (State × Event)} {final : State}
    (run : (system poolMsgCount capacity first).Run past final) :
    (∀ entry ∈ past, Inv entry.1) ∧ Inv final := by
  apply run.invariant Inv
  · intro state start
    cases start
    exact inv_initial poolMsgCount first
  · exact fun _ _ _ inv stepped => inv.afterStep stepped

theorem counted_of_delivered {poolMsgCount : Nat} {past : List (State × Event)}
    {final : State} (run : (system poolMsgCount capacity first).Run past final)
    (delivered : (∀ entry ∈ past, Delivered first entry.1) ∧ Delivered first final) :
    (∀ entry ∈ past, Counted first entry.1) ∧ Counted first final := by
  induction run with
  | start start =>
      cases start
      exact ⟨List.forall_mem_nil _, counted_initial poolMsgCount first⟩
  | @step past current event next run stepped induction =>
      rw [List.forall_mem_cons] at delivered
      have before := induction ⟨delivered.1.2, delivered.1.1⟩
      have keeps : Keeps capacity first current event next :=
        (inv_of_run run).2.step stepped
      have delivers := (keeps.consecutive before.2.consecutive).mp
        (delivered.2.consecutive keeps.inv)
      exact ⟨List.forall_mem_cons.mpr ⟨before.2, before.1⟩,
        (keeps.counted_iff before.2).mpr delivers⟩

/-- `nextSequence_` counts exactly the accepted messages throughout a run, and no
buffer is leaked, exactly when the queue has a slot whenever the sequencer looks, and
no message is passed on after its recovery was cut short. -/
theorem delivered_iff_delivers (poolMsgCount : Nat) (capacity : PowerOfTwo)
    (first : Word64) {past : List (State × Event)} {final : State}
    (run : (system poolMsgCount capacity first).Run past final) :
    ((∀ entry ∈ past, Delivered first entry.1) ∧ Delivered first final) ↔
      ∀ entry ∈ past, Delivers capacity entry.1 entry.2 := by
  have exact : ((∀ entry ∈ past, Counted first entry.1) ∧ Counted first final) ↔
      ∀ entry ∈ past, Delivers capacity entry.1 entry.2 := by
    apply run.forall_iff Inv (Counted first) (Delivers capacity)
    · intro state start
      cases start
      exact ⟨inv_initial poolMsgCount first, counted_initial poolMsgCount first⟩
    · exact fun _ _ _ inv stepped => inv.afterStep stepped
    · exact fun _ _ _ inv counted stepped => (inv.step stepped).counted_iff counted
  rw [← exact]
  constructor
  · exact counted_of_delivered run
  · intro given
    rcases given with ⟨before, last⟩
    have invs := inv_of_run run
    exact ⟨fun entry member => (before entry member).delivered (invs.1 entry member),
      last.delivered invs.2⟩

end Exactness

open Queue.CustomSPSCLockFreeQueue (twoSlots)

/-- Two messages are passed on, and the first is consumed meanwhile. -/
theorem delivered_iff_delivers_consumed :
    ∃ past final, (system 3 twoSlots 0).Run past final ∧ final.consumed = [0] ∧
      (((∀ entry ∈ past, Delivered 0 entry.1) ∧ Delivered 0 final) ↔
        ∀ entry ∈ past, Delivers twoSlots entry.1 entry.2) := by
  rcases TransitionSystem.exists_reachable_of_execute (State.initial 3 0) (step twoSlots)
    ([Event.dequeue ⟨0, 0⟩] ++ List.replicate 4 Event.enqueue ++
      [Event.dequeue ⟨1, 1⟩] ++ List.replicate 3 Event.enqueue ++
      List.replicate 4 Event.consume ++ [Event.enqueue])
    (fun state => state.consumed = [0]) (by decide) with ⟨final, ⟨past, run⟩, consumed⟩
  exact ⟨past, final, run, consumed, delivered_iff_delivers 3 twoSlots 0 run⟩

/-- Three messages arrive before the consumer takes one from the ring of two. -/
def slowConsumer : List Event :=
  [Event.dequeue ⟨0, 0⟩] ++ List.replicate 4 Event.enqueue ++ [Event.dequeue ⟨1, 1⟩] ++
    List.replicate 4 Event.enqueue ++ [Event.dequeue ⟨2, 2⟩] ++
    List.replicate 2 Event.enqueue

/-- The third is refused: `nextSequence_` counts it and its buffer is nowhere. -/
theorem refused_message_is_counted :
    ∃ state, (system 3 twoSlots 0).Reachable state ∧
      (state.queue.accepted = [⟨0, 0⟩, ⟨1, 1⟩] ∧ state.queue.refused = [⟨2, 2⟩] ∧
        state.sequencer.nextSequence = 3 ∧ 2 ∉ state.places ∧ ¬ Delivered 0 state) :=
  TransitionSystem.exists_reachable_of_execute (State.initial 3 0) (step twoSlots)
    slowConsumer (fun state => state.queue.accepted = [⟨0, 0⟩, ⟨1, 1⟩] ∧
      state.queue.refused = [⟨2, 2⟩] ∧ state.sequencer.nextSequence = 3 ∧
        2 ∉ state.places ∧ ¬ Delivered 0 state) (by decide)

end FeederNet.TradeFeed.SendQueue
