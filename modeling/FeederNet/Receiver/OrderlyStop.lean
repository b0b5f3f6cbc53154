import FeederNet.Receiver.Conservation
import FeederNet.Receiver.RunTradeReceiver

/-! # An orderly stop

What was sequenced before `DBManager::stop` is in the database once all threads have
joined exactly if `runCopy` had dequeued all of it when it found its flag cleared.
-/

namespace FeederNet.Receiver

/-! ## One step of the pipeline -/

namespace Pipeline

def waiting (pipeline : Pipeline) : List Nat :=
  match pipeline.db with
  | .polling => pipeline.batch
  | _ => []

def uncommitted (pipeline : Pipeline) : List Nat :=
  pipeline.waiting ++ pipeline.toDB.contents

def unreturned (pipeline : Pipeline) : List Nat :=
  match pipeline.db with
  | .flushing index _ => pipeline.batch.drop index
  | _ => []

section Steps

variable {poolMsgCount : Nat} {capacity : PowerOfTwo} {commitBatchSize : Nat}
  {pipeline next : Pipeline}

/-- A message on its way to the database is in no other thread's hands. -/
theorem Owned.not_held (owned : Owned poolMsgCount capacity pipeline) {msg : Nat}
    (member : msg ∈ pipeline.uncommitted) :
    msg ∉ pipeline.receiver.held ∧ msg ∉ pipeline.sequencer.held := by
  have distinct := owned.places.nodup_iff.mpr List.nodup_range
  have once := List.nodup_iff_count.mp distinct msg
  have inFlight : pipeline.waiting.count msg ≤ pipeline.unflushed.count msg := by
    cases phase : pipeline.db <;> simp [waiting, unflushed, phase]
  have present := List.count_pos_iff.mpr member
  simp only [Pipeline.places, uncommitted, List.count_append] at once present
  constructor
  · intro held
    have taken := List.count_pos_iff.mpr held
    omega
  · intro held
    have taken := List.count_pos_iff.mpr held
    omega

end Steps

end Pipeline

namespace RunTradeReceiver

open Pipeline (Owned Clear)

variable {poolMsgCount : Nat} {capacity : PowerOfTwo} {commitBatchSize : Nat}
  {current next : Pipeline}

structure Moves (current next : Pipeline) (event : Receiver.Event) : Prop where
  accepted : next.toDB.accepted = current.toDB.accepted ++ accepts current next
  moved : current.uncommitted ++ accepts current next =
    commits current next ++ next.uncommitted
  numbers : ∀ msg ∈ current.uncommitted ++ accepts current next,
    next.sequenceNumber msg = current.sequenceNumber msg
  returned : current.unreturned ++ commits current next =
    returns current event ++ next.unreturned

theorem accepts_of_append {values : List Nat}
    (accepted : next.toDB.accepted = current.toDB.accepted ++ values) :
    accepts current next = values := by
  rw [accepts, accepted, List.drop_left]

theorem accepts_of_same (accepted : next.toDB.accepted = current.toDB.accepted) :
    accepts current next = [] :=
  accepts_of_append (accepted.trans (List.append_nil _).symm)

theorem commits_of_same (db : next.db = current.db) : commits current next = [] := by
  rw [commits, db]
  exact if_neg fun both => both.2 both.1

theorem moves_of_append {event : Receiver.Event} (values : List Nat)
    (accepted : next.toDB.accepted = current.toDB.accepted ++ values)
    (contents : next.toDB.contents = current.toDB.contents ++ values)
    (batch : next.batch = current.batch) (db : next.db = current.db)
    (numbers : ∀ msg ∈ current.uncommitted ++ values,
      next.sequenceNumber msg = current.sequenceNumber msg)
    (nothing : returns current event = []) : Moves current next event := by
  have same := accepts_of_append accepted
  subst same
  refine ⟨accepted, ?_, numbers, ?_⟩
  · rw [commits_of_same db, List.nil_append, Pipeline.uncommitted, Pipeline.uncommitted,
      contents, Pipeline.waiting, Pipeline.waiting, batch, db, List.append_assoc]
  · rw [commits_of_same db, nothing, List.append_nil, List.nil_append, Pipeline.unreturned,
      Pipeline.unreturned, batch, db]

theorem moves_of_others {event : Receiver.Event} (toDB : next.toDB = current.toDB)
    (batch : next.batch = current.batch) (db : next.db = current.db)
    (numbers : ∀ msg ∈ current.uncommitted,
      next.sequenceNumber msg = current.sequenceNumber msg)
    (nothing : returns current event = []) : Moves current next event := by
  refine moves_of_append [] ?_ ?_ batch db ?_ nothing
  · rw [toDB, List.append_nil]
  · rw [toDB, List.append_nil]
  · rw [List.append_nil]
    exact numbers

theorem receiverStep_moves (owned : Owned poolMsgCount capacity current)
    {event : ReceiverEvent} (stepped : current.receiverStep capacity event = some next) :
    Moves current next (.receiver event) := by
  cases Pipeline.receiverStepped_of_receiverStep stepped with
  | moves _ _ _ _ _ _ _ numbers =>
      exact moves_of_others rfl rfl rfl
        (fun msg member => numbers msg (owned.not_held member).1) rfl
  | enqueue => exact moves_of_others rfl rfl rfl (fun _ _ => rfl) rfl

theorem sequencerStep_moves (owned : Owned poolMsgCount capacity current)
    {event : SequencerEvent} (stepped : current.sequencerStep capacity event = some next) :
    Moves current next (.sequencer event) := by
  cases Pipeline.sequencerStepped_of_sequencerStep stepped with
  | moves _ _ _ _ _ _ _ numbers =>
      exact moves_of_others rfl rfl rfl
        (fun msg member => numbers msg (owned.not_held member).2) rfl
  | dequeue => exact moves_of_others rfl rfl rfl (fun _ _ => rfl) rfl
  | enqueue msg sequencer queue passes after advanced =>
      rcases Queue.CustomSPSCLockFreeQueue.enqueued_of_step (owned.toDBPending passes)
        advanced with ⟨delivered, _, outcome⟩
      rcases outcome.exists_append with ⟨values, accepted⟩
      have contents := owned.toDB.lossless.contents_append accepted delivered
      split <;> exact moves_of_append values accepted contents rfl rfl (fun _ _ => rfl) rfl

theorem moves_of_db {event : DBEvent} (batch : List Nat)
    (accepted : next.toDB.accepted = current.toDB.accepted)
    (numbers : next.sequenceNumber = current.sequenceNumber)
    (committed : commits current next = batch)
    (moved : current.uncommitted = batch ++ next.uncommitted)
    (returned : current.unreturned ++ batch =
      returns current (.db event) ++ next.unreturned) : Moves current next (.db event) := by
  have nothing := accepts_of_same accepted
  refine ⟨?_, ?_, fun _ _ => by rw [numbers], ?_⟩
  · rw [nothing, accepted, List.append_nil]
  · rw [nothing, committed, moved, List.append_nil]
  · rw [committed, returned]

theorem moves_of_dequeue (phase : current.db = .polling)
    {queue : Queue.CustomSPSCLockFreeQueue.State Nat} {batch : List Nat} {db : DB}
    (accepted : queue.accepted = current.toDB.accepted)
    (contents : current.batch ++ current.toDB.contents = batch ++ queue.contents)
    (goesOn : db = .polling ∨ db = .flushing 0 false) :
    Moves current { current with
      toDB := queue
      batch := batch
      db := db } (.db .dequeue) := by
  rcases goesOn with rfl | rfl
  · refine moves_of_db [] accepted rfl (commits_of_same phase.symm) ?_ ?_
    · simp only [Pipeline.uncommitted, Pipeline.waiting, phase, contents, List.nil_append]
    · simp only [Pipeline.unreturned, phase, returns]
  · refine moves_of_db batch accepted rfl (if_pos ⟨phase, nofun⟩) ?_ ?_
    · simp only [Pipeline.uncommitted, Pipeline.waiting, phase, contents, List.nil_append]
    · simp only [Pipeline.unreturned, phase, returns, List.drop_zero]

theorem dbStep_moves (owned : Owned poolMsgCount capacity current)
    {event : DBEvent} (stepped : current.dbStep capacity commitBatchSize event = some next) :
    Moves current next (.db event) := by
  cases Pipeline.dbStepped_of_dbStep stepped with
  | stop phase =>
      refine moves_of_db current.batch rfl rfl ?_ ?_ ?_
      · rw [commits, phase]
        exact if_pos ⟨rfl, nofun⟩
      · simp only [Pipeline.uncommitted, Pipeline.waiting, phase, List.nil_append]
      · simp only [Pipeline.unreturned, phase, returns, List.drop_zero]
  | dequeue queue batch db phase taken goesOn advanced =>
      rcases owned.toDB.dequeue advanced with ⟨_, _, accepted, _, contents⟩
      refine moves_of_dequeue phase accepted ?_ goesOn
      rw [taken, contents, List.append_assoc]
  | deallocate index stopping msg phase found =>
      refine moves_of_db [] rfl rfl ?_ ?_ ?_
      · rw [commits, phase]
        exact if_neg fun both => nomatch both.1
      · simp only [Pipeline.uncommitted, Pipeline.waiting, phase, List.nil_append]
      · rcases List.getElem?_eq_some_iff.mp found with ⟨bound, rfl⟩
        simp only [Pipeline.unreturned, phase, returns, found, List.append_nil,
          Option.toList_some, List.drop_eq_getElem_cons bound, List.singleton_append]
  | finish index stopping phase finished =>
      refine moves_of_db [] rfl rfl ?_ ?_ ?_
      · rw [commits, phase]
        exact if_neg fun both => nomatch both.1
      · simp only [Pipeline.uncommitted, Pipeline.waiting, phase, List.nil_append]
        split <;> rfl
      · have past := List.drop_eq_nil_of_le (List.getElem?_eq_none_iff.mp finished)
        simp only [Pipeline.unreturned, phase, returns, finished, past, Option.toList_none,
          List.append_nil, List.nil_append]
        split <;> simp

theorem moves_of_step (owned : Owned poolMsgCount capacity current)
    {event : Receiver.Event}
    (stepped : current.step capacity commitBatchSize event = some next) :
    Moves current next event := by
  cases event with
  | receiver event => exact receiverStep_moves owned stepped
  | sequencer event => exact sequencerStep_moves owned stepped
  | db event => exact dbStep_moves owned stepped

/-! ## The main thread and the flags -/

def LeftLoop : DB → Prop
  | .polling | .flushing _ false => False
  | .flushing _ true | .stopped => True

structure Leaves (current next : Pipeline) (event : Receiver.Event) : Prop where
  left : LeftLoop next.db ↔ LeftLoop current.db ∨ event = .db .stop
  delivered : LeftLoop next.db → next.toDB.delivered = current.toDB.delivered
  stopped : current.db = .stopped → next.db = .stopped

theorem leaves_of_same {event : Receiver.Event} (db : next.db = current.db)
    (delivered : next.toDB.delivered = current.toDB.delivered)
    (other : event ≠ .db .stop) : Leaves current next event where
  left := by rw [db, or_iff_left other]
  delivered _ := delivered
  stopped stopped := db.trans stopped

theorem leaves_of_polling {event : Receiver.Event} (phase : current.db = .polling)
    (stays : ¬ LeftLoop next.db) (other : event ≠ .db .stop) :
    Leaves current next event where
  left := by
    rw [phase]
    exact iff_of_false stays (not_or.mpr ⟨id, other⟩)
  delivered left := absurd left stays
  stopped stopped := by
    rw [phase] at stopped
    cases stopped

theorem dbStep_leaves {event : DBEvent}
    (stepped : current.dbStep capacity commitBatchSize event = some next) :
    Leaves current next (.db event) := by
  cases Pipeline.dbStepped_of_dbStep stepped with
  | stop phase =>
      refine ⟨iff_of_true trivial (Or.inr rfl), fun _ => rfl, fun stopped => ?_⟩
      rw [phase] at stopped
      cases stopped
  | dequeue queue batch db phase taken goesOn advanced =>
      refine leaves_of_polling phase ?_ nofun
      rcases goesOn with rfl | rfl <;> exact id
  | deallocate index stopping msg phase found =>
      refine ⟨?_, fun _ => rfl, fun stopped => ?_⟩
      · rw [phase]
        cases stopping <;> simp [LeftLoop]
      · rw [phase] at stopped
        cases stopped
  | finish index stopping phase finished =>
      refine ⟨?_, fun _ => rfl, fun stopped => ?_⟩
      · rw [phase]
        cases stopping <;> simp [LeftLoop]
      · rw [phase] at stopped
        cases stopped

theorem leaves_of_step (owned : Owned poolMsgCount capacity current)
    {event : Receiver.Event}
    (stepped : current.step capacity commitBatchSize event = some next) :
    Leaves current next event := by
  cases event with
  | receiver event =>
      cases Pipeline.receiverStepped_of_receiverStep stepped with
      | moves | enqueue => exact leaves_of_same rfl rfl nofun
  | sequencer event =>
      cases Pipeline.sequencerStepped_of_sequencerStep stepped with
      | moves | dequeue => exact leaves_of_same rfl rfl nofun
      | enqueue msg sequencer queue passes after advanced =>
          have delivered := (Queue.CustomSPSCLockFreeQueue.enqueued_of_step
            (owned.toDBPending passes) advanced).1
          split <;> exact leaves_of_same rfl delivered nofun
  | db event => exact dbStep_leaves stepped

structure Inv (poolMsgCount : Nat) (capacity : PowerOfTwo) (state : State) : Prop where
  owned : Owned poolMsgCount capacity state.pipeline
  length : state.sequenced.length = state.pipeline.toDB.accepted.length
  ledger : state.sequenced =
    state.committed ++ state.pipeline.uncommitted.map (messageIn state.pipeline)
  returned : state.committed.map Message.buffer =
    state.returned ++ state.pipeline.unreturned
  before : state.before <+: state.sequenced
  running : state.main.runFlag .db = true → ¬ LeftLoop state.pipeline.db
  joined : state.main = .joined → state.pipeline.db = .stopped

/-- Every message sequenced before `DBManager::stop` is committed, all in their order and
none twice, and the buffers of the committed ones are back in the pool. -/
structure Persisted (state : State) : Prop where
  before : state.before <+: state.committed
  inOrder : state.committed <+: state.sequenced
  returned : state.returned = state.committed.map Message.buffer

/-- When `runCopy` finds its flag cleared, it has dequeued what was sequenced before
`DBManager::stop`. -/
def Drains (state : State) : Event → Prop
  | .thread (.db .stop) => state.before.length ≤ state.pipeline.toDB.delivered.length
  | _ => True

/-- No write of the step meets a slot that is still to be read. -/
def StepClear (capacity : PowerOfTwo) (state : State) : Event → Prop
  | .thread event => Clear capacity state.pipeline event
  | _ => True

def Kept (state : State) : Prop :=
  LeftLoop state.pipeline.db →
    state.before.length ≤ state.pipeline.toDB.delivered.length

section Runs

variable {state after : State}

theorem inv_initial (poolMsgCount : Nat) (capacity : PowerOfTwo) :
    Inv poolMsgCount capacity (.initial poolMsgCount) where
  owned := Pipeline.owned_initial poolMsgCount capacity
  length := rfl
  ledger := rfl
  returned := rfl
  before := List.prefix_refl _
  running _ left := left
  joined := nofun

theorem Inv.advance (inv : Inv poolMsgCount capacity state) {event : Receiver.Event}
    (clear : Clear capacity state.pipeline event) (allowed : state.Allows event)
    (stepped : state.pipeline.step capacity commitBatchSize event = some next) :
    Inv poolMsgCount capacity (state.advance event next) := by
  have moves := moves_of_step inv.owned stepped
  have leaves := leaves_of_step inv.owned stepped
  refine ⟨inv.owned.step clear stepped, ?_, ?_, ?_, ?_, ?_, ?_⟩
  · change (state.sequenced ++ (accepts state.pipeline next).map (messageIn next)).length =
      next.toDB.accepted.length
    rw [moves.accepted, List.length_append, List.length_append, List.length_map, inv.length]
  · change state.sequenced ++ (accepts state.pipeline next).map (messageIn next) =
      state.committed ++ (commits state.pipeline next).map (messageIn next) ++
        next.uncommitted.map (messageIn next)
    have same : state.pipeline.uncommitted.map (messageIn state.pipeline) =
        state.pipeline.uncommitted.map (messageIn next) := by
      refine List.map_congr_left fun msg member => ?_
      rw [messageIn, messageIn, moves.numbers msg (List.mem_append_left _ member)]
    rw [inv.ledger, same, List.append_assoc, ← List.map_append, moves.moved,
      List.map_append, ← List.append_assoc]
  · change (state.committed ++ (commits state.pipeline next).map (messageIn next)).map
        Message.buffer = state.returned ++ returns state.pipeline event ++ next.unreturned
    have buffers : ((commits state.pipeline next).map (messageIn next)).map Message.buffer =
        commits state.pipeline next := by
      rw [List.map_map]
      exact List.map_id _
    rw [List.map_append, buffers, inv.returned, List.append_assoc, moves.returned,
      List.append_assoc]
  · exact inv.before.trans (List.prefix_append _ _)
  · intro set left
    rcases leaves.left.mp left with before | rfl
    · exact inv.running set before
    · have cleared := (allowed.1 rfl).1
      exact absurd set (by rw [Bool.not_eq_true]; exact cleared)
  · exact fun joined => leaves.stopped (inv.joined joined)

theorem Inv.step (inv : Inv poolMsgCount capacity state) {event : Event}
    (clear : StepClear capacity state event)
    (stepped : step capacity commitBatchSize state event = some after) :
    Inv poolMsgCount capacity after := by
  cases event with
  | test thread =>
      rcases test_step stepped with ⟨_, rfl⟩
      exact ⟨inv.owned, inv.length, inv.ledger, inv.returned, inv.before, inv.running,
        inv.joined⟩
  | thread event =>
      rcases thread_step stepped with ⟨allowed, next, advanced, rfl⟩
      exact inv.advance clear allowed advanced
  | main =>
      have running := inv.running
      simp only [RunTradeReceiver.step] at stepped
      split at stepped
      · cases stepped
        rename_i phase
        rw [phase] at running
        exact ⟨inv.owned, inv.length, inv.ledger, inv.returned, inv.before, running,
          by rintro ⟨⟩⟩
      · cases stepped
        rename_i phase
        rw [phase] at running
        exact ⟨inv.owned, inv.length, inv.ledger, inv.returned, inv.before, running,
          by rintro ⟨⟩⟩
      · cases stepped
        exact ⟨inv.owned, inv.length, inv.ledger, inv.returned, List.prefix_refl _,
          by rintro ⟨⟩, by rintro ⟨⟩⟩
      · split at stepped <;> cases stepped
        rename_i stopped
        exact ⟨inv.owned, inv.length, inv.ledger, inv.returned, inv.before,
          by rintro ⟨⟩, fun _ => stopped.2.2⟩
      · cases stepped

theorem kept_advance_iff (owned : Owned poolMsgCount capacity state.pipeline)
    {event : Receiver.Event}
    (stepped : state.pipeline.step capacity commitBatchSize event = some next) :
    Kept (state.advance event next) ↔ Kept state ∧ Drains state (.thread event) := by
  have leaves := leaves_of_step owned stepped
  by_cases stops : event = .db .stop
  · subst stops
    have left : state.pipeline.dbStep capacity commitBatchSize .stop = some next := stepped
    rcases Pipeline.dbStepped_of_dbStep left with ⟨phase⟩
    have inLoop : ¬ LeftLoop state.pipeline.db := by
      rw [phase]
      exact id
    constructor
    · intro kept
      exact ⟨fun left => absurd left inLoop, kept trivial⟩
    · rintro ⟨_, drains⟩ _
      exact drains
  · have drains : Drains state (.thread event) := by
      rcases event with event | event | event
      · exact trivial
      · exact trivial
      · cases event <;> first | exact trivial | exact absurd rfl stops
    have same : LeftLoop next.db ↔ LeftLoop state.pipeline.db :=
      leaves.left.trans (or_iff_left stops)
    rw [and_iff_left drains]
    constructor
    · intro kept left
      have left := same.mpr left
      rw [← leaves.delivered left]
      exact kept left
    · intro kept left
      change state.before.length ≤ next.toDB.delivered.length
      rw [leaves.delivered left]
      exact kept (same.mp left)

theorem Inv.kept_iff (inv : Inv poolMsgCount capacity state) {event : Event}
    (stepped : RunTradeReceiver.step capacity commitBatchSize state event = some after) :
    Kept after ↔ Kept state ∧ Drains state event := by
  cases event with
  | test thread =>
      rcases test_step stepped with ⟨_, rfl⟩
      exact (and_iff_left trivial).symm
  | thread event =>
      rcases thread_step stepped with ⟨_, next, advanced, rfl⟩
      exact kept_advance_iff inv.owned advanced
  | main =>
      refine Iff.trans ?_ (and_iff_left trivial).symm
      simp only [RunTradeReceiver.step] at stepped
      split at stepped
      · cases stepped
        exact Iff.rfl
      · cases stepped
        exact Iff.rfl
      · cases stepped
        rename_i phase
        have running := inv.running (by rw [phase]; rfl)
        exact iff_of_true (fun left => absurd left running) fun left => absurd left running
      · split at stepped <;> cases stepped
        exact Iff.rfl
      · cases stepped

theorem Inv.persisted_iff_kept (inv : Inv poolMsgCount capacity state)
    (joined : state.main = .joined) : Persisted state ↔ Kept state := by
  have stopped := inv.joined joined
  have left : LeftLoop state.pipeline.db := by rw [stopped]; exact trivial
  have uncommitted : state.pipeline.uncommitted = state.pipeline.toDB.contents := by
    simp only [Pipeline.uncommitted, Pipeline.waiting, stopped, List.nil_append]
  have unreturned : state.pipeline.unreturned = [] := by
    simp only [Pipeline.unreturned, stopped]
  have inOrder : state.committed <+: state.sequenced := ⟨_, inv.ledger.symm⟩
  have length : state.committed.length = state.pipeline.toDB.delivered.length := by
    have whole := congrArg List.length inv.ledger
    have waiting := inv.owned.toDB.lossless.delivered_le
    rw [inv.length, List.length_append, List.length_map, uncommitted,
      Queue.CustomSPSCLockFreeQueue.State.contents, List.length_drop] at whole
    omega
  constructor
  · intro persisted _
    rw [← length]
    exact persisted.before.length_le
  · intro kept
    have reached := kept left
    rw [← length] at reached
    refine ⟨List.prefix_of_prefix_length_le inv.before inOrder reached, inOrder, ?_⟩
    rw [inv.returned, unreturned, List.append_nil]

theorem stepClear_of_fits (fits : poolMsgCount ≤ capacity.toNat)
    {past : List (State × Event)} {final : State}
    (run : (system poolMsgCount capacity commitBatchSize).Run past final) :
    ∀ entry ∈ past, StepClear capacity entry.1 entry.2 := by
  have clear : ∀ {state}, Inv poolMsgCount capacity state → ∀ event,
      StepClear capacity state event := by
    intro state inv event
    cases event with
    | thread event => exact inv.owned.clear_of_fits fits event
    | test | main => exact trivial
  have invariant := run.invariant (Inv poolMsgCount capacity)
    (by rintro state rfl; exact inv_initial poolMsgCount capacity)
    (fun current event next inv stepped => inv.step (clear inv event) stepped)
  intro entry member
  exact clear (invariant.1 entry member) entry.2

end Runs

/-- Once all threads have joined, every message that the sequencer enqueued before
`DBManager::stop` is committed once and its buffer is back, exactly if `runCopy` had
dequeued all these messages when it found its flag cleared. No write to a queue may meet a
slot that its consumer has claimed and not read yet. -/
theorem persisted_iff (poolMsgCount : Nat) (capacity : PowerOfTwo) (commitBatchSize : Nat)
    {past : List (State × Event)} {final : State}
    (run : (system poolMsgCount capacity commitBatchSize).Run past final)
    (joined : final.main = .joined)
    (clear : ∀ entry ∈ past, StepClear capacity entry.1 entry.2) :
    Persisted final ↔ ∀ entry ∈ past, Drains entry.1 entry.2 := by
  have clearRun := run.restrict clear
  have initial : ∀ state,
      ((system poolMsgCount capacity commitBatchSize).restrict (StepClear capacity)).Initial
        state → Inv poolMsgCount capacity state ∧ Kept state := by
    rintro state rfl
    exact ⟨inv_initial poolMsgCount capacity, fun left => left.elim⟩
  have preserved : ∀ current event next, Inv poolMsgCount capacity current →
      ((system poolMsgCount capacity commitBatchSize).restrict (StepClear capacity)).Step
        current event next → Inv poolMsgCount capacity next := by
    rintro current event next inv ⟨stepped, clear⟩
    exact inv.step clear stepped
  have inv := (clearRun.invariant (Inv poolMsgCount capacity)
    (fun state start => (initial state start).1) preserved).2
  rw [inv.persisted_iff_kept joined]
  refine clearRun.final_iff (Inv poolMsgCount capacity) Kept Drains initial preserved ?_
  rintro current event next inv ⟨stepped, _⟩
  exact inv.kept_iff stepped

/-- One message goes from the socket to the queue of the database manager. -/
def oneSequenced : List Event :=
  [Event.test .receiver, .thread (.receiver (.allocate 0)),
    .thread (.receiver (.received 0))] ++
  List.replicate 4 (Event.thread (.receiver .enqueue)) ++ [Event.test .sequencer] ++
  List.replicate 4 (Event.thread (.sequencer .dequeue)) ++
  [Event.thread (.sequencer .dispatch)] ++
  List.replicate 4 (Event.thread (.sequencer .enqueue))

def stopAll : List Event :=
  [Event.main, .thread (.sequencer .stop), .main, .thread (.receiver .stop), .main,
    .thread (.db .stop), .thread (.db .deallocate), .main]

def flushedInTime : List Event :=
  oneSequenced ++ [Event.test .db] ++ List.replicate 4 (Event.thread (.db .dequeue)) ++
    List.replicate 2 (Event.thread (.db .deallocate)) ++ stopAll

theorem persisted_iff_flushed :
    ∃ past final, (system 1 Queue.CustomSPSCLockFreeQueue.twoSlots 1).Run past final ∧
      final.before = [⟨0, 0⟩] ∧
      (Persisted final ↔ ∀ entry ∈ past, Drains entry.1 entry.2) := by
  rcases TransitionSystem.exists_run_of_events (.initial 1)
    (step Queue.CustomSPSCLockFreeQueue.twoSlots 1) flushedInTime
    (fun final => final.main = .joined ∧ final.before = [⟨0, 0⟩]) (by decide) with
    ⟨past, final, run, _, joined, before⟩
  exact ⟨past, final, run, before, persisted_iff 1 Queue.CustomSPSCLockFreeQueue.twoSlots 1
    run joined (stepClear_of_fits (by decide) run)⟩

/-- The database manager finds its flag cleared before it looks at its queue. -/
theorem sequenced_message_is_lost :
    ∃ final, (system 1 Queue.CustomSPSCLockFreeQueue.twoSlots 1).Reachable final ∧
      final.main = .joined ∧ final.before = [⟨0, 0⟩] ∧ final.committed = [] ∧
      ¬ Persisted final := by
  rcases TransitionSystem.exists_reachable_of_execute (.initial 1)
    (step Queue.CustomSPSCLockFreeQueue.twoSlots 1) (oneSequenced ++ stopAll)
    (fun final => final.main = .joined ∧ final.before = [⟨0, 0⟩] ∧ final.committed = [])
    (by decide) with ⟨final, reachable, joined, before, nothing⟩
  refine ⟨final, reachable, joined, before, nothing, fun persisted => ?_⟩
  have missing := persisted.before.length_le
  rw [before, nothing] at missing
  exact absurd missing (by decide)

end RunTradeReceiver

end FeederNet.Receiver
