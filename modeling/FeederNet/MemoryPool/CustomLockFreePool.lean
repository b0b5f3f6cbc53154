import FeederNet.Foundation.Ownership
import FeederNet.Foundation.TransitionSystem

/-! # CustomLockFreePool

The stack of free messages whose top index is the only atomic. One step is one
load, compare-exchange or slot access of one thread. A message is named by its
index in `pool_`.
-/

namespace FeederNet.MemoryPool.CustomLockFreePool

inductive Phase
  | idle
  | allocating
  | popping (currentHead : Int)
  | popRead (currentHead : Int) (msg : Nat)
  | deallocating (msg : Nat)
  | pushing (msg : Nat) (currentHead : Int)
  | pushWritten (msg : Nat) (currentHead : Int)
  deriving DecidableEq, Repr

structure State (Thread : Type) where
  freeMsgs : Nat → Nat
  head : Int
  phase : Thread → Phase
  holds : Thread → List Nat

inductive Action
  | callAllocate
  | callDeallocate (msg : Nat)
  | loadHead
  | readSlot
  | writeSlot
  | exchange
  | exchangeFailed
  deriving DecidableEq, Repr

/-- The loop test of `allocate`; a negative head returns `nullptr`. -/
def afterPopLoad (currentHead : Int) : Phase :=
  if 0 ≤ currentHead then .popping currentHead else .idle

/-- The overflow test of `deallocate`. The throw leaves the message with its
caller. -/
def afterPushLoad (poolMsgCount : Nat) (msg : Nat) (currentHead : Int) : Phase :=
  if (poolMsgCount : Int) ≤ currentHead + 1 then .idle
  else .pushing msg currentHead

def entries (freeMsgs : Nat → Nat) (head : Int) : List Nat :=
  (List.range (head + 1).toNat).map freeMsgs

namespace State

variable {Thread : Type} [DecidableEq Thread]

def initial (poolMsgCount : Nat) : State Thread where
  freeMsgs index := index
  head := (poolMsgCount : Int) - 1
  phase _ := .idle
  holds _ := []

def goto (state : State Thread) (thread : Thread) (phase : Phase) : State Thread :=
  { state with phase := Function.update state.phase thread phase }

def setHolds (state : State Thread) (thread : Thread) (held : List Nat) :
    State Thread :=
  { state with holds := Function.update state.holds thread held }

def freeEntries (state : State Thread) : List Nat :=
  entries state.freeMsgs state.head

@[simp] theorem goto_freeEntries (state : State Thread) (thread : Thread)
    (phase : Phase) :
    (state.goto thread phase).freeEntries = state.freeEntries := rfl

@[simp] theorem setHolds_freeEntries (state : State Thread) (thread : Thread)
    (held : List Nat) :
    (state.setHolds thread held).freeEntries = state.freeEntries := rfl

end State

section System

variable {Thread : Type} [DecidableEq Thread]

/-- One atomic step of one thread. A failed compare-exchange, whether another
thread won or the failure is spurious, reloads `currentHead` and loops. -/
def step (poolMsgCount : Nat) (state : State Thread) :
    Thread × Action → Option (State Thread)
  | (thread, .callAllocate) =>
      match state.phase thread with
      | .idle => some (state.goto thread .allocating)
      | _ => none
  | (thread, .callDeallocate msg) =>
      match state.phase thread with
      | .idle =>
          if msg ∈ state.holds thread then
            some (state.goto thread (.deallocating msg))
          else none
      | _ => none
  | (thread, .loadHead) =>
      match state.phase thread with
      | .allocating => some (state.goto thread (afterPopLoad state.head))
      | .deallocating msg =>
          some (state.goto thread (afterPushLoad poolMsgCount msg state.head))
      | _ => none
  | (thread, .readSlot) =>
      match state.phase thread with
      | .popping currentHead =>
          some (state.goto thread
            (.popRead currentHead (state.freeMsgs currentHead.toNat)))
      | _ => none
  | (thread, .writeSlot) =>
      match state.phase thread with
      | .pushing msg currentHead =>
          some ({ state with
            freeMsgs := Function.update state.freeMsgs
              (currentHead + 1).toNat msg }.goto thread
            (.pushWritten msg currentHead))
      | _ => none
  | (thread, .exchange) =>
      match state.phase thread with
      | .popRead currentHead msg =>
          if state.head = currentHead then
            some (({ state with head := currentHead - 1 }.goto thread .idle).setHolds
              thread (msg :: state.holds thread))
          else none
      | .pushWritten msg currentHead =>
          if state.head = currentHead then
            some (({ state with head := currentHead + 1 }.goto thread .idle).setHolds
              thread ((state.holds thread).erase msg))
          else none
      | _ => none
  | (thread, .exchangeFailed) =>
      match state.phase thread with
      | .popRead _ _ => some (state.goto thread (afterPopLoad state.head))
      | .pushWritten msg _ =>
          some (state.goto thread (afterPushLoad poolMsgCount msg state.head))
      | _ => none

inductive Step (poolMsgCount : Nat) :
    State Thread → Thread × Action → State Thread → Prop
  | callAllocate {state} (thread) :
      state.phase thread = .idle →
      Step poolMsgCount state (thread, .callAllocate) (state.goto thread .allocating)
  | callDeallocate {state} (thread) (msg) :
      state.phase thread = .idle → msg ∈ state.holds thread →
      Step poolMsgCount state (thread, .callDeallocate msg)
        (state.goto thread (.deallocating msg))
  | loadForPop {state} (thread) :
      state.phase thread = .allocating →
      Step poolMsgCount state (thread, .loadHead)
        (state.goto thread (afterPopLoad state.head))
  | readSlot {state} (thread) {currentHead} :
      state.phase thread = .popping currentHead →
      Step poolMsgCount state (thread, .readSlot)
        (state.goto thread
          (.popRead currentHead (state.freeMsgs currentHead.toNat)))
  | popExchange {state} (thread) {currentHead msg} :
      state.phase thread = .popRead currentHead msg →
      state.head = currentHead →
      Step poolMsgCount state (thread, .exchange)
        (({ state with head := currentHead - 1 }.goto thread .idle).setHolds
          thread (msg :: state.holds thread))
  | popRetry {state} (thread) {currentHead msg} :
      state.phase thread = .popRead currentHead msg →
      Step poolMsgCount state (thread, .exchangeFailed)
        (state.goto thread (afterPopLoad state.head))
  | loadForPush {state} (thread) {msg} :
      state.phase thread = .deallocating msg →
      Step poolMsgCount state (thread, .loadHead)
        (state.goto thread (afterPushLoad poolMsgCount msg state.head))
  | writeSlot {state} (thread) {msg currentHead} :
      state.phase thread = .pushing msg currentHead →
      Step poolMsgCount state (thread, .writeSlot)
        ({ state with
            freeMsgs := Function.update state.freeMsgs
              (currentHead + 1).toNat msg }.goto thread
          (.pushWritten msg currentHead))
  | pushExchange {state} (thread) {msg currentHead} :
      state.phase thread = .pushWritten msg currentHead →
      state.head = currentHead →
      Step poolMsgCount state (thread, .exchange)
        (({ state with head := currentHead + 1 }.goto thread .idle).setHolds
          thread ((state.holds thread).erase msg))
  | pushRetry {state} (thread) {msg currentHead} :
      state.phase thread = .pushWritten msg currentHead →
      Step poolMsgCount state (thread, .exchangeFailed)
        (state.goto thread (afterPushLoad poolMsgCount msg state.head))

theorem Step.of_step {poolMsgCount : Nat} {state next : State Thread}
    {event : Thread × Action} (stepped : step poolMsgCount state event = some next) :
    Step poolMsgCount state event next := by
  unfold step at stepped
  split at stepped <;> split at stepped
  all_goals first
    | cases stepped; constructor <;> assumption
    | split at stepped <;> cases stepped <;> constructor <;> assumption
    | cases stepped

@[reducible] def system (Thread : Type) [DecidableEq Thread] (poolMsgCount : Nat) :
    TransitionSystem (State Thread) (Thread × Action) :=
  .ofStep (State.initial poolMsgCount) (step poolMsgCount)

/-- Every message is held by one thread or is once among the free entries. A
message whose deallocation is in progress still counts as held. -/
def Conserved [Fintype Thread] (poolMsgCount : Nat) (state : State Thread) : Prop :=
  Partition state.holds state.freeEntries (Multiset.range poolMsgCount)

instance [Fintype Thread] (poolMsgCount : Nat) (state : State Thread) :
    Decidable (Conserved poolMsgCount state) :=
  inferInstanceAs (Decidable (Partition _ _ _))

/-- The slot a thread works on is still its own: a push writes above `head_`,
and a successful compare-exchange finds in the slot the message this thread
wrote there or read from it. -/
def Undisturbed (state : State Thread) : Thread × Action → Prop
  | (thread, .writeSlot) =>
      match state.phase thread with
      | .pushing _ currentHead => state.head ≤ currentHead
      | _ => True
  | (thread, .exchange) =>
      match state.phase thread with
      | .popRead currentHead msg => state.freeMsgs currentHead.toNat = msg
      | .pushWritten msg currentHead =>
          state.freeMsgs (currentHead + 1).toNat = msg
      | _ => True
  | _ => True

end System

/-! ## Facts that no interleaving disturbs -/

def PhaseValid (held : List Nat) : Phase → Prop
  | .idle | .allocating => True
  | .popping currentHead | .popRead currentHead _ => 0 ≤ currentHead
  | .deallocating msg => msg ∈ held
  | .pushing msg currentHead | .pushWritten msg currentHead =>
      -1 ≤ currentHead ∧ msg ∈ held

structure WellFormed {Thread : Type} (state : State Thread) : Prop where
  head : -1 ≤ state.head
  phase : ∀ thread, PhaseValid (state.holds thread) (state.phase thread)

section WellFormed

variable {Thread : Type} [DecidableEq Thread] {state : State Thread}

theorem WellFormed.goto (wellFormed : WellFormed state) {thread : Thread}
    {phase : Phase} (valid : PhaseValid (state.holds thread) phase) :
    WellFormed (state.goto thread phase) where
  head := wellFormed.head
  phase other := by
    by_cases same : other = thread
    · subst same
      simpa [State.goto] using valid
    · simpa [State.goto, same] using wellFormed.phase other

theorem afterPopLoad_valid (held : List Nat) (currentHead : Int) :
    PhaseValid held (afterPopLoad currentHead) := by
  unfold afterPopLoad
  split <;> simp_all [PhaseValid]

theorem afterPushLoad_valid {held : List Nat} {poolMsgCount msg : Nat}
    {currentHead : Int} (bound : -1 ≤ currentHead) (member : msg ∈ held) :
    PhaseValid held (afterPushLoad poolMsgCount msg currentHead) := by
  unfold afterPushLoad
  split <;> simp_all [PhaseValid]

theorem WellFormed.settle (wellFormed : WellFormed state) {thread : Thread}
    {head : Int} (bound : -1 ≤ head) (held : List Nat) :
    WellFormed (({ state with head := head }.goto thread .idle).setHolds
      thread held) where
  head := bound
  phase other := by
    by_cases same : other = thread
    · subst same
      simp [State.goto, State.setHolds, PhaseValid]
    · simpa [State.goto, State.setHolds, same] using wellFormed.phase other

theorem Step.wellFormed {poolMsgCount : Nat} {event : Thread × Action}
    {next : State Thread} (wellFormed : WellFormed state)
    (step : Step poolMsgCount state event next) : WellFormed next := by
  cases step with
  | callAllocate thread _ => exact wellFormed.goto trivial
  | callDeallocate thread msg _ member => exact wellFormed.goto member
  | loadForPop thread _ => exact wellFormed.goto (afterPopLoad_valid _ _)
  | @readSlot thread currentHead phase =>
      have valid := wellFormed.phase thread
      rw [phase] at valid
      exact wellFormed.goto valid
  | @popExchange thread currentHead msg phase atHead =>
      have valid : 0 ≤ currentHead := by
        simpa [phase, PhaseValid] using wellFormed.phase thread
      exact wellFormed.settle (by omega) _
  | popRetry thread _ => exact wellFormed.goto (afterPopLoad_valid _ _)
  | @loadForPush thread msg phase =>
      have valid := wellFormed.phase thread
      rw [phase] at valid
      exact wellFormed.goto (afterPushLoad_valid wellFormed.head valid)
  | @writeSlot thread msg currentHead phase =>
      have valid := wellFormed.phase thread
      rw [phase] at valid
      have written : WellFormed { state with
          freeMsgs := Function.update state.freeMsgs
            (currentHead + 1).toNat msg } :=
        ⟨wellFormed.head, wellFormed.phase⟩
      exact written.goto valid
  | @pushExchange thread msg currentHead phase atHead =>
      have headBound := wellFormed.head
      exact wellFormed.settle (by omega) _
  | @pushRetry thread msg currentHead phase =>
      have valid := wellFormed.phase thread
      rw [phase] at valid
      exact wellFormed.goto (afterPushLoad_valid wellFormed.head valid.2)

omit [DecidableEq Thread] in
theorem wellFormed_initial (poolMsgCount : Nat) :
    WellFormed (State.initial poolMsgCount : State Thread) where
  head := by
    simp only [State.initial]
    omega
  phase _ := trivial

end WellFormed

/-! ## Exactly when messages are conserved -/

theorem entries_succ (freeMsgs : Nat → Nat) (head : Int) (bound : -1 ≤ head) :
    entries freeMsgs (head + 1) =
      entries freeMsgs head ++ [freeMsgs (head + 1).toNat] := by
  have more : (head + 1 + 1).toNat = (head + 1).toNat + 1 := by omega
  simp [entries, more, List.range_succ]

theorem entries_update_of_above (freeMsgs : Nat → Nat) (head : Int) {index : Nat}
    (above : head < index) (msg : Nat) :
    entries (Function.update freeMsgs index msg) head = entries freeMsgs head := by
  apply List.map_congr_left
  intro position member
  have below := List.mem_range.mp member
  rw [Function.update_of_ne (by omega)]

theorem mem_entries_update (freeMsgs : Nat → Nat) (head : Int) {index : Nat}
    (within : (index : Int) ≤ head) (msg : Nat) :
    msg ∈ entries (Function.update freeMsgs index msg) head :=
  List.mem_map.mpr ⟨index, List.mem_range.mpr (by omega), by simp⟩

section Conservation

variable {Thread : Type} [DecidableEq Thread] [Fintype Thread]
  {state : State Thread} {poolMsgCount : Nat}

omit [DecidableEq Thread] in
theorem conserved_initial (poolMsgCount : Nat) :
    Conserved poolMsgCount (State.initial poolMsgCount : State Thread) := by
  simp [Conserved, Partition, State.initial, State.freeEntries, entries,
    Multiset.range]

/-- A pop keeps the ledger exactly when it returns the message on top. -/
theorem pop_conserved_iff (conserved : Conserved poolMsgCount state)
    (thread : Thread) (bound : 0 ≤ state.head) (msg : Nat) :
    Conserved poolMsgCount
        (({ state with head := state.head - 1 }.goto thread .idle).setHolds
          thread (msg :: state.holds thread)) ↔
      state.freeMsgs state.head.toNat = msg := by
  have top : state.freeEntries =
      entries state.freeMsgs (state.head - 1) ++
        [state.freeMsgs state.head.toNat] := by
    have split := entries_succ state.freeMsgs (state.head - 1) (by omega)
    simpa [State.freeEntries] using split
  refine (Partition.update_iff conserved thread _ _).trans ?_
  simp only [State.setHolds_freeEntries, State.goto_freeEntries]
  rw [top, State.freeEntries, ← Multiset.coe_add, ← Multiset.cons_coe,
    Multiset.coe_singleton, ← Multiset.singleton_add, ← add_assoc, add_assoc,
    add_comm, add_right_inj, Multiset.singleton_inj]
  exact eq_comm

/-- A push keeps the ledger exactly when the slot it publishes holds its own
message. -/
theorem push_conserved_iff (conserved : Conserved poolMsgCount state)
    {thread : Thread} {msg : Nat} (bound : -1 ≤ state.head)
    (member : msg ∈ state.holds thread) :
    Conserved poolMsgCount
        (({ state with head := state.head + 1 }.goto thread .idle).setHolds
          thread ((state.holds thread).erase msg)) ↔
      state.freeMsgs (state.head + 1).toNat = msg := by
  have published : ({ state with head := state.head + 1 } : State Thread).freeEntries =
      state.freeEntries ++ [state.freeMsgs (state.head + 1).toNat] :=
    entries_succ _ _ bound
  have held : (state.holds thread : Multiset Nat) =
      {msg} + ((state.holds thread).erase msg : Multiset Nat) := by
    rw [Multiset.singleton_add, ← Multiset.coe_erase,
      Multiset.cons_erase (by simpa using member)]
  refine (Partition.update_iff conserved thread _ _).trans ?_
  simp only [State.setHolds_freeEntries, State.goto_freeEntries]
  rw [published, ← Multiset.coe_add, Multiset.coe_singleton, held, ← add_assoc,
    add_assoc ({msg} : Multiset Nat), add_comm ({msg} : Multiset Nat),
    add_right_inj, Multiset.singleton_inj]

/-- A slot write keeps the ledger exactly when it lands above the head. -/
theorem write_conserved_iff (conserved : Conserved poolMsgCount state)
    {thread : Thread} {msg : Nat} {currentHead : Int} (bound : -1 ≤ currentHead)
    (member : msg ∈ state.holds thread) (phase : Phase) :
    Conserved poolMsgCount
        ({ state with
            freeMsgs := Function.update state.freeMsgs
              (currentHead + 1).toNat msg }.goto thread phase) ↔
      state.head ≤ currentHead := by
  constructor
  · intro after
    by_contra below
    refine Partition.not_mem_shared_of_owned after (Multiset.nodup_range _)
      member ?_
    exact mem_entries_update state.freeMsgs state.head (by omega) msg
  · intro above
    have same : ({ state with
        freeMsgs := Function.update state.freeMsgs
          (currentHead + 1).toNat msg }.goto thread phase).freeEntries =
        state.freeEntries :=
      entries_update_of_above state.freeMsgs state.head (by omega) msg
    rw [Conserved, same]
    exact conserved

/-- One step conserves the messages exactly when it is undisturbed. -/
theorem Step.conserved_iff {event : Thread × Action} {next : State Thread}
    (wellFormed : WellFormed state) (conserved : Conserved poolMsgCount state)
    (step : Step poolMsgCount state event next) :
    Conserved poolMsgCount next ↔ Undisturbed state event := by
  cases step with
  | callAllocate thread _ => exact iff_of_true conserved trivial
  | callDeallocate thread msg _ _ => exact iff_of_true conserved trivial
  | loadForPop thread _ => exact iff_of_true conserved trivial
  | readSlot thread _ => exact iff_of_true conserved trivial
  | @popExchange thread currentHead msg phase atHead =>
      have valid : 0 ≤ currentHead := by
        simpa [phase, PhaseValid] using wellFormed.phase thread
      subst atHead
      simpa [Undisturbed, phase] using
        pop_conserved_iff conserved thread valid msg
  | popRetry thread _ => exact iff_of_true conserved trivial
  | loadForPush thread _ => exact iff_of_true conserved trivial
  | @writeSlot thread msg currentHead phase =>
      have valid : -1 ≤ currentHead ∧ msg ∈ state.holds thread := by
        simpa [phase, PhaseValid] using wellFormed.phase thread
      simpa [Undisturbed, phase] using
        write_conserved_iff conserved valid.1 valid.2 (.pushWritten msg currentHead)
  | @pushExchange thread msg currentHead phase atHead =>
      have valid : -1 ≤ currentHead ∧ msg ∈ state.holds thread := by
        simpa [phase, PhaseValid] using wellFormed.phase thread
      subst atHead
      simpa [Undisturbed, phase] using push_conserved_iff conserved valid.1 valid.2
  | pushRetry thread _ => exact iff_of_true conserved trivial

/-- Messages are conserved throughout a run exactly when no step of it is
disturbed by another thread. -/
theorem conserved_iff_undisturbed {past : List (State Thread × (Thread × Action))}
    {final : State Thread} (run : (system Thread poolMsgCount).Run past final) :
    ((∀ entry ∈ past, Conserved poolMsgCount entry.1) ∧
        Conserved poolMsgCount final) ↔
      ∀ entry ∈ past, Undisturbed entry.1 entry.2 := by
  refine run.forall_iff WellFormed (Conserved poolMsgCount) Undisturbed ?_ ?_ ?_
  · intro state start
    cases start
    exact ⟨wellFormed_initial _, conserved_initial _⟩
  · exact fun _ _ _ wellFormed stepped =>
      Step.wellFormed wellFormed (.of_step stepped)
  · exact fun _ _ _ wellFormed conserved stepped =>
      Step.conserved_iff wellFormed conserved (.of_step stepped)

end Conservation

/-- Two threads compete for the head, and one of them has to try again. Then they return
their messages one after the other. -/
def competingAllocates : List (Bool × Action) :=
  [(true, .callAllocate), (true, .loadHead), (false, .callAllocate), (false, .loadHead),
    (true, .readSlot), (false, .readSlot), (true, .exchange), (false, .exchangeFailed),
    (false, .readSlot), (false, .exchange),
    (true, .callDeallocate 1), (true, .loadHead), (true, .writeSlot), (true, .exchange),
    (false, .callDeallocate 0), (false, .loadHead), (false, .writeSlot), (false, .exchange)]

theorem conserved_iff_undisturbed_competing :
    ∃ past final, (system Bool 2).Run past final ∧ past.length = 18 ∧
      (((∀ entry ∈ past, Conserved 2 entry.1) ∧ Conserved 2 final) ↔
        ∀ entry ∈ past, Undisturbed entry.1 entry.2) := by
  rcases TransitionSystem.exists_run_of_execute (State.initial 2) (step 2)
    competingAllocates rfl with ⟨past, run, length⟩
  exact ⟨past, _, run, length, conserved_iff_undisturbed run⟩

/-- Two threads take both messages of a pool of two, overlap their
deallocations, and allocate again. -/
def overlappingDeallocates : List (Bool × Action) :=
  [(true, .callAllocate), (true, .loadHead), (true, .readSlot), (true, .exchange),
    (false, .callAllocate), (false, .loadHead), (false, .readSlot),
    (false, .exchange),
    (true, .callDeallocate 1), (true, .loadHead),
    (false, .callDeallocate 0), (false, .loadHead),
    (true, .writeSlot), (false, .writeSlot), (true, .exchange),
    (false, .exchangeFailed), (false, .writeSlot), (false, .exchange),
    (true, .callAllocate), (true, .loadHead), (true, .readSlot), (true, .exchange),
    (false, .callAllocate), (false, .loadHead), (false, .readSlot),
    (false, .exchange)]

/-- Overlapping deallocations publish one message twice: both threads see the
same empty stack and write the same slot, and the first compare-exchange
publishes what the second thread wrote. Both threads then allocate message 0. -/
theorem overlapping_deallocates_share_message :
    ∃ state, (system Bool 2).Reachable state ∧
      (¬ Conserved 2 state ∧ state.holds true = [0] ∧ state.holds false = [0]) :=
  TransitionSystem.exists_reachable_of_execute (State.initial 2) (step 2)
    overlappingDeallocates
    (fun state => ¬ Conserved 2 state ∧ state.holds true = [0] ∧
      state.holds false = [0]) (by decide)

end FeederNet.MemoryPool.CustomLockFreePool
