import FeederNet.Foundation.Monitor
import FeederNet.Queue.BoundedFifo

/-! # LockedQueue

A `std::queue` behind a mutex, whose `dequeue` waits until there is something to take.
One step is one operation on the queue, the mutex or the condition variable.
-/

namespace FeederNet.Queue.LockedQueue

inductive Local (α : Type*)
  | push (ptr : α)
  | notify (ptr : α)
  | pushed (ptr : α)
  | test
  | front
  | pop (msg : α)
  | popped (msg : α)
  deriving DecidableEq, Repr

/-- A call that has returned. `enqueue` always returns true. -/
inductive Completed (α : Type*)
  | enqueued (ptr : α)
  | dequeued (msg : α)
  deriving DecidableEq, Repr

/-- `front` and `pop` of an empty `std::queue` are undefined. -/
def act (queue : List α) : Local α → Option (Monitor.Action (List α) (Local α) (Completed α))
  | .push ptr => some (.compute (queue ++ [ptr]) (.notify ptr))
  | .notify ptr => some (.notifyOne (.pushed ptr))
  | .pushed ptr => some (.leave (.enqueued ptr))
  | .test => if queue.isEmpty then some (.wait .test) else some (.compute queue .front)
  | .front => queue.head?.map fun msg => .compute queue (.pop msg)
  | .pop msg =>
      match queue with
      | [] => none
      | _ :: queue => some (.compute queue (.popped msg))
  | .popped msg => some (.leave (.dequeued msg))

def code (α : Type*) : Monitor (List α) Unit (Local α) (Call α) (Completed α) where
  start := []
  client := ()
  permit _ _ := some ()
  enter
    | .enqueue ptr => .push ptr
    | .dequeue => .test
  act := act
  collect _ _ := ()

abbrev State (Thread α : Type*) := Monitor.State Thread (List α) Unit (Local α) (Completed α)

variable {Thread α : Type*}

def Completed.accepted? : Completed α → Option α
  | .enqueued ptr => some ptr
  | .dequeued _ => none

def Completed.returned? : Completed α → Option α
  | .enqueued _ => none
  | .dequeued msg => some msg

def accepted (finished : List (Thread × Completed α)) : List α :=
  finished.filterMap fun entry => entry.2.accepted?

def returned (finished : List (Thread × Completed α)) : List α :=
  finished.filterMap fun entry => entry.2.returned?

@[simp] theorem accepted_concat (finished : List (Thread × Completed α)) (thread : Thread)
    (completed : Completed α) :
    accepted (finished ++ [(thread, completed)]) =
      accepted finished ++ completed.accepted?.toList := by
  cases completed <;> simp [accepted, Completed.accepted?]

@[simp] theorem returned_concat (finished : List (Thread × Completed α)) (thread : Thread)
    (completed : Completed α) :
    returned (finished ++ [(thread, completed)]) =
      returned finished ++ completed.returned?.toList := by
  cases completed <;> simp [returned, Completed.returned?]

/-! ## The contents -/

def Free (state : State Thread α) : Prop :=
  accepted state.finished = returned state.finished ++ state.shared

def Held (state : State Thread α) (_ : Thread) : Local α → Prop
  | .push _ | .test => Free state
  | .notify ptr | .pushed ptr => ∃ before, state.shared = before ++ [ptr] ∧
      accepted state.finished = returned state.finished ++ before
  | .front => Free state ∧ state.shared ≠ []
  | .pop msg => Free state ∧ state.shared.head? = some msg
  | .popped msg =>
      accepted state.finished = returned state.finished ++ msg :: state.shared

/-- Calls begin with `push` or with the test of `wait`, and only that test is repeated. -/
def Ready : Monitor.Phase (Local α) → Prop
  | .arriving (.push _) | .arriving .test | .blocked .test | .woken .test | .outside => True
  | _ => False

theorem act_eq_compute {queue after : List α} {here next : Local α}
    (acts : act queue here = some (.compute after next)) :
    (∃ ptr, here = .push ptr ∧ after = queue ++ [ptr] ∧ next = .notify ptr) ∨
      (here = .test ∧ queue ≠ [] ∧ after = queue ∧ next = .front) ∨
      (∃ msg rest, here = .front ∧ queue = msg :: rest ∧ after = queue ∧
        next = .pop msg) ∨
      ∃ msg first, here = .pop msg ∧ queue = first :: after ∧ next = .popped msg := by
  cases here with
  | push ptr =>
      cases acts
      exact .inl ⟨ptr, rfl, rfl, rfl⟩
  | test =>
      cases queue with
      | nil => cases acts
      | cons first rest =>
          cases acts
          exact .inr (.inl ⟨rfl, List.cons_ne_nil _ _, rfl, rfl⟩)
  | front =>
      cases queue with
      | nil => cases acts
      | cons first rest =>
          cases acts
          exact .inr (.inr (.inl ⟨first, rest, rfl, rfl, rfl, rfl⟩))
  | pop msg =>
      cases queue with
      | nil => cases acts
      | cons first rest =>
          cases acts
          exact .inr (.inr (.inr ⟨msg, first, rfl, rfl, rfl⟩))
  | notify ptr => cases acts
  | pushed ptr => cases acts
  | popped msg => cases acts

theorem act_eq_wait {queue : List α} {here next : Local α}
    (acts : act queue here = some (.wait next)) :
    here = .test ∧ next = .test ∧ queue = [] := by
  cases here with
  | test =>
      cases queue with
      | nil =>
          cases acts
          exact ⟨rfl, rfl, rfl⟩
      | cons first rest => cases acts
  | front | pop msg => cases queue <;> cases acts
  | push ptr | notify ptr | pushed ptr | popped msg => cases acts

theorem act_eq_leave {queue : List α} {here : Local α} {result : Completed α}
    (acts : act queue here = some (.leave result)) :
    (∃ ptr, here = .pushed ptr ∧ result = .enqueued ptr) ∨
      ∃ msg, here = .popped msg ∧ result = .dequeued msg := by
  cases here with
  | pushed ptr =>
      cases acts
      exact .inl ⟨ptr, rfl, rfl⟩
  | popped msg =>
      cases acts
      exact .inr ⟨msg, rfl, rfl⟩
  | test | front | pop msg => cases queue <;> cases acts
  | push ptr | notify ptr => cases acts

theorem act_eq_notifyOne {queue : List α} {here next : Local α}
    (acts : act queue here = some (.notifyOne next)) :
    ∃ ptr, here = .notify ptr ∧ next = .pushed ptr := by
  cases here with
  | notify ptr =>
      cases acts
      exact ⟨ptr, rfl, rfl⟩
  | test | front | pop msg => cases queue <;> cases acts
  | push ptr | pushed ptr | popped msg => cases acts

theorem rule (Thread : Type*) [DecidableEq Thread] :
    (code α).Rule Ready (fun state : State Thread α => Free state) Held where
  start := rfl
  outside := trivial
  enters call := by cases call <;> trivial
  waits acts := by
    rcases act_eq_wait acts with ⟨_, rfl, _⟩
    trivial
  wakes {there} ready := by cases there <;> exact ready
  callFree _ _ free := free
  callHeld {state thread call client other here} _ _ _ held := by
    cases here <;> exact held
  arrive {state thread here} ready _ free := by
    cases here <;> first | exact free | cases ready
  resume {state thread here} ready _ free := by
    cases here <;> first | exact free | cases ready
  compute {state thread here shared next} _ acts held := by
    rcases act_eq_compute acts with ⟨ptr, rfl, rfl, rfl⟩ | ⟨rfl, some, rfl, rfl⟩ |
      ⟨msg, rest, rfl, queue, rfl, rfl⟩ | ⟨msg, first, rfl, queue, rfl⟩
    · exact ⟨state.shared, rfl, held⟩
    · exact ⟨held, some⟩
    · exact ⟨held.1, by simp [Monitor.State.compute, queue]⟩
    · rcases held with ⟨free, top⟩
      rw [queue] at top
      cases top
      rw [Free, queue] at free
      exact free
  wait {state thread here next} _ acts held := by
    rcases act_eq_wait acts with ⟨rfl, rfl, _⟩
    exact held
  leave {state thread here result} _ acts held := by
    rcases act_eq_leave acts with ⟨ptr, rfl, rfl⟩ | ⟨msg, rfl, rfl⟩
    · rcases held with ⟨before, queue, contents⟩
      simp [Free, Monitor.State.leave, Completed.accepted?, Completed.returned?, queue,
        contents]
    · simpa [Free, Held, Monitor.State.leave, Completed.accepted?, Completed.returned?]
        using held
  notifyNobody {state thread here next} _ acts _ held := by
    rcases act_eq_notifyOne acts with ⟨ptr, rfl, rfl⟩
    exact held
  notify {state thread here next other there} _ acts _ held := by
    rcases act_eq_notifyOne acts with ⟨ptr, rfl, rfl⟩
    exact held
  wakeFree _ free := free
  wakeHeld {state thread there other here} _ _ held := by cases here <;> exact held

/-- The thread inside always finds what it is about to take. -/
theorem Held.defined {state : State Thread α} {thread : Thread} {here : Local α}
    (held : Held state thread here) : act state.shared here ≠ none := by
  cases here with
  | push ptr | notify ptr | pushed ptr | popped msg => exact Option.some_ne_none _
  | test =>
      rw [act]
      split <;> exact Option.some_ne_none _
  | front =>
      rcases List.exists_cons_of_ne_nil held.2 with ⟨first, rest, queue⟩
      simp [act, queue]
  | pop msg =>
      rcases List.head?_eq_some_iff.mp held.2 with ⟨rest, queue⟩
      simp [act, queue]

/-- A queue shared by threads.
* At most one thread is inside, and `front` and `pop` never meet an empty queue.
* The messages returned are the pointers accepted, in the same order, as far as they have
  been taken.
* What has been accepted and not returned is in the queue when nobody is inside. -/
structure Delivers (state : State Thread α) : Prop where
  exclusive : ∀ left right, (state.phase left).isInside = true →
    (state.phase right).isInside = true → left = right
  defined : ∀ thread here, state.phase thread = .inside here → act state.shared here ≠ none
  inOrder : returned state.finished <+: accepted state.finished
  contents : state.owner = none →
    accepted state.finished = returned state.finished ++ state.shared

/-- Every interleaving of any number of threads is delivered in order. -/
theorem delivers_of_reachable [DecidableEq Thread] [Fintype Thread] {state : State Thread α}
    (reachable : ((code α).system Thread).Reachable state) : Delivers state := by
  have guarded := (rule Thread).guarded reachable
  refine ⟨fun _ _ => guarded.alone, ?_, ?_, guarded.free⟩
  · intro thread here inside
    exact (guarded.held thread here inside).defined
  · rcases guarded.cases_owner with ⟨_, free⟩ | ⟨thread, here, _, _, held⟩
    · exact ⟨_, free.symm⟩
    · cases here with
      | push ptr | test => exact ⟨_, Eq.symm held⟩
      | notify ptr | pushed ptr =>
          rcases held with ⟨before, _, contents⟩
          exact ⟨_, contents.symm⟩
      | front | pop msg => exact ⟨_, held.1.symm⟩
      | popped msg => exact ⟨_, Eq.symm held⟩

/-- One consumer sleeps, another one overtakes it to the first pointer, and the sleeper
gets the second. -/
def overtakenConsumer : List (Monitor.Event (Fin 3) (Call Nat)) :=
  [.call 0 .dequeue, .acquire 0, .act 0,
    .call 2 (.enqueue 7), .acquire 2, .act 2, .call 1 .dequeue, .notify 2 (some 0), .act 2,
    .acquire 1, .act 1, .act 1, .act 1, .act 1, .acquire 0, .act 0,
    .call 2 (.enqueue 8), .acquire 2, .act 2, .notify 2 (some 0), .act 2,
    .acquire 0, .act 0, .act 0, .act 0, .act 0]

theorem delivers_of_reachable_overtaken :
    ∃ state : State (Fin 3) Nat,
      state.finished = [(2, .enqueued 7), (1, .dequeued 7), (2, .enqueued 8),
        (0, .dequeued 8)] ∧ Delivers state := by
  rcases TransitionSystem.exists_reachable_of_execute (code Nat).initial
    (code Nat).step overtakenConsumer
    (fun state => state.finished = [(2, .enqueued 7), (1, .dequeued 7), (2, .enqueued 8),
      (0, .dequeued 8)]) (by decide) with ⟨state, reachable, finished⟩
  exact ⟨state, finished, delivers_of_reachable reachable⟩

end FeederNet.Queue.LockedQueue
