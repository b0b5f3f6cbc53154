import FeederNet.Foundation.Linearization
import FeederNet.Foundation.Monitor
import FeederNet.Foundation.Ownership
import FeederNet.Foundation.Progress
import FeederNet.MemoryPool.CustomLockedPool

/-! # CustomLockedPool shared by threads

The pool with `ThreadSafe`, its mutex taken by any number of threads. One step is one
operation on the stack or the mutex.
-/

open scoped BigOperators

namespace FeederNet.MemoryPool.CustomLockedPool

namespace Interleaving

inductive Call
  | allocate
  | deallocate (msg : Nat)
  deriving DecidableEq, Repr

inductive Local
  | testEmpty
  | throwing
  | top
  | pop (msg : Nat)
  | popped (msg : Nat)
  | push (msg : Nat)
  | pushed (msg : Nat)
  deriving DecidableEq, Repr

inductive Completed
  | allocated (msg : Nat)
  | threw
  | deallocated (msg : Nat)
  deriving DecidableEq, Repr

/-- `top` and `pop` of an empty `std::stack` are undefined. -/
def act (pool : CustomLockedPool) :
    Local → Option (Monitor.Action CustomLockedPool Local Completed)
  | .testEmpty =>
      if pool.freeMsgs.isEmpty then some (.compute pool .throwing)
      else some (.compute pool .top)
  | .throwing => some (.leave .threw)
  | .top => pool.freeMsgs.head?.map fun msg => .compute pool (.pop msg)
  | .pop msg =>
      match pool.freeMsgs with
      | [] => none
      | _ :: freeMsgs => some (.compute { pool with freeMsgs := freeMsgs } (.popped msg))
  | .popped msg => some (.leave (.allocated msg))
  | .push msg => some (.compute (pool.push msg) (.pushed msg))
  | .pushed msg => some (.leave (.deallocated msg))

def code (poolMsgCount : Nat) :
    Monitor CustomLockedPool (List Nat) Local Call Completed where
  start := .initial poolMsgCount
  client := []
  permit held
    | .allocate => some held
    | .deallocate msg => if msg ∈ held then some (held.erase msg) else none
  enter
    | .allocate => .testEmpty
    | .deallocate msg => .push msg
  act := act
  collect held
    | .allocated msg => msg :: held
    | .threw | .deallocated _ => held

abbrev State (Thread : Type*) :=
  Monitor.State Thread CustomLockedPool (List Nat) Local Completed

variable {Thread : Type*}

def carried : Monitor.Phase Local → List Nat
  | .arriving (.push msg) | .inside (.push msg) | .inside (.popped msg) => [msg]
  | _ => []

/-- What a thread holds, a call in progress included. -/
def owned (state : State Thread) (thread : Thread) : List Nat :=
  state.client thread ++ carried (state.phase thread)

def serve (pool : CustomLockedPool) : Thread × Completed → Option CustomLockedPool
  | (_, .allocated msg) =>
      match pool.allocate with
      | .ok (top, pool) => if top = msg then some pool else none
      | .error _ => none
  | (_, .threw) =>
      match pool.allocate with
      | .ok _ => none
      | .error _ => some pool
  | (_, .deallocated msg) => some (pool.deallocate msg)

/-- The calls that have returned are a history of the pool under one thread. -/
def Sequential (poolMsgCount : Nat) (finished : List (Thread × Completed))
    (pool : CustomLockedPool) : Prop :=
  TransitionSystem.execute serve (CustomLockedPool.initial poolMsgCount) finished = some pool

theorem Sequential.concat {poolMsgCount : Nat} {finished : List (Thread × Completed)}
    {pool after : CustomLockedPool} {entry : Thread × Completed}
    (sequential : Sequential poolMsgCount finished pool)
    (served : serve pool entry = some after) :
    Sequential poolMsgCount (finished ++ [entry]) after := by
  rw [Sequential, TransitionSystem.execute_append, sequential]
  simpa [TransitionSystem.execute] using served

/-- Every message is free or with one thread. -/
def Ledger [Fintype Thread] (poolMsgCount : Nat) (state : State Thread) : Prop :=
  Partition (owned state) state.shared.freeMsgs (Multiset.range poolMsgCount)

/-- Where the pool stands between the calls that have returned and the call inside. -/
def Serving (poolMsgCount : Nat) (state : State Thread) : Local → Prop
  | .testEmpty | .push _ => Sequential poolMsgCount state.finished state.shared
  | .throwing => Sequential poolMsgCount state.finished state.shared ∧
      state.shared.freeMsgs = []
  | .top => Sequential poolMsgCount state.finished state.shared ∧
      state.shared.freeMsgs ≠ []
  | .pop msg => Sequential poolMsgCount state.finished state.shared ∧
      state.shared.freeMsgs.head? = some msg
  | .popped msg => ∃ before, Sequential poolMsgCount state.finished before ∧
      before.allocate = .ok (msg, state.shared)
  | .pushed msg => ∃ before, Sequential poolMsgCount state.finished before ∧
      state.shared = before.deallocate msg

/-- No call of the pool ever waits. -/
def Ready : Monitor.Phase Local → Prop
  | .arriving .testEmpty | .arriving (.push _) | .outside => True
  | _ => False

theorem act_eq_compute {pool after : CustomLockedPool} {here next : Local}
    (acts : act pool here = some (.compute after next)) :
    (here = .testEmpty ∧ after = pool ∧ next = .throwing ∧ pool.freeMsgs = []) ∨
      (here = .testEmpty ∧ after = pool ∧ next = .top ∧ pool.freeMsgs ≠ []) ∨
      (∃ msg, here = .top ∧ after = pool ∧ next = .pop msg ∧
        pool.freeMsgs.head? = some msg) ∨
      (∃ msg first, here = .pop msg ∧ next = .popped msg ∧
        pool.freeMsgs = first :: after.freeMsgs) ∨
      ∃ msg, here = .push msg ∧ after = pool.push msg ∧ next = .pushed msg := by
  cases here with
  | testEmpty =>
      cases free : pool.freeMsgs with
      | nil =>
          simp only [act, free, List.isEmpty_nil, if_true] at acts
          cases acts
          exact .inl ⟨rfl, rfl, rfl, rfl⟩
      | cons first rest =>
          simp only [act, free, List.isEmpty_cons] at acts
          cases acts
          exact .inr (.inl ⟨rfl, rfl, rfl, List.cons_ne_nil _ _⟩)
  | top =>
      rcases Option.map_eq_some_iff.mp acts with ⟨msg, head, same⟩
      cases same
      exact .inr (.inr (.inl ⟨msg, rfl, rfl, rfl, head⟩))
  | pop msg =>
      cases free : pool.freeMsgs with
      | nil =>
          simp only [act, free] at acts
          cases acts
      | cons first rest =>
          simp only [act, free] at acts
          cases acts
          exact .inr (.inr (.inr (.inl ⟨msg, first, rfl, rfl, rfl⟩)))
  | push msg =>
      cases acts
      exact .inr (.inr (.inr (.inr ⟨msg, rfl, rfl, rfl⟩)))
  | throwing | popped msg | pushed msg => cases acts

theorem act_eq_leave {pool : CustomLockedPool} {here : Local} {result : Completed}
    (acts : act pool here = some (.leave result)) :
    (here = .throwing ∧ result = .threw) ∨
      (∃ msg, here = .popped msg ∧ result = .allocated msg) ∨
      ∃ msg, here = .pushed msg ∧ result = .deallocated msg := by
  cases here with
  | throwing =>
      cases acts
      exact .inl ⟨rfl, rfl⟩
  | popped msg =>
      cases acts
      exact .inr (.inl ⟨msg, rfl, rfl⟩)
  | pushed msg =>
      cases acts
      exact .inr (.inr ⟨msg, rfl, rfl⟩)
  | testEmpty =>
      rw [act] at acts
      split at acts <;> cases acts
  | top =>
      rcases Option.map_eq_some_iff.mp acts with ⟨msg, _, same⟩
      cases same
  | pop msg =>
      rw [act] at acts
      split at acts <;> cases acts
  | push msg => cases acts

theorem act_ne_wait {pool : CustomLockedPool} {here next : Local} :
    act pool here ≠ some (.wait next) := by
  intro acts
  cases here with
  | testEmpty | pop msg =>
      rw [act] at acts
      split at acts <;> cases acts
  | top =>
      rcases Option.map_eq_some_iff.mp acts with ⟨msg, _, same⟩
      cases same
  | throwing | popped msg | push msg | pushed msg => cases acts

theorem act_ne_notifyOne {pool : CustomLockedPool} {here next : Local} :
    act pool here ≠ some (.notifyOne next) := by
  intro acts
  cases here with
  | testEmpty | pop msg =>
      rw [act] at acts
      split at acts <;> cases acts
  | top =>
      rcases Option.map_eq_some_iff.mp acts with ⟨msg, _, same⟩
      cases same
  | throwing | popped msg | push msg | pushed msg => cases acts

/-! ## The assertions -/

section Assertions

variable [DecidableEq Thread] [Fintype Thread] {poolMsgCount : Nat}
  {state next : State Thread}

/-- What one thread and the stack exchange stays between them. -/
theorem Ledger.move (ledger : Ledger poolMsgCount state) (thread : Thread)
    (others : ∀ other, other ≠ thread → owned next other = owned state other)
    (same : (owned next thread : Multiset Nat) + (next.shared.freeMsgs : Multiset Nat) =
      (owned state thread : Multiset Nat) + (state.shared.freeMsgs : Multiset Nat)) :
    Ledger poolMsgCount next := by
  have moved : owned next =
      Function.update (owned state) thread (owned next thread) := by
    funext other
    by_cases equal : other = thread
    · subst equal
      rw [Function.update_self]
    · rw [Function.update_of_ne equal, others other equal]
  rw [Ledger, moved]
  exact (Partition.update_iff ledger thread _ _).mpr same

omit [Fintype Thread] in
theorem owned_of_ne {thread other : Thread} {phase : Monitor.Phase Local}
    (client : List Nat) (different : other ≠ thread)
    (phases : next.phase = Function.update state.phase thread phase)
    (clients : next.client = Function.update state.client thread client ∨
      next.client = state.client) : owned next other = owned state other := by
  rcases clients with clients | clients
  · rw [owned, phases, clients, Function.update_of_ne different,
      Function.update_of_ne different, owned]
  · rw [owned, phases, clients, Function.update_of_ne different, owned]

theorem Ledger.goto {thread : Thread} {phase : Monitor.Phase Local}
    (ledger : Ledger poolMsgCount state)
    (phases : next.phase = Function.update state.phase thread phase)
    (clients : next.client = state.client)
    (free : next.shared.freeMsgs = state.shared.freeMsgs)
    (same : carried phase = carried (state.phase thread)) : Ledger poolMsgCount next := by
  apply ledger.move thread
  · intro other different
    exact owned_of_ne [] different phases (.inr clients)
  · rw [owned, phases, clients, free, Function.update_self, same, owned]

theorem Ledger.call {thread : Thread} {call : Call} {client : List Nat}
    (ledger : Ledger poolMsgCount state) (phase : state.phase thread = .outside)
    (permitted : (code poolMsgCount).permit (state.client thread) call = some client) :
    Ledger poolMsgCount
      (state.enter thread client ((code poolMsgCount).enter call)) := by
  apply ledger.move thread
  · intro other different
    exact owned_of_ne _ different rfl (.inl rfl)
  · congr 1
    apply Multiset.coe_eq_coe.mpr
    cases call with
    | allocate =>
        cases permitted
        simp [owned, carried, phase, Monitor.State.enter, code]
    | deallocate msg =>
        rcases Option.ite_none_right_eq_some.mp permitted with ⟨member, same⟩
        cases same
        have back := (List.perm_append_singleton msg ((state.client thread).erase msg)).trans
          (List.perm_cons_erase member).symm
        simpa [owned, carried, phase, Monitor.State.enter, code] using back

theorem Ledger.leave {thread : Thread} {here : Local} {client : List Nat}
    {result : Completed} (ledger : Ledger poolMsgCount state)
    (phase : state.phase thread = .inside here)
    (kept : (state.client thread ++ carried (.inside here)).Perm client) :
    Ledger poolMsgCount (state.leave thread client result) := by
  apply ledger.move thread
  · intro other different
    exact owned_of_ne _ different rfl (.inl rfl)
  · congr 1
    apply Multiset.coe_eq_coe.mpr
    have given := kept.symm
    rw [← phase] at given
    simpa [owned, carried, Monitor.State.leave] using given

theorem rule (poolMsgCount : Nat) : (code poolMsgCount).Rule Ready
    (fun state : State Thread => Sequential poolMsgCount state.finished state.shared ∧
      Ledger poolMsgCount state)
    (fun state _ here => Serving poolMsgCount state here ∧ Ledger poolMsgCount state) where
  start := by
    refine ⟨rfl, ?_⟩
    simp [Ledger, Partition, owned, carried, Monitor.initial, code, initial_freeMsgs,
      Multiset.range]
  outside := trivial
  enters call := by cases call <;> trivial
  waits acts := absurd acts act_ne_wait
  wakes {there} ready := by cases ready
  callFree {state thread call client} phase permitted free :=
    ⟨free.1, free.2.call phase permitted⟩
  callHeld {state thread call client other here} phase permitted _ held := by
    refine ⟨?_, held.2.call phase permitted⟩
    cases here <;> exact held.1
  arrive {state thread here} ready phase free := by
    cases here with
    | testEmpty => exact ⟨free.1, free.2.goto rfl rfl rfl (by rw [phase]; rfl)⟩
    | push msg => exact ⟨free.1, free.2.goto rfl rfl rfl (by rw [phase]; rfl)⟩
    | throwing | top | pop msg | popped msg | pushed msg => cases ready
  resume ready := by cases ready
  compute {state thread here shared next} phase acts held := by
    rcases held with ⟨serving, ledger⟩
    rcases act_eq_compute acts with ⟨rfl, rfl, rfl, free⟩ | ⟨rfl, rfl, rfl, free⟩ |
      ⟨msg, rfl, rfl, rfl, head⟩ | ⟨msg, first, rfl, rfl, free⟩ | ⟨msg, rfl, rfl, rfl⟩
    · exact ⟨⟨serving, free⟩, ledger.goto rfl rfl rfl (by rw [phase]; rfl)⟩
    · exact ⟨⟨serving, free⟩, ledger.goto rfl rfl rfl (by rw [phase]; rfl)⟩
    · exact ⟨⟨serving.1, head⟩, ledger.goto rfl rfl rfl (by rw [phase]; rfl)⟩
    · rcases serving with ⟨sequential, head⟩
      rw [free] at head
      cases head
      refine ⟨⟨state.shared, sequential, ?_⟩, ?_⟩
      · rw [allocate, free]
        rfl
      · apply ledger.move thread
        · intro other different
          exact owned_of_ne [] different rfl (.inr rfl)
        · rw [free]
          simp only [owned, phase, Monitor.State.compute, Monitor.State.goto_phase,
            Function.update_self, carried, Multiset.coe_add, List.append_nil]
          apply Multiset.coe_eq_coe.mpr
          simp [Monitor.State.goto]
    · refine ⟨⟨state.shared, serving, rfl⟩, ?_⟩
      apply ledger.move thread
      · intro other different
        exact owned_of_ne [] different rfl (.inr rfl)
      · simp only [owned, phase, Monitor.State.compute, Monitor.State.goto_phase,
          Function.update_self, carried, Multiset.coe_add, List.append_nil, push]
        apply Multiset.coe_eq_coe.mpr
        simp [Monitor.State.goto]
  wait _ acts := absurd acts act_ne_wait
  leave {state thread here result} phase acts held := by
    rcases held with ⟨serving, ledger⟩
    rcases act_eq_leave acts with ⟨rfl, rfl⟩ | ⟨msg, rfl, rfl⟩ | ⟨msg, rfl, rfl⟩
    · refine ⟨serving.1.concat ?_, ledger.leave phase ?_⟩
      · simp [serve, allocate, serving.2, Monitor.State.leave]
      · simp [carried, code]
    · rcases serving with ⟨before, sequential, allocated⟩
      refine ⟨sequential.concat ?_, ledger.leave phase ?_⟩
      · simp [serve, allocated, Monitor.State.leave]
      · simp [carried, code]
    · rcases serving with ⟨before, sequential, deallocated⟩
      refine ⟨sequential.concat ?_, ledger.leave phase ?_⟩
      · simp [serve, deallocated, Monitor.State.leave]
      · simp [carried, code]
  notifyNobody _ acts := absurd acts act_ne_notifyOne
  notify _ acts := absurd acts act_ne_notifyOne
  wakeFree phase free := ⟨free.1, free.2.goto rfl rfl rfl (by rw [phase]; rfl)⟩
  wakeHeld {state thread there other here} phase _ held := by
    refine ⟨?_, held.2.goto rfl rfl rfl (by rw [phase]; rfl)⟩
    cases here <;> exact held.1

omit [DecidableEq Thread] [Fintype Thread] in
theorem Serving.defined {here : Local} (serving : Serving poolMsgCount state here) :
    act state.shared here ≠ none := by
  cases here with
  | throwing | popped msg | push msg | pushed msg => exact Option.some_ne_none _
  | testEmpty =>
      rw [act]
      split <;> exact Option.some_ne_none _
  | top =>
      rcases List.exists_cons_of_ne_nil serving.2 with ⟨first, rest, free⟩
      simp [act, free]
  | pop msg =>
      rcases List.head?_eq_some_iff.mp serving.2 with ⟨rest, free⟩
      simp [act, free]

/-! ## Calls come to rest -/

def remaining : Monitor.Phase Local → Nat
  | .arriving .testEmpty => 5
  | .inside .testEmpty => 4
  | .arriving (.push _) | .inside .top => 3
  | .inside (.pop _) | .inside (.push _) => 2
  | .inside .throwing | .inside (.popped _) | .inside (.pushed _) => 1
  | _ => 0

theorem remaining_le (phase : Monitor.Phase Local) : remaining phase ≤ 5 := by
  unfold remaining
  split <;> decide

theorem remaining_decreases {event : Monitor.Event Thread Call}
    (ready : ∀ thread, (state.phase thread).isInside = true ∨ Ready (state.phase thread))
    (continues : event.continues = true)
    (step : (code poolMsgCount).Step state event next) :
    ∑ thread, remaining (next.phase thread) < ∑ thread, remaining (state.phase thread) := by
  cases step with
  | call => cases continues
  | wakeSpuriously => cases continues
  | @arrive thread here free phase =>
      refine sum_weight_lt remaining state.phase ?_
      have starts := ready thread
      rw [phase] at starts ⊢
      cases here with
      | testEmpty | push msg => simp [remaining]
      | throwing | top | pop msg | popped msg | pushed msg =>
          rcases starts with inside | starts
          · cases inside
          · cases starts
  | @resume thread here free phase =>
      have resumes := ready thread
      rw [phase] at resumes
      rcases resumes with inside | resumes
      · cases inside
      · cases resumes
  | @compute thread here shared after phase acts =>
      refine sum_weight_lt remaining state.phase ?_
      rw [phase]
      rcases act_eq_compute acts with ⟨rfl, rfl, rfl, _⟩ | ⟨rfl, rfl, rfl, _⟩ |
        ⟨msg, rfl, rfl, rfl, _⟩ | ⟨msg, first, rfl, rfl, _⟩ | ⟨msg, rfl, rfl, rfl⟩
      all_goals simp [remaining]
  | @leave thread here result phase acts =>
      refine sum_weight_lt remaining state.phase ?_
      rw [phase]
      rcases act_eq_leave acts with ⟨rfl, rfl⟩ | ⟨msg, rfl, rfl⟩ | ⟨msg, rfl, rfl⟩
      all_goals simp [remaining]
  | wait _ acts => exact absurd acts act_ne_wait
  | notifyNobody _ acts => exact absurd acts act_ne_notifyOne
  | notify _ acts => exact absurd acts act_ne_notifyOne

end Assertions

/-! ## What every run keeps -/

/-- A pool shared by threads.
* One thread at most is inside.
* Every message is free, or held by one thread or in the hand of its call, once.
* The calls that have returned or thrown are a history of the pool under one thread.
* A call throws only while no message is free, and none takes from an empty stack.
* The calls in progress make a bounded number of steps in every order, and all of them
  have returned or thrown once none can go on. -/
structure Shared [DecidableEq Thread] [Fintype Thread] (poolMsgCount : Nat)
    (state : State Thread) : Prop where
  alone : ∀ left right, (state.phase left).isInside = true →
    (state.phase right).isInside = true → left = right
  partition : Partition (owned state) state.shared.freeMsgs (Multiset.range poolMsgCount)
  exclusive : ∀ left right msg, msg ∈ owned state left → msg ∈ owned state right →
    left = right
  sequential : state.owner = none → Sequential poolMsgCount state.finished state.shared
  exhausted : ∀ thread, state.phase thread = .inside .throwing →
    ∑ other, (owned state other).length = poolMsgCount
  defined : ∀ thread here, state.phase thread = .inside here → act state.shared here ≠ none
  bounded : ∀ events final, (∀ event ∈ events, event.continues = true) →
    TransitionSystem.execute (code poolMsgCount).step state events = some final →
      events.length ≤ 5 * Fintype.card Thread
  rests : (code poolMsgCount).Quiet state → ∀ thread, state.phase thread = .outside

/-- Every interleaving of any number of threads, each of which deallocates only what it
holds. -/
theorem shared_of_reachable [DecidableEq Thread] [Fintype Thread] (poolMsgCount : Nat)
    {state : State Thread}
    (reachable : ((code poolMsgCount).system Thread).Reachable state) :
    Shared poolMsgCount state := by
  have guarded := (rule poolMsgCount).guarded reachable
  have ledger : Ledger poolMsgCount state := by
    rcases guarded.cases_owner with ⟨_, free⟩ | ⟨_, _, _, _, held⟩
    · exact free.2
    · exact held.2
  refine ⟨fun _ _ => guarded.alone, ledger, ?_, fun free => (guarded.free free).1, ?_, ?_,
    ?_, ?_⟩
  · intro left right msg inLeft inRight
    exact Partition.owner_unique ledger (Multiset.nodup_range _) inLeft inRight
  · intro thread inside
    have empty := (guarded.held thread _ inside).1.2
    have total := Partition.card_eq ledger
    rw [empty, List.length_nil, Multiset.card_range] at total
    exact total
  · intro thread here inside
    exact (guarded.held thread here inside).1.defined
  · intro events final continues executes
    have bound := TransitionSystem.length_le_of_execute
      (Monitor.Guarded Ready _ _) (fun event => event.continues = true)
      (fun state => ∑ thread, remaining (state.phase thread))
      (fun _ _ _ guarded stepped => (rule poolMsgCount).step guarded (.of_step stepped))
      (fun _ _ _ guarded continues stepped =>
        remaining_decreases guarded.ready continues (.of_step stepped))
      guarded continues executes
    have most := sum_weight_le remaining state.phase fun thread =>
      remaining_le (state.phase thread)
    omega
  · intro quiet thread
    rcases guarded.outside_or_blocked (fun _ _ held => held.1.defined) quiet thread with
      outside | blocked
    · exact outside
    · have ready : Ready (state.phase thread) :=
        guarded.ready_of_phase rfl (Monitor.Phase.isInside_of_isBlocked blocked)
      cases phase : state.phase thread with
      | blocked here =>
          rw [phase] at ready
          cases ready
      | outside => rfl
      | arriving here | inside here | woken here =>
          rw [phase] at blocked
          cases blocked

/-- Two threads want the only message; the second one finds the pool empty and throws, and
gets the message after the first one has freed it. -/
def contendedMessage : List (Monitor.Event Bool Call) :=
  [.call true .allocate, .call false .allocate, .acquire true, .act true, .act true,
    .act true, .act true, .acquire false, .act false, .act false,
    .call true (.deallocate 0), .acquire true, .act true, .act true,
    .call false .allocate, .acquire false, .act false, .act false, .act false, .act false]

theorem shared_of_reachable_contended :
    ∃ state : State Bool, (state.finished = [(true, .allocated 0), (false, .threw),
      (true, .deallocated 0), (false, .allocated 0)] ∧ state.client false = [0]) ∧
      Shared 1 state := by
  rcases TransitionSystem.exists_reachable_of_execute (code 1).initial
    (code 1).step contendedMessage
    (fun state => state.finished = [(true, .allocated 0), (false, .threw),
      (true, .deallocated 0), (false, .allocated 0)] ∧ state.client false = [0])
    (by decide) with ⟨state, reachable, served⟩
  exact ⟨state, served, shared_of_reachable 1 reachable⟩

end Interleaving

end FeederNet.MemoryPool.CustomLockedPool
