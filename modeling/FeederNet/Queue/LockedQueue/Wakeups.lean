import FeederNet.Foundation.Progress
import FeederNet.Queue.LockedQueue

/-! # Wakeups of LockedQueue

No wakeup is lost: while consumers sleep, as many are awake as there are messages. So the
calls in progress come to rest after a bounded number of steps, and then no consumer
sleeps over a message.
-/

open scoped BigOperators

namespace FeederNet.Queue.LockedQueue

variable {Thread α : Type*}

/-! ## Messages and awake consumers -/

def woken : Monitor.Phase (Local α) → Nat
  | .woken _ => 1
  | _ => 0

/-- A call that is about to take a message or to wake somebody for one. -/
def credit : Local α → Nat
  | .notify _ | .test | .front | .pop _ => 1
  | .push _ | .pushed _ | .popped _ => 0

/-- While somebody sleeps, there is no more to take than there are threads awake for it. -/
def Awake [Fintype Thread] (state : State Thread α) (credit : Nat) : Prop :=
  (∃ thread, (state.phase thread).isBlocked = true) →
    state.shared.length ≤ ∑ thread, woken (state.phase thread) + credit

section Awake

variable [Fintype Thread] [DecidableEq Thread] {state next : State Thread α}

theorem Awake.update {thread : Thread} {after : Monitor.Phase (Local α)}
    {before later : Nat} (awake : Awake state before)
    (phase : next.phase = Function.update state.phase thread after)
    (blocked : after.isBlocked = true → (state.phase thread).isBlocked = true)
    (enough : next.shared.length + (woken (state.phase thread) + before) ≤
      state.shared.length + (woken after + later)) : Awake next later := by
  rintro ⟨sleeper, sleeps⟩
  have slept : ∃ thread, (state.phase thread).isBlocked = true := by
    rw [phase] at sleeps
    by_cases same : sleeper = thread
    · subst same
      rw [Function.update_self] at sleeps
      exact ⟨sleeper, blocked sleeps⟩
    · rw [Function.update_of_ne same] at sleeps
      exact ⟨sleeper, sleeps⟩
  have bound := awake slept
  have sums := sum_weight_update woken state.phase thread after
  rw [← phase] at sums
  omega

theorem wakeupRule : (code α).Rule Ready (fun state : State Thread α => Awake state 0)
    (fun state _ here => Awake state (credit here)) where
  start := by
    rintro ⟨thread, sleeps⟩
    cases sleeps
  outside := (rule Thread).outside
  enters := (rule Thread).enters
  waits := (rule Thread).waits
  wakes := (rule Thread).wakes
  callFree {state thread call client} phase _ awake :=
    awake.update rfl (fun blocked => by cases blocked) (by rw [phase]; exact le_rfl)
  callHeld {state thread call client other here} phase _ _ awake :=
    awake.update rfl (fun blocked => by cases blocked) (by rw [phase]; exact le_rfl)
  arrive {state thread here} _ phase awake :=
    awake.update rfl (fun blocked => by cases blocked)
      (by rw [phase]; exact Nat.add_le_add_left (Nat.zero_le _) _)
  resume {state thread here} ready phase awake := by
    -- Only the test of `wait` is resumed, and it may use the wakeup.
    cases here with
    | test => exact awake.update rfl (fun blocked => by cases blocked) (by rw [phase]; exact le_rfl)
    | push ptr | notify ptr | pushed ptr | front | pop msg | popped msg => cases ready
  compute {state thread here shared next} phase acts awake := by
    rcases act_eq_compute acts with ⟨ptr, rfl, rfl, rfl⟩ | ⟨rfl, some, rfl, rfl⟩ |
      ⟨msg, rest, rfl, queue, rfl, rfl⟩ | ⟨msg, first, rfl, queue, rfl⟩
    · have phases : (state.compute thread (state.shared ++ [ptr]) (.notify ptr)).phase =
          Function.update state.phase thread (.inside (.notify ptr)) := rfl
      refine awake.update phases (fun blocked => by cases blocked) ?_
      simp [Monitor.State.compute, phase, woken, credit]
    · exact awake.update rfl (fun blocked => by cases blocked) (by rw [phase]; exact le_rfl)
    · exact awake.update rfl (fun blocked => by cases blocked) (by rw [phase]; exact le_rfl)
    · have phases : (state.compute thread shared (.popped msg)).phase =
          Function.update state.phase thread (.inside (.popped msg)) := rfl
      refine awake.update phases (fun blocked => by cases blocked) ?_
      simp [Monitor.State.compute, phase, woken, credit, queue]
  wait {state thread here next} phase acts awake := by
    rcases act_eq_wait acts with ⟨rfl, rfl, queue⟩
    intro _
    change state.shared.length ≤ _
    rw [queue]
    exact Nat.zero_le _
  leave {state thread here result} phase acts awake := by
    rcases act_eq_leave acts with ⟨ptr, rfl, rfl⟩ | ⟨msg, rfl, rfl⟩
    all_goals exact awake.update rfl (fun blocked => by cases blocked) (by rw [phase]; exact le_rfl)
  notifyNobody {state thread here next} phase acts nobody awake := by
    rintro ⟨sleeper, sleeps⟩
    rw [Monitor.State.goto_phase] at sleeps
    by_cases same : sleeper = thread
    · subst same
      rw [Function.update_self] at sleeps
      cases sleeps
    · rw [Function.update_of_ne same, nobody sleeper] at sleeps
      cases sleeps
  notify {state thread here next other there} phase acts blocked awake := by
    rcases act_eq_notifyOne acts with ⟨ptr, rfl, rfl⟩
    have different : thread ≠ other := by
      rintro rfl
      rw [phase] at blocked
      cases blocked
    have woke : Awake (state.goto other (.woken there)) 0 :=
      awake.update rfl (fun blocked => by cases blocked) (by rw [blocked]; exact le_rfl)
    refine woke.update rfl (fun blocked => by cases blocked) ?_
    rw [Monitor.State.goto_phase, Function.update_of_ne different, phase]
    exact le_rfl
  wakeFree {state thread there} phase awake :=
    awake.update rfl (fun blocked => by cases blocked)
      (by rw [phase]; exact Nat.add_le_add_left (Nat.zero_le _) _)
  wakeHeld {state thread there other here} phase _ awake :=
    awake.update rfl (fun blocked => by cases blocked)
      (by rw [phase]; exact Nat.add_le_add_left (Nat.add_le_add_right (Nat.zero_le _) _) _)

end Awake

/-! ## Calls come to rest -/

def remaining : Monitor.Phase (Local α) → Nat
  | .outside => 0
  | .arriving (.push _) => 10
  | .inside (.push _) => 9
  | .inside (.notify _) => 8
  | .inside (.pushed _) => 1
  | .arriving _ | .woken _ => 6
  | .inside .test => 5
  | .inside .front => 4
  | .inside (.pop _) => 3
  | .inside (.popped _) => 2
  | .blocked _ => 0

theorem remaining_le (phase : Monitor.Phase (Local α)) : remaining phase ≤ 10 := by
  unfold remaining
  split <;> decide

section Rest

variable [Fintype Thread] [DecidableEq Thread] {state next : State Thread α}

theorem remaining_decreases {event : Monitor.Event Thread (Call α)}
    (ready : ∀ thread, (state.phase thread).isInside = true ∨ Ready (state.phase thread))
    (continues : event.continues = true) (step : (code α).Step state event next) :
    ∑ thread, remaining (next.phase thread) < ∑ thread, remaining (state.phase thread) := by
  cases step with
  | call => cases continues
  | wakeSpuriously => cases continues
  | @arrive thread here free phase =>
      refine sum_weight_lt remaining state.phase ?_
      have starts := ready thread
      rw [phase] at starts ⊢
      cases here with
      | push ptr | test => simp [remaining]
      | notify ptr | pushed ptr | front | pop msg | popped msg =>
          rcases starts with inside | starts
          · cases inside
          · cases starts
  | @resume thread here free phase =>
      refine sum_weight_lt remaining state.phase ?_
      have resumes := ready thread
      rw [phase] at resumes ⊢
      cases here with
      | test => simp [remaining]
      | push ptr | notify ptr | pushed ptr | front | pop msg | popped msg =>
          rcases resumes with inside | resumes
          · cases inside
          · cases resumes
  | @compute thread here shared after phase acts =>
      refine sum_weight_lt remaining state.phase ?_
      rw [phase]
      rcases act_eq_compute acts with ⟨ptr, rfl, rfl, rfl⟩ | ⟨rfl, some, rfl, rfl⟩ |
        ⟨msg, rest, rfl, queue, rfl, rfl⟩ | ⟨msg, first, rfl, queue, rfl⟩
      all_goals simp [remaining]
  | @wait thread here after phase acts =>
      refine sum_weight_lt remaining state.phase ?_
      rw [phase]
      rcases act_eq_wait acts with ⟨rfl, rfl, _⟩
      simp [remaining]
  | @leave thread here result phase acts =>
      refine sum_weight_lt remaining state.phase ?_
      rw [phase]
      rcases act_eq_leave acts with ⟨ptr, rfl, rfl⟩ | ⟨msg, rfl, rfl⟩
      all_goals simp [remaining]
  | @notifyNobody thread here after phase acts nobody =>
      refine sum_weight_lt remaining state.phase ?_
      rw [phase]
      rcases act_eq_notifyOne acts with ⟨ptr, rfl, rfl⟩
      simp [remaining]
  | @notify thread here after other there phase acts blocked =>
      rcases act_eq_notifyOne acts with ⟨ptr, rfl, rfl⟩
      have different : thread ≠ other := by
        rintro rfl
        rw [phase] at blocked
        cases blocked
      -- The notifying thread has paid for the six steps of the one it wakes.
      have woke := sum_weight_update remaining state.phase other (.woken there)
      have went := sum_weight_update remaining
        (Function.update state.phase other (.woken there)) thread (.inside (.pushed ptr))
      rw [Function.update_of_ne different, phase] at went
      rw [blocked] at woke
      have slept : remaining (.blocked there : Monitor.Phase (Local α)) = 0 := rfl
      have wakes : remaining (.woken there : Monitor.Phase (Local α)) = 6 := rfl
      have paid : remaining (.inside (.notify ptr)) = 8 := rfl
      have left : remaining (.inside (.pushed ptr)) = 1 := rfl
      rw [Monitor.State.notify_phase]
      omega

/-- What a reachable state promises about the calls in progress.
* By themselves, without new calls and spurious wakeups, they make a bounded number of
  steps in every order.
* Once none of them can go on, every enqueue has returned, and if some dequeue still
  sleeps, then the queue is empty. -/
structure ComesToRest (state : State Thread α) : Prop where
  bounded : ∀ events final, (∀ event ∈ events, event.continues = true) →
    TransitionSystem.execute (code α).step state events = some final →
      events.length ≤ 10 * Fintype.card Thread
  settled : (code α).Quiet state →
    (∀ thread, state.phase thread = .outside ∨ state.phase thread = .blocked .test) ∧
      ((∃ thread, state.phase thread = .blocked .test) → state.shared = [])

theorem eq_blocked_test {phase : Monitor.Phase (Local α)} (ready : Ready phase)
    (blocked : phase.isBlocked = true) : phase = .blocked .test := by
  cases phase with
  | blocked here =>
      cases here with
      | test => rfl
      | push ptr | notify ptr | pushed ptr | front | pop msg | popped msg => cases ready
  | outside | arriving here | inside here | woken here => cases blocked

/-- No interleaving of any number of threads loses a wakeup. -/
theorem comesToRest_of_reachable (reachable : ((code α).system Thread).Reachable state) :
    ComesToRest state where
  bounded events final continues executes := by
    have bound := TransitionSystem.length_le_of_execute
      (Monitor.Guarded Ready Free Held)
      (fun event => event.continues = true)
      (fun state => ∑ thread, remaining (state.phase thread))
      (fun _ _ _ guarded stepped => (rule Thread).step guarded (.of_step stepped))
      (fun _ _ _ guarded continues stepped =>
        remaining_decreases guarded.ready continues (.of_step stepped))
      ((rule Thread).guarded reachable) continues executes
    have most := sum_weight_le remaining state.phase fun thread =>
      remaining_le (state.phase thread)
    omega
  settled quiet := by
    have contents := (rule Thread).guarded reachable
    have wakeups := wakeupRule.guarded reachable
    have rest := contents.outside_or_blocked (fun thread here held => held.defined) quiet
    have sleeps : ∀ thread, state.phase thread = .outside ∨
        state.phase thread = .blocked .test := by
      intro thread
      rcases rest thread with outside | blocked
      · exact .inl outside
      · have ready : Ready (state.phase thread) :=
          contents.ready_of_phase rfl (Monitor.Phase.isInside_of_isBlocked blocked)
        exact .inr (eq_blocked_test ready blocked)
    refine ⟨sleeps, ?_⟩
    rintro ⟨sleeper, blocked⟩
    have nobody : ∑ thread, woken (state.phase thread) = 0 := by
      apply Finset.sum_eq_zero
      intro thread _
      rcases sleeps thread with outside | asleep
      · rw [outside]
        rfl
      · rw [asleep]
        rfl
    rcases wakeups.cases_owner with ⟨_, awake⟩ | ⟨thread, here, _, inside, _⟩
    · have bound := awake ⟨sleeper, by rw [blocked]; rfl⟩
      rw [nobody] at bound
      exact List.eq_nil_of_length_eq_zero (Nat.le_zero.mp bound)
    · rcases sleeps thread with outside | asleep
      · rw [inside] at outside
        cases outside
      · rw [inside] at asleep
        cases asleep

def sleepingConsumer : List (Monitor.Event Bool (Call Nat)) :=
  [.call false .dequeue, .acquire false, .act false,
    .call true (.enqueue 7), .acquire true, .act true]

theorem comesToRest_of_reachable_sleeping :
    ∃ state : State Bool Nat, (state.phase false = .blocked .test ∧
      state.phase true = .inside (.notify 7)) ∧ ComesToRest state := by
  rcases TransitionSystem.exists_reachable_of_execute (code Nat).initial
    (code Nat).step sleepingConsumer
    (fun state => state.phase false = .blocked .test ∧
      state.phase true = .inside (.notify 7)) (by decide) with ⟨state, reachable, phases⟩
  exact ⟨state, phases, comesToRest_of_reachable reachable⟩

end Rest

end FeederNet.Queue.LockedQueue
