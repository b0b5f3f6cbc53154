import FeederNet.Foundation.TransitionSystem
import Mathlib.Data.Fintype.Basic
import Mathlib.Logic.Function.Basic
import Mathlib.Tactic.Common

/-! # Monitors

Threads that share a value guarded by one mutex with one condition variable. What a
thread does between taking the mutex and releasing it is given step by step, so that a
step may rely on earlier steps only through the mutex.
-/

namespace FeederNet

/-- What a thread that stands inside does next. Waiting releases the mutex. -/
inductive Monitor.Action (Shared Local Result : Type*)
  | compute (shared : Shared) (next : Local)
  | wait (next : Local)
  | notifyOne (next : Local)
  | leave (result : Result)

/-- The code of a monitor. `permit` is what the caller gives up to make a call, when it
may make the call at all; `collect` is what it then has of the result. An action that
is not defined stands for undefined behaviour. -/
structure Monitor (Shared Client Local Call Result : Type*) where
  start : Shared
  client : Client
  permit : Client → Call → Option Client
  enter : Call → Local
  act : Shared → Local → Option (Monitor.Action Shared Local Result)
  collect : Client → Result → Client

namespace Monitor

/-- Where a thread stands. A thread that arrives or has been woken is about to lock the
mutex. -/
inductive Phase (Local : Type*)
  | outside
  | arriving (here : Local)
  | inside (here : Local)
  | blocked (here : Local)
  | woken (here : Local)
  deriving DecidableEq, Repr

/-- `finished` are the results of the calls that have returned, oldest first. -/
structure State (Thread Shared Client Local Result : Type*) where
  shared : Shared
  owner : Option Thread
  phase : Thread → Phase Local
  client : Thread → Client
  finished : List (Thread × Result)

inductive Event (Thread Call : Type*)
  | call (thread : Thread) (call : Call)
  | acquire (thread : Thread)
  | act (thread : Thread)
  | notify (thread : Thread) (woken : Option Thread)
  | wakeSpuriously (thread : Thread)
  deriving DecidableEq, Repr

variable {Thread Shared Client Local Call Result : Type*}

def Phase.isInside : Phase Local → Bool
  | .inside _ => true
  | _ => false

def Phase.isBlocked : Phase Local → Bool
  | .blocked _ => true
  | _ => false

theorem Phase.isInside_of_isBlocked {phase : Phase Local}
    (blocked : phase.isBlocked = true) : phase.isInside = false := by
  cases phase with
  | blocked here => rfl
  | outside | arriving here | inside here | woken here => cases blocked

section System

variable [DecidableEq Thread] (monitor : Monitor Shared Client Local Call Result)

namespace State

variable (state : State Thread Shared Client Local Result) (thread : Thread)

def goto (phase : Phase Local) : State Thread Shared Client Local Result :=
  { state with phase := Function.update state.phase thread phase }

def enter (client : Client) (here : Local) : State Thread Shared Client Local Result :=
  { state.goto thread (.arriving here) with
    client := Function.update state.client thread client }

def acquire (here : Local) : State Thread Shared Client Local Result :=
  { state.goto thread (.inside here) with owner := some thread }

def compute (shared : Shared) (next : Local) : State Thread Shared Client Local Result :=
  { state.goto thread (.inside next) with shared := shared }

def block (next : Local) : State Thread Shared Client Local Result :=
  { state.goto thread (.blocked next) with owner := none }

def notify (next : Local) (other : Thread) (there : Local) :
    State Thread Shared Client Local Result :=
  (state.goto other (.woken there)).goto thread (.inside next)

def leave (client : Client) (result : Result) :
    State Thread Shared Client Local Result :=
  { state.goto thread .outside with
    owner := none
    client := Function.update state.client thread client
    finished := state.finished ++ [(thread, result)] }

variable {state thread}

@[simp] theorem goto_phase (phase : Phase Local) :
    (state.goto thread phase).phase = Function.update state.phase thread phase := rfl

@[simp] theorem goto_shared (phase : Phase Local) :
    (state.goto thread phase).shared = state.shared := rfl

@[simp] theorem notify_phase (next : Local) (other : Thread) (there : Local) :
    (state.notify thread next other there).phase =
      Function.update (Function.update state.phase other (.woken there)) thread
        (.inside next) := rfl

@[simp] theorem acquire_phase (here : Local) :
    (state.acquire thread here).phase =
      Function.update state.phase thread (.inside here) := rfl

end State

def initial : State Thread Shared Client Local Result where
  shared := monitor.start
  owner := none
  phase _ := .outside
  client _ := monitor.client
  finished := []

def step [Fintype Thread] (state : State Thread Shared Client Local Result) :
    Event Thread Call → Option (State Thread Shared Client Local Result)
  | .call thread call =>
      match state.phase thread with
      | .outside =>
          (monitor.permit (state.client thread) call).map fun client =>
            state.enter thread client (monitor.enter call)
      | _ => none
  | .acquire thread =>
      match state.owner, state.phase thread with
      | none, .arriving here | none, .woken here => some (state.acquire thread here)
      | _, _ => none
  | .act thread =>
      match state.phase thread with
      | .inside here =>
          match monitor.act state.shared here with
          | some (.compute shared next) => some (state.compute thread shared next)
          | some (.wait next) => some (state.block thread next)
          | some (.leave result) =>
              some (state.leave thread (monitor.collect (state.client thread) result)
                result)
          | some (.notifyOne _) | none => none
      | _ => none
  | .notify thread woken =>
      match state.phase thread with
      | .inside here =>
          match monitor.act state.shared here with
          | some (.notifyOne next) =>
              match woken with
              | none =>
                  if ∀ other, (state.phase other).isBlocked = false then
                    some (state.goto thread (.inside next))
                  else none
              | some other =>
                  match state.phase other with
                  | .blocked there => some (state.notify thread next other there)
                  | _ => none
          | _ => none
      | _ => none
  | .wakeSpuriously thread =>
      match state.phase thread with
      | .blocked there => some (state.goto thread (.woken there))
      | _ => none

@[reducible] def system (Thread : Type*) [DecidableEq Thread] [Fintype Thread] :
    TransitionSystem (State Thread Shared Client Local Result) (Event Thread Call) :=
  .ofStep monitor.initial monitor.step

inductive Step : State Thread Shared Client Local Result → Event Thread Call →
    State Thread Shared Client Local Result → Prop
  | call {state thread call client} :
      state.phase thread = .outside →
      monitor.permit (state.client thread) call = some client →
      Step state (.call thread call) (state.enter thread client (monitor.enter call))
  | arrive {state thread here} :
      state.owner = none → state.phase thread = .arriving here →
      Step state (.acquire thread) (state.acquire thread here)
  | resume {state thread here} :
      state.owner = none → state.phase thread = .woken here →
      Step state (.acquire thread) (state.acquire thread here)
  | compute {state thread here shared next} :
      state.phase thread = .inside here →
      monitor.act state.shared here = some (.compute shared next) →
      Step state (.act thread) (state.compute thread shared next)
  | wait {state thread here next} :
      state.phase thread = .inside here →
      monitor.act state.shared here = some (.wait next) →
      Step state (.act thread) (state.block thread next)
  | leave {state thread here result} :
      state.phase thread = .inside here →
      monitor.act state.shared here = some (.leave result) →
      Step state (.act thread)
        (state.leave thread (monitor.collect (state.client thread) result) result)
  | notifyNobody {state thread here next} :
      state.phase thread = .inside here →
      monitor.act state.shared here = some (.notifyOne next) →
      (∀ other, (state.phase other).isBlocked = false) →
      Step state (.notify thread none) (state.goto thread (.inside next))
  | notify {state thread here next other there} :
      state.phase thread = .inside here →
      monitor.act state.shared here = some (.notifyOne next) →
      state.phase other = .blocked there →
      Step state (.notify thread (some other)) (state.notify thread next other there)
  | wakeSpuriously {state thread there} :
      state.phase thread = .blocked there →
      Step state (.wakeSpuriously thread) (state.goto thread (.woken there))

variable {monitor}

theorem Step.of_step [Fintype Thread]
    {state next : State Thread Shared Client Local Result} {event : Event Thread Call}
    (stepped : monitor.step state event = some next) : monitor.Step state event next := by
  cases event with
  | call thread call =>
      simp only [step] at stepped
      split at stepped
      · rename_i phase
        rcases Option.map_eq_some_iff.mp stepped with ⟨client, permitted, rfl⟩
        exact .call phase permitted
      · cases stepped
  | acquire thread =>
      simp only [step] at stepped
      split at stepped
      · cases stepped
        exact .arrive ‹_› ‹_›
      · cases stepped
        exact .resume ‹_› ‹_›
      · cases stepped
  | act thread =>
      simp only [step] at stepped
      split at stepped
      · rename_i here phase
        split at stepped
        · cases stepped
          exact .compute phase ‹_›
        · cases stepped
          exact .wait phase ‹_›
        · cases stepped
          exact .leave phase ‹_›
        · cases stepped
        · cases stepped
      · cases stepped
  | notify thread woken =>
      cases woken with
      | none =>
          simp only [step] at stepped
          split at stepped
          · rename_i here phase
            split at stepped
            · rename_i after acts
              rcases Option.ite_none_right_eq_some.mp stepped with ⟨nobody, same⟩
              cases same
              exact .notifyNobody phase acts nobody
            · cases stepped
          · cases stepped
      | some other =>
          simp only [step] at stepped
          split at stepped
          · rename_i here phase
            split at stepped
            · rename_i after acts
              split at stepped
              · cases stepped
                exact .notify phase acts ‹_›
              · cases stepped
            · cases stepped
          · cases stepped
  | wakeSpuriously thread =>
      simp only [step] at stepped
      split at stepped
      · cases stepped
        exact .wakeSpuriously ‹_›
      · cases stepped

end System

/-! ## The rule for monitors -/

section Rule

variable [DecidableEq Thread] {monitor : Monitor Shared Client Local Call Result}
  {state next : State Thread Shared Client Local Result}
  {Ready : Phase Local → Prop} {Free : State Thread Shared Client Local Result → Prop}
  {Held : State Thread Shared Client Local Result → Thread → Local → Prop}

omit [DecidableEq Thread] in
theorem eq_of_exclusive {phase : Thread → Phase Local} {owner other : Thread}
    (exclusive : ∀ thread, (phase thread).isInside = true ↔ some owner = some thread)
    (inside : (phase other).isInside = true) : other = owner :=
  (Option.some.inj ((exclusive other).mp inside)).symm

theorem exclusive_stay {phase : Thread → Phase Local} {thread : Thread}
    {after : Phase Local} {owner : Option Thread}
    (exclusive : ∀ thread, (phase thread).isInside = true ↔ owner = some thread)
    (same : after.isInside = (phase thread).isInside) (other : Thread) :
    (Function.update phase thread after other).isInside = true ↔ owner = some other := by
  by_cases equal : other = thread
  · subst equal
    rw [Function.update_self, same]
    exact exclusive other
  · rw [Function.update_of_ne equal]
    exact exclusive other

theorem exclusive_acquire {phase : Thread → Phase Local} {thread : Thread} {here : Local}
    (exclusive : ∀ thread, (phase thread).isInside = true ↔ none = some thread)
    (other : Thread) :
    (Function.update phase thread (.inside here) other).isInside = true ↔
      some thread = some other := by
  by_cases equal : other = thread
  · subst equal
    simp [Phase.isInside]
  · have outside := (exclusive other).mp
    rw [Function.update_of_ne equal]
    constructor
    · intro inside
      cases outside inside
    · intro same
      cases same
      exact absurd rfl equal

theorem exclusive_release {phase : Thread → Phase Local} {thread : Thread}
    {after : Phase Local}
    (exclusive : ∀ other, (phase other).isInside = true ↔ some thread = some other)
    (outside : after.isInside = false) (other : Thread) :
    (Function.update phase thread after other).isInside = true ↔ none = some other := by
  by_cases equal : other = thread
  · subst equal
    simp [outside]
  · rw [Function.update_of_ne equal]
    constructor
    · intro inside
      exact absurd (eq_of_exclusive exclusive inside) equal
    · intro same
      cases same

theorem ready_update {phase : Thread → Phase Local} {thread : Thread}
    {after : Phase Local}
    (ready : ∀ other, (phase other).isInside = true ∨ Ready (phase other))
    (new : after.isInside = true ∨ Ready after) (other : Thread) :
    (Function.update phase thread after other).isInside = true ∨
      Ready (Function.update phase thread after other) := by
  by_cases equal : other = thread
  · subst equal
    rw [Function.update_self]
    exact new
  · rw [Function.update_of_ne equal]
    exact ready other

/-- What to show of a monitor: `Free` holds whenever nobody is inside, `Held` of the
thread inside and of where it stands, and `Ready` of where every other thread stands. Each
obligation is about one step, and the steps of other threads while somebody is inside only
make a call or wake up. -/
structure Rule (monitor : Monitor Shared Client Local Call Result) (Ready : Phase Local → Prop)
    (Free : State Thread Shared Client Local Result → Prop)
    (Held : State Thread Shared Client Local Result → Thread → Local → Prop) : Prop where
  start : Free monitor.initial
  outside : Ready .outside
  enters : ∀ call, Ready (.arriving (monitor.enter call))
  waits : ∀ {shared here next}, monitor.act shared here = some (.wait next) →
    Ready (.blocked next)
  wakes : ∀ {there}, Ready (.blocked there) → Ready (.woken there)
  callFree : ∀ {state thread call client}, state.phase thread = .outside →
    monitor.permit (state.client thread) call = some client → Free state →
    Free (state.enter thread client (monitor.enter call))
  callHeld : ∀ {state thread call client other here}, state.phase thread = .outside →
    monitor.permit (state.client thread) call = some client →
    state.phase other = .inside here → Held state other here →
    Held (state.enter thread client (monitor.enter call)) other here
  arrive : ∀ {state thread here}, Ready (.arriving here) → state.phase thread = .arriving here →
    Free state → Held (state.acquire thread here) thread here
  resume : ∀ {state thread here}, Ready (.woken here) → state.phase thread = .woken here →
    Free state → Held (state.acquire thread here) thread here
  compute : ∀ {state thread here shared next}, state.phase thread = .inside here →
    monitor.act state.shared here = some (.compute shared next) →
    Held state thread here → Held (state.compute thread shared next) thread next
  wait : ∀ {state thread here next}, state.phase thread = .inside here →
    monitor.act state.shared here = some (.wait next) →
    Held state thread here → Free (state.block thread next)
  leave : ∀ {state thread here result}, state.phase thread = .inside here →
    monitor.act state.shared here = some (.leave result) → Held state thread here →
    Free (state.leave thread (monitor.collect (state.client thread) result) result)
  notifyNobody : ∀ {state thread here next}, state.phase thread = .inside here →
    monitor.act state.shared here = some (.notifyOne next) →
    (∀ other, (state.phase other).isBlocked = false) →
    Held state thread here → Held (state.goto thread (.inside next)) thread next
  notify : ∀ {state thread here next other there}, state.phase thread = .inside here →
    monitor.act state.shared here = some (.notifyOne next) →
    state.phase other = .blocked there →
    Held state thread here → Held (state.notify thread next other there) thread next
  wakeFree : ∀ {state thread there}, state.phase thread = .blocked there →
    Free state → Free (state.goto thread (.woken there))
  wakeHeld : ∀ {state thread there other here}, state.phase thread = .blocked there →
    state.phase other = .inside here → Held state other here →
    Held (state.goto thread (.woken there)) other here

/-- What the rule gives: the mutex excludes, and each assertion holds in its place. -/
structure Guarded (Ready : Phase Local → Prop)
    (Free : State Thread Shared Client Local Result → Prop)
    (Held : State Thread Shared Client Local Result → Thread → Local → Prop)
    (state : State Thread Shared Client Local Result) : Prop where
  exclusive : ∀ thread, (state.phase thread).isInside = true ↔ state.owner = some thread
  ready : ∀ thread, (state.phase thread).isInside = true ∨ Ready (state.phase thread)
  free : state.owner = none → Free state
  held : ∀ thread here, state.phase thread = .inside here → Held state thread here

omit [DecidableEq Thread] in
theorem Guarded.owner_eq (guarded : Guarded Ready Free Held state) {thread : Thread}
    {here : Local} (inside : state.phase thread = .inside here) :
    state.owner = some thread :=
  (guarded.exclusive thread).mp (by rw [inside]; rfl)

omit [DecidableEq Thread] in
theorem Guarded.alone (guarded : Guarded Ready Free Held state) {left right : Thread}
    (inLeft : (state.phase left).isInside = true)
    (inRight : (state.phase right).isInside = true) : left = right :=
  Option.some.inj (((guarded.exclusive left).mp inLeft).symm.trans
    ((guarded.exclusive right).mp inRight))

omit [DecidableEq Thread] in
theorem Guarded.eq_of_inside (guarded : Guarded Ready Free Held state)
    {left right : Thread} {here there : Local} (inLeft : state.phase left = .inside here)
    (inRight : state.phase right = .inside there) : left = right :=
  guarded.alone (by rw [inLeft]; rfl) (by rw [inRight]; rfl)

omit [DecidableEq Thread] in
theorem Guarded.ready_of_phase (guarded : Guarded Ready Free Held state) {thread : Thread}
    {phase : Phase Local} (stands : state.phase thread = phase)
    (outside : phase.isInside = false) : Ready phase := by
  subst stands
  rcases guarded.ready thread with inside | ready
  · rw [outside] at inside
    cases inside
  · exact ready

omit [DecidableEq Thread] in
theorem Guarded.cases_owner (guarded : Guarded Ready Free Held state) :
    (state.owner = none ∧ Free state) ∨
      ∃ thread here, state.owner = some thread ∧ state.phase thread = .inside here ∧
        Held state thread here := by
  cases owns : state.owner with
  | none => exact .inl ⟨rfl, guarded.free owns⟩
  | some thread =>
      have inside := (guarded.exclusive thread).mpr owns
      cases phase : state.phase thread with
      | inside here => exact .inr ⟨thread, here, rfl, phase, guarded.held thread here phase⟩
      | outside | arriving here | blocked here | woken here =>
          rw [phase] at inside
          cases inside

omit [DecidableEq Thread] in
theorem Guarded.not_inside (guarded : Guarded Ready Free Held state)
    (free : state.owner = none) (thread : Thread) :
    (state.phase thread).isInside = false := by
  apply Bool.eq_false_iff.mpr
  intro inside
  rw [(guarded.exclusive thread).mp inside] at free
  cases free

omit [DecidableEq Thread] in
theorem Guarded.exclusive_owner (guarded : Guarded Ready Free Held state) {thread : Thread}
    {here : Local} (inside : state.phase thread = .inside here) (other : Thread) :
    (state.phase other).isInside = true ↔ some thread = some other := by
  rw [← guarded.owner_eq inside]
  exact guarded.exclusive other

theorem Guarded.stay (guarded : Guarded Ready Free Held state) {thread : Thread}
    {here there : Local} (inside : state.phase thread = .inside here)
    (owner : next.owner = state.owner)
    (phase : next.phase = Function.update state.phase thread (.inside there))
    (held : Held next thread there) : Guarded Ready Free Held next := by
  have exclusive : ∀ other, (next.phase other).isInside = true ↔
      next.owner = some other := by
    intro other
    rw [phase, owner]
    exact exclusive_stay guarded.exclusive (by rw [inside]; rfl) other
  refine ⟨exclusive, ?_, ?_, ?_⟩
  · rw [phase]
    exact ready_update guarded.ready (.inl rfl)
  · intro free
    rw [owner, guarded.owner_eq inside] at free
    cases free
  · intro other here' insideOther
    have same : other = thread := by
      have owned := (exclusive other).mp (by rw [insideOther]; rfl)
      rw [owner, guarded.owner_eq inside] at owned
      exact (Option.some.inj owned).symm
    subst same
    rw [phase, Function.update_self] at insideOther
    cases insideOther
    exact held

theorem Guarded.release (guarded : Guarded Ready Free Held state) {thread : Thread}
    {here : Local} {after : Phase Local} (inside : state.phase thread = .inside here)
    (owner : next.owner = none) (phase : next.phase = Function.update state.phase thread after)
    (outside : after.isInside = false)
    (ready : Ready after) (free : Free next) :
    Guarded Ready Free Held next := by
  have exclusive : ∀ other, (next.phase other).isInside = true ↔
      next.owner = some other := by
    intro other
    rw [phase, owner]
    exact exclusive_release (guarded.exclusive_owner inside) outside other
  refine ⟨exclusive, ?_, fun _ => free, ?_⟩
  · rw [phase]
    exact ready_update guarded.ready (.inr ready)
  · intro other here insideOther
    have owned := (exclusive other).mp (by rw [insideOther]; rfl)
    rw [owner] at owned
    cases owned

theorem Guarded.acquire (guarded : Guarded Ready Free Held state) {thread : Thread}
    {here : Local} (free : state.owner = none)
    (held : Held (state.acquire thread here) thread here) :
    Guarded Ready Free Held (state.acquire thread here) where
  exclusive other := by
    refine exclusive_acquire ?_ other
    intro other
    rw [← free]
    exact guarded.exclusive other
  ready := ready_update guarded.ready (.inl rfl)
  free := nofun
  held other there inside := by
    by_cases equal : other = thread
    · subst equal
      rw [State.acquire_phase, Function.update_self] at inside
      cases inside
      exact held
    · rw [State.acquire_phase, Function.update_of_ne equal] at inside
      have outside := guarded.not_inside free other
      rw [inside] at outside
      cases outside

theorem Guarded.aside (guarded : Guarded Ready Free Held state) {thread : Thread}
    {after : Phase Local} (owner : next.owner = state.owner)
    (phase : next.phase = Function.update state.phase thread after)
    (before : (state.phase thread).isInside = false) (outside : after.isInside = false)
    (ready : Ready after)
    (free : Free state → Free next)
    (held : ∀ other here, state.phase other = .inside here → Held state other here →
      Held next other here) : Guarded Ready Free Held next where
  exclusive other := by
    rw [phase, owner]
    exact exclusive_stay guarded.exclusive (by rw [before, outside]) other
  ready := by
    rw [phase]
    exact ready_update guarded.ready (.inr ready)
  free unlocked := free (guarded.free (owner ▸ unlocked))
  held other here inside := by
    rw [phase] at inside
    by_cases equal : other = thread
    · subst equal
      rw [Function.update_self] at inside
      rw [inside] at outside
      cases outside
    · rw [Function.update_of_ne equal] at inside
      exact held other here inside (guarded.held other here inside)

theorem Guarded.notify (guarded : Guarded Ready Free Held state) {thread other : Thread}
    {here there after : Local} (inside : state.phase thread = .inside here)
    (blocked : state.phase other = .blocked there)
    (ready : Ready (.woken there))
    (held : Held (state.notify thread after other there) thread after) :
    Guarded Ready Free Held (state.notify thread after other there) := by
  have different : thread ≠ other := by
    rintro rfl
    rw [inside] at blocked
    cases blocked
  -- Waking the other thread by itself keeps everything but the assertions.
  have woken : Guarded Ready (fun _ => True) (fun _ _ _ => True)
      (state.goto other (.woken there)) := by
    exact Guarded.aside
      ⟨guarded.exclusive, guarded.ready, fun _ => trivial, fun _ _ _ => trivial⟩
      rfl rfl (by rw [blocked]; rfl) rfl ready (fun _ => trivial) fun _ _ _ _ => trivial
  have stays : (state.goto other (.woken there)).phase thread = .inside here := by
    rw [State.goto_phase, Function.update_of_ne different, inside]
  have moved : Guarded Ready (fun _ => True) (fun _ _ _ => True)
      (state.notify thread after other there) := woken.stay stays rfl rfl trivial
  have insideAfter : (state.notify thread after other there).phase thread =
      .inside after := Function.update_self ..
  refine ⟨moved.exclusive, moved.ready, ?_, ?_⟩
  · intro free
    rw [moved.owner_eq insideAfter] at free
    cases free
  · intro someone place insideOther
    have same : thread = someone := moved.eq_of_inside insideAfter insideOther
    subst same
    rw [insideAfter] at insideOther
    cases insideOther
    exact held

theorem Rule.initial (rule : Rule monitor Ready Free Held) :
    Guarded Ready Free Held (monitor.initial : State Thread _ _ _ _) where
  exclusive thread := by simp [Monitor.initial, Phase.isInside]
  ready _ := .inr rule.outside
  free _ := rule.start
  held := nofun

/-- One step keeps the assertions. -/
theorem Rule.step (rule : Rule monitor Ready Free Held) {event : Event Thread Call}
    (guarded : Guarded Ready Free Held state) (step : monitor.Step state event next) :
    Guarded Ready Free Held next := by
  cases step with
  | @call thread call client phase permitted =>
      exact guarded.aside rfl rfl (by rw [phase]; rfl) rfl (rule.enters call)
        (rule.callFree phase permitted) fun other here => rule.callHeld phase permitted
  | @arrive thread here free phase =>
      have ready := guarded.ready_of_phase phase rfl
      exact guarded.acquire free (rule.arrive ready phase (guarded.free free))
  | @resume thread here free phase =>
      have ready := guarded.ready_of_phase phase rfl
      exact guarded.acquire free (rule.resume ready phase (guarded.free free))
  | @compute thread here shared after phase acts =>
      exact guarded.stay phase rfl rfl (rule.compute phase acts (guarded.held _ _ phase))
  | @wait thread here after phase acts =>
      exact guarded.release phase rfl rfl rfl (rule.waits acts)
        (rule.wait phase acts (guarded.held _ _ phase))
  | @leave thread here result phase acts =>
      exact guarded.release phase rfl rfl rfl rule.outside
        (rule.leave phase acts (guarded.held _ _ phase))
  | @notifyNobody thread here after phase acts nobody =>
      exact guarded.stay phase rfl rfl
        (rule.notifyNobody phase acts nobody (guarded.held _ _ phase))
  | @notify thread here after other there phase acts blocked =>
      have ready := guarded.ready_of_phase blocked rfl
      exact guarded.notify phase blocked (rule.wakes ready)
        (rule.notify phase acts blocked (guarded.held _ _ phase))
  | @wakeSpuriously thread there phase =>
      have ready := guarded.ready_of_phase phase rfl
      exact guarded.aside rfl rfl (by rw [phase]; rfl) rfl (rule.wakes ready)
        (rule.wakeFree phase) fun other here => rule.wakeHeld phase

/-- The rule for monitors, for any number of threads and every interleaving. -/
theorem Rule.guarded [Fintype Thread] (rule : Rule monitor Ready Free Held)
    (reachable : (monitor.system Thread).Reachable state) :
    Guarded Ready Free Held state := by
  refine reachable.invariant (Guarded Ready Free Held) ?_ ?_
  · intro state start
    cases start
    exact rule.initial
  · intro current event next guarded stepped
    exact rule.step guarded (Step.of_step stepped)

end Rule

/-! ## Calls in progress -/

section Quiet

variable [DecidableEq Thread] [Fintype Thread]
  {monitor : Monitor Shared Client Local Call Result}
  {state : State Thread Shared Client Local Result}
  {Ready : Phase Local → Prop} {Free : State Thread Shared Client Local Result → Prop}
  {Held : State Thread Shared Client Local Result → Thread → Local → Prop}

/-- A step of a call in progress that needs no spurious wakeup. -/
def Event.continues : Event Thread Call → Bool
  | .acquire _ | .act _ | .notify _ _ => true
  | .call _ _ | .wakeSpuriously _ => false

variable (monitor) in
/-- No call in progress can go on by itself. -/
def Quiet (state : State Thread Shared Client Local Result) : Prop :=
  ∀ event : Event Thread Call, event.continues = true → monitor.step state event = none

theorem exists_step_of_inside {thread : Thread} {here : Local}
    (inside : state.phase thread = .inside here)
    (defined : monitor.act state.shared here ≠ none) :
    ∃ event : Event Thread Call, event.continues = true ∧
      monitor.step state event ≠ none := by
  cases acts : monitor.act state.shared here with
  | none => exact absurd acts defined
  | some action =>
      cases action with
      | compute shared next => exact ⟨.act thread, rfl, by simp [step, inside, acts]⟩
      | wait next => exact ⟨.act thread, rfl, by simp [step, inside, acts]⟩
      | leave result => exact ⟨.act thread, rfl, by simp [step, inside, acts]⟩
      | notifyOne next =>
          by_cases nobody : ∀ other, (state.phase other).isBlocked = false
          · exact ⟨.notify thread none, rfl, by simp [step, inside, acts, nobody]⟩
          · rcases not_forall.mp nobody with ⟨other, blocked⟩
            refine ⟨.notify thread (some other), rfl, ?_⟩
            cases phase : state.phase other with
            | blocked there => simp [step, inside, acts, phase]
            | outside | arriving there | inside there | woken there =>
                rw [phase] at blocked
                exact absurd rfl blocked

/-- Once no call can go on, every thread is outside or blocked. -/
theorem Guarded.outside_or_blocked (guarded : Guarded Ready Free Held state)
    (defined : ∀ thread here, Held state thread here →
      monitor.act state.shared here ≠ none)
    (quiet : monitor.Quiet state) (thread : Thread) :
    state.phase thread = .outside ∨ (state.phase thread).isBlocked = true := by
  rcases guarded.cases_owner with ⟨free, _⟩ | ⟨someone, here, _, inside, held⟩
  · cases phase : state.phase thread with
    | outside => exact .inl rfl
    | blocked here => exact .inr rfl
    | arriving here =>
        have none := quiet (.acquire thread) rfl
        simp [step, free, phase] at none
    | woken here =>
        have none := quiet (.acquire thread) rfl
        simp [step, free, phase] at none
    | inside here =>
        have outside := guarded.not_inside free thread
        rw [phase] at outside
        cases outside
  · rcases exists_step_of_inside inside (defined someone here held) with
      ⟨event, continues, enabled⟩
    exact absurd (quiet event continues) enabled

end Quiet

end Monitor

end FeederNet
