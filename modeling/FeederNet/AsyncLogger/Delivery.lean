import FeederNet.AsyncLogger
import FeederNet.Foundation.Ownership

/-! # What the logger delivers

When the destructor returns, all messages are written and all buffers are back exactly if
the queue was empty at the test that ended the loop, nothing was enqueued after it, and no
call of `log` was under way.
-/

namespace FeederNet.AsyncLogger

variable {Thread : Type u}

def Call.held : Call Thread → List Nat
  | .formatting buffer | .failed buffer => [buffer]
  | .enqueueing msg => [msg.buffer]
  | .idle | .returning _ => []

def Worker.unwritten : Worker Thread → List (LogMsg Thread)
  | .writing msg => [msg]
  | .testing | .dequeuing | .deallocating _ | .ended => []

def Worker.held : Worker Thread → List Nat
  | .writing msg | .deallocating msg => [msg.buffer]
  | .testing | .dequeuing | .ended => []

/-- Two messages of one thread come in the order of their numbers. -/
def InOrder (messages : List (LogMsg Thread)) : Prop :=
  messages.Pairwise fun first second =>
    first.thread = second.thread → first.number < second.number

theorem InOrder.nodup {messages : List (LogMsg Thread)} (ordered : InOrder messages) :
    messages.Nodup :=
  ordered.imp fun {first second} before => by
    rintro rfl
    exact Nat.lt_irrefl _ (before rfl)

def Numbered (numbers : Thread → Nat) (messages : List (LogMsg Thread)) : Prop :=
  ∀ msg ∈ messages, msg.number < numbers msg.thread

theorem InOrder.append {messages : List (LogMsg Thread)} {numbers : Thread → Nat}
    (ordered : InOrder messages) (numbered : Numbered numbers messages)
    {msg : LogMsg Thread} (number : msg.number = numbers msg.thread) :
    InOrder (messages ++ [msg]) := by
  refine List.pairwise_append.mpr ⟨ordered, List.pairwise_singleton _ msg, ?_⟩
  intro earlier member last isLast sameThread
  cases List.mem_singleton.mp isLast
  rw [number, ← sameThread]
  exact numbered earlier member

theorem Numbered.append [DecidableEq Thread] {messages : List (LogMsg Thread)}
    {numbers : Thread → Nat} (numbered : Numbered numbers messages) {msg : LogMsg Thread}
    {thread : Thread} (sameThread : msg.thread = thread)
    (number : msg.number = numbers thread) :
    Numbered (Function.update numbers thread (numbers thread + 1)) (messages ++ [msg]) := by
  have grows : ∀ other, numbers other ≤
      Function.update numbers thread (numbers thread + 1) other := by
    intro other
    by_cases same : other = thread
    · subst same
      rw [Function.update_self]
      exact Nat.le_succ _
    · rw [Function.update_of_ne same]
  intro other member
  rcases List.mem_append.mp member with earlier | last
  · exact (numbered other earlier).trans_le (grows other.thread)
  · cases List.mem_singleton.mp last
    rw [sameThread, Function.update_self, number]
    exact Nat.lt_succ_self _

namespace State

/-- The buffers that are not in the hands of a call of `log`. -/
def shared (state : State Thread) : List Nat :=
  state.pool ++ state.queue.map LogMsg.buffer ++ state.worker.held

def messages (state : State Thread) : List (LogMsg Thread) :=
  state.written.map Prod.snd

theorem exists_line {state : State Thread} {msg : LogMsg Thread}
    (written : msg ∈ state.messages) : ∃ now, line now msg <:+: state.outStream := by
  rcases List.mem_map.mp written with ⟨⟨now, _⟩, member, rfl⟩
  refine ⟨now, List.infix_of_mem_flatten ?_⟩
  exact List.mem_map_of_mem member

def history (state : State Thread) : List (LogMsg Thread) :=
  state.messages ++ state.worker.unwritten ++ state.queue

end State

variable {config : Config} {state next : State Thread}

structure Inv [Fintype Thread] (config : Config) (state : State Thread) : Prop where
  owned : Partition (fun thread => (state.call thread).held) state.shared
    (Multiset.range config.poolMsgCount)
  ordered : InOrder state.history
  numbered : Numbered state.numbers state.history
  enqueueing : ∀ thread msg, state.call thread = .enqueueing msg →
    msg.thread = thread ∧ msg.number = state.numbers thread
  returning : ∀ thread msg, state.call thread = .returning msg → msg ∈ state.history
  accepted : ∀ msg ∈ state.accepted, msg ∈ state.history
  before : ∀ msg ∈ state.before, msg ∈ state.accepted
  joined : state.destructor = .returned → state.worker = .ended

theorem inv_initial [Fintype Thread] (config : Config) :
    Inv config (.initial config : State Thread) where
  owned := by
    simp [Partition, State.initial, State.shared, Call.held, Worker.held,
      ← Multiset.coe_range]
  ordered := List.Pairwise.nil
  numbered := List.forall_mem_nil _
  enqueueing := nofun
  returning := nofun
  accepted := List.forall_mem_nil _
  before := List.forall_mem_nil _
  joined := nofun

/-! ## The logger thread -/

theorem Inv.moveWorker [Fintype Thread] (inv : Inv config state) (pool : List Nat)
    (queue : List (LogMsg Thread)) (worker : Worker Thread)
    (written : List (Nat × LogMsg Thread))
    (history : written.map Prod.snd ++ worker.unwritten ++ queue = state.history)
    (shared : (pool ++ queue.map LogMsg.buffer ++ worker.held).Perm state.shared)
    (working : state.worker ≠ .ended) :
    Inv config { state with
      pool := pool
      queue := queue
      worker := worker
      written := written } := by
  have same : State.history { state with
      pool := pool
      queue := queue
      worker := worker
      written := written } = state.history := history
  refine ⟨?_, ?_, ?_, inv.enqueueing, ?_, ?_, inv.before, ?_⟩
  · have owned := inv.owned
    rw [Partition, ← Multiset.coe_eq_coe.mpr shared] at owned
    exact owned
  · rw [same]
    exact inv.ordered
  · rw [same]
    exact inv.numbered
  · rw [same]
    exact inv.returning
  · rw [same]
    exact inv.accepted
  · exact fun returned => absurd (inv.joined returned) working

theorem Inv.dequeueNothing [Fintype Thread] (inv : Inv config state)
    (phase : state.worker = .dequeuing) : Inv config { state with worker := .testing } := by
  refine inv.moveWorker _ _ .testing _ ?_ ?_ (by rw [phase]; nofun)
  · rw [State.history, phase]; rfl
  · rw [State.shared, phase]; exact List.Perm.refl _

/-! ## The threads in log -/

/-- The queue has room while some thread has a buffer in hand. -/
theorem Inv.room [Fintype Thread] (inv : Inv config state)
    (fits : config.poolMsgCount ≤ config.queueCapacity) {thread : Thread} {buffer : Nat}
    (held : (state.call thread).held = [buffer]) :
    state.queue.length < config.queueCapacity := by
  have bounded := inv.owned.length_add_le thread
  simp only [held, State.shared, List.length_append, List.length_map, List.length_singleton,
    Multiset.card_range] at bounded
  omega

section Threads

variable [DecidableEq Thread]

inductive CallStepped (config : Config) (state : State Thread) (thread : Thread) :
    CallEvent → State Thread → Prop
  | allocate (buffer : Nat) (phase : state.call thread = .idle)
      (free : buffer ∈ state.pool) : CallStepped config state thread (.allocate buffer)
      ({ state with pool := state.pool.erase buffer }.goto thread (.formatting buffer))
  | exhausted (phase : state.call thread = .idle) (empty : state.pool = []) :
      CallStepped config state thread .exhausted state
  | format (text : List UInt8) (buffer : Nat)
      (phase : state.call thread = .formatting buffer) :
      CallStepped config state thread (.format text)
      (state.goto thread (.enqueueing {
        thread := thread
        number := state.numbers thread
        buffer := buffer
        text := text.take (config.logBufferSize - 1) }))
  | formatFailed (buffer : Nat) (phase : state.call thread = .formatting buffer) :
      CallStepped config state thread .formatFailed (state.goto thread (.failed buffer))
  | deallocate (buffer : Nat) (phase : state.call thread = .failed buffer) :
      CallStepped config state thread .deallocate
      ({ state with pool := buffer :: state.pool }.goto thread .idle)
  | enqueue (msg : LogMsg Thread) (phase : state.call thread = .enqueueing msg) :
      CallStepped config state thread .enqueue
      ({ state with
        queue :=
          if state.queue.length < config.queueCapacity then state.queue ++ [msg]
          else state.queue
        numbers := Function.update state.numbers thread
          (state.numbers thread + 1) }.goto thread (.returning msg))
  | finish (msg : LogMsg Thread) (phase : state.call thread = .returning msg) :
      CallStepped config state thread .finish
      ({ state with accepted := state.accepted ++ [msg] }.goto thread .idle)

inductive Stepped (config : Config) (state : State Thread) :
    Event Thread → State Thread → Prop
  | call (thread : Thread) (event : CallEvent) (next : State Thread)
      (running : state.destructor ≠ .returned)
      (stepped : CallStepped config state thread event next) :
      Stepped config state (.call thread event) next
  | test (phase : state.worker = .testing) : Stepped config state .test
      { state with worker := if state.runFlag then .dequeuing else .ended }
  | nothing (phase : state.worker = .dequeuing) (empty : state.queue = []) :
      Stepped config state .dequeue { state with worker := .testing }
  | dequeue (msg : LogMsg Thread) (queue : List (LogMsg Thread))
      (phase : state.worker = .dequeuing) (found : state.queue = msg :: queue) :
      Stepped config state .dequeue { state with
        queue := queue
        worker := .writing msg }
  | write (now : Nat) (msg : LogMsg Thread) (phase : state.worker = .writing msg) :
      Stepped config state (.write now) { state with
        written := state.written ++ [(now, msg)]
        worker := .deallocating msg }
  | deallocate (msg : LogMsg Thread) (phase : state.worker = .deallocating msg) :
      Stepped config state .deallocate { state with
        pool := msg.buffer :: state.pool
        worker := .testing }
  | destroy (phase : state.destructor = .waiting) : Stepped config state .destroy
      { state with
        runFlag := false
        before := state.accepted
        destructor := .joining }
  | join (phase : state.destructor = .joining) (ended : state.worker = .ended) :
      Stepped config state .join { state with destructor := .returned }

theorem callStepped_of_callStep {thread : Thread} {event : CallEvent}
    (stepped : callStep config state thread event = some next) :
    CallStepped config state thread event next := by
  cases event with
  | allocate buffer =>
      simp only [callStep] at stepped
      split at stepped
      · split at stepped <;> cases stepped
        exact .allocate buffer (by assumption) (by assumption)
      · cases stepped
  | exhausted =>
      simp only [callStep] at stepped
      split at stepped
      · split at stepped <;> cases stepped
        exact .exhausted (by assumption) (by assumption)
      · cases stepped
  | format text =>
      simp only [callStep] at stepped
      split at stepped <;> cases stepped
      exact .format text _ (by assumption)
  | formatFailed =>
      simp only [callStep] at stepped
      split at stepped <;> cases stepped
      exact .formatFailed _ (by assumption)
  | deallocate =>
      simp only [callStep] at stepped
      split at stepped <;> cases stepped
      exact .deallocate _ (by assumption)
  | enqueue =>
      simp only [callStep] at stepped
      split at stepped <;> cases stepped
      exact .enqueue _ (by assumption)
  | finish =>
      simp only [callStep] at stepped
      split at stepped <;> cases stepped
      exact .finish _ (by assumption)

theorem stepped_of_step {event : Event Thread}
    (stepped : step config state event = some next) : Stepped config state event next := by
  cases event with
  | call thread event =>
      simp only [step] at stepped
      split at stepped
      · cases stepped
      · exact .call thread event _ (by assumption) (callStepped_of_callStep stepped)
  | test =>
      simp only [step] at stepped
      split at stepped <;> cases stepped
      exact .test (by assumption)
  | dequeue =>
      simp only [step] at stepped
      split at stepped <;> cases stepped
      · exact .nothing (by assumption) (by assumption)
      · exact .dequeue _ _ (by assumption) (by assumption)
  | write now =>
      simp only [step] at stepped
      split at stepped <;> cases stepped
      exact .write now _ (by assumption)
  | deallocate =>
      simp only [step] at stepped
      split at stepped <;> cases stepped
      exact .deallocate _ (by assumption)
  | destroy =>
      simp only [step] at stepped
      split at stepped <;> cases stepped
      exact .destroy (by assumption)
  | join =>
      simp only [step] at stepped
      split at stepped <;> cases stepped
      exact .join (by assumption) (by assumption)

theorem held_goto (state : State Thread) (thread : Thread) (call : Call Thread) :
    (fun other => ((state.goto thread call).call other).held) =
      Function.update (fun other => (state.call other).held) thread call.held :=
  Function.comp_update Call.held state.call thread call

/-- What holds of the new call of one thread and of the old calls of the others holds of
all. -/
theorem goto_call (Holds : Thread → Call Thread → Prop) {thread : Thread}
    {call : Call Thread} (here : Holds thread call)
    (elsewhere : ∀ other ≠ thread, Holds other (state.call other)) (other : Thread) :
    Holds other ((state.goto thread call).call other) :=
  (Function.forall_update_iff state.call Holds).mpr ⟨here, elsewhere⟩ other

variable [Fintype Thread]

theorem Inv.moveCall (inv : Inv config state) (thread : Thread) (call : Call Thread)
    (pool : List Nat)
    (moved : (call.held ++ pool).Perm ((state.call thread).held ++ state.pool))
    (enqueueing : ∀ msg, call = .enqueueing msg →
      msg.thread = thread ∧ msg.number = state.numbers thread)
    (returning : ∀ msg, call ≠ .returning msg) :
    Inv config ({ state with pool := pool }.goto thread call) where
  owned := by
    rw [held_goto]
    refine (inv.owned.update_iff thread _ _).mpr ?_
    have rest := moved.append_right (state.queue.map LogMsg.buffer ++ state.worker.held)
    simp only [State.shared, State.goto, Multiset.coe_add, Multiset.coe_eq_coe,
      List.append_assoc] at rest ⊢
    exact rest
  ordered := inv.ordered
  numbered := inv.numbered
  enqueueing := goto_call (fun other call => ∀ msg, call = .enqueueing msg →
    msg.thread = other ∧ msg.number = state.numbers other) enqueueing
    fun other _ => inv.enqueueing other
  returning := goto_call (fun _ call => ∀ msg, call = .returning msg → msg ∈ state.history)
    (fun msg returns => absurd returns (returning msg)) fun other _ => inv.returning other
  accepted := inv.accepted
  before := inv.before
  joined := inv.joined

theorem Inv.enqueue (inv : Inv config state) {thread : Thread} {msg : LogMsg Thread}
    (phase : state.call thread = .enqueueing msg) :
    Inv config ({ state with
      queue := state.queue ++ [msg]
      numbers := Function.update state.numbers thread
        (state.numbers thread + 1) }.goto thread (.returning msg)) := by
  rcases inv.enqueueing thread msg phase with ⟨sameThread, sameNumber⟩
  have held : (state.call thread).held = [msg.buffer] := by rw [phase]; rfl
  have grown : state.messages ++ state.worker.unwritten ++ (state.queue ++ [msg]) =
      state.history ++ [msg] := (List.append_assoc _ _ _).symm
  have kept : ∀ other ∈ state.history, other ∈
      state.messages ++ state.worker.unwritten ++ (state.queue ++ [msg]) := by
    intro other member
    rw [grown]
    exact List.mem_append_left _ member
  refine ⟨?_, ?_, ?_, ?_, ?_, fun other member => kept other (inv.accepted other member),
    inv.before, inv.joined⟩
  · rw [held_goto]
    refine (inv.owned.update_iff thread _ _).mpr ?_
    rw [held]
    refine Multiset.coe_eq_coe.mpr (List.perm_iff_count.mpr fun buffer => ?_)
    simp only [State.shared, State.goto, Call.held, List.map_append, List.map_cons,
      List.map_nil, List.count_append, List.count_nil]
    omega
  · change InOrder (state.messages ++ state.worker.unwritten ++ (state.queue ++ [msg]))
    rw [grown]
    exact inv.ordered.append inv.numbered (by rw [sameNumber, sameThread])
  · change Numbered _ (state.messages ++ state.worker.unwritten ++ (state.queue ++ [msg]))
    rw [grown]
    exact inv.numbered.append sameThread sameNumber
  · refine goto_call (fun other call => ∀ pending, call = .enqueueing pending →
      pending.thread = other ∧ pending.number =
        Function.update state.numbers thread (state.numbers thread + 1) other) nofun ?_
    intro other different pending calls
    rw [Function.update_of_ne different]
    exact inv.enqueueing other pending calls
  · refine goto_call (fun _ call => ∀ pending, call = .returning pending →
      pending ∈ state.messages ++ state.worker.unwritten ++ (state.queue ++ [msg])) ?_ ?_
    · rintro _ ⟨⟩
      rw [grown]
      exact List.mem_append_right _ (List.mem_singleton_self msg)
    · intro other _ pending calls
      exact kept pending (inv.returning other pending calls)

theorem Inv.finish (inv : Inv config state) {thread : Thread} {msg : LogMsg Thread}
    (phase : state.call thread = .returning msg) :
    Inv config ({ state with accepted := state.accepted ++ [msg] }.goto thread .idle) := by
  have moved := inv.moveCall thread .idle state.pool (by rw [phase]; exact List.Perm.refl _)
    nofun nofun
  refine ⟨moved.owned, moved.ordered, moved.numbered, moved.enqueueing, moved.returning, ?_,
    ?_, moved.joined⟩
  · intro other member
    rcases List.mem_append.mp member with earlier | added
    · exact inv.accepted other earlier
    · cases List.mem_singleton.mp added
      exact inv.returning thread msg phase
  · intro other member
    exact List.mem_append_left _ (inv.before other member)

theorem Inv.callStep (inv : Inv config state)
    (fits : config.poolMsgCount ≤ config.queueCapacity) {thread : Thread}
    {event : CallEvent} (stepped : CallStepped config state thread event next) :
    Inv config next := by
  cases stepped with
  | allocate buffer phase free =>
      refine inv.moveCall thread (.formatting buffer) _ ?_ nofun nofun
      rw [phase]
      exact (List.perm_cons_erase free).symm
  | exhausted => exact inv
  | format text buffer phase =>
      refine inv.moveCall thread _ state.pool ?_ ?_ nofun
      · rw [phase]
        exact List.Perm.refl _
      · rintro msg ⟨⟩
        exact ⟨rfl, rfl⟩
  | formatFailed buffer phase =>
      refine inv.moveCall thread (.failed buffer) state.pool ?_ nofun nofun
      rw [phase]
      exact List.Perm.refl _
  | deallocate buffer phase =>
      refine inv.moveCall thread .idle _ ?_ nofun nofun
      rw [phase]
      exact List.Perm.refl _
  | enqueue msg phase =>
      have room := inv.room fits (by rw [phase]; rfl)
      rw [if_pos room]
      exact inv.enqueue phase
  | finish msg phase => exact inv.finish phase

/-! ## The steps of all threads -/

theorem Inv.step (inv : Inv config state)
    (fits : config.poolMsgCount ≤ config.queueCapacity) {event : Event Thread}
    (stepped : Stepped config state event next) : Inv config next := by
  cases stepped with
  | call thread event next running stepped => exact inv.callStep fits stepped
  | test phase =>
      have working : state.worker ≠ .ended := by rw [phase]; nofun
      split
      · refine inv.moveWorker _ _ .dequeuing _ ?_ ?_ working
        · rw [State.history, phase]; rfl
        · rw [State.shared, phase]; exact List.Perm.refl _
      · refine inv.moveWorker _ _ .ended _ ?_ ?_ working
        · rw [State.history, phase]; rfl
        · rw [State.shared, phase]; exact List.Perm.refl _
  | nothing phase empty => exact inv.dequeueNothing phase
  | dequeue msg queue phase found =>
      refine inv.moveWorker _ queue (.writing msg) _ ?_ ?_ (by rw [phase]; nofun)
      · rw [State.history, phase, found]
        simp [State.messages, Worker.unwritten]
      · rw [State.shared, phase, found]
        refine List.perm_iff_count.mpr fun buffer => ?_
        simp only [Worker.held, List.map_cons, List.count_append, List.count_cons,
          List.count_nil]
        omega
  | write now msg phase =>
      refine inv.moveWorker _ _ (.deallocating msg) _ ?_ ?_ (by rw [phase]; nofun)
      · rw [State.history, phase]
        simp [State.messages, Worker.unwritten]
      · rw [State.shared, phase]; exact List.Perm.refl _
  | deallocate msg phase =>
      refine inv.moveWorker _ _ .testing _ ?_ ?_ (by rw [phase]; nofun)
      · rw [State.history, phase]; rfl
      · rw [State.shared, phase]
        refine List.perm_iff_count.mpr fun buffer => ?_
        simp only [Worker.held, List.count_append, List.count_cons, List.count_nil]
        omega
  | destroy phase =>
      exact ⟨inv.owned, inv.ordered, inv.numbered, inv.enqueueing, inv.returning,
        inv.accepted, fun _ member => member, nofun⟩
  | join phase ended =>
      exact ⟨inv.owned, inv.ordered, inv.numbered, inv.enqueueing, inv.returning,
        inv.accepted, inv.before, fun _ => ended⟩

/-! ## Runs -/

/-- Every message whose `log` returned before the destructor began is written once and
stands in the output, the messages of one thread are written in the order of its calls,
and every buffer is in the pool. -/
structure Delivered (config : Config) (state : State Thread) : Prop where
  once : ∀ msg ∈ state.before, state.messages.count msg = 1
  lines : ∀ msg ∈ state.before, ∃ now, State.line now msg <:+: state.outStream
  inOrder : InOrder state.messages
  returned : state.pool.Perm (List.range config.poolMsgCount)

/-- The loop ends with an empty queue, nothing is enqueued after it, and the destructor
does not return while a call of `log` has a buffer in hand. -/
def Keeps (state : State Thread) : Event Thread → Prop
  | .test => state.runFlag = false → state.queue = []
  | .call _ .enqueue => state.worker ≠ .ended
  | .join => ∀ thread, (state.call thread).held = []
  | _ => True

/-- Nothing is left behind by a loop that has ended and a destructor that has returned. -/
def Kept (state : State Thread) : Prop :=
  (state.worker = .ended → state.queue = []) ∧
    (state.destructor = .returned → ∀ thread, (state.call thread).held = [])

omit [Fintype Thread] [DecidableEq Thread] in
theorem kept_iff_of_running (running : state.destructor ≠ .returned) :
    Kept state ↔ (state.worker = .ended → state.queue = []) :=
  and_iff_left fun returned => absurd returned running

theorem Inv.kept_call_iff (inv : Inv config state)
    (fits : config.poolMsgCount ≤ config.queueCapacity) {thread : Thread}
    {event : CallEvent} (running : state.destructor ≠ .returned)
    (stepped : CallStepped config state thread event next) :
    Kept next ↔ Kept state ∧ Keeps state (.call thread event) := by
  rw [kept_iff_of_running running]
  cases stepped with
  | allocate | exhausted | format | formatFailed | deallocate | finish =>
      refine Iff.trans ?_ (and_iff_left trivial).symm
      exact kept_iff_of_running running
  | enqueue msg phase =>
      have room := inv.room fits (by rw [phase]; rfl)
      rw [if_pos room]
      constructor
      · intro kept
        have working : state.worker ≠ .ended := fun ended =>
          List.append_ne_nil_of_right_ne_nil _ (List.cons_ne_nil msg []) (kept.1 ended)
        exact ⟨fun ended => absurd ended working, working⟩
      · rintro ⟨_, working⟩
        exact ⟨fun ended => absurd ended working, fun returned => absurd returned running⟩

omit [Fintype Thread] [DecidableEq Thread] in
theorem kept_iff_of_working (working : state.worker ≠ .ended) (pool : List Nat)
    (queue : List (LogMsg Thread)) (worker : Worker Thread) (still : worker ≠ .ended)
    (written : List (Nat × LogMsg Thread)) :
    Kept { state with
      pool := pool
      queue := queue
      worker := worker
      written := written } ↔ Kept state := by
  constructor
  · intro kept
    exact ⟨fun ended => absurd ended working, kept.2⟩
  · intro kept
    exact ⟨fun ended => absurd ended still, kept.2⟩

theorem Inv.kept_iff (inv : Inv config state)
    (fits : config.poolMsgCount ≤ config.queueCapacity) {event : Event Thread}
    (stepped : Stepped config state event next) :
    Kept next ↔ Kept state ∧ Keeps state event := by
  cases stepped with
  | call thread event next running stepped => exact inv.kept_call_iff fits running stepped
  | test phase =>
      have working : state.worker ≠ .ended := by rw [phase]; nofun
      split
      · rename_i flag
        rw [kept_iff_of_working working _ _ .dequeuing nofun]
        refine (and_iff_left fun cleared => ?_).symm
        rw [flag] at cleared
        cases cleared
      · rename_i flag
        constructor
        · intro kept
          exact ⟨⟨fun ended => absurd ended working, kept.2⟩, fun _ => kept.1 rfl⟩
        · rintro ⟨kept, drained⟩
          exact ⟨fun _ => drained (Bool.not_eq_true _ ▸ flag), kept.2⟩
  | nothing phase empty =>
      rw [kept_iff_of_working (by rw [phase]; nofun) _ _ .testing nofun]
      exact (and_iff_left trivial).symm
  | dequeue msg queue phase found =>
      rw [kept_iff_of_working (by rw [phase]; nofun) _ _ (.writing msg) nofun]
      exact (and_iff_left trivial).symm
  | write now msg phase =>
      rw [kept_iff_of_working (by rw [phase]; nofun) _ _ (.deallocating msg) nofun]
      exact (and_iff_left trivial).symm
  | deallocate msg phase =>
      rw [kept_iff_of_working (by rw [phase]; nofun) _ _ .testing nofun]
      exact (and_iff_left trivial).symm
  | destroy phase =>
      have running : state.destructor ≠ .returned := by rw [phase]; nofun
      rw [kept_iff_of_running running]
      refine Iff.trans ?_ (and_iff_left trivial).symm
      exact kept_iff_of_running nofun
  | join phase ended =>
      have running : state.destructor ≠ .returned := by rw [phase]; nofun
      rw [kept_iff_of_running running]
      exact and_congr_right fun _ => ⟨fun idle => idle rfl, fun idle _ => idle⟩

theorem Inv.delivered_iff_kept (inv : Inv config state)
    (returned : state.destructor = .returned) : Delivered config state ↔ Kept state := by
  have ended := inv.joined returned
  have owned := inv.owned
  have history : state.history = state.messages ++ state.queue := by
    rw [State.history, ended, Worker.unwritten, List.append_nil]
  have shared : state.shared = state.pool ++ state.queue.map LogMsg.buffer := by
    rw [State.shared, ended, Worker.held, List.append_nil]
  constructor
  · intro delivered
    have total := owned.card_eq
    have back := delivered.returned.length_eq
    rw [shared, List.length_append, List.length_map, Multiset.card_range] at total
    rw [List.length_range] at back
    have drained : state.queue = [] := List.eq_nil_of_length_eq_zero (by omega)
    refine ⟨fun _ => drained, fun _ => owned.shared_eq_iff.mp ?_⟩
    rw [shared, drained, List.map_nil, List.append_nil, ← Multiset.coe_range]
    exact Multiset.coe_eq_coe.mpr delivered.returned
  · rintro ⟨drained, idle⟩
    have drained := drained ended
    have idle := idle returned
    rw [drained, List.append_nil] at history
    rw [drained, List.map_nil, List.append_nil] at shared
    have inOrder := inv.ordered
    rw [history] at inOrder
    have written : ∀ msg ∈ state.before, msg ∈ state.messages := by
      intro msg member
      have enqueued := inv.accepted msg (inv.before msg member)
      rwa [history] at enqueued
    refine ⟨?_, ?_, inOrder, ?_⟩
    · intro msg member
      exact List.count_eq_one_of_mem inOrder.nodup (written msg member)
    · intro msg member
      exact State.exists_line (written msg member)
    · have whole := (owned.shared_eq_iff).mpr idle
      rw [shared, ← Multiset.coe_range] at whole
      exact Multiset.coe_eq_coe.mp whole

/-- When the destructor has returned, every message whose `log` returned before it began
is written once, in the order of the calls of its thread, and every buffer is in the
pool, exactly if the loop ended with an empty queue, nothing was enqueued after that, and
no call of `log` had a buffer in hand when the destructor returned. -/
theorem delivered_iff (config : Config) (fits : config.poolMsgCount ≤ config.queueCapacity)
    {past : List (State Thread × Event Thread)} {final : State Thread}
    (run : (system config).Run past final) (returned : final.destructor = .returned) :
    Delivered config final ↔ ∀ entry ∈ past, Keeps entry.1 entry.2 := by
  have initial : ∀ state : State Thread, (system config).Initial state →
      Inv config state ∧ Kept state := by
    rintro state rfl
    exact ⟨inv_initial config, nofun, nofun⟩
  have preserved : ∀ (current : State Thread) event next, Inv config current →
      (system config).Step current event next → Inv config next := by
    intro current event next inv stepped
    exact inv.step fits (stepped_of_step stepped)
  have inv := TransitionSystem.Reachable.invariant (Inv config)
    (fun state start => (initial state start).1) preserved ⟨past, run⟩
  rw [inv.delivered_iff_kept returned]
  refine run.final_iff (Inv config) Kept Keeps initial preserved ?_
  intro current event next inv stepped
  exact inv.kept_iff fits (stepped_of_step stepped)

end Threads

def twoBuffers : Config where
  poolMsgCount := 2
  queueCapacity := 2
  logBufferSize := 512

/-- One call of `log` for each thread, and a destructor that comes after the logger thread
has written both messages. -/
def quietShutdown : List (Event (Fin 2)) :=
  [Event.call 0 (.allocate 1), .call 0 (.format [72]), .call 1 (.allocate 0),
    .call 1 (.format [73]), .call 1 .enqueue, .call 0 .enqueue, .call 0 .finish,
    .call 1 .finish, .test, .dequeue, .write 5, .deallocate, .test, .dequeue, .write 6,
    .deallocate, .destroy, .test, .join]

theorem delivered_iff_quiet :
    ∃ past, ∃ final : State (Fin 2), (system twoBuffers).Run past final ∧
      final.messages.length = 2 ∧
      (Delivered twoBuffers final ↔ ∀ entry ∈ past, Keeps entry.1 entry.2) := by
  rcases TransitionSystem.exists_run_of_events (.initial twoBuffers) (step twoBuffers)
    quietShutdown (fun final => final.destructor = .returned ∧ final.messages.length = 2)
    (by decide) with ⟨past, final, run, _, returned, written⟩
  exact ⟨past, final, run, written, delivered_iff twoBuffers (by decide) run returned⟩

/-- The destructor begins when the last message is still in the queue. -/
def hastyShutdown : List (Event Unit) :=
  [Event.call () (.allocate 1), .call () (.format [72]), .call () .enqueue,
    .call () .finish, .destroy, .test, .join]

/-- The message is not written, though its `log` returned before the destructor began. -/
theorem last_message_is_lost :
    ∃ final : State Unit, (system twoBuffers).Reachable final ∧
      final.destructor = .returned ∧ final.before.length = 1 ∧ final.messages = [] ∧
      ¬ Delivered twoBuffers final := by
  rcases TransitionSystem.exists_reachable_of_execute (.initial twoBuffers)
    (step twoBuffers) hastyShutdown
    (fun final => final.destructor = .returned ∧ final.before.length = 1 ∧
      final.messages = []) (by decide) with ⟨final, reachable, returned, before, nothing⟩
  refine ⟨final, reachable, returned, before, nothing, fun delivered => ?_⟩
  rcases List.length_eq_one_iff.mp before with ⟨msg, only⟩
  have once := delivered.once msg (only ▸ List.mem_singleton_self msg)
  rw [nothing] at once
  cases once

end FeederNet.AsyncLogger
