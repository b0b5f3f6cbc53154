import FeederNet.Queue.CustomMPMCLockFreeQueue.Linearization

/-! # CustomMPMCLockFreeQueue with one consumer

Where only one thread dequeues, the tickets are returned in their order, and an `enqueue` is
refused only while as many pointers as the ring has cells have not been returned.
-/

namespace FeederNet.Queue.CustomMPMCLockFreeQueue

variable {Thread : Type v} {α : Type u} {capacity : PowerOfTwo}
  {state next : State Thread α} {ledger : Ledger Thread} {consumer thread : Thread}

def Phase.enqueues : Phase α → Bool
  | .enqStarted _ | .enqLoaded _ _ | .enqMatched _ _ | .enqClaimed _ _ | .enqWritten _ _ => true
  | _ => false

def Phase.dequeues : Phase α → Bool
  | .deqStarted | .deqLoaded _ | .deqMatched _ | .deqClaimed _ | .deqRead _ _ => true
  | _ => false

/-- The pointers accepted and not yet returned, in the order of their tickets. -/
def State.pending (state : State Thread α) : List α :=
  (state.tailClaims.drop state.returned.length).map TailClaim.ptr

def accepts (state : State Thread α) : Thread × Action α → List α
  | (thread, .exchange) =>
      match state.phase thread with
      | .enqMatched ptr _ => [ptr]
      | _ => []
  | _ => []

def delivers (state : State Thread α) : Thread × Action α → List α
  | (thread, .storeSeq) =>
      match state.phase thread with
      | .deqRead _ value => value.toList
      | _ => []
  | _ => []

/-- One thread calls `dequeue` and nothing else, and no other thread does. -/
def Separate (consumer : Thread) : Thread × Action α → Prop
  | (thread, .enqueue _) => thread ≠ consumer
  | (thread, .dequeue) => thread = consumer
  | _ => True

/-- The tickets of the consumer are won and returned in turn. -/
structure OneConsumer (consumer : Thread) (state : State Thread α) : Prop where
  others : ∀ thread, (state.phase thread).dequeues = true → thread = consumer
  consumes : (state.phase consumer).enqueues = false
  tickets : state.returned.map Returned.ticket =
    (List.range state.returned.length).map (BitVec.ofNat 64)
  claims : state.headClaims.length =
    state.returned.length + (state.phase consumer).owns.isSome.toNat
  owns : ∀ pos, (state.phase consumer).owns = some pos →
    pos = BitVec.ofNat 64 state.returned.length

theorem oneConsumer_initial (consumer : Thread) :
    OneConsumer consumer (initial : State Thread α) where
  others _ dequeues := absurd dequeues Bool.false_ne_true
  consumes := rfl
  tickets := rfl
  claims := rfl
  owns _ owns := nomatch owns

theorem OneConsumer.returned_le (one : OneConsumer consumer state)
    (inv : Inv capacity state ledger) :
    state.returned.length + (state.phase consumer).owns.isSome.toNat ≤
      state.tailClaims.length :=
  one.claims ▸ inv.ordered

/-- An `enqueue` is refused only while the ring is full. -/
theorem OneConsumer.le_pending (one : OneConsumer consumer state)
    (inv : Inv capacity state ledger)
    (small : state.tailClaims.length + capacity.toNat < 2 ^ 63) {ptr : α} {pos : Word64}
    (phase : state.phase thread = .enqLoaded ptr pos)
    (refused : enqueueBranch ptr pos (state.cells (slot capacity pos)).seq = .idle) :
    capacity.toNat ≤ state.pending.length := by
  have valid := inv.phase thread
  rw [phase] at valid
  rcases valid with ⟨ticket, past, rfl⟩
  rcases (inv.refusesOnly small).enqueue thread ptr _ phase refused with
    ⟨claim, member, lap, unreturned⟩
  rcases List.getElem?_of_mem member with ⟨index, found⟩
  have bound := (List.getElem?_eq_some_iff.mp found).1
  have number := inv.tailTickets index claim found
  rw [number, Word64.ofNat_toNat _ (by omega), Word64.ofNat_toNat _ (by omega)] at lap
  have after : state.returned.length ≤ index := by
    by_contra before
    apply unreturned
    rw [number, one.tickets]
    exact List.mem_map_of_mem (List.mem_range.mpr (by omega))
  rw [State.pending, List.length_map, List.length_drop]
  omega

theorem delivers_eq_nil {action : Action α} (quiet : (state.phase thread).dequeues = false) :
    delivers state (thread, action) = [] := by
  cases action with
  | storeSeq =>
      simp only [delivers]
      split
      · rename_i phase
        rw [phase] at quiet
        cases quiet
      · rfl
  | enqueue | dequeue | loadPos | loadSeq | exchange | exchangeFailed | accessData => rfl

theorem accepts_eq_nil {action : Action α} (quiet : (state.phase thread).enqueues = false) :
    accepts state (thread, action) = [] := by
  cases action with
  | exchange =>
      simp only [accepts]
      split
      · rename_i phase
        rw [phase] at quiet
        cases quiet
      · rfl
  | enqueue | dequeue | loadPos | loadSeq | exchangeFailed | accessData | storeSeq => rfl

section Steps

variable [DecidableEq Thread]

theorem OneConsumer.move (one : OneConsumer consumer state) (phase : Phase α)
    (moved : next.phase = Function.update state.phase thread phase)
    (heads : next.headClaims = state.headClaims) (returned : next.returned = state.returned)
    (others : phase.dequeues = true → thread = consumer)
    (consumes : thread = consumer →
      phase.enqueues = false ∧ phase.owns = (state.phase thread).owns) :
    OneConsumer consumer next := by
  have same : (next.phase consumer).owns = (state.phase consumer).owns := by
    rw [moved]
    by_cases here : thread = consumer
    · subst here
      rw [Function.update_self]
      exact (consumes rfl).2
    · rw [Function.update_of_ne (Ne.symm here)]
  refine ⟨?_, ?_, ?_, ?_, ?_⟩
  · intro other dequeues
    rw [moved] at dequeues
    by_cases here : other = thread
    · subst here
      rw [Function.update_self] at dequeues
      exact others dequeues
    · rw [Function.update_of_ne here] at dequeues
      exact one.others other dequeues
  · rw [moved]
    by_cases here : thread = consumer
    · subst here
      rw [Function.update_self]
      exact (consumes rfl).1
    · rw [Function.update_of_ne (Ne.symm here)]
      exact one.consumes
  · rw [returned]
    exact one.tickets
  · rw [heads, returned, same]
    exact one.claims
  · rw [returned, same]
    exact one.owns

theorem OneConsumer.produce (one : OneConsumer consumer state) (phase : Phase α)
    (moved : next.phase = Function.update state.phase thread phase)
    (heads : next.headClaims = state.headClaims) (returned : next.returned = state.returned)
    (enqueues : (state.phase thread).enqueues = true) (after : phase.dequeues = false) :
    OneConsumer consumer next := by
  apply one.move phase moved heads returned
  · intro dequeues
    rw [after] at dequeues
    cases dequeues
  · rintro rfl
    rw [one.consumes] at enqueues
    cases enqueues

theorem OneConsumer.consume (one : OneConsumer consumer state) (phase : Phase α)
    (moved : next.phase = Function.update state.phase thread phase)
    (heads : next.headClaims = state.headClaims) (returned : next.returned = state.returned)
    (dequeues : (state.phase thread).dequeues = true)
    (after : phase.enqueues = false) (owns : phase.owns = (state.phase thread).owns) :
    OneConsumer consumer next :=
  one.move phase moved heads returned (fun _ => one.others thread dequeues) fun _ =>
    ⟨after, owns⟩

theorem OneConsumer.claimHead (one : OneConsumer consumer state)
    (inv : Inv capacity state ledger) {pos : Word64}
    (phase : state.phase consumer = .deqMatched pos) (current : state.head = pos) :
    OneConsumer consumer (state.claimHead consumer pos) := by
  have claims := one.claims
  rw [phase] at claims
  have here : (state.claimHead consumer pos).phase consumer = .deqClaimed pos :=
    Function.update_self _ _ _
  refine ⟨?_, ?_, one.tickets, ?_, ?_⟩
  · intro other dequeues
    by_cases same : other = consumer
    · exact same
    · apply one.others other
      rw [← dequeues]
      exact congrArg Phase.dequeues (Function.update_of_ne same _ _).symm
  · rw [here]
    rfl
  · rw [here]
    change (state.headClaims ++ [_]).length = state.returned.length + 1
    rw [List.length_append, claims]
    rfl
  · intro owned owns
    rw [here] at owns
    cases owns
    rw [← current, inv.head, claims]
    rfl

theorem OneConsumer.release (one : OneConsumer consumer state) {pos : Word64}
    {value : Option α} (phase : state.phase consumer = .deqRead pos value) :
    OneConsumer consumer (state.release capacity consumer pos value) := by
  have claims := one.claims
  have position := one.owns pos (by rw [phase]; rfl)
  rw [phase] at claims
  have here : (state.release capacity consumer pos value).phase consumer = .idle :=
    Function.update_self _ _ _
  have longer : (state.release capacity consumer pos value).returned.length =
      state.returned.length + 1 := List.length_append
  refine ⟨?_, ?_, ?_, ?_, ?_⟩
  · intro other dequeues
    by_cases same : other = consumer
    · exact same
    · apply one.others other
      rw [← dequeues]
      exact congrArg Phase.dequeues (Function.update_of_ne same _ _).symm
  · rw [here]
    rfl
  · rw [longer, List.range_succ, List.map_append, ← one.tickets]
    change (state.returned ++ [_]).map Returned.ticket = _
    rw [List.map_append, position]
    rfl
  · rw [here, longer]
    exact claims
  · intro owned owns
    rw [here] at owns
    cases owns

theorem OneConsumer.step {event : Thread × Action α} (one : OneConsumer consumer state)
    (inv : Inv capacity state ledger) (separate : Separate consumer event)
    (step : Step capacity state event next) : OneConsumer consumer next := by
  cases step with
  | enqueue thread ptr phase =>
      refine one.move _ rfl rfl rfl ?_ fun same => absurd same separate
      rintro ⟨⟩
  | dequeue thread phase =>
      exact one.move _ rfl rfl rfl (fun _ => separate) fun _ => ⟨rfl, by rw [phase]; rfl⟩
  | loadTail thread phase | enqRetry thread phase =>
      exact one.produce _ rfl rfl rfl (by rw [phase]; rfl) rfl
  | loadHead thread phase | deqRetry thread phase | readData thread phase =>
      exact one.consume _ rfl rfl rfl (by rw [phase]; rfl) rfl (by rw [phase]; rfl)
  | @enqLoadSeq thread ptr pos phase =>
      refine one.produce _ rfl rfl rfl (by rw [phase]; rfl) ?_
      rcases enqueueBranch_cases ptr pos (state.cells (slot capacity pos)).seq with
        ⟨branch, _⟩ | branch | branch
      all_goals
        rw [branch]
        rfl
  | @deqLoadSeq thread pos phase =>
      refine one.consume _ rfl rfl rfl (by rw [phase]; rfl) ?_ ?_
      all_goals
        rcases dequeueBranch_cases α pos (state.cells (slot capacity pos)).seq with
          ⟨branch, _⟩ | branch | branch
      all_goals rw [branch]
      all_goals first | rfl | rw [phase]; rfl
  | claimTail thread phase current | writeData thread phase | publish thread phase =>
      exact one.produce _ rfl rfl rfl (by rw [phase]; rfl) rfl
  | claimHead thread phase current =>
      have here := one.others thread (by rw [phase]; rfl)
      subst here
      exact one.claimHead inv phase current
  | release thread phase =>
      have here := one.others thread (by rw [phase]; rfl)
      subst here
      exact one.release phase

/-- What is pending with what the step accepts is what it delivers with what is pending
afterwards. -/
theorem OneConsumer.pending_step {event : Thread × Action α}
    (small : state.tailClaims.length < 2 ^ 63) (one : OneConsumer consumer state)
    (inv : Inv capacity state ledger) (step : Step capacity state event next) :
    state.pending ++ accepts state event = delivers state event ++ next.pending := by
  have le := one.returned_le inv
  cases step with
  | enqueue | dequeue | loadTail | loadHead | enqLoadSeq | deqLoadSeq =>
      exact List.append_nil _
  | enqRetry | deqRetry | writeData | readData => exact List.append_nil _
  | @claimTail thread ptr pos phase current =>
      have within : state.returned.length ≤ state.tailClaims.length := by omega
      simp [accepts, delivers, phase, State.pending, State.claimTail, State.goto,
        List.drop_append_of_le_length within]
  | claimHead thread phase current =>
      simp [accepts, delivers, phase, State.pending, State.claimHead, State.goto]
  | publish thread phase =>
      simp [accepts, delivers, phase, State.pending, State.publish, State.goto]
  | @release thread pos value phase =>
      have here := one.others thread (by rw [phase]; rfl)
      subst here
      have position := one.owns pos (by rw [phase]; rfl)
      have valid := inv.phase thread
      rw [phase] at valid le
      rcases valid with ⟨ticket, number, _, claim, taken⟩
      have within := (List.getElem?_eq_some_iff.mp claim).1
      have claims := one.claims
      rw [phase] at claims
      have bound : state.returned.length < state.tailClaims.length := le
      have same : ticket = state.returned.length :=
        (Word64.ofNat_inj (by omega) (by omega)).mp (number.symm.trans position)
      subst same
      have longer : (state.release capacity thread pos value).returned.length =
          state.returned.length + 1 := List.length_append
      rw [List.getElem?_eq_getElem bound] at taken
      have returns : delivers state (thread, .storeSeq) =
          [state.tailClaims[state.returned.length].ptr] := by
        simp only [delivers, phase, taken]
        rfl
      rw [State.pending, State.pending, longer, List.drop_eq_getElem_cons bound, returns]
      exact List.append_nil _

/-! ## The steps of one call -/

def IsEnqueue (ptr : α) : Action α → Prop
  | .enqueue other => other = ptr
  | .dequeue => False
  | _ => True

def IsDequeue : Action α → Prop
  | .enqueue _ => False
  | _ => True

instance [DecidableEq α] (ptr : α) : DecidablePred (IsEnqueue ptr)
  | .enqueue other => inferInstanceAs (Decidable (other = ptr))
  | .dequeue => inferInstanceAs (Decidable False)
  | .loadPos | .loadSeq | .exchange | .exchangeFailed | .accessData | .storeSeq =>
      inferInstanceAs (Decidable True)

instance : DecidablePred (IsDequeue (α := α))
  | .enqueue _ => inferInstanceAs (Decidable False)
  | .dequeue | .loadPos | .loadSeq | .exchange | .exchangeFailed | .accessData | .storeSeq =>
      inferInstanceAs (Decidable True)

def Phase.Seeks (ptr : α) : Phase α → Prop
  | .enqStarted other | .enqLoaded other _ | .enqMatched other _ => other = ptr
  | _ => False

def Phase.Writes : Phase α → Prop
  | .enqClaimed _ _ | .enqWritten _ _ => True
  | _ => False

def Phase.value : Phase α → Option α
  | .deqRead _ value => value
  | _ => none

theorem Phase.Seeks.seeking {ptr : α} {phase : Phase α} (seeks : phase.Seeks ptr) :
    phase.seeking = true := by
  cases phase with
  | enqStarted | enqLoaded | enqMatched => rfl
  | idle | enqClaimed | enqWritten | deqStarted | deqLoaded | deqMatched | deqClaimed
  | deqRead => cases seeks

theorem Phase.Writes.seeking {phase : Phase α} (writes : phase.Writes) :
    phase.seeking = false := by
  cases phase with
  | enqClaimed | enqWritten => rfl
  | idle | enqStarted | enqLoaded | enqMatched | deqStarted | deqLoaded | deqMatched
  | deqClaimed | deqRead => cases writes

theorem Phase.Writes.enqueues {phase : Phase α} (writes : phase.Writes) :
    phase.enqueues = true := by
  cases phase with
  | enqClaimed | enqWritten => rfl
  | idle | enqStarted | enqLoaded | enqMatched | deqStarted | deqLoaded | deqMatched
  | deqClaimed | deqRead => cases writes

inductive Enqueues (capacity : PowerOfTwo) (state next : State Thread α) (thread : Thread)
    (ptr : α) (action : Action α) : Prop
  | seeks (after : (next.phase thread).Seeks ptr)
      (accepted : accepts state (thread, action) = [])
  | refused (pos : Word64) (before : state.phase thread = .enqLoaded ptr pos)
      (behind : enqueueBranch ptr pos (state.cells (slot capacity pos)).seq = .idle)
      (after : next.phase thread = .idle)
  | claims (after : (next.phase thread).Writes)
      (accepted : accepts state (thread, action) = [ptr])

theorem Step.enqueues {action : Action α} {ptr : α}
    (step : Step capacity state (thread, action) next) (permitted : IsEnqueue ptr action)
    (seeks : state.phase thread = .idle ∨ (state.phase thread).Seeks ptr) :
    Enqueues capacity state next thread ptr action := by
  have here : ∀ phase : Phase α, Function.update state.phase thread phase thread = phase :=
    fun _ => Function.update_self _ _ _
  cases step with
  | enqueue _ other phase =>
      cases permitted
      exact .seeks ((congrArg (Phase.Seeks ptr) (here _)).mpr rfl) rfl
  | dequeue _ phase => cases permitted
  | loadHead _ phase | deqRetry _ phase | readData _ phase | claimHead _ phase _
  | deqLoadSeq _ phase | release _ phase | writeData _ phase | publish _ phase =>
      rw [phase] at seeks
      rcases seeks with seeks | seeks <;> cases seeks
  | loadTail _ phase | enqRetry _ phase =>
      rw [phase] at seeks
      rcases seeks with seeks | seeks
      · cases seeks
      · cases seeks
        exact .seeks ((congrArg (Phase.Seeks ptr) (here _)).mpr rfl) rfl
  | @enqLoadSeq _ other pos phase =>
      rw [phase] at seeks
      rcases seeks with seeks | seeks
      · cases seeks
      · cases seeks
        have after := here (enqueueBranch ptr pos (state.cells (slot capacity pos)).seq)
        rcases enqueueBranch_cases ptr pos (state.cells (slot capacity pos)).seq with
          ⟨branch, _⟩ | branch | branch
        · exact .seeks ((congrArg (Phase.Seeks ptr) (after.trans branch)).mpr rfl) rfl
        · exact .refused pos phase branch (after.trans branch)
        · exact .seeks ((congrArg (Phase.Seeks ptr) (after.trans branch)).mpr rfl) rfl
  | @claimTail _ other pos phase current =>
      have accepted : accepts state (thread, .exchange) = [other] := by
        simp only [accepts, phase]
      rw [phase] at seeks
      rcases seeks with seeks | seeks
      · cases seeks
      · cases seeks
        exact .claims ((congrArg Phase.Writes (here _)).mpr trivial) accepted

theorem Step.writes {action : Action α} (step : Step capacity state (thread, action) next)
    (writes : (state.phase thread).Writes) :
    (next.phase thread = .idle ∨ (next.phase thread).Writes) ∧
      accepts state (thread, action) = [] := by
  have here : ∀ phase : Phase α, Function.update state.phase thread phase thread = phase :=
    fun _ => Function.update_self _ _ _
  cases step with
  | writeData _ phase => exact ⟨.inr ((congrArg Phase.Writes (here _)).mpr trivial), rfl⟩
  | publish _ phase => exact ⟨.inl (here _), rfl⟩
  | enqueue _ _ phase | dequeue _ phase | loadTail _ phase | loadHead _ phase
  | enqLoadSeq _ phase | deqLoadSeq _ phase | claimTail _ phase _ | claimHead _ phase _
  | enqRetry _ phase | deqRetry _ phase | readData _ phase | release _ phase =>
      rw [phase] at writes
      cases writes

inductive Dequeues (state next : State Thread α) (thread : Thread) (action : Action α) : Prop
  | runs (after : (next.phase thread).dequeues = true)
      (delivered : delivers state (thread, action) = [])
  | returns (after : (next.phase thread).dequeues = false)
      (delivered : delivers state (thread, action) = (state.phase thread).value.toList)

theorem Step.dequeues {action : Action α}
    (step : Step capacity state (thread, action) next) (permitted : IsDequeue action)
    (consumer : (state.phase thread).enqueues = false) :
    Dequeues state next thread action := by
  have here : ∀ phase : Phase α, Function.update state.phase thread phase thread = phase :=
    fun _ => Function.update_self _ _ _
  cases step with
  | enqueue _ other phase => cases permitted
  | loadTail _ phase | enqRetry _ phase | writeData _ phase | claimTail _ phase _
  | enqLoadSeq _ phase | publish _ phase =>
      rw [phase] at consumer
      cases consumer
  | dequeue _ phase | loadHead _ phase | deqRetry _ phase | readData _ phase =>
      exact .runs (congrArg Phase.dequeues (here _)) rfl
  | @deqLoadSeq _ pos phase =>
      have after := here (dequeueBranch pos (state.cells (slot capacity pos)).seq)
      rcases dequeueBranch_cases α pos (state.cells (slot capacity pos)).seq with
        ⟨branch, _⟩ | branch | branch
      · exact .runs (congrArg Phase.dequeues (after.trans branch)) rfl
      · exact .returns (congrArg Phase.dequeues (after.trans branch)) (by rw [phase]; rfl)
      · exact .runs (congrArg Phase.dequeues (after.trans branch)) rfl
  | claimHead _ phase current =>
      refine .runs (congrArg Phase.dequeues (here _)) ?_
      simp only [delivers]
  | @release _ pos value phase =>
      refine .returns (congrArg Phase.dequeues (here _)) ?_
      simp only [delivers, phase]
      rfl

theorem Step.phase_of_ne {action : Action α}
    (step : Step capacity state (thread, action) next) {other : Thread}
    (different : other ≠ thread) : next.phase other = state.phase other := by
  have goto : ∀ phase : Phase α,
      Function.update state.phase thread phase other = state.phase other :=
    fun _ => Function.update_of_ne different _ _
  cases step with
  | enqueue | dequeue | loadTail | loadHead | enqLoadSeq | deqLoadSeq => exact goto _
  | claimTail | claimHead | enqRetry | deqRetry | writeData | readData => exact goto _
  | publish | release => exact goto _

end Steps

end FeederNet.Queue.CustomMPMCLockFreeQueue
