import FeederNet.Queue.CustomMPMCLockFreeQueue.Tickets

/-! # Delivery of CustomMPMCLockFreeQueue

Every pointer that wins a tail ticket is delivered at most once, by the dequeue
that wins the head ticket of the same number.
-/

namespace FeederNet.Queue.CustomMPMCLockFreeQueue

/-! ## The order of one producer's calls -/

def Phase.seeking : Phase α → Bool
  | .enqStarted _ | .enqLoaded _ _ | .enqMatched _ _ => true
  | _ => false

/-- Claims of one thread are in the order of its calls, and the call in progress
is later than all of them. -/
structure CallOrder (state : State Thread α) : Prop where
  increasing : state.tailClaims.Pairwise fun earlier later =>
    earlier.thread = later.thread → earlier.call < later.call
  made : ∀ claim ∈ state.tailClaims,
    claim.call + (state.phase claim.thread).seeking.toNat ≤ state.calls claim.thread

section CallOrder

variable {Thread : Type v} [DecidableEq Thread] {α : Type u} {capacity : PowerOfTwo}
  {state : State Thread α} {thread : Thread}

theorem CallOrder.goto (order : CallOrder state) (thread : Thread) (phase : Phase α)
    (le : phase.seeking.toNat ≤ (state.phase thread).seeking.toNat) :
    CallOrder (state.goto thread phase) where
  increasing := order.increasing
  made claim member := by
    have before := order.made claim member
    by_cases same : claim.thread = thread
    · simp only [State.goto, same, Function.update_self] at before ⊢
      omega
    · simpa [State.goto, same] using before

theorem CallOrder.enqueue (order : CallOrder state) (ptr : α) :
    CallOrder (state.enqueue thread ptr) where
  increasing := order.increasing
  made claim member := by
    have before := order.made claim member
    by_cases same : claim.thread = thread
    · simp only [State.enqueue, same, Function.update_self, Phase.seeking,
        Bool.toNat_true] at before ⊢
      omega
    · simpa [State.enqueue, same] using before

theorem CallOrder.claimTail (order : CallOrder state) {ptr : α} {pos : Word64}
    (seeking : (state.phase thread).seeking = true) :
    CallOrder (state.claimTail thread ptr pos) where
  increasing := by
    refine List.pairwise_append.mpr ⟨order.increasing, List.pairwise_singleton _ _, ?_⟩
    intro earlier member later last same
    obtain rfl := List.mem_singleton.mp last
    have before := order.made earlier member
    rw [same, seeking] at before
    exact before
  made claim member := by
    rcases List.mem_append.mp member with old | new
    · have before := order.made claim old
      by_cases same : claim.thread = thread
      · simp only [State.claimTail, State.goto, same, Function.update_self,
          Phase.seeking, Bool.toNat_false] at before ⊢
        omega
      · simpa [State.claimTail, State.goto, same] using before
    · obtain rfl := List.mem_singleton.mp new
      simp [State.claimTail, State.goto, Phase.seeking]

theorem Step.callOrder {event : Thread × Action α} {next : State Thread α}
    (order : CallOrder state) (step : Step capacity state event next) :
    CallOrder next := by
  cases step with
  | enqueue thread ptr phase => exact order.enqueue ptr
  | dequeue thread phase => exact order.goto thread _ (Nat.zero_le _)
  | loadTail thread phase => exact order.goto thread _ (by rw [phase]; exact le_rfl)
  | loadHead thread phase => exact order.goto thread _ (Nat.zero_le _)
  | @enqLoadSeq thread ptr pos phase =>
      exact order.goto thread _ (by rw [phase]; exact Bool.toNat_le _)
  | @deqLoadSeq thread pos phase =>
      refine order.goto thread _ ?_
      rcases dequeueBranch_cases α pos (state.cells (slot capacity pos)).seq with
        ⟨branch, _⟩ | branch | branch
      all_goals
        rw [branch]
        exact Nat.zero_le _
  | claimTail thread phase _ => exact order.claimTail (by rw [phase]; rfl)
  | @claimHead thread pos phase _ =>
      have moved := order.goto thread (.deqClaimed pos) (Nat.zero_le _)
      exact ⟨moved.increasing, moved.made⟩
  | enqRetry thread phase => exact order.goto thread _ (by rw [phase]; exact le_rfl)
  | deqRetry thread phase => exact order.goto thread _ (Nat.zero_le _)
  | @writeData thread ptr pos phase =>
      have moved := order.goto thread (.enqWritten ptr pos) (Nat.zero_le _)
      exact ⟨moved.increasing, moved.made⟩
  | readData thread phase => exact order.goto thread _ (Nat.zero_le _)
  | publish thread phase =>
      have moved := order.goto thread .idle (Nat.zero_le _)
      exact ⟨moved.increasing, moved.made⟩
  | release thread phase =>
      have moved := order.goto thread .idle (Nat.zero_le _)
      exact ⟨moved.increasing, moved.made⟩

end CallOrder

/-! ## What every run keeps -/

/-- The queue neither loses nor duplicates a pointer.
* Successful compare-exchanges win the tickets `0, 1, 2, …` in turn.
* A dequeue returns the pointer of the enqueue that won the same ticket, and no
  ticket is returned twice.
* Until it is returned, an accepted pointer is intact in its cell, except while
  its producer has yet to write it there.
* A cell has at most one thread between its claim and its publication.
* The pointers of one thread win tickets in the order of its calls. -/
structure Exact {Thread : Type v} {α : Type u} (capacity : PowerOfTwo)
    (state : State Thread α) : Prop where
  tailTickets : ∀ (ticket : Nat) (claim : TailClaim Thread α),
    state.tailClaims[ticket]? = some claim → claim.ticket.toNat = ticket
  headTickets : ∀ (ticket : Nat) (claim : HeadClaim Thread),
    state.headClaims[ticket]? = some claim → claim.ticket.toNat = ticket
  delivered : ∀ entry ∈ state.returned,
    ⟨entry.ticket, entry.thread⟩ ∈ state.headClaims ∧
      ∃ claim ∈ state.tailClaims, claim.ticket = entry.ticket ∧
        entry.value = some claim.ptr
  once : (state.returned.map Returned.ticket).Nodup
  kept : ∀ claim ∈ state.tailClaims,
    claim.ticket ∈ state.returned.map Returned.ticket ∨
      state.phase claim.thread = .enqClaimed claim.ptr claim.ticket ∨
      (state.cells (slot capacity claim.ticket)).data = some claim.ptr
  exclusive : ∀ left right leftTicket rightTicket,
    (state.phase left).owns = some leftTicket →
    (state.phase right).owns = some rightTicket →
    slot capacity leftTicket = slot capacity rightTicket → left = right
  inCallOrder : state.tailClaims.Pairwise fun earlier later =>
    earlier.thread = later.thread → earlier.call < later.call

section Exactness

variable {Thread : Type v} {α : Type u} {capacity : PowerOfTwo}
  {state : State Thread α} {ledger : Ledger Thread}

theorem Inv.owned (inv : Inv capacity state ledger) {thread : Thread} {pos : Word64}
    (owns : (state.phase thread).owns = some pos) :
    ∃ ticket, pos = BitVec.ofNat 64 ticket ∧
      ((ledger.Serves capacity.toNat ticket (.writing thread) ∧
          ∃ call ptr, state.tailClaims[ticket]? = some ⟨pos, thread, call, ptr⟩ ∧
            (state.phase thread = .enqClaimed ptr pos ∨
              (state.cells (ticket % capacity.toNat)).data = some ptr)) ∨
        ledger.Serves capacity.toNat ticket (.reading thread)) := by
  have valid := inv.phase thread
  cases stands : state.phase thread with
  | enqClaimed ptr owned =>
      rw [stands] at valid owns
      obtain rfl := Option.some.inj owns
      rcases valid with ⟨ticket, call, equal, serves, claim⟩
      exact ⟨ticket, equal, .inl ⟨serves, call, ptr, claim, .inl rfl⟩⟩
  | enqWritten ptr owned =>
      rw [stands] at valid owns
      obtain rfl := Option.some.inj owns
      rcases valid with ⟨ticket, call, equal, serves, claim, data⟩
      exact ⟨ticket, equal, .inl ⟨serves, call, ptr, claim, .inr data⟩⟩
  | deqClaimed owned =>
      rw [stands] at valid owns
      obtain rfl := Option.some.inj owns
      rcases valid with ⟨ticket, equal, serves, _⟩
      exact ⟨ticket, equal, .inr serves⟩
  | deqRead owned value =>
      rw [stands] at valid owns
      obtain rfl := Option.some.inj owns
      rcases valid with ⟨ticket, equal, serves, _⟩
      exact ⟨ticket, equal, .inr serves⟩
  | _ =>
      rw [stands] at owns
      cases owns

theorem Inv.exclusive (inv : Inv capacity state ledger) {left right : Thread}
    {leftTicket rightTicket : Word64}
    (leftOwns : (state.phase left).owns = some leftTicket)
    (rightOwns : (state.phase right).owns = some rightTicket)
    (same : slot capacity leftTicket = slot capacity rightTicket) : left = right := by
  rcases inv.owned leftOwns with ⟨leftNumber, rfl, leftServes⟩
  rcases inv.owned rightOwns with ⟨rightNumber, rfl, rightServes⟩
  rw [slot_ofNat, slot_ofNat] at same
  unfold Ledger.Serves at leftServes rightServes
  rw [same] at leftServes
  rcases leftServes with ⟨leftServes, _⟩ | leftServes <;>
    rcases rightServes with ⟨rightServes, _⟩ | rightServes
  all_goals
    have turns := leftServes.2.symm.trans rightServes.2
    cases turns
    try rfl

/-- Until it is returned, a pointer is about to be written or in its cell. -/
theorem Inv.kept (inv : Inv capacity state ledger)
    (small : state.tailClaims.length < 2 ^ 63) {claim : TailClaim Thread α}
    (member : claim ∈ state.tailClaims) :
    claim.ticket ∈ state.returned.map Returned.ticket ∨
      state.phase claim.thread = .enqClaimed claim.ptr claim.ticket ∨
      (state.cells (slot capacity claim.ticket)).data = some claim.ptr := by
  rcases List.getElem?_of_mem member with ⟨ticket, found⟩
  have bound := (List.getElem?_eq_some_iff.mp found).1
  have number := inv.tailTickets ticket claim found
  rcases (inv.begun ticket bound).lt_or_eq with passed | current
  · rw [number]
    exact .inl (inv.settled ticket passed).2
  · have valid := inv.turn _ (index_lt capacity ticket)
    rw [← current] at valid
    rw [number, slot_ofNat]
    cases stands : ledger.turn (ticket % capacity.toNat) with
    | free =>
        rw [stands] at valid
        have above := valid.1
        omega
    | writing thread =>
        rw [stands] at valid
        have owns := valid.2.2.2
        rcases inv.owned owns with ⟨other, equal, ⟨_, call, ptr, same, place⟩ | serves⟩
        · have otherBound := (List.getElem?_eq_some_iff.mp same).1
          obtain rfl := (Word64.ofNat_inj (by omega) (by omega)).mp equal
          rw [found] at same
          cases same
          exact .inr place
        · have places := congrArg (slot capacity) equal
          rw [slot_ofNat, slot_ofNat] at places
          rw [Ledger.Serves, ← places, stands] at serves
          cases serves.2
    | full =>
        rw [stands] at valid
        exact .inr (.inr (by rw [valid.2.2.2, found]; rfl))
    | reading thread =>
        rw [stands] at valid
        exact .inr (.inr (by rw [valid.2.2.2.1, found]; rfl))

theorem Inv.exact (inv : Inv capacity state ledger)
    (small : state.tailClaims.length < 2 ^ 63) (order : CallOrder state) :
    Exact capacity state where
  tailTickets ticket claim found := by
    have bound := (List.getElem?_eq_some_iff.mp found).1
    rw [inv.tailTickets ticket claim found, Word64.ofNat_toNat _ (by omega)]
  headTickets ticket claim found := by
    have bound := (List.getElem?_eq_some_iff.mp found).1
    have ordered := inv.ordered
    rw [inv.headTickets ticket claim found, Word64.ofNat_toNat _ (by omega)]
  delivered entry member := by
    rcases inv.entries entry member with ⟨ticket, equal, _, bound, claim, value⟩
    refine ⟨List.mem_of_getElem? claim, state.tailClaims[ticket],
      List.getElem_mem bound, ?_, ?_⟩
    · rw [inv.tailTickets ticket _ (List.getElem?_eq_getElem bound), equal]
    · rw [value, List.getElem?_eq_getElem bound]
      rfl
  once := inv.once
  kept claim member := inv.kept small member
  exclusive _ _ _ _ leftOwns rightOwns same := inv.exclusive leftOwns rightOwns same
  inCallOrder := order.increasing

theorem Step.tailClaims_extend [DecidableEq Thread] {event : Thread × Action α}
    {next : State Thread α} (step : Step capacity state event next) :
    state.tailClaims <+: next.tailClaims := by
  cases step with
  | claimTail thread phase current => exact List.prefix_append _ _
  | _ => exact List.prefix_refl _

/-- Every interleaving of any number of producers and consumers delivers
exactly, while fewer than `2 ^ 63` pointers have been accepted. -/
theorem exact_of_reachable [DecidableEq Thread] (two : 2 ≤ capacity.toNat)
    (reachable : (system Thread α capacity).Reachable state)
    (small : state.tailClaims.length < 2 ^ 63) : Exact capacity state := by
  have invariant : CallOrder state ∧
      (state.tailClaims.length < 2 ^ 63 → ∃ ledger, Inv capacity state ledger) := by
    refine reachable.invariant (fun state => CallOrder state ∧
      (state.tailClaims.length < 2 ^ 63 → ∃ ledger, Inv capacity state ledger)) ?_ ?_
    · intro state start
      cases start
      exact ⟨⟨.nil, by simp [initial]⟩, fun _ => ⟨_, inv_initial capacity⟩⟩
    · rintro current event next ⟨order, holds⟩ stepped
      have step := Step.of_step stepped
      refine ⟨step.callOrder order, fun nextSmall => ?_⟩
      have currentSmall : current.tailClaims.length < 2 ^ 63 :=
        step.tailClaims_extend.length_le.trans_lt nextSmall
      rcases holds currentSmall with ⟨ledger, inv⟩
      exact step.inv two currentSmall inv
  rcases invariant.2 small with ⟨ledger, inv⟩
  exact inv.exact small invariant.1

end Exactness

/-- Two threads enqueue with the slower one overtaken, and take both pointers out
of a ring of two cells. -/
def overtakenEnqueue : List (Bool × Action Nat) :=
  [(true, .enqueue 10), (true, .loadPos), (true, .loadSeq),
    (false, .enqueue 20), (false, .loadPos), (false, .loadSeq), (false, .exchange),
    (true, .exchangeFailed), (true, .loadSeq), (true, .exchange), (true, .accessData),
    (true, .storeSeq), (false, .accessData), (false, .storeSeq),
    (true, .dequeue), (true, .loadPos), (true, .loadSeq), (true, .exchange),
    (false, .dequeue), (false, .loadPos), (false, .loadSeq), (false, .exchange),
    (false, .accessData), (false, .storeSeq), (true, .accessData), (true, .storeSeq)]

theorem exact_of_reachable_overtaken :
    ∃ state : State Bool Nat,
      (state.tailClaims.map TailClaim.ptr = [20, 10] ∧
        state.returned.map Returned.value = [some 10, some 20]) ∧
      Exact ⟨2, by decide, by decide⟩ state := by
  rcases TransitionSystem.exists_reachable_of_execute initial
    (step ⟨2, by decide, by decide⟩) overtakenEnqueue
    (fun state => (state.tailClaims.map TailClaim.ptr = [20, 10] ∧
      state.returned.map Returned.value = [some 10, some 20])) (by decide)
    with ⟨state, reachable, values⟩
  refine ⟨state, values, exact_of_reachable (by decide) reachable ?_⟩
  have two : state.tailClaims.length = 2 := by
    simpa using congrArg List.length values.1
  omega

end FeederNet.Queue.CustomMPMCLockFreeQueue
