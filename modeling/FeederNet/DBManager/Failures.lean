import FeederNet.DBManager.Flushing

/-! # Failed transactions

What becomes of the dequeued messages, with and without failures. A loop returns the
buffers of its batch and clears it whatever its commit function met with, so that a
failed transaction loses the whole batch.
-/

namespace FeederNet.DBManager

variable {Double : Type u}

def State.kept (state : State Double) : List (Message Double) :=
  match state.phase with
  | .returning _ _ | .stopped => []
  | _ => state.held

def State.owed (state : State Double) : List (Message Double) :=
  match state.phase with
  | .returning index _ => state.held.drop index
  | _ => []

/-- Every dequeued trade is in one committed transaction, or still held for a later one,
and buffers are returned in the order of their commits. -/
structure Kept (state : State Double) : Prop where
  conserved : state.dequeued.Perm (state.transactions.flatten ++ state.kept)
  returned : state.returned <+: state.transactions.flatten

section Accounts

variable {destroyMessages last : Bool} {limit : Nat} {loop : Loop Double}
  {state next : State Double} {event : Event Double}

@[simp] theorem kept_clear : (state.clear last).kept = [] := by
  cases last <;> rfl

@[simp] theorem owed_clear : (state.clear last).owed = [] := by
  cases last <;> rfl

@[simp] theorem kept_flushed : (state.flushed destroyMessages last).kept = [] := by
  cases destroyMessages with
  | true => rfl
  | false => exact kept_clear

theorem kept_of_inTransaction (inside : state.phase.inTransaction = some last) :
    state.kept = state.held := by
  unfold State.kept
  cases phase : state.phase with
  | returning _ _ | stopped =>
      rw [phase] at inside
      cases inside
  | _ => rfl

theorem owed_of_inTransaction (inside : state.phase.inTransaction = some last) :
    state.owed = [] := by
  unfold State.owed
  cases phase : state.phase with
  | returning _ _ =>
      rw [phase] at inside
      cases inside
  | _ => rfl

theorem kept_of_returning {index : Nat} (phase : state.phase = .returning index last) :
    state.kept = [] ∧ state.owed = state.held.drop index := by
  rw [State.kept, State.owed, phase]
  exact ⟨rfl, rfl⟩

/-- Without failures all dequeued messages are accounted for, in order. -/
structure Accounted (destroyMessages : Bool) (state : State Double) : Prop where
  conserved : state.dequeued = state.transactions.flatten ++ state.kept
  returned : destroyMessages = true →
    state.returned ++ state.owed = state.transactions.flatten
  keeps : destroyMessages = false →
    state.returned = [] ∧ ∀ index last, state.phase ≠ .returning index last

theorem accounted_initial : Accounted destroyMessages (State.initial : State Double) :=
  ⟨rfl, fun _ => rfl, fun _ => ⟨rfl, nofun⟩⟩

theorem Accounted.kept (accounted : Accounted destroyMessages state) : Kept state := by
  constructor
  · rw [accounted.conserved]
  · cases destroyMessages with
    | true =>
        rw [← accounted.returned rfl]
        exact List.prefix_append _ _
    | false =>
        rw [(accounted.keeps rfl).1]
        exact List.nil_prefix

theorem Accounted.move (accounted : Accounted destroyMessages state)
    {last nextLast : Bool} (inside : state.phase.inTransaction = some last)
    (stays : next.phase.inTransaction = some nextLast) (held : next.held = state.held)
    (dequeued : next.dequeued = state.dequeued)
    (transactions : next.transactions = state.transactions)
    (returned : next.returned = state.returned) : Accounted destroyMessages next := by
  constructor
  · rw [dequeued, transactions, kept_of_inTransaction stays, held, accounted.conserved,
      kept_of_inTransaction inside]
  · intro destroys
    rw [returned, transactions, ← accounted.returned destroys,
      owed_of_inTransaction inside, owed_of_inTransaction stays]
  · intro keeps
    rw [returned]
    refine ⟨(accounted.keeps keeps).1, ?_⟩
    intro index last phase
    rw [phase] at stays
    cases stays

theorem Accounted.poll (accounted : Accounted destroyMessages state)
    (polling : state.phase = .polling) {found : Poll Double}
    (polled : Polled limit found state next) : Accounted destroyMessages next := by
  have before : state.kept = state.held ∧ state.owed = [] := by
    rw [State.kept, State.owed, polling]
    exact ⟨rfl, rfl⟩
  have after : next.kept = next.held ∧ next.owed = [] ∧
      ∀ index last, next.phase ≠ .returning index last := by
    rcases polled.stands with ⟨phase, _⟩ | ⟨phase, _, empty⟩ | ⟨last, phase, _⟩
    · rw [State.kept, State.owed, phase]
      exact ⟨rfl, rfl, nofun⟩
    · rw [State.kept, State.owed, phase]
      exact ⟨empty.symm, rfl, nofun⟩
    · rw [State.kept, State.owed, phase]
      exact ⟨rfl, rfl, nofun⟩
  constructor
  · rw [polled.dequeued, polled.transactions, after.1, polled.held, accounted.conserved,
      before.1, List.append_assoc]
  · intro destroys
    rw [polled.returned, polled.transactions, after.2.1, ← accounted.returned destroys,
      before.2]
  · intro leaves
    rw [polled.returned]
    exact ⟨(accounted.keeps leaves).1, after.2.2⟩

theorem Accounted.clear (conserved : state.dequeued = state.transactions.flatten)
    (returned : destroyMessages = true → state.returned = state.transactions.flatten)
    (keeps : destroyMessages = false → state.returned = []) (last : Bool) :
    Accounted destroyMessages (state.clear last) := by
  constructor
  · rw [kept_clear, List.append_nil]
    exact conserved
  · intro destroys
    rw [owed_clear, List.append_nil]
    exact returned destroys
  · intro leaves
    refine ⟨keeps leaves, ?_⟩
    cases last <;> exact nofun

theorem Accounted.step (fills : loop.Fills limit) (valid : Valid limit state)
    (accounted : Accounted destroyMessages state)
    (step : Step loop destroyMessages state event next) (succeeds : event ≠ .throw) :
    Accounted destroyMessages next := by
  have standing := valid.standing
  unfold Standing at standing
  cases step with
  | poll found polling =>
      rw [polling] at standing
      exact accounted.poll polling (fills state found polling standing)
  | begin phase =>
      exact accounted.move (by rw [phase]; rfl) rfl rfl rfl rfl rfl
  | write phase read =>
      exact accounted.move (by rw [phase]; rfl) rfl rfl rfl rfl rfl
  | written target phase past last =>
      rcases last with rfl | rfl
      · exact accounted.move (by rw [phase]; rfl) rfl rfl rfl rfl rfl
      · exact accounted.move (by rw [phase]; rfl) rfl rfl rfl rfl rfl
  | complete phase =>
      exact accounted.move (by rw [phase]; rfl) rfl rfl rfl rfl rfl
  | @commit last phase =>
      rw [phase] at standing
      have inside : state.phase.inTransaction = some last := by
        rw [phase]
        rfl
      have conserved : state.dequeued =
          (state.transactions ++ [state.pending]).flatten := by
        rw [accounted.conserved, kept_of_inTransaction inside, standing.2,
          List.flatten_append, List.flatten_singleton]
      cases destroys : destroyMessages with
      | true =>
          constructor
          · exact conserved.trans (List.append_nil _).symm
          · intro _
            have returned := accounted.returned destroys
            rw [owed_of_inTransaction inside, List.append_nil] at returned
            change state.returned ++ state.held =
              (state.transactions ++ [state.pending]).flatten
            rw [returned, List.flatten_append, List.flatten_singleton, standing.2]
          · exact nofun
      | false =>
          apply Accounted.clear
          · exact conserved
          · exact nofun
          · exact fun _ => (accounted.keeps destroys).1
  | @deallocate index last msg phase read =>
      have destroys : destroyMessages = true := by
        cases destroyed : destroyMessages with
        | true => rfl
        | false => exact absurd phase ((accounted.keeps destroyed).2 index last)
      have returned : state.returned ++ state.held.drop index =
          state.transactions.flatten := by
        rw [← accounted.returned destroys, (kept_of_returning phase).2]
      have conserved := accounted.conserved
      rw [(kept_of_returning phase).1] at conserved
      constructor
      · exact conserved
      · intro _
        rcases List.getElem?_eq_some_iff.mp read with ⟨inside, same⟩
        change (state.returned ++ [msg]) ++ state.held.drop (index + 1) = _
        rw [← returned, List.drop_eq_getElem_cons inside, same, List.append_assoc]
        rfl
      · exact fun leaves => absurd (destroys.symm.trans leaves) (by decide)
  | @deallocated index last phase past =>
      apply Accounted.clear
      · rw [accounted.conserved, (kept_of_returning phase).1, List.append_nil]
      · intro destroys
        rw [← accounted.returned destroys, (kept_of_returning phase).2,
          List.drop_of_length_le past, List.append_nil]
      · exact fun leaves => (accounted.keeps leaves).1
  | throw inside => exact absurd rfl succeeds

/-- A failed transaction takes the batch with it. -/
theorem Valid.not_kept_of_throw (valid : Valid limit state)
    (inside : state.phase.inTransaction = some last) (kept : Kept state) :
    ¬ Kept (state.abort destroyMessages last) := by
  intro after
  have waiting := valid.standing.ne_nil inside
  have before := kept.conserved.length_eq
  have lost := after.conserved.length_eq
  have same : (state.abort destroyMessages last).dequeued = state.dequeued ∧
      (state.abort destroyMessages last).transactions = state.transactions := by
    cases destroyMessages <;> exact ⟨rfl, rfl⟩
  rw [same.1, same.2, State.abort, kept_flushed, before, kept_of_inTransaction inside,
    List.length_append, List.length_append, List.length_nil] at lost
  have positive := List.length_pos_iff.mpr waiting
  omega

end Accounts

/-! ## The three loops -/

inductive Mode
  | single
  | batch
  | copy
  deriving DecidableEq, Repr

def Mode.loop (commitBatchSize : Nat) : Mode → Loop Double
  | .single => runSingle
  | .batch => runBatch commitBatchSize
  | .copy => runCopy commitBatchSize

def Mode.limit (commitBatchSize : Nat) : Mode → Nat
  | .single => 1
  | .batch | .copy => max 1 commitBatchSize

theorem Mode.limit_pos (mode : Mode) (commitBatchSize : Nat) :
    0 < mode.limit commitBatchSize := by
  cases mode <;> simp [limit]

theorem Mode.fills (mode : Mode) (commitBatchSize : Nat) :
    (mode.loop commitBatchSize : Loop Double).Fills (mode.limit commitBatchSize) := by
  cases mode with
  | single => exact runSingle_fills
  | batch => exact runBatch_fills commitBatchSize
  | copy => exact runCopy_fills commitBatchSize

section Runs

variable {mode : Mode} {commitBatchSize : Nat} {destroyMessages : Bool}
  {past : List (State Double × Event Double)} {final : State Double}

theorem valid_of_run
    (run : (system (mode.loop commitBatchSize) destroyMessages).Run past final) :
    (∀ entry ∈ past, Valid (mode.limit commitBatchSize) entry.1) ∧
      Valid (mode.limit commitBatchSize) final := by
  apply run.invariant (Valid (mode.limit commitBatchSize))
  · intro state start
    cases start
    exact valid_initial (mode.limit_pos commitBatchSize)
  · intro current event next valid stepped
    exact valid.step (mode.fills commitBatchSize) (mode.limit_pos commitBatchSize)
      (.of_step stepped)

theorem accounted_of_run
    (run : (system (mode.loop commitBatchSize) destroyMessages).Run past final)
    (succeeds : ∀ entry ∈ past, entry.2 ≠ .throw) :
    (∀ entry ∈ past, Accounted destroyMessages entry.1) ∧
      Accounted destroyMessages final := by
  induction run with
  | start initial =>
      cases initial
      exact ⟨List.forall_mem_nil _, accounted_initial⟩
  | @step past current event next run stepped induction =>
      rw [List.forall_mem_cons] at succeeds
      have before := induction succeeds.2
      exact ⟨List.forall_mem_cons.mpr ⟨before.2, before.1⟩,
        before.2.step (mode.fills commitBatchSize) (valid_of_run run).2
          (.of_step stepped) succeeds.1⟩

/-- No trade is lost and none is stored twice, no buffer is returned too early, and a row
that the database rejects leaves the other rows of its batch stored or held. -/
structure LosesNothing (past : List (State Double × Event Double))
    (final : State Double) : Prop where
  before : ∀ entry ∈ past, Kept entry.1
  now : Kept final
  others : ∀ entry ∈ past, entry.2 = .throw → ∀ index last,
    entry.1.phase = .writing index last → ∀ other ≠ index, ∀ msg,
      entry.1.held[other]? = some msg →
        msg ∈ final.transactions.flatten ∨ msg ∈ final.kept

theorem no_throw_of_kept
    (run : (system (mode.loop commitBatchSize) destroyMessages).Run past final)
    (before : ∀ entry ∈ past, Kept entry.1) (now : Kept final) :
    ∀ entry ∈ past, entry.2 ≠ .throw := by
  induction run with
  | start initial => exact List.forall_mem_nil _
  | @step past current event next run stepped induction =>
      rw [List.forall_mem_cons] at before
      refine List.forall_mem_cons.mpr ⟨?_, induction before.2 before.1⟩
      intro throws
      change event = .throw at throws
      subst throws
      cases Step.of_step stepped with
      | throw inside =>
          exact (valid_of_run run).2.not_kept_of_throw inside before.1 now

/-- A run loses nothing exactly when no transaction fails in it. -/
theorem losesNothing_iff_no_throw (mode : Mode) (commitBatchSize : Nat)
    (destroyMessages : Bool)
    (run : (system (mode.loop commitBatchSize) destroyMessages).Run past final) :
    LosesNothing past final ↔ ∀ entry ∈ past, entry.2 ≠ .throw := by
  constructor
  · intro safe
    exact no_throw_of_kept run safe.before safe.now
  · intro succeeds
    have accounted := accounted_of_run run succeeds
    exact ⟨fun entry member => (accounted.1 entry member).kept, accounted.2.kept,
      fun entry member throws => absurd throws (succeeds entry member)⟩

end Runs

/-! ## Two trades in one transaction -/

def trade (sequence : Nat) : Message Word64 where
  buffer := sequence
  contents :=
    { messageType := 80
      sequenceNumber := BitVec.ofNat 64 sequence
      tradeId := 7
      timestamp := 1000
      price := 0
      quantity := 0
      buyerIsMaker := true
      bestMatch := false
      symbol := Vector.replicate 8 0 }
  following := []

def committedBatch : List (Event Word64) :=
  [Event.poll (.dequeue (some (trade 0))), .poll (.dequeue (some (trade 1)))] ++
    List.replicate 9 Event.proceed ++ [Event.poll .stop]

def rejectedRow : List (Event Word64) :=
  [Event.poll (.dequeue (some (trade 0))), .poll (.dequeue (some (trade 1))), .proceed,
    .proceed, .throw] ++ List.replicate 3 Event.proceed

theorem losesNothing_iff_no_throw_committed :
    ∃ past final, (system (Mode.copy.loop 2) true).Run past final ∧
      final.transactions = [[trade 0, trade 1]] ∧
      (LosesNothing past final ↔ ∀ entry ∈ past, entry.2 ≠ .throw) := by
  rcases TransitionSystem.exists_run_of_events .initial (step (Mode.copy.loop 2) true)
    committedBatch (fun state => state.transactions = [[trade 0, trade 1]]) (by decide) with
    ⟨past, final, run, _, committed⟩
  exact ⟨past, final, run, committed, losesNothing_iff_no_throw .copy 2 true run⟩

/-- Neither trade is stored or held, and both buffers are back in the pool. -/
theorem rejected_row_loses_batch :
    ∃ past final, (system (Mode.copy.loop 2) true).Run past final ∧
      final.dequeued = [trade 0, trade 1] ∧ final.transactions = [] ∧
      final.held = [] ∧ final.returned = [trade 0, trade 1] ∧
      ¬ LosesNothing past final := by
  rcases TransitionSystem.exists_run_of_events .initial (step (Mode.copy.loop 2) true)
    rejectedRow (fun state => state.dequeued = [trade 0, trade 1] ∧
      state.transactions = [] ∧ state.held = [] ∧ state.returned = [trade 0, trade 1])
    (by decide) with ⟨past, final, run, _, dequeued, transactions, held, returned⟩
  refine ⟨past, final, run, dequeued, transactions, held, returned, ?_⟩
  intro safe
  have prefixed := safe.now.returned
  rw [returned, transactions] at prefixed
  exact absurd (List.prefix_nil.mp prefixed) (by decide)

end FeederNet.DBManager
