import FeederNet.DBManager
import Mathlib.Data.List.TakeDrop

/-! # The batch and its flushes

What one step of a loop can do, and what holds of the batch in every run, whether
transactions fail or not.
-/

namespace FeederNet.DBManager

variable {Double : Type u}

def Poll.messages : Poll Double → List (Message Double)
  | .stop => []
  | .dequeue msg => msg.toList

/-- A call of the commit function is under way. -/
def Phase.inTransaction : Phase → Option Bool
  | .beginning last | .writing _ last | .completing last | .committing last => some last
  | .polling | .returning _ _ | .stopped => none

inductive Step (loop : Loop Double) (destroyMessages : Bool) :
    State Double → Event Double → State Double → Prop
  | poll {state} (found) : state.phase = .polling →
      Step loop destroyMessages state (.poll found) (loop.poll state found)
  | begin {state last} : state.phase = .beginning last →
      Step loop destroyMessages state .proceed
        { state with phase := .writing 0 last, pending := [] }
  | write {state index last msg} : state.phase = .writing index last →
      state.held[index]? = some msg →
      Step loop destroyMessages state .proceed
        { state with
          phase := .writing (index + 1) last
          pending := state.pending ++ [msg] }
  | written {state index last} (next) : state.phase = .writing index last →
      state.held.length ≤ index →
      next = .completing last ∨ next = .committing last →
      Step loop destroyMessages state .proceed (state.goto next)
  | complete {state last} : state.phase = .completing last →
      Step loop destroyMessages state .proceed (state.goto (.committing last))
  | commit {state last} : state.phase = .committing last →
      Step loop destroyMessages state .proceed
        ({ state with
          transactions := state.transactions ++ [state.pending]
          pending := [] }.flushed destroyMessages last)
  | deallocate {state index last msg} : state.phase = .returning index last →
      state.held[index]? = some msg →
      Step loop destroyMessages state .proceed
        { state with
          phase := .returning (index + 1) last
          returned := state.returned ++ [msg] }
  | deallocated {state index last} : state.phase = .returning index last →
      state.held.length ≤ index →
      Step loop destroyMessages state .proceed (state.clear last)
  | throw {state last} : state.phase.inTransaction = some last →
      Step loop destroyMessages state .throw (state.abort destroyMessages last)

theorem Step.of_step {loop : Loop Double} {destroyMessages : Bool}
    {state next : State Double} {event : Event Double}
    (stepped : step loop destroyMessages state event = some next) :
    Step loop destroyMessages state event next := by
  cases event with
  | poll found =>
      simp only [step, Option.ite_none_right_eq_some, Option.some.injEq] at stepped
      rcases stepped with ⟨polling, rfl⟩
      exact .poll found polling
  | proceed =>
      simp only [step, proceed] at stepped
      split at stepped
      · cases stepped
      · cases stepped
      · rename_i last phase
        cases stepped
        exact .begin phase
      · rename_i index last phase
        split at stepped
        · rename_i msg found
          cases stepped
          exact .write phase found
        · rename_i missing
          cases stepped
          apply Step.written _ phase (List.getElem?_eq_none_iff.mp missing)
          cases loop.completes with
          | true => exact .inl rfl
          | false => exact .inr rfl
      · rename_i last phase
        cases stepped
        exact .complete phase
      · rename_i last phase
        cases stepped
        exact .commit phase
      · rename_i index last phase
        split at stepped
        · rename_i msg found
          cases stepped
          exact .deallocate phase found
        · rename_i missing
          cases stepped
          exact .deallocated phase (List.getElem?_eq_none_iff.mp missing)
  | throw =>
      simp only [step, throws] at stepped
      split at stepped
      · rename_i last phase
        cases stepped
        exact .throw (by rw [phase]; rfl)
      · rename_i last phase
        cases stepped
        exact .throw (by rw [phase]; rfl)
      · rename_i last phase
        cases stepped
        exact .throw (by rw [phase]; rfl)
      · rename_i index last phase
        split at stepped
        · cases stepped
          exact .throw (by rw [phase]; rfl)
        · cases stepped
      · cases stepped
      · cases stepped
      · cases stepped

/-! ## Loops that fill a batch -/

/-- A poll adds what it dequeued to the batch, and starts a flush at `limit` messages at
the latest. The flush after the loop is skipped for an empty batch. -/
structure Polled (limit : Nat) (found : Poll Double) (state next : State Double) :
    Prop where
  dequeued : next.dequeued = state.dequeued ++ found.messages
  held : next.held = state.held ++ found.messages
  transactions : next.transactions = state.transactions
  returned : next.returned = state.returned
  stands : next.phase = .polling ∧ found ≠ .stop ∧ next.held.length < limit ∨
    next.phase = .stopped ∧ found = .stop ∧ next.held = [] ∨
    ∃ last, next.phase = .beginning last ∧ (last = true ↔ found = .stop) ∧
      next.held ≠ [] ∧ next.held.length ≤ limit

def Loop.Fills (loop : Loop Double) (limit : Nat) : Prop :=
  ∀ state found, state.phase = .polling → state.held.length < limit →
    Polled limit found state (loop.poll state found)

theorem pollBatch_polled (commitBatchSize : Nat) (state : State Double)
    (found : Poll Double) (polling : state.phase = .polling)
    (room : state.held.length < max 1 commitBatchSize) :
    Polled (max 1 commitBatchSize) found state
      (pollBatch commitBatchSize state found) := by
  have nothing : ∀ messages : List (Message Double), messages = messages ++ [] :=
    fun messages => (List.append_nil messages).symm
  have flushes : ∀ last, ¬ state.held = [] → (last = true ↔ found = .stop) →
      ∃ same, (state.goto (.beginning last)).phase = .beginning same ∧
        (same = true ↔ found = .stop) ∧ state.held ≠ [] ∧
          state.held.length ≤ max 1 commitBatchSize :=
    fun last waiting stopping => ⟨last, rfl, stopping, waiting, Nat.le_of_lt room⟩
  cases found with
  | stop =>
      by_cases empty : state.held = []
      · rw [pollBatch, if_pos empty]
        exact ⟨nothing _, nothing _, rfl, rfl, .inr (.inl ⟨rfl, rfl, empty⟩)⟩
      · rw [pollBatch, if_neg empty]
        exact ⟨nothing _, nothing _, rfl, rfl, .inr (.inr (flushes true empty (by simp)))⟩
  | dequeue msg =>
      cases msg with
      | none =>
          by_cases empty : state.held = []
          · rw [pollBatch, if_pos empty]
            exact ⟨nothing _, nothing _, rfl, rfl, .inl ⟨polling, nofun, room⟩⟩
          · rw [pollBatch, if_neg empty]
            exact ⟨nothing _, nothing _, rfl, rfl,
              .inr (.inr (flushes false empty (by simp)))⟩
      | some msg =>
          refine ⟨rfl, rfl, rfl, rfl, ?_⟩
          have length : (state.held ++ [msg]).length = state.held.length + 1 := by simp
          by_cases full : (state.held ++ [msg]).length ≥ commitBatchSize
          · exact .inr (.inr ⟨false, if_pos full, by simp, by simp [pollBatch], by
              simp only [pollBatch, length]
              omega⟩)
          · exact .inl ⟨if_neg full, nofun, by
              simp only [pollBatch, length] at full ⊢
              omega⟩

theorem runSingle_fills : (runSingle : Loop Double).Fills 1 := by
  intro state found polling room
  have empty : state.held = [] := List.length_eq_zero_iff.mp (by omega)
  cases found with
  | stop =>
      exact ⟨(List.append_nil _).symm, (List.append_nil _).symm, rfl, rfl,
        .inr (.inl ⟨rfl, rfl, empty⟩)⟩
  | dequeue msg =>
      cases msg with
      | none =>
          exact ⟨(List.append_nil _).symm, (List.append_nil _).symm, rfl, rfl,
            .inl ⟨polling, nofun, room⟩⟩
      | some msg =>
          refine ⟨rfl, by rw [empty]; rfl, rfl, rfl, .inr (.inr ⟨false, rfl, ?_⟩)⟩
          simp [runSingle]

theorem runBatch_fills (commitBatchSize : Nat) :
    (runBatch commitBatchSize : Loop Double).Fills (max 1 commitBatchSize) :=
  pollBatch_polled commitBatchSize

theorem runCopy_fills (commitBatchSize : Nat) :
    (runCopy commitBatchSize : Loop Double).Fills (max 1 commitBatchSize) :=
  pollBatch_polled commitBatchSize

/-! ## The batch in every run -/

/-- The batch where a phase stands: not full at the head of the loop, and never empty in a
transaction, which has taken the rows before the next one. -/
def Standing (limit : Nat) (state : State Double) : Prop :=
  match state.phase with
  | .polling => state.held.length < limit
  | .beginning _ => state.held ≠ []
  | .writing index _ => state.held ≠ [] ∧ state.pending = state.held.take index
  | .completing _ | .committing _ => state.held ≠ [] ∧ state.pending = state.held
  | .returning _ _ => True
  | .stopped => state.held = []

structure Valid (limit : Nat) (state : State Double) : Prop where
  standing : Standing limit state
  room : state.held.length ≤ limit
  bounded : ∀ rows ∈ state.transactions, rows.length ≤ limit

section Valid

variable {limit : Nat} {loop : Loop Double} {destroyMessages : Bool}
  {state next : State Double} {event : Event Double}

theorem valid_initial (positive : 0 < limit) : Valid limit (State.initial : State Double) :=
  ⟨positive, Nat.zero_le _, List.forall_mem_nil _⟩

theorem clear_valid (positive : 0 < limit)
    (bounded : ∀ rows ∈ state.transactions, rows.length ≤ limit) (last : Bool) :
    Valid limit (state.clear last) := by
  refine ⟨?_, Nat.zero_le _, bounded⟩
  cases last with
  | true => rfl
  | false => exact positive

theorem flushed_valid (positive : 0 < limit) (room : state.held.length ≤ limit)
    (bounded : ∀ rows ∈ state.transactions, rows.length ≤ limit)
    (destroyMessages last : Bool) : Valid limit (state.flushed destroyMessages last) := by
  cases destroyMessages with
  | true => exact ⟨trivial, room, bounded⟩
  | false => exact clear_valid positive bounded last

theorem Standing.ne_nil (standing : Standing limit state) {last : Bool}
    (inside : state.phase.inTransaction = some last) : state.held ≠ [] := by
  unfold Standing at standing
  cases phase : state.phase with
  | beginning _ =>
      rw [phase] at standing
      exact standing
  | writing _ _ | completing _ | committing _ =>
      rw [phase] at standing
      exact standing.1
  | polling | returning _ _ | stopped =>
      rw [phase] at inside
      cases inside

theorem Valid.step (fills : loop.Fills limit) (positive : 0 < limit)
    (valid : Valid limit state) (step : Step loop destroyMessages state event next) :
    Valid limit next := by
  have standing := valid.standing
  unfold Standing at standing
  cases step with
  | poll found polling =>
      rw [polling] at standing
      have polled := fills state found polling standing
      have bounded : ∀ rows ∈ (loop.poll state found).transactions, rows.length ≤ limit := by
        rw [polled.transactions]
        exact valid.bounded
      rcases polled.stands with ⟨phase, _, room⟩ | ⟨phase, _, empty⟩ |
        ⟨last, phase, _, waiting, room⟩
      · exact ⟨by rw [Standing, phase]; exact room, Nat.le_of_lt room, bounded⟩
      · exact ⟨by rw [Standing, phase]; exact empty, by rw [empty]; exact Nat.zero_le _,
          bounded⟩
      · exact ⟨by rw [Standing, phase]; exact waiting, room, bounded⟩
  | begin phase =>
      rw [phase] at standing
      exact ⟨⟨standing, rfl⟩, valid.room, valid.bounded⟩
  | @write index last msg phase read =>
      rw [phase] at standing
      refine ⟨⟨standing.1, ?_⟩, valid.room, valid.bounded⟩
      rw [standing.2, List.take_add_one, read]
      rfl
  | @written index last next phase past target =>
      rw [phase] at standing
      have whole : state.pending = state.held := by
        rw [standing.2, List.take_of_length_le past]
      rcases target with rfl | rfl
      · exact ⟨⟨standing.1, whole⟩, valid.room, valid.bounded⟩
      · exact ⟨⟨standing.1, whole⟩, valid.room, valid.bounded⟩
  | complete phase =>
      rw [phase] at standing
      exact ⟨standing, valid.room, valid.bounded⟩
  | @commit last phase =>
      rw [phase] at standing
      apply flushed_valid positive
      · exact valid.room
      · intro rows member
        rcases List.mem_append.mp member with member | member
        · exact valid.bounded rows member
        · rw [List.mem_singleton.mp member, standing.2]
          exact valid.room
  | deallocate phase read => exact ⟨trivial, valid.room, valid.bounded⟩
  | deallocated phase past => exact clear_valid positive valid.bounded _
  | throw inside =>
      apply flushed_valid positive
      · exact valid.room
      · exact valid.bounded

end Valid

end FeederNet.DBManager
