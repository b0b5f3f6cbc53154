import FeederNet.MemoryPool.CustomLockFreePool
import FeederNet.MemoryPool.SlotStack

/-! # CustomLockFreePool used by one thread

A call is the sequence of its atomic steps. An exchange of the only thread fails for no
reason but the weakness of the exchange, each time after another turn of the loop.
-/

namespace FeederNet.MemoryPool.CustomLockFreePool

/-! ## Calls -/

/-- The turns of the loop of `allocate` or `deallocate`, of which the last exchange
succeeds. -/
def turns (poolMsgCount : Nat) (access : Action) :
    Nat → State Unit → Option (State Unit)
  | 0, state => do
      let state ← step poolMsgCount state ((), access)
      step poolMsgCount state ((), .exchange)
  | failures + 1, state => do
      let state ← step poolMsgCount state ((), access)
      let state ← step poolMsgCount state ((), .exchangeFailed)
      turns poolMsgCount access failures state

def allocate (poolMsgCount : Nat) (state : State Unit) (failures : Nat) :
    Option (Nat × State Unit) := do
  let state ← step poolMsgCount state ((), .callAllocate)
  let state ← step poolMsgCount state ((), .loadHead)
  let state ← turns poolMsgCount .readSlot failures state
  let msg ← (state.holds ()).head?
  return (msg, state)

def deallocate (poolMsgCount : Nat) (state : State Unit) (msg failures : Nat) :
    Option (State Unit) := do
  let state ← step poolMsgCount state ((), .callDeallocate msg)
  let state ← step poolMsgCount state ((), .loadHead)
  turns poolMsgCount .writeSlot failures state

def allocator (poolMsgCount : Nat) : Allocator (State Unit) where
  allocate := allocate poolMsgCount
  deallocate := deallocate poolMsgCount

structure Holds (state : State Unit) (free held : List Nat) : Prop where
  idle : state.phase () = .idle
  freeEntries : state.freeEntries = free.reverse
  head : state.head = (free.length : Int) - 1
  held : state.holds () = held

theorem holds_initial (poolMsgCount : Nat) :
    Holds (.initial poolMsgCount) (List.range poolMsgCount).reverse [] where
  idle := rfl
  freeEntries := by
    rw [List.reverse_reverse]
    simp [State.freeEntries, State.initial, entries]
  head := by rw [List.length_reverse, List.length_range]; rfl
  held := rfl

/-! ## Steps -/

section Steps

variable {poolMsgCount msg : Nat} {state : State Unit}

@[simp] theorem goto_phase (phase : Phase) : (state.goto () phase).phase () = phase := by
  simp [State.goto]

@[simp] theorem goto_goto (first second : Phase) :
    (state.goto () first).goto () second = state.goto () second := by
  simp only [State.goto, Function.update_idem]

theorem step_callAllocate (idle : state.phase () = .idle) :
    step poolMsgCount state ((), .callAllocate) = some (state.goto () .allocating) := by
  simp only [step, idle]

theorem step_callDeallocate (idle : state.phase () = .idle) (held : msg ∈ state.holds ()) :
    step poolMsgCount state ((), .callDeallocate msg) =
      some (state.goto () (.deallocating msg)) := by
  simp only [step, idle, if_pos held]

theorem afterPopLoad_of_nonneg {currentHead : Int} (nonempty : 0 ≤ currentHead) :
    afterPopLoad currentHead = .popping currentHead :=
  if_pos nonempty

theorem afterPushLoad_of_room {currentHead : Int} (room : currentHead + 1 < poolMsgCount) :
    afterPushLoad poolMsgCount msg currentHead = .pushing msg currentHead :=
  if_neg (Int.not_le.mpr room)

theorem step_loadHead_allocating (nonempty : 0 ≤ state.head) :
    step poolMsgCount (state.goto () .allocating) ((), .loadHead) =
      some (state.goto () (.popping state.head)) := by
  simp only [step, goto_phase, goto_goto]
  rw [← afterPopLoad_of_nonneg nonempty]
  rfl

theorem step_loadHead_deallocating (room : state.head + 1 < poolMsgCount) :
    step poolMsgCount (state.goto () (.deallocating msg)) ((), .loadHead) =
      some (state.goto () (.pushing msg state.head)) := by
  simp only [step, goto_phase, goto_goto]
  rw [← afterPushLoad_of_room room]
  rfl

theorem step_readSlot (popping : state.phase () = .popping state.head) :
    step poolMsgCount state ((), .readSlot) = some (state.goto ()
      (.popRead state.head (state.freeMsgs state.head.toNat))) := by
  simp only [step, popping]

def State.written (state : State Unit) (msg : Nat) : State Unit :=
  { state with
    freeMsgs := Function.update state.freeMsgs (state.head + 1).toNat msg }

theorem step_writeSlot (pushing : state.phase () = .pushing msg state.head) :
    step poolMsgCount state ((), .writeSlot) =
      some ((state.written msg).goto () (.pushWritten msg state.head)) := by
  simp only [step, pushing, State.written]

theorem step_exchangeFailed_popRead {currentHead : Int} (nonempty : 0 ≤ state.head) :
    step poolMsgCount (state.goto () (.popRead currentHead msg)) ((), .exchangeFailed) =
      some (state.goto () (.popping state.head)) := by
  simp only [step, goto_phase, goto_goto]
  rw [← afterPopLoad_of_nonneg nonempty]
  rfl

theorem step_exchangeFailed_pushWritten {currentHead : Int}
    (room : state.head + 1 < poolMsgCount) :
    step poolMsgCount (state.goto () (.pushWritten msg currentHead)) ((), .exchangeFailed) =
      some (state.goto () (.pushing msg state.head)) := by
  simp only [step, goto_phase, goto_goto]
  rw [← afterPushLoad_of_room room]
  rfl

end Steps

/-! ## One call -/

section Calls

variable {poolMsgCount msg : Nat} {state : State Unit}

theorem turns_readSlot (poolMsgCount : Nat) (popping : state.phase () = .popping state.head)
    (nonempty : 0 ≤ state.head) (failures : Nat) :
    ∃ next, turns poolMsgCount .readSlot failures state = some next ∧
      next.phase () = .idle ∧ next.freeMsgs = state.freeMsgs ∧
      next.head = state.head - 1 ∧
      next.holds () = state.freeMsgs state.head.toNat :: state.holds () := by
  induction failures generalizing state with
  | zero =>
      rw [turns, step_readSlot popping]
      simp [step, State.goto, State.setHolds]
  | succ failures induction =>
      rw [turns, step_readSlot popping, Option.bind_eq_bind, Option.bind_some,
        step_exchangeFailed_popRead nonempty]
      exact induction (goto_phase _) nonempty

theorem turns_writeSlot (pushing : state.phase () = .pushing msg state.head)
    (room : state.head + 1 < poolMsgCount) (failures : Nat) :
    ∃ next, turns poolMsgCount .writeSlot failures state = some next ∧
      next.phase () = .idle ∧
      next.freeMsgs = Function.update state.freeMsgs (state.head + 1).toNat msg ∧
      next.head = state.head + 1 ∧ next.holds () = (state.holds ()).erase msg := by
  induction failures generalizing state with
  | zero =>
      rw [turns, step_writeSlot pushing]
      simp [step, State.goto, State.setHolds, State.written]
  | succ failures induction =>
      have inside : (state.written msg).head + 1 < poolMsgCount := room
      have again : ((state.written msg).goto () (.pushing msg state.head)).phase () =
          .pushing msg ((state.written msg).goto () (.pushing msg state.head)).head :=
        goto_phase _
      rw [turns, step_writeSlot pushing, Option.bind_eq_bind, Option.bind_some,
        step_exchangeFailed_pushWritten inside]
      rcases induction again inside with ⟨next, turned, idle, slots, head, holds⟩
      refine ⟨next, turned, idle, ?_, head, holds⟩
      rw [slots]
      exact Function.update_idem ..

theorem Holds.allocate {free held : List Nat} (given : Holds state (msg :: free) held)
    (failures : Nat) :
    ∃ next, CustomLockFreePool.allocate poolMsgCount state failures = some (msg, next) ∧
      Holds next free (msg :: held) := by
  have head := given.head
  rw [List.length_cons] at head
  have nonempty : 0 ≤ state.head := by omega
  have below : entries state.freeMsgs state.head =
      entries state.freeMsgs (state.head - 1) ++ [state.freeMsgs state.head.toNat] := by
    have more := entries_succ state.freeMsgs (state.head - 1) (by omega)
    rwa [Int.sub_add_cancel] at more
  have split : entries state.freeMsgs (state.head - 1) = free.reverse ∧
      state.freeMsgs state.head.toNat = msg := by
    have freeEntries := given.freeEntries
    rw [State.freeEntries, below, List.reverse_cons] at freeEntries
    exact List.append_singleton_inj.mp freeEntries
  have popping : (state.goto () (.popping state.head)).phase () =
      .popping (state.goto () (.popping state.head)).head := goto_phase _
  rcases turns_readSlot poolMsgCount popping nonempty failures with
    ⟨next, turned, idle, slots, top, holds⟩
  have taken : next.holds () = msg :: held :=
    holds.trans (congrArg₂ List.cons split.2 given.held)
  refine ⟨next, ?_, idle, ?_, ?_, taken⟩
  · simp only [CustomLockFreePool.allocate, step_callAllocate given.idle,
      step_loadHead_allocating nonempty, turned, taken, Option.bind_eq_bind,
      Option.bind_some, List.head?_cons, Option.pure_def]
  · rw [State.freeEntries, slots, top]
    exact split.1
  · calc
      next.head = state.head - 1 := top
      _ = (free.length : Int) - 1 := by omega

theorem Holds.deallocate {free held : List Nat} (given : Holds state free held)
    (member : msg ∈ held) (room : free.length < poolMsgCount) (failures : Nat) :
    ∃ next, CustomLockFreePool.deallocate poolMsgCount state msg failures = some next ∧
      Holds next (msg :: free) (held.erase msg) := by
  have head := given.head
  have inside : state.head + 1 < poolMsgCount := by omega
  have pushing : (state.goto () (.pushing msg state.head)).phase () =
      .pushing msg (state.goto () (.pushing msg state.head)).head := goto_phase _
  rcases turns_writeSlot pushing inside failures with
    ⟨next, turned, idle, slots, top, holds⟩
  refine ⟨next, ?_, idle, ?_, ?_, ?_⟩
  · rw [← given.held] at member
    simp only [CustomLockFreePool.deallocate, step_callDeallocate given.idle member,
      step_loadHead_deallocating inside, turned, Option.bind_eq_bind, Option.bind_some]
  · have above : state.head < ((state.head + 1).toNat : Int) := by omega
    have written : Function.update state.freeMsgs (state.head + 1).toNat msg
        (state.head + 1).toNat = msg := Function.update_self ..
    have freeEntries : entries state.freeMsgs state.head = free.reverse := given.freeEntries
    rw [State.freeEntries, slots, top]
    change entries (Function.update state.freeMsgs (state.head + 1).toNat msg)
      (state.head + 1) = _
    rw [entries_succ _ _ (by omega), entries_update_of_above _ _ above, written, freeEntries,
      List.reverse_cons]
  · calc
      next.head = state.head + 1 := top
      _ = ((msg :: free).length : Int) - 1 := by rw [List.length_cons]; omega
  · exact holds.trans (congrArg (List.erase · msg) given.held)

end Calls

theorem servesAsStack (poolMsgCount : Nat) :
    ServesAsStack poolMsgCount (allocator poolMsgCount) Holds where
  allocate _ holds failures := holds.allocate failures
  deallocate split member holds failures :=
    holds.deallocate member (split.room member) failures

end FeederNet.MemoryPool.CustomLockFreePool
