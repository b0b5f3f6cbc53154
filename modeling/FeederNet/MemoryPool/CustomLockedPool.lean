import FeederNet.MemoryPool.SlotStack

/-! # CustomLockedPool

A `std::stack` of the free messages. The two variants differ in the mutex alone, which one
thread always finds free. A message is named by its index in `pool_`.
-/

namespace FeederNet.MemoryPool

structure CustomLockedPool where
  /-- The top of the stack first. -/
  freeMsgs : List Nat
  deriving DecidableEq, Repr

namespace CustomLockedPool

inductive Fault
  /-- `No free messages available in the pool`. -/
  | noFreeMessages
  deriving DecidableEq, Repr

def push (pool : CustomLockedPool) (msg : Nat) : CustomLockedPool :=
  { pool with freeMsgs := msg :: pool.freeMsgs }

def initial (poolMsgCount : Nat) : CustomLockedPool :=
  (List.range poolMsgCount).foldl push ⟨[]⟩

def allocate (pool : CustomLockedPool) : Except Fault (Nat × CustomLockedPool) :=
  match pool.freeMsgs with
  | [] => .error .noFreeMessages
  | msg :: freeMsgs => .ok (msg, { pool with freeMsgs := freeMsgs })

def deallocate (pool : CustomLockedPool) (msg : Nat) : CustomLockedPool :=
  pool.push msg

def allocator : Allocator CustomLockedPool where
  allocate pool _ := pool.allocate.toOption
  deallocate pool msg _ := some (pool.deallocate msg)

theorem foldl_push (msgs : List Nat) (pool : CustomLockedPool) :
    (msgs.foldl push pool).freeMsgs = msgs.reverse ++ pool.freeMsgs := by
  induction msgs generalizing pool with
  | nil => rfl
  | cons msg msgs induction =>
      rw [List.foldl_cons, induction, List.reverse_cons, List.append_assoc]
      rfl

theorem initial_freeMsgs (poolMsgCount : Nat) :
    (initial poolMsgCount).freeMsgs = (List.range poolMsgCount).reverse := by
  rw [initial, foldl_push, List.append_nil]

theorem servesAsStack (poolMsgCount : Nat) :
    ServesAsStack poolMsgCount allocator fun pool free _ => pool.freeMsgs = free where
  allocate _ holds _ := by
    refine ⟨_, ?_, rfl⟩
    simp only [allocator, allocate, holds]
    rfl
  deallocate _ _ holds _ := ⟨_, rfl, congrArg (List.cons _) holds⟩

end CustomLockedPool

end FeederNet.MemoryPool
