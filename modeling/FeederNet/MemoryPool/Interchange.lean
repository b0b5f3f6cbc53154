import FeederNet.MemoryPool.CustomLockedPool
import FeederNet.MemoryPool.CustomLockFreePool.Sequential
import FeederNet.MemoryPool.LockFreeThreadSafePool.Sequential

/-! # Interchangeable pools

One thread cannot tell the three pools apart.
-/

namespace FeederNet.MemoryPool

namespace LockFreeThreadSafePool

/-- Nothing when a call returns `nullptr`, throws or indexes outside `nextFree_`. -/
def allocator : Allocator LockFreeThreadSafePool where
  allocate pool failures :=
    match pool.allocate failures with
    | .ok (some msg, pool) => some (msg, pool)
    | .ok (none, _) | .error _ => none
  deallocate pool msg failures := (pool.deallocate (some msg) failures).toOption

theorem servesAsStack {poolMsgCount : Nat} (bound : poolMsgCount < 2 ^ 32 - 1) :
    ServesAsStack poolMsgCount allocator fun pool free held =>
      Session.Valid poolMsgCount ⟨pool, held⟩ free where
  allocate _ valid failures := by
    rcases valid.allocate failures with ⟨next, allocated, kept⟩
    refine ⟨next, ?_, kept⟩
    simp only [allocator, allocated]
  deallocate _ member valid failures := by
    rcases valid.deallocate bound member failures with ⟨next, deallocated, kept⟩
    refine ⟨next, ?_, kept⟩
    simp only [allocator, deallocated]
    rfl

end LockFreeThreadSafePool

/-- All three pools hand out the slots of one stack, whatever exchanges fail, and never a
slot that is held. -/
structure AllocateAlike (poolMsgCount : Nat) (calls : List Call) : Prop where
  locked : ∀ failures,
    CustomLockedPool.allocator.grants failures (.initial poolMsgCount) [] calls =
      some (SlotStack.grants (List.range poolMsgCount).reverse [] calls)
  lockFree : ∀ failures,
    (CustomLockFreePool.allocator poolMsgCount).grants failures (.initial poolMsgCount) []
        calls =
      some (SlotStack.grants (List.range poolMsgCount).reverse [] calls)
  threadSafe : ∀ failures,
    LockFreeThreadSafePool.allocator.grants failures (.initial poolMsgCount) [] calls =
      some (SlotStack.grants (List.range poolMsgCount).reverse [] calls)
  fresh : ∀ grant ∈ SlotStack.grants (List.range poolMsgCount).reverse [] calls,
    grant.slot ∉ grant.held

/-- One thread that frees what it holds and holds no more than there are slots is served
the same way by the three pools. -/
theorem allocateAlike_of_permitted {poolMsgCount : Nat} (bound : poolMsgCount < 2 ^ 32 - 1)
    {calls : List Call} (permitted : Permitted poolMsgCount 0 calls) :
    AllocateAlike poolMsgCount calls where
  locked failures :=
    (CustomLockedPool.servesAsStack poolMsgCount).grants_eq failures (.initial poolMsgCount)
      (CustomLockedPool.initial_freeMsgs poolMsgCount) permitted
  lockFree failures :=
    (CustomLockFreePool.servesAsStack poolMsgCount).grants_eq failures
      (.initial poolMsgCount) (CustomLockFreePool.holds_initial poolMsgCount) permitted
  threadSafe failures :=
    (LockFreeThreadSafePool.servesAsStack bound).grants_eq failures (.initial poolMsgCount)
      (.start bound) permitted
  fresh := SlotStack.notMem_of_grants (.initial poolMsgCount) permitted

/-- The slot freed last is handed out next, before those that were never used. -/
theorem allocateAlike_of_permitted_two :
    AllocateAlike 3 [.allocate, .allocate, .deallocate 1, .allocate, .allocate] ∧
      (SlotStack.grants (List.range 3).reverse []
        [.allocate, .allocate, .deallocate 1, .allocate, .allocate]).map Grant.slot =
          [2, 1, 2, 0] :=
  ⟨allocateAlike_of_permitted (by decide)
    ⟨by decide, by decide, by decide, by decide, by decide, trivial⟩, rfl⟩

end FeederNet.MemoryPool
