import FeederNet.MemoryPool.LockFreeThreadSafePool.Code
import FeederNet.MemoryPool.SlotStack

/-! # LockFreeThreadSafePool used by one thread

Calls follow one another, so a call sees the pool its predecessor left. The
pool is compared with a bounded free list: an allocation hands out a slot that
is not held, and `nullptr` when every slot is held.
-/

namespace FeederNet.MemoryPool.LockFreeThreadSafePool

/-! ## One call -/

section Calls

variable {pool : LockFreeThreadSafePool} {slot : Nat} {free : List Nat}

theorem allocate_of_freeList (list : pool.FreeList (slot :: free))
    (inRange : slot < pool.poolMsgCount) (spurious : Nat) :
    ∃ head, pool.allocate spurious = .ok (some slot, { pool with head := head }) ∧
      FreeList { pool with head := head } free := by
  have read : pool.nextFreeAt (unpack pool.head).1 = .ok (pool.nextFree slot) := by
    simp only [nextFreeAt, list.head_eq, inRange, if_true]
  refine ⟨pack (pool.nextFree slot) ((unpack pool.head).2 + 1), ?_, ?_⟩
  · induction spurious with
    | zero => rw [allocate_eq, read, list.head_eq]
    | succ spurious induction =>
        rw [allocate_eq, read]
        exact induction
  · exact list.unlink

/-- With no slot left, allocation takes the end marker for an index and reads
outside `nextFree_`. -/
theorem allocate_of_exhausted (list : pool.FreeList [])
    (bound : pool.poolMsgCount < 2 ^ 32 - 1) (spurious : Nat) :
    pool.allocate spurious = .error (.outOfRange (unpack pool.head).1) := by
  have marker : pool.head.toNat % 2 ^ 32 = 2 ^ 32 - 1 := by
    have ended : follow pool.head = none := list
    unfold follow at ended
    split at ended
    · assumption
    · cases ended
  have outside : ¬ (unpack pool.head).1.toNat < pool.poolMsgCount := by
    rw [unpack_index_toNat]
    omega
  rw [allocate_eq, nextFreeAt, if_neg outside]

theorem deallocate_of_freeList (list : pool.FreeList free)
    (inRange : slot < pool.poolMsgCount) (bound : pool.poolMsgCount < 2 ^ 32 - 1)
    (fresh : slot ∉ free) (spurious : Nat) :
    ∃ pool', pool.deallocate (some slot) spurious = .ok pool' ∧
      pool'.FreeList (slot :: free) ∧ pool'.poolMsgCount = pool.poolMsgCount := by
  induction spurious generalizing pool with
  | zero =>
      refine ⟨{ pool.setNextFree slot (unpack pool.head).1 with
        head := pack (BitVec.ofNat 64 slot) ((unpack pool.head).2 + 1) }, ?_, ?_, rfl⟩
      · simp only [deallocate, inRange, if_true]
      · refine (list.setNextFree fresh).publish (by omega) ?_
        simp [setNextFree]
  | succ spurious induction =>
      rw [deallocate]
      simp only [inRange, if_true]
      -- A failed exchange leaves the head alone, so the list is unchanged.
      exact induction (list.setNextFree fresh) inRange bound

end Calls

/-! ## Sequences of calls -/

structure Session where
  pool : LockFreeThreadSafePool
  held : List Nat

inductive Call
  | allocate (spurious : Nat)
  | deallocate (slot spurious : Nat)
  deriving DecidableEq, Repr

namespace Session

def start (poolMsgCount : Nat) : Session where
  pool := initial poolMsgCount
  held := []

def run (session : Session) : Call → Except Fault (Option Nat × Session)
  | .allocate spurious => do
      let (msg, pool) ← session.pool.allocate spurious
      return (msg, { pool := pool, held := msg.toList ++ session.held })
  | .deallocate slot spurious => do
      let pool ← session.pool.deallocate (some slot) spurious
      return (none, { pool := pool, held := session.held.erase slot })

def Respects : Session → List Call → Prop
  | _, [] => True
  | session, call :: calls =>
      (∀ slot spurious, call = .deallocate slot spurious → slot ∈ session.held) ∧
        ∀ msg session', session.run call = .ok (msg, session') →
          Respects session' calls

/-- What a bounded free list does for one call: hand out a slot that is not
held while one is left, hand out nothing and change nothing otherwise, and take
back a held slot. -/
def Serves (session : Session) : Call → Prop
  | .allocate spurious =>
      if session.held.length < session.pool.poolMsgCount then
        ∃ slot pool, session.pool.allocate spurious = .ok (some slot, pool) ∧
          slot < session.pool.poolMsgCount ∧ slot ∉ session.held
      else session.pool.allocate spurious = .ok (none, session.pool)
  | .deallocate slot spurious =>
      ∃ pool, session.pool.deallocate (some slot) spurious = .ok pool

/-- Every call of the sequence is served, in the state its predecessors left. -/
def ServesAll : Session → List Call → Prop
  | _, [] => True
  | session, call :: calls =>
      session.Serves call ∧
        ∀ msg session', session.run call = .ok (msg, session') →
          ServesAll session' calls

end Session

/-- No allocation is asked for while all slots are held. -/
def WithinCapacity (poolMsgCount : Nat) : Nat → List Call → Prop
  | _, [] => True
  | heldCount, .allocate _ :: calls =>
      heldCount < poolMsgCount ∧ WithinCapacity poolMsgCount (heldCount + 1) calls
  | heldCount, .deallocate _ _ :: calls =>
      WithinCapacity poolMsgCount (heldCount - 1) calls

/-- The slots are split between the free list and the caller. -/
structure Session.Valid (poolMsgCount : Nat) (session : Session)
    (free : List Nat) : Prop where
  count : session.pool.poolMsgCount = poolMsgCount
  list : session.pool.FreeList free
  split : (free ++ session.held).Perm (List.range poolMsgCount)

namespace Session.Valid

variable {poolMsgCount : Nat} {session : Session} {free : List Nat}

theorem toSplit (valid : Valid poolMsgCount session free) :
    SlotStack.Split poolMsgCount free session.held :=
  valid.split

theorem start (bound : poolMsgCount < 2 ^ 32 - 1) :
    Valid poolMsgCount (Session.start poolMsgCount)
      (List.range poolMsgCount).reverse where
  count := rfl
  list := initial_freeList poolMsgCount bound
  split := SlotStack.Split.initial poolMsgCount

theorem allocate {slot : Nat} {rest : List Nat}
    (valid : Valid poolMsgCount session (slot :: rest)) (spurious : Nat) :
    ∃ pool, session.pool.allocate spurious = .ok (some slot, pool) ∧
      Valid poolMsgCount { pool := pool, held := slot :: session.held } rest := by
  have inRange : slot < session.pool.poolMsgCount := by
    rw [valid.count]
    exact valid.toSplit.lt List.mem_cons_self
  rcases allocate_of_freeList valid.list inRange spurious with
    ⟨head, allocated, list⟩
  exact ⟨_, allocated, valid.count, list, valid.toSplit.allocate⟩

theorem deallocate (valid : Valid poolMsgCount session free)
    (bound : poolMsgCount < 2 ^ 32 - 1) {slot : Nat} (held : slot ∈ session.held)
    (spurious : Nat) :
    ∃ pool, session.pool.deallocate (some slot) spurious = .ok pool ∧
      Valid poolMsgCount { pool := pool, held := session.held.erase slot }
        (slot :: free) := by
  have inRange : slot < session.pool.poolMsgCount := by
    rw [valid.count]
    exact valid.toSplit.lt (List.mem_append_right _ held)
  rcases deallocate_of_freeList valid.list inRange (by rw [valid.count]; exact bound)
    (valid.toSplit.notMem_free held) spurious with ⟨pool, deallocated, list, count⟩
  exact ⟨pool, deallocated, count.trans valid.count, list, valid.toSplit.deallocate held⟩

end Session.Valid

/-- From a state in which the slots are split between free list and caller,
the pool serves a sequence of calls exactly when none of them allocates while
all slots are held. -/
theorem Session.Valid.servesAll_iff {poolMsgCount : Nat}
    (bound : poolMsgCount < 2 ^ 32 - 1) (calls : List Call) {session : Session}
    {free : List Nat} (valid : Valid poolMsgCount session free)
    (respects : session.Respects calls) :
    session.ServesAll calls ↔
      WithinCapacity poolMsgCount session.held.length calls := by
  induction calls generalizing session free with
  | nil => exact Iff.rfl
  | cons call calls induction =>
      have lengths := valid.toSplit.lengths
      cases call with
      | allocate spurious =>
          cases free with
          | nil =>
              -- Exhausted: the call faults, so the sequence is not served.
              have full : ¬ session.held.length < poolMsgCount := by
                simp at lengths
                omega
              have faults := allocate_of_exhausted valid.list
                (by rw [valid.count]; exact bound) spurious
              refine iff_of_false ?_ fun within => full within.1
              intro given
              rcases given with ⟨served, _⟩
              simp [Serves, valid.count, full, faults] at served
          | cons slot rest =>
              rcases valid.allocate spurious with ⟨pool, allocated, valid'⟩
              have ran : session.run (.allocate spurious) =
                  .ok (some slot, { pool := pool, held := slot :: session.held }) := by
                simp [Session.run, allocated, bind, Except.bind, pure, Except.pure]
              have room : session.held.length < poolMsgCount := by
                simp at lengths
                omega
              have served : session.Serves (.allocate spurious) := by
                simp only [Serves, valid.count, room, if_true]
                exact ⟨slot, pool, allocated, valid.toSplit.lt List.mem_cons_self,
                  valid.toSplit.notMem_held⟩
              have rest := induction valid' (respects.2 _ _ ran)
              simpa [ServesAll, WithinCapacity, served, room, ran] using rest
      | deallocate slot spurious =>
          have held := respects.1 slot spurious rfl
          rcases valid.deallocate bound held spurious with
            ⟨pool, deallocated, valid'⟩
          have ran : session.run (.deallocate slot spurious) =
              .ok (none, { pool := pool, held := session.held.erase slot }) := by
            simp [Session.run, deallocated, bind, Except.bind, pure, Except.pure]
          have rest := induction valid' (respects.2 _ _ ran)
          have served : session.Serves (.deallocate slot spurious) :=
            ⟨pool, deallocated⟩
          simpa [ServesAll, WithinCapacity, served, ran,
            List.length_erase_of_mem held] using rest

/-- A new pool serves a sequence of calls exactly when none of them allocates
while all slots are held. -/
theorem servesAll_iff_withinCapacity (poolMsgCount : Nat)
    (bound : poolMsgCount < 2 ^ 32 - 1) (calls : List Call)
    (respects : (Session.start poolMsgCount).Respects calls) :
    (Session.start poolMsgCount).ServesAll calls ↔
      WithinCapacity poolMsgCount 0 calls :=
  Session.Valid.servesAll_iff bound calls (.start bound) respects

/-- A slot taken and given back is served. -/
theorem servesAll_iff_withinCapacity_return :
    (Session.start 1).ServesAll [.allocate 0, .deallocate 0 0] ↔
      WithinCapacity 1 0 [.allocate 0, .deallocate 0 0] := by
  refine servesAll_iff_withinCapacity 1 (by decide) _ ⟨by simp, ?_⟩
  intro msg session ran
  have taken : (Session.start 1).run (.allocate 0) = .ok (some 0, _) := rfl
  rw [taken] at ran
  cases ran
  refine ⟨?_, fun _ _ _ => trivial⟩
  rintro slot spurious ⟨⟩
  exact List.mem_singleton.mpr rfl

/-- The second allocation from a pool of one slot must return `nullptr`. It
reads `nextFree_` at the end marker instead. -/
theorem exhausted_allocate_reads_outside :
    ∃ session, (Session.start 1).run (.allocate 0) = .ok (some 0, session) ∧
      session.run (.allocate 0) = .error (.outOfRange 0xFFFFFFFF) ∧
      ¬ (Session.start 1).ServesAll [.allocate 0, .allocate 0] := by
  refine ⟨_, rfl, rfl, ?_⟩
  intro given
  rcases given with ⟨_, rest⟩
  have served := (rest (some 0) _ rfl).1
  cases served

end FeederNet.MemoryPool.LockFreeThreadSafePool
