import FeederNet.Foundation.LinkedChain
import FeederNet.Foundation.MachineWord
import Mathlib.Tactic.Common

/-! # LockFreeThreadSafePool

A free list threaded through `nextFree_`, whose head packs a 32-bit index and a
32-bit tag into one word. A message is named by its index in `pool_`.
-/

namespace FeederNet.MemoryPool

namespace LockFreeThreadSafePool

def INDEX_MASK : Word64 := 0xFFFFFFFF

def TAG_SHIFT : Nat := 32

/-- The index loses its upper half here. -/
def pack (index : Word64) (tag : Word32) : Word64 :=
  (tag.setWidth 64 <<< TAG_SHIFT) ||| (index.setWidth 32).setWidth 64

def unpack (packed : Word64) : Word64 × Word32 :=
  (packed &&& INDEX_MASK, (packed >>> TAG_SHIFT).setWidth 32)

/-- The node a stored index leads to. Links are only ever read through `pack`,
so their low half decides, and its all-ones value ends the list. -/
def follow (word : Word64) : Option Nat :=
  if word.toNat % 2 ^ 32 = 2 ^ 32 - 1 then none else some (word.toNat % 2 ^ 32)

end LockFreeThreadSafePool

open LockFreeThreadSafePool

structure LockFreeThreadSafePool where
  poolMsgCount : Nat
  nextFree : Nat → Word64
  head : Word64

namespace LockFreeThreadSafePool

def initial (poolMsgCount : Nat) : LockFreeThreadSafePool where
  poolMsgCount := poolMsgCount
  nextFree index := BitVec.ofNat 64 index - 1
  head := pack (BitVec.ofNat 64 poolMsgCount - 1) 0

/-- What can go wrong inside a call: an access outside `nextFree_`, or the
exception of `deallocate`. -/
inductive Fault
  | outOfRange (index : Word64)
  | deallocateNullptr
  deriving DecidableEq, Repr

def nextFreeAt (pool : LockFreeThreadSafePool) (index : Word64) :
    Except Fault Word64 :=
  if index.toNat < pool.poolMsgCount then .ok (pool.nextFree index.toNat)
  else .error (.outOfRange index)

def setNextFree (pool : LockFreeThreadSafePool) (index : Nat) (value : Word64) :
    LockFreeThreadSafePool :=
  { pool with nextFree := Function.update pool.nextFree index value }

theorem setNextFree_nextFree_of_ne {pool : LockFreeThreadSafePool}
    {written index : Nat} {value : Word64} (different : index ≠ written) :
    (pool.setNextFree written value).nextFree index = pool.nextFree index :=
  Function.update_of_ne different _ _

/-- A call made while no other thread runs. The compare-exchange may still fail
`spurious` times; each failure reloads the unchanged head and loops. -/
def allocate (pool : LockFreeThreadSafePool) (spurious : Nat) :
    Except Fault (Option Nat × LockFreeThreadSafePool) := do
  let (index, tag) := unpack pool.head
  if index = -1 then
    return (none, pool)
  let nextIndex ← pool.nextFreeAt index
  let newHead := pack nextIndex (tag + 1)
  match spurious with
  | 0 => return (some index.toNat, { pool with head := newHead })
  | spurious + 1 => pool.allocate spurious

/-- The counterpart of `allocate`. A message that is not null is the address of
the slot `index`. -/
def deallocate (pool : LockFreeThreadSafePool) (msg : Option Nat) (spurious : Nat) :
    Except Fault LockFreeThreadSafePool :=
  match msg with
  | none => .error .deallocateNullptr
  | some index =>
      let (headIndex, tag) := unpack pool.head
      if index < pool.poolMsgCount then
        let pool := pool.setNextFree index headIndex
        let newHead := pack (BitVec.ofNat 64 index) (tag + 1)
        match spurious with
        | 0 => .ok { pool with head := newHead }
        | spurious + 1 => pool.deallocate (some index) spurious
      else .error (.outOfRange (BitVec.ofNat 64 index))

/-! ## Packed words -/

@[simp] theorem unpack_index_toNat (packed : Word64) :
    (unpack packed).1.toNat = packed.toNat % 2 ^ 32 := by
  have mask : INDEX_MASK.toNat = 2 ^ 32 - 1 := rfl
  rw [unpack, BitVec.toNat_and, mask, Nat.and_two_pow_sub_one_eq_mod]

theorem unpack_index_lt (packed : Word64) : (unpack packed).1.toNat < 2 ^ 32 := by
  rw [unpack_index_toNat]
  exact Nat.mod_lt _ (by decide)

/-- The end test of `allocate` compares a 32-bit value with a 64-bit `-1`, so
it never succeeds. -/
theorem unpack_index_ne_neg_one (packed : Word64) : (unpack packed).1 ≠ -1 := by
  intro equal
  have bound := unpack_index_lt packed
  rw [equal] at bound
  exact absurd bound (by decide)

/-- The `nullptr` branch of `allocate` is dead code. -/
theorem allocate_eq (pool : LockFreeThreadSafePool) (spurious : Nat) :
    pool.allocate spurious =
      match pool.nextFreeAt (unpack pool.head).1 with
      | .error fault => .error fault
      | .ok nextIndex =>
          match spurious with
          | 0 => .ok (some (unpack pool.head).1.toNat,
              { pool with head := pack nextIndex ((unpack pool.head).2 + 1) })
          | spurious + 1 => pool.allocate spurious := by
  rw [allocate]
  simp only [if_neg (unpack_index_ne_neg_one pool.head)]
  cases pool.nextFreeAt (unpack pool.head).1 <;> cases spurious <;> rfl

theorem pack_toNat (index : Word64) (tag : Word32) :
    (pack index tag).toNat = tag.toNat * 2 ^ 32 + index.toNat % 2 ^ 32 := by
  have tagBound := tag.isLt
  have indexBound : index.toNat % 2 ^ 32 < 2 ^ 32 := Nat.mod_lt _ (by decide)
  simp only [pack, TAG_SHIFT, BitVec.toNat_or, BitVec.toNat_shiftLeft,
    BitVec.toNat_setWidth, Nat.shiftLeft_eq]
  rw [Nat.mod_eq_of_lt (by omega : tag.toNat < 2 ^ 64),
    Nat.mod_eq_of_lt (by omega : tag.toNat * 2 ^ 32 < 2 ^ 64),
    Nat.mod_eq_of_lt (by omega : index.toNat % 2 ^ 32 < 2 ^ 64),
    Nat.mul_comm, ← Nat.two_pow_add_eq_or_of_lt indexBound]

@[simp] theorem unpack_tag_pack (index : Word64) (tag : Word32) :
    (unpack (pack index tag)).2 = tag := by
  apply BitVec.eq_of_toNat_eq
  have tagBound := tag.isLt
  simp only [unpack, TAG_SHIFT, BitVec.toNat_setWidth, BitVec.toNat_ushiftRight,
    pack_toNat, Nat.shiftRight_eq_div_pow]
  omega

@[simp] theorem follow_pack (index : Word64) (tag : Word32) :
    follow (pack index tag) = follow index := by
  have residue : (pack index tag).toNat % 2 ^ 32 = index.toNat % 2 ^ 32 := by
    rw [pack_toNat]
    omega
  rw [follow, residue, follow]

@[simp] theorem follow_unpack_index (packed : Word64) :
    follow (unpack packed).1 = follow packed := by
  simp [follow]

theorem follow_ofNat (index : Nat) (bound : index < 2 ^ 32 - 1) :
    follow (BitVec.ofNat 64 index) = some index := by
  have residue : (BitVec.ofNat 64 index).toNat % 2 ^ 32 = index := by
    rw [Word64.ofNat_toNat index (by omega)]
    omega
  simp only [follow, residue]
  rw [if_neg (by omega)]

theorem follow_eq_some_iff (word : Word64) (index : Nat) :
    follow word = some index ↔
      word.toNat % 2 ^ 32 = index ∧ index ≠ 2 ^ 32 - 1 := by
  unfold follow
  split <;> simp <;> omega

theorem follow_pred (index : Nat) (bound : index < 2 ^ 32 - 1) :
    follow (BitVec.ofNat 64 index - 1) =
      if index = 0 then none else some (index - 1) := by
  cases index with
  | zero => rfl
  | succ index =>
      have pred : BitVec.ofNat 64 (index + 1) - 1 = BitVec.ofNat 64 index := by
        rw [← Word64.ofNat_add_one, BitVec.add_sub_cancel]
      rw [pred, follow_ofNat index (by omega)]
      simp

/-! ## The free list -/

def next (pool : LockFreeThreadSafePool) (index : Nat) : Option Nat :=
  follow (pool.nextFree index)

/-- The slots on the list that starts at the packed head, first to last. -/
def FreeList (pool : LockFreeThreadSafePool) (free : List Nat) : Prop :=
  Chain pool.next (follow pool.head) free

theorem FreeList.setNextFree {pool : LockFreeThreadSafePool} {free : List Nat}
    {slot : Nat} {value : Word64} (list : pool.FreeList free) (fresh : slot ∉ free) :
    (pool.setNextFree slot value).FreeList free := by
  refine Chain.congr list ?_
  intro visited member
  have different : visited ≠ slot := fun equal => fresh (equal ▸ member)
  simp only [next, setNextFree_nextFree_of_ne different]

theorem FreeList.publish {pool : LockFreeThreadSafePool} {free : List Nat}
    {slot : Nat} {tag : Word32} (list : pool.FreeList free)
    (bound : slot < 2 ^ 32 - 1)
    (linked : pool.nextFree slot = (unpack pool.head).1) :
    FreeList { pool with head := pack (BitVec.ofNat 64 slot) tag } (slot :: free) := by
  change Chain pool.next (follow (pack _ _)) (slot :: free)
  rw [follow_pack, follow_ofNat slot bound]
  refine Chain.push list ?_ fun _ _ => rfl
  rw [next, linked, follow_unpack_index]

theorem FreeList.unlink {pool : LockFreeThreadSafePool} {free : List Nat}
    {slot : Nat} {tag : Word32} (list : pool.FreeList (slot :: free)) :
    FreeList { pool with head := pack (pool.nextFree slot) tag } free := by
  change Chain pool.next (follow (pack _ _)) free
  rw [follow_pack]
  exact list.2

theorem FreeList.head_eq {pool : LockFreeThreadSafePool} {free : List Nat}
    {slot : Nat} (list : pool.FreeList (slot :: free)) :
    (unpack pool.head).1.toNat = slot := by
  rw [unpack_index_toNat]
  exact ((follow_eq_some_iff _ _).mp list.1).1

theorem FreeList.of_index_lt {pool : LockFreeThreadSafePool} {free : List Nat}
    (list : pool.FreeList free) (inRange : (unpack pool.head).1.toNat < 2 ^ 32 - 1) :
    ∃ rest, free = (unpack pool.head).1.toNat :: rest := by
  cases free with
  | nil =>
      have ended : follow pool.head = none := list
      rw [unpack_index_toNat] at inRange
      rw [follow, if_neg (by omega)] at ended
      cases ended
  | cons slot rest => exact ⟨rest, by rw [list.head_eq]⟩

theorem initial_freeList (poolMsgCount : Nat) (bound : poolMsgCount < 2 ^ 32 - 1) :
    (initial poolMsgCount).FreeList (List.range poolMsgCount).reverse := by
  have below : ∀ count ≤ poolMsgCount, Chain (initial poolMsgCount).next
      (follow (BitVec.ofNat 64 count - 1)) (List.range count).reverse := by
    intro count le
    induction count with
    | zero => rfl
    | succ count induction =>
        rw [List.range_succ, List.reverse_append]
        refine ⟨?_, induction (by omega)⟩
        rw [follow_pred _ (by omega)]
        simp
  simpa [FreeList, initial] using below poolMsgCount le_rfl

end LockFreeThreadSafePool

end FeederNet.MemoryPool
