import Mathlib.Data.List.Perm.Basic
import Mathlib.Data.List.Range

/-! # Stacks of slots

An allocator that hands out the slot freed last. A pool behaves like the stack of its free
slots once each of its two calls does.
-/

namespace FeederNet.MemoryPool

/-- A call of the thread that uses a pool. A slot to be freed is named by its place among
those that the thread holds, the newest first. -/
inductive Call
  | allocate
  | deallocate (place : Nat)
  deriving DecidableEq, Repr

/-- Only held slots are freed, and no more than `slots` of them are held at any time. -/
def Permitted (slots : Nat) : Nat → List Call → Prop
  | _, [] => True
  | held, .allocate :: calls => held < slots ∧ Permitted slots (held + 1) calls
  | held, .deallocate place :: calls => place < held ∧ Permitted slots (held - 1) calls

structure Grant where
  slot : Nat
  held : List Nat
  deriving DecidableEq, Repr

/-- The two calls of an allocator. The number is that of the failed exchanges during the
call. A call that reaches an error branch gives nothing. -/
structure Allocator (Pool : Type) where
  allocate : Pool → Nat → Option (Nat × Pool)
  deallocate : Pool → Nat → Nat → Option Pool

namespace Allocator

variable {Pool : Type}

/-- The slots that are handed out in a sequence of calls. The exchanges that fail in a call
are looked up under the number of calls behind it. -/
def grants (allocator : Allocator Pool) (failures : Nat → Nat) (pool : Pool)
    (held : List Nat) : List Call → Option (List Grant)
  | [] => some []
  | .allocate :: calls => do
      let (slot, pool) ← allocator.allocate pool (failures calls.length)
      let rest ← allocator.grants failures pool (slot :: held) calls
      return ⟨slot, held⟩ :: rest
  | .deallocate place :: calls => do
      let slot ← held[place]?
      let pool ← allocator.deallocate pool slot (failures calls.length)
      allocator.grants failures pool (held.erase slot) calls

end Allocator

namespace SlotStack

/-- The stack of the free slots hands out its top, and a freed slot becomes the top. -/
def grants (free held : List Nat) : List Call → List Grant
  | [] => []
  | .allocate :: calls =>
      match free with
      | [] => []
      | slot :: free => ⟨slot, held⟩ :: grants free (slot :: held) calls
  | .deallocate place :: calls =>
      match held[place]? with
      | none => []
      | some slot => grants (slot :: free) (held.erase slot) calls

def Split (slots : Nat) (free held : List Nat) : Prop :=
  (free ++ held).Perm (List.range slots)

variable {slots slot : Nat} {free held : List Nat} {calls : List Call}

theorem Split.initial (slots : Nat) : Split slots (List.range slots).reverse [] := by
  rw [Split, List.append_nil]
  exact List.reverse_perm _

theorem Split.lengths (split : Split slots free held) : free.length + held.length = slots := by
  have lengths := split.length_eq
  rwa [List.length_append, List.length_range] at lengths

theorem Split.nodup (split : Split slots free held) : (free ++ held).Nodup :=
  split.nodup_iff.mpr List.nodup_range

theorem Split.lt (split : Split slots free held) (member : slot ∈ free ++ held) :
    slot < slots :=
  List.mem_range.mp (split.mem_iff.mp member)

theorem Split.notMem_free (split : Split slots free held) (member : slot ∈ held) :
    slot ∉ free := fun isFree =>
  (List.nodup_append.mp split.nodup).2.2 slot isFree slot member rfl

theorem Split.notMem_held (split : Split slots (slot :: free) held) : slot ∉ held :=
  fun member => split.notMem_free member List.mem_cons_self

theorem Split.allocate (split : Split slots (slot :: free) held) :
    Split slots free (slot :: held) :=
  List.perm_middle.trans split

theorem Split.deallocate (split : Split slots free held) (member : slot ∈ held) :
    Split slots (slot :: free) (held.erase slot) :=
  calc
    (slot :: free ++ held.erase slot).Perm (free ++ slot :: held.erase slot) :=
      List.perm_middle.symm
    _ |>.Perm (free ++ held) := (List.perm_cons_erase member).symm.append_left free
    _ |>.Perm (List.range slots) := split

theorem Split.room (split : Split slots free held) (member : slot ∈ held) :
    free.length < slots := by
  have lengths := split.lengths
  have positive := List.length_pos_of_mem member
  omega

theorem Split.exists_top (split : Split slots free held) (room : held.length < slots) :
    ∃ slot rest, free = slot :: rest := by
  apply List.exists_cons_of_ne_nil
  rintro rfl
  have lengths := split.lengths
  rw [List.length_nil] at lengths
  omega

theorem notMem_of_grants (split : Split slots free held)
    (permitted : Permitted slots held.length calls) :
    ∀ grant ∈ grants free held calls, grant.slot ∉ grant.held := by
  induction calls generalizing free held with
  | nil => exact nofun
  | cons call calls induction =>
      cases call with
      | allocate =>
          rcases split.exists_top permitted.1 with ⟨slot, rest, rfl⟩
          rw [grants, List.forall_mem_cons]
          exact ⟨split.notMem_held, induction split.allocate permitted.2⟩
      | deallocate place =>
          have found := List.getElem?_eq_getElem permitted.1
          have member := List.mem_of_getElem? found
          rw [grants, found]
          apply induction (split.deallocate member)
          rw [List.length_erase_of_mem member]
          exact permitted.2

end SlotStack

open SlotStack

variable {Pool : Type}

/-- Each call of the allocator does to the pool what the stack of its free slots does. -/
structure ServesAsStack (slots : Nat) (allocator : Allocator Pool)
    (Holds : Pool → List Nat → List Nat → Prop) : Prop where
  allocate : ∀ {pool slot free held}, Split slots (slot :: free) held →
    Holds pool (slot :: free) held → ∀ failures, ∃ next,
      allocator.allocate pool failures = some (slot, next) ∧ Holds next free (slot :: held)
  deallocate : ∀ {pool slot free held}, Split slots free held → slot ∈ held →
    Holds pool free held → ∀ failures, ∃ next,
      allocator.deallocate pool slot failures = some next ∧
        Holds next (slot :: free) (held.erase slot)

/-- Such an allocator hands out the slots of the stack, in every sequence of calls. -/
theorem ServesAsStack.grants_eq {slots : Nat} {allocator : Allocator Pool}
    {Holds : Pool → List Nat → List Nat → Prop} (serves : ServesAsStack slots allocator Holds)
    (failures : Nat → Nat) {pool : Pool} {free held : List Nat} {calls : List Call}
    (split : Split slots free held) (holds : Holds pool free held)
    (permitted : Permitted slots held.length calls) :
    allocator.grants failures pool held calls = some (grants free held calls) := by
  induction calls generalizing pool free held with
  | nil => rfl
  | cons call calls induction =>
      cases call with
      | allocate =>
          rcases split.exists_top permitted.1 with ⟨slot, rest, rfl⟩
          rcases serves.allocate split holds (failures calls.length) with
            ⟨next, allocated, holds⟩
          have later := induction split.allocate holds permitted.2
          simp only [Allocator.grants, allocated, later, grants, Option.bind_eq_bind,
            Option.bind_some, Option.pure_def]
      | deallocate place =>
          have inRange : place < held.length := permitted.1
          have found := List.getElem?_eq_getElem inRange
          have member := List.mem_of_getElem? found
          rcases serves.deallocate split member holds (failures calls.length) with
            ⟨next, deallocated, holds⟩
          have counted : Permitted slots (held.erase held[place]).length calls := by
            rw [List.length_erase_of_mem member]
            exact permitted.2
          have later := induction (split.deallocate member) holds counted
          simp only [Allocator.grants, found, deallocated, later, grants,
            Option.bind_eq_bind, Option.bind_some]

end FeederNet.MemoryPool
