import FeederNet.Foundation.Ownership
import FeederNet.Foundation.TransitionSystem
import FeederNet.MemoryPool.LockFreeThreadSafePool.Code
import Mathlib.Algebra.Order.BigOperators.Group.Finset

/-! # LockFreeThreadSafePool shared by threads

One step is one load, compare-exchange or `nextFree_` access of one thread. The
tag makes an unchanged head word mean an unchanged list, as long as fewer than
`2 ^ 32` exchanges fit between a thread's load and its own exchange.
-/

open scoped BigOperators

namespace FeederNet.MemoryPool.LockFreeThreadSafePool.Interleaving

/-- Where a thread stands between two of its atomic steps. `readAt` is the
number of successful exchanges when the thread last read `head_`. -/
inductive Phase
  | idle
  | allocating
  | allocLoaded (oldHead : Word64) (readAt : Nat)
  | allocRead (oldHead nextIndex : Word64) (readAt : Nat)
  | deallocating (slot : Nat)
  | deallocLoaded (slot : Nat) (oldHead : Word64) (readAt : Nat)
  | deallocWritten (slot : Nat) (oldHead : Word64) (readAt : Nat)
  | faulted
  deriving DecidableEq, Repr

def Phase.inAllocate : Phase → Bool
  | .allocating | .allocLoaded _ _ | .allocRead _ _ _ => true
  | _ => false

inductive Action
  | callAllocate
  | callDeallocate (slot : Nat)
  | loadHead
  | readNext
  | writeNext
  | exchange
  | exchangeFailed
  deriving DecidableEq, Repr

structure State (Thread : Type) where
  pool : LockFreeThreadSafePool
  exchanges : Nat
  phase : Thread → Phase
  holds : Thread → List Nat

namespace State

variable {Thread : Type} [DecidableEq Thread]

def initial (poolMsgCount : Nat) : State Thread where
  pool := LockFreeThreadSafePool.initial poolMsgCount
  exchanges := 0
  phase _ := .idle
  holds _ := []

def goto (state : State Thread) (thread : Thread) (phase : Phase) : State Thread :=
  { state with phase := Function.update state.phase thread phase }

def publish (state : State Thread) (thread : Thread) (newHead : Word64)
    (held : List Nat) : State Thread where
  pool := { state.pool with head := newHead }
  exchanges := state.exchanges + 1
  phase := Function.update state.phase thread .idle
  holds := Function.update state.holds thread held

/-- `unpack` and the end test that follow every read of `head_` in
`allocate`. -/
def allocateFrom (state : State Thread) : Phase :=
  if (unpack state.pool.head).1 = -1 then .idle
  else .allocLoaded state.pool.head state.exchanges

def demandOf (state : State Thread) (thread : Thread) : Nat :=
  (state.holds thread).length + (state.phase thread).inAllocate.toNat

def demand [Fintype Thread] (state : State Thread) : Nat :=
  ∑ thread, state.demandOf thread

end State

section System

variable {Thread : Type} [DecidableEq Thread]

def step (state : State Thread) : Thread × Action → Option (State Thread)
  | (thread, .callAllocate) =>
      match state.phase thread with
      | .idle => some (state.goto thread .allocating)
      | _ => none
  | (thread, .callDeallocate slot) =>
      match state.phase thread with
      | .idle =>
          if slot ∈ state.holds thread then
            some (state.goto thread (.deallocating slot))
          else none
      | _ => none
  | (thread, .loadHead) =>
      match state.phase thread with
      | .allocating => some (state.goto thread state.allocateFrom)
      | .deallocating slot =>
          some (state.goto thread
            (.deallocLoaded slot state.pool.head state.exchanges))
      | _ => none
  | (thread, .readNext) =>
      match state.phase thread with
      | .allocLoaded oldHead readAt =>
          match state.pool.nextFreeAt (unpack oldHead).1 with
          | .ok nextIndex =>
              some (state.goto thread (.allocRead oldHead nextIndex readAt))
          | .error _ => some (state.goto thread .faulted)
      | _ => none
  | (thread, .writeNext) =>
      match state.phase thread with
      | .deallocLoaded slot oldHead readAt =>
          some ({ state with
            pool := state.pool.setNextFree slot (unpack oldHead).1 }.goto thread
              (.deallocWritten slot oldHead readAt))
      | _ => none
  | (thread, .exchange) =>
      match state.phase thread with
      | .allocRead oldHead nextIndex _ =>
          if state.pool.head = oldHead then
            some (state.publish thread
              (pack nextIndex ((unpack oldHead).2 + 1))
              ((unpack oldHead).1.toNat :: state.holds thread))
          else none
      | .deallocWritten slot oldHead _ =>
          if state.pool.head = oldHead then
            some (state.publish thread
              (pack (BitVec.ofNat 64 slot) ((unpack oldHead).2 + 1))
              ((state.holds thread).erase slot))
          else none
      | _ => none
  | (thread, .exchangeFailed) =>
      match state.phase thread with
      | .allocRead _ _ _ => some (state.goto thread state.allocateFrom)
      | .deallocWritten slot _ _ =>
          some (state.goto thread
            (.deallocLoaded slot state.pool.head state.exchanges))
      | _ => none

@[reducible] def system (Thread : Type) [DecidableEq Thread] (poolMsgCount : Nat) :
    TransitionSystem (State Thread) (Thread × Action) :=
  .ofStep (State.initial poolMsgCount) step

inductive Step : State Thread → Thread × Action → State Thread → Prop
  | callAllocate {state} (thread) :
      state.phase thread = .idle →
      Step state (thread, .callAllocate) (state.goto thread .allocating)
  | callDeallocate {state} (thread) (slot) :
      state.phase thread = .idle → slot ∈ state.holds thread →
      Step state (thread, .callDeallocate slot)
        (state.goto thread (.deallocating slot))
  | allocLoad {state} (thread) :
      state.phase thread = .allocating →
      Step state (thread, .loadHead) (state.goto thread state.allocateFrom)
  | deallocLoad {state} (thread) {slot} :
      state.phase thread = .deallocating slot →
      Step state (thread, .loadHead)
        (state.goto thread (.deallocLoaded slot state.pool.head state.exchanges))
  | readNext {state} (thread) {oldHead readAt nextIndex} :
      state.phase thread = .allocLoaded oldHead readAt →
      state.pool.nextFreeAt (unpack oldHead).1 = .ok nextIndex →
      Step state (thread, .readNext)
        (state.goto thread (.allocRead oldHead nextIndex readAt))
  | readOutside {state} (thread) {oldHead readAt fault} :
      state.phase thread = .allocLoaded oldHead readAt →
      state.pool.nextFreeAt (unpack oldHead).1 = .error fault →
      Step state (thread, .readNext) (state.goto thread .faulted)
  | writeNext {state} (thread) {slot oldHead readAt} :
      state.phase thread = .deallocLoaded slot oldHead readAt →
      Step state (thread, .writeNext)
        ({ state with
            pool := state.pool.setNextFree slot (unpack oldHead).1 }.goto thread
          (.deallocWritten slot oldHead readAt))
  | allocExchange {state} (thread) {oldHead nextIndex readAt} :
      state.phase thread = .allocRead oldHead nextIndex readAt →
      state.pool.head = oldHead →
      Step state (thread, .exchange)
        (state.publish thread (pack nextIndex ((unpack oldHead).2 + 1))
          ((unpack oldHead).1.toNat :: state.holds thread))
  | deallocExchange {state} (thread) {slot oldHead readAt} :
      state.phase thread = .deallocWritten slot oldHead readAt →
      state.pool.head = oldHead →
      Step state (thread, .exchange)
        (state.publish thread
          (pack (BitVec.ofNat 64 slot) ((unpack oldHead).2 + 1))
          ((state.holds thread).erase slot))
  | allocRetry {state} (thread) {oldHead nextIndex readAt} :
      state.phase thread = .allocRead oldHead nextIndex readAt →
      Step state (thread, .exchangeFailed) (state.goto thread state.allocateFrom)
  | deallocRetry {state} (thread) {slot oldHead readAt} :
      state.phase thread = .deallocWritten slot oldHead readAt →
      Step state (thread, .exchangeFailed)
        (state.goto thread (.deallocLoaded slot state.pool.head state.exchanges))

theorem Step.of_step {state next : State Thread} {event : Thread × Action}
    (stepped : step state event = some next) : Step state event next := by
  unfold step at stepped
  split at stepped <;> split at stepped
  all_goals first
    | cases stepped; constructor <;> assumption
    | split at stepped <;> cases stepped <;> constructor <;> assumption
    | cases stepped

/-- No more slots are asked for than the pool has, and the tag has not gone all
the way round since the exchanging thread read the head. -/
def Provided [Fintype Thread] (poolMsgCount : Nat) (state : State Thread) :
    Thread × Action → Prop
  | (_, .callAllocate) => state.demand < poolMsgCount
  | (thread, .exchange) =>
      match state.phase thread with
      | .allocRead _ _ readAt | .deallocWritten _ _ readAt =>
          state.exchanges - readAt < 2 ^ 32
      | _ => True
  | _ => True

instance [Fintype Thread] (poolMsgCount : Nat) (state : State Thread)
    (event : Thread × Action) : Decidable (Provided poolMsgCount state event) := by
  unfold Provided
  split
  · infer_instance
  · split <;> infer_instance
  · infer_instance

end System

/-! ## The invariant -/

/-- A head word read by a thread. While no exchange has succeeded since, it is
still the head. -/
structure Snapshot (pool : LockFreeThreadSafePool) (exchanges : Nat)
    (oldHead : Word64) (readAt : Nat) : Prop where
  past : readAt ≤ exchanges
  tag : (unpack oldHead).2 = BitVec.ofNat 32 readAt
  current : readAt = exchanges → oldHead = pool.head

def PhaseValid (pool : LockFreeThreadSafePool) (exchanges : Nat)
    (held : List Nat) : Phase → Prop
  | .idle | .allocating => True
  | .allocLoaded oldHead readAt =>
      Snapshot pool exchanges oldHead readAt ∧
        (unpack oldHead).1.toNat < pool.poolMsgCount
  | .allocRead oldHead nextIndex readAt =>
      Snapshot pool exchanges oldHead readAt ∧
        (unpack oldHead).1.toNat < pool.poolMsgCount ∧
        (readAt = exchanges → nextIndex = pool.nextFree (unpack oldHead).1.toNat)
  | .deallocating slot => slot ∈ held
  | .deallocLoaded slot oldHead readAt =>
      slot ∈ held ∧ Snapshot pool exchanges oldHead readAt
  | .deallocWritten slot oldHead readAt =>
      slot ∈ held ∧ Snapshot pool exchanges oldHead readAt ∧
        pool.nextFree slot = (unpack oldHead).1
  | .faulted => False

structure Inv {Thread : Type} [Fintype Thread] (poolMsgCount : Nat)
    (state : State Thread) (free : List Nat) : Prop where
  count : state.pool.poolMsgCount = poolMsgCount
  tag : (unpack state.pool.head).2 = BitVec.ofNat 32 state.exchanges
  list : state.pool.FreeList free
  split : Partition state.holds free (Multiset.range poolMsgCount)
  demand : state.demand ≤ poolMsgCount
  phase : ∀ thread, PhaseValid state.pool state.exchanges (state.holds thread)
    (state.phase thread)

/-! ## Facts about one state -/

section Facts

variable {pool : LockFreeThreadSafePool} {exchanges : Nat}

theorem Snapshot.now (tag : (unpack pool.head).2 = BitVec.ofNat 32 exchanges) :
    Snapshot pool exchanges pool.head exchanges :=
  ⟨le_rfl, tag, fun _ => rfl⟩

/-- Exchanges leave earlier snapshots valid, because none of them is current
any more. -/
theorem Snapshot.exchanged {oldHead newHead : Word64} {readAt : Nat}
    (snapshot : Snapshot pool exchanges oldHead readAt) :
    Snapshot { pool with head := newHead } (exchanges + 1) oldHead readAt where
  past := snapshot.past.trans (Nat.le_succ _)
  tag := snapshot.tag
  current equal := by
    have past := snapshot.past
    omega

/-- Fewer than `2 ^ 32` exchanges after the read, an equal head word is the
same read. -/
theorem Snapshot.current_of_head_eq {readAt : Nat}
    (tag : (unpack pool.head).2 = BitVec.ofNat 32 exchanges)
    (snapshot : Snapshot pool exchanges pool.head readAt)
    (near : exchanges - readAt < 2 ^ 32) : readAt = exchanges := by
  have past := snapshot.past
  have words : BitVec.ofNat 32 readAt = BitVec.ofNat 32 exchanges :=
    snapshot.tag.symm.trans tag
  have residues : readAt % 2 ^ 32 = exchanges % 2 ^ 32 := by
    simpa using congrArg BitVec.toNat words
  omega

theorem PhaseValid.exchanged {newHead : Word64} {held : List Nat} {phase : Phase}
    (valid : PhaseValid pool exchanges held phase) :
    PhaseValid { pool with head := newHead } (exchanges + 1) held phase := by
  cases phase with
  | idle => trivial
  | allocating => trivial
  | allocLoaded oldHead readAt => exact ⟨valid.1.exchanged, valid.2⟩
  | allocRead oldHead nextIndex readAt =>
      refine ⟨valid.1.exchanged, valid.2.1, ?_⟩
      intro equal
      have past := valid.1.past
      omega
  | deallocating slot => exact valid
  | deallocLoaded slot oldHead readAt => exact ⟨valid.1, valid.2.exchanged⟩
  | deallocWritten slot oldHead readAt =>
      exact ⟨valid.1, valid.2.1.exchanged, valid.2.2⟩
  | faulted => exact valid

/-- A link write to a slot off the list disturbs no thread that does not hold
the slot. -/
theorem PhaseValid.setNextFree {held free : List Nat} {phase : Phase} {slot : Nat}
    {value : Word64} (list : pool.FreeList free) (fresh : slot ∉ free)
    (bound : pool.poolMsgCount < 2 ^ 32 - 1) (other : slot ∉ held)
    (valid : PhaseValid pool exchanges held phase) :
    PhaseValid (pool.setNextFree slot value) exchanges held phase := by
  have snapshot : ∀ {oldHead readAt}, Snapshot pool exchanges oldHead readAt →
      Snapshot (pool.setNextFree slot value) exchanges oldHead readAt :=
    fun old => ⟨old.past, old.tag, old.current⟩
  cases phase with
  | idle => trivial
  | allocating => trivial
  | allocLoaded oldHead readAt => exact ⟨snapshot valid.1, valid.2⟩
  | allocRead oldHead nextIndex readAt =>
      refine ⟨snapshot valid.1, valid.2.1, ?_⟩
      intro now
      -- The head's index is on the list, so it is not the slot written.
      have different : (unpack oldHead).1.toNat ≠ slot := by
        intro equal
        have inRange := valid.2.1
        rw [valid.1.current now] at equal inRange
        rcases list.of_index_lt (by omega) with ⟨rest, start⟩
        exact fresh (by simp [start, ← equal])
      rw [setNextFree_nextFree_of_ne different]
      exact valid.2.2 now
  | deallocating _ => exact valid
  | deallocLoaded _ oldHead readAt => exact ⟨valid.1, snapshot valid.2⟩
  | deallocWritten written oldHead readAt =>
      have different : written ≠ slot := fun equal => other (equal ▸ valid.1)
      refine ⟨valid.1, snapshot valid.2.1, ?_⟩
      rw [setNextFree_nextFree_of_ne different]
      exact valid.2.2
  | faulted => exact valid

end Facts

section Invariance

variable {Thread : Type} [DecidableEq Thread] [Fintype Thread]
  {poolMsgCount : Nat} {state : State Thread} {free : List Nat}

omit [DecidableEq Thread] in
theorem State.demand_le_of_demandOf_le (left right : State Thread)
    (le : ∀ thread, left.demandOf thread ≤ right.demandOf thread) :
    left.demand ≤ right.demand :=
  Finset.sum_le_sum fun thread _ => le thread

omit [DecidableEq Thread] in
theorem Inv.lengths (inv : Inv poolMsgCount state free) :
    ∑ thread, (state.holds thread).length + free.length = poolMsgCount := by
  simpa using inv.split.card_eq

omit [DecidableEq Thread] in
/-- While an allocation is in progress some slot is free, so the head carries
the index of a slot. -/
theorem Inv.allocateFrom_valid (inv : Inv poolMsgCount state free)
    {thread : Thread} (allocating : (state.phase thread).inAllocate = true) :
    PhaseValid state.pool state.exchanges (state.holds thread)
      state.allocateFrom := by
  have held : ∑ thread, (state.holds thread).length + 1 ≤ state.demand := by
    have one : (1 : Nat) ≤ ∑ other, (state.phase other).inAllocate.toNat := by
      calc
        1 = (state.phase thread).inAllocate.toNat := by rw [allocating]; rfl
        _ ≤ _ := Finset.single_le_sum
          (f := fun other => (state.phase other).inAllocate.toNat)
          (fun _ _ => Nat.zero_le _) (Finset.mem_univ thread)
    simp only [State.demand, State.demandOf, Finset.sum_add_distrib]
    omega
  have lengths := inv.lengths
  have demand := inv.demand
  rw [State.allocateFrom, if_neg (unpack_index_ne_neg_one _)]
  refine ⟨.now inv.tag, ?_⟩
  cases free with
  | nil => simp at lengths; omega
  | cons slot rest =>
      have member : slot ∈ Multiset.range poolMsgCount :=
        inv.split.mem_stock_of_shared (by simp)
      have index := ((follow_eq_some_iff _ _).mp inv.list.1).1
      rw [unpack_index_toNat, index, inv.count]
      exact Multiset.mem_range.mp member

theorem Inv.goto (inv : Inv poolMsgCount state free) {thread : Thread}
    {phase : Phase}
    (valid : PhaseValid state.pool state.exchanges (state.holds thread) phase)
    (demand : (state.goto thread phase).demand ≤ poolMsgCount) :
    Inv poolMsgCount (state.goto thread phase) free where
  count := inv.count
  tag := inv.tag
  list := inv.list
  split := inv.split
  demand := demand
  phase other := by
    by_cases same : other = thread
    · subst same
      simpa [State.goto] using valid
    · simpa [State.goto, same] using inv.phase other

theorem Inv.goto_of_le (inv : Inv poolMsgCount state free) {thread : Thread}
    {phase : Phase}
    (valid : PhaseValid state.pool state.exchanges (state.holds thread) phase)
    (le : phase.inAllocate.toNat ≤ (state.phase thread).inAllocate.toNat) :
    Inv poolMsgCount (state.goto thread phase) free := by
  refine inv.goto valid ((State.demand_le_of_demandOf_le _ state ?_).trans inv.demand)
  intro other
  by_cases same : other = thread
  · subst same
    simpa [State.demandOf, State.goto] using le
  · simp [State.demandOf, State.goto, same]

theorem State.demand_goto_le (state : State Thread) (thread : Thread) (phase : Phase) :
    (state.goto thread phase).demand ≤ state.demand + 1 := by
  have one : ∑ other, (if other = thread then 1 else 0) = 1 := by simp
  rw [State.demand, State.demand, ← one, ← Finset.sum_add_distrib]
  apply Finset.sum_le_sum
  intro other _
  by_cases same : other = thread
  · have flag := Bool.toNat_le phase.inAllocate
    simp [State.demandOf, State.goto, same]
    omega
  · simp [State.demandOf, State.goto, same]

/-- Writing the link of a held slot keeps everything: the slot is on no list,
and only its holder remembers what it wrote there. -/
theorem Inv.writeNext (bound : poolMsgCount < 2 ^ 32 - 1)
    (inv : Inv poolMsgCount state free) {thread : Thread} {slot : Nat}
    {oldHead : Word64} {readAt : Nat}
    (phase : state.phase thread = .deallocLoaded slot oldHead readAt) :
    Inv poolMsgCount ({ state with
        pool := state.pool.setNextFree slot (unpack oldHead).1 }.goto thread
      (.deallocWritten slot oldHead readAt)) free := by
  have valid : slot ∈ state.holds thread ∧
      Snapshot state.pool state.exchanges oldHead readAt := by
    simpa [phase, PhaseValid] using inv.phase thread
  have fresh : slot ∉ free :=
    inv.split.not_mem_shared_of_owned (Multiset.nodup_range _) valid.1
  refine ⟨inv.count, inv.tag, inv.list.setNextFree fresh, inv.split, ?_, ?_⟩
  · refine (State.demand_le_of_demandOf_le _ state ?_).trans inv.demand
    intro other
    by_cases same : other = thread
    · subst same
      simp [State.demandOf, State.goto, Phase.inAllocate]
    · simp [State.demandOf, State.goto, same]
  · intro other
    by_cases same : other = thread
    · subst same
      have snapshot := valid.2
      simp only [State.goto, Function.update_self]
      exact ⟨valid.1, ⟨snapshot.past, snapshot.tag, snapshot.current⟩,
        by simp [setNextFree]⟩
    · have elsewhere : slot ∉ state.holds other := fun member =>
        same (inv.split.owner_unique (Multiset.nodup_range _) member valid.1)
      simpa [State.goto, same] using (inv.phase other).setNextFree inv.list fresh
        (by rw [inv.count]; exact bound) elsewhere

theorem Inv.publish (inv : Inv poolMsgCount state free) {thread : Thread}
    {newHead : Word64} {held free' : List Nat}
    (tag : (unpack newHead).2 = (unpack state.pool.head).2 + 1)
    (list : FreeList { state.pool with head := newHead } free')
    (moved : (held : Multiset Nat) + (free' : Multiset Nat) =
      (state.holds thread : Multiset Nat) + (free : Multiset Nat))
    (demand : held.length ≤ state.demandOf thread) :
    Inv poolMsgCount (state.publish thread newHead held) free' where
  count := inv.count
  tag := by
    change (unpack newHead).2 = BitVec.ofNat 32 (state.exchanges + 1)
    rw [tag, inv.tag]
    apply BitVec.eq_of_toNat_eq
    simp
  list := list
  split := (inv.split.update_iff thread held free').mpr moved
  demand := by
    refine (State.demand_le_of_demandOf_le _ state ?_).trans inv.demand
    intro other
    by_cases same : other = thread
    · subst same
      simpa [State.demandOf, State.publish, Phase.inAllocate] using demand
    · simp [State.demandOf, State.publish, same]
  phase other := by
    by_cases same : other = thread
    · subst same
      simp [State.publish, PhaseValid]
    · simpa [State.publish, same] using (inv.phase other).exchanged

omit [DecidableEq Thread] [Fintype Thread] in
theorem PhaseValid.nextFreeAt {thread : Thread} {oldHead : Word64} {readAt : Nat}
    (phase : state.phase thread = .allocLoaded oldHead readAt)
    (valid : PhaseValid state.pool state.exchanges (state.holds thread)
      (state.phase thread)) :
    Snapshot state.pool state.exchanges oldHead readAt ∧
      (unpack oldHead).1.toNat < state.pool.poolMsgCount ∧
        state.pool.nextFreeAt (unpack oldHead).1 =
          .ok (state.pool.nextFree (unpack oldHead).1.toNat) := by
  rw [phase] at valid
  exact ⟨valid.1, valid.2, if_pos valid.2⟩

theorem Step.inv {event : Thread × Action} {next : State Thread}
    (bound : poolMsgCount < 2 ^ 32 - 1) (inv : Inv poolMsgCount state free)
    (provided : Provided poolMsgCount state event)
    (step : Step state event next) : ∃ free', Inv poolMsgCount next free' := by
  cases step with
  | callAllocate thread _ =>
      have more := State.demand_goto_le state thread .allocating
      exact ⟨free, inv.goto trivial (more.trans provided)⟩
  | callDeallocate thread slot _ member =>
      exact ⟨free, inv.goto_of_le member (by simp [Phase.inAllocate])⟩
  | allocLoad thread phase =>
      exact ⟨free, inv.goto_of_le
        (inv.allocateFrom_valid (by rw [phase]; rfl))
        (by rw [phase]; exact Bool.toNat_le _)⟩
  | @deallocLoad thread slot phase =>
      have held : slot ∈ state.holds thread := by
        simpa [phase, PhaseValid] using inv.phase thread
      exact ⟨free, inv.goto_of_le ⟨held, .now inv.tag⟩
        (by simp [Phase.inAllocate])⟩
  | @readNext thread oldHead readAt nextIndex phase read =>
      rcases (inv.phase thread).nextFreeAt phase with ⟨snapshot, inRange, reads⟩
      rw [reads] at read
      cases read
      exact ⟨free, inv.goto_of_le ⟨snapshot, inRange, fun _ => rfl⟩
        (by rw [phase]; exact le_rfl)⟩
  | @readOutside thread oldHead readAt fault phase read =>
      rw [((inv.phase thread).nextFreeAt phase).2.2] at read
      cases read
  | writeNext thread phase => exact ⟨free, inv.writeNext bound phase⟩
  | @allocExchange thread oldHead nextIndex readAt phase atHead =>
      subst atHead
      have valid := inv.phase thread
      rw [phase] at valid
      have near : state.exchanges - readAt < 2 ^ 32 := by
        simpa [Provided, phase] using provided
      have now := valid.1.current_of_head_eq inv.tag near
      have inRange := valid.2.1
      rw [inv.count] at inRange
      rcases inv.list.of_index_lt (by omega) with ⟨rest, start⟩
      have list := inv.list
      rw [start] at list
      rw [valid.2.2 now]
      refine ⟨rest, inv.publish (unpack_tag_pack _ _) list.unlink ?_ ?_⟩
      · rw [start]
        simp only [Multiset.coe_add, Multiset.coe_eq_coe]
        exact List.perm_middle.symm
      · simp [State.demandOf, phase, Phase.inAllocate]
  | @deallocExchange thread slot oldHead readAt phase atHead =>
      subst atHead
      have valid := inv.phase thread
      rw [phase] at valid
      have member : slot ∈ Multiset.range poolMsgCount :=
        inv.split.mem_stock_of_owned valid.1
      have inRange := Multiset.mem_range.mp member
      refine ⟨slot :: free, inv.publish (unpack_tag_pack _ _)
        (inv.list.publish (by omega) valid.2.2) ?_ ?_⟩
      · simp only [Multiset.coe_add, Multiset.coe_eq_coe]
        exact List.perm_middle.trans
          (((List.perm_cons_erase valid.1).symm).append_right free)
      · have shorter := (List.erase_sublist (a := slot) (l := state.holds thread)).length_le
        simp only [State.demandOf]
        omega
  | allocRetry thread phase =>
      exact ⟨free, inv.goto_of_le
        (inv.allocateFrom_valid (by rw [phase]; rfl))
        (by rw [phase]; exact Bool.toNat_le _)⟩
  | @deallocRetry thread slot oldHead readAt phase =>
      have valid := inv.phase thread
      rw [phase] at valid
      exact ⟨free, inv.goto_of_le ⟨valid.1, .now inv.tag⟩
        (by simp [Phase.inAllocate])⟩

omit [DecidableEq Thread] in
theorem inv_initial (bound : poolMsgCount < 2 ^ 32 - 1) :
    Inv poolMsgCount (State.initial poolMsgCount : State Thread)
      (List.range poolMsgCount).reverse where
  count := rfl
  tag := by simp [State.initial, LockFreeThreadSafePool.initial]
  list := initial_freeList poolMsgCount bound
  split := by
    simp [Partition, State.initial, Multiset.range]
  demand := by simp [State.demand, State.demandOf, State.initial, Phase.inAllocate]
  phase _ := trivial

end Invariance

/-! ## What every provided run keeps -/

/-- The slots held by threads and the slots on the free list are the slots of
the pool, each once; the list is finite, visits no slot twice and ends; and no
thread has read outside `nextFree_`. -/
structure Intact {Thread : Type} [Fintype Thread] (poolMsgCount : Nat)
    (state : State Thread) : Prop where
  partition : ∃ free, state.pool.FreeList free ∧ free.Nodup ∧
    Partition state.holds free (Multiset.range poolMsgCount)
  exclusive : ∀ left right slot, slot ∈ state.holds left →
    slot ∈ state.holds right → left = right
  inRange : ∀ thread, state.phase thread ≠ .faulted

theorem Inv.intact {Thread : Type} [Fintype Thread] {poolMsgCount : Nat}
    {state : State Thread} {free : List Nat} (inv : Inv poolMsgCount state free) :
    Intact poolMsgCount state where
  partition := ⟨free, inv.list, Chain.nodup inv.list, inv.split⟩
  exclusive _ _ _ inLeft inRight :=
    inv.split.owner_unique (Multiset.nodup_range _) inLeft inRight
  inRange thread faulted := by
    have valid := inv.phase thread
    rw [faulted] at valid
    exact valid

/-- Every interleaving of any number of threads keeps the pool intact, provided
allocations stay within the pool and the tag does not go round. -/
theorem intact_of_provided {Thread : Type} [DecidableEq Thread] [Fintype Thread]
    (poolMsgCount : Nat) (bound : poolMsgCount < 2 ^ 32 - 1)
    {state : State Thread}
    (reachable : (system Thread poolMsgCount).ReachableUnder
      (Provided poolMsgCount) state) :
    Intact poolMsgCount state := by
  have invariant : ∃ free, Inv poolMsgCount state free := by
    refine reachable.invariant (fun state => ∃ free, Inv poolMsgCount state free) ?_ ?_
    · intro state start
      cases start
      exact ⟨_, inv_initial bound⟩
    · rintro _ _ _ ⟨free, inv⟩ provided stepped
      exact (Step.of_step stepped).inv bound inv provided
  rcases invariant with ⟨free, inv⟩
  exact inv.intact

/-- Two threads compete for a pool of two: the slower one finds the head changed,
reads it again, and gets the other slot while the first slot comes back. -/
def competingAllocates : List (Bool × Action) :=
  [(true, .callAllocate), (false, .callAllocate), (true, .loadHead),
    (false, .loadHead), (true, .readNext), (false, .readNext), (true, .exchange),
    (false, .exchangeFailed), (true, .callDeallocate 1), (true, .loadHead),
    (true, .writeNext), (false, .readNext), (false, .exchange),
    (true, .exchangeFailed), (true, .writeNext), (true, .exchange)]

theorem intact_of_provided_competing :
    ∃ state : State Bool, (state.holds true = [] ∧ state.holds false = [0]) ∧
      Intact 2 state := by
  rcases TransitionSystem.exists_reachable_of_execute (State.initial 2)
    (TransitionSystem.guarded (Provided 2) step) competingAllocates
    (fun state => state.holds true = [] ∧ state.holds false = [0]) (by decide)
    with ⟨state, reachable, holds⟩
  exact ⟨state, holds, intact_of_provided 2 (by decide) reachable.reachableUnder⟩

end FeederNet.MemoryPool.LockFreeThreadSafePool.Interleaving
