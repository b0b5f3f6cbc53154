import FeederNet.Foundation.Ownership
import FeederNet.Foundation.TransitionSystem
import Mathlib.Tactic.Common

/-! # Socket

The objects that own descriptors, and the process's table of descriptors. A descriptor
that is not in an object is in a plain `int`, as the results of `epoll_create1` and of
`accept` are before they are wrapped or closed by hand.
-/

open scoped BigOperators

namespace FeederNet.Socket

/-- The descriptors below `limit` are free, in a plain `int`, or the `sockfd_` of an
object; an object that does not exist has none. `badCloses` counts the calls of `close`
with a descriptor that is not open. -/
structure State (Object : Type*) where
  limit : Nat
  free : List Nat
  plain : List Nat
  sockfd : Object → Option Int
  badCloses : Nat

/-- A failing `socket` yields -1, here `none`. -/
inductive Event (Object : Type*)
  | socket (object : Object) (fd : Option Nat)
  | epollCreate (fd : Nat)
  | wrap (object : Object) (fd : Option Nat)
  | closePlain (fd : Nat)
  | moveConstruct (object other : Object)
  | moveAssign (object other : Object)
  | destroy (object : Object)
  deriving DecidableEq, Repr

variable {Object : Type*}

namespace State

def initial (Object : Type*) (limit : Nat) : State Object where
  limit := limit
  free := List.range limit
  plain := []
  sockfd _ := none
  badCloses := 0

def close (state : State Object) (fd : Nat) : State Object :=
  if fd < state.limit ∧ fd ∉ state.free then { state with free := fd :: state.free }
  else { state with badCloses := state.badCloses + 1 }

/-- `if (sockfd_ >= 0) ::close(sockfd_);` -/
def closeSocket (state : State Object) (sockfd : Int) : State Object :=
  if sockfd ≥ 0 then state.close sockfd.toNat else state

def openFree (state : State Object) (fd : Nat) : State Object :=
  { state with free := state.free.erase fd }

variable [DecidableEq Object]

def set (state : State Object) (object : Object) (sockfd : Option Int) : State Object :=
  { state with sockfd := Function.update state.sockfd object sockfd }

/-- `Socket(Socket&& other)`: `std::exchange(other.sockfd_, -1)`. -/
def moveConstruct (state : State Object) (object other : Object) (sockfd : Int) :
    State Object :=
  (state.set other (some (-1))).set object (some sockfd)

def moveAssign (state : State Object) (object other : Object) (mine sockfd : Int) :
    State Object :=
  if object = other then state
  else ((state.closeSocket mine).set other (some (-1))).set object (some sockfd)

def destroy (state : State Object) (object : Object) (sockfd : Int) : State Object :=
  (state.closeSocket sockfd).set object none

end State

section System

variable [DecidableEq Object]

/-- A constructor needs an object that does not exist, and every other operation objects
that do. The kernel gives out any free descriptor. -/
def step (state : State Object) : Event Object → Option (State Object)
  | .socket object fd =>
      match state.sockfd object, fd with
      | none, none => some (state.set object (some (-1)))
      | none, some fd =>
          if fd ∈ state.free then some ((state.openFree fd).set object (some fd)) else none
      | some _, _ => none
  | .epollCreate fd =>
      if fd ∈ state.free then
        some { state.openFree fd with plain := fd :: state.plain }
      else none
  | .wrap object fd =>
      match state.sockfd object, fd with
      | none, none => some (state.set object (some (-1)))
      | none, some fd =>
          if fd ∈ state.plain then
            some ({ state with plain := state.plain.erase fd }.set object (some fd))
          else none
      | some _, _ => none
  | .closePlain fd =>
      if fd ∈ state.plain then
        some ({ state with plain := state.plain.erase fd }.close fd)
      else none
  | .moveConstruct object other =>
      match state.sockfd object, state.sockfd other with
      | none, some sockfd => some (state.moveConstruct object other sockfd)
      | _, _ => none
  | .moveAssign object other =>
      match state.sockfd object, state.sockfd other with
      | some mine, some sockfd => some (state.moveAssign object other mine sockfd)
      | _, _ => none
  | .destroy object =>
      match state.sockfd object with
      | some sockfd => some (state.destroy object sockfd)
      | none => none

@[reducible] def system (Object : Type*) [DecidableEq Object] (limit : Nat) :
    TransitionSystem (State Object) (Event Object) :=
  .ofStep (.initial Object limit) step

end System

/-! ## Who owns a descriptor -/

def held : Option Int → List Nat
  | some sockfd => if sockfd ≥ 0 then [sockfd.toNat] else []
  | none => []

/-- What each object owns, and under `none` what is in plain `int`s. -/
def owned (state : State Object) : Option Object → List Nat
  | some object => held (state.sockfd object)
  | none => state.plain

/-- Every descriptor is free or has one owner, and `close` has only met open ones. -/
structure Inv [Fintype Object] (limit : Nat) (state : State Object) : Prop where
  table : state.limit = limit
  partition : Partition (owned state) state.free (Multiset.range limit)
  closes : state.badCloses = 0

@[simp] theorem held_fd (fd : Nat) : held (some (fd : Int)) = [fd] := by
  simp [held]

@[simp] theorem held_neg_one : held (some (-1)) = [] := rfl

@[simp] theorem held_none : held none = [] := rfl

section Ownership

variable [DecidableEq Object] [Fintype Object] {limit : Nat} {state : State Object}

omit [Fintype Object] in
theorem owned_set (state : State Object) (object : Object) (sockfd : Option Int) :
    owned (state.set object sockfd) =
      Function.update (owned state) (some object) (held sockfd) := by
  funext owner
  cases owner with
  | none => rw [Function.update_of_ne (by simp)]; rfl
  | some other =>
      by_cases same : other = object
      · subst same
        simp [owned, State.set]
      · rw [Function.update_of_ne (by simpa using same)]
        simp [owned, State.set, Function.update_of_ne same]

omit [Fintype Object] in
theorem owned_plain (state : State Object) (plain : List Nat) :
    owned { state with plain := plain } = Function.update (owned state) none plain := by
  funext owner
  cases owner with
  | none => simp [owned]
  | some object => rw [Function.update_of_ne (by simp)]; rfl

theorem Inv.exchange {next : State Object} (inv : Inv limit state) (owner : Option Object)
    {items : List Nat} (limits : next.limit = state.limit)
    (closes : next.badCloses = state.badCloses)
    (owners : owned next = Function.update (owned state) owner items)
    (same : (items ++ next.free).Perm (owned state owner ++ state.free)) :
    Inv limit next where
  table := limits.trans inv.table
  closes := closes.trans inv.closes
  partition := by
    rw [owners]
    apply (inv.partition.update_iff owner items next.free).mpr
    simpa only [Multiset.coe_add, Multiset.coe_eq_coe] using same

omit [DecidableEq Object] in
theorem Inv.open_of_owned (inv : Inv limit state) (owner : Option Object) {fd : Nat}
    (member : fd ∈ owned state owner) : fd < state.limit ∧ fd ∉ state.free := by
  constructor
  · rw [inv.table]
    exact Multiset.mem_range.mp (inv.partition.mem_stock_of_owned member)
  · exact inv.partition.not_mem_shared_of_owned (Multiset.nodup_range _) member

omit [DecidableEq Object] in
theorem Inv.close_eq (inv : Inv limit state) {owner : Option Object} {fd : Nat}
    (member : fd ∈ owned state owner) :
    state.close fd = { state with free := fd :: state.free } :=
  if_pos (inv.open_of_owned owner member)

theorem Inv.closeSocket (inv : Inv limit state) {object : Object} {sockfd : Int}
    {after : Option Int} (holds : state.sockfd object = some sockfd)
    (empty : held after = []) :
    Inv limit ((state.closeSocket sockfd).set object after) := by
  have mine : owned state (some object) = held (some sockfd) := congrArg held holds
  by_cases opened : sockfd ≥ 0
  · have member : sockfd.toNat ∈ owned state (some object) := by simp [mine, held, opened]
    rw [State.closeSocket, if_pos opened, inv.close_eq member]
    refine inv.exchange (some object) rfl rfl (owned_set _ object after) ?_
    rw [empty, mine, held, if_pos opened]
    exact List.Perm.refl _
  · rw [State.closeSocket, if_neg opened]
    refine inv.exchange (some object) rfl rfl (owned_set _ object after) ?_
    rw [empty, mine, held, if_neg opened]
    exact List.Perm.refl _

theorem Inv.transfer (inv : Inv limit state) {object other : Object} {sockfd : Int}
    (holds : state.sockfd other = some sockfd) (different : object ≠ other)
    (empty : held (state.sockfd object) = []) :
    Inv limit ((state.set other (some (-1))).set object (some sockfd)) := by
  have theirs : owned state (some other) = held (some sockfd) := congrArg held holds
  -- The descriptor passes through the free ones on its way.
  have released : Inv limit { state.set other (some (-1)) with
      free := held (some sockfd) ++ state.free } := by
    refine inv.exchange (some other) rfl rfl (owned_set state other _) ?_
    rw [held_neg_one, theirs]
    exact List.Perm.refl _
  refine released.exchange (some object) rfl rfl (owned_set _ object _) ?_
  have nothing : owned (state.set other (some (-1))) (some object) = [] := by
    rw [owned_set, Function.update_of_ne (by simpa using different)]
    exact empty
  change (held (some sockfd) ++ state.free).Perm
    (owned (state.set other (some (-1))) (some object) ++ (held (some sockfd) ++ state.free))
  rw [nothing, List.nil_append]

theorem Inv.openFree (inv : Inv limit state) (owner : Option Object) {next : State Object}
    {fd : Nat} {items : List Nat} (member : fd ∈ state.free) (limits : next.limit = state.limit)
    (closes : next.badCloses = state.badCloses)
    (owners : owned next = Function.update (owned state) owner items)
    (taken : next.free = state.free.erase fd) (given : items = fd :: owned state owner) :
    Inv limit next := by
  refine inv.exchange owner limits closes owners ?_
  rw [taken, given, List.cons_append]
  exact List.perm_middle.symm.trans
    ((List.perm_cons_erase member).symm.append_left (owned state owner))

theorem Inv.setEmpty (inv : Inv limit state) {object : Object} {sockfd : Option Int}
    (before : held (state.sockfd object) = []) (after : held sockfd = []) :
    Inv limit (state.set object sockfd) := by
  refine inv.exchange (some object) rfl rfl (owned_set state object sockfd) ?_
  rw [after, owned, before]
  exact List.Perm.refl _

theorem Inv.releasePlain (inv : Inv limit state) {fd : Nat} (member : fd ∈ state.plain) :
    Inv limit { state with plain := state.plain.erase fd, free := fd :: state.free } := by
  refine inv.exchange none rfl rfl (owned_plain _ (state.plain.erase fd)) ?_
  exact List.perm_middle.trans ((List.perm_cons_erase member).symm.append_right state.free)

omit [Fintype Object] in
theorem set_set_set (state : State Object) (object other : Object)
    (first second third : Option Int) :
    ((state.set object first).set other second).set object third =
      (state.set other second).set object third := by
  simp only [State.set]
  congr 1
  funext someone
  by_cases same : someone = object
  · subst same
    simp
  · rw [Function.update_of_ne same, Function.update_of_ne same]
    by_cases another : someone = other
    · subst another
      simp
    · rw [Function.update_of_ne another, Function.update_of_ne another,
        Function.update_of_ne same]

omit [DecidableEq Object] [Fintype Object] in
@[simp] theorem sockfd_closeSocket (state : State Object) (sockfd : Int) :
    (state.closeSocket sockfd).sockfd = state.sockfd := by
  unfold State.closeSocket State.close
  split
  · split <;> rfl
  · rfl

/-- The old descriptor is closed before the other object's is taken over. -/
theorem Inv.moveAssign (inv : Inv limit state) {object other : Object} {mine sockfd : Int}
    (holds : state.sockfd object = some mine) (theirs : state.sockfd other = some sockfd) :
    Inv limit (state.moveAssign object other mine sockfd) := by
  unfold State.moveAssign
  split
  · exact inv
  · rename_i different
    have closed := inv.closeSocket holds held_neg_one
    have kept : ((state.closeSocket mine).set object (some (-1))).sockfd other =
        some sockfd := by
      rw [State.set, sockfd_closeSocket, ← theirs]
      exact Function.update_of_ne (Ne.symm different) _ _
    have empty : held (((state.closeSocket mine).set object (some (-1))).sockfd object) =
        [] := by simp [State.set]
    have moved := closed.transfer kept different empty
    rwa [set_set_set] at moved

theorem Inv.step {event : Event Object} {next : State Object} (inv : Inv limit state)
    (stepped : step state event = some next) : Inv limit next := by
  cases event with
  | socket object fd =>
      cases exists? : state.sockfd object with
      | some sockfd => simp [Socket.step, exists?] at stepped
      | none =>
          cases fd with
          | none =>
              simp only [Socket.step, exists?, Option.some.injEq] at stepped
              subst stepped
              exact inv.setEmpty (by rw [exists?]; rfl) rfl
          | some fd =>
              simp only [Socket.step, exists?, Option.ite_none_right_eq_some,
                Option.some.injEq] at stepped
              rcases stepped with ⟨member, rfl⟩
              refine inv.openFree (some object) member rfl rfl
                (owned_set _ object _) rfl ?_
              rw [held_fd, owned, exists?, held_none]
  | epollCreate fd =>
      simp only [Socket.step, Option.ite_none_right_eq_some, Option.some.injEq] at stepped
      rcases stepped with ⟨member, rfl⟩
      exact inv.openFree none member rfl rfl (owned_plain _ _) rfl rfl
  | wrap object fd =>
      cases exists? : state.sockfd object with
      | some sockfd => simp [Socket.step, exists?] at stepped
      | none =>
          cases fd with
          | none =>
              simp only [Socket.step, exists?, Option.some.injEq] at stepped
              subst stepped
              exact inv.setEmpty (by rw [exists?]; rfl) rfl
          | some fd =>
              simp only [Socket.step, exists?, Option.ite_none_right_eq_some,
                Option.some.injEq] at stepped
              rcases stepped with ⟨member, rfl⟩
              refine (inv.releasePlain member).exchange (some object) rfl rfl
                (owned_set { state with plain := state.plain.erase fd } object _) ?_
              rw [held_fd, owned, exists?, held_none]
              exact List.Perm.refl _
  | closePlain fd =>
      simp only [Socket.step, Option.ite_none_right_eq_some, Option.some.injEq] at stepped
      rcases stepped with ⟨member, rfl⟩
      have opened := inv.open_of_owned none member
      rw [State.close, if_pos opened]
      exact inv.releasePlain member
  | moveConstruct object other =>
      simp only [Socket.step] at stepped
      split at stepped
      · rename_i sockfd fresh holds
        cases stepped
        refine inv.transfer holds ?_ (by rw [fresh]; rfl)
        rintro rfl
        rw [fresh] at holds
        cases holds
      · cases stepped
  | moveAssign object other =>
      simp only [Socket.step] at stepped
      split at stepped
      · rename_i mine sockfd holds theirs
        cases stepped
        exact inv.moveAssign holds theirs
      · cases stepped
  | destroy object =>
      simp only [Socket.step] at stepped
      split at stepped
      · rename_i sockfd holds
        cases stepped
        exact inv.closeSocket holds rfl
      · cases stepped

end Ownership

/-! ## What every run keeps -/

/-- Descriptors and the objects that own them.
* No two objects have the same descriptor, and what an object has is open.
* Every open descriptor is in one object or in one plain `int`, so that none has leaked.
* `close` has only been called with open descriptors: never twice for one opening.
* Once all objects are gone and all plain descriptors closed, none is open. -/
structure Owns (limit : Nat) (state : State Object) : Prop where
  exclusive : ∀ left right fd, fd ∈ held (state.sockfd left) →
    fd ∈ held (state.sockfd right) → left = right
  isOpen : ∀ object fd, fd ∈ held (state.sockfd object) → fd < limit ∧ fd ∉ state.free
  owner : ∀ fd < limit, fd ∉ state.free →
    fd ∈ state.plain ∨ ∃ object, fd ∈ held (state.sockfd object)
  closes : state.badCloses = 0
  released : (∀ object, state.sockfd object = none) → state.plain = [] →
    state.free.Perm (List.range limit)

/-- In every sequence of constructions, moves, assignments to oneself included,
destructions, and openings and closings by hand. -/
theorem owns_of_reachable [DecidableEq Object] [Fintype Object] {limit : Nat}
    {state : State Object} (reachable : (system Object limit).Reachable state) :
    Owns limit state := by
  have inv : Inv limit state := by
    refine reachable.invariant (Inv limit) ?_ fun _ _ _ inv stepped => inv.step stepped
    intro state start
    cases start
    refine ⟨rfl, ?_, rfl⟩
    have nothing : owned (State.initial Object limit) = fun _ => [] := by
      funext owner
      cases owner <;> rfl
    rw [Partition, nothing]
    simp [State.initial, Multiset.range]
  refine ⟨?_, ?_, ?_, inv.closes, ?_⟩
  · intro left right fd inLeft inRight
    have inLeft : fd ∈ owned state (some left) := inLeft
    have same := inv.partition.owner_unique (Multiset.nodup_range _) inLeft
      (show fd ∈ owned state (some right) from inRight)
    exact Option.some.inj same
  · intro object fd member
    have opened := inv.open_of_owned (some object) member
    rwa [inv.table] at opened
  · intro fd below opened
    rcases inv.partition.mem_stock_iff.mp (Multiset.mem_range.mpr below) with
      ⟨owner, member⟩ | free
    · cases owner with
      | none => exact .inl member
      | some object => exact .inr ⟨object, member⟩
    · exact absurd free opened
  · intro gone plain
    have whole := inv.partition.shared_eq_iff.mpr fun owner => by
      cases owner with
      | none => exact plain
      | some object => rw [owned, gone object, held_none]
    exact Multiset.coe_eq_coe.mp whole

/-- A receiver that wraps the descriptor of `epoll_create1`, assigns a fresh socket to a
member, and moves the member to itself. -/
def wrapAndAssign : List (Event (Option Bool)) :=
  [.wrap none none, .socket (some false) (some 3), .moveAssign none (some false),
    .destroy (some false), .moveAssign none none, .epollCreate 4,
    .wrap (some true) (some 4), .destroy (some true), .socket (some false) (some 4),
    .moveAssign none (some false)]

theorem owns_of_reachable_wrapped :
    ∃ state : State (Option Bool), (state.sockfd none = some 4 ∧
      state.sockfd (some false) = some (-1) ∧ state.free = [3, 0, 1, 2]) ∧
      Owns 5 state := by
  rcases TransitionSystem.exists_reachable_of_execute (State.initial (Option Bool) 5)
    step wrapAndAssign (fun state => state.sockfd none = some 4 ∧
      state.sockfd (some false) = some (-1) ∧ state.free = [3, 0, 1, 2]) (by decide) with
    ⟨state, reachable, holds⟩
  exact ⟨state, holds, owns_of_reachable reachable⟩

end FeederNet.Socket
