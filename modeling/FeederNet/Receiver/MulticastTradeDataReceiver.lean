import FeederNet.Foundation.TransitionSystem
import FeederNet.Messages.Wire
import Mathlib.Data.List.Perm.Basic

/-! # MulticastTradeDataReceiver

The thread in `run` with the bytes of its buffers. Whoever takes a buffer off the queue
gives it back to the pool with any contents.
-/

namespace FeederNet.Receiver.MulticastTradeDataReceiver

/-- What `recv` does. A result is the number of bytes that it puts at the front of the
buffer: none for an empty datagram, and none once the socket is shut down. -/
inductive Recv
  | failed
  | received (bytes : List UInt8)
  deriving DecidableEq, Repr

inductive Phase
  /-- Before the test of `runFlag_`. -/
  | testing
  | allocating
  | receiving (msg : Nat)
  /-- Before `pool_.deallocate(msg)`. -/
  | returning (msg : Nat)
  /-- Before `queue_.enqueue(msg)`, when `recv` has put `datagram` into the buffer. -/
  | enqueueing (msg : Nat) (datagram : List UInt8)
  | threw
  | stopped
  deriving DecidableEq, Repr

/-- `queued` are the buffers on the queue or with those who took them off it.
`forwarded` lists what was in each buffer that the queue accepted, next to the datagram
received for it. -/
structure State where
  runFlag : Bool
  phase : Phase
  free : List Nat
  contents : Nat → List UInt8
  queued : List Nat
  forwarded : List (List UInt8 × List UInt8)

inductive Event
  /-- `stop` clears the flag and shuts the socket down. -/
  | stop
  | test
  | allocate (msg : Nat)
  | exhausted
  | recv (result : Recv)
  | deallocate
  /-- The result of `enqueue` is ignored. -/
  | enqueue (accepted : Bool)
  /-- A buffer comes back to the pool. -/
  | recycle (msg : Nat) (bytes : List UInt8)
  deriving DecidableEq, Repr

namespace State

def initial (buffers : List Nat) (contents : Nat → List UInt8) : State where
  runFlag := true
  phase := .testing
  free := buffers
  contents := contents
  queued := []
  forwarded := []

def overwrite (state : State) (msg : Nat) (bytes : List UInt8) : Nat → List UInt8 :=
  Function.update state.contents msg (bytes ++ (state.contents msg).drop bytes.length)

def step (state : State) : Event → Option State
  | .stop => some { state with runFlag := false }
  | .test =>
      match state.phase with
      | .testing =>
          some { state with phase := if state.runFlag then .allocating else .stopped }
      | _ => none
  | .allocate msg =>
      match state.phase with
      | .allocating =>
          if msg ∈ state.free then
            some { state with
              free := state.free.erase msg
              phase := .receiving msg }
          else none
      | _ => none
  | .exhausted =>
      match state.phase with
      | .allocating => if state.free = [] then some { state with phase := .threw } else none
      | _ => none
  | .recv result =>
      match state.phase, result with
      | .receiving msg, .failed => some { state with phase := .returning msg }
      | .receiving msg, .received bytes =>
          if bytes.length ≤ ITCHTradeMsg.size then
            some { state with
              contents := state.overwrite msg bytes
              phase := .enqueueing msg bytes }
          else none
      | _, _ => none
  | .deallocate =>
      match state.phase with
      | .returning msg =>
          some { state with
            free := msg :: state.free
            phase := .testing }
      | _ => none
  | .enqueue accepted =>
      match state.phase with
      | .enqueueing msg datagram =>
          some { state with
            phase := .testing
            queued := if accepted then state.queued ++ [msg] else state.queued
            forwarded :=
              if accepted then state.forwarded ++ [(state.contents msg, datagram)]
              else state.forwarded }
      | _ => none
  | .recycle msg bytes =>
      if msg ∈ state.queued ∧ bytes.length = ITCHTradeMsg.size then
        some { state with
          free := msg :: state.free
          contents := Function.update state.contents msg bytes
          queued := state.queued.erase msg }
      else none

end State

structure Pool where
  buffers : List Nat
  contents : Nat → List UInt8
  nodup : buffers.Nodup
  sized : ∀ msg, (contents msg).length = ITCHTradeMsg.size

@[reducible] def system (pool : Pool) : TransitionSystem State Event :=
  .ofStep (.initial pool.buffers pool.contents) State.step

/-! ## Steps -/

def Phase.held : Phase → List Nat
  | .receiving msg | .returning msg | .enqueueing msg _ => [msg]
  | .testing | .allocating | .threw | .stopped => []

namespace State

def places (state : State) : List Nat :=
  state.free ++ state.queued ++ state.phase.held

end State

inductive Stepped (state : State) : Event → State → Prop
  /-- No buffer changes its place or its contents. -/
  | goto (event : Event) (runFlag : Bool) (phase : Phase)
      (held : phase.held = state.phase.held)
      (reads : ∀ msg datagram, phase = .enqueueing msg datagram → phase = state.phase)
      (quiet : ∀ accepted, event ≠ .enqueue accepted) :
      Stepped state event { state with runFlag := runFlag, phase := phase }
  | allocate (msg : Nat) (phase : state.phase = .allocating) (member : msg ∈ state.free) :
      Stepped state (.allocate msg) { state with
        free := state.free.erase msg
        phase := .receiving msg }
  | received (msg : Nat) (bytes : List UInt8) (phase : state.phase = .receiving msg)
      (fits : bytes.length ≤ ITCHTradeMsg.size) :
      Stepped state (.recv (.received bytes)) { state with
        contents := state.overwrite msg bytes
        phase := .enqueueing msg bytes }
  | deallocate (msg : Nat) (phase : state.phase = .returning msg) :
      Stepped state .deallocate { state with
        free := msg :: state.free
        phase := .testing }
  | accepted (msg : Nat) (datagram : List UInt8)
      (phase : state.phase = .enqueueing msg datagram) :
      Stepped state (.enqueue true) { state with
        phase := .testing
        queued := state.queued ++ [msg]
        forwarded := state.forwarded ++ [(state.contents msg, datagram)] }
  | refused (msg : Nat) (datagram : List UInt8)
      (phase : state.phase = .enqueueing msg datagram) :
      Stepped state (.enqueue false) { state with phase := .testing }
  | recycle (msg : Nat) (bytes : List UInt8) (member : msg ∈ state.queued)
      (sized : bytes.length = ITCHTradeMsg.size) :
      Stepped state (.recycle msg bytes) { state with
        free := msg :: state.free
        contents := Function.update state.contents msg bytes
        queued := state.queued.erase msg }

section Steps

variable {state next : State} {event : Event}

theorem stepped_of_step (stepped : state.step event = some next) :
    Stepped state event next := by
  cases event with
  | stop =>
      cases stepped
      exact .goto .stop false state.phase rfl (fun _ _ _ => rfl) nofun
  | test =>
      simp only [State.step] at stepped
      split at stepped <;> cases stepped
      rename_i phase
      refine .goto .test state.runFlag _ ?_ ?_ nofun
      · rw [phase]
        split <;> rfl
      · intro msg datagram
        split <;> nofun
  | allocate msg =>
      simp only [State.step] at stepped
      split at stepped
      · rename_i phase
        split at stepped <;> cases stepped
        rename_i member
        exact .allocate msg phase member
      · cases stepped
  | exhausted =>
      simp only [State.step] at stepped
      split at stepped
      · rename_i phase
        split at stepped <;> cases stepped
        refine .goto .exhausted state.runFlag .threw ?_ nofun nofun
        rw [phase]
        rfl
      · cases stepped
  | recv result =>
      simp only [State.step] at stepped
      split at stepped
      · cases stepped
        rename_i msg phase
        refine .goto _ state.runFlag (.returning msg) ?_ nofun nofun
        rw [phase]
        rfl
      · rename_i msg bytes phase
        split at stepped <;> cases stepped
        rename_i fits
        exact .received msg bytes phase fits
      · cases stepped
  | deallocate =>
      simp only [State.step] at stepped
      split at stepped <;> cases stepped
      rename_i msg phase
      exact .deallocate msg phase
  | enqueue accepted =>
      simp only [State.step] at stepped
      split at stepped <;> cases stepped
      rename_i msg datagram phase
      cases accepted with
      | true => exact .accepted msg datagram phase
      | false => exact .refused msg datagram phase
  | recycle msg bytes =>
      simp only [State.step] at stepped
      split at stepped <;> cases stepped
      rename_i given
      exact .recycle msg bytes given.1 given.2

/-- Only a refused buffer is lost. -/
theorem Stepped.places (stepped : Stepped state event next) :
    (event ≠ .enqueue false ∧ next.places.Perm state.places) ∨
      (event = .enqueue false ∧ ∃ msg, (msg :: next.places).Perm state.places) := by
  cases stepped with
  | goto event runFlag phase held reads quiet =>
      refine .inl ⟨quiet false, ?_⟩
      simp only [State.places, held]
      exact List.Perm.refl _
  | allocate msg phase member =>
      refine .inl ⟨nofun, ?_⟩
      simp only [State.places, phase, Phase.held, List.append_nil]
      have taken := (List.perm_cons_erase member).symm.append_right state.queued
      exact (List.perm_append_singleton msg _).trans taken
  | received msg bytes phase fits =>
      refine .inl ⟨nofun, ?_⟩
      simp only [State.places, phase, Phase.held]
      exact List.Perm.refl _
  | deallocate msg phase =>
      refine .inl ⟨nofun, ?_⟩
      simp only [State.places, phase, Phase.held, List.append_nil]
      exact (List.perm_append_singleton msg _).symm
  | accepted msg datagram phase =>
      refine .inl ⟨nofun, ?_⟩
      simp only [State.places, phase, Phase.held, List.append_nil, List.append_assoc]
      exact List.Perm.refl _
  | refused msg datagram phase =>
      refine .inr ⟨rfl, msg, ?_⟩
      simp only [State.places, phase, Phase.held, List.append_nil]
      exact (List.perm_append_singleton msg _).symm
  | recycle msg bytes member sized =>
      refine .inl ⟨nofun, ?_⟩
      have given := (List.perm_cons_erase member).symm.append_left state.free
      exact (List.perm_middle.symm.trans given).append_right _

/-- What holds between two steps. `recv` leaves its datagram at the front of the buffer,
and nobody else has the buffer. -/
structure Inv (pool : Pool) (state : State) : Prop where
  nodup : state.places.Nodup
  bounded : state.places.length ≤ pool.buffers.length
  sized : ∀ msg, (state.contents msg).length = ITCHTradeMsg.size
  read : ∀ msg datagram, state.phase = .enqueueing msg datagram →
    ∃ rest, state.contents msg = datagram ++ rest

variable {pool : Pool}

theorem inv_initial (pool : Pool) : Inv pool (.initial pool.buffers pool.contents) where
  nodup := by
    rw [State.places, State.initial, Phase.held, List.append_nil, List.append_nil]
    exact pool.nodup
  bounded := by
    rw [State.places, State.initial, Phase.held, List.append_nil, List.append_nil]
  sized := pool.sized
  read := nofun

theorem sized_update {contents : Nat → List UInt8} {msg : Nat} {bytes : List UInt8}
    (sized : ∀ msg, (contents msg).length = ITCHTradeMsg.size)
    (whole : bytes.length = ITCHTradeMsg.size) (other : Nat) :
    (Function.update contents msg bytes other).length = ITCHTradeMsg.size := by
  by_cases same : other = msg
  · subst same
    rw [Function.update_self, whole]
  · rw [Function.update_of_ne same]
    exact sized other

theorem Inv.step (inv : Inv pool state) (stepped : Stepped state event next) :
    Inv pool next := by
  have kept : next.places.Nodup ∧ next.places.length ≤ pool.buffers.length := by
    rcases stepped.places with ⟨_, same⟩ | ⟨_, msg, lost⟩
    · exact ⟨same.nodup_iff.mpr inv.nodup, same.length_eq.trans_le inv.bounded⟩
    · have nodup := lost.nodup_iff.mpr inv.nodup
      have length := lost.length_eq
      have bounded := inv.bounded
      rw [List.length_cons] at length
      exact ⟨(List.nodup_cons.mp nodup).2, by omega⟩
  refine ⟨kept.1, kept.2, ?_, ?_⟩
  · cases stepped with
    | received msg bytes phase fits =>
        apply sized_update inv.sized
        rw [List.length_append, List.length_drop, inv.sized msg]
        omega
    | recycle msg bytes member sized => exact sized_update inv.sized sized
    | goto | allocate | deallocate | accepted | refused => exact inv.sized
  · cases stepped with
    | goto event runFlag phase held reads quiet =>
        intro msg datagram stands
        exact inv.read msg datagram ((reads msg datagram stands).symm.trans stands)
    | received msg bytes phase fits =>
        rintro _ _ ⟨⟩
        exact ⟨_, Function.update_self _ _ _⟩
    | recycle msg bytes member sized =>
        intro other datagram stands
        have different : other ≠ msg := by
          rintro rfl
          have nodup := inv.nodup
          have held : state.phase.held = [other] := by
            rw [show state.phase = .enqueueing other datagram from stands]
            rfl
          rw [State.places, held, List.nodup_append] at nodup
          exact nodup.2.2 other (List.mem_append_right _ member) other
            List.mem_cons_self rfl
        rcases inv.read other datagram stands with ⟨rest, reads⟩
        exact ⟨rest, (Function.update_of_ne different _ _).trans reads⟩
    | allocate | deallocate | accepted | refused => nofun

/-! ## Runs -/

/-- Every message on the queue was one full datagram, just received, and every other
buffer is in the pool or in the hand of the thread. -/
structure Correct (pool : Pool) (state : State) : Prop where
  whole : ∀ entry ∈ state.forwarded,
    entry.1 = entry.2 ∧ entry.2.length = ITCHTradeMsg.size
  kept : state.places.Perm pool.buffers

/-- A buffer is put on the queue only with a full datagram, and the queue takes it. -/
def Sound (state : State) : Event → Prop
  | .enqueue accepted => accepted = true ∧
      ∀ msg datagram, state.phase = .enqueueing msg datagram →
        datagram.length = ITCHTradeMsg.size
  | _ => True

/-- A buffer holds just its datagram if that fills it. -/
theorem Inv.contents_eq_iff (inv : Inv pool state) {msg : Nat} {datagram : List UInt8}
    (phase : state.phase = .enqueueing msg datagram) :
    (state.contents msg = datagram ∧ datagram.length = ITCHTradeMsg.size) ↔
      datagram.length = ITCHTradeMsg.size := by
  refine and_iff_right_of_imp fun full => ?_
  rcases inv.read msg datagram phase with ⟨rest, reads⟩
  have sized := inv.sized msg
  rw [reads, List.length_append, full] at sized
  rw [reads, List.eq_nil_of_length_eq_zero (by omega : rest.length = 0), List.append_nil]

theorem Inv.correct_iff (inv : Inv pool state) (stepped : Stepped state event next) :
    Correct pool next ↔ Correct pool state ∧ Sound state event := by
  rcases stepped.places with ⟨taken, same⟩ | ⟨rfl, msg, lost⟩
  · have kept : next.places.Perm pool.buffers ↔ state.places.Perm pool.buffers :=
      ⟨same.symm.trans, same.trans⟩
    have unchanged : next.forwarded = state.forwarded → Sound state event →
        (Correct pool next ↔ Correct pool state ∧ Sound state event) := by
      intro forwarded sound
      constructor
      · intro correct
        exact ⟨⟨forwarded ▸ correct.whole, kept.mp correct.kept⟩, sound⟩
      · intro given
        exact ⟨forwarded ▸ given.1.whole, kept.mpr given.1.kept⟩
    cases stepped with
    | goto event runFlag phase held reads quiet =>
        refine unchanged rfl ?_
        cases event with
        | enqueue accepted => exact absurd rfl (quiet accepted)
        | stop | test | allocate | exhausted | recv | deallocate | recycle => trivial
    | allocate | received | deallocate | recycle => exact unchanged rfl trivial
    | refused msg datagram phase => exact absurd rfl taken
    | accepted msg datagram phase =>
        have whole := inv.contents_eq_iff phase
        have sound : Sound state (.enqueue true) ↔ datagram.length = ITCHTradeMsg.size := by
          constructor
          · intro sound
            exact sound.2 msg datagram phase
          · intro full
            refine ⟨rfl, fun other read stands => ?_⟩
            rw [phase] at stands
            cases stands
            exact full
        rw [sound]
        constructor
        · intro correct
          have entries := List.forall_mem_append.mp correct.whole
          exact ⟨⟨entries.1, kept.mp correct.kept⟩,
            (List.forall_mem_singleton.mp entries.2).2⟩
        · rintro ⟨correct, full⟩
          refine ⟨List.forall_mem_append.mpr ⟨correct.whole, ?_⟩, kept.mpr correct.kept⟩
          exact List.forall_mem_singleton.mpr (whole.mpr full)
  · refine iff_of_false ?_ fun given => nomatch given.2.1
    intro correct
    have length := lost.length_eq
    have bounded := inv.bounded
    have all := correct.kept.length_eq
    rw [List.length_cons] at length
    omega

/-- The receiver forwards only whole datagrams and loses no buffer exactly if every buffer
that it puts on the queue holds a full datagram and the queue takes it. -/
theorem correct_iff_sound {past : List (State × Event)} {final : State}
    (run : (system pool).Run past final) :
    Correct pool final ↔ ∀ entry ∈ past, Sound entry.1 entry.2 := by
  apply run.final_iff (Inv pool) (Correct pool) Sound
  · rintro state rfl
    refine ⟨inv_initial pool, nofun, ?_⟩
    rw [State.places, State.initial, Phase.held, List.append_nil, List.append_nil]
  · intro current event next inv stepped
    exact inv.step (stepped_of_step stepped)
  · intro current event next inv stepped
    exact inv.correct_iff (stepped_of_step stepped)

end Steps

def twoBuffers : Pool where
  buffers := [0, 1]
  contents _ := List.replicate 51 7
  nodup := by decide
  sized _ := List.length_replicate

/-- The read that `stop` ends puts the old message on the queue. -/
theorem stopped_receiver_forwards_old_message :
    ∃ past final, (system twoBuffers).Run past final ∧
      past.map Prod.snd =
        [.test, .enqueue true, .recv (.received []), .stop, .allocate 0, .test] ∧
      final.phase = .stopped ∧ final.forwarded = [(List.replicate 51 7, [])] ∧
      ¬ Correct twoBuffers final := by
  rcases TransitionSystem.exists_run_of_events
    (.initial twoBuffers.buffers twoBuffers.contents) State.step
    [.test, .allocate 0, .stop, .recv (.received []), .enqueue true, .test]
    (fun final => final.phase = .stopped ∧ final.forwarded = [(List.replicate 51 7, [])])
    (by decide) with ⟨past, final, run, events, stopped, forwarded⟩
  refine ⟨past, final, run, events, stopped, forwarded, fun correct => ?_⟩
  have whole := correct.whole (List.replicate 51 7, []) (by rw [forwarded]; simp)
  exact absurd whole.2 (by decide)

theorem correct_iff_sound_full :
    ∃ past final, (system twoBuffers).Run past final ∧ final.queued = [0] ∧
      (Correct twoBuffers final ↔ ∀ entry ∈ past, Sound entry.1 entry.2) := by
  rcases TransitionSystem.exists_run_of_events
    (.initial twoBuffers.buffers twoBuffers.contents) State.step
    [.test, .allocate 1, .recv .failed, .deallocate, .test, .allocate 0,
      .recv (.received (List.replicate 51 80)), .enqueue true]
    (fun final => final.queued = [0]) (by decide) with ⟨past, final, run, _, queued⟩
  exact ⟨past, final, run, queued, correct_iff_sound run⟩

end FeederNet.Receiver.MulticastTradeDataReceiver
