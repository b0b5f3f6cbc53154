import FeederNet.AggTradeMQSender
import Mathlib.Data.List.Perm.Basic

/-! # Stopping the aggregator

No trade is lost or repeated exactly when `stop` looks at the map after the last
`AggregateTrade`, and every record fits its buffer.
-/

namespace FeederNet.AggTradeMQSender

variable {Double : Type u}

/-- The message that `run` has in hand and not yet in the map. -/
def RunPhase.held : RunPhase Double → List (Trade Double)
  | .comparing msg | .sending msg | .setting msg | .aggregating msg => [msg]
  | .testing | .dequeuing | .deallocating _ | .returned => []

/-- The thread will not touch the map again once the flag is cleared. -/
def RunPhase.Ending : RunPhase Double → Prop
  | .testing | .deallocating _ | .returned => True
  | .dequeuing | .comparing _ | .sending _ | .setting _ | .aggregating _ => False

namespace State

def places (state : State Double) : List (Trade Double) :=
  state.published.flatMap Record.trades ++ state.dropped.flatMap Record.trades ++
    state.aggMap.flatMap Entry.trades ++ state.run.held

def PhaseHolds (state : State Double) : Prop :=
  match state.run with
  | .setting _ => state.aggMap = []
  | .aggregating msg => msg.msgTime = state.currentTime
  | _ => True

end State

section Code

variable [Arithmetic Double]

/-- The sums are those over the messages, which have the symbol of the entry and the time
of the map. -/
structure Entry.Correct (currentTime : Word64) (entry : Entry Double) : Prop where
  trades : entry.trades ≠ []
  sums : entry = entry.trades.foldl Entry.add (.empty entry.symbol)
  labels : ∀ msg ∈ entry.trades, msg.symbol = entry.symbol ∧ msg.msgTime = currentTime

/-- The record is what the sums over its messages come to, and these have its symbol and
its millisecond. -/
structure Record.Correct (record : Record Double) : Prop where
  trades : record.trades ≠ []
  sums : record =
    (record.trades.foldl Entry.add (.empty record.symbol)).record record.time
  labels : ∀ msg ∈ record.trades, msg.symbol = record.symbol ∧ msg.msgTime = record.time

/-! ## The map -/

theorem Entry.Correct.record {currentTime : Word64} {entry : Entry Double}
    (correct : entry.Correct currentTime) : (entry.record currentTime).Correct where
  trades := correct.trades
  sums := congrArg (Entry.record currentTime) correct.sums
  labels := correct.labels

theorem Entry.Correct.add {currentTime : Word64} {entry : Entry Double}
    (correct : entry.Correct currentTime) {msg : Trade Double}
    (sameSymbol : msg.symbol = entry.symbol) (sameTime : msg.msgTime = currentTime) :
    (entry.add msg).Correct currentTime where
  trades := List.append_ne_nil_of_right_ne_nil _ (List.cons_ne_nil msg [])
  sums := by
    have step := congrArg (Entry.add · msg) correct.sums
    change entry.add msg = (entry.trades ++ [msg]).foldl Entry.add _
    rw [List.foldl_append]
    exact step
  labels := by
    intro other member
    rcases List.mem_append.mp member with earlier | added
    · exact correct.labels other earlier
    · cases List.mem_singleton.mp added
      exact ⟨sameSymbol, sameTime⟩

theorem aggregateTrade_ne_nil (msg : Trade Double) (aggMap : List (Entry Double)) :
    aggregateTrade msg aggMap ≠ [] := by
  cases aggMap with
  | nil => exact List.cons_ne_nil _ _
  | cons entry rest =>
      rw [aggregateTrade]
      split <;> exact List.cons_ne_nil _ _

theorem aggregateTrade_correct {currentTime : Word64} {msg : Trade Double}
    (sameTime : msg.msgTime = currentTime) {aggMap : List (Entry Double)}
    (correct : ∀ entry ∈ aggMap, entry.Correct currentTime) :
    ∀ entry ∈ aggregateTrade msg aggMap, entry.Correct currentTime := by
  induction aggMap with
  | nil =>
      refine List.forall_mem_singleton.mpr ⟨List.cons_ne_nil _ _, rfl, ?_⟩
      exact List.forall_mem_singleton.mpr ⟨rfl, sameTime⟩
  | cons entry rest induction =>
      rcases List.forall_mem_cons.mp correct with ⟨first, others⟩
      rw [aggregateTrade]
      split
      · rename_i found
        exact List.forall_mem_cons.mpr ⟨first.add found.symm sameTime, others⟩
      · exact List.forall_mem_cons.mpr ⟨first, induction others⟩

theorem aggregateTrade_trades (msg : Trade Double) (aggMap : List (Entry Double)) :
    ((aggregateTrade msg aggMap).flatMap Entry.trades).Perm
      (aggMap.flatMap Entry.trades ++ [msg]) := by
  induction aggMap with
  | nil => exact List.Perm.refl _
  | cons entry rest induction =>
      rw [aggregateTrade]
      split
      · simp only [List.flatMap_cons, Entry.add, List.append_assoc]
        exact List.perm_append_comm.append_left _
      · simp only [List.flatMap_cons, List.append_assoc]
        exact induction.append_left _

/-! ## SendMQ -/

theorem filterMap_getElem?_range {α : Type*} (elements : List α) :
    (List.range elements.length).filterMap (fun index => elements[index]?) = elements := by
  induction elements with
  | nil => rfl
  | cons element elements induction =>
      rw [List.length_cons, List.range_succ_eq_map, List.filterMap_cons, List.filterMap_map]
      exact congrArg (element :: ·) induction

/-- Any order of the iterator visits every element of the map once. -/
theorem perm_visited {α : Type*} {order : List Nat} {elements : List α}
    (visits : order.Perm (List.range elements.length)) :
    (order.filterMap fun index => elements[index]?).Perm elements := by
  have visited := visits.filterMap fun index => elements[index]?
  rwa [filterMap_getElem?_range] at visited

variable {state next : State Double} {order : List Nat}

theorem records_perm (visits : order.Perm (List.range state.aggMap.length)) :
    (state.records order).Perm (state.aggMap.map (Entry.record state.currentTime)) :=
  (perm_visited visits).map _

theorem sendMQ_eq_some_iff : state.sendMQ order = some next ↔
    order.Perm (List.range state.aggMap.length) ∧
      next = { state with
        aggMap := []
        published := state.published ++
          (state.records order).filter fun record => record.Fits
        dropped := state.dropped ++
          (state.records order).filter fun record => ¬ record.Fits } := by
  rw [State.sendMQ]
  split
  · rename_i visits
    exact ⟨fun sent => ⟨visits, (Option.some.inj sent).symm⟩, fun sent => sent.2 ▸ rfl⟩
  · rename_i other
    exact iff_of_false nofun fun sent => other sent.1

theorem sendMQ_trades (sent : state.sendMQ order = some next) :
    (next.published.flatMap Record.trades ++ next.dropped.flatMap Record.trades).Perm
      (state.published.flatMap Record.trades ++ state.dropped.flatMap Record.trades ++
        state.aggMap.flatMap Entry.trades) := by
  classical
  rcases sendMQ_eq_some_iff.mp sent with ⟨visits, rfl⟩
  have split := List.filter_append_perm (fun record : Record Double => record.Fits)
    (state.records order)
  have trades := (split.trans (records_perm visits)).flatMap_right Record.trades
  have same : (state.aggMap.map (Entry.record state.currentTime)).flatMap Record.trades =
      state.aggMap.flatMap Entry.trades := List.flatMap_map ..
  rw [same, List.flatMap_append] at trades
  refine List.perm_iff_count.mpr fun msg => ?_
  have count := trades.count_eq msg
  simp only [decide_not, List.flatMap_append, List.count_append] at count ⊢
  omega

theorem sendMQ_dropped_iff (sent : state.sendMQ order = some next) :
    next.dropped = [] ↔ state.dropped = [] ∧
      ∀ entry ∈ state.aggMap, (entry.record state.currentTime).Fits := by
  rcases sendMQ_eq_some_iff.mp sent with ⟨visits, rfl⟩
  have members : ∀ record, record ∈ state.records order ↔
      ∃ entry ∈ state.aggMap, entry.record state.currentTime = record := fun record =>
    (records_perm visits).mem_iff.trans List.mem_map
  simp only [List.append_eq_nil_iff, List.filter_eq_nil_iff, decide_eq_true_eq, not_not,
    members, forall_exists_index, and_imp, forall_apply_eq_imp_iff₂]

theorem sendMQ_records (sent : state.sendMQ order = some next)
    (entries : ∀ entry ∈ state.aggMap, entry.Correct state.currentTime)
    (records : ∀ record ∈ state.published ++ state.dropped, record.Correct) :
    ∀ record ∈ next.published ++ next.dropped, record.Correct := by
  rcases sendMQ_eq_some_iff.mp sent with ⟨visits, rfl⟩
  have sentRecords : ∀ record ∈ state.records order, record.Correct := by
    intro record member
    rcases List.mem_map.mp ((records_perm visits).mem_iff.mp member) with ⟨entry, inMap, rfl⟩
    exact (entries entry inMap).record
  intro record member
  simp only [List.mem_append, List.mem_filter] at member records
  rcases member with (earlier | ⟨member, _⟩) | earlier | ⟨member, _⟩
  · exact records record (Or.inl earlier)
  · exact sentRecords record member
  · exact records record (Or.inr earlier)
  · exact sentRecords record member

/-! ## The steps of both threads -/

inductive Stepped (destroyMessages : Bool) (state : State Double) :
    Event Double → State Double → Prop
  | test (phase : state.run = .testing) : Stepped destroyMessages state .test
      { state with run := if state.runFlag then .dequeuing else .returned }
  | nothing (phase : state.run = .dequeuing) : Stepped destroyMessages state
      (.dequeue none) { state with run := .testing }
  | dequeue (msg : Trade Double) (phase : state.run = .dequeuing) :
      Stepped destroyMessages state (.dequeue (some msg)) { state with
        run := .comparing msg
        dequeued := state.dequeued ++ [msg] }
  | compare (msg : Trade Double) (phase : state.run = .comparing msg) :
      Stepped destroyMessages state .compare { state with
        run := if msg.msgTime ≠ state.currentTime then .sending msg else .aggregating msg }
  | sendMQ (order : List Nat) (msg : Trade Double) (sent : State Double)
      (phase : state.run = .sending msg) (sends : state.sendMQ order = some sent) :
      Stepped destroyMessages state (.sendMQ order) { sent with run := .setting msg }
  | setTime (msg : Trade Double) (phase : state.run = .setting msg) :
      Stepped destroyMessages state .setTime { state with
        currentTime := msg.msgTime
        run := .aggregating msg }
  | aggregateTrade (msg : Trade Double) (phase : state.run = .aggregating msg) :
      Stepped destroyMessages state .aggregateTrade { state with
        aggMap := AggTradeMQSender.aggregateTrade msg state.aggMap
        run := if destroyMessages then .deallocating msg else .testing }
  | deallocate (msg : Trade Double) (phase : state.run = .deallocating msg) :
      Stepped destroyMessages state .deallocate { state with
        run := .testing
        returned := state.returned ++ [msg] }
  | stop (phase : state.stop = .waiting) : Stepped destroyMessages state .stop
      { state with runFlag := false, stop := .checking }
  | checkSize (phase : state.stop = .checking) : Stepped destroyMessages state .checkSize
      { state with stop := if state.aggMap.length > 0 then .sending else .returned }
  | stopSendMQ (order : List Nat) (sent : State Double) (phase : state.stop = .sending)
      (sends : state.sendMQ order = some sent) :
      Stepped destroyMessages state (.stopSendMQ order) { sent with stop := .returned }

theorem stepped_of_step {destroyMessages : Bool} {event : Event Double}
    (stepped : step destroyMessages state event = some next) :
    Stepped destroyMessages state event next := by
  cases event with
  | sendMQ order =>
      simp only [step] at stepped
      split at stepped
      · rename_i msg phase
        rcases Option.map_eq_some_iff.mp stepped with ⟨sent, sends, rfl⟩
        exact .sendMQ order msg sent phase sends
      · cases stepped
  | stopSendMQ order =>
      simp only [step] at stepped
      split at stepped
      · rename_i phase
        rcases Option.map_eq_some_iff.mp stepped with ⟨sent, sends, rfl⟩
        exact .stopSendMQ order sent phase sends
      · cases stepped
  | test =>
      simp only [step] at stepped
      split at stepped <;> cases stepped
      exact .test (by assumption)
  | dequeue found =>
      simp only [step] at stepped
      split at stepped <;> cases stepped
      · exact .nothing (by assumption)
      · exact .dequeue _ (by assumption)
  | compare =>
      simp only [step] at stepped
      split at stepped <;> cases stepped
      exact .compare _ (by assumption)
  | setTime =>
      simp only [step] at stepped
      split at stepped <;> cases stepped
      exact .setTime _ (by assumption)
  | aggregateTrade =>
      simp only [step] at stepped
      split at stepped <;> cases stepped
      exact .aggregateTrade _ (by assumption)
  | deallocate =>
      simp only [step] at stepped
      split at stepped <;> cases stepped
      exact .deallocate _ (by assumption)
  | stop =>
      simp only [step] at stepped
      split at stepped <;> cases stepped
      exact .stop (by assumption)
  | checkSize =>
      simp only [step] at stepped
      split at stepped <;> cases stepped
      exact .checkSize (by assumption)

structure Inv (state : State Double) : Prop where
  conserved : state.places.Perm state.dequeued
  entries : ∀ entry ∈ state.aggMap, entry.Correct state.currentTime
  records : ∀ record ∈ state.published ++ state.dropped, record.Correct
  phase : state.PhaseHolds
  flag : state.runFlag = true ↔ state.stop = .waiting
  ending : state.stop = .returned → state.aggMap = [] ∨ state.run.Ending

theorem inv_initial (currentTime : Word64) :
    Inv (.initial currentTime : State Double) where
  conserved := List.Perm.refl _
  entries := List.forall_mem_nil _
  records := List.forall_mem_nil _
  phase := trivial
  flag := iff_of_true rfl rfl
  ending := nofun

theorem Inv.moveRun (inv : Inv state) (run : RunPhase Double)
    (held : run.held = state.run.held) (phase : { state with run := run }.PhaseHolds)
    (ending : state.stop = .returned → state.aggMap = [] ∨ run.Ending) :
    Inv { state with run := run } where
  conserved := by
    have conserved := inv.conserved
    simp only [State.places, held] at conserved ⊢
    exact conserved
  entries := inv.entries
  records := inv.records
  phase := phase
  flag := inv.flag
  ending := ending

theorem Inv.sendMQ (inv : Inv state) (sent : state.sendMQ order = some next)
    {run : RunPhase Double} {stop : StopPhase} (held : run.held = state.run.held)
    (phase : { next with run := run, stop := stop }.PhaseHolds)
    (flag : state.runFlag = true ↔ stop = .waiting) :
    Inv { next with run := run, stop := stop } := by
  have trades := sendMQ_trades sent
  have records := sendMQ_records sent inv.entries inv.records
  rcases sendMQ_eq_some_iff.mp sent with ⟨visits, rfl⟩
  refine ⟨?_, List.forall_mem_nil _, records, phase, flag, fun _ => Or.inl rfl⟩
  refine List.Perm.trans ?_ inv.conserved
  simp only [State.places, held, List.flatMap_nil, List.append_nil]
  exact trades.append_right _

theorem Inv.aggregateTrade (inv : Inv state) {msg : Trade Double} {run : RunPhase Double}
    (phase : state.run = .aggregating msg) (held : run.held = [])
    (holds : { state with
      aggMap := AggTradeMQSender.aggregateTrade msg state.aggMap
      run := run }.PhaseHolds) (ending : run.Ending) :
    Inv { state with
      aggMap := AggTradeMQSender.aggregateTrade msg state.aggMap
      run := run } := by
  have sameTime : msg.msgTime = state.currentTime := by
    have holds := inv.phase
    rwa [State.PhaseHolds, phase] at holds
  refine ⟨List.Perm.trans ?_ inv.conserved, aggregateTrade_correct sameTime inv.entries,
    inv.records, holds, inv.flag, fun _ => Or.inr ending⟩
  have added := aggregateTrade_trades msg state.aggMap
  have hand : state.run.held = [msg] := by rw [phase]; rfl
  simp only [State.places, held, hand, List.append_assoc, List.append_nil]
  exact (added.append_left _).append_left _

theorem Inv.dequeue (inv : Inv state) (phase : state.run = .dequeuing) (msg : Trade Double) :
    Inv { state with
      run := .comparing msg
      dequeued := state.dequeued ++ [msg] } where
  conserved := by
    have conserved := inv.conserved
    simp only [State.places, phase, RunPhase.held, List.append_nil] at conserved ⊢
    exact conserved.append_right _
  entries := inv.entries
  records := inv.records
  phase := trivial
  flag := inv.flag
  ending := by
    intro stopped
    rcases inv.ending stopped with emptied | ending
    · exact Or.inl emptied
    · rw [phase] at ending
      exact ending.elim

theorem Inv.moveStop (inv : Inv state) {runFlag : Bool} {stop : StopPhase}
    (flag : runFlag = true ↔ stop = .waiting)
    (ending : stop = .returned → state.aggMap = [] ∨ state.run.Ending) :
    Inv { state with runFlag := runFlag, stop := stop } where
  conserved := inv.conserved
  entries := inv.entries
  records := inv.records
  phase := inv.phase
  flag := flag
  ending := ending

/-- While `run` has a message in hand, a call of `stop` that has returned left the map
empty. -/
theorem Inv.emptied (inv : Inv state) (working : ¬ state.run.Ending)
    (stopped : state.stop = .returned) : state.aggMap = [] :=
  (inv.ending stopped).resolve_right working

theorem Inv.step (inv : Inv state) {destroyMessages : Bool} {event : Event Double}
    (stepped : Stepped destroyMessages state event next) : Inv next := by
  cases stepped with
  | test phase =>
      have hand : state.run.held = [] := by rw [phase]; rfl
      split
      · rename_i flag
        refine inv.moveRun .dequeuing hand.symm trivial fun stopped => ?_
        rw [inv.flag.mp flag] at stopped
        cases stopped
      · exact inv.moveRun .returned hand.symm trivial fun _ => Or.inr trivial
  | nothing phase =>
      exact inv.moveRun .testing (by rw [phase]; rfl) trivial fun _ => Or.inr trivial
  | dequeue msg phase => exact inv.dequeue phase msg
  | compare msg phase =>
      have emptied := inv.emptied (by rw [phase]; exact id)
      split
      · exact inv.moveRun (.sending msg) (by rw [phase]; rfl) trivial
          fun stopped => Or.inl (emptied stopped)
      · rename_i same
        exact inv.moveRun (.aggregating msg) (by rw [phase]; rfl) (not_not.mp same)
          fun stopped => Or.inl (emptied stopped)
  | sendMQ order msg sent phase sends =>
      rcases sendMQ_eq_some_iff.mp sends with ⟨_, rfl⟩
      exact inv.sendMQ sends (by rw [phase]; rfl) rfl inv.flag
  | setTime msg phase =>
      have emptied : state.aggMap = [] := by
        have holds := inv.phase
        rwa [State.PhaseHolds, phase] at holds
      have moved := inv.moveRun (.sending msg) (by rw [phase]; rfl) trivial
        fun _ => Or.inl emptied
      refine ⟨moved.conserved, ?_, moved.records, rfl, moved.flag, fun _ => Or.inl emptied⟩
      rw [emptied]
      exact List.forall_mem_nil _
  | aggregateTrade msg phase =>
      split
      · exact inv.aggregateTrade phase rfl trivial trivial
      · exact inv.aggregateTrade phase rfl trivial trivial
  | deallocate msg phase =>
      have moved := inv.moveRun .testing (by rw [phase]; rfl) trivial
        fun _ => Or.inr trivial
      exact ⟨moved.conserved, moved.entries, moved.records, moved.phase, moved.flag,
        moved.ending⟩
  | stop phase => exact inv.moveStop ⟨nofun, nofun⟩ nofun
  | checkSize phase =>
      have flag : state.runFlag = false := by
        have flag := inv.flag
        rw [phase] at flag
        simpa using flag
      split
      · exact inv.moveStop (iff_of_false (by simp [flag]) nofun) nofun
      · rename_i emptied
        exact inv.moveStop (iff_of_false (by simp [flag]) nofun)
          fun _ => Or.inl (List.eq_nil_of_length_eq_zero (by omega))
  | stopSendMQ order sent phase sends =>
      have flag : state.runFlag = true ↔ StopPhase.returned = .waiting := by
        have flag := inv.flag
        rw [phase] at flag
        exact iff_of_false (fun set => nomatch flag.mp set) nofun
      have holds := inv.phase
      rcases sendMQ_eq_some_iff.mp sends with ⟨_, rfl⟩
      refine inv.sendMQ sends rfl ?_ flag
      rw [State.PhaseHolds]
      split
      · rfl
      · rename_i msg standing
        change state.run = .aggregating msg at standing
        rwa [State.PhaseHolds, standing] at holds
      · trivial

/-! ## Runs -/

/-- Every dequeued message is behind exactly one published record, which has its symbol
and its millisecond, and the map is empty. -/
structure Lossless (state : State Double) : Prop where
  contributed : (state.published.flatMap Record.trades).Perm state.dequeued
  records : ∀ record ∈ state.published, record.Correct
  emptied : state.aggMap = []

/-- The step adds nothing to the map that `stop` is through with, and sends only records
that fit. -/
def Keeps (state : State Double) : Event Double → Prop
  | .aggregateTrade => state.stop ≠ .returned
  | .sendMQ _ | .stopSendMQ _ =>
      ∀ entry ∈ state.aggMap, (entry.record state.currentTime).Fits
  | _ => True

/-- No record is dropped, and none will be missing. -/
def Kept (state : State Double) : Prop :=
  state.dropped = [] ∧ (state.stop = .returned → state.aggMap = [])

omit [Arithmetic Double] in
/-- Until `stop` has returned, only the records count. -/
theorem kept_iff_of_running (running : state.stop ≠ .returned) :
    Kept state ↔ state.dropped = [] :=
  and_iff_left fun stopped => absurd stopped running

theorem Inv.kept_iff (inv : Inv state) {destroyMessages : Bool} {event : Event Double}
    (stepped : Stepped destroyMessages state event next) :
    Kept next ↔ Kept state ∧ Keeps state event := by
  cases stepped with
  | test | nothing | dequeue | compare | setTime | deallocate =>
      exact (and_iff_left trivial).symm
  | sendMQ order msg sent phase sends =>
      have emptied := inv.emptied (by rw [phase]; exact id)
      have dropped := sendMQ_dropped_iff sends
      rcases sendMQ_eq_some_iff.mp sends with ⟨_, rfl⟩
      constructor
      · intro kept
        exact ⟨⟨(dropped.mp kept.1).1, emptied⟩, (dropped.mp kept.1).2⟩
      · rintro ⟨kept, fits⟩
        exact ⟨dropped.mpr ⟨kept.1, fits⟩, fun _ => rfl⟩
  | aggregateTrade msg phase =>
      have filled := aggregateTrade_ne_nil msg state.aggMap
      constructor
      · intro kept
        have working : state.stop ≠ .returned := fun stopped => filled (kept.2 stopped)
        exact ⟨⟨kept.1, fun stopped => absurd stopped working⟩, working⟩
      · rintro ⟨kept, working⟩
        exact ⟨kept.1, fun stopped => absurd stopped working⟩
  | stop phase =>
      have running : state.stop ≠ .returned := by rw [phase]; nofun
      rw [kept_iff_of_running running]
      refine Iff.trans ?_ (and_iff_left trivial).symm
      exact kept_iff_of_running nofun
  | checkSize phase =>
      have running : state.stop ≠ .returned := by rw [phase]; nofun
      rw [kept_iff_of_running running]
      refine Iff.trans (and_iff_left ?_) (and_iff_left trivial).symm
      change (if state.aggMap.length > 0 then StopPhase.sending else .returned) =
        .returned → state.aggMap = []
      split
      · nofun
      · intro _
        exact List.eq_nil_of_length_eq_zero (by omega)
  | stopSendMQ order sent phase sends =>
      have running : state.stop ≠ .returned := by rw [phase]; nofun
      have dropped := sendMQ_dropped_iff sends
      rcases sendMQ_eq_some_iff.mp sends with ⟨_, rfl⟩
      rw [kept_iff_of_running running]
      exact Iff.trans (and_iff_left fun _ => rfl) dropped

/-- When both threads have returned, no message is missing exactly if no record was
dropped and the map is empty. -/
theorem Inv.lossless_iff_kept (inv : Inv state) (runReturned : state.run = .returned)
    (stopReturned : state.stop = .returned) : Lossless state ↔ Kept state := by
  have hand : state.run.held = [] := by rw [runReturned]; rfl
  have conserved := inv.conserved
  rw [State.places, hand, List.append_nil] at conserved
  constructor
  · intro lossless
    refine ⟨?_, fun _ => lossless.emptied⟩
    have lengths := conserved.length_eq
    have contributed := lossless.contributed.length_eq
    rw [List.length_append, List.length_append] at lengths
    have nothing : state.dropped.flatMap Record.trades = [] :=
      List.eq_nil_of_length_eq_zero (by omega)
    refine List.eq_nil_iff_forall_not_mem.mpr fun record member => ?_
    exact (inv.records record (List.mem_append_right _ member)).trades
      (List.flatMap_eq_nil_iff.mp nothing record member)
  · rintro ⟨dropped, emptied⟩
    have emptied := emptied stopReturned
    rw [dropped, emptied, List.flatMap_nil, List.flatMap_nil, List.append_nil,
      List.append_nil] at conserved
    exact ⟨conserved, fun record member => inv.records record (List.mem_append_left _ member),
      emptied⟩

/-- When `run` and `stop` have returned, every message that was dequeued is behind exactly
one published record and the map is empty, exactly if `AggregateTrade` never came after
`stop` was through with the map and all records fitted their buffers. -/
theorem lossless_iff_keeps (destroyMessages : Bool) (currentTime : Word64)
    {past : List (State Double × Event Double)} {final : State Double}
    (run : (system destroyMessages currentTime).Run past final)
    (runReturned : final.run = .returned) (stopReturned : final.stop = .returned) :
    Lossless final ↔ ∀ entry ∈ past, Keeps entry.1 entry.2 := by
  have initial : ∀ state : State Double, (system destroyMessages currentTime).Initial state →
      Inv state ∧ Kept state := by
    rintro state rfl
    exact ⟨inv_initial currentTime, rfl, nofun⟩
  have preserved : ∀ (current : State Double) event next, Inv current →
      (system destroyMessages currentTime).Step current event next → Inv next := by
    intro current event next inv stepped
    exact inv.step (stepped_of_step stepped)
  have inv := TransitionSystem.Reachable.invariant Inv
    (fun state start => (initial state start).1) preserved ⟨past, run⟩
  rw [inv.lossless_iff_kept runReturned stopReturned]
  refine run.final_iff Inv Kept Keeps initial preserved ?_
  intro current event next inv stepped
  exact inv.kept_iff (stepped_of_step stepped)

end Code

/-- Whole numbers, as far as a `double` is exact. -/
instance wholeNumbers : Arithmetic Nat where
  fixed value := CString.decimal value ++ [46, 48, 48, 48, 48, 48, 48]

def tradeAt (buffer : Nat) (timestamp : Word64) : Trade Nat where
  buffer := buffer
  contents := {
    messageType := 80
    sequenceNumber := 0
    tradeId := 7
    timestamp := timestamp
    price := 2
    quantity := 3
    buyerIsMaker := true
    bestMatch := true
    symbol := Vector.replicate 8 65 }

def stoppedLate : List (Event Nat) :=
  [Event.test, .dequeue (some (tradeAt 0 1500)), .compare, .aggregateTrade, .deallocate,
    .test, .dequeue (some (tradeAt 1 2500)), .compare, .sendMQ [0], .setTime,
    .aggregateTrade, .deallocate, .stop, .checkSize, .stopSendMQ [0], .test]

theorem lossless_iff_keeps_stopped :
    ∃ past, ∃ final : State Nat, (system true 1).Run past final ∧
      (Lossless final ↔ ∀ entry ∈ past, Keeps entry.1 entry.2) := by
  rcases TransitionSystem.exists_run_of_events (.initial 1) (step true) stoppedLate
    (fun final => final.run = .returned ∧ final.stop = .returned) (by decide +kernel) with
    ⟨past, final, run, _, runReturned, stopReturned⟩
  exact ⟨past, final, run, lossless_iff_keeps true 1 run runReturned stopReturned⟩

/-- `stop` looks at the map between the dequeue of a message and its `AggregateTrade`. -/
def stoppedEarly : List (Event Nat) :=
  [Event.test, .dequeue (some (tradeAt 0 1500)), .stop, .checkSize, .compare,
    .aggregateTrade, .deallocate, .test]

/-- The message stays in the map for ever. -/
theorem stopped_message_stays :
    ∃ final : State Nat, (system true 1).Reachable final ∧ final.run = .returned ∧
      final.stop = .returned ∧ final.dequeued = [tradeAt 0 1500] ∧
      final.published = [] ∧ ¬ Lossless final := by
  rcases TransitionSystem.exists_reachable_of_execute (.initial 1) (step true) stoppedEarly
    (fun final => final.run = .returned ∧ final.stop = .returned ∧
      final.dequeued = [tradeAt 0 1500] ∧ final.published = [] ∧ final.aggMap ≠ [])
    (by decide +kernel) with
    ⟨final, reachable, runReturned, stopReturned, dequeued, published, filled⟩
  exact ⟨final, reachable, runReturned, stopReturned, dequeued, published,
    fun lossless => filled lossless.emptied⟩

end FeederNet.AggTradeMQSender
