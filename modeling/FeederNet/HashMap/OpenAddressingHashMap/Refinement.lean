import FeederNet.HashMap.OpenAddressingHashMap.Contents

/-! # OpenAddressingHashMap as a finite map

Every sequence of calls returns. Its results are those of a finite map, and no key
gets a second slot, exactly when no call writes a key that a tombstone hides.
-/

namespace FeederNet.HashMap.OpenAddressingHashMap

variable {Key Value : Type} [DecidableEq Key] [Inhabited Key] [Inhabited Value]

/-- `insert` and `operator[]` reach the slot of `key`: no tombstone comes before it,
or the table grows first. -/
def Accessible (hash : Key → Word64) (load : LoadFactor)
    (map : OpenAddressingHashMap Key Value) (key : Key) : Prop :=
  load.exceeded (map.size + 1) map.table.length = true ∨ Exposed hash map key

def Clear (hash : Key → Word64) (load : LoadFactor)
    (map : OpenAddressingHashMap Key Value) : Operation Key Value → Prop
  | .insert key _ | .read key | .assign key _ => Accessible hash load map key
  | .contains _ | .erase _ | .find _ => True

/-- The table that `insert` or `operator[]` writes to, grown or not, and where it
stops there. -/
structure Prepared (hash : Key → Word64) (load : LoadFactor)
    (map : OpenAddressingHashMap Key Value) (key : Key)
    (base : OpenAddressingHashMap Key Value) (stop : Nat) : Prop where
  wellFormed : WellFormed hash load base
  first : FirstStop hash base key (stopsInsert key) stop
  room : (base.nodeAt (base.slotAt hash key stop)).isOccupied = false →
    load.exceeded (base.size + 1) base.table.length = false
  distinct : Distinct map → Distinct base
  exposed : Distinct map → (Exposed hash base key ↔ Accessible hash load map key)
  represents : Distinct map → ∀ contents, Represents map contents →
    Represents base contents

section Prepared

variable {hash : Key → Word64} {load : LoadFactor}
  {map base : OpenAddressingHashMap Key Value} {key : Key} {stop : Nat}

theorem holds_of_occupied (first : FirstStop hash map key (stopsInsert key) stop)
    (occupied : (map.nodeAt (map.slotAt hash key stop)).isOccupied = true) :
    (map.nodeAt (map.slotAt hash key stop)).holds key = true := by
  have stopped := first.stopped
  rw [stopsInsert, occupied] at stopped
  exact Node.holds_iff.mpr ⟨occupied, of_decide_eq_true stopped⟩

theorem WellFormed.prepared_occupied (wellFormed : WellFormed hash load map)
    (first : FirstStop hash map key (stopsInsert key) stop)
    (occupied : (map.nodeAt (map.slotAt hash key stop)).isOccupied = true) :
    Prepared hash load map key map stop where
  wellFormed := wellFormed
  first := first
  room free := absurd occupied (by simp [free])
  distinct := id
  exposed distinct := by
    have exposed : Exposed hash map key :=
      (wellFormed.sole_iff_exposed distinct first).mp fun other holds =>
        distinct key _ _ holds (holds_of_occupied first occupied)
    exact iff_of_true exposed (.inr exposed)
  represents _ _ := id

theorem WellFormed.prepared_room (wellFormed : WellFormed hash load map)
    (first : FirstStop hash map key (stopsInsert key) stop)
    (room : load.exceeded (map.size + 1) map.table.length = false) :
    Prepared hash load map key map stop where
  wellFormed := wellFormed
  first := first
  room _ := room
  distinct := id
  exposed _ := by
    rw [Accessible, room]
    exact (or_iff_right (by simp)).symm
  represents _ _ := id

theorem Rehashed.room
    (rehashed : Rehashed hash load (map.table.length * 2) map.table base)
    (wellFormed : WellFormed hash load map) :
    load.exceeded (base.size + 1) base.table.length = false := by
  rcases wellFormed.power with ⟨exponent, equal⟩
  have fits := wellFormed.fits
  have bounded := rehashed.bounded
  rw [← wellFormed.counted] at bounded
  rw [rehashed.length]
  rw [equal] at fits ⊢
  exact load.not_exceeded_of_le (Nat.succ_le_succ bounded)
    (load.not_exceeded_doubled fits)

theorem WellFormed.prepared_grown (wellFormed : WellFormed hash load map)
    (exceeded : load.exceeded (map.size + 1) map.table.length = true)
    (rehashed : Rehashed hash load (map.table.length * 2) map.table base)
    (first : FirstStop hash base key (stopsInsert key) stop) :
    Prepared hash load map key base stop where
  wellFormed := rehashed.wellFormed
  first := first
  room _ := rehashed.room wellFormed
  distinct _ := rehashed.distinct
  exposed _ := iff_of_true (rehashed.exposed key) (.inl exceeded)
  represents distinct _ := rehashed.preserves distinct

theorem Prepared.distinct_put_iff (prepared : Prepared hash load map key base stop)
    (distinct : Distinct map) (value : Value) :
    Distinct (base.put (base.slotAt hash key stop) key value) ↔
      Accessible hash load map key :=
  (prepared.wellFormed.distinct_put_iff (prepared.distinct distinct) prepared.first
    value).trans (prepared.exposed distinct)

theorem Prepared.sole (prepared : Prepared hash load map key base stop)
    (distinct : Distinct map) (accessible : Accessible hash load map key) (other : Nat)
    (holds : (base.nodeAt other).holds key = true) :
    other = base.slotAt hash key stop :=
  (prepared.wellFormed.sole_iff_exposed (prepared.distinct distinct)
    prepared.first).mpr ((prepared.exposed distinct).mpr accessible) other holds

theorem Prepared.represents_put (prepared : Prepared hash load map key base stop)
    (distinct : Distinct map) (accessible : Accessible hash load map key)
    {contents : Key → Option Value} (represents : Represents map contents)
    (value : Value) :
    Represents (base.put (base.slotAt hash key stop) key value)
      (Function.update contents key (some value)) :=
  (prepared.represents distinct contents represents).put
    (prepared.wellFormed.slotAt_lt _ _ _) prepared.first.stopped
    (prepared.sole distinct accessible) value

theorem Prepared.current_eq (prepared : Prepared hash load map key base stop)
    (distinct : Distinct map) (accessible : Accessible hash load map key)
    {contents : Key → Option Value} (represents : Represents map contents) :
    base.current (base.slotAt hash key stop) = (contents key).getD default := by
  have represents := prepared.represents distinct contents represents
  unfold current
  cases occupied : (base.nodeAt (base.slotAt hash key stop)).isOccupied with
  | true =>
      have node := Node.eq_of_holds (holds_of_occupied prepared.first occupied)
      rw [(represents key _).mpr ⟨_, node⟩, if_pos rfl, Option.getD_some]
  | false =>
      cases found : contents key with
      | none => rfl
      | some value =>
          rcases (represents key value).mp found with ⟨index, node⟩
          have holds : (base.nodeAt index).holds key = true := Node.holds_of_eq node
          rw [← prepared.sole distinct accessible index holds, node] at occupied
          cases occupied

/-! ## The calls -/

theorem WellFormed.exists_insert (wellFormed : WellFormed hash load map) (key : Key)
    (value : Value) :
    ∃ base stop, Prepared hash load map key base stop ∧
      ∀ fuel, map.table.length * 2 + 1 < fuel →
        insert hash load fuel map key value =
          .ok (base.put (base.slotAt hash key stop) key value) := by
  cases exceeded : load.exceeded (map.size + 1) map.table.length with
  | false =>
      rcases wellFormed.exists_stopsInsert key with ⟨stop, first⟩
      refine ⟨map, stop, wellFormed.prepared_room first exceeded, fun fuel enough => ?_⟩
      exact wellFormed.insert_eq exceeded first value (by omega)
  | true =>
      rcases wellFormed.exists_reHash with ⟨grown, rehashed, grows⟩
      rcases rehashed.wellFormed.exists_stopsInsert key with ⟨stop, first⟩
      refine ⟨grown, stop, wellFormed.prepared_grown exceeded rehashed first,
        fun fuel enough => ?_⟩
      cases fuel with
      | zero => omega
      | succ fuel =>
          have returns : reHashWith (insert hash load fuel) map = .ok grown :=
            grows fuel (by omega)
          have length := rehashed.length
          rw [insert, exceeded, if_pos rfl, returns]
          exact rehashed.wellFormed.insertLoaded_eq first value (by omega)

theorem put_own_value (first : FirstStop hash base key (stopsInsert key) stop)
    (below : base.slotAt hash key stop < base.table.length)
    (occupied : (base.nodeAt (base.slotAt hash key stop)).isOccupied = true) :
    base.put (base.slotAt hash key stop) key
      (base.current (base.slotAt hash key stop)) = base := by
  have node := Node.eq_of_holds (holds_of_occupied first occupied)
  rw [put, current, if_pos occupied, if_pos occupied, ← node, replace, nodeAt,
    List.getElem?_eq_getElem below, Option.getD_some, List.set_getElem_self]

theorem WellFormed.operatorIndex_eq (wellFormed : WellFormed hash load base)
    (first : FirstStop hash base key (stopsInsert key) stop)
    (room : (base.nodeAt (base.slotAt hash key stop)).isOccupied = false →
      load.exceeded (base.size + 1) base.table.length = false)
    {fuel : Nat} (enough : base.table.length < fuel) :
    operatorIndex hash load fuel base key =
      .ok (base.slotAt hash key stop, base.put (base.slotAt hash key stop) key
        (base.current (base.slotAt hash key stop))) := by
  cases fuel with
  | zero => omega
  | succ fuel =>
      have probes := wellFormed.probe_stop first (Nat.le_of_lt_succ enough)
      unfold stopsInsert at probes
      rw [operatorIndex, probes]
      cases occupied : (base.nodeAt (base.slotAt hash key stop)).isOccupied with
      | true =>
          rw [put_own_value first (wellFormed.slotAt_lt _ _ _) occupied]
          simp only [occupied, if_true]
      | false =>
          simp only [occupied, room occupied, OpenAddressingHashMap.put, current]
          rfl

theorem WellFormed.exists_operatorIndex (wellFormed : WellFormed hash load map)
    (key : Key) :
    ∃ base stop, Prepared hash load map key base stop ∧
      ∀ fuel, map.table.length * 2 + 1 < fuel →
        operatorIndex hash load fuel map key =
          .ok (base.slotAt hash key stop, base.put (base.slotAt hash key stop) key
            (base.current (base.slotAt hash key stop))) := by
  rcases wellFormed.exists_stopsInsert key with ⟨stop, first⟩
  cases occupied : (map.nodeAt (map.slotAt hash key stop)).isOccupied with
  | true =>
      refine ⟨map, stop, wellFormed.prepared_occupied first occupied,
        fun fuel enough => ?_⟩
      exact wellFormed.operatorIndex_eq first (by simp [occupied]) (by omega)
  | false =>
      cases exceeded : load.exceeded (map.size + 1) map.table.length with
      | false =>
          refine ⟨map, stop, wellFormed.prepared_room first exceeded,
            fun fuel enough => ?_⟩
          exact wellFormed.operatorIndex_eq first (fun _ => exceeded) (by omega)
      | true =>
          rcases wellFormed.exists_reHash with ⟨grown, rehashed, grows⟩
          rcases rehashed.wellFormed.exists_stopsInsert key with ⟨regrown, again⟩
          refine ⟨grown, regrown, wellFormed.prepared_grown exceeded rehashed again,
            fun fuel enough => ?_⟩
          cases fuel with
          | zero => omega
          | succ fuel =>
              have reaches : map.table.length ≤ fuel := by omega
              have probes := wellFormed.probe_stop first reaches
              unfold stopsInsert at probes
              have length := rehashed.length
              rw [operatorIndex, probes]
              simp only [occupied, exceeded, grows fuel (by omega)]
              exact rehashed.wellFormed.operatorIndex_eq again
                (fun _ => rehashed.room wellFormed) (by omega)

end Prepared

/-! ## Tombstones -/

section Remove

variable {hash : Key → Word64} {load : LoadFactor}
  {map : OpenAddressingHashMap Key Value} {key : Key} {index place : Nat}
  {contents : Key → Option Value}

def remove (map : OpenAddressingHashMap Key Value) (index : Nat) :
    OpenAddressingHashMap Key Value :=
  map.replace index { map.nodeAt index with status := .deleted } (map.size - 1)

theorem WellFormed.remove (wellFormed : WellFormed hash load map)
    (holds : (map.nodeAt index).holds key = true) :
    WellFormed hash load (map.remove index) := by
  have below := lt_of_holds holds
  refine wellFormed.replace below rfl ?_ ?_ nofun
  · rw [countP_replace _ _ below, (Node.holds_iff.mp holds).1, wellFormed.counted]
    rfl
  · exact load.not_exceeded_of_le (Nat.sub_le _ _) wellFormed.fits

omit [DecidableEq Key] in
theorem nodeAt_remove_of_occupied (below : index < map.table.length)
    (occupied : ((map.remove index).nodeAt place).isOccupied = true) :
    place ≠ index ∧ (map.remove index).nodeAt place = map.nodeAt place := by
  by_cases target : place = index
  · rw [remove, target, nodeAt_replace_self _ _ below] at occupied
    cases occupied
  · exact ⟨target, nodeAt_replace_of_ne _ _ target⟩

theorem Distinct.remove (distinct : Distinct map) (below : index < map.table.length) :
    Distinct (map.remove index) := by
  intro key left right leftHolds rightHolds
  have leftKept := nodeAt_remove_of_occupied below (Node.holds_iff.mp leftHolds).1
  have rightKept := nodeAt_remove_of_occupied below (Node.holds_iff.mp rightHolds).1
  rw [leftKept.2] at leftHolds
  rw [rightKept.2] at rightHolds
  exact distinct key left right leftHolds rightHolds

theorem Represents.remove (represents : Represents map contents) (distinct : Distinct map)
    (holds : (map.nodeAt index).holds key = true) :
    Represents (map.remove index) (Function.update contents key none) := by
  have below := lt_of_holds holds
  have kept : ∀ other value place,
      (map.remove index).nodeAt place = ⟨other, value, .occupied⟩ →
        place ≠ index ∧ map.nodeAt place = ⟨other, value, .occupied⟩ := by
    intro other value place stands
    have occupied : ((map.remove index).nodeAt place).isOccupied = true := by
      rw [stands]
      rfl
    have same := nodeAt_remove_of_occupied below occupied
    exact ⟨same.1, same.2.symm.trans stands⟩
  intro other value
  by_cases same : other = key
  · subst same
    rw [Function.update_self]
    refine iff_of_false nofun ?_
    rintro ⟨place, stands⟩
    rcases kept other value place stands with ⟨different, before⟩
    exact different (distinct other _ _ (Node.holds_of_eq before) holds)
  · rw [Function.update_of_ne same, represents]
    constructor
    · rintro ⟨place, stands⟩
      refine ⟨place, ?_⟩
      rw [OpenAddressingHashMap.remove, nodeAt_replace_of_ne, stands]
      rintro rfl
      rw [Node.eq_of_holds holds] at stands
      cases stands
      exact same rfl
    · rintro ⟨place, stands⟩
      exact ⟨place, (kept other value place stands).2⟩

theorem Finds.value {found : Option (Nat × Node Key Value)} (finds : Finds map key found)
    {contents : Key → Option Value} (represents : Represents map contents) :
    contents key = found.map fun entry => map.valueAt entry.1 := by
  cases finds with
  | found holds => exact (represents key _).mpr ⟨_, Node.eq_of_holds holds⟩
  | absent nowhere =>
      cases found : contents key with
      | none => rfl
      | some value =>
          rcases represents.holds_iff.mpr (by rw [found]; rfl) with ⟨index, holds⟩
          rw [nowhere index] at holds
          cases holds

theorem WellFormed.exists_erase (wellFormed : WellFormed hash load map) (key : Key) :
    ∃ flag after, WellFormed hash load after ∧
      (Distinct map → Distinct after ∧ ∀ contents, Represents map contents →
        flag = (contents key).isSome ∧
          Represents after (Function.update contents key none)) ∧
      ∀ fuel, map.table.length ≤ fuel →
        map.erase hash fuel key = .ok (flag, after) := by
  rcases wellFormed.exists_lookup key with ⟨found, finds, looks⟩
  have value : ∀ contents, Represents map contents →
      contents key = found.map fun entry => map.valueAt entry.1 :=
    fun _ => finds.value
  cases finds with
  | absent nowhere =>
      refine ⟨false, map, wellFormed, fun distinct => ⟨distinct, ?_⟩, fun fuel enough => ?_⟩
      · intro contents represents
        have missing : contents key = none := value contents represents
        refine ⟨by rw [missing]; rfl, ?_⟩
        rw [← missing, Function.update_eq_self]
        exact represents
      · rw [erase, looks fuel enough]
        rfl
  | @found index holds =>
      have below := lt_of_holds holds
      refine ⟨true, map.remove index, wellFormed.remove holds,
        fun distinct => ⟨distinct.remove below, ?_⟩, fun fuel enough => ?_⟩
      · intro contents represents
        rw [value contents represents]
        exact ⟨rfl, represents.remove distinct holds⟩
      · rw [erase, looks fuel enough]
        rfl

end Remove

/-! ## Sequences of calls -/

/-- What a call that has returned has done. -/
structure Effect (hash : Key → Word64) (load : LoadFactor)
    (map : OpenAddressingHashMap Key Value) (operation : Operation Key Value)
    (result : Result Value) (after : OpenAddressingHashMap Key Value) : Prop where
  wellFormed : WellFormed hash load after
  distinct_iff : Distinct map → (Distinct after ↔ Clear hash load map operation)
  refines : Distinct map → Clear hash load map operation →
    ∀ contents, Represents map contents →
      result = (FiniteMap.apply contents operation).1 ∧
        Represents after (FiniteMap.apply contents operation).2

section Calls

variable {hash : Key → Word64} {load : LoadFactor}
  {map base : OpenAddressingHashMap Key Value} {key : Key} {stop : Nat}

theorem Effect.of_put {operation : Operation Key Value} {result : Result Value}
    (value : Value) (prepared : Prepared hash load map key base stop)
    (writes : Clear hash load map operation ↔ Accessible hash load map key)
    (applies : Distinct map → Accessible hash load map key →
      ∀ contents, Represents map contents → (FiniteMap.apply contents operation) =
        (result, Function.update contents key (some value))) :
    Effect hash load map operation result
      (base.put (base.slotAt hash key stop) key value) where
  wellFormed := prepared.wellFormed.put prepared.first prepared.room value
  distinct_iff distinct := (prepared.distinct_put_iff distinct value).trans writes.symm
  refines distinct clear contents represents := by
    have accessible := writes.mp clear
    rw [applies distinct accessible contents represents]
    exact ⟨rfl, prepared.represents_put distinct accessible represents value⟩

theorem Effect.of_lookup {operation : Operation Key Value} {result : Result Value}
    (wellFormed : WellFormed hash load map)
    (reads : Clear hash load map operation)
    (applies : Distinct map → ∀ contents, Represents map contents →
      (FiniteMap.apply contents operation) = (result, contents)) :
    Effect hash load map operation result map where
  wellFormed := wellFormed
  distinct_iff distinct := iff_of_true distinct reads
  refines distinct _ contents represents := by
    rw [applies distinct contents represents]
    exact ⟨rfl, represents⟩

omit [DecidableEq Key] in
theorem setValueAt_put {index : Nat} (below : index < base.table.length)
    (old value : Value) :
    (base.put index key old).setValueAt index value = base.put index key value := by
  unfold setValueAt
  rw [List.modify_eq_set]
  have written : ((base.put index key old).table[index]?).getD default =
      ⟨key, old, .occupied⟩ := nodeAt_put_self old below
  rw [written]
  simp only [put, replace, List.set_set]

theorem WellFormed.exists_apply (wellFormed : WellFormed hash load map)
    (operation : Operation Key Value) :
    ∃ result after, Effect hash load map operation result after ∧
      ∀ fuel, map.table.length * 2 + 1 < fuel →
        map.apply hash load fuel operation = .ok (result, after) := by
  cases operation with
  | insert key value =>
      rcases wellFormed.exists_insert key value with ⟨base, stop, prepared, returns⟩
      refine ⟨.done, _, .of_put value prepared Iff.rfl fun _ _ _ _ => rfl,
        fun fuel enough => ?_⟩
      rw [apply, returns fuel enough]
      rfl
  | read key =>
      rcases wellFormed.exists_operatorIndex key with ⟨base, stop, prepared, returns⟩
      have below := prepared.wellFormed.slotAt_lt hash key stop
      refine ⟨.value (base.current (base.slotAt hash key stop)), _,
        .of_put (base.current (base.slotAt hash key stop)) prepared Iff.rfl ?_,
        fun fuel enough => ?_⟩
      · intro distinct accessible contents represents
        rw [FiniteMap.apply, ← prepared.current_eq distinct accessible represents]
      · rw [apply, returns fuel enough]
        simp only [Except.map, valueAt, nodeAt_put_self _ below]
  | assign key value =>
      rcases wellFormed.exists_operatorIndex key with ⟨base, stop, prepared, returns⟩
      have below := prepared.wellFormed.slotAt_lt hash key stop
      refine ⟨.done, _, .of_put value prepared Iff.rfl fun _ _ _ _ => rfl,
        fun fuel enough => ?_⟩
      rw [apply, returns fuel enough]
      simp only [Except.map, setValueAt_put below]
  | contains key =>
      rcases wellFormed.exists_lookup key with ⟨found, finds, looks⟩
      refine ⟨.flag found.isSome, map, .of_lookup wellFormed trivial ?_,
        fun fuel enough => ?_⟩
      · intro _ contents represents
        rw [FiniteMap.apply, finds.value represents, Option.isSome_map]
      · rw [apply, contains, looks fuel (by omega)]
        rfl
  | erase key =>
      rcases wellFormed.exists_erase key with ⟨flag, after, kept, erases, returns⟩
      refine ⟨.flag flag, after, ⟨kept, ?_, ?_⟩, fun fuel enough => ?_⟩
      · intro distinct
        exact iff_of_true (erases distinct).1 trivial
      · intro distinct _ contents represents
        rcases (erases distinct).2 contents represents with ⟨rfl, removed⟩
        exact ⟨rfl, removed⟩
      · rw [apply, returns fuel (by omega)]
        rfl
  | find key =>
      rcases wellFormed.exists_lookup key with ⟨found, finds, looks⟩
      refine ⟨.pointer (found.map fun entry => map.valueAt entry.1), map,
        .of_lookup wellFormed trivial ?_, fun fuel enough => ?_⟩
      · intro _ contents represents
        rw [FiniteMap.apply, finds.value represents]
      · rw [apply, find, looks fuel (by omega)]
        cases found <;> rfl

/-- The calls had the results of a finite map, and left no key in two slots. -/
def RefinesMap (contents : Key → Option Value) (operations : List (Operation Key Value))
    (calls : List (Call Key Value)) : Prop :=
  calls.map Call.result = FiniteMap.results contents operations ∧
    ∀ call ∈ calls, Distinct call.after

theorem WellFormed.exists_run (wellFormed : WellFormed hash load map)
    (operations : List (Operation Key Value)) :
    ∃ calls,
      (∃ bound, ∀ fuel, bound ≤ fuel → run hash load fuel map operations = .ok calls) ∧
        (∀ call ∈ calls, WellFormed hash load call.after) ∧
        ∀ contents, Distinct map → Represents map contents →
          (RefinesMap contents operations calls ↔
            ∀ call ∈ calls, Clear hash load call.before call.operation) := by
  induction operations generalizing map with
  | nil =>
      exact ⟨[], ⟨0, fun _ _ => rfl⟩, nofun,
        fun _ _ _ => iff_of_true ⟨rfl, nofun⟩ nofun⟩
  | cons operation operations induction =>
      rcases wellFormed.exists_apply operation with ⟨result, after, effect, returns⟩
      rcases induction effect.wellFormed with ⟨calls, ⟨bound, runs⟩, kept, exact⟩
      refine ⟨⟨map, operation, result, after⟩ :: calls,
        ⟨max bound (map.table.length * 2 + 2), fun fuel enough => ?_⟩,
        List.forall_mem_cons.mpr ⟨effect.wellFormed, kept⟩, ?_⟩
      · rw [run, returns fuel (by omega)]
        simp only [runs fuel (by omega)]
      · intro contents distinct represents
        rw [RefinesMap, List.map_cons, FiniteMap.results, List.forall_mem_cons,
          List.forall_mem_cons]
        by_cases clear : Clear hash load map operation
        · rcases effect.refines distinct clear contents represents with ⟨same, next⟩
          have single := (effect.distinct_iff distinct).mpr clear
          rw [← exact _ single next, RefinesMap, same]
          simp only [List.cons.injEq, true_and, single, clear]
        · have double : ¬ Distinct after :=
            fun single => clear ((effect.distinct_iff distinct).mp single)
          exact iff_of_false (fun refines => double refines.2.1)
            fun clears => clear clears.1

end Calls

/-- Every sequence of calls returns, and refines a finite map exactly when no
`insert` or `operator[]` of the sequence writes a key that a tombstone hides. -/
theorem refinesMap_iff_clear (hash : Key → Word64) (load : LoadFactor)
    (buckets : PowerOfTwo) (operations : List (Operation Key Value)) :
    ∃ calls,
      (∃ bound, ∀ fuel, bound ≤ fuel →
        run hash load fuel (construct buckets.toNat) operations = .ok calls) ∧
        (RefinesMap (fun _ => none) operations calls ↔
          ∀ call ∈ calls, Clear hash load call.before call.operation) := by
  rcases buckets.exists_exponent with ⟨exponent, _, power⟩
  have rehashed : Rehashed hash load buckets.toNat []
      (construct buckets.toNat : OpenAddressingHashMap Key Value) :=
    rehashed_construct hash load power
  rcases rehashed.wellFormed.exists_run operations with
    ⟨calls, runs, _, exact⟩
  exact ⟨calls, runs, exact _ rehashed.distinct rehashed.represents⟩

/-- Keys 1 and 5 collide in four buckets; 5 is written again after the slot of 1,
which comes first, has become a tombstone. -/
def hiddenKey : List (Operation Nat Nat) :=
  [.insert 1 10, .insert 5 50, .erase 1, .insert 5 51, .erase 5, .contains 5, .find 5]

/-- The erased key is still there, with its first value. -/
theorem hidden_key_survives_erase :
    ∃ calls,
      run (BitVec.ofNat 64) .rounded 10 (construct 4) hiddenKey = .ok calls ∧
        calls.map Call.result ≠ FiniteMap.results (fun _ => none) hiddenKey ∧
        (calls.map Call.result).drop 4 = [.flag true, .flag true, .pointer (some 50)] ∧
        (FiniteMap.results (fun _ => none) hiddenKey).drop 4 =
          [.flag true, .flag false, .pointer none] := by
  refine ⟨_, rfl, ?_⟩
  decide

end FeederNet.HashMap.OpenAddressingHashMap
