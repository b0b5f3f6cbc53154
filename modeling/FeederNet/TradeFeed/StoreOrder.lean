import FeederNet.TradeFeed.TradeMsgStore

/-! # What determines the merged store

The order in which the directory is visited, and the order in which the sort leaves
trades of one timestamp, against the files themselves.
-/

namespace FeederNet.TradeFeed.TradeMsgStore

variable {Double : Type} {stod : Stod Double} {directory visited : List TradeFile}
  {sort : StdSort (ITCHTradeMsg Double) earlier}

def sortedTrades (stod : Stod Double) (sort : StdSort (ITCHTradeMsg Double) earlier)
    (visited : List TradeFile) : List (ITCHTradeMsg Double) :=
  (sort.sort (numberedFrom 0 (allTrades stod visited))).map unnumbered

section Sorted

theorem sortedTrades_perm (stod : Stod Double)
    (sort : StdSort (ITCHTradeMsg Double) earlier) (visits : visited.Perm directory) :
    (sortedTrades stod sort visited).Perm (allTrades stod directory) := by
  have sorted := (sort.perm (numberedFrom 0 (allTrades stod visited))).map unnumbered
  rw [map_unnumbered_numberedFrom, map_unnumbered_allTrades] at sorted
  exact sorted.trans (allTrades_perm visits)

theorem sortedTrades_ordered : (sortedTrades stod sort visited).Pairwise
    fun first second => first.timestamp ≤ second.timestamp :=
  List.pairwise_map.mpr ((sort.ordered _).imp BitVec.not_lt.mp)

theorem numberedFrom_map_unnumbered (first : Nat) (store : List (ITCHTradeMsg Double)) :
    numberedFrom first (store.map unnumbered) = numberedFrom first store := by
  apply List.ext_getElem
  · simp
  · intro index _ _
    simp [numberedFrom, unnumbered, withSequence]

theorem map_unnumbered_sortedTrades :
    (sortedTrades stod sort visited).map unnumbered = sortedTrades stod sort visited := by
  rw [sortedTrades, List.map_map]
  rfl

theorem ofDirectory_eq_sortedTrades
    (parses : ∀ file ∈ visited, file.isTrades = true → Parses stod file) :
    ofDirectory stod sort visited =
      .ok (numberedFrom 0 (sortedTrades stod sort visited)) := by
  rw [ofDirectory_of_parses sort parses, sortedTrades, numberedFrom_map_unnumbered]

theorem tradesIn_sublist {file : TradeFile} (member : file ∈ directory)
    (trades : file.isTrades = true) :
    (tradesIn stod file).Sublist (allTrades stod directory) := by
  rw [allTrades, List.flatMap_def]
  exact List.sublist_flatten_of_mem
    (List.mem_map_of_mem (List.mem_filter.mpr ⟨member, trades⟩))

theorem sortedTrades_byKey (stod : Stod Double) (visited : List TradeFile)
    (key : ITCHTradeMsg Double → Nat)
    (finer : ∀ first second, earlier second first → key second < key first)
    (ignores : ∀ msg, key (unnumbered msg) = key msg) :
    (sortedTrades stod (.byKey earlier key finer) visited).Pairwise
      fun first second => key first ≤ key second := by
  apply List.pairwise_map.mpr
  exact (List.pairwise_insertionSort (fun first second => key first ≤ key second) _).imp
    fun le => by rwa [ignores, ignores]

end Sorted

/-- The trades of a file keep their order in the store, and the store depends neither on the
order in which the directory is visited nor on the sort. -/
structure Determined (stod : Stod Double) (directory : List TradeFile) : Prop where
  keepsOrder : ∀ (sort : StdSort (ITCHTradeMsg Double) earlier) (visited : List TradeFile)
    (store : List (ITCHTradeMsg Double)), visited.Perm directory →
      ofDirectory stod sort visited = .ok store →
        ∀ file ∈ directory, file.isTrades = true →
          (tradesIn stod file).Sublist (store.map unnumbered)
  visitedAlike : ∀ (sort : StdSort (ITCHTradeMsg Double) earlier)
    (visited other : List TradeFile), visited.Perm directory → other.Perm directory →
      ofDirectory stod sort visited = ofDirectory stod sort other
  sortedAlike : ∀ (sort other : StdSort (ITCHTradeMsg Double) earlier)
    (visited : List TradeFile), visited.Perm directory →
      ofDirectory stod sort visited = ofDirectory stod other visited

/-- Trades of one timestamp are the same apart from their numbers. -/
def TiesAlike (stod : Stod Double) (directory : List TradeFile) : Prop :=
  ∀ first ∈ allTrades stod directory, ∀ second ∈ allTrades stod directory,
    first.timestamp = second.timestamp → first = second

section Exactness

theorem sortedTrades_eq_of_tiesAlike (alike : TiesAlike stod directory)
    (sort other : StdSort (ITCHTradeMsg Double) earlier) {visited otherVisited : List TradeFile}
    (visits : visited.Perm directory) (otherVisits : otherVisited.Perm directory) :
    sortedTrades stod sort visited = sortedTrades stod other otherVisited := by
  have same := sortedTrades_perm stod sort visits
  have otherSame := sortedTrades_perm stod other otherVisits
  apply eq_of_perm_of_ties (fun _ _ => BitVec.le_antisymm) sortedTrades_ordered
    sortedTrades_ordered (same.trans otherSame.symm)
  intro first firstMem second secondMem
  exact alike first (same.subset firstMem) second (otherSame.subset secondMem)

theorem determined_of_tiesAlike
    (parses : ∀ file ∈ directory, file.isTrades = true → Parses stod file)
    (ordered : ∀ file ∈ directory, file.isTrades = true → (tradesIn stod file).Pairwise
      fun first second => first.timestamp ≤ second.timestamp)
    (alike : TiesAlike stod directory) : Determined stod directory := by
  have parsesVisited : ∀ {visited : List TradeFile}, visited.Perm directory →
      ∀ file ∈ visited, file.isTrades = true → Parses stod file :=
    fun visits file member => parses file (visits.subset member)
  constructor
  · intro sort visited store visits loaded file member trades
    rw [ofDirectory_eq_sortedTrades (parsesVisited visits)] at loaded
    cases loaded
    have same := sortedTrades_perm stod sort visits
    rw [map_unnumbered_numberedFrom, map_unnumbered_sortedTrades]
    apply sublist_of_subperm_of_ties (fun _ _ => BitVec.le_antisymm)
      (ordered file member trades) sortedTrades_ordered
    · exact (tradesIn_sublist member trades).subperm.trans same.symm.subperm
    · intro first firstMem second secondMem
      exact alike first (same.subset firstMem) second (same.subset secondMem)
  · intro sort visited other visits otherVisits
    rw [ofDirectory_eq_sortedTrades (parsesVisited visits),
      ofDirectory_eq_sortedTrades (parsesVisited otherVisits),
      sortedTrades_eq_of_tiesAlike alike sort sort visits otherVisits]
  · intro sort other visited visits
    rw [ofDirectory_eq_sortedTrades (parsesVisited visits),
      ofDirectory_eq_sortedTrades (parsesVisited visits),
      sortedTrades_eq_of_tiesAlike alike sort other visits visits]

theorem Determined.not_pair (determined : Determined stod directory)
    (parses : ∀ file ∈ directory, file.isTrades = true → Parses stod file)
    {file : TradeFile} (member : file ∈ directory) (trades : file.isTrades = true)
    {first second : ITCHTradeMsg Double} (tie : first.timestamp = second.timestamp)
    (different : first ≠ second) : ¬ [first, second].Sublist (tradesIn stod file) := by
  classical
  intro pair
  let late (msg : ITCHTradeMsg Double) : Nat := if unnumbered msg = first then 1 else 0
  let key (msg : ITCHTradeMsg Double) : Nat := 2 * msg.timestamp.toNat + late msg
  have atMost : ∀ msg, late msg ≤ 1 := by
    intro msg
    simp only [late]
    split <;> omega
  have finer : ∀ first second, earlier second first → key second < key first := by
    intro first second before
    have less : second.timestamp.toNat < first.timestamp.toNat := before
    have small := atMost second
    simp only [key]
    omega
  have ordered := sortedTrades_byKey stod directory key finer fun msg => rfl
  have kept := determined.keepsOrder (.byKey earlier key finer) directory _ (.refl _)
    (ofDirectory_eq_sortedTrades parses) file member trades
  rw [map_unnumbered_numberedFrom, map_unnumbered_sortedTrades] at kept
  have inOrder : [first, second].Pairwise fun first second => key first ≤ key second :=
    ordered.sublist (pair.trans kept)
  have le := List.pairwise_pair.mp inOrder
  have firstSame := unnumbered_of_tradesIn first (pair.subset (by simp))
  have secondSame := unnumbered_of_tradesIn second (pair.subset (by simp))
  have firstLate : late first = 1 := if_pos firstSame
  have secondLate : late second = 0 := if_neg (by rw [secondSame]; exact different.symm)
  simp only [key, firstLate, secondLate, tie] at le
  omega

theorem Determined.eq_of_same_file (determined : Determined stod directory)
    (parses : ∀ file ∈ directory, file.isTrades = true → Parses stod file)
    {file : TradeFile} (member : file ∈ directory) (trades : file.isTrades = true)
    {first second : ITCHTradeMsg Double} (firstMem : first ∈ tradesIn stod file)
    (secondMem : second ∈ tradesIn stod file)
    (tie : first.timestamp = second.timestamp) : first = second := by
  by_contra different
  rcases pair_sublist_or different firstMem secondMem with pair | pair
  · exact determined.not_pair parses member trades tie different pair
  · exact determined.not_pair parses member trades tie.symm (Ne.symm different) pair

theorem filter_sortedTrades (visited : List TradeFile) (timestamp : Nat) :
    (sortedTrades stod byTimestamp visited).filter
        (fun msg => msg.timestamp.toNat = timestamp) =
      (allTrades stod visited).filter fun msg => msg.timestamp.toNat = timestamp := by
  have stable := filter_byKey earlier
    (fun msg : ITCHTradeMsg Double => msg.timestamp.toNat) (fun _ _ before => before)
    timestamp (numberedFrom 0 (allTrades stod visited))
  have ignores : (fun msg : ITCHTradeMsg Double =>
      decide (msg.timestamp.toNat = timestamp)) ∘ unnumbered =
        fun msg => decide (msg.timestamp.toNat = timestamp) := rfl
  calc
    _ = (((byTimestamp.sort (numberedFrom 0 (allTrades stod visited))).filter
          fun msg => msg.timestamp.toNat = timestamp).map unnumbered) := by
        rw [sortedTrades, List.filter_map, ignores]
    _ = (((numberedFrom 0 (allTrades stod visited)).filter
          fun msg => msg.timestamp.toNat = timestamp).map unnumbered) :=
        congrArg (List.map unnumbered) stable
    _ = _ := by
        rw [← ignores, ← List.filter_map, map_unnumbered_numberedFrom,
          map_unnumbered_allTrades, ignores]

theorem head?_filter_sortedTrades {file : TradeFile} (rest : List TradeFile)
    (trades : file.isTrades = true) {msg : ITCHTradeMsg Double}
    (found : msg ∈ tradesIn stod file)
    (alike : ∀ other ∈ tradesIn stod file, other.timestamp = msg.timestamp → other = msg) :
    ((sortedTrades stod byTimestamp (file :: rest)).filter fun other =>
      other.timestamp.toNat = msg.timestamp.toNat).head? = some msg := by
  have first : ((tradesIn stod file).filter fun other =>
      decide (other.timestamp.toNat = msg.timestamp.toNat)).head? = some msg := by
    cases selected : (tradesIn stod file).filter fun other =>
        decide (other.timestamp.toNat = msg.timestamp.toNat) with
    | nil =>
        have member : msg ∈ (tradesIn stod file).filter fun other =>
            decide (other.timestamp.toNat = msg.timestamp.toNat) :=
          List.mem_filter.mpr ⟨found, decide_eq_true rfl⟩
        rw [selected] at member
        cases member
    | cons head tail =>
        have member : head ∈ (tradesIn stod file).filter fun other =>
            decide (other.timestamp.toNat = msg.timestamp.toNat) := by
          rw [selected]
          exact List.mem_cons_self
        rcases List.mem_filter.mp member with ⟨headFound, same⟩
        have tie := BitVec.eq_of_toNat_eq (of_decide_eq_true same)
        rw [List.head?_cons, alike head headFound tie]
  rw [filter_sortedTrades, allTrades, List.filter_cons_of_pos trades, List.flatMap_cons,
    List.filter_append, List.head?_append, first]
  rfl

theorem Determined.tiesAlike (determined : Determined stod directory)
    (parses : ∀ file ∈ directory, file.isTrades = true → Parses stod file) :
    TiesAlike stod directory := by
  intro first firstMem second secondMem tie
  rcases List.mem_flatMap.mp firstMem with ⟨firstFile, firstFiltered, firstFound⟩
  rcases List.mem_flatMap.mp secondMem with ⟨secondFile, secondFiltered, secondFound⟩
  rcases List.mem_filter.mp firstFiltered with ⟨firstIn, firstTrades⟩
  rcases List.mem_filter.mp secondFiltered with ⟨secondIn, secondTrades⟩
  by_cases same : firstFile = secondFile
  · rw [← same] at secondFound
    exact determined.eq_of_same_file parses firstIn firstTrades firstFound secondFound tie
  · -- Visit the two files first, once in either order.
    have secondLeft : secondFile ∈ directory.erase firstFile :=
      (List.mem_erase_of_ne (Ne.symm same)).mpr secondIn
    have visits : (firstFile :: secondFile ::
        (directory.erase firstFile).erase secondFile).Perm directory :=
      ((List.perm_cons_erase secondLeft).symm.cons _).trans
        (List.perm_cons_erase firstIn).symm
    have otherVisits : (secondFile :: firstFile ::
        (directory.erase firstFile).erase secondFile).Perm directory :=
      (List.Perm.swap _ _ _).trans visits
    have stores := determined.visitedAlike byTimestamp _ _ visits otherVisits
    have parsesVisited : ∀ {visited : List TradeFile}, visited.Perm directory →
        ∀ file ∈ visited, file.isTrades = true → Parses stod file :=
      fun visits file member => parses file (visits.subset member)
    rw [ofDirectory_eq_sortedTrades (parsesVisited visits),
      ofDirectory_eq_sortedTrades (parsesVisited otherVisits)] at stores
    have sorted := congrArg (List.map unnumbered) (Except.ok.inj stores)
    rw [map_unnumbered_numberedFrom, map_unnumbered_numberedFrom,
      map_unnumbered_sortedTrades, map_unnumbered_sortedTrades] at sorted
    have firstHead := head?_filter_sortedTrades (secondFile ::
      (directory.erase firstFile).erase secondFile) firstTrades firstFound
      fun other member tied => determined.eq_of_same_file parses firstIn firstTrades member
        firstFound tied
    have secondHead := head?_filter_sortedTrades (firstFile ::
      (directory.erase firstFile).erase secondFile) secondTrades secondFound
      fun other member tied => determined.eq_of_same_file parses secondIn secondTrades
        member secondFound tied
    rw [sorted, tie, secondHead] at firstHead
    exact (Option.some.inj firstHead).symm

/-- The merged store is determined by the files exactly when trades of one timestamp are
the same apart from their numbers. -/
theorem determined_iff_tiesAlike (stod : Stod Double) (directory : List TradeFile)
    (parses : ∀ file ∈ directory, file.isTrades = true → Parses stod file)
    (ordered : ∀ file ∈ directory, file.isTrades = true → (tradesIn stod file).Pairwise
      fun first second => first.timestamp ≤ second.timestamp) :
    Determined stod directory ↔ TiesAlike stod directory :=
  ⟨fun determined => determined.tiesAlike parses,
    determined_of_tiesAlike parses ordered⟩

end Exactness

/-- Two files whose trades have different timestamps. -/
theorem determined_iff_tiesAlike_apart :
    Determined stodOne [oneTrade 65 49 53, oneTrade 66 50 54] ↔
      TiesAlike stodOne [oneTrade 65 49 53, oneTrade 66 50 54] :=
  determined_iff_tiesAlike stodOne _ (by decide) (by decide)

/-- Two files whose trades have one timestamp: their numbers depend on which file is
visited first, also with a stable sort. -/
theorem merged_store_depends_on_visits :
    (∀ file ∈ [oneTrade 65 49 53, oneTrade 66 50 53], file.isTrades = true →
      Parses stodOne file ∧ (tradesIn stodOne file).Pairwise
        fun first second => first.timestamp ≤ second.timestamp) ∧
    ofDirectory stodOne byTimestamp [oneTrade 65 49 53, oneTrade 66 50 53] ≠
      ofDirectory stodOne byTimestamp [oneTrade 66 50 53, oneTrade 65 49 53] ∧
    ¬ Determined stodOne [oneTrade 65 49 53, oneTrade 66 50 53] := by
  have different : ofDirectory stodOne byTimestamp
      [oneTrade 65 49 53, oneTrade 66 50 53] ≠
        ofDirectory stodOne byTimestamp [oneTrade 66 50 53, oneTrade 65 49 53] := by
    decide
  refine ⟨by decide, different, ?_⟩
  intro determined
  exact different (determined.visitedAlike byTimestamp _ _ (.refl _) (.swap _ _ _))

end FeederNet.TradeFeed.TradeMsgStore
