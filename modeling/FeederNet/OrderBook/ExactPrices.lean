import FeederNet.OrderBook.AnyOrder
import Mathlib.Data.Rat.Floor

/-! # Exact prices

The constants of the source, with rational numbers for `double`. The level of a price is
its number of ticks, and nothing checks that the arrays have that level.
-/

namespace FeederNet.OrderBook

open HashMap

/-- `static_cast<int>`, for any size of `int`. -/
def truncate (value : ℚ) : Int :=
  if 0 ≤ value then ⌊value⌋ else ⌈value⌉

theorem truncate_nonneg_iff (value : ℚ) : 0 ≤ truncate value ↔ -1 < value := by
  unfold truncate
  split
  · rename_i positive
    exact iff_of_true (Int.floor_nonneg.mpr positive) (neg_one_lt_zero.trans_le positive)
  · rw [← Int.sub_one_lt_iff, Int.lt_ceil]
    norm_num

theorem truncate_lt_iff {value : ℚ} {bound : Nat} (positive : 0 < bound) :
    truncate value < bound ↔ value < bound := by
  unfold truncate
  split
  · rw [Int.floor_lt]
    norm_num
  · rename_i negative
    have bounded : (0 : ℚ) < bound := Nat.cast_pos.mpr positive
    refine iff_of_true ?_ ((not_le.mp negative).trans bounded)
    have ceiling : ⌈value⌉ ≤ 0 := Int.ceil_le.mpr (by exact_mod_cast (not_le.mp negative).le)
    omega

def exactPrices (initBuckets : PowerOfTwo) (hash : Word64 → Word64) : Config ℚ where
  maxPriceLevels := 100000
  poolSize := 10000000
  initBuckets := initBuckets
  hash := hash
  priceToIndex price := truncate (price * 100)
  indexToPrice index := index * (1 / 100)

variable {initBuckets : PowerOfTwo} {hash : Word64 → Word64}

theorem inRange_exactPrices_iff (price : ℚ) :
    InRange (exactPrices initBuckets hash)
        ((exactPrices initBuckets hash).priceToIndex price) ↔
      -(1 / 100) < price ∧ price < 1000 := by
  have upper : truncate (price * 100) < (100000 : Nat) ↔ price * 100 < (100000 : Nat) :=
    truncate_lt_iff (by decide)
  change (0 ≤ truncate (price * 100) ∧ truncate (price * 100) < (100000 : Nat)) ↔ _
  rw [truncate_nonneg_iff, upper]
  constructor
  · rintro ⟨above, below⟩
    push_cast at below
    constructor <;> linarith
  · rintro ⟨above, below⟩
    push_cast
    constructor <;> linarith

namespace Market

variable {Price : Type} {config : Config Price}

/-- No call reaches outside the level arrays, and `insert` places the order at a level of
the book or leaves the book as it is. -/
def Contained (market : Market config) : Event Price → Prop
  | .insert place order =>
      (∃ after, market.call false (.insert place order) = (.ok (), after) ∧
        InRange config (config.priceToIndex order.price)) ∨
      ∃ fault, fault ≠ .outOfRange ∧ market.call false (.insert place order) =
        (.error fault, market.session.filled place order)
  | event => (market.call false event).1 ≠ .error .outOfRange

/-- An order gets in only with a price between -0.01 and 1000.00. -/
def Priced {config : Config ℚ} (market : Market config) : Event ℚ → Prop
  | .insert _ order => ¬ market.Throws false order →
      -(1 / 100) < order.price ∧ order.price < 1000
  | _ => True

/-- `insert` stays in the arrays exactly if it throws before it changes anything or finds
its level in the book. -/
theorem Valid.contained_insert_iff {market : Market config}
    (valid : Valid false market) {place : Nat} {order : Order Price}
    (vacant : market.Vacant place order.orderId) :
    market.Contained (.insert place order) ↔
      (¬ market.Throws false order → InRange config (config.priceToIndex order.price)) := by
  have inserted := valid.inserted vacant
  change ((∃ _, _) ∨ _) ↔ _
  generalize market.call false (.insert place order) = result at inserted ⊢
  cases inserted with
  | refused throws =>
      exact iff_of_true (.inr ⟨.orderMap .noFreeNodes, nofun, rfl⟩) (absurd throws)
  | outside proceeds beyond book =>
      refine iff_of_false ?_ fun inside => beyond (inside proceeds)
      rintro (⟨after, same, _⟩ | ⟨fault, other, same⟩)
      · cases same
      · cases same
        exact other rfl
  | placed proceeds inside after stored totals =>
      exact iff_of_true (.inl ⟨after, rfl, inside⟩) fun _ => inside

theorem Changed.inside {market : Market config} {event : Event Price}
    {result : Except Fault Unit × OrderBook config}
    (changed : Changed false market event result) : result.1 ≠ .error .outOfRange := by
  cases changed with
  | refused missing => nofun
  | changed present after stored totals => nofun

/-- No call of a run reaches outside the level arrays exactly if all orders that get in
are priced between -0.01 and 1000.00. -/
theorem contained_iff {memory : Address → Order ℚ}
    {past : List (Market (exactPrices initBuckets hash) × Event ℚ)}
    {final : Market (exactPrices initBuckets hash)}
    (run : (system false (exactPrices initBuckets hash) memory).Run past final) :
    (∀ entry ∈ past, entry.1.Contained entry.2) ↔
      ∀ entry ∈ past, entry.1.Priced entry.2 := by
  refine forall₂_congr fun entry member => ?_
  rcases entry with ⟨market, event⟩
  rcases run.exists_step member with ⟨next, stepped⟩
  rcases step_eq_some stepped with ⟨inside, allowed, _⟩
  have valid := (valid_of_run run).1 (market, event) member inside
  cases event with
  | insert place order =>
      rw [valid.contained_insert_iff allowed, inRange_exactPrices_iff]
      exact Iff.rfl
  | update orderId newQuantity =>
      exact iff_of_true (valid.updated orderId newQuantity).inside trivial
  | cancel orderId => exact iff_of_true (valid.cancelled orderId).inside trivial

def oneBucketPrices : Config ℚ :=
  exactPrices ⟨1, PowerOfTwo.one_nonzero, PowerOfTwo.one_disjoint⟩ id

/-- The first price beyond the arrays, in a new book. -/
theorem price_at_bound_escapes :
    ∃ past final, (system false oneBucketPrices fun _ => ⟨0, 0, 0, false⟩).Run past final ∧
      past.map Prod.snd = [.insert 0 ⟨1, 1000, 1, true⟩] ∧
      ¬ ∀ entry ∈ past, entry.1.Contained entry.2 := by
  let start := initial oneBucketPrices fun _ => ⟨0, 0, 0, false⟩
  have valid : Valid false start := valid_initial _ _
  have vacant : start.Vacant 0 1 := List.forall_mem_nil _
  have stepped : start.step false (.insert 0 ⟨1, 1000, 1, true⟩) = some _ :=
    if_pos ⟨rfl, vacant⟩
  refine ⟨_, _, .step (.start rfl) stepped, rfl, fun contained => ?_⟩
  have placed := (valid.contained_insert_iff vacant).mp (contained _ List.mem_cons_self)
  have proceeds : ¬ start.Throws false ⟨1, 1000, 1, true⟩ := fun throws =>
    FixedSizedChainingHashMap.freeNodes_construct_ne_nil throws.1
  exact ((inRange_exactPrices_iff _).mp (placed proceeds)).2.ne rfl

/-- Half a tick below zero and one tick below the bound. -/
theorem contained_iff_inside :
    ∃ past final, (system false oneBucketPrices fun _ => ⟨0, 0, 0, false⟩).Run past final ∧
      past.map Prod.snd = [.cancel 1, .insert 1 ⟨2, 99999 / 100, 7, false⟩,
        .insert 0 ⟨1, -(1 / 200), 5, true⟩] ∧ final.live.length = 1 ∧
      ((∀ entry ∈ past, entry.1.Contained entry.2) ↔
        ∀ entry ∈ past, entry.1.Priced entry.2) := by
  rcases TransitionSystem.exists_run_of_events
    (initial oneBucketPrices fun _ => ⟨0, 0, 0, false⟩) (step false)
    [.insert 0 ⟨1, -(1 / 200), 5, true⟩, .insert 1 ⟨2, 99999 / 100, 7, false⟩, .cancel 1]
    (fun final => final.live.length = 1) (by decide +kernel) with
    ⟨past, final, run, events, one⟩
  exact ⟨past, final, run, events, one, contained_iff run⟩

end Market

end FeederNet.OrderBook
