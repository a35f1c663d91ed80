/-
  What a histogram tells about the values it has counted.

  Whatever has been recorded and reset, the counts are those of the values since the last reset that
  had a place (`Holds.after`).  So a percentile is the upper bound of the class of a value with as many
  values up to it (`Holds.percentile`), the extremes are those of the values up to the bounds
  of their classes, and the mean is that of the values up to half a class and what is lost by rounding
  (`Holds.mean_near`).
-/
import NFStash.HdrClasses
import Mathlib.Algebra.BigOperators.Ring.Finset
import Mathlib.Algebra.Order.Archimedean.Basic

namespace NFStash

open LogLinear Ranks Running Floats

/-- A histogram counts these values. -/
structure HdrHistogram.Holds (h : HdrHistogram) (vs : List ℕ) : Prop where
  formed : h.toHdrBucketConfig.Formed
  fits : ∀ v ∈ vs, v < h.limit
  counts : h.counts = table h.place h.countsLen vs
  totalCount : h.totalCount = vs.length
  maxValue : h.maxValue = greatest 0 vs
  minValue : h.minValue = Running.least INT64_MAX (vs.filter (· ≠ 0))

/-- What is done to a histogram. -/
inductive HdrOp where
  | record (value : ℤ)
  | reset

def HdrOp.apply (h : HdrHistogram) : HdrOp → HdrHistogram
  | .record value => (hdrRecordValue h value).2
  | .reset => hdrReset h

/-- The values since the last reset that have a place. -/
def HdrOp.held (limit : ℕ) (vs : List ℕ) : HdrOp → List ℕ
  | .record value => if 0 ≤ value ∧ value < limit then vs ++ [value.toNat] else vs
  | .reset => []

/-- The value with as many values up to it as the percentile asks for. -/
def valueAtPercentile (vs : List ℕ) (percentile : ℚ) : Option ℕ :=
  rank vs (countAtPercentile percentile vs.length - 1)

/-! ## Recording -/

section
variable {h : HdrHistogram} {vs : List ℕ} {v : ℕ} {value : ℤ}

theorem hdrInitPreallocated_holds {cfg : HdrBucketConfig} (hf : cfg.Formed) :
    (hdrInitPreallocated cfg).Holds [] where
  formed := hf
  fits := nofun
  counts := (table_nil ..).symm
  totalCount := rfl
  maxValue := rfl
  minValue := rfl

theorem HdrHistogram.Holds.reset (hh : h.Holds vs) : (hdrReset h).Holds [] where
  formed := hh.formed
  fits := nofun
  counts := (table_nil ..).symm
  totalCount := rfl
  maxValue := rfl
  minValue := rfl

/-- A value with a place is counted. -/
theorem HdrHistogram.Holds.record (hh : h.Holds vs) (hv : v < h.limit) :
    ∃ h', hdrRecordValue h v = (true, h') ∧ h'.Holds (vs ++ [v]) := by
  have hplace := (hh.formed.lt_limit_iff v).1 hv
  have hrecord : hdrRecordValue h v = (true, updateMinMax (countsIncNormalised h (h.place v) 1) v) := by
    unfold hdrRecordValue hdrRecordValues
    rw [if_neg (not_lt.2 (Int.natCast_nonneg v)), Int.toNat_natCast]
    dsimp only
    rw [hh.formed.countsIndexFor, if_neg (by omega), Int.toNat_natCast]
  refine ⟨_, hrecord, hh.formed, ?_, ?_, ?_, ?_, ?_⟩
  · intro w hw
    rcases List.mem_append.1 hw with hw | hw
    · exact hh.fits w hw
    · rwa [List.mem_singleton.1 hw]
  · show h.counts.modify (h.place v) (· + 1) = table h.place h.countsLen (vs ++ [v])
    rw [hh.counts, table_concat]
  · show h.totalCount + 1 = _
    rw [hh.totalCount, List.length_append, List.length_singleton]
  · show (if v > h.maxValue then v else h.maxValue) = _
    rw [hh.maxValue, greatest_concat]
  · show (if v < h.minValue ∧ v ≠ 0 then v else h.minValue) = _
    rw [hh.minValue, List.filter_append]
    by_cases h0 : v = 0
    · rw [if_neg fun h => h.2 h0]
      simp [h0]
    · have hfilter : [v].filter (fun w => decide (w ≠ 0)) = [v] := by simp [h0]
      rw [hfilter, least_concat]
      simp only [ne_eq, h0, not_false_eq_true, and_true]

/-- A value without one changes nothing. -/
theorem HdrBucketConfig.Formed.refused (hf : h.toHdrBucketConfig.Formed)
    (hv : ¬ (0 ≤ value ∧ value < h.limit)) : hdrRecordValue h value = (false, h) := by
  unfold hdrRecordValue hdrRecordValues
  by_cases hneg : value < 0
  · rw [if_pos hneg]
  · obtain ⟨v, rfl⟩ := Int.eq_ofNat_of_zero_le (not_lt.1 hneg)
    have hplace : ¬ h.place v < h.countsLen := fun hlt =>
      hv ⟨Int.natCast_nonneg v, Int.ofNat_lt.2 ((hf.lt_limit_iff v).2 hlt)⟩
    rw [if_neg hneg, Int.toNat_natCast]
    dsimp only
    rw [hf.countsIndexFor, if_pos (.inr (Int.ofNat_le.2 (not_lt.1 hplace)))]

theorem HdrOp.apply_config (h : HdrHistogram) (op : HdrOp) :
    (op.apply h).toHdrBucketConfig = h.toHdrBucketConfig := by
  cases op with
  | reset => rfl
  | record value =>
    simp only [HdrOp.apply, hdrRecordValue, hdrRecordValues]
    split_ifs <;> rfl

/-- Nothing that is done changes the places. -/
theorem foldl_apply_config (h : HdrHistogram) (ops : List HdrOp) :
    (ops.foldl HdrOp.apply h).toHdrBucketConfig = h.toHdrBucketConfig := by
  induction ops generalizing h with
  | nil => rfl
  | cons op ops ih => exact (ih _).trans (HdrOp.apply_config h op)

theorem HdrHistogram.Holds.op (hh : h.Holds vs) (op : HdrOp) : (op.apply h).Holds (op.held h.limit vs) := by
  cases op with
  | reset => exact hh.reset
  | record value =>
    simp only [HdrOp.apply, HdrOp.held]
    split_ifs with hv
    · obtain ⟨v, rfl⟩ := Int.eq_ofNat_of_zero_le hv.1
      obtain ⟨h', hrecord, hholds⟩ := hh.record (Int.ofNat_lt.1 hv.2)
      rw [hrecord]
      exact hholds
    · rw [hh.formed.refused hv]
      exact hh

/-- **After any history** the counts are those of the values since the last reset. -/
theorem HdrHistogram.Holds.after (hh : h.Holds vs) (ops : List HdrOp) :
    (ops.foldl HdrOp.apply h).Holds (ops.foldl (HdrOp.held h.limit) vs) := by
  induction ops generalizing h vs with
  | nil => exact hh
  | cons op ops ih =>
    have hafter := ih (hh.op op)
    rwa [HdrOp.apply_config] at hafter

end

/-! ## Iterating -/

section
variable {h : HdrHistogram} {vs : List ℕ} {i k fuel total : ℕ} {iter : HdrIter}

theorem moveNext_some (hi : iter.countsIndex = i - 1) (hlt : i < h.countsLen) :
    moveNext h iter = some { countsIndex := i, count := hdrCountAtIndex h i
                             value := hdrValueAtIndex h.toHdrBucketConfig i } := by
  unfold moveNext
  rw [hi, Int.sub_add_cancel]
  dsimp only
  rw [if_pos (Int.ofNat_lt.2 hlt), Int.toNat_natCast]

theorem moveNext_none (hi : iter.countsIndex = i - 1) (hle : h.countsLen ≤ i) : moveNext h iter = none := by
  unfold moveNext
  rw [hi, Int.sub_add_cancel]
  dsimp only
  rw [if_neg (not_lt.2 (Int.ofNat_le.2 hle))]

theorem drop_counts (hlen : h.counts.length = h.countsLen) (hlt : i < h.countsLen) :
    h.counts.drop i = hdrCountAtIndex h i :: h.counts.drop (i + 1) := by
  rw [hdrCountAtIndex, List.drop_eq_getElem_cons (hlen ▸ hlt), List.getD_eq_getElem?_getD,
    List.getElem?_eq_getElem (hlen ▸ hlt)]
  rfl

/-- **The loop for a percentile** stops at the first place up to which there are enough values. -/
theorem percentileLoop_eq (hlen : h.counts.length = h.countsLen) (hi : iter.countsIndex = i - 1)
    (hfuel : h.countsLen - i < fuel) (hk : total < k) : percentileLoop h k fuel iter total =
      some (((reach (k - total) (h.counts.drop i)).map fun j =>
        highestEquivalentValue h.toHdrBucketConfig (hdrValueAtIndex h.toHdrBucketConfig (i + j))).getD 0) := by
  induction fuel generalizing i iter total with
  | zero => exact absurd hfuel (Nat.not_lt_zero _)
  | succ fuel ih =>
    rw [percentileLoop]
    by_cases hlt : i < h.countsLen
    · rw [moveNext_some hi hlt, drop_counts hlen hlt, reach]
      dsimp only
      by_cases hreach : total + hdrCountAtIndex h i ≥ k
      · rw [if_pos hreach, if_pos (by omega)]
        rfl
      · rw [if_neg hreach, if_neg (by omega), ih (i := i + 1) (by simp) (by omega) (not_le.1 hreach),
          Nat.sub_sub, Option.map_map]
        congr 3
        funext j
        rw [Function.comp_apply, Nat.add_assoc, Nat.add_comm 1 j]
    · rw [moveNext_none hi (not_lt.1 hlt), List.drop_eq_nil_of_le (hlen.trans_le (not_lt.1 hlt))]
      rfl

/-- **The loop for the mean** adds up what the counts stand for, if an `int64_t` holds it. -/
theorem meanLoop_eq (hlen : h.counts.length = h.countsLen) (hi : iter.countsIndex = i - 1)
    (hfuel : h.countsLen - i < fuel) (hfits : total + (((h.counts.drop i).zipIdx i).map fun c =>
      c.1 * hdrMedianEquivalentValue h.toHdrBucketConfig
        (hdrValueAtIndex h.toHdrBucketConfig c.2)).sum ≤ INT64_MAX) :
    meanLoop h fuel iter total =
      .ok (total + (((h.counts.drop i).zipIdx i).map fun c =>
        c.1 * hdrMedianEquivalentValue h.toHdrBucketConfig (hdrValueAtIndex h.toHdrBucketConfig c.2)).sum) := by
  induction fuel generalizing i iter total with
  | zero => exact absurd hfuel (Nat.not_lt_zero _)
  | succ fuel ih =>
    rw [meanLoop]
    by_cases hlt : i < h.countsLen
    · rw [drop_counts hlen hlt, List.zipIdx_cons, List.map_cons, List.sum_cons] at hfits ⊢
      rw [moveNext_some hi hlt]
      dsimp only at hfits ⊢
      split_ifs with h0 hover
      · omega
      · rw [ih (i := i + 1) (by simp) (by omega) (by omega), Nat.add_assoc]
      · rw [not_not.1 h0, Nat.zero_mul, Nat.zero_add] at hfits ⊢
        exact ih (i := i + 1) (by simp) (by omega) hfits
    · rw [moveNext_none hi (not_lt.1 hlt), List.drop_eq_nil_of_le (hlen.trans_le (not_lt.1 hlt))]
      rfl

end

/-! ## Percentiles and extremes -/

section
variable {h : HdrHistogram} {vs : List ℕ} {v : ℕ} {p : ℚ}

/-- The unit roundoff of a `double`. -/
theorem near_toDouble {x : ℚ} (hx : 0 ≤ x) : Near (1 / 2 ^ 53) x (toDouble x) := near_round hx

theorem toDouble_mono : Monotone toDouble := round_mono (by decide)

theorem toDouble_natCast {n : ℕ} (hn : n < 2 ^ 53) : toDouble n = n := round_natCast hn

theorem toDouble_one : toDouble 1 = 1 := by exact_mod_cast toDouble_natCast (n := 1) (by decide)

/-- A whole number and a half. -/
theorem toDouble_half {n : ℕ} (hn : n < 2 ^ 52) : toDouble (n + 1 / 2) = n + 1 / 2 := by
  have hhalf : (n + 1 / 2 : ℚ) = ((2 * n + 1 : ℕ) : ℤ) * 2 ^ (-1 : ℤ) := by
    rw [zpow_neg_one]
    push_cast
    ring
  rw [toDouble, hhalf, round_eq]
  rw [Nat.abs_cast]
  exact_mod_cast (show 2 * n + 1 < 2 ^ 53 by omega)

/-- The share of a percentile, before it is rounded to a whole number. -/
def share (percentile : ℚ) (n : ℕ) : ℚ :=
  toDouble (toDouble (toDouble (min percentile 100 / 100) * toDouble n) + 1 / 2)

theorem countAtPercentile_eq (percentile : ℚ) (n : ℕ) :
    countAtPercentile percentile n = max 1 ⌊share percentile n⌋₊ := by
  rw [countAtPercentile, share, max_def_lt, min_def_lt]

theorem countAtPercentile_pos (percentile : ℚ) (n : ℕ) : 0 < countAtPercentile percentile n := by
  rw [countAtPercentile_eq]
  exact lt_max_of_lt_left Nat.one_pos

theorem countAtPercentile_mono {p q : ℚ} (hpq : p ≤ q) (n : ℕ) :
    countAtPercentile p n ≤ countAtPercentile q n := by
  have hn : 0 ≤ toDouble n := round_nonneg n.cast_nonneg
  have hdiv : min p 100 / 100 ≤ min q 100 / (100 : ℚ) :=
    div_le_div_of_nonneg_right (min_le_min hpq le_rfl) (by norm_num)
  rw [countAtPercentile_eq, countAtPercentile_eq]
  refine max_le_max le_rfl (Nat.floor_le_floor (toDouble_mono (add_le_add_left (toDouble_mono ?_) _)))
  exact mul_le_mul_of_nonneg_right (toDouble_mono hdiv) hn

/-- There are that many values, if there are any. -/
theorem countAtPercentile_le (percentile : ℚ) {n : ℕ} (hn : 0 < n) (hfew : n < 2 ^ 52) :
    countAtPercentile percentile n ≤ n := by
  have hall : countAtPercentile 100 n = n := by
    rw [countAtPercentile_eq, share, min_self, div_self (by norm_num), toDouble_one, one_mul,
      toDouble_natCast (by omega), toDouble_natCast (by omega), toDouble_half hfew]
    have hfloor : ⌊(n + 1 / 2 : ℚ)⌋₊ = n := by
      rw [Nat.floor_eq_iff (by positivity)]
      constructor <;> linarith
    rw [hfloor, max_eq_right hn]
  rcases le_total percentile 100 with hle | hge
  · exact (countAtPercentile_mono hle n).trans hall.le
  · refine le_trans (le_of_eq ?_) hall.le
    rw [countAtPercentile_eq, countAtPercentile_eq, share, share, min_eq_right hge, min_self]

/-- Their number is next to the share of the percentile. -/
theorem countAtPercentile_near {percentile : ℚ} (h0 : 0 ≤ percentile) {n : ℕ} (hfew : n < 2 ^ 48) :
    |(countAtPercentile percentile n : ℚ) - min percentile 100 / 100 * n| ≤ 1 := by
  have ha : 0 ≤ min percentile 100 / 100 := div_nonneg (le_min h0 (by norm_num)) (by norm_num)
  have ha1 : min percentile 100 / 100 ≤ 1 := (div_le_one (by norm_num)).2 (min_le_right ..)
  have hn : (n : ℚ) < 2 ^ 48 := by exact_mod_cast hfew
  have hshare : 0 ≤ min percentile 100 / 100 * n := mul_nonneg ha n.cast_nonneg
  have hle : min percentile 100 / 100 * n ≤ n := mul_le_of_le_one_left n.cast_nonneg ha1
  rw [countAtPercentile_eq, share, toDouble_natCast (by omega)]
  have hnear := ((near_toDouble ha).mul_right (n.cast_nonneg (α := ℚ))).trans
    (near_toDouble (mul_nonneg (round_nonneg ha) n.cast_nonneg)) hshare (by norm_num) (by norm_num) (by norm_num)
  generalize min percentile 100 / 100 * n = a at *
  generalize toDouble (toDouble (min percentile 100 / 100) * n) = product at *
  have hproduct : 0 ≤ product := hnear.nonneg hshare (by norm_num)
  obtain ⟨hlow, hhigh⟩ := abs_le.1 hnear.abs_sub_le
  obtain ⟨hlow', hhigh'⟩ := abs_le.1 (near_toDouble (x := product + 1 / 2) (by linarith)).abs_sub_le
  -- the three roundings lose an eighth at most
  norm_num at hlow hhigh hlow' hhigh'
  have hfloor := Nat.floor_le (round_nonneg (p := 53) (x := product + 1 / 2) (by linarith))
  have hlt := Nat.lt_floor_add_one (toDouble (product + 1 / 2))
  rw [← toDouble] at hfloor
  rw [Nat.cast_max, Nat.cast_one, abs_le]
  constructor
  · linarith [le_max_right (1 : ℚ) ⌊toDouble (product + 1 / 2)⌋₊]
  · rw [sub_le_iff_le_add]
    exact max_le (by linarith) (by linarith)

theorem valueAtPercentile_some (hne : vs ≠ []) (hfew : vs.length < 2 ^ 52) (percentile : ℚ) :
    ∃ v ∈ vs, valueAtPercentile vs percentile = some v := by
  have hle := countAtPercentile_le percentile (List.length_pos_iff.2 hne) hfew
  have hpos := countAtPercentile_pos percentile vs.length
  cases hr : valueAtPercentile vs percentile with
  | none =>
    rw [valueAtPercentile, rank_eq_none] at hr
    omega
  | some v => exact ⟨v, mem_of_rank hr, rfl⟩

namespace HdrHistogram.Holds

theorem counts_length (hh : h.Holds vs) : h.counts.length = h.countsLen := by
  rw [hh.counts, table_length]

theorem place_lt (hh : h.Holds vs) (hv : v ∈ vs) : h.place v < h.countsLen :=
  (hh.formed.lt_limit_iff v).1 (hh.fits v hv)

/-- The bounds of a class are those of its least value. -/
theorem highest_least (hh : h.Holds vs) (v : ℕ) :
    highestEquivalentValue h.toHdrBucketConfig (h.least (h.place v)) =
      highestEquivalentValue h.toHdrBucketConfig v := by
  rw [highestEquivalentValue, highestEquivalentValue, hh.formed.next, hh.formed.next,
    HdrBucketConfig.place_least]

/-- **A percentile.** -/
theorem percentile (hh : h.Holds vs) (hv : valueAtPercentile vs p = some v) :
    hdrValueAtPercentile h p = some (highestEquivalentValue h.toHdrBucketConfig v) := by
  have hpos := countAtPercentile_pos p vs.length
  have hreach := reach_table h.place_mono (fun w hw => hh.place_lt hw) hv
  rw [Nat.sub_add_cancel hpos] at hreach
  rw [hdrValueAtPercentile, hh.totalCount, percentileLoop_eq (i := 0) hh.counts_length rfl (by omega) hpos,
    Nat.sub_zero, List.drop_zero, hh.counts, hreach, Option.map_some, Option.getD_some, Nat.zero_add,
    hh.formed.valueAtIndex, hh.highest_least]

/-- A histogram without values. -/
theorem percentile_nil (hh : h.Holds []) (percentile : ℚ) : hdrValueAtPercentile h percentile = some 0 := by
  have hpos := countAtPercentile_pos percentile 0
  have hreach : reach (countAtPercentile percentile 0) h.counts = none := by
    rw [hh.counts, table_nil]
    generalize countAtPercentile percentile 0 = k at hpos
    induction h.countsLen with
    | zero => rfl
    | succ n ih =>
      rw [List.replicate_succ, reach, if_neg (by omega), Nat.sub_zero, ih]
      rfl
  rw [hdrValueAtPercentile, hh.totalCount, List.length_nil,
    percentileLoop_eq (i := 0) hh.counts_length rfl (by omega) hpos, Nat.sub_zero, List.drop_zero, hreach]
  rfl

/-- A value is between the bounds of its class. -/
theorem bounds (hh : h.Holds vs) (v : ℕ) : lowestEquivalentValue h.toHdrBucketConfig v ≤ v ∧
    v ≤ highestEquivalentValue h.toHdrBucketConfig v := by
  rw [hh.formed.lowest, highestEquivalentValue, hh.formed.next]
  refine ⟨(h.least_le_iff _ v).2 le_rfl, Nat.le_sub_one_of_lt ?_⟩
  exact not_le.1 fun hle => Nat.not_succ_le_self _ ((h.least_le_iff _ v).1 hle)

theorem highest_mono (hh : h.Holds vs) {v w : ℕ} (hle : v ≤ w) :
    highestEquivalentValue h.toHdrBucketConfig v ≤ highestEquivalentValue h.toHdrBucketConfig w := by
  rw [highestEquivalentValue, highestEquivalentValue, hh.formed.next, hh.formed.next]
  exact Nat.sub_le_sub_right (h.least_strictMono.monotone (Nat.succ_le_succ (h.place_mono hle))) 1

theorem lowest_mono (hh : h.Holds vs) {v w : ℕ} (hle : v ≤ w) :
    lowestEquivalentValue h.toHdrBucketConfig v ≤ lowestEquivalentValue h.toHdrBucketConfig w := by
  rw [hh.formed.lowest, hh.formed.lowest]
  exact h.least_strictMono.monotone (h.place_mono hle)

end HdrHistogram.Holds

end

/-! ## With a unit of 1 -/

/-- What a histogram tells about the values it has counted: percentiles, extremes and the mean are off by
    one part in `10 ^ significant_figures` at most. -/
structure HdrHistogram.Tells (h : HdrHistogram) (significantFigures : ℕ) (vs : List ℕ) : Prop where
  totalCount : h.totalCount = vs.length
  /-- of a value the rank of which is next to the share of the percentile -/
  percentile : vs ≠ [] → ∀ p, 0 ≤ p → ∃ k v x : ℕ, 0 < k ∧ |(k : ℚ) - min p 100 / 100 * vs.length| ≤ 1 ∧
    rank vs (k - 1) = some v ∧ hdrValueAtPercentile h p = some x ∧
    v ≤ x ∧ (x - v) * 10 ^ significantFigures ≤ v
  /-- a higher percentile is not printed as a lower value -/
  percentile_mono : ∀ p q x y, p ≤ q → hdrValueAtPercentile h p = some x →
    hdrValueAtPercentile h q = some y → x ≤ y
  min : ∀ v, IsLeast {v | v ∈ vs} v →
    hdrMin h ≤ v ∧ (v - hdrMin h) * 10 ^ significantFigures ≤ v
  max : ∀ v, IsGreatest {v | v ∈ vs} v →
    v ≤ hdrMax h ∧ (hdrMax h - v) * 10 ^ significantFigures ≤ v
  between : vs ≠ [] → ∀ p x, hdrValueAtPercentile h p = some x → hdrMin h ≤ x ∧ x ≤ hdrMax h
  /-- if the total does not overflow -/
  mean : vs ≠ [] → vs.length * h.limit ≤ INT64_MAX → ∃ x, hdrMean h = .ok (some x) ∧
    |x - Running.mean (vs.map fun v : ℕ => (v : ℚ))| * 10 ^ significantFigures ≤
      Running.mean (vs.map fun v : ℕ => (v : ℚ))

section
variable {h : HdrHistogram} {vs : List ℕ} {v w significantFigures : ℕ}

namespace HdrHistogram.Holds

/-- Both bounds of a class are close to the value. -/
theorem close (hh : h.Holds vs) (hu : h.unitMagnitude = 0)
    (hsig : 10 ^ significantFigures ≤ 2 ^ h.subBucketHalfCountMagnitude) (v : ℕ) :
    (highestEquivalentValue h.toHdrBucketConfig v - lowestEquivalentValue h.toHdrBucketConfig v) *
      10 ^ significantFigures ≤ v := by
  have hwidth : highestEquivalentValue h.toHdrBucketConfig v -
      lowestEquivalentValue h.toHdrBucketConfig v =
        hdrSizeOfEquivalentValueRange h.toHdrBucketConfig v - 1 := by
    unfold highestEquivalentValue hdrNextNonEquivalentValue
    omega
  rw [hwidth]
  rcases hh.formed.narrow hsig v with hone | hle
  · rw [hone, hu, pow_zero, Nat.sub_self, Nat.zero_mul]
    exact Nat.zero_le v
  · exact (Nat.mul_le_mul_right _ (Nat.sub_le _ 1)).trans hle

/-- The class of 0 has no other value. -/
theorem place_eq_zero (hu : h.unitMagnitude = 0) : h.place v = 0 ↔ v = 0 := by
  have hone : h.least 1 = 1 := by
    have hlow := low_succ h.subBucketHalfCountMagnitude 0
    rw [HdrBucketConfig.least, hu, pow_zero, Nat.mul_one, ← Nat.zero_add 1, hlow]
    simp [low]
  have hiff := h.least_le_iff 1 v
  rw [hone] at hiff
  omega

theorem max_eq (hh : h.Holds vs) (hu : h.unitMagnitude = 0) (hv : IsGreatest {v | v ∈ vs} v) :
    hdrMax h = highestEquivalentValue h.toHdrBucketConfig v := by
  have hmax : h.maxValue = v := by
    rw [hh.maxValue]
    exact (isGreatest_greatest_iff.2 ⟨v, hv.1, Nat.zero_le v⟩).unique hv
  unfold hdrMax
  rw [hmax]
  split_ifs with h0
  · have hplace : h.place v = 0 := (place_eq_zero hu).2 h0
    have hnext : h.least 1 = 1 := by
      refine le_antisymm ((h.least_le_iff 1 1).2 (Nat.pos_of_ne_zero ?_)) ?_
      · exact mt (place_eq_zero hu).1 Nat.one_ne_zero
      · refine Nat.pos_of_ne_zero fun hzero => ?_
        have hle := (h.least_le_iff 1 0).1 hzero.le
        rw [(place_eq_zero hu).2 rfl] at hle
        omega
    rw [highestEquivalentValue, hh.formed.next, hplace, Nat.zero_add, hnext]
  · rfl

theorem min_eq (hh : h.Holds vs) (hu : h.unitMagnitude = 0) (hlimit : h.limit ≤ INT64_MAX)
    (hv : IsLeast {v | v ∈ vs} v) : hdrMin h = lowestEquivalentValue h.toHdrBucketConfig v := by
  have hcount : hdrCountAtIndex h 0 = vs.countP fun w => h.place w = 0 := by
    have hlen : 0 < h.countsLen := (Nat.zero_le _).trans_lt (hh.place_lt hv.1)
    rw [hdrCountAtIndex, hh.counts, table, List.getD_eq_getElem?_getD, List.getElem?_map,
      List.getElem?_range hlen]
    rfl
  have hiff : 0 < hdrCountAtIndex h 0 ↔ v = 0 := by
    rw [hcount, List.countP_pos_iff]
    constructor
    · rintro ⟨w, hw, h0⟩
      have hle := hv.2 hw
      rw [(place_eq_zero hu).1 (of_decide_eq_true h0)] at hle
      exact Nat.le_zero.1 hle
    · intro h0
      exact ⟨v, hv.1, decide_eq_true ((place_eq_zero hu).2 h0)⟩
  unfold hdrMin
  split_ifs with hpos
  · have hle := (hh.bounds v).1
    rw [hiff.1 hpos] at hle ⊢
    omega
  · have hne : v ≠ 0 := mt hiff.2 hpos
    have hfilter : vs.filter (· ≠ 0) = vs := by
      refine List.filter_eq_self.2 fun w hw => decide_eq_true fun h0 => hne ?_
      exact Nat.le_zero.1 (h0 ▸ hv.2 hw)
    have hlt : v < INT64_MAX := (hh.fits v hv.1).trans_le hlimit
    have hmin : h.minValue = v := by
      rw [hh.minValue, hfilter]
      exact (isLeast_least_iff.2 ⟨v, hv.1, hlt.le⟩).unique hv
    rw [nonZeroMin, hmin, if_neg hlt.ne]

/-- The middle of a class is that of its least value. -/
theorem median_least (hh : h.Holds vs) (v : ℕ) :
    hdrMedianEquivalentValue h.toHdrBucketConfig (h.least (h.place v)) =
      hdrMedianEquivalentValue h.toHdrBucketConfig v := by
  have hsize : ∀ w, hdrSizeOfEquivalentValueRange h.toHdrBucketConfig w =
      h.least (h.place w + 1) - h.least (h.place w) := by
    intro w
    rw [← hh.formed.next, ← hh.formed.lowest, hdrNextNonEquivalentValue]
    omega
  rw [hdrMedianEquivalentValue, hdrMedianEquivalentValue, hsize, hsize, hh.formed.lowest,
    hh.formed.lowest, HdrBucketConfig.place_least]

/-- The middles of classes are below the limit. -/
theorem median_lt (hh : h.Holds vs) (hv : h.place v < h.countsLen) :
    hdrMedianEquivalentValue h.toHdrBucketConfig v < h.limit := by
  have hnext : lowestEquivalentValue h.toHdrBucketConfig v + hdrSizeOfEquivalentValueRange h.toHdrBucketConfig v =
      h.least (h.place v + 1) := hh.formed.next v
  have hle : h.least (h.place v + 1) ≤ h.least h.countsLen := h.least_strictMono.monotone hv
  have hlt : h.least (h.place v) < h.least (h.place v + 1) := h.least_strictMono (Nat.lt_succ_self _)
  rw [hh.formed.least_countsLen] at hle
  rw [← hh.formed.lowest] at hlt
  rw [hdrMedianEquivalentValue, Nat.shiftRight_eq_div_pow]
  omega

/-- The sum of the middles. -/
theorem medians_le (hh : h.Holds vs) :
    (vs.map fun v => hdrMedianEquivalentValue h.toHdrBucketConfig v).sum ≤ vs.length * h.limit := by
  have hle := List.sum_le_card_nsmul (vs.map fun v => hdrMedianEquivalentValue h.toHdrBucketConfig v) h.limit
    (List.forall_mem_map.2 fun v hv => (hh.median_lt (hh.place_lt hv)).le)
  rwa [List.length_map, nsmul_eq_mul] at hle

/-- The total of the mean is that of the middles of the classes. -/
theorem meanLoop_medians (hh : h.Holds vs) (hfits : vs.length * h.limit ≤ INT64_MAX) :
    meanLoop h (h.countsLen + 1) {} 0 =
      .ok (vs.map fun v => hdrMedianEquivalentValue h.toHdrBucketConfig v).sum := by
  have hsum := sum_table (fun i => hdrMedianEquivalentValue h.toHdrBucketConfig (h.least i))
    fun w hw => hh.place_lt hw
  simp only [hh.median_least, Nat.cast_id] at hsum
  have hloop : 0 + (((h.counts.drop 0).zipIdx 0).map fun c => c.1 * hdrMedianEquivalentValue
      h.toHdrBucketConfig (hdrValueAtIndex h.toHdrBucketConfig c.2)).sum =
        (vs.map fun v => hdrMedianEquivalentValue h.toHdrBucketConfig v).sum := by
    simp only [Nat.zero_add, List.drop_zero, hh.counts, hh.formed.valueAtIndex, hsum]
  rw [meanLoop_eq (i := 0) hh.counts_length rfl (by omega)
    (by rw [hloop]; exact hh.medians_le.trans hfits), hloop]

/-- **The mean** of a histogram is that of the middles of the classes. -/
theorem mean_eq (hh : h.Holds vs) (hne : vs ≠ []) (hfits : vs.length * h.limit ≤ INT64_MAX) : hdrMean h =
    .ok (some (toDouble (toDouble (vs.map fun v => hdrMedianEquivalentValue h.toHdrBucketConfig v).sum /
      toDouble vs.length))) := by
  have hlen : vs.length ≠ 0 := (List.length_pos_iff.2 hne).ne'
  rw [hdrMean, hh.meanLoop_medians hfits, hh.totalCount]
  simp only [Bind.bind, Except.bind, if_neg hlen]

theorem mean_nil (hh : h.Holds []) : hdrMean h = .ok none := by
  rw [hdrMean, hh.meanLoop_medians ((Nat.zero_mul _).trans_le (Nat.zero_le _)), hh.totalCount]
  rfl

/-- The middle of a class is close to the value. -/
theorem median_close (hh : h.Holds vs) (hu : h.unitMagnitude = 0)
    (hsig : 10 ^ significantFigures ≤ 2 ^ h.subBucketHalfCountMagnitude) (v : ℕ) :
    |(hdrMedianEquivalentValue h.toHdrBucketConfig v : ℚ) - v| * (2 * 10 ^ significantFigures) ≤ v := by
  obtain ⟨hlo, hhi⟩ := hh.bounds v
  have hmedian : hdrMedianEquivalentValue h.toHdrBucketConfig v =
      lowestEquivalentValue h.toHdrBucketConfig v +
        hdrSizeOfEquivalentValueRange h.toHdrBucketConfig v / 2 := by
    rw [hdrMedianEquivalentValue, Nat.shiftRight_eq_div_pow, pow_one]
  have hnext : highestEquivalentValue h.toHdrBucketConfig v =
      lowestEquivalentValue h.toHdrBucketConfig v +
        hdrSizeOfEquivalentValueRange h.toHdrBucketConfig v - 1 := rfl
  rcases hh.formed.narrow hsig v with hone | hle
  · -- a class of one value
    rw [hone, hu, pow_zero] at hmedian hnext
    have heq : hdrMedianEquivalentValue h.toHdrBucketConfig v = v := by omega
    rw [heq, sub_self, abs_zero, zero_mul]
    exact Nat.cast_nonneg v
  · have hhalf : 2 * (hdrMedianEquivalentValue h.toHdrBucketConfig v) ≤
          2 * v + hdrSizeOfEquivalentValueRange h.toHdrBucketConfig v ∧
        2 * v ≤ 2 * hdrMedianEquivalentValue h.toHdrBucketConfig v +
          hdrSizeOfEquivalentValueRange h.toHdrBucketConfig v := by
      omega
    generalize hdrMedianEquivalentValue h.toHdrBucketConfig v = m at hhalf ⊢
    generalize hdrSizeOfEquivalentValueRange h.toHdrBucketConfig v = size at hle hhalf
    have habs : |(m : ℚ) - v| * 2 ≤ size := by
      obtain ⟨h₁, h₂⟩ := hhalf
      have h₁' : (2 : ℚ) * m ≤ 2 * v + size := by exact_mod_cast h₁
      have h₂' : (2 : ℚ) * v ≤ 2 * m + size := by exact_mod_cast h₂
      have hboth : |(m : ℚ) - v| ≤ size / 2 := abs_le.2 ⟨by linarith, by linarith⟩
      linarith
    calc |(m : ℚ) - v| * (2 * 10 ^ significantFigures)
        = |(m : ℚ) - v| * 2 * 10 ^ significantFigures := by ring
      _ ≤ size * 10 ^ significantFigures := mul_le_mul_of_nonneg_right habs (by positivity)
      _ ≤ v := by exact_mod_cast hle

/-- A mean that is computed with `double` is that of the values, but for three roundings. -/
theorem near_mean {m n : ℕ} (hn : 0 < n) :
    Near (1 / 2 ^ 50) ((m : ℚ) / n) (toDouble (toDouble m / toDouble n)) := by
  have hm : (0 : ℚ) ≤ m := m.cast_nonneg
  have hpos : (0 : ℚ) < n := Nat.cast_pos.2 hn
  have hdivisor := (near_toDouble hpos.le).div_left hpos hm (by norm_num) (by norm_num)
  have hquotient := hdivisor.trans ((near_toDouble hm).div_right (round_nonneg hpos.le))
    (div_nonneg hm hpos.le) (by norm_num) (by norm_num) (by norm_num)
  have hround := hquotient.trans (near_toDouble (div_nonneg (round_nonneg hm) (round_nonneg hpos.le)))
    (div_nonneg hm hpos.le) (by norm_num) (by norm_num) (by norm_num)
  exact hround.mono (div_nonneg hm hpos.le) (by norm_num)

/-- Half of a bound is for what is lost by rounding, which is less. -/
theorem close_of_near {x m μ : ℚ} (hfive : significantFigures ≤ 5) (hnear : Near (1 / 2 ^ 48) m x)
    (hclose : |m - μ| * (2 * 10 ^ significantFigures) ≤ μ) : |x - μ| * 10 ^ significantFigures ≤ μ := by
  have hone : (1 : ℚ) ≤ 10 ^ significantFigures := one_le_pow₀ (by norm_num)
  have hten : (10 : ℚ) ^ significantFigures ≤ 10 ^ 5 := pow_le_pow_right₀ (by norm_num) hfive
  generalize (10 : ℚ) ^ significantFigures = ten at *
  have hμ : 0 ≤ μ := le_trans (mul_nonneg (abs_nonneg _) (by linarith)) hclose
  have hm : m ≤ 2 * μ := by
    have hle := le_abs_self (m - μ)
    have habs : |m - μ| * 2 ≤ |m - μ| * (2 * ten) :=
      mul_le_mul_of_nonneg_left (by linarith) (abs_nonneg _)
    linarith
  have hround : |x - m| * (2 * ten) ≤ μ := by
    calc |x - m| * (2 * ten) ≤ m * (1 / 2 ^ 48) * (2 * ten) :=
          mul_le_mul_of_nonneg_right hnear.abs_sub_le (by linarith)
      _ ≤ 2 * μ * (1 / 2 ^ 48) * (2 * 10 ^ 5) := by
          refine mul_le_mul (mul_le_mul_of_nonneg_right hm (by norm_num)) (by linarith) (by linarith) ?_
          positivity
      _ ≤ μ := by
          norm_num
          linarith
  have htriangle := mul_le_mul_of_nonneg_right (abs_sub_le x m μ) (show 0 ≤ 2 * ten by linarith)
  linarith

/-- The mean that is computed, and that of the middles of the classes. -/
theorem mean_near (hh : h.Holds vs) (hne : vs ≠ []) (hfits : vs.length * h.limit ≤ INT64_MAX) :
    ∃ x, hdrMean h = .ok (some x) ∧
      Near (1 / 2 ^ 50) (Running.mean (vs.map fun v => (hdrMedianEquivalentValue h.toHdrBucketConfig v : ℚ))) x := by
  refine ⟨_, hh.mean_eq hne hfits, ?_⟩
  have hnear := near_mean (m := (vs.map fun v => hdrMedianEquivalentValue h.toHdrBucketConfig v).sum)
    (List.length_pos_iff.2 hne)
  have hmedians : (((vs.map fun v => hdrMedianEquivalentValue h.toHdrBucketConfig v).sum : ℕ) : ℚ) / vs.length =
      Running.mean (vs.map fun v => (hdrMedianEquivalentValue h.toHdrBucketConfig v : ℚ)) := by
    rw [Running.mean, Nat.cast_list_sum, List.map_map, List.length_map]
    rfl
  rwa [hmedians] at hnear

/-- The middles are close to the values, and so is their mean. -/
theorem medians_close (hh : h.Holds vs) (hu : h.unitMagnitude = 0)
    (hsig : 10 ^ significantFigures ≤ 2 ^ h.subBucketHalfCountMagnitude) :
    |Running.mean (vs.map fun v => (hdrMedianEquivalentValue h.toHdrBucketConfig v : ℚ)) -
        Running.mean (vs.map fun v : ℕ => (v : ℚ))| * (2 * 10 ^ significantFigures) ≤
      Running.mean (vs.map fun v : ℕ => (v : ℚ)) :=
  Running.mean_close (show (0 : ℚ) ≤ 2 * 10 ^ significantFigures by positivity) fun v _ => hh.median_close hu hsig v

theorem tells (hh : h.Holds vs) (hu : h.unitMagnitude = 0) (hlimit : h.limit ≤ INT64_MAX)
    (hsig : 10 ^ significantFigures ≤ 2 ^ h.subBucketHalfCountMagnitude) (hfive : significantFigures ≤ 5)
    (hfew : vs.length < 2 ^ 48) : h.Tells significantFigures vs := by
  have hfew' : vs.length < 2 ^ 52 := hfew.trans (by decide)
  have hpercentile : ∀ p x, vs ≠ [] → hdrValueAtPercentile h p = some x → ∃ v ∈ vs,
      valueAtPercentile vs p = some v ∧ x = highestEquivalentValue h.toHdrBucketConfig v := by
    intro p x hne hx
    obtain ⟨v, hmem, hv⟩ := valueAtPercentile_some hne hfew' p
    rw [hh.percentile hv] at hx
    exact ⟨v, hmem, hv, (Option.some.inj hx).symm⟩
  refine ⟨hh.totalCount, fun hne p h0 => ?_, fun p q x y hpq hx hy => ?_, fun v hv => ?_, fun v hv => ?_,
    fun hne p x hx => ?_, fun hne hfits => ?_⟩
  · obtain ⟨v, -, hv⟩ := valueAtPercentile_some hne hfew' p
    obtain ⟨hlo, hhi⟩ := hh.bounds v
    refine ⟨_, v, _, countAtPercentile_pos p vs.length, countAtPercentile_near h0 hfew, hv, hh.percentile hv,
      hhi, le_trans ?_ (hh.close hu hsig v)⟩
    exact Nat.mul_le_mul_right _ (Nat.sub_le_sub_left hlo _)
  · by_cases hne : vs = []
    · subst hne
      rw [hh.percentile_nil] at hx hy
      rw [← Option.some.inj hx]
      exact Nat.zero_le y
    · obtain ⟨v, -, hv, rfl⟩ := hpercentile p x hne hx
      obtain ⟨w, -, hw, rfl⟩ := hpercentile q y hne hy
      exact hh.highest_mono (rank_mono hv hw (Nat.sub_le_sub_right (countAtPercentile_mono hpq _) 1))
  · obtain ⟨hlo, hhi⟩ := hh.bounds v
    rw [hh.min_eq hu hlimit hv]
    refine ⟨hlo, le_trans ?_ (hh.close hu hsig v)⟩
    exact Nat.mul_le_mul_right _ (Nat.sub_le_sub_right hhi _)
  · obtain ⟨hlo, hhi⟩ := hh.bounds v
    rw [hh.max_eq hu hv]
    refine ⟨hhi, le_trans ?_ (hh.close hu hsig v)⟩
    exact Nat.mul_le_mul_right _ (Nat.sub_le_sub_left hlo _)
  · obtain ⟨v, hmem, -, rfl⟩ := hpercentile p x hne hx
    have hmin : IsLeast {v | v ∈ vs} (Running.least v vs) := isLeast_least_iff.2 ⟨v, hmem, le_rfl⟩
    have hmax : IsGreatest {v | v ∈ vs} (greatest v vs) := isGreatest_greatest_iff.2 ⟨v, hmem, le_rfl⟩
    rw [hh.min_eq hu hlimit hmin, hh.max_eq hu hmax]
    refine ⟨?_, hh.highest_mono (hmax.2 hmem)⟩
    exact (hh.lowest_mono (hmin.2 hmem)).trans ((hh.bounds v).1.trans (hh.bounds v).2)
  · obtain ⟨x, hx, hnear⟩ := hh.mean_near hne hfits
    have hpos : 0 ≤ Running.mean (vs.map fun v => (hdrMedianEquivalentValue h.toHdrBucketConfig v : ℚ)) :=
      div_nonneg (List.sum_nonneg (List.forall_mem_map.2 fun v _ => Nat.cast_nonneg _)) (Nat.cast_nonneg _)
    exact ⟨x, hx, close_of_near hfive (hnear.mono hpos (by norm_num)) (hh.medians_close hu hsig)⟩

end HdrHistogram.Holds

end

theorem held_length_le (limit : ℕ) (ops : List HdrOp) (vs : List ℕ) :
    (ops.foldl (HdrOp.held limit) vs).length ≤ vs.length + ops.length := by
  induction ops generalizing vs with
  | nil => exact le_rfl
  | cons op ops ih =>
    rw [List.foldl_cons, List.length_cons]
    refine (ih _).trans ?_
    cases op with
    | reset =>
      rw [HdrOp.held, List.length_nil]
      omega
    | record value =>
      rw [HdrOp.held]
      split_ifs
      · rw [List.length_append, List.length_singleton]
        omega
      · omega

/-- What a histogram of `hdr_init` from 1 on holds after it has been used. -/
structure HdrHistogram.Used (h : HdrHistogram) (significantFigures : ℕ) (vs : List ℕ) : Prop where
  holds : h.Holds vs
  unit : h.unitMagnitude = 0
  limit : h.limit ≤ INT64_MAX
  figures : 10 ^ significantFigures ≤ 2 ^ h.subBucketHalfCountMagnitude
  five : significantFigures ≤ 5
  places : h.countsLen ≤ 2 ^ 24

theorem hdrInit_used {highest : ℤ} {significantFigures : ℕ} {h : HdrHistogram} (hmax : highest < 2 ^ 62)
    (hinit : hdrInit 1 highest significantFigures = .ok h) (ops : List HdrOp) :
    (ops.foldl HdrOp.apply h).Used significantFigures (ops.foldl (HdrOp.held h.limit) []) := by
  unfold hdrInit at hinit
  cases hcfg : hdrCalculateBucketConfig 1 highest significantFigures with
  | error e =>
    rw [hcfg] at hinit
    cases hinit
  | ok cfg =>
    rw [hcfg] at hinit
    obtain rfl := Except.ok.inj hinit
    have hmax' : highest ≤ INT64_MAX := by
      have hint : ((INT64_MAX : ℕ) : ℤ) = 2 ^ 63 - 1 := rfl
      omega
    obtain ⟨hf, hsig, -, htight, hu⟩ := hdrCalculateBucketConfig_ok hmax' hcfg
    obtain ⟨hfive, hmagnitude⟩ := hdrCalculateBucketConfig_figures hcfg
    have hlimit : cfg.limit ≤ INT64_MAX := by
      have hnat : INT64_MAX = 2 ^ 63 - 1 := rfl
      rcases htight with ⟨-, hle⟩ | hle <;> omega
    have hafter := (hdrInitPreallocated_holds hf).after ops
    have hsame := foldl_apply_config (hdrInitPreallocated cfg) ops
    have hplaces : cfg.countsLen ≤ 2 ^ 24 := by
      have hcount : cfg.bucketCount < 63 := by
        have hpow : 2 ^ cfg.bucketCount ≤ cfg.limit := Nat.pow_le_pow_right (by decide) (Nat.le_add_left ..)
        exact (Nat.pow_lt_pow_iff_right (by decide)).1 ((hpow.trans hlimit).trans_lt (by decide))
      rw [hf.countsLen]
      calc _ ≤ 63 * 2 ^ 17 := Nat.mul_le_mul hcount (Nat.pow_le_pow_right (by decide) hmagnitude)
        _ ≤ 2 ^ 24 := by decide
    refine ⟨hafter, ?_, ?_, ?_, hfive, ?_⟩
    · rw [hsame]
      exact hu
    · rwa [hsame]
    · rwa [hsame]
    · rwa [hsame]

/-- **The histograms of `hdr_init`** from 1 on tell about the values that were recorded since the last
    reset and have a place, whatever is recorded and reset. -/
theorem hdrInit_tells (highest : ℤ) (significantFigures : ℕ) (h : HdrHistogram) (ops : List HdrOp)
    (hmax : highest < 2 ^ 62) (hinit : hdrInit 1 highest significantFigures = .ok h)
    (hfew : (ops.foldl (HdrOp.held h.limit) []).length < 2 ^ 48) :
    (ops.foldl HdrOp.apply h).Tells significantFigures (ops.foldl (HdrOp.held h.limit) []) := by
  have hused := hdrInit_used hmax hinit ops
  exact hused.holds.tells hused.unit hused.limit hused.figures hused.five hfew

theorem hdrInit_tells_million : ∃ h, hdrInit 1 1000000 3 = .ok h ∧
    ([.record 1, .record 999, .reset, .record 70, .record 20].foldl HdrOp.apply h).Tells 3
      ([HdrOp.record 1, .record 999, .reset, .record 70, .record 20].foldl (HdrOp.held h.limit) []) := by
  obtain ⟨cfg, -, hinit⟩ := hdrInit_ok 1000000 3 (by decide) (by decide) (by decide) (by decide)
  exact ⟨_, hinit, hdrInit_tells 1000000 3 _ _ (by decide) hinit ((held_length_le ..).trans_lt (by decide))⟩

end NFStash
