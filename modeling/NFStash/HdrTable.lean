/-
  The table that `nfsping` prints of a histogram at its end.

  `hdr_percentiles_print` goes through the places of the histogram and through percentages that
  come closer and closer to 100 (`nextPercentile`): a line is printed for the place at which a percentage
  is reached.  `hdrPercentilesPrint_tabulates`: the lines are those of the percentages in order, up to the
  first one that is only reached with all values, and one for 100.
-/
import NFStash.HdrPercentages

namespace NFStash

open LogLinear Ranks Running Levels Floats

/-! ## Model -/

/-- `struct hdr_iter`, as far as percentiles are iterated over. -/
structure HdrIterPercentiles extends HdrIter where
  totalCount : ℕ
  ticksPerHalfDistance : ℕ
  cumulativeCount : ℕ := 0
  highestEquivalentValue : ℕ := 0
  seenLastValue : Bool := false
  percentileToIterateTo : ℚ := 0
  percentile : ℚ := 0

def hasNext (iter : HdrIterPercentiles) : Bool := iter.cumulativeCount < iter.totalCount

/-- A line of the table; `1 / (1 - percentile)` is infinite in the last one. -/
structure PercentileRow where
  value : ℚ
  percentile : ℚ
  totalCount : ℕ
  invertedPercentile : Option ℚ
deriving DecidableEq, Repr

/-- The lines after the table; without values there is neither a mean nor a standard deviation. -/
structure PercentilesFooter where
  mean : Option ℚ
  stddev : Option ℚ
  max : ℚ
  totalCount : ℕ
  bucketCount : ℕ
  subBucketCount : ℕ
deriving DecidableEq, Repr

def percentileRow (valueScale : ℚ) (iter : HdrIterPercentiles) : PercentileRow :=
  let percentile := toDouble (iter.percentile / 100)
  { value := toDouble (toDouble iter.highestEquivalentValue / valueScale)
    percentile
    totalCount := iter.cumulativeCount
    invertedPercentile := if percentile = 1 then none else some (toDouble (1 / toDouble (1 - percentile))) }

section
variable (libm : Libm) (h : HdrHistogram)

/-- `_basic_iter_next`, which ignores that there are no more buckets. -/
def basicIterNext (iter : HdrIterPercentiles) : Bool × HdrIterPercentiles :=
  if hasNext iter then
    match moveNext h iter.toHdrIter with
    | some next =>
      (true, { iter with
        toHdrIter := next
        cumulativeCount := iter.cumulativeCount + next.count
        highestEquivalentValue := NFStash.highestEquivalentValue h.toHdrBucketConfig next.value })
    | none => (true, { iter with countsIndex := iter.countsIndex + 1 })
  else (false, iter)

/-- The loop of `_percentile_iter_next`. -/
def percentileSearch : ℕ → HdrIterPercentiles → Option HdrIterPercentiles
  | 0, _ => none
  | fuel + 1, iter =>
    if iter.count ≠ 0 ∧ iter.percentileToIterateTo ≤ currentPercentile iter.cumulativeCount h.totalCount then
      some { iter with
        percentile := iter.percentileToIterateTo
        percentileToIterateTo := nextPercentile libm iter.ticksPerHalfDistance iter.percentileToIterateTo }
    else match basicIterNext h iter with
      | (true, iter) => percentileSearch fuel iter
      | (false, iter) => some iter

/-- `_percentile_iter_next`: whether there is a line, and the iterator. -/
def percentileIterNext (iter : HdrIterPercentiles) : Option (Bool × HdrIterPercentiles) :=
  if hasNext iter then
    let (more, iter) := if iter.countsIndex = -1 then basicIterNext h iter else (true, iter)
    if more then (percentileSearch libm h (h.countsLen + 1) iter).map (true, ·) else some (false, iter)
  else if iter.seenLastValue then some (false, iter)
  else some (true, { iter with seenLastValue := true, percentile := 100 })

/-- `hdr_iter_percentile_init`. -/
def hdrIterPercentileInit (ticksPerHalfDistance : ℕ) : HdrIterPercentiles where
  totalCount := h.totalCount
  ticksPerHalfDistance := ticksPerHalfDistance

/-- The loop of `hdr_percentiles_print`; `none` if it has not ended within its fuel. -/
def percentilesLoop (valueScale : ℚ) : ℕ → HdrIterPercentiles → Option (List PercentileRow)
  | 0, _ => none
  | fuel + 1, iter => match percentileIterNext libm h iter with
    | none => none
    | some (false, _) => some []
    | some (true, iter) =>
      (percentilesLoop valueScale fuel iter).map (percentileRow valueScale iter :: ·)

/-- The loop of `hdr_stddev`. -/
def stddevLoop (mean : ℚ) : ℕ → HdrIter → ℚ → Except HdrError ℚ
  | 0, _, _ => .error .fuel
  | fuel + 1, iter, total => match moveNext h iter with
    | none => .ok total
    | some iter =>
      let dev := toDouble (toDouble (hdrMedianEquivalentValue h.toHdrBucketConfig iter.value) - mean)
      stddevLoop mean fuel iter
        (if iter.count ≠ 0 then toDouble (total + toDouble (toDouble (dev * dev) * toDouble iter.count))
        else total)

/-- `hdr_stddev`. -/
def hdrStddev : Except HdrError (Option ℚ) := do
  match ← hdrMean h with
  | none => .ok none
  | some mean =>
    let geometricDevTotal ← stddevLoop h mean (h.countsLen + 1) {} 0
    .ok (some (libm.sqrt (toDouble (geometricDevTotal / toDouble h.totalCount))))

def percentilesFooter (valueScale : ℚ) : Except HdrError PercentilesFooter := do
  let mean ← hdrMean h
  let stddev ← hdrStddev libm h
  .ok
    { mean := mean.map fun mean => toDouble (mean / valueScale)
      stddev := stddev.map fun stddev => toDouble (stddev / valueScale)
      max := toDouble (toDouble (hdrMax h) / valueScale)
      totalCount := h.totalCount
      bucketCount := h.bucketCount
      subBucketCount := h.subBucketCount }

/-- `hdr_percentiles_print` in `CLASSIC` format. -/
def hdrPercentilesPrint (ticksPerHalfDistance : ℕ) (valueScale : ℚ) (fuel : ℕ) :
    Except HdrError (List PercentileRow × PercentilesFooter) :=
  match percentilesLoop libm h valueScale fuel (hdrIterPercentileInit h ticksPerHalfDistance) with
  | none => .error .fuel
  | some rows => do
    let footer ← percentilesFooter libm h valueScale
    .ok (rows, footer)

end

/-! ## Iterating -/

section
variable {libm : Libm} {h : HdrHistogram} {iter base : HdrIterPercentiles} {i j fuel : ℕ} {p : ℚ}

/-- The iterator at a place. -/
def HdrIterPercentiles.placed (iter : HdrIterPercentiles) (h : HdrHistogram) (i : ℕ) : HdrIterPercentiles :=
  { iter with
    countsIndex := i
    count := hdrCountAtIndex h i
    value := hdrValueAtIndex h.toHdrBucketConfig i
    cumulativeCount := (h.counts.take (i + 1)).sum
    highestEquivalentValue :=
      NFStash.highestEquivalentValue h.toHdrBucketConfig (hdrValueAtIndex h.toHdrBucketConfig i) }

/-- What all counts have to do with each other. -/
structure HdrHistogram.Counted (h : HdrHistogram) : Prop where
  length : h.counts.length = h.countsLen
  sum : h.counts.sum = h.totalCount

theorem HdrHistogram.Counted.take_succ (hc : h.Counted) (hlt : i < h.countsLen) :
    (h.counts.take (i + 1)).sum = (h.counts.take i).sum + hdrCountAtIndex h i := by
  rw [List.take_add_one, List.sum_append, hdrCountAtIndex, List.getD_eq_getElem?_getD,
    List.getElem?_eq_getElem (hc.length ▸ hlt), Option.toList_some, List.sum_singleton, Option.getD_some]

theorem take_sum_mono (l : List ℕ) : Monotone fun i => (l.take i).sum := List.monotone_sum_take l

theorem basicIterNext_placed (hc : h.Counted) (hlt : i + 1 < h.countsLen)
    (hnext : (h.counts.take (i + 1)).sum < iter.totalCount) :
    basicIterNext h (iter.placed h i) = (true, iter.placed h (i + 1)) := by
  have hhas : hasNext (iter.placed h i) = true := decide_eq_true hnext
  rw [basicIterNext, if_pos hhas, moveNext_some (i := i + 1) (by simp [HdrIterPercentiles.placed]) hlt]
  simp only [HdrIterPercentiles.placed, hc.take_succ hlt]

theorem basicIterNext_start (hc : h.Counted) (hindex : iter.countsIndex = -1) 
    (hcount : iter.cumulativeCount = 0)
    (hlen : 0 < h.countsLen) (hnext : 0 < iter.totalCount) :
    basicIterNext h iter = (true, iter.placed h 0) := by
  have hhas : hasNext iter = true := decide_eq_true (hcount ▸ hnext)
  rw [basicIterNext, if_pos hhas, moveNext_some (i := 0) (by simp [hindex]) hlen]
  simp only [HdrIterPercentiles.placed, hc.take_succ hlen, List.take_zero, List.sum_nil, hcount]

/-- The iterator after a line for a percentage. -/
def HdrIterPercentiles.reported (iter : HdrIterPercentiles) (libm : Libm) : HdrIterPercentiles :=
  { iter with
    percentile := iter.percentileToIterateTo
    percentileToIterateTo := nextPercentile libm iter.ticksPerHalfDistance iter.percentileToIterateTo }

/-- **The search** ends at the first place where the percentage is reached. -/
theorem percentileSearch_placed (hc : h.Counted) (htotal : iter.totalCount = h.totalCount)
    (hn : 0 < h.totalCount) (hlt : h.totalCount < 2 ^ 46) (hp : iter.percentileToIterateTo < 100)
    (hreach : reach (needed h.totalCount iter.percentileToIterateTo) h.counts = some j) (hij : i ≤ j)
    (hfuel : j - i < fuel) :
    percentileSearch libm h fuel (iter.placed h i) = some ((iter.reported libm).placed h j) := by
  obtain ⟨hj, hbelow, hat⟩ := (reach_eq_some (needed_pos hn _)).1 hreach
  rw [hc.length] at hj
  induction fuel generalizing i with
  | zero => exact absurd hfuel (Nat.not_lt_zero _)
  | succ fuel ih =>
    rw [percentileSearch]
    have hcond : (iter.placed h i).count ≠ 0 ∧ (iter.placed h i).percentileToIterateTo ≤
        currentPercentile (iter.placed h i).cumulativeCount h.totalCount ↔ i = j := by
      constructor
      · rintro ⟨hcount, hle⟩
        refine le_antisymm hij (not_lt.1 fun hlt' => ?_)
        have hcum : (h.counts.take (i + 1)).sum ≠ 0 := by
          rw [hc.take_succ (hlt'.trans hj)]
          exact fun h0 => hcount (Nat.add_eq_zero_iff.1 h0).2
        have hfew := (needed_le_iff hn hlt hp.le).2 ⟨hcum, hle⟩
        exact absurd ((hfew.trans (take_sum_mono h.counts hlt')).trans_lt hbelow) (lt_irrefl _)
      · rintro rfl
        refine ⟨fun h0 => ?_, ((needed_le_iff hn hlt hp.le).1 hat).2⟩
        rw [hc.take_succ hj, show hdrCountAtIndex h i = 0 from h0] at hat
        exact absurd hbelow (not_lt.2 hat)
    by_cases heq : i = j
    · rw [if_pos (hcond.2 heq), ← heq]
      rfl
    · have hlt' : i < j := lt_of_le_of_ne hij heq
      have hnext : (h.counts.take (i + 1)).sum < iter.totalCount := by
        rw [htotal]
        exact ((take_sum_mono h.counts hlt').trans_lt hbelow).trans_le (needed_le ..)
      rw [if_neg (hcond.not.2 heq), basicIterNext_placed hc (by omega) hnext]
      exact ih hlt' (by omega)

/-- The iterator before a line: nothing has been read yet, or it is at a place and not all values
    have been counted. -/
inductive Before (h : HdrHistogram) (base : HdrIterPercentiles) : ℕ → HdrIterPercentiles → Prop
  | start : base.countsIndex = -1 → base.cumulativeCount = 0 → Before h base 0 base
  | placed {i : ℕ} : (h.counts.take (i + 1)).sum < h.totalCount → Before h base i (base.placed h i)

variable (libm) in
/-- **A line.** -/
theorem percentileIterNext_before (hc : h.Counted) (htotal : base.totalCount = h.totalCount)
    (hn : 0 < h.totalCount) (hlt : h.totalCount < 2 ^ 46) (hp : base.percentileToIterateTo < 100)
    (hreach : reach (needed h.totalCount base.percentileToIterateTo) h.counts = some j)
    (hbefore : Before h base i iter) (hij : i ≤ j) :
    percentileIterNext libm h iter = some (true, (base.reported libm).placed h j) := by
  have hj : j < h.countsLen := hc.length ▸ ((reach_eq_some (needed_pos hn _)).1 hreach).1
  have hsearch : percentileSearch libm h (h.countsLen + 1) (base.placed h i) =
      some ((base.reported libm).placed h j) :=
    percentileSearch_placed hc htotal hn hlt hp hreach hij (by omega)
  cases hbefore with
  | start hindex hcount =>
    have hhas : hasNext iter = true := decide_eq_true (by rw [hcount, htotal]; exact hn)
    rw [percentileIterNext, if_pos hhas, if_pos hindex,
      basicIterNext_start hc hindex hcount (by omega) (htotal ▸ hn)]
    dsimp only
    rw [if_pos rfl, hsearch, Option.map_some]
  | placed hnext =>
    have hhas : hasNext (base.placed h i) = true := decide_eq_true (htotal ▸ hnext)
    have hindex : (base.placed h i).countsIndex ≠ -1 := by
      simp [HdrIterPercentiles.placed]
    rw [percentileIterNext, if_pos hhas, if_neg hindex]
    dsimp only
    rw [if_pos rfl, hsearch, Option.map_some]

end

/-! ## Lines -/

/-- A line of these numbers. -/
def rowOf (valueScale : ℚ) (highest : ℕ) (p : ℚ) (count : ℕ) : PercentileRow where
  value := toDouble (toDouble highest / valueScale)
  percentile := toDouble (p / 100)
  totalCount := count
  invertedPercentile :=
    if toDouble (p / 100) = 1 then none else some (toDouble (1 / toDouble (1 - toDouble (p / 100))))

/-- The line for a percentage at a place. -/
def HdrHistogram.rowAt (h : HdrHistogram) (valueScale : ℚ) (i : ℕ) (p : ℚ) : PercentileRow :=
  rowOf valueScale (highestEquivalentValue h.toHdrBucketConfig (hdrValueAtIndex h.toHdrBucketConfig i)) p
    (h.counts.take (i + 1)).sum

section
variable {libm : Libm} {h : HdrHistogram} {iter base : HdrIterPercentiles} {i fuel ticks : ℕ} {valueScale : ℚ}

theorem percentilesLoop_succ {iter' : HdrIterPercentiles}
    (hnext : percentileIterNext libm h iter = some (true, iter')) :
    percentilesLoop libm h valueScale (fuel + 1) iter =
      (percentilesLoop libm h valueScale fuel iter').map (percentileRow valueScale iter' :: ·) := by
  rw [percentilesLoop, hnext]

theorem percentileRow_reported : percentileRow valueScale ((base.reported libm).placed h i) =
    h.rowAt valueScale i base.percentileToIterateTo := rfl

variable (libm h) in
/-- Once all values have been counted there is the line for 100, and no other. -/
theorem percentileIterNext_all (hall : iter.cumulativeCount = iter.totalCount) :
    percentileIterNext libm h iter = if iter.seenLastValue then some (false, iter)
      else some (true, { iter with seenLastValue := true, percentile := 100 }) := by
  have hhas : hasNext iter = false := by
    rw [hasNext, hall]
    exact decide_eq_false (lt_irrefl _)
  rw [percentileIterNext, hhas, if_neg Bool.false_ne_true]

/-- The last line. -/
theorem percentilesLoop_last (hall : iter.cumulativeCount = iter.totalCount) 
    (hseen : iter.seenLastValue = false) :
    percentilesLoop libm h valueScale (fuel + 2) iter =
      some [percentileRow valueScale { iter with percentile := 100 }] := by
  have hnext := percentileIterNext_all libm h hall
  rw [hseen, if_neg Bool.false_ne_true] at hnext
  have hend : percentileIterNext libm h { iter with seenLastValue := true, percentile := 100 } =
      some (false, { iter with seenLastValue := true, percentile := 100 }) := percentileIterNext_all libm h hall
  rw [percentilesLoop_succ hnext, percentilesLoop, hend]
  rfl

variable {place : ℕ → ℕ} {m : ℕ}

/-- **All lines**, where the percentage number `m` is the first one that takes all values. -/
theorem percentilesLoop_rows (hc : h.Counted) (hn : 0 < h.totalCount) (ht : Ticking ticks h.totalCount)
    (hplace : ∀ k ≤ m, reach (needed h.totalCount (percentage libm ticks k)) h.counts = some (place k))
    (hfew : ∀ k < m, (h.counts.take (place k + 1)).sum < h.totalCount)
    (hall : (h.counts.take (place m + 1)).sum = h.totalCount) {d k : ℕ} (hd : k + d = m)
    (hbefore : Before h base i iter) (hle : i ≤ place k) (htotal : base.totalCount = h.totalCount)
    (hbase : base.ticksPerHalfDistance = ticks) (hp : base.percentileToIterateTo = percentage libm ticks k)
    (hseen : base.seenLastValue = false) :
    percentilesLoop libm h valueScale (fuel + d + 3) iter =
      some ((List.range' k (d + 1)).map (fun k => h.rowAt valueScale (place k) (percentage libm ticks k)) ++
        [h.rowAt valueScale (place m) 100]) := by
  have hlt := ht.few
  have hneeded : ∀ k < m, needed h.totalCount (percentage libm ticks k) < h.totalCount := fun k hk =>
    ((reach_eq_some (needed_pos hn _)).1 (hplace k hk.le)).2.2.trans_lt (hfew k hk)
  have hbounds : ∀ k ≤ m, percentage libm ticks k < 100 := fun k hk =>
    (percentage_bounds libm ht hn fun i hi => hneeded i (hi.trans_le hk)).2
  induction d generalizing k base i iter with
  | zero =>
    obtain rfl : k = m := by omega
    have hline := percentileIterNext_before libm hc htotal hn (by omega) (hp ▸ hbounds k le_rfl)
      (hp ▸ hplace k le_rfl) hbefore hle
    have hend : ((base.reported libm).placed h (place k)).cumulativeCount = base.totalCount :=
      hall.trans htotal.symm
    rw [percentilesLoop_succ hline, percentilesLoop_last hend hseen, percentileRow_reported, hp]
    rfl
  | succ d ih =>
    have hplace' := hplace k (by omega)
    have hnext := hplace (k + 1) (by omega)
    have hmono : place k ≤ place (k + 1) := by
      obtain ⟨-, hbelow, -⟩ := (reach_eq_some (needed_pos hn _)).1 hplace'
      obtain ⟨-, -, hat⟩ := (reach_eq_some (needed_pos hn _)).1 hnext
      have hmore := needed_mono h.totalCount
        (percentage_lt libm ht hn (fun i hi => hneeded i (by omega)) (Nat.lt_succ_self k)).le
      by_contra hgt
      have hsum := take_sum_mono h.counts (show place (k + 1) + 1 ≤ place k by omega)
      exact absurd (hmore.trans (hat.trans hsum)) (not_le.2 hbelow)
    have hp' : (base.reported libm).percentileToIterateTo = percentage libm ticks (k + 1) := by
      have hstep : (base.reported libm).percentileToIterateTo =
        nextPercentile libm base.ticksPerHalfDistance base.percentileToIterateTo := rfl
      rw [hstep, hbase, hp, percentage, percentage, level_succ]
    have hbefore' : Before h (base.reported libm) (place k) ((base.reported libm).placed h (place k)) :=
      .placed (hfew k (by omega))
    have hline := percentileIterNext_before libm hc htotal hn (by omega) (hp ▸ hbounds k (by omega))
      (hp ▸ hplace') hbefore hle
    have hrest := ih (by omega) hbefore' hmono htotal hbase hp' hseen
    rw [percentilesLoop_succ hline, show fuel + (d + 1) + 2 = fuel + d + 3 by omega, hrest,
      percentileRow_reported, hp, List.range'_succ]
    rfl

end

/-! ## The values of a line -/

/-- The line for a percentage of these values that is reached with the class of `v`. -/
def HdrHistogram.lineOf (h : HdrHistogram) (valueScale : ℚ) (vs : List ℕ) (p : ℚ) (v : ℕ) : PercentileRow :=
  rowOf valueScale (highestEquivalentValue h.toHdrBucketConfig v) p
    (vs.countP (· ≤ highestEquivalentValue h.toHdrBucketConfig v))

/-- A table of these values: a line for each of the percentages in order, with the first class that they
    are reached with, and one for 100.  It ends as soon as all values have been counted. -/
structure HdrHistogram.Tabulates (libm : Libm) (h : HdrHistogram) (ticks : ℕ) (valueScale : ℚ) (vs : List ℕ)
    (rows : List PercentileRow) : Prop where
  lines : vs ≠ [] → ∃ (m : ℕ) (v : ℕ → ℕ),
    (∀ i ≤ m, ∃ k : ℕ, 0 < k ∧ |(k : ℚ) - percentage libm ticks i / 100 * vs.length| < 2 ∧
      rank vs (k - 1) = some (v i)) ∧
    rows = (List.range (m + 1)).map (fun i => h.lineOf valueScale vs (percentage libm ticks i) (v i)) ++
      [h.lineOf valueScale vs 100 (v m)] ∧
    (∀ i ≤ m, vs.countP (· ≤ highestEquivalentValue h.toHdrBucketConfig (v i)) = vs.length ↔ i = m) ∧
    -- nothing overflows on the way
    ∀ i ≤ m, ticks * 2 ^ (halvings libm (percentage libm ticks i) + 1) ≤ INT64_MAX
  last : rows.getLast? = some ⟨toDouble (toDouble (hdrMax h) / valueScale), 1, vs.length, none⟩
  /-- but for the rounding of the percentages -/
  reached : ∀ row ∈ rows, row.percentile * vs.length ≤ row.totalCount * (1 + 1 / 2 ^ 49)
  ascending : rows.Pairwise fun row row' =>
    row.percentile ≤ row'.percentile ∧ row.value ≤ row'.value ∧ row.totalCount ≤ row'.totalCount

/-- The lines after the table of these values: the mean is that of the values up to the significant
    figures, and the standard deviation that of the middles of their classes about the computed mean. -/
structure PercentilesFooter.Right (footer : PercentilesFooter) (h : HdrHistogram) (significantFigures : ℕ)
    (valueScale : ℚ) (vs : List ℕ) : Prop where
  mean : vs ≠ [] → ∃ x, footer.mean = some x ∧
    |x - Running.mean (vs.map fun v : ℕ => (v : ℚ)) / valueScale| * 10 ^ significantFigures ≤
      Running.mean (vs.map fun v : ℕ => (v : ℚ)) / valueScale
  stddev : vs ≠ [] → ∃ m x, hdrMean h = .ok (some m) ∧ footer.stddev = some x ∧
    Near (1 / 2 ^ 24 : ℝ) (√(Running.mean (vs.map fun v =>
      ((hdrMedianEquivalentValue h.toHdrBucketConfig v : ℚ) - m) ^ 2) : ℚ) / valueScale) x
  max : footer.max = toDouble (toDouble (hdrMax h) / valueScale)
  totalCount : footer.totalCount = vs.length

section
variable {libm : Libm} {h : HdrHistogram} {vs : List ℕ} {v u ticks : ℕ} {p q valueScale : ℚ}

namespace HdrHistogram.Holds

theorem counted (hh : h.Holds vs) : h.Counted := by
  refine ⟨hh.counts_length, ?_⟩
  have htake : (table h.place h.countsLen vs).take h.countsLen = table h.place h.countsLen vs :=
    List.take_of_length_le (table_length ..).le
  rw [hh.counts, hh.totalCount, ← htake, sum_take_table le_rfl, List.countP_eq_length]
  exact fun v hv => decide_eq_true (hh.place_lt hv)

/-- A count is one of all values. -/
theorem count_le (hh : h.Holds vs) (i : ℕ) : hdrCountAtIndex h i ≤ vs.length := by
  rw [hdrCountAtIndex, List.getD_eq_getElem?_getD]
  cases hget : h.counts[i]? with
  | none => exact Nat.zero_le _
  | some count =>
    have hle := List.single_le_sum (fun c _ => Nat.zero_le c) count (List.mem_of_getElem? hget)
    rwa [hh.counted.sum, hh.totalCount] at hle

theorem le_highest_iff (hh : h.Holds vs) :
    u ≤ highestEquivalentValue h.toHdrBucketConfig v ↔ h.place u < h.place v + 1 := by
  have hleast := h.least_le_iff (h.place v + 1) u
  have hpos : 0 < h.least (h.place v + 1) := (h.least_strictMono (Nat.succ_pos (h.place v))).pos
  rw [highestEquivalentValue, hh.formed.next]
  omega

theorem rowAt_place (hh : h.Holds vs) (hv : v ∈ vs) (p : ℚ) :
    h.rowAt valueScale (h.place v) p = h.lineOf valueScale vs p v := by
  have hcount : (h.counts.take (h.place v + 1)).sum =
      vs.countP (· ≤ highestEquivalentValue h.toHdrBucketConfig v) := by
    rw [hh.counts, sum_take_table (hh.place_lt hv)]
    exact List.countP_congr fun u _ => by rw [decide_eq_true_eq, decide_eq_true_eq, hh.le_highest_iff]
  rw [rowAt, lineOf, hcount, hh.formed.valueAtIndex, hh.highest_least]

/-- A percentage is reached with the class of its rank. -/
theorem needed_le_count (hh : h.Holds vs) (hne : vs ≠ []) (hv : rank vs (needed vs.length p - 1) = some v) :
    needed vs.length p ≤ vs.countP (· ≤ highestEquivalentValue h.toHdrBucketConfig v) := by
  have hpos := needed_pos (List.length_pos_iff.2 hne) p
  have hcount := (rank_iff_lt_countP hv (p := (· ≤ highestEquivalentValue h.toHdrBucketConfig v))
    fun a b hab hb => decide_eq_true (hab.trans (of_decide_eq_true hb))).1 (decide_eq_true (hh.bounds v).2)
  omega

theorem exists_rank (hne : vs ≠ []) (p : ℚ) : ∃ v ∈ vs, rank vs (needed vs.length p - 1) = some v := by
  have hle := needed_le vs.length p
  have hpos := needed_pos (List.length_pos_iff.2 hne) p
  cases hr : rank vs (needed vs.length p - 1) with
  | none =>
    rw [rank_eq_none] at hr
    omega
  | some v => exact ⟨v, mem_of_rank hr, rfl⟩

theorem toDouble_percent : toDouble (100 / 100) = 1 := by rw [div_self (by norm_num), toDouble_one]

/-- The count of a line is the share of its percentage, but for what is lost by rounding. -/
theorem lineOf_reached (hh : h.Holds vs) (hne : vs ≠ []) (hlt : vs.length < 2 ^ 46) (h0 : 0 ≤ p) (hp : p ≤ 100)
    (hv : rank vs (needed vs.length p - 1) = some v) :
    (h.lineOf valueScale vs p v).percentile * vs.length ≤
      (h.lineOf valueScale vs p v).totalCount * (1 + 1 / 2 ^ 49) := by
  have hn : 0 < vs.length := List.length_pos_iff.2 hne
  have hn' : (0 : ℚ) < vs.length := Nat.cast_pos.2 hn
  have hle := ((needed_le_iff hn hlt hp).1 (hh.needed_le_count hne hv)).2
  have hcount := mul_le_mul_of_nonneg_right (hle.trans (near_currentPercentile _ hn).upper) hn'.le
  rw [mul_right_comm, div_mul_cancel₀ _ hn'.ne'] at hcount
  have hround := mul_le_mul_of_nonneg_right
    (near_toDouble (div_nonneg h0 (show (0 : ℚ) ≤ 100 by norm_num))).upper hn'.le
  have hpos : (0 : ℚ) ≤ vs.countP (· ≤ highestEquivalentValue h.toHdrBucketConfig v) := Nat.cast_nonneg _
  simp only [HdrHistogram.lineOf, rowOf]
  linarith

/-- Lines in the order of the percentages. -/
theorem lineOf_le (hh : h.Holds vs) (hscale : 0 < valueScale) (hle : v ≤ u) (hpq : p ≤ q) :
    (h.lineOf valueScale vs p v).percentile ≤ (h.lineOf valueScale vs q u).percentile ∧
      (h.lineOf valueScale vs p v).value ≤ (h.lineOf valueScale vs q u).value ∧
      (h.lineOf valueScale vs p v).totalCount ≤ (h.lineOf valueScale vs q u).totalCount := by
  have hhighest := hh.highest_mono hle
  refine ⟨toDouble_mono (div_le_div_of_nonneg_right hpq (by norm_num)), toDouble_mono ?_, ?_⟩
  · exact div_le_div_of_nonneg_right (toDouble_mono (Nat.cast_le.2 hhighest)) hscale.le
  · exact List.countP_mono_left fun w _ hw => decide_eq_true ((of_decide_eq_true hw).trans hhighest)

/-- The class with which all values have been counted is that of the greatest one. -/
theorem highest_all (hh : h.Holds vs) (hu : h.unitMagnitude = 0) (hv : v ∈ vs)
    (hall : vs.countP (· ≤ highestEquivalentValue h.toHdrBucketConfig v) = vs.length) :
    highestEquivalentValue h.toHdrBucketConfig v = hdrMax h := by
  have hmax : IsGreatest {v | v ∈ vs} (greatest 0 vs) :=
    isGreatest_greatest_iff.2 ⟨v, hv, Nat.zero_le v⟩
  rw [hh.max_eq hu hmax]
  refine le_antisymm (hh.highest_mono (hmax.2 hv)) ?_
  have hle := of_decide_eq_true (List.countP_eq_length.1 hall _ hmax.1)
  rw [highestEquivalentValue, highestEquivalentValue, hh.formed.next, hh.formed.next]
  exact Nat.sub_le_sub_right (h.least_strictMono.monotone (hh.le_highest_iff.1 hle)) 1

variable (libm) in
/-- The values that the percentages are reached with, up to the first one that takes all values. -/
theorem exists_values (hh : h.Holds vs) (hne : vs ≠ []) (ht : Ticking ticks vs.length) :
    ∃ (m : ℕ) (v : ℕ → ℕ),
      (∀ i, v i ∈ vs ∧ rank vs (needed vs.length (percentage libm ticks i) - 1) = some (v i)) ∧
        ∀ i ≤ m, vs.countP (· ≤ highestEquivalentValue h.toHdrBucketConfig (v i)) = vs.length ↔ i = m := by
  choose v hmem hrank using fun i => exists_rank hne (percentage libm ticks i)
  have hall : ∃ i, vs.countP (· ≤ highestEquivalentValue h.toHdrBucketConfig (v i)) = vs.length := by
    obtain ⟨i, hi⟩ := exists_needed libm ht (List.length_pos_iff.2 hne)
    have hcount := hh.needed_le_count hne (hrank i)
    exact ⟨i, le_antisymm List.countP_le_length (hi ▸ hcount)⟩
  refine ⟨Nat.find hall, v, fun i => ⟨hmem i, hrank i⟩, fun i hi => ⟨fun hcount => ?_, ?_⟩⟩
  · exact le_antisymm hi (Nat.find_min' hall hcount)
  · rintro rfl
    exact Nat.find_spec hall

section
variable {m : ℕ} {v : ℕ → ℕ}
  (hv : ∀ i, v i ∈ vs ∧ rank vs (needed vs.length (percentage libm ticks i) - 1) = some (v i))
  (hm : ∀ i ≤ m, vs.countP (· ≤ highestEquivalentValue h.toHdrBucketConfig (v i)) = vs.length ↔ i = m)
include hv hm

/-- The lines that are printed. -/
theorem percentilesLoop_values (hh : h.Holds vs) (hne : vs ≠ []) (ht : Ticking ticks vs.length) (fuel : ℕ) :
    percentilesLoop libm h valueScale (fuel + m + 3) (hdrIterPercentileInit h ticks) =
      some ((List.range (m + 1)).map (fun i => h.lineOf valueScale vs (percentage libm ticks i) (v i)) ++
        [h.lineOf valueScale vs 100 (v m)]) := by
  have hn : 0 < h.totalCount := hh.totalCount ▸ List.length_pos_iff.2 hne
  have hrow : ∀ i p, h.rowAt valueScale (h.place (v i)) p = h.lineOf valueScale vs p (v i) :=
    fun i p => hh.rowAt_place (hv i).1 p
  have htake : ∀ i, (h.counts.take (h.place (v i) + 1)).sum =
      vs.countP (· ≤ highestEquivalentValue h.toHdrBucketConfig (v i)) :=
    fun i => congrArg PercentileRow.totalCount (hrow i 0)
  have hreach : ∀ i ≤ m, reach (needed h.totalCount (percentage libm ticks i)) h.counts =
      some (h.place (v i)) := by
    intro i _
    have hpos := needed_pos (List.length_pos_iff.2 hne) (percentage libm ticks i)
    have hreach := reach_table h.place_mono (fun w hw => hh.place_lt hw) (hv i).2
    rwa [Nat.sub_add_cancel hpos, ← hh.counts, ← hh.totalCount] at hreach
  have hfew : ∀ i < m, (h.counts.take (h.place (v i) + 1)).sum < h.totalCount := by
    intro i hi
    rw [htake, hh.totalCount]
    exact lt_of_le_of_ne List.countP_le_length fun hcount => hi.ne ((hm i hi.le).1 hcount)
  have hall : (h.counts.take (h.place (v m) + 1)).sum = h.totalCount := by
    rw [htake, hh.totalCount]
    exact (hm m le_rfl).2 rfl
  have hstart : Before h (hdrIterPercentileInit h ticks) 0 (hdrIterPercentileInit h ticks) := .start rfl rfl
  rw [percentilesLoop_rows hh.counted hn (hh.totalCount ▸ ht) hreach hfew hall (Nat.zero_add m) hstart
    (Nat.zero_le _) rfl rfl rfl rfl, ← List.range_eq_range']
  simp only [hrow]

/-- Only the last percentage takes all values. -/
theorem needed_lt (hh : h.Holds vs) (hne : vs ≠ []) {i : ℕ} (hi : i < m) :
    needed vs.length (percentage libm ticks i) < vs.length :=
  (hh.needed_le_count hne (hv i).2).trans_lt (lt_of_le_of_ne List.countP_le_length
    fun hcount => hi.ne ((hm i hi.le).1 hcount))

/-- They are a table. -/
theorem lines_tabulate (hh : h.Holds vs) (hu : h.unitMagnitude = 0) (hne : vs ≠ [])
    (ht : Ticking ticks vs.length)
    (hscale : 0 < valueScale) : h.Tabulates libm ticks valueScale vs
      ((List.range (m + 1)).map (fun i => h.lineOf valueScale vs (percentage libm ticks i) (v i)) ++
        [h.lineOf valueScale vs 100 (v m)]) := by
  have hn : 0 < vs.length := List.length_pos_iff.2 hne
  have hn' : (0 : ℚ) < vs.length := Nat.cast_pos.2 hn
  have hlt : vs.length < 2 ^ 46 := ht.few.trans (by decide)
  have hall : vs.countP (· ≤ highestEquivalentValue h.toHdrBucketConfig (v m)) = vs.length :=
    (hm m le_rfl).2 rfl
  have hbounds : ∀ i ≤ m, 0 ≤ percentage libm ticks i ∧ percentage libm ticks i < 100 := fun i hi =>
    percentage_bounds libm ht hn fun j hj => hh.needed_lt hv hm hne (hj.trans_le hi)
  have hascend : ∀ {i j}, i < j → j ≤ m → percentage libm ticks i ≤ percentage libm ticks j :=
    fun {i j} hij hj =>
    (percentage_lt libm ht hn (fun k hk => hh.needed_lt hv hm hne (hk.trans_le hj)) hij).le
  have hmono : ∀ {i j}, i < j → j ≤ m → v i ≤ v j := fun {i j} hij hj => rank_mono (hv i).2 (hv j).2
    (Nat.sub_le_sub_right (needed_mono _ (hascend hij hj)) 1)
  refine ⟨fun _ => ⟨m, v, fun i hi => ⟨_, needed_pos hn _,
    needed_near hn hlt (hbounds i hi).1 (hbounds i hi).2.le,
    (hv i).2⟩, rfl, hm, fun i hi => percentage_ticks libm ht hn fun j hj => hh.needed_lt hv hm hne (hj.trans_le hi)⟩,
    ?_, ?_, ?_⟩
  · rw [List.getLast?_concat, HdrHistogram.lineOf, hall, hh.highest_all hu (hv m).1 hall, rowOf, toDouble_percent,
      if_pos rfl]
  · refine List.forall_mem_append.2 ⟨List.forall_mem_map.2 fun i hi => ?_, List.forall_mem_singleton.2 ?_⟩
    · have hi' : i ≤ m := Nat.lt_succ_iff.1 (List.mem_range.1 hi)
      exact hh.lineOf_reached hne hlt (hbounds i hi').1 (hbounds i hi').2.le (hv i).2
    · simp only [HdrHistogram.lineOf, rowOf, hall, toDouble_percent]
      linarith
  · refine List.pairwise_append.2 ⟨List.pairwise_map.2 ?_, List.pairwise_singleton .., ?_⟩
    · refine List.pairwise_lt_range.imp_of_mem fun _ hj hij => ?_
      have hj' := Nat.lt_succ_iff.1 (List.mem_range.1 hj)
      exact hh.lineOf_le hscale (hmono hij hj') (hascend hij hj')
    · rintro _ hrow _ hlast
      obtain ⟨i, hi, rfl⟩ := List.mem_map.1 hrow
      obtain rfl := List.mem_singleton.1 hlast
      have hi' := Nat.lt_succ_iff.1 (List.mem_range.1 hi)
      refine hh.lineOf_le hscale ?_ (hbounds i hi').2.le
      rcases hi'.lt_or_eq with hlt' | rfl
      · exact hmono hlt' le_rfl
      · exact le_rfl

end

variable (libm) in
/-- **The table** is printed, if there is enough fuel. -/
theorem percentilesLoop_tabulates (hh : h.Holds vs) (hu : h.unitMagnitude = 0) (ht : Ticking ticks vs.length)
    (hscale : 0 < valueScale) : ∃ rows steps,
      (∀ fuel, percentilesLoop libm h valueScale (fuel + steps) (hdrIterPercentileInit h ticks) = some rows) ∧
        h.Tabulates libm ticks valueScale vs rows := by
  by_cases hne : vs = []
  · -- there is nothing to go through
    subst hne
    have htotal : h.totalCount = 0 := hh.totalCount
    have hmax : hdrMax h = 0 := by
      rw [hdrMax, hh.maxValue]
      rfl
    have hzero : toDouble ((0 : ℕ) : ℚ) = 0 := by
      rw [Nat.cast_zero]
      exact round_zero 53
    refine ⟨[⟨toDouble (toDouble ((0 : ℕ) : ℚ) / valueScale), 1, 0, none⟩], 2, fun fuel => ?_,
      fun hne => absurd rfl hne,
      ?_, ?_, List.pairwise_singleton ..⟩
    · rw [percentilesLoop_last htotal.symm rfl]
      simp only [percentileRow, hdrIterPercentileInit, toDouble_percent, if_true]
    · rw [hmax]
      rfl
    · refine List.forall_mem_singleton.2 ?_
      rw [List.length_nil, Nat.cast_zero, mul_zero, zero_mul]
  · obtain ⟨m, v, hv, hm⟩ := hh.exists_values libm hne ht
    exact ⟨_, m + 3, hh.percentilesLoop_values hv hm hne ht, hh.lines_tabulate hv hm hu hne ht hscale⟩

end HdrHistogram.Holds

end

/-! ## The lines after the table -/

section
variable {libm : Libm} {h : HdrHistogram} {vs : List ℕ} {ticks significantFigures : ℕ} {valueScale : ℚ}

/-- What the values of a class add to the deviations from a mean. -/
def HdrHistogram.deviation (h : HdrHistogram) (mean : ℚ) (i count : ℕ) : ℚ :=
  count * ((hdrMedianEquivalentValue h.toHdrBucketConfig (h.least i) : ℚ) - mean) ^ 2

theorem HdrHistogram.deviation_nonneg (mean : ℚ) (i count : ℕ) : 0 ≤ h.deviation mean i count :=
  mul_nonneg count.cast_nonneg (sq_nonneg _)

/-- What is added for a class is that, but for three roundings. -/
theorem near_deviation {median count : ℕ} (hmedian : toDouble median = median) (hcount : count < 2 ^ 53)
    (mean : ℚ) :
    Near (1 / 2 ^ 50) ((count : ℚ) * (median - mean) ^ 2)
      (toDouble (toDouble (toDouble (toDouble median - mean) * toDouble (toDouble median - mean)) *
        toDouble count)) := by
  rw [hmedian, toDouble_natCast hcount, sq]
  have hdev : |toDouble (median - mean) - (median - mean)| ≤ |(median : ℚ) - mean| * (1 / 2 ^ 53) := by
    rw [mul_one_div]
    exact abs_round_sub_le 53 _
  have hpos := mul_self_nonneg ((median : ℚ) - mean)
  have hsq := (near_sq hdev (by norm_num) (by norm_num)).trans (near_toDouble (mul_self_nonneg _)) hpos
    (by norm_num) (by norm_num) (by norm_num)
  have hterm := mul_nonneg hpos (count.cast_nonneg (α := ℚ))
  rw [mul_comm (count : ℚ)]
  refine ((hsq.mul_right count.cast_nonneg).trans (near_toDouble ?_) hterm (by norm_num) (by norm_num)
    (by norm_num)).mono hterm (by norm_num)
  exact mul_nonneg (round_nonneg (mul_self_nonneg _)) count.cast_nonneg

namespace HdrHistogram.Used

/-- A `double` holds the middle of every class. -/
theorem toDouble_median (hh : h.Used significantFigures vs) (v : ℕ) :
    toDouble (hdrMedianEquivalentValue h.toHdrBucketConfig v) =
      hdrMedianEquivalentValue h.toHdrBucketConfig v := by
  have hmagnitude : h.subBucketHalfCountMagnitude ≤ 24 := by
    have hplaces := hh.places
    rw [hh.holds.formed.countsLen] at hplaces
    exact (Nat.pow_le_pow_iff_right (by decide)).1 ((Nat.le_mul_of_pos_left _ (Nat.succ_pos _)).trans hplaces)
  obtain ⟨k, e, hk, hmedian⟩ := hh.holds.formed.median_digits v
  have hk' : |(k : ℤ)| < 2 ^ 53 := by
    rw [Nat.abs_cast]
    have hdigits : h.subBucketHalfCountMagnitude + 2 ≤ 53 := by omega
    exact_mod_cast hk.trans_le (Nat.pow_le_pow_right two_pos hdigits)
  have hround := round_eq (e := e) hk'
  rw [hmedian]
  exact_mod_cast hround

/-- **The loop for the standard deviation** adds them up; every sum is rounded. -/
theorem stddevLoop_near (hh : h.Used significantFigures vs) (hfew : vs.length < 2 ^ 53) (mean : ℚ)
    {iter : HdrIter} {i fuel : ℕ} {exact total ε : ℚ} (hi : iter.countsIndex = i - 1)
    (hfuel : h.countsLen - i < fuel) (hexact : 0 ≤ exact) (hnear : Near ε exact total)
    (hε : 1 / 2 ^ 50 ≤ ε) (hone : ε + (h.countsLen - i : ℕ) * (2 / 2 ^ 53) ≤ 1) :
    ∃ x, stddevLoop h mean fuel iter total = .ok x ∧ Near (ε + (h.countsLen - i : ℕ) * (2 / 2 ^ 53))
      (exact + (((h.counts.drop i).zipIdx i).map fun c => h.deviation mean c.2 c.1).sum) x := by
  induction fuel generalizing i iter exact total ε with
  | zero => exact absurd hfuel (Nat.not_lt_zero _)
  | succ fuel ih =>
    rw [stddevLoop]
    by_cases hlt : i < h.countsLen
    · have hleft : h.countsLen - i = h.countsLen - (i + 1) + 1 := by omega
      have hdev := h.deviation_nonneg mean i (hdrCountAtIndex h i)
      have hterm : Near (1 / 2 ^ 50) (h.deviation mean i (hdrCountAtIndex h i)) _ :=
        near_deviation (hh.toDouble_median _) ((hh.holds.count_le i).trans_lt hfew) mean
      rw [hleft, Nat.cast_succ] at hone
      have hsteps : (0 : ℚ) ≤ (h.countsLen - (i + 1) : ℕ) * (2 / 2 ^ 53) := by positivity
      have hround : (0 : ℚ) ≤ 2 / 2 ^ 53 := by norm_num
      rw [moveNext_some hi hlt, drop_counts hh.holds.counts_length hlt, List.zipIdx_cons, List.map_cons,
        List.sum_cons,
        ← add_assoc, hleft, Nat.cast_succ, add_one_mul, ← add_assoc, add_right_comm ε]
      dsimp only
      rw [hh.holds.formed.valueAtIndex]
      refine ih (by simp) (by omega) (add_nonneg hexact hdev) ?_ (by linarith) (by linarith)
      split_ifs with h0
      · exact hnear.add_round (hterm.mono hdev hε) hexact hdev (by linarith) (by linarith)
      · rw [HdrHistogram.deviation, not_not.1 h0, Nat.cast_zero, zero_mul, add_zero]
        exact hnear.mono hexact (by linarith)
    · rw [moveNext_none hi (not_lt.1 hlt), List.drop_eq_nil_of_le (hh.holds.counts_length.trans_le (not_lt.1 hlt))]
      refine ⟨total, rfl, ?_⟩
      rw [Nat.sub_eq_zero_of_le (not_lt.1 hlt), Nat.cast_zero, zero_mul, add_zero]
      simpa using hnear

/-- The loop as a whole: the deviations of the classes are those of the values. -/
theorem stddevLoop_total (hh : h.Used significantFigures vs) (hfew : vs.length < 2 ^ 53) (mean : ℚ) :
    ∃ total, stddevLoop h mean (h.countsLen + 1) {} 0 = .ok total ∧ Near (1 / 2 ^ 27)
      (vs.map fun v => ((hdrMedianEquivalentValue h.toHdrBucketConfig v : ℚ) - mean) ^ 2).sum total := by
  have hlen : (h.countsLen : ℚ) ≤ 2 ^ 24 := by exact_mod_cast hh.places
  have hloop : ∃ x, stddevLoop h mean (h.countsLen + 1) {} 0 = .ok x ∧
      Near (1 / 2 ^ 50 + (h.countsLen - 0 : ℕ) * (2 / 2 ^ 53) : ℚ)
        (0 + (((h.counts.drop 0).zipIdx 0).map fun c => h.deviation mean c.2 c.1).sum) x :=
    hh.stddevLoop_near (i := 0) hfew mean rfl (Nat.lt_succ_self _) le_rfl
      (Near.refl (by norm_num) le_rfl) le_rfl (by rw [Nat.sub_zero]; linarith)
  obtain ⟨total, htotal, hnear⟩ := hloop
  have hsum := sum_table (fun i => ((hdrMedianEquivalentValue h.toHdrBucketConfig (h.least i) : ℚ) - mean) ^ 2)
    fun w hw => hh.holds.place_lt hw
  simp only [hh.holds.median_least] at hsum
  simp only [HdrHistogram.deviation, List.drop_zero, hh.holds.counts, hsum, zero_add, Nat.sub_zero] at hnear
  refine ⟨total, htotal, hnear.mono (List.sum_nonneg (List.forall_mem_map.2 fun v _ => sq_nonneg _)) ?_⟩
  linarith

variable (libm) in
/-- **The standard deviation.** -/
theorem stddev_near (hh : h.Used significantFigures vs) (hne : vs ≠ []) (hfew : vs.length < 2 ^ 53)
    {mean : ℚ} (hmean : hdrMean h = .ok (some mean)) :
    ∃ x, hdrStddev libm h = .ok (some x) ∧ 0 ≤ x ∧ Near (1 / 2 ^ 25 : ℝ) √(Running.mean (vs.map fun v =>
      ((hdrMedianEquivalentValue h.toHdrBucketConfig v : ℚ) - mean) ^ 2) : ℚ) x := by
  have hn : (0 : ℚ) < vs.length := Nat.cast_pos.2 (List.length_pos_iff.2 hne)
  obtain ⟨total, htotal, hnear⟩ := hh.stddevLoop_total hfew mean
  rw [hdrStddev, hmean]
  dsimp only [Bind.bind, Except.bind]
  rw [htotal, hh.holds.totalCount, toDouble_natCast hfew]
  dsimp only
  have hdevs : 0 ≤ (vs.map fun v => ((hdrMedianEquivalentValue h.toHdrBucketConfig v : ℚ) - mean) ^ 2).sum :=
    List.sum_nonneg (List.forall_mem_map.2 fun v _ => sq_nonneg _)
  have hvar :
      (vs.map fun v => ((hdrMedianEquivalentValue h.toHdrBucketConfig v : ℚ) - mean) ^ 2).sum / vs.length =
        Running.mean (vs.map fun v => ((hdrMedianEquivalentValue h.toHdrBucketConfig v : ℚ) - mean) ^ 2) := by
    rw [Running.mean, List.length_map]
  have hvar0 := hvar ▸ div_nonneg hdevs hn.le
  -- the variance
  have hquotient := hnear.div_right hn.le
  rw [hvar] at hquotient
  have hround := (hquotient.trans (near_toDouble (div_nonneg (hnear.nonneg hdevs (by norm_num)) hn.le)) hvar0
    (by norm_num) (by norm_num) (by norm_num)).mono hvar0 (show _ ≤ 1 / 2 ^ 26 by norm_num)
  have hround0 := hround.nonneg hvar0 (by norm_num)
  generalize toDouble (total / vs.length) = variance at hround hround0 ⊢
  -- and its root
  have hcast := hround.cast (K := ℝ)
  push_cast only [Rat.cast_div, Rat.cast_one, Rat.cast_pow, Rat.cast_ofNat] at hcast
  have hroot := hcast.sqrt (by exact_mod_cast hvar0) (by norm_num) (by norm_num)
  have hlibm := near_of_abs (Real.sqrt_nonneg _) (libm.sqrt_close variance hround0)
  have hlibm0 : (0 : ℝ) ≤ libm.sqrt variance := hlibm.nonneg (Real.sqrt_nonneg _) (by norm_num)
  exact ⟨_, rfl, by exact_mod_cast hlibm0, (hroot.trans hlibm (Real.sqrt_nonneg _) (by norm_num) (by norm_num)
    (by norm_num)).mono (Real.sqrt_nonneg _) (by norm_num)⟩

variable (libm) in
/-- **What is printed after the table.** -/
theorem footer_right (hh : h.Used significantFigures vs) (hlt : vs.length < 2 ^ 53)
    (hfits : vs.length * h.limit ≤ INT64_MAX) (hscale : 0 < valueScale) :
    ∃ footer, percentilesFooter libm h valueScale = .ok footer ∧
      footer.Right h significantFigures valueScale vs := by
  by_cases hne : vs = []
  · -- there is neither a mean nor a standard deviation
    subst hne
    have hstddev : hdrStddev libm h = .ok none := by
      rw [hdrStddev, hh.holds.mean_nil]
      rfl
    rw [percentilesFooter, hh.holds.mean_nil, hstddev]
    exact ⟨_, rfl, fun hne => absurd rfl hne, fun hne => absurd rfl hne, rfl, hh.holds.totalCount⟩
  · obtain ⟨mean, hmean, hnear⟩ := hh.holds.mean_near hne hfits
    obtain ⟨stddev, hstddev, hpos, hnear'⟩ := hh.stddev_near libm hne hlt hmean
    have hmedians : 0 ≤ Running.mean (vs.map fun v => (hdrMedianEquivalentValue h.toHdrBucketConfig v : ℚ)) :=
      div_nonneg (List.sum_nonneg (List.forall_mem_map.2 fun v _ => Nat.cast_nonneg _)) (Nat.cast_nonneg _)
    have hmean0 := hnear.nonneg hmedians (by norm_num)
    rw [percentilesFooter, hmean, hstddev]
    refine ⟨_, rfl, fun _ => ⟨_, rfl, ?_⟩, fun _ => ⟨mean, _, hmean, rfl, ?_⟩, rfl, hh.holds.totalCount⟩
    · have hscaled := div_nonneg hmedians hscale.le
      have hround := ((hnear.div_right hscale.le).trans (near_toDouble (div_nonneg hmean0 hscale.le)) hscaled
        (by norm_num) (by norm_num) (by norm_num)).mono hscaled (show _ ≤ 1 / 2 ^ 48 by norm_num)
      refine Holds.close_of_near hh.five hround ?_
      have hclose := div_le_div_of_nonneg_right (hh.holds.medians_close hh.unit hh.figures) hscale.le
      rwa [← sub_div, abs_div, abs_of_pos hscale, div_mul_eq_mul_div]
    · have hscale' : (0 : ℝ) ≤ valueScale := by exact_mod_cast hscale.le
      have hround := (near_toDouble (div_nonneg hpos hscale.le)).cast (K := ℝ)
      push_cast only [Rat.cast_div, Rat.cast_one, Rat.cast_pow, Rat.cast_ofNat] at hround
      have hroot := div_nonneg (Real.sqrt_nonneg ((Running.mean (vs.map fun v =>
        ((hdrMedianEquivalentValue h.toHdrBucketConfig v : ℚ) - mean) ^ 2) : ℚ) : ℝ)) hscale'
      exact ((hnear'.div_right hscale').trans hround hroot (by norm_num) (by norm_num) (by norm_num)).mono hroot
        (by norm_num)

variable (libm) in
/-- **All that is printed.** -/
theorem print (hh : h.Used significantFigures vs) (ht : Ticking ticks vs.length)
    (hfits : vs.length * h.limit ≤ INT64_MAX) (hscale : 0 < valueScale) :
    ∃ rows footer steps,
      (∀ fuel, hdrPercentilesPrint libm h ticks valueScale (fuel + steps) = .ok (rows, footer)) ∧
      h.Tabulates libm ticks valueScale vs rows ∧ footer.Right h significantFigures valueScale vs := by
  obtain ⟨rows, steps, hloop, htable⟩ := hh.holds.percentilesLoop_tabulates libm hh.unit ht hscale
  obtain ⟨footer, hfooter, hright⟩ := hh.footer_right libm (ht.few.trans (by decide)) hfits hscale
  refine ⟨rows, footer, steps, fun fuel => ?_, htable, hright⟩
  rw [hdrPercentilesPrint, hloop, hfooter]
  rfl

end HdrHistogram.Used

end

end NFStash
