/-
  `hdr_histogram.c`: the histogram `nfsping` keeps of response times.

  A value is counted in one of finitely many places of an array; the place comes from the bits of
  the value (`countsIndexFor`), and back (`hdrValueAtIndex`).  On a histogram made by `hdr_init` these
  are the classes of `LogLinear`, scaled by the unit (`Formed`).  `HdrHistogram.Holds` says which
  values a histogram has counted.

  The result of every operation on `double` is rounded (`toDouble`), but exponents have no limits here;
  the logarithms of `hdr_calculate_bucket_config` are exact.  Counts do not overflow.  The index is not
  normalised: nothing sets an offset.
-/
import NFStash.Lib.Floats
import NFStash.Lib.LogLinear
import NFStash.Lib.Ranks
import NFStash.Lib.Running
import Mathlib.Algebra.Order.Floor.Ring
import Mathlib.Data.Rat.Floor

namespace NFStash

open LogLinear Ranks Running

/-! ## Model -/

def INT64_MAX : ℕ := 2 ^ 63 - 1

/-- A number as a `double`. -/
def toDouble (x : ℚ) : ℚ := Floats.round 53 x

/-- What stops a function. -/
inductive HdrError where
  | einval
  /-- a sum, a product or a shift of an `int64_t` overflows -/
  | overflow
  /-- a loop has not ended within its fuel -/
  | fuel
deriving DecidableEq, Repr

/-- `struct hdr_histogram_bucket_config`, the fields that are read. -/
structure HdrBucketConfig where
  unitMagnitude : ℕ
  subBucketHalfCountMagnitude : ℕ
  subBucketCount : ℕ
  subBucketHalfCount : ℕ
  subBucketMask : ℕ
  bucketCount : ℕ
  countsLen : ℕ
deriving DecidableEq, Repr

/-- `struct hdr_histogram`. -/
structure HdrHistogram extends HdrBucketConfig where
  minValue : ℕ := INT64_MAX
  maxValue : ℕ := 0
  totalCount : ℕ := 0
  counts : List ℕ
deriving DecidableEq, Repr

/-! ### Places -/

section
variable (h : HdrBucketConfig)

/-- `get_bucket_index`: `64 - __builtin_clzll(n)` is the length of `n` in bits. -/
def getBucketIndex (value : ℕ) : ℕ :=
  let pow2ceiling := (value ||| h.subBucketMask).log2 + 1
  pow2ceiling - h.unitMagnitude - (h.subBucketHalfCountMagnitude + 1)

def getSubBucketIndex (value bucketIndex unitMagnitude : ℕ) : ℕ :=
  value >>> (bucketIndex + unitMagnitude)

/-- `counts_index`. -/
def countsIndex (bucketIndex subBucketIndex : ℕ) : ℤ :=
  let bucketBaseIndex := (bucketIndex + 1) <<< h.subBucketHalfCountMagnitude
  let offsetInBucket : ℤ := subBucketIndex - h.subBucketHalfCount
  bucketBaseIndex + offsetInBucket

def valueFromIndex (bucketIndex subBucketIndex unitMagnitude : ℕ) : ℕ :=
  subBucketIndex <<< (bucketIndex + unitMagnitude)

def countsIndexFor (value : ℕ) : ℤ :=
  let bucketIndex := getBucketIndex h value
  countsIndex h bucketIndex (getSubBucketIndex value bucketIndex h.unitMagnitude)

def hdrValueAtIndex (index : ℕ) : ℕ :=
  let bucketIndex : ℤ := (index >>> h.subBucketHalfCountMagnitude : ℕ) - 1
  let subBucketIndex := (index &&& (h.subBucketHalfCount - 1)) + h.subBucketHalfCount
  if bucketIndex < 0 then
    valueFromIndex 0 (subBucketIndex - h.subBucketHalfCount) h.unitMagnitude
  else valueFromIndex bucketIndex.toNat subBucketIndex h.unitMagnitude

def hdrSizeOfEquivalentValueRange (value : ℕ) : ℕ :=
  let bucketIndex := getBucketIndex h value
  let subBucketIndex := getSubBucketIndex value bucketIndex h.unitMagnitude
  let adjustedBucket := if subBucketIndex ≥ h.subBucketCount then bucketIndex + 1 else bucketIndex
  1 <<< (h.unitMagnitude + adjustedBucket)

def lowestEquivalentValue (value : ℕ) : ℕ :=
  let bucketIndex := getBucketIndex h value
  valueFromIndex bucketIndex (getSubBucketIndex value bucketIndex h.unitMagnitude) h.unitMagnitude

def hdrNextNonEquivalentValue (value : ℕ) : ℕ :=
  lowestEquivalentValue h value + hdrSizeOfEquivalentValueRange h value

def highestEquivalentValue (value : ℕ) : ℕ := hdrNextNonEquivalentValue h value - 1

def hdrMedianEquivalentValue (value : ℕ) : ℕ :=
  lowestEquivalentValue h value + hdrSizeOfEquivalentValueRange h value >>> 1

end

/-! ### Initialisation -/

/-- The loop of `buckets_needed_to_cover_value`. -/
def bucketsNeededLoop (value : ℤ) : ℕ → ℕ → ℕ → Option ℕ
  | 0, _, _ => none
  | fuel + 1, smallestUntrackableValue, bucketsNeeded =>
    if smallestUntrackableValue ≤ value then
      if smallestUntrackableValue > INT64_MAX / 2 then some (bucketsNeeded + 1)
      else bucketsNeededLoop value fuel (smallestUntrackableValue <<< 1) (bucketsNeeded + 1)
    else some bucketsNeeded

/-- `buckets_needed_to_cover_value`; the value has 64 bits. -/
def bucketsNeededToCoverValue (value : ℤ) (subBucketCount unitMagnitude : ℕ) : Except HdrError ℕ :=
  let smallestUntrackableValue := subBucketCount <<< unitMagnitude
  if smallestUntrackableValue > INT64_MAX then .error .overflow
  else match bucketsNeededLoop value 64 smallestUntrackableValue 1 with
    | some bucketsNeeded => .ok bucketsNeeded
    | none => .error .fuel

def hdrCalculateBucketConfig (lowestTrackableValue highestTrackableValue : ℤ)
    (significantFigures : ℕ) : Except HdrError HdrBucketConfig :=
  if lowestTrackableValue < 1 ∨ significantFigures < 1 ∨ 5 < significantFigures then .error .einval
  else if lowestTrackableValue * 2 > INT64_MAX then .error .overflow
  else if lowestTrackableValue * 2 > highestTrackableValue then .error .einval
  else do
    let largestValueWithSingleUnitResolution := 2 * 10 ^ significantFigures
    let subBucketCountMagnitude := Nat.clog 2 largestValueWithSingleUnitResolution
    let subBucketHalfCountMagnitude :=
      (if subBucketCountMagnitude > 1 then subBucketCountMagnitude else 1) - 1
    let unitMagnitude := Nat.log 2 lowestTrackableValue.toNat
    let subBucketCount := 2 ^ (subBucketHalfCountMagnitude + 1)
    let bucketCount ← bucketsNeededToCoverValue highestTrackableValue subBucketCount unitMagnitude
    .ok
      { unitMagnitude, subBucketHalfCountMagnitude, subBucketCount, bucketCount
        subBucketHalfCount := subBucketCount / 2
        subBucketMask := (subBucketCount - 1) <<< unitMagnitude
        countsLen := (bucketCount + 1) * (subBucketCount / 2) }

/-- `hdr_init_preallocated`, on memory that is zeroed. -/
def hdrInitPreallocated (cfg : HdrBucketConfig) : HdrHistogram :=
  { cfg with counts := List.replicate cfg.countsLen 0 }

/-- `hdr_init`, if there is memory. -/
def hdrInit (lowestTrackableValue highestTrackableValue : ℤ) (significantFigures : ℕ) :
    Except HdrError HdrHistogram := do
  let cfg ← hdrCalculateBucketConfig lowestTrackableValue highestTrackableValue significantFigures
  .ok (hdrInitPreallocated cfg)

/-- `hdr_reset`. -/
def hdrReset (h : HdrHistogram) : HdrHistogram :=
  { h with
    totalCount := 0
    minValue := INT64_MAX
    maxValue := 0
    counts := List.replicate h.countsLen 0 }

/-! ### Recording -/

def countsIncNormalised (h : HdrHistogram) (index value : ℕ) : HdrHistogram :=
  { h with counts := h.counts.modify index (· + value), totalCount := h.totalCount + value }

def updateMinMax (h : HdrHistogram) (value : ℕ) : HdrHistogram :=
  { h with
    minValue := if value < h.minValue ∧ value ≠ 0 then value else h.minValue
    maxValue := if value > h.maxValue then value else h.maxValue }

/-- `hdr_record_values`: whether the value could be counted. -/
def hdrRecordValues (h : HdrHistogram) (value : ℤ) (count : ℕ) : Bool × HdrHistogram :=
  if value < 0 then (false, h)
  else
    let countsIndex := countsIndexFor h.toHdrBucketConfig value.toNat
    if countsIndex < 0 ∨ h.countsLen ≤ countsIndex then (false, h)
    else (true, updateMinMax (countsIncNormalised h countsIndex.toNat count) value.toNat)

def hdrRecordValue (h : HdrHistogram) (value : ℤ) : Bool × HdrHistogram := hdrRecordValues h value 1

/-! ### Values -/

section
variable (h : HdrHistogram)

def hdrCountAtIndex (index : ℕ) : ℕ := h.counts.getD index 0

def hdrMax : ℕ := if h.maxValue = 0 then 0 else highestEquivalentValue h.toHdrBucketConfig h.maxValue

def nonZeroMin : ℕ :=
  if h.minValue = INT64_MAX then INT64_MAX else lowestEquivalentValue h.toHdrBucketConfig h.minValue

def hdrMin : ℕ := if 0 < hdrCountAtIndex h 0 then 0 else nonZeroMin h

/-- `struct hdr_iter`, as far as all values are iterated over. -/
structure HdrIter where
  countsIndex : ℤ := -1
  count : ℕ := 0
  value : ℕ := 0

/-- `move_next`, which is `hdr_iter_next` here; `none` if there are no more buckets. -/
def moveNext (iter : HdrIter) : Option HdrIter :=
  let countsIndex := iter.countsIndex + 1
  if countsIndex < h.countsLen then
    some { countsIndex
           count := hdrCountAtIndex h countsIndex.toNat
           value := hdrValueAtIndex h.toHdrBucketConfig countsIndex.toNat }
  else none

/-- The loop of `hdr_value_at_percentile`. -/
def percentileLoop (countAtPercentile : ℕ) : ℕ → HdrIter → ℕ → Option ℕ
  | 0, _, _ => none
  | fuel + 1, iter, total => match moveNext h iter with
    | none => some 0
    | some iter =>
      let total := total + iter.count
      if total ≥ countAtPercentile then some (highestEquivalentValue h.toHdrBucketConfig iter.value)
      else percentileLoop countAtPercentile fuel iter total

/-- How many values there have to be up to a percentile. -/
def countAtPercentile (percentile : ℚ) (totalCount : ℕ) : ℕ :=
  let requestedPercentile := if percentile < 100 then percentile else 100
  let product := toDouble (toDouble (requestedPercentile / 100) * toDouble totalCount)
  let count := ⌊toDouble (product + 1 / 2)⌋₊
  if count > 1 then count else 1

example : countAtPercentile 57 50 = 28 := by decide +kernel

def hdrValueAtPercentile (percentile : ℚ) : Option ℕ :=
  percentileLoop h (countAtPercentile percentile h.totalCount) (h.countsLen + 1) {} 0

/-- The loop of `hdr_mean`; its total is an `int64_t`. -/
def meanLoop : ℕ → HdrIter → ℕ → Except HdrError ℕ
  | 0, _, _ => .error .fuel
  | fuel + 1, iter, total => match moveNext h iter with
    | none => .ok total
    | some iter =>
      if iter.count ≠ 0 then
        let total := total + iter.count * hdrMedianEquivalentValue h.toHdrBucketConfig iter.value
        if total > INT64_MAX then .error .overflow else meanLoop fuel iter total
      else meanLoop fuel iter total

/-- `hdr_mean`: without values there is none. -/
def hdrMean : Except HdrError (Option ℚ) := do
  let total ← meanLoop h (h.countsLen + 1) {} 0
  .ok (if h.totalCount = 0 then none else some (toDouble (toDouble total / toDouble h.totalCount)))

end

end NFStash
