/-
  The places of a histogram.

  A histogram of `hdr_init` covers the values below a limit with classes, one for each place of its
  array (`hdrInit_classes`): no value up to the highest trackable one is refused, what is
  printed for a class is one of its bounds, and these are no further apart than one part in
  `10 ^ significant_figures` of the values between them.
-/
import NFStash.Hdr

namespace NFStash

open LogLinear

/-- The fields agree with one another. -/
structure HdrBucketConfig.Formed (h : HdrBucketConfig) : Prop where
  subBucketCount : h.subBucketCount = 2 ^ (h.subBucketHalfCountMagnitude + 1)
  subBucketHalfCount : h.subBucketHalfCount = 2 ^ h.subBucketHalfCountMagnitude
  subBucketMask : h.subBucketMask = (2 ^ (h.subBucketHalfCountMagnitude + 1) - 1) * 2 ^ h.unitMagnitude
  countsLen : h.countsLen = (h.bucketCount + 1) * 2 ^ h.subBucketHalfCountMagnitude

/-- The least value that has no place. -/
def HdrBucketConfig.limit (h : HdrBucketConfig) : ℕ :=
  2 ^ (h.unitMagnitude + h.subBucketHalfCountMagnitude + h.bucketCount)

/-- The place of a value. -/
def HdrBucketConfig.place (h : HdrBucketConfig) (value : ℕ) : ℕ :=
  index h.subBucketHalfCountMagnitude (value / 2 ^ h.unitMagnitude)

/-- The least value of a place. -/
def HdrBucketConfig.least (h : HdrBucketConfig) (i : ℕ) : ℕ :=
  low h.subBucketHalfCountMagnitude i * 2 ^ h.unitMagnitude

/-- How a histogram counts: the values below the limit are those that have a place, the places are
    intervals one after the other, and the values of a place are close together. -/
structure HdrBucketConfig.Classes (h : HdrBucketConfig) (significantFigures : ℕ) : Prop where
  placed : ∀ value, value < h.limit ↔ 0 ≤ countsIndexFor h value ∧ countsIndexFor h value < h.countsLen
  ordered : ∀ i value, hdrValueAtIndex h i ≤ value ↔ (i : ℤ) ≤ countsIndexFor h value
  /-- a place is that of its least value -/
  inverse : ∀ i, countsIndexFor h (hdrValueAtIndex h i) = i
  lowest : ∀ value, lowestEquivalentValue h value = hdrValueAtIndex h (countsIndexFor h value).toNat
  next : ∀ value, hdrNextNonEquivalentValue h value =
    hdrValueAtIndex h ((countsIndexFor h value).toNat + 1)
  /-- one unit, or less than one part in `10 ^ significant_figures` -/
  narrow : ∀ value, hdrSizeOfEquivalentValueRange h value = 2 ^ h.unitMagnitude ∨
    hdrSizeOfEquivalentValueRange h value * 10 ^ significantFigures ≤ value

/-! ## Bits -/

section
variable {h : HdrBucketConfig} {m u v i : ℕ}

/-- The length of a value with the bits of the mask. -/
theorem log2_lor_mask (m u v : ℕ) :
    (v ||| (2 ^ (m + 1) - 1) * 2 ^ u).log2 = max v.log2 (m + u) := by
  have hmask : 2 ^ (m + u) ≤ (2 ^ (m + 1) - 1) * 2 ^ u := by
    rw [pow_add]
    refine Nat.mul_le_mul_right _ ?_
    rw [pow_succ]
    have hpos : 0 < 2 ^ m := Nat.two_pow_pos m
    omega
  have hmask_lt : (2 ^ (m + 1) - 1) * 2 ^ u < 2 ^ (m + u + 1) := by
    rw [show m + u + 1 = m + 1 + u by omega, pow_add 2 (m + 1) u]
    exact Nat.mul_lt_mul_of_pos_right (Nat.sub_lt (Nat.two_pow_pos _) Nat.one_pos) (Nat.two_pow_pos u)
  have hne : v ||| (2 ^ (m + 1) - 1) * 2 ^ u ≠ 0 := by
    have hle := hmask.trans (Nat.right_le_or (n := v))
    exact (lt_of_lt_of_le (Nat.two_pow_pos _) hle).ne'
  refine eq_of_forall_gt_iff fun k => ?_
  rw [Nat.log2_lt hne, max_lt_iff]
  constructor
  · intro hlt
    have hmu : m + u < k := (Nat.pow_lt_pow_iff_right (by decide)).1
      ((hmask.trans Nat.right_le_or).trans_lt hlt)
    refine ⟨?_, hmu⟩
    rcases Nat.eq_zero_or_pos v with rfl | hv
    · exact Nat.zero_lt_of_lt hmu
    · exact (Nat.log2_lt hv.ne').2 (Nat.left_le_or.trans_lt hlt)
  · rintro ⟨hv, hmu⟩
    refine Nat.or_lt_two_pow ?_ (hmask_lt.trans_le (Nat.pow_le_pow_right (by decide) hmu))
    rcases Nat.eq_zero_or_pos v with rfl | hpos
    · exact Nat.two_pow_pos k
    · exact (Nat.log2_lt hpos.ne').1 hv

theorem log2_div_pow (v u : ℕ) : (v / 2 ^ u).log2 = v.log2 - u := by
  rw [Nat.log2_eq_log_two, Nat.log2_eq_log_two, Nat.log_div_base_pow]

variable (hf : h.Formed)
include hf

theorem HdrBucketConfig.Formed.bucket (v : ℕ) :
    getBucketIndex h v = bucket h.subBucketHalfCountMagnitude (v / 2 ^ h.unitMagnitude) := by
  unfold getBucketIndex LogLinear.bucket
  rw [hf.subBucketMask, log2_lor_mask, log2_div_pow]
  dsimp only
  omega

theorem HdrBucketConfig.Formed.subBucket (v : ℕ) :
    getSubBucketIndex v (getBucketIndex h v) h.unitMagnitude = v / 2 ^ h.unitMagnitude /
      2 ^ LogLinear.bucket h.subBucketHalfCountMagnitude (v / 2 ^ h.unitMagnitude) := by
  rw [getSubBucketIndex, Nat.shiftRight_eq_div_pow, hf.bucket, Nat.add_comm, pow_add, Nat.div_div_eq_div_mul]

theorem HdrBucketConfig.Formed.countsIndexFor (v : ℕ) : countsIndexFor h v = h.place v := by
  unfold NFStash.countsIndexFor countsIndex
  dsimp only
  rw [hf.subBucket, hf.bucket, hf.subBucketHalfCount, Nat.shiftLeft_eq, HdrBucketConfig.place, index]
  push_cast
  ring

theorem HdrBucketConfig.Formed.valueAtIndex (i : ℕ) : hdrValueAtIndex h i = h.least i := by
  have hpos : 0 < 2 ^ h.subBucketHalfCountMagnitude := Nat.two_pow_pos _
  unfold hdrValueAtIndex valueFromIndex HdrBucketConfig.least low
  dsimp only
  rw [hf.subBucketHalfCount, Nat.and_two_pow_sub_one_eq_mod, Nat.shiftRight_eq_div_pow]
  by_cases hi : i < 2 ^ h.subBucketHalfCountMagnitude
  · rw [Nat.div_eq_of_lt hi, Nat.mod_eq_of_lt hi, if_pos hi, if_pos (by decide), Nat.add_sub_cancel,
      Nat.zero_add, Nat.shiftLeft_eq]
  · have hdiv : 0 < i / 2 ^ h.subBucketHalfCountMagnitude := Nat.div_pos (not_lt.1 hi) hpos
    have hnat : ((i / 2 ^ h.subBucketHalfCountMagnitude : ℕ) - 1 : ℤ).toNat =
        i / 2 ^ h.subBucketHalfCountMagnitude - 1 := by omega
    rw [if_neg (by omega), if_neg hi, hnat, Nat.shiftLeft_eq, pow_add, Nat.mul_assoc, Nat.add_comm (i % _)]

theorem HdrBucketConfig.Formed.lowest (v : ℕ) : lowestEquivalentValue h v = h.least (h.place v) := by
  unfold lowestEquivalentValue valueFromIndex HdrBucketConfig.least HdrBucketConfig.place
  dsimp only
  rw [hf.subBucket, hf.bucket, low_index, Nat.shiftLeft_eq, pow_add, Nat.mul_assoc]

theorem HdrBucketConfig.Formed.size (v : ℕ) : hdrSizeOfEquivalentValueRange h v =
    2 ^ LogLinear.bucket h.subBucketHalfCountMagnitude (v / 2 ^ h.unitMagnitude) * 2 ^ h.unitMagnitude := by
  have hlt := div_bucket_lt h.subBucketHalfCountMagnitude (v / 2 ^ h.unitMagnitude)
  unfold hdrSizeOfEquivalentValueRange
  dsimp only
  rw [hf.subBucket, hf.bucket, hf.subBucketCount, if_neg (by rw [pow_succ']; omega), Nat.shiftLeft_eq,
    Nat.one_mul, Nat.add_comm, pow_add]

theorem HdrBucketConfig.Formed.next (v : ℕ) :
    hdrNextNonEquivalentValue h v = h.least (h.place v + 1) := by
  rw [hdrNextNonEquivalentValue, hf.lowest, hf.size, HdrBucketConfig.least, HdrBucketConfig.least,
    HdrBucketConfig.place, low_index_succ, Nat.add_mul]

/-- The middle of a class has one digit more than the number of its sub-bucket. -/
theorem HdrBucketConfig.Formed.median_digits (v : ℕ) : ∃ k e : ℕ,
    k < 2 ^ (h.subBucketHalfCountMagnitude + 2) ∧ hdrMedianEquivalentValue h v = k * 2 ^ e := by
  have hlt := div_bucket_lt h.subBucketHalfCountMagnitude (v / 2 ^ h.unitMagnitude)
  have hpow : 2 ^ (h.subBucketHalfCountMagnitude + 2) = 4 * 2 ^ h.subBucketHalfCountMagnitude := by
    rw [pow_add, Nat.mul_comm]
    rfl
  rw [hdrMedianEquivalentValue, hf.lowest, hf.size, HdrBucketConfig.least, HdrBucketConfig.place, low_index,
    Nat.shiftRight_eq_div_pow, pow_one, Nat.mul_assoc, ← pow_add, hpow]
  generalize v / 2 ^ h.unitMagnitude /
    2 ^ LogLinear.bucket h.subBucketHalfCountMagnitude (v / 2 ^ h.unitMagnitude) = sub at hlt ⊢
  cases LogLinear.bucket h.subBucketHalfCountMagnitude (v / 2 ^ h.unitMagnitude) + h.unitMagnitude with
  | zero => exact ⟨sub, 0, by omega, rfl⟩
  | succ e =>
    refine ⟨2 * sub + 1, e, by omega, ?_⟩
    rw [pow_succ, Nat.mul_div_cancel _ Nat.two_pos]
    ring

omit hf in
/-- The places in order. -/
theorem HdrBucketConfig.least_le_iff (h : HdrBucketConfig) (i v : ℕ) : h.least i ≤ v ↔ i ≤ h.place v := by
  rw [HdrBucketConfig.least, HdrBucketConfig.place, ← low_le_iff, Nat.le_div_iff_mul_le (Nat.two_pow_pos _)]

omit hf in
theorem HdrBucketConfig.place_mono (h : HdrBucketConfig) : Monotone h.place := fun _ _ hle =>
  index_mono _ (Nat.div_le_div_right hle)

omit hf in
theorem HdrBucketConfig.place_least (h : HdrBucketConfig) (i : ℕ) : h.place (h.least i) = i := by
  rw [HdrBucketConfig.place, HdrBucketConfig.least, Nat.mul_div_cancel _ (Nat.two_pow_pos _), index_low]

omit hf in
theorem HdrBucketConfig.least_strictMono (h : HdrBucketConfig) : StrictMono h.least := fun _ _ hlt =>
  Nat.mul_lt_mul_of_pos_right (low_strictMono _ hlt) (Nat.two_pow_pos _)

theorem HdrBucketConfig.Formed.least_countsLen : h.least h.countsLen = h.limit := by
  rw [hf.countsLen, HdrBucketConfig.least, low_pow, HdrBucketConfig.limit, ← pow_add]
  congr 1
  omega

/-- The values that have a place. -/
theorem HdrBucketConfig.Formed.lt_limit_iff (v : ℕ) : v < h.limit ↔ h.place v < h.countsLen := by
  rw [← hf.least_countsLen, ← not_le, h.least_le_iff, not_le]

/-- A range with more than one unit is narrow. -/
theorem HdrBucketConfig.Formed.narrow {significantFigures : ℕ}
    (hsig : 10 ^ significantFigures ≤ 2 ^ h.subBucketHalfCountMagnitude) (v : ℕ) :
    hdrSizeOfEquivalentValueRange h v = 2 ^ h.unitMagnitude ∨
      hdrSizeOfEquivalentValueRange h v * 10 ^ significantFigures ≤ v := by
  rw [hf.size]
  by_cases hb : LogLinear.bucket h.subBucketHalfCountMagnitude (v / 2 ^ h.unitMagnitude) = 0
  · left
    rw [hb, pow_zero, Nat.one_mul]
  · right
    have hwidth := width_mul_le hb
    rw [Nat.le_div_iff_mul_le (Nat.two_pow_pos _)] at hwidth
    refine le_trans ?_ hwidth
    rw [Nat.mul_assoc, Nat.mul_assoc, Nat.mul_comm (2 ^ h.unitMagnitude)]
    exact Nat.mul_le_mul_left _ (Nat.mul_le_mul_right _ hsig)

theorem HdrBucketConfig.Formed.classes {significantFigures : ℕ}
    (hsig : 10 ^ significantFigures ≤ 2 ^ h.subBucketHalfCountMagnitude) :
    h.Classes significantFigures where
  placed v := by
    rw [hf.lt_limit_iff, hf.countsIndexFor, Int.ofNat_lt]
    exact (and_iff_right (Int.natCast_nonneg _)).symm
  ordered i v := by rw [hf.valueAtIndex, hf.countsIndexFor, Int.ofNat_le, h.least_le_iff]
  inverse i := by rw [hf.valueAtIndex, hf.countsIndexFor, h.place_least]
  lowest v := by rw [hf.lowest, hf.countsIndexFor, hf.valueAtIndex, Int.toNat_natCast]
  next v := by rw [hf.next, hf.countsIndexFor, hf.valueAtIndex, Int.toNat_natCast]
  narrow := hf.narrow hsig

end

/-! ## `hdr_init` -/

section
variable {value : ℤ} {smallest fuel b k m u : ℕ}

/-- **Buckets**: the value is below the power of two that they cover, and one bucket less would not do. -/
theorem bucketsNeededLoop_spec (hvalue : value ≤ INT64_MAX) {s : ℕ} (hs : s ≤ 62) (hfuel : 63 - s < fuel) :
    ∃ n, bucketsNeededLoop value fuel (2 ^ s) b = some (b + n) ∧ value < (2 ^ (s + n) : ℕ) ∧ s + n ≤ 63 ∧
      (n ≠ 0 → ((2 ^ (s + n - 1) : ℕ) : ℤ) ≤ value) := by
  induction fuel generalizing s b with
  | zero => exact absurd hfuel (Nat.not_lt_zero _)
  | succ fuel ih =>
    rw [bucketsNeededLoop]
    split_ifs with hle hlast
    · have heq : s = 62 := by
        by_contra hne
        have hpow : 2 ^ s ≤ 2 ^ 61 := Nat.pow_le_pow_right (by decide) (by omega)
        exact absurd hlast (not_lt.2 (hpow.trans (by decide)))
      subst heq
      refine ⟨1, rfl, ?_, by omega, fun _ => hle⟩
      exact lt_of_le_of_lt hvalue (by decide)
    · have hne : s ≠ 62 := by
        rintro rfl
        exact hlast (by decide)
      have hshift : 2 ^ s <<< 1 = 2 ^ (s + 1) := by rw [Nat.shiftLeft_eq, ← pow_add]
      obtain ⟨n, hn, hlt, hsum, hmin⟩ := ih (b := b + 1) (s := s + 1) (by omega) (by omega)
      refine ⟨n + 1, ?_, ?_, by omega, fun _ => ?_⟩
      · rw [hshift, hn, Nat.add_assoc, Nat.add_comm 1 n]
      · rwa [← Nat.add_assoc, Nat.add_right_comm]
      · rcases Nat.eq_zero_or_pos n with rfl | hpos
        · exact hle
        · rw [show s + (n + 1) - 1 = s + 1 + n - 1 by omega]
          exact hmin hpos.ne'
    · exact ⟨0, rfl, not_le.1 hle, by omega, fun h0 => absurd rfl h0⟩

/-- One bucket, shifted. -/
theorem shiftLeft_subBucketCount (m u : ℕ) : 2 ^ (m + 1) <<< u = 2 ^ (u + m + 1) := by
  rw [Nat.shiftLeft_eq, ← pow_add]
  congr 1
  omega

/-- There are buckets enough, if one of them is in range. -/
theorem bucketsNeeded_some (hvalue : value ≤ INT64_MAX) (hs : u + m + 1 ≤ 62) :
    ∃ b, bucketsNeededToCoverValue value (2 ^ (m + 1)) u = .ok b := by
  have hfuel : 63 - (u + m + 1) < 64 := by omega
  obtain ⟨n, hn, -⟩ := bucketsNeededLoop_spec (b := 1) hvalue hs hfuel
  have hle : 2 ^ (u + m + 1) ≤ 2 ^ 62 := Nat.pow_le_pow_right (by decide) hs
  refine ⟨1 + n, ?_⟩
  unfold bucketsNeededToCoverValue
  dsimp only
  rw [shiftLeft_subBucketCount, if_neg (not_lt.2 (hle.trans (by decide))), hn]

theorem bucketsNeeded_ok (hvalue : value ≤ INT64_MAX)
    (h : bucketsNeededToCoverValue value (2 ^ (m + 1)) u = .ok b) :
    value < (2 ^ (u + m + b) : ℕ) ∧ u + m + b ≤ 63 ∧
      (b = 1 ∧ u + m + b ≤ 62 ∨ ((2 ^ (u + m + b) : ℕ) : ℤ) ≤ 2 * value) := by
  unfold bucketsNeededToCoverValue at h
  dsimp only at h
  rw [shiftLeft_subBucketCount] at h
  split_ifs at h with hbig
  have hs : u + m + 1 ≤ 62 := by
    by_contra hgt
    have hle : 2 ^ 63 ≤ 2 ^ (u + m + 1) := Nat.pow_le_pow_right (by decide) (by omega)
    exact hbig (lt_of_lt_of_le (by decide) hle)
  have hfuel : 63 - (u + m + 1) < 64 := by omega
  obtain ⟨n, hn, hlt, hsum, hmin⟩ := bucketsNeededLoop_spec (b := 1) hvalue hs hfuel
  rw [hn] at h
  obtain rfl := Except.ok.inj h
  have hexp : u + m + (1 + n) = u + m + 1 + n := by omega
  rw [hexp]
  refine ⟨hlt, hsum, ?_⟩
  rcases Nat.eq_zero_or_pos n with rfl | hpos
  · exact .inl ⟨rfl, hs⟩
  · right
    have hdouble : 2 ^ (u + m + 1 + n) = 2 * 2 ^ (u + m + 1 + n - 1) := by
      rw [← pow_succ']
      congr 1
      omega
    rw [hdouble]
    push_cast
    have hle := hmin hpos.ne'
    push_cast at hle
    omega

/-- The logarithm of `hdr_calculate_bucket_config`. -/
theorem clog_bounds (significantFigures : ℕ) (hone : 1 ≤ significantFigures) :
    1 < Nat.clog 2 (2 * 10 ^ significantFigures) ∧
      10 ^ significantFigures ≤ 2 ^ (Nat.clog 2 (2 * 10 ^ significantFigures) - 1) := by
  have hclog := Nat.le_pow_clog (b := 2) (by decide) (2 * 10 ^ significantFigures)
  have hten : 10 ^ 1 ≤ 10 ^ significantFigures := Nat.pow_le_pow_right (by decide) hone
  have hgt : 1 < Nat.clog 2 (2 * 10 ^ significantFigures) := by
    by_contra hle
    have hpow : 2 ^ Nat.clog 2 (2 * 10 ^ significantFigures) ≤ 2 ^ 1 :=
      Nat.pow_le_pow_right (by decide) (not_lt.1 hle)
    omega
  obtain ⟨n, hn⟩ : ∃ n, Nat.clog 2 (2 * 10 ^ significantFigures) = n + 1 :=
    Nat.exists_eq_succ_of_ne_zero (by omega)
  rw [hn, pow_succ] at hclog
  refine ⟨hgt, ?_⟩
  rw [hn, Nat.add_sub_cancel]
  omega

theorem clog_le {significantFigures : ℕ} (hfive : significantFigures ≤ 5) :
    Nat.clog 2 (2 * 10 ^ significantFigures) ≤ 18 :=
  Nat.clog_le_of_le_pow ((Nat.mul_le_mul_left 2 (Nat.pow_le_pow_right (by decide) hfive)).trans (by decide))

/-- What `hdr_calculate_bucket_config` returns, if it does. -/
theorem hdrCalculateBucketConfig_ok {lowest highest : ℤ} {significantFigures : ℕ} {cfg : HdrBucketConfig}
    (hmax : highest ≤ INT64_MAX)
    (h : hdrCalculateBucketConfig lowest highest significantFigures = .ok cfg) :
    cfg.Formed ∧ 10 ^ significantFigures ≤ 2 ^ cfg.subBucketHalfCountMagnitude ∧ highest < cfg.limit ∧
      (cfg.bucketCount = 1 ∧ cfg.limit ≤ 2 ^ 62 ∨ (cfg.limit : ℤ) ≤ 2 * highest) ∧
      cfg.unitMagnitude = Nat.log 2 lowest.toNat := by
  unfold hdrCalculateBucketConfig at h
  split_ifs at h with hbad hproduct hrange
  dsimp only [Bind.bind, Except.bind] at h
  split at h
  · cases h
  · rename_i bucketCount hb
    obtain rfl := Except.ok.inj h
    obtain ⟨hlt, -, htight⟩ := bucketsNeeded_ok hmax hb
    obtain ⟨hgt, hsig⟩ := clog_bounds significantFigures (by omega)
    have hhalf : ∀ n, 2 ^ (n + 1) / 2 = 2 ^ n := fun n => by
      rw [pow_succ, Nat.mul_div_cancel _ Nat.two_pos]
    refine ⟨⟨rfl, hhalf _, Nat.shiftLeft_eq .., by simp only [hhalf]⟩, ?_, hlt, ?_, rfl⟩
    · rwa [← if_pos (c := _ > 1) (t := Nat.clog 2 (2 * 10 ^ significantFigures)) (e := 1) hgt] at hsig
    · exact htight.imp_left fun ⟨hone, hle⟩ => ⟨hone, Nat.pow_le_pow_right (by decide) hle⟩

/-- What it returns it returns for five figures at most. -/
theorem hdrCalculateBucketConfig_figures {lowest highest : ℤ} {significantFigures : ℕ} {cfg : HdrBucketConfig}
    (h : hdrCalculateBucketConfig lowest highest significantFigures = .ok cfg) :
    significantFigures ≤ 5 ∧ cfg.subBucketHalfCountMagnitude ≤ 17 := by
  unfold hdrCalculateBucketConfig at h
  split_ifs at h with hbad hproduct hrange
  dsimp only [Bind.bind, Except.bind] at h
  split at h
  · cases h
  · obtain rfl := Except.ok.inj h
    have hfive : significantFigures ≤ 5 := by omega
    have hclog : Nat.clog 2 (2 * 10 ^ significantFigures) ≤ 18 := clog_le hfive
    refine ⟨hfive, ?_⟩
    dsimp only
    split_ifs <;> omega

end

/-- **The histograms of `hdr_init`** have a place for every value up to the highest trackable one, and
    the values of a place differ by less than the significant figures show. -/
theorem hdrInit_classes (lowest highest : ℤ) (significantFigures : ℕ) (h : HdrHistogram)
    (hmax : highest ≤ INT64_MAX) (hinit : hdrInit lowest highest significantFigures = .ok h) :
    h.toHdrBucketConfig.Classes significantFigures ∧ highest < h.limit ∧
      (h.bucketCount = 1 ∨ (h.limit : ℤ) ≤ 2 * highest) := by
  unfold hdrInit at hinit
  cases hcfg : hdrCalculateBucketConfig lowest highest significantFigures with
  | error e =>
    rw [hcfg] at hinit
    cases hinit
  | ok cfg =>
    rw [hcfg] at hinit
    obtain rfl := Except.ok.inj hinit
    obtain ⟨hf, hsig, hlt, htight, -⟩ := hdrCalculateBucketConfig_ok hmax hcfg
    exact ⟨hf.classes hsig, hlt, htight.imp_left And.left⟩

/-- From 1 on there are such histograms. -/
theorem hdrInit_ok (highest : ℤ) (significantFigures : ℕ) (hmax : highest ≤ INT64_MAX)
    (htwo : 2 ≤ highest) (hone : 1 ≤ significantFigures) (hfive : significantFigures ≤ 5) :
    ∃ cfg, hdrCalculateBucketConfig 1 highest significantFigures = .ok cfg ∧
      hdrInit 1 highest significantFigures = .ok (hdrInitPreallocated cfg) := by
  have hclog := clog_le hfive
  have hgt := (clog_bounds significantFigures hone).1
  have hs : 0 + (Nat.clog 2 (2 * 10 ^ significantFigures) - 1) + 1 ≤ 62 := by omega
  obtain ⟨b, hb⟩ := bucketsNeeded_some hmax hs
  have hcfg : ∃ cfg, hdrCalculateBucketConfig 1 highest significantFigures = .ok cfg := by
    unfold hdrCalculateBucketConfig
    rw [if_neg (by omega), if_neg (by decide), if_neg (by omega)]
    dsimp only
    rw [if_pos hgt, show Nat.log 2 (1 : ℤ).toNat = 0 from rfl, hb]
    exact ⟨_, rfl⟩
  obtain ⟨cfg, hcfg⟩ := hcfg
  refine ⟨cfg, hcfg, ?_⟩
  rw [hdrInit, hcfg]
  rfl

theorem hdrInit_classes_million : ∃ h, hdrInit 1 1000000 3 = .ok h ∧
    h.toHdrBucketConfig.Classes 3 ∧ 1000000 < (h.limit : ℤ) ∧
      (h.bucketCount = 1 ∨ (h.limit : ℤ) ≤ 2 * 1000000) := by
  have hmax : (1000000 : ℤ) ≤ INT64_MAX := by decide
  obtain ⟨cfg, -, hinit⟩ := hdrInit_ok 1000000 3 hmax (by decide) (by decide) (by decide)
  exact ⟨_, hinit, hdrInit_classes 1 1000000 3 _ hmax hinit⟩

end NFStash
