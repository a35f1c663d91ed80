/-
  The percentages of `_percentile_iter_next`.

  The iterator goes through percentages that come closer and closer to 100 (`nextPercentile`), and compares
  each with the share of the values that it has counted (`currentPercentile`).  Both are computed with
  `double`, and the distance to 100 with the logarithm of the C library (`Libm`).  As long as a percentage can
  be told from 100 (`highestPercentage`) the next one is closer to 100 by a share of the way
  (`nextPercentile_approaches`), so that at last all values are needed (`exists_needed`).
-/
import Mathlib.Analysis.SpecialFunctions.Log.Basic
import NFStash.Lib.Levels
import NFStash.HdrValues

namespace NFStash

open Ranks Levels Floats

/-! ## Model -/

/-- `log` and `sqrt`, which are off by one unit in the last place at most. -/
structure Libm where
  log : ℚ → ℚ
  sqrt : ℚ → ℚ
  log_close : ∀ x, 1 ≤ x → |(log x : ℝ) - Real.log x| ≤ |Real.log x| * (1 / 2 ^ 52)
  sqrt_close : ∀ x, 0 ≤ x → |(sqrt x : ℝ) - √x| ≤ |√x| * (1 / 2 ^ 52)

/-- `current_percentile`. -/
def currentPercentile (cumulativeCount totalCount : ℕ) : ℚ :=
  toDouble (toDouble (100 * toDouble cumulativeCount) / toDouble totalCount)

section
variable (libm : Libm)

/-- How often the way to 100 has been halved. -/
def halvings (percentile : ℚ) : ℕ :=
  ⌊toDouble (libm.log (toDouble (100 / toDouble (100 - percentile))) / libm.log 2)⌋₊

/-- The percentage after this one. -/
def nextPercentile (ticksPerHalfDistance : ℕ) (percentile : ℚ) : ℚ :=
  let temp := halvings libm percentile + 1
  let halfDistance := 2 ^ temp
  let percentileReportingTicks := ticksPerHalfDistance * halfDistance
  toDouble (percentile + toDouble (100 / toDouble percentileReportingTicks))

/-- The percentages that the table is made for. -/
def percentage (ticks n : ℕ) : ℚ := level (nextPercentile libm ticks) 0 n

end

/-- How many of `n` values a percentage takes: the numbers below that are too few. -/
def needed (n : ℕ) (p : ℚ) : ℕ := (List.range n).countP fun c => c = 0 ∨ currentPercentile c n < p

/-! ## The library -/

theorem exists_near (x : ℝ) : ∃ q : ℚ, |(q : ℝ) - x| ≤ |x| * (1 / 2 ^ 52) := by
  by_cases h0 : x = 0
  · exact ⟨0, by rw [h0, Rat.cast_zero, sub_zero, abs_zero, zero_mul]⟩
  · obtain ⟨q, hq⟩ := exists_rat_near x (show 0 < |x| * (1 / 2 ^ 52) from mul_pos (abs_pos.2 h0) (by norm_num))
    exact ⟨q, by rw [abs_sub_comm]; exact hq.le⟩

/-- There is such a library. -/
noncomputable def Libm.exact : Libm where
  log x := (exists_near (Real.log x)).choose
  sqrt x := (exists_near √x).choose
  log_close x _ := (exists_near (Real.log x)).choose_spec
  sqrt_close x _ := (exists_near √x).choose_spec

section
variable (libm : Libm)

theorem log_two_bounds : 0 < Real.log 2 ∧ Real.log 2 ≤ 1 := by
  refine ⟨Real.log_pos one_lt_two, (Real.log_le_sub_one_of_pos two_pos).trans ?_⟩
  norm_num

theorem exp_le {s : ℝ} (hs : s ≤ 1 / 2 ^ 40) : Real.exp s ≤ 1 + 1 / 2 ^ 39 := by
  have hneg := Real.add_one_le_exp (-s)
  have hprod : Real.exp s * Real.exp (-s) = 1 := by rw [← Real.exp_add, add_neg_cancel, Real.exp_zero]
  have hpos := Real.exp_pos s
  have hmul := mul_le_mul_of_nonneg_left (show 1 - 1 / 2 ^ 40 ≤ Real.exp (-s) by linarith) hpos.le
  rw [hprod] at hmul
  norm_num at hmul ⊢
  linarith

/-- The quotient of the logarithms. -/
theorem near_log2 {y : ℚ} (hy : 1 ≤ y) : Near (1 / 2 ^ 49 : ℝ) (Real.log y / Real.log 2)
    (toDouble (libm.log y / libm.log 2) : ℚ) := by
  have htwo := log_two_bounds.1
  have hlog : 0 ≤ Real.log y := Real.log_nonneg (by exact_mod_cast hy)
  have hnear := near_of_abs hlog (libm.log_close y hy)
  have hnear₂ := near_of_abs htwo.le (by exact_mod_cast libm.log_close 2 one_le_two)
  have hpos₂ : (0 : ℝ) < libm.log 2 := hnear₂.pos htwo (by norm_num)
  have hpos : (0 : ℝ) ≤ libm.log y := hnear.nonneg hlog (by norm_num)
  have hquotient : (0 : ℝ) ≤ Real.log y / Real.log 2 := div_nonneg hlog htwo.le
  have hdiv := (hnear₂.div_left htwo hlog (by norm_num) (by norm_num)).trans (hnear.div_right hpos₂.le)
    hquotient (by norm_num) (by norm_num) (by norm_num)
  have hnonneg : 0 ≤ libm.log y / libm.log 2 := by
    exact_mod_cast div_nonneg hpos hpos₂.le
  have hround : Near (1 / 2 ^ 53 : ℝ) ((libm.log y : ℝ) / libm.log 2)
      (toDouble (libm.log y / libm.log 2) : ℚ) := by
    have hcast := (near_toDouble hnonneg).cast (K := ℝ)
    push_cast at hcast
    exact hcast
  exact (hdiv.trans hround hquotient (by norm_num) (by norm_num) (by norm_num)).mono hquotient (by norm_num)

theorem exp_log_two (n : ℕ) : Real.exp (n * Real.log 2) = 2 ^ n := by
  rw [Real.exp_nat_mul, Real.exp_log two_pos]

theorem log_two_mul_le : Real.log 2 * (1 / 2 ^ 40) ≤ 1 / 2 ^ 40 :=
  mul_le_of_le_one_left (by norm_num) log_two_bounds.2

/-- A power of two that is below a number by its logarithm is so but for a small error. -/
theorem pow_le_of_log {y : ℝ} {n : ℕ} (hy : 0 < y) (h : (n : ℝ) ≤ Real.log y / Real.log 2 + 1 / 2 ^ 40) :
    (2 : ℝ) ^ n ≤ y * (1 + 1 / 2 ^ 39) := by
  have htwo := log_two_bounds.1
  have hle : n * Real.log 2 ≤ Real.log y + Real.log 2 * (1 / 2 ^ 40) := by
    have hmul := mul_le_mul_of_nonneg_right h htwo.le
    rwa [add_mul, div_mul_cancel₀ _ htwo.ne', mul_comm (1 / 2 ^ 40 : ℝ)] at hmul
  calc (2 : ℝ) ^ n = Real.exp (n * Real.log 2) := (exp_log_two n).symm
    _ ≤ Real.exp (Real.log y + Real.log 2 * (1 / 2 ^ 40)) := Real.exp_le_exp.2 hle
    _ = y * Real.exp (Real.log 2 * (1 / 2 ^ 40)) := by rw [Real.exp_add, Real.exp_log hy]
    _ ≤ y * (1 + 1 / 2 ^ 39) := mul_le_mul_of_nonneg_left (exp_le log_two_mul_le) hy.le

theorem le_pow_of_log {y : ℝ} {n : ℕ} (hy : 0 < y) (h : Real.log y / Real.log 2 ≤ n + 1 / 2 ^ 40) :
    y ≤ 2 ^ n * (1 + 1 / 2 ^ 39) := by
  have htwo := log_two_bounds.1
  have hle : Real.log y ≤ n * Real.log 2 + Real.log 2 * (1 / 2 ^ 40) := by
    have hmul := mul_le_mul_of_nonneg_right h htwo.le
    rwa [add_mul, div_mul_cancel₀ _ htwo.ne', mul_comm (1 / 2 ^ 40 : ℝ)] at hmul
  calc y = Real.exp (Real.log y) := (Real.exp_log hy).symm
    _ ≤ Real.exp (n * Real.log 2 + Real.log 2 * (1 / 2 ^ 40)) := Real.exp_le_exp.2 hle
    _ = 2 ^ n * Real.exp (Real.log 2 * (1 / 2 ^ 40)) := by rw [Real.exp_add, exp_log_two]
    _ ≤ 2 ^ n * (1 + 1 / 2 ^ 39) := mul_le_mul_of_nonneg_left (exp_le log_two_mul_le) (by positivity)

/-- **The power of two** that the code finds for a number is that below it, but for a small error. -/
theorem log2_bounds {y : ℚ} (hy : 1 ≤ y) (hle : y ≤ 2 ^ 50) :
    let t := ⌊toDouble (libm.log y / libm.log 2)⌋₊
    (2 : ℚ) ^ t ≤ y * (1 + 1 / 2 ^ 39) ∧ y ≤ 2 ^ (t + 1) * (1 + 1 / 2 ^ 39) := by
  obtain ⟨htwo, -⟩ := log_two_bounds
  have hnear := near_log2 libm hy
  have hypos : (0 : ℝ) < y := by exact_mod_cast one_pos.trans_le hy
  have hlog : 0 ≤ Real.log y := Real.log_nonneg (by exact_mod_cast hy)
  have hfifty : Real.log y / Real.log 2 ≤ 50 := by
    rw [div_le_iff₀ htwo]
    calc Real.log y ≤ Real.log (2 ^ 50) := Real.log_le_log hypos (by exact_mod_cast hle)
      _ = 50 * Real.log 2 := by rw [Real.log_pow]; norm_num
  have hnonneg : 0 ≤ toDouble (libm.log y / libm.log 2) := by
    exact_mod_cast hnear.nonneg (div_nonneg hlog htwo.le) (by norm_num)
  have hfloor := (Rat.cast_le (K := ℝ)).2 (Nat.floor_le hnonneg)
  have hlt := (Rat.cast_lt (K := ℝ)).2 (Nat.lt_floor_add_one (toDouble (libm.log y / libm.log 2)))
  have hclose := abs_le.1 hnear.abs_sub_le
  generalize ⌊toDouble (libm.log y / libm.log 2)⌋₊ = t at hfloor hlt ⊢
  generalize ((toDouble (libm.log y / libm.log 2) : ℚ) : ℝ) = l at hfloor hlt hclose
  push_cast at hfloor hlt
  have hgap : Real.log y / Real.log 2 * (1 / 2 ^ 49) ≤ 1 / 2 ^ 40 := by
    calc _ ≤ (50 : ℝ) * (1 / 2 ^ 49) := mul_le_mul_of_nonneg_right hfifty (by norm_num)
      _ ≤ 1 / 2 ^ 40 := by norm_num
  have hlow := pow_le_of_log (n := t) hypos (by linarith [hclose.2])
  have hhigh := le_pow_of_log (n := t + 1) hypos (by push_cast; linarith [hclose.1])
  constructor
  · refine (Rat.cast_le (K := ℝ)).1 ?_
    push_cast
    exact hlow
  · refine (Rat.cast_le (K := ℝ)).1 ?_
    push_cast
    exact hhigh

/-! ## The next percentage -/

/-- From this percentage on some of `n` values cannot be told from all of them. -/
def highestPercentage (n : ℕ) : ℚ := 100 - 99 / n

variable {ticks n : ℕ} {p : ℚ}

theorem toDouble_hundred : toDouble 100 = 100 := by exact_mod_cast toDouble_natCast (n := 100) (by decide)

/-- A quotient as the code computes it. -/
theorem near_hundred_div {x : ℚ} (hx : 0 < x) : Near (1 / 2 ^ 50) (100 / x) (toDouble (100 / toDouble x)) := by
  have hdivisor := near_toDouble hx.le
  have hquotient : 0 ≤ 100 / x := div_nonneg (by norm_num) hx.le
  have hdouble : 0 ≤ 100 / toDouble x := div_nonneg (by norm_num) (round_nonneg hx.le)
  exact ((hdivisor.div_left hx (by norm_num) (by norm_num) (by norm_num)).trans (near_toDouble hdouble) hquotient
    (by norm_num) (by norm_num) (by norm_num)).mono hquotient (by norm_num)

/-- The ticks for the rest of the way. -/
theorem near_ticks (hn : 0 < n) (hlt : n < 2 ^ 41) (h0 : 0 ≤ p) (hp : p ≤ highestPercentage n) :
    (2 : ℚ) ^ (halvings libm p + 1) * (100 - p) ≤ 200 * (1 + 1 / 2 ^ 10) ∧
      100 * (1 - 1 / 2 ^ 10) ≤ 2 ^ (halvings libm p + 1) * (100 - p) := by
  have hn' : (0 : ℚ) < n := Nat.cast_pos.2 hn
  have hlt' : (n : ℚ) < 2 ^ 41 := by exact_mod_cast hlt
  have hway : 99 / n ≤ 100 - p := by
    unfold highestPercentage at hp
    linarith
  have hpos : 0 < 100 - p := (div_pos (by norm_num) hn').trans_le hway
  have hdouble : 0 < toDouble (100 - p) := (near_toDouble hpos.le).pos hpos (by norm_num)
  have hnear := near_hundred_div hpos
  -- the number is between 1 and `2 ^ 50`
  have hone : 1 ≤ toDouble (100 / toDouble (100 - p)) := by
    have hle : toDouble (100 - p) ≤ 100 :=
      (toDouble_mono (show 100 - p ≤ 100 by linarith)).trans_eq toDouble_hundred
    have hmono := toDouble_mono ((one_le_div hdouble).2 hle)
    rwa [toDouble_one] at hmono
  have hfifty : toDouble (100 / toDouble (100 - p)) ≤ 2 ^ 50 := by
    have hle : 100 / (100 - p) ≤ 2 ^ 42 := by
      rw [div_le_iff₀ hpos]
      have hmul := mul_le_mul_of_nonneg_left hway hn'.le
      rw [mul_div_cancel₀ _ hn'.ne'] at hmul
      have hmul' := mul_le_mul_of_nonneg_right hlt'.le hpos.le
      linarith
    have hupper := hnear.upper
    norm_num at hupper hle ⊢
    linarith
  obtain ⟨hlow, hhigh⟩ := log2_bounds libm hone hfifty
  rw [← halvings] at hlow hhigh
  generalize toDouble (100 / toDouble (100 - p)) = y at hnear hlow hhigh
  have hlower := mul_le_mul_of_nonneg_right hnear.lower hpos.le
  have hupper := mul_le_mul_of_nonneg_right hnear.upper hpos.le
  rw [mul_right_comm, div_mul_cancel₀ _ hpos.ne'] at hlower hupper
  have hlow' := mul_le_mul_of_nonneg_right hlow hpos.le
  have hhigh' := mul_le_mul_of_nonneg_right hhigh hpos.le
  rw [pow_succ] at hhigh' ⊢
  generalize (2 : ℚ) ^ halvings libm p = power at hlow' hhigh' ⊢
  norm_num at hlower hupper hlow' hhigh' ⊢
  constructor
  · linarith
  · linarith

/-- What the ticks can be for `n` values: a step is not lost by rounding. -/
structure Ticking (ticks n : ℕ) : Prop where
  two_le : 2 ≤ ticks
  lt : ticks * n < 2 ^ 40

theorem Ticking.few (h : Ticking ticks n) : n < 2 ^ 39 := by
  have hlt := h.lt
  have hle := Nat.mul_le_mul_right n h.two_le
  omega

/-- The step that is computed, as a part of the way. -/
theorem step_bounds (ht : Ticking ticks n) (hn : 0 < n) (h0 : 0 ≤ p) (hp : p ≤ highestPercentage n) :
    let step := toDouble (100 / toDouble ((ticks * 2 ^ (halvings libm p + 1) : ℕ) : ℚ))
    (100 - p) / ticks * (1 / 2 * (1 - 1 / 2 ^ 8)) ≤ step ∧ step ≤ (100 - p) / ticks * (1 + 1 / 2 ^ 8) := by
  have hfew := ht.few
  obtain ⟨hlong, hshort⟩ := near_ticks libm hn (by omega) h0 hp
  have hticks : (0 : ℚ) < ticks := Nat.cast_pos.2 (two_pos.trans_le ht.two_le)
  have hpower : (0 : ℚ) < 2 ^ (halvings libm p + 1) := by positivity
  have hnear := near_hundred_div (mul_pos hticks hpower)
  push_cast
  generalize toDouble (100 / toDouble (ticks * 2 ^ (halvings libm p + 1))) = step at hnear ⊢
  generalize (2 : ℚ) ^ (halvings libm p + 1) = power at hlong hshort hpower hnear
  have hlow : (100 - p) / ticks * (1 / 2 * (1 - 1 / 2 ^ 9)) ≤ 100 / (ticks * power) := by
    have hmul := mul_le_mul_of_nonneg_right hlong hticks.le
    rw [div_mul_eq_mul_div, div_le_div_iff₀ hticks (mul_pos hticks hpower)]
    norm_num at hmul ⊢
    linarith
  have hhigh : 100 / (ticks * power) ≤ (100 - p) / ticks * (1 + 1 / 2 ^ 9) := by
    have hmul := mul_le_mul_of_nonneg_right hshort hticks.le
    rw [div_mul_eq_mul_div, div_le_div_iff₀ (mul_pos hticks hpower) hticks]
    norm_num at hmul ⊢
    linarith
  have hlower := hnear.lower
  have hupper := hnear.upper
  norm_num at hlow hhigh hlower hupper ⊢
  constructor <;> linarith

/-- **A step** takes a quarter of one part of `ticks` of the way to 100 at least, and leaves a quarter of the
    way. -/
theorem nextPercentile_bounds (ht : Ticking ticks n) (hn : 0 < n) (h0 : 0 ≤ p) (hp : p ≤ highestPercentage n) :
    p + (100 - p) / ticks / 4 ≤ nextPercentile libm ticks p ∧
      nextPercentile libm ticks p ≤ 100 - (100 - p) / 4 := by
  obtain ⟨hlow, hhigh⟩ := step_bounds libm ht hn h0 hp
  have hn' : (0 : ℚ) < n := Nat.cast_pos.2 hn
  have hticks : (2 : ℚ) ≤ ticks := by exact_mod_cast ht.two_le
  have hticks' : (0 : ℚ) < ticks := by linarith
  have hlt : (ticks : ℚ) * n < 2 ^ 40 := by exact_mod_cast ht.lt
  have hway : 99 / n ≤ 100 - p := by
    unfold highestPercentage at hp
    linarith
  have hpos : 0 < 100 - p := (div_pos (by norm_num) hn').trans_le hway
  -- one part of the way is large beside what is lost by rounding
  have hsmall : 1 / 2 ^ 34 ≤ (100 - p) / ticks := by
    rw [div_le_div_iff₀ (by norm_num) hticks']
    have hmul := mul_le_mul_of_nonneg_left hway (mul_pos hticks' hn').le
    rw [mul_assoc, mul_div_cancel₀ _ hn'.ne'] at hmul
    have hmul' := mul_le_mul_of_nonneg_right hlt.le hpos.le
    norm_num at hmul' ⊢
    linarith
  have hhalf : (100 - p) / ticks ≤ (100 - p) / 2 := div_le_div_of_nonneg_left hpos.le two_pos hticks
  rw [nextPercentile]
  generalize toDouble (100 / toDouble ((ticks * 2 ^ (halvings libm p + 1) : ℕ) : ℚ)) = step at hlow hhigh ⊢
  generalize (100 - p) / ticks = part at hlow hhigh hsmall hhalf ⊢
  have hsum : 0 ≤ p + step := by
    norm_num at hlow hsmall
    linarith
  have hlower := (near_toDouble hsum).lower
  have hupper := (near_toDouble hsum).upper
  norm_num at hlow hhigh hsmall hlower hupper ⊢
  constructor <;> linarith

/-- **The percentages** come closer and closer to 100. -/
theorem nextPercentile_approaches (ht : Ticking ticks n) (hn : 0 < n) :
    Approaches (nextPercentile libm ticks) 0 (highestPercentage n) 100 (1 - 1 / (4 * ticks)) := by
  have hticks : (2 : ℚ) ≤ ticks := by exact_mod_cast ht.two_le
  have hshare : (1 : ℚ) / (4 * ticks) ≤ 1 := (div_le_one (by linarith)).2 (by linarith)
  refine ⟨sub_nonneg.2 hshare, sub_lt_self 1 (by positivity), ?_, fun p h0 hp => ?_, fun p h0 hp => ?_⟩
  · exact sub_lt_self 100 (div_pos (by norm_num) (Nat.cast_pos.2 hn))
  · have hpos : 0 < (99 : ℚ) / n := div_pos (by norm_num) (Nat.cast_pos.2 hn)
    have hle := (nextPercentile_bounds libm ht hn h0 hp).2
    unfold highestPercentage at hp
    linarith
  · have hle := (nextPercentile_bounds libm ht hn h0 hp).1
    have heq : (1 - 1 / (4 * ticks)) * (100 - p) = 100 - p - (100 - p) / ticks / 4 := by
      rw [div_div]
      ring
    linarith

end

/-! ## Values for a percentage -/

section
variable {n c : ℕ} {p q : ℚ}

theorem currentPercentile_mono (n : ℕ) : Monotone fun c => currentPercentile c n := fun _ _ h =>
  toDouble_mono (div_le_div_of_nonneg_right (toDouble_mono (mul_le_mul_of_nonneg_left
    (toDouble_mono (Nat.cast_le.2 h)) (by norm_num))) (round_nonneg n.cast_nonneg))

theorem near_currentPercentile (c : ℕ) (hn : 0 < n) :
    Near (1 / 2 ^ 50) (100 * (c : ℚ) / n) (currentPercentile c n) := by
  have hn' : (0 : ℚ) < n := Nat.cast_pos.2 hn
  have hc : (0 : ℚ) ≤ 100 * c := mul_nonneg (by norm_num) c.cast_nonneg
  have hcount := (near_toDouble (c.cast_nonneg (α := ℚ))).mul_left (show (0 : ℚ) ≤ 100 by norm_num)
  have hproduct := hcount.trans (near_toDouble (hcount.nonneg hc (by norm_num))) hc (by norm_num) (by norm_num)
    (by norm_num)
  have hdivisor := near_toDouble hn'.le
  have hquotient : 0 ≤ 100 * (c : ℚ) / n := div_nonneg hc hn'.le
  have hdiv := (hdivisor.div_left hn' hc (by norm_num) (by norm_num)).trans
    (hproduct.div_right (hdivisor.pos hn' (by norm_num)).le) hquotient (by norm_num) (by norm_num) (by norm_num)
  exact (hdiv.trans (near_toDouble (hdiv.nonneg hquotient (by norm_num))) hquotient (by norm_num) (by norm_num)
    (by norm_num)).mono hquotient (by norm_num)

/-- All values are 100 percent. -/
theorem currentPercentile_all (hn : 0 < n) (hlt : n < 2 ^ 46) : currentPercentile n n = 100 := by
  have hn' : (n : ℚ) ≠ 0 := Nat.cast_ne_zero.2 hn.ne'
  have hproduct : toDouble (100 * n) = 100 * n := by
    exact_mod_cast toDouble_natCast (n := 100 * n) (by omega)
  rw [currentPercentile, toDouble_natCast (by omega), hproduct, mul_div_assoc, div_self hn', mul_one,
    toDouble_hundred]

theorem needed_le (n : ℕ) (p : ℚ) : needed n p ≤ n := by
  have hle := List.countP_le_length (l := List.range n)
    (p := fun c => decide (c = 0 ∨ currentPercentile c n < p))
  rwa [List.length_range] at hle

theorem needed_pos (hn : 0 < n) (p : ℚ) : 0 < needed n p :=
  List.countP_pos_iff.2 ⟨0, List.mem_range.2 hn, decide_eq_true (.inl rfl)⟩

theorem needed_mono (n : ℕ) : Monotone (needed n) := fun _ _ hpq =>
  List.countP_mono_left fun _ _ h => decide_eq_true ((of_decide_eq_true h).imp_right fun hlt => hlt.trans_le hpq)

/-- **The numbers** that are enough. -/
theorem needed_le_iff_of_lt (hc : c < n) : needed n p ≤ c ↔ c ≠ 0 ∧ p ≤ currentPercentile c n := by
  have hsorted : (List.range n).Pairwise (· ≤ ·) := List.pairwise_lt_range.imp le_of_lt
  have hdown : ∀ a b, a ≤ b → decide (b = 0 ∨ currentPercentile b n < p) = true →
      decide (a = 0 ∨ currentPercentile a n < p) = true := by
    intro a b hab hb
    refine decide_eq_true ?_
    rcases of_decide_eq_true hb with rfl | hlt
    · exact .inl (Nat.le_zero.1 hab)
    · exact .inr ((currentPercentile_mono n hab).trans_lt hlt)
  have hiff := sorted_iff_lt_countP hsorted hdown (List.getElem?_range hc)
  rw [decide_eq_true_eq] at hiff
  rw [← not_lt, needed, ← hiff, not_or, not_lt]

theorem needed_le_iff (hn : 0 < n) (hlt : n < 2 ^ 46) (hp : p ≤ 100) :
    needed n p ≤ c ↔ c ≠ 0 ∧ p ≤ currentPercentile c n := by
  rcases lt_or_ge c n with hc | hc
  · exact needed_le_iff_of_lt hc
  · refine iff_of_true ((needed_le n p).trans hc) ⟨by omega, hp.trans ?_⟩
    rw [← currentPercentile_all hn hlt]
    exact currentPercentile_mono n hc

/-- **Their number** is less than two off the share of the percentage. -/
theorem needed_near (hn : 0 < n) (hlt : n < 2 ^ 46) (h0 : 0 ≤ p) (hp : p ≤ 100) :
    |(needed n p : ℚ) - p / 100 * n| < 2 := by
  have hn' : (0 : ℚ) < n := Nat.cast_pos.2 hn
  have hlt' : (n : ℚ) < 2 ^ 46 := by exact_mod_cast hlt
  have hle : (needed n p : ℚ) ≤ n := Nat.cast_le.2 (needed_le n p)
  have hpos := needed_pos hn p
  have hshare : 0 ≤ p / 100 * n := mul_nonneg (div_nonneg h0 (by norm_num)) hn'.le
  have hcancel : ∀ c : ℚ, 100 * c / n * n = 100 * c := fun c => div_mul_cancel₀ _ hn'.ne'
  have hat := ((needed_le_iff hn hlt hp).1 le_rfl).2
  have hupper := mul_le_mul_of_nonneg_right (hat.trans (near_currentPercentile _ hn).upper) hn'.le
  rw [mul_right_comm, hcancel] at hupper
  rw [abs_lt]
  constructor
  · linarith
  · by_cases hone : needed n p = 1
    · rw [hone, Nat.cast_one]
      linarith
    · have hbelow : currentPercentile (needed n p - 1) n < p := by
        have hnot := (needed_le_iff hn hlt hp (c := needed n p - 1)).not.1 (by omega)
        rw [not_and, not_le] at hnot
        exact hnot (by omega)
      have hlower := mul_le_mul_of_nonneg_right ((near_currentPercentile (needed n p - 1) hn).lower.trans hbelow.le)
        hn'.le
      rw [mul_right_comm, hcancel, Nat.cast_pred hpos] at hlower
      linarith

end

/-! ## The percentages of a table -/

section
variable (libm : Libm) {ticks n m : ℕ} {p : ℚ}

/-- A percentage that does not take all values can be told from 100. -/
theorem le_highestPercentage (hlt : n < 2 ^ 40) (h : needed n p < n) : p ≤ highestPercentage n := by
  have hn : 0 < n := by omega
  have hn' : (0 : ℚ) < n := Nat.cast_pos.2 hn
  have hlt' : (n : ℚ) < 2 ^ 40 := by exact_mod_cast hlt
  have hpred : n - 1 < n := Nat.sub_lt hn Nat.one_pos
  have hle := ((needed_le_iff_of_lt hpred).1 (Nat.le_sub_one_of_lt h)).2
  have hupper := mul_le_mul_of_nonneg_right (hle.trans (near_currentPercentile (n - 1) hn).upper) hn'.le
  rw [mul_right_comm, div_mul_cancel₀ _ hn'.ne', Nat.cast_pred hn] at hupper
  have hgoal : p * n ≤ (100 - 99 / n) * n := by
    rw [sub_mul, div_mul_cancel₀ _ hn'.ne']
    linarith
  exact le_of_mul_le_mul_right hgoal hn'

variable (ht : Ticking ticks n) (hn : 0 < n)
include ht hn

theorem percentage_bounds (hfew : ∀ i < m, needed n (percentage libm ticks i) < n) :
    0 ≤ percentage libm ticks m ∧ percentage libm ticks m < 100 := by
  have hlt := ht.few
  exact (nextPercentile_approaches libm ht hn).level_bounds (by norm_num)
    fun i hi => le_highestPercentage (by omega) (hfew i hi)

theorem percentage_lt (hfew : ∀ i < m, needed n (percentage libm ticks i) < n) {i : ℕ} (hi : i < m) :
    percentage libm ticks i < percentage libm ticks m := by
  have hlt := ht.few
  exact (nextPercentile_approaches libm ht hn).level_lt (by norm_num) hi
    fun i hi => le_highestPercentage (by omega) (hfew i hi)

/-- An `int64_t` holds the ticks from which the next percentage is computed. -/
theorem percentage_ticks (hfew : ∀ i < m, needed n (percentage libm ticks i) < n) :
    ticks * 2 ^ (halvings libm (percentage libm ticks m) + 1) ≤ INT64_MAX := by
  have hlt := ht.few
  have hn' : (0 : ℚ) < n := Nat.cast_pos.2 hn
  have hway : percentage libm ticks m ≤ highestPercentage (4 * n) := by
    have hquarter : highestPercentage (4 * n) = 100 - 99 / n / 4 := by
      rw [highestPercentage, Nat.cast_mul, Nat.cast_ofNat, mul_comm, div_div]
    cases m with
    | zero =>
      have hone : (99 : ℚ) / n ≤ 99 := div_le_self (by norm_num) (by exact_mod_cast hn)
      have hzero : percentage libm ticks 0 = 0 := rfl
      rw [hquarter, hzero]
      linarith
    | succ m =>
      have hfew' : ∀ i < m, needed n (percentage libm ticks i) < n :=
        fun i hi => hfew i (hi.trans (Nat.lt_succ_self m))
      have hle := le_highestPercentage (by omega) (hfew m (Nat.lt_succ_self m))
      have hstep := (nextPercentile_bounds libm ht hn (percentage_bounds libm ht hn hfew').1 hle).2
      rw [percentage, level_succ, hquarter]
      unfold highestPercentage at hle
      exact hstep.trans (by linarith)
  have hbound := (near_ticks libm (show 0 < 4 * n by omega) (by omega) (percentage_bounds libm ht hn hfew).1 hway).1
  unfold highestPercentage at hway
  generalize halvings libm (percentage libm ticks m) + 1 = temp at hbound ⊢
  have hticks : (ticks : ℚ) * n < 2 ^ 40 := by exact_mod_cast ht.lt
  have hpower : (0 : ℚ) < 2 ^ temp := by positivity
  have hpow : (2 : ℚ) ^ temp * (99 / (4 * n : ℕ)) ≤ 201 := by
    have hshare : (99 : ℚ) / (4 * n : ℕ) ≤ 100 - percentage libm ticks m := by linarith
    have hle := mul_le_mul_of_nonneg_left hshare hpower.le
    linarith
  rw [Nat.cast_mul, Nat.cast_ofNat, mul_div_assoc', div_le_iff₀ (mul_pos four_pos hn')] at hpow
  have hfits : (ticks : ℚ) * 2 ^ temp ≤ 2 ^ 44 := by
    have hmul := mul_le_mul_of_nonneg_left hpow (ticks.cast_nonneg (α := ℚ))
    linarith
  have hnat : ticks * 2 ^ temp ≤ 2 ^ 44 := by exact_mod_cast hfits
  exact hnat.trans (by decide)

/-- **At last** all values are needed. -/
theorem exists_needed : ∃ i, needed n (percentage libm ticks i) = n := by
  have hlt := ht.few
  obtain ⟨i, hi⟩ := (nextPercentile_approaches libm ht hn).exists_lt_level (by norm_num)
  refine ⟨i, le_antisymm (needed_le ..) (not_lt.1 fun hfew => ?_)⟩
  exact absurd (le_highestPercentage (by omega) hfew) (not_le.2 hi)

end

end NFStash
