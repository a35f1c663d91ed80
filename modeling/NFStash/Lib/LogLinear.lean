/-
  Numbers in classes of a bounded relative width.

  Below `2 ^ (m + 1)` every number has a class of its own.  From there on each power of two is cut
  into `2 ^ m` classes, so that they get twice as wide from one power to the next.  `index` is the
  class of a number, `low` the least number of a class: `low_le_iff` says that each determines the
  other, and what a program needs of them follows from it.  A class is narrower than its numbers by
  a factor of `2 ^ m` (`width_mul_le`).
-/
import Mathlib.Data.Nat.Log
import Mathlib.Order.Monotone.Basic
import Mathlib.Tactic.Ring

namespace LogLinear

/-- How often a number has to be halved until it is below `2 ^ (m + 1)`. -/
def bucket (m x : ℕ) : ℕ := x.log2 - m

/-- The class of a number. -/
def index (m x : ℕ) : ℕ := bucket m x * 2 ^ m + x / 2 ^ bucket m x

/-- The least number of a class. -/
def low (m i : ℕ) : ℕ :=
  if i < 2 ^ m then i else (2 ^ m + i % 2 ^ m) * 2 ^ (i / 2 ^ m - 1)

section
variable {m x y i j : ℕ}

theorem lt_pow_bucket (m x : ℕ) : x < 2 ^ (m + 1) * 2 ^ bucket m x := by
  rw [← pow_add]
  rcases Nat.eq_zero_or_pos x with rfl | hx
  · exact Nat.two_pow_pos _
  · refine (Nat.log2_lt hx.ne').1 ?_
    unfold bucket
    omega

theorem pow_bucket_le (h : bucket m x ≠ 0) : 2 ^ m * 2 ^ bucket m x ≤ x := by
  rw [← pow_add]
  unfold bucket at *
  have hx : x ≠ 0 := by
    rintro rfl
    simp at h
  refine (Nat.le_log2 hx).1 ?_
  omega

/-- What is left of a number after halving. -/
theorem div_bucket_lt (m x : ℕ) : x / 2 ^ bucket m x < 2 * 2 ^ m := by
  rw [Nat.div_lt_iff_lt_mul (Nat.two_pow_pos _), ← pow_succ']
  exact lt_pow_bucket m x

theorem le_div_bucket (h : bucket m x ≠ 0) : 2 ^ m ≤ x / 2 ^ bucket m x :=
  (Nat.le_div_iff_mul_le (Nat.two_pow_pos _)).2 (pow_bucket_le h)

theorem index_lt (m x : ℕ) : index m x < (bucket m x + 2) * 2 ^ m := by
  have hlt := div_bucket_lt m x
  rw [index, Nat.add_mul]
  omega

/-- **The classes**: a number is in class `i` or a later one iff it is not below the least one of class
    `i`. -/
theorem low_le_iff (m i x : ℕ) : low m i ≤ x ↔ i ≤ index m x := by
  have hi : 2 ^ m * (i / 2 ^ m) + i % 2 ^ m = i := Nat.div_add_mod i (2 ^ m)
  have hr : i % 2 ^ m < 2 ^ m := Nat.mod_lt _ (Nat.two_pow_pos m)
  have hidx := index_lt m x
  unfold low
  split_ifs with hsmall
  · -- below 2 ^ m
    by_cases hb : bucket m x = 0
    · rw [index, hb]
      simp
    · have hle := le_div_bucket hb
      have hx : 2 ^ m ≤ x := hle.trans (Nat.div_le_self ..)
      have hindex : 2 ^ m ≤ index m x := hle.trans (Nat.le_add_left ..)
      exact iff_of_true (hsmall.le.trans hx) (hsmall.le.trans hindex)
  · obtain ⟨q, hq⟩ : ∃ q, i / 2 ^ m = q + 1 :=
      Nat.exists_eq_succ_of_ne_zero (Nat.div_pos (not_lt.1 hsmall) (Nat.two_pow_pos m)).ne'
    rw [hq] at hi ⊢
    rw [Nat.add_sub_cancel]
    have hmul : 2 ^ m * (q + 1) = q * 2 ^ m + 2 ^ m := by ring
    rcases lt_trichotomy q (bucket m x) with hlt | heq | hgt
    · -- in an earlier power of two
      refine iff_of_true ?_ ?_
      · have hpow : 2 ^ (m + 1) * 2 ^ q ≤ 2 ^ m * 2 ^ bucket m x := by
          rw [← pow_add, ← pow_add]
          exact Nat.pow_le_pow_right (by decide) (by omega)
        refine (Nat.mul_le_mul_right _ ?_).trans (hpow.trans (pow_bucket_le (by omega)))
        rw [pow_succ]
        omega
      · have hle := le_div_bucket (m := m) (x := x) (by omega)
        have hq' : (q + 1) * 2 ^ m ≤ bucket m x * 2 ^ m := Nat.mul_le_mul_right _ hlt
        rw [index]
        rw [Nat.add_mul] at hq'
        omega
    · -- in the same one
      rw [index, heq, ← Nat.le_div_iff_mul_le (Nat.two_pow_pos _)]
      rw [← heq]
      omega
    · -- in a later one
      refine iff_of_false ?_ ?_
      · rw [not_le]
        have hpow : 2 ^ (m + 1) * 2 ^ bucket m x ≤ 2 ^ m * 2 ^ q := by
          rw [← pow_add, ← pow_add]
          exact Nat.pow_le_pow_right (by decide) (by omega)
        refine (lt_pow_bucket m x).trans_le (hpow.trans ?_)
        exact Nat.mul_le_mul_right _ (Nat.le_add_right ..)
      · have hq' : (bucket m x + 2) * 2 ^ m ≤ 2 ^ m * (q + 1) := by
          rw [Nat.mul_comm (2 ^ m)]
          exact Nat.mul_le_mul_right _ (by omega)
        omega

theorem lt_low_iff : x < low m i ↔ index m x < i := by
  rw [← not_le, low_le_iff, not_le]

/-- A class begins where the one before it ends. -/
theorem low_succ (m i : ℕ) : low m (i + 1) = low m i + 2 ^ (i / 2 ^ m - 1) := by
  have hpos : 0 < 2 ^ m := Nat.two_pow_pos m
  have hi : 2 ^ m * (i / 2 ^ m) + i % 2 ^ m = i := Nat.div_add_mod i (2 ^ m)
  have hr : i % 2 ^ m < 2 ^ m := Nat.mod_lt _ hpos
  rcases Nat.lt_or_ge (i % 2 ^ m + 1) (2 ^ m) with hlt | hge
  · -- the same power of two
    have hdiv : (i + 1) / 2 ^ m = i / 2 ^ m ∧ (i + 1) % 2 ^ m = i % 2 ^ m + 1 := by
      rw [Nat.div_mod_unique hpos]
      constructor
      · omega
      · exact hlt
    unfold low
    rw [hdiv.1, hdiv.2]
    by_cases h0 : i / 2 ^ m = 0
    · rw [h0] at hi ⊢
      rw [if_pos (by omega), if_pos (by omega)]
      rfl
    · have hle : 2 ^ m ≤ i := (Nat.div_pos_iff.1 (Nat.pos_of_ne_zero h0)).2
      rw [if_neg (by omega), if_neg (by omega)]
      ring
  · -- the last class of a power of two
    have hmul : i + 1 = 2 ^ m * (i / 2 ^ m + 1) := by
      rw [Nat.mul_add]
      omega
    have hdiv : (i + 1) / 2 ^ m = i / 2 ^ m + 1 ∧ (i + 1) % 2 ^ m = 0 := by
      rw [Nat.div_mod_unique hpos]
      exact ⟨by omega, hpos⟩
    have hmod : i % 2 ^ m = 2 ^ m - 1 := by omega
    unfold low
    rw [hdiv.1, hdiv.2, hmod]
    by_cases h0 : i / 2 ^ m = 0
    · rw [h0] at hi hmul ⊢
      rw [if_neg (by omega), if_pos (by omega)]
      simp
      omega
    · obtain ⟨q, hq⟩ := Nat.exists_eq_succ_of_ne_zero h0
      have hle : 2 ^ m ≤ i := (Nat.div_pos_iff.1 (Nat.pos_of_ne_zero h0)).2
      rw [if_neg (by omega), if_neg (by omega), hq]
      simp only [Nat.succ_eq_add_one, Nat.add_sub_cancel, Nat.add_zero, pow_succ]
      have hsum : 2 ^ m + (2 ^ m - 1) + 1 = 2 ^ m * 2 := by omega
      calc 2 ^ m * (2 ^ q * 2) = (2 ^ m + (2 ^ m - 1) + 1) * 2 ^ q := by rw [hsum]; ring
        _ = (2 ^ m + (2 ^ m - 1)) * 2 ^ q + 2 ^ q := by ring

theorem low_strictMono (m : ℕ) : StrictMono (low m) :=
  strictMono_nat_of_lt_succ fun i => by
    rw [low_succ]
    exact Nat.lt_add_of_pos_right (Nat.two_pow_pos _)

/-- Every class has its number. -/
theorem index_low (m i : ℕ) : index m (low m i) = i := by
  refine le_antisymm (Nat.lt_succ_iff.1 (lt_low_iff.1 ?_)) ((low_le_iff m i _).1 le_rfl)
  exact low_strictMono m (Nat.lt_succ_self i)

theorem index_mono (m : ℕ) : Monotone (index m) := fun _ y h =>
  (low_le_iff m _ y).1 (((low_le_iff m _ _).2 le_rfl).trans h)

/-! ## Widths -/

/-- The powers of two of a class and of its numbers. -/
theorem index_div (m x : ℕ) : index m x / 2 ^ m - 1 = bucket m x := by
  have hlt := div_bucket_lt m x
  by_cases hb : bucket m x = 0
  · have hdiv : index m x / 2 ^ m < 2 := by
      rw [Nat.div_lt_iff_lt_mul (Nat.two_pow_pos m), index, hb]
      rw [hb] at hlt
      omega
    omega
  · have hle := le_div_bucket hb
    have hdiv : index m x / 2 ^ m = bucket m x + 1 := by
      rw [Nat.div_eq_iff (Nat.two_pow_pos m), index, Nat.add_mul]
      omega
    omega

/-- The least number of the class of a number. -/
theorem low_index (m x : ℕ) : low m (index m x) = x / 2 ^ bucket m x * 2 ^ bucket m x := by
  have hlt := div_bucket_lt m x
  unfold low
  rw [index_div]
  split_ifs with hsmall
  · have hb : bucket m x = 0 := by
      by_contra hb
      exact absurd hsmall (not_lt.2 ((le_div_bucket hb).trans (Nat.le_add_left ..)))
    rw [index, hb]
    simp
  · have hle : 2 ^ m ≤ x / 2 ^ bucket m x := by
      by_cases hb : bucket m x = 0
      · rw [index, hb, Nat.zero_mul, Nat.zero_add, not_lt] at hsmall
        rwa [hb]
      · exact le_div_bucket hb
    congr 1
    rw [index, Nat.mul_add_mod_self_right, Nat.mod_eq_sub_mod hle, Nat.mod_eq_of_lt (by omega)]
    omega

theorem low_index_succ (m x : ℕ) :
    low m (index m x + 1) = low m (index m x) + 2 ^ bucket m x := by
  rw [low_succ, index_div]

/-- **The width** of a class with more than one number. -/
theorem width_mul_le (h : bucket m x ≠ 0) : 2 ^ bucket m x * 2 ^ m ≤ x :=
  (Nat.mul_comm ..).trans_le (pow_bucket_le h)

/-- The classes of the numbers below a power of two. -/
theorem low_pow (m b : ℕ) : low m ((b + 1) * 2 ^ m) = 2 ^ (m + b) := by
  have hpos : 0 < 2 ^ m := Nat.two_pow_pos m
  have hle : 2 ^ m ≤ (b + 1) * 2 ^ m := Nat.le_mul_of_pos_left _ (Nat.succ_pos b)
  rw [low, if_neg (not_lt.2 hle), Nat.mul_mod_left, Nat.mul_div_cancel _ hpos, pow_add]
  rfl

end

end LogLinear
