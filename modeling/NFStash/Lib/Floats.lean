/-
  Binary floating-point numbers.

  `round p x` is the number with `p` binary digits that is nearest to `x`, the even one of two.  There
  is no largest and no smallest exponent.  Rounding is monotone (`round_mono`), keeps the numbers that
  have `p` digits (`round_eq`), and moves no number by more than a share of `1 / 2 ^ p`
  (`near_round`).  `Near` is closed under the operations, so what a chain of them is off by can be read
  off from its steps.
-/
import Mathlib.Algebra.Order.Floor.Ring
import Mathlib.Analysis.Real.Sqrt
import Mathlib.Data.Int.Log
import Mathlib.Data.Rat.Floor
import Mathlib.Tactic.FieldSimp
import Mathlib.Tactic.Linarith
import Mathlib.Tactic.Ring

namespace Floats

/-- The nearest integer, the even one of two. -/
def nearest (x : ℚ) : ℤ :=
  if x - ⌊x⌋ < 1 / 2 ∨ x - ⌊x⌋ = 1 / 2 ∧ ⌊x⌋ % 2 = 0 then ⌊x⌋ else ⌊x⌋ + 1

/-- The unit of the last of `p` digits. -/
def unit (p : ℕ) (x : ℚ) : ℚ := 2 ^ (Int.log 2 |x| - (p - 1))

def round (p : ℕ) (x : ℚ) : ℚ := nearest (x / unit p x) * unit p x

/-- A number that is off by a share `ε` at most, of one that is not negative. -/
structure Near {K : Type} [Field K] [LinearOrder K] (ε x y : K) : Prop where
  lower : x * (1 - ε) ≤ y
  upper : y ≤ x * (1 + ε)

/-! ## Integers -/

section
variable {x y : ℚ}

theorem nearest_intCast (n : ℤ) : nearest n = n := by
  rw [nearest, Int.floor_intCast, sub_self, if_pos (.inl (by norm_num))]

theorem nearest_bounds (x : ℚ) : ⌊x⌋ ≤ nearest x ∧ nearest x ≤ ⌊x⌋ + 1 := by
  unfold nearest
  split_ifs
  · exact ⟨le_rfl, by omega⟩
  · exact ⟨by omega, le_rfl⟩

theorem nearest_mono : Monotone nearest := by
  intro x y hxy
  rcases (Int.floor_le_floor hxy).lt_or_eq with hlt | heq
  · exact (nearest_bounds x).2.trans (hlt.trans_le (nearest_bounds y).1)
  · unfold nearest
    rw [heq]
    split_ifs with hx hy hy
    · exact le_rfl
    · omega
    · -- what is nearest to the floor for `y` is so for `x`
      refine absurd ?_ hx
      rcases hy with hlt | ⟨hhalf, heven⟩
      · exact .inl (by linarith)
      · rcases (show x - ⌊y⌋ ≤ 1 / 2 by linarith).lt_or_eq with hlt | hhalf'
        · exact .inl hlt
        · exact .inr ⟨hhalf', heven⟩
    · exact le_rfl

theorem nearest_neg (x : ℚ) : nearest (-x) = -nearest x := by
  have hle := Int.floor_le x
  have hlt := Int.lt_floor_add_one x
  rcases hle.lt_or_eq with hpart | hint
  · have hfloor : ⌊-x⌋ = -⌊x⌋ - 1 := by
      rw [Int.floor_eq_iff]
      push_cast
      constructor <;> linarith
    unfold nearest
    rw [hfloor]
    push_cast
    -- the part of `-x` is what is left of 1
    rcases lt_trichotomy (x - ⌊x⌋) (1 / 2) with h | h | h
    · rw [if_neg, if_pos (.inl h)]
      · ring
      · rintro (h' | ⟨h', -⟩) <;> linarith
    · by_cases heven : ⌊x⌋ % 2 = 0
      · rw [if_neg, if_pos (.inr ⟨h, heven⟩)]
        · ring
        · rintro (h' | ⟨-, h'⟩)
          · linarith
          · omega
      · rw [if_pos (.inr ⟨by linarith, by omega⟩), if_neg]
        · ring
        · rintro (h' | ⟨-, h'⟩)
          · linarith
          · exact heven h'
    · rw [if_pos (.inl (by linarith)), if_neg]
      · ring
      · rintro (h' | ⟨h', -⟩) <;> linarith
  · rw [← hint, ← Int.cast_neg, nearest_intCast, nearest_intCast]

theorem abs_nearest_sub_le (x : ℚ) : |(nearest x : ℚ) - x| ≤ 1 / 2 := by
  have hle := Int.floor_le x
  have hlt := Int.lt_floor_add_one x
  unfold nearest
  split_ifs with h
  · rw [abs_le]
    rcases h with h | ⟨h, -⟩
    · constructor <;> linarith
    · constructor <;> linarith
  · rw [not_or, not_lt] at h
    rw [Int.cast_add, Int.cast_one, abs_le]
    constructor <;> linarith [h.1]

end

/-! ## Numbers -/

section
variable {p : ℕ} {x y : ℚ}

theorem unit_pos (p : ℕ) (x : ℚ) : 0 < unit p x := zpow_pos two_pos _

@[simp] theorem round_zero (p : ℕ) : round p 0 = 0 := by
  have hzero : nearest 0 = 0 := nearest_intCast 0
  rw [round, zero_div, hzero, Int.cast_zero, zero_mul]

/-- The digits of a number before it is rounded. -/
theorem digits_bounds (hx : 0 < x) : 2 ^ ((p : ℤ) - 1) ≤ x / unit p x ∧ x / unit p x < 2 ^ (p : ℤ) := by
  have hlow := Int.zpow_log_le_self (b := 2) (by decide) hx
  have hhigh := Int.lt_zpow_succ_log_self (b := 2) (by decide) x
  rw [Nat.cast_ofNat] at hlow hhigh
  rw [le_div_iff₀ (unit_pos p x), div_lt_iff₀ (unit_pos p x), unit, abs_of_pos hx,
    ← zpow_add₀ two_ne_zero, ← zpow_add₀ two_ne_zero]
  constructor
  · rwa [show (p : ℤ) - 1 + (Int.log 2 x - (p - 1)) = Int.log 2 x by ring]
  · rwa [show (p : ℤ) + (Int.log 2 x - (p - 1)) = Int.log 2 x + 1 by ring]

/-- **Numbers of `p` digits** are not rounded. -/
theorem round_eq {m e : ℤ} (hm : |m| < 2 ^ p) : round p (m * 2 ^ e) = m * 2 ^ e := by
  by_cases h0 : m = 0
  · rw [h0, Int.cast_zero, zero_mul, round_zero]
  -- the unit is a part of `2 ^ e`
  have hx : 0 < |(m * 2 ^ e : ℚ)| := abs_pos.2 (mul_ne_zero (Int.cast_ne_zero.2 h0) (zpow_ne_zero e two_ne_zero))
  have habs : |(m * 2 ^ e : ℚ)| < 2 ^ ((p : ℤ) + e) := by
    rw [abs_mul, abs_of_pos (zpow_pos (two_pos (α := ℚ)) e), zpow_add₀ two_ne_zero, zpow_natCast]
    refine mul_lt_mul_of_pos_right ?_ (zpow_pos two_pos e)
    exact_mod_cast hm
  have hlog : Int.log 2 |(m * 2 ^ e : ℚ)| < p + e := by
    rw [← Int.lt_zpow_iff_log_lt (by decide) hx]
    exact_mod_cast habs
  obtain ⟨k, hk⟩ : ∃ k : ℕ, e - (Int.log 2 |(m * 2 ^ e : ℚ)| - (p - 1)) = k :=
    Int.eq_ofNat_of_zero_le (by omega)
  have hint : (m * 2 ^ e : ℚ) / unit p (m * 2 ^ e) = (m * 2 ^ k : ℤ) := by
    rw [div_eq_iff (unit_pos ..).ne', unit, Int.cast_mul, Int.cast_pow, Int.cast_ofNat, mul_assoc,
      ← zpow_natCast, ← zpow_add₀ two_ne_zero, ← hk]
    congr 2
    ring
  rw [round, hint, nearest_intCast, ← hint, div_mul_cancel₀ _ (unit_pos ..).ne']

theorem round_natCast {n : ℕ} (hn : n < 2 ^ p) : round p n = n := by
  have heq := round_eq (p := p) (m := n) (e := 0) (by rw [Nat.abs_cast]; exact_mod_cast hn)
  rwa [zpow_zero, mul_one, Int.cast_natCast] at heq

/-- A number that is not 0 is between its powers of two after it is rounded. -/
theorem round_bounds (hp : 0 < p) (hx : 0 < x) :
    2 ^ Int.log 2 x ≤ round p x ∧ round p x ≤ 2 ^ (Int.log 2 x + 1) := by
  obtain ⟨hlow, hhigh⟩ := digits_bounds (p := p) hx
  obtain ⟨q, rfl⟩ : ∃ q, p = q + 1 := Nat.exists_eq_add_of_le' hp
  rw [Nat.cast_add, Nat.cast_one, add_sub_cancel_right, zpow_natCast] at hlow
  rw [zpow_natCast] at hhigh
  have hdigits : (2 ^ q : ℤ) ≤ nearest (x / unit (q + 1) x) ∧ nearest (x / unit (q + 1) x) ≤ 2 ^ (q + 1) := by
    rw [← nearest_intCast (2 ^ q), ← nearest_intCast (2 ^ (q + 1))]
    constructor
    · exact nearest_mono (by exact_mod_cast hlow)
    · exact nearest_mono (by exact_mod_cast hhigh.le)
  have hunit : unit (q + 1) x = 2 ^ (Int.log 2 x - q) := by
    rw [unit, abs_of_pos hx, Nat.cast_add, Nat.cast_one, add_sub_cancel_right]
  have hpos : (0 : ℚ) < 2 ^ (Int.log 2 x - q) := zpow_pos two_pos _
  rw [hunit] at hdigits
  rw [round, hunit]
  constructor
  · calc (2 : ℚ) ^ Int.log 2 x = ((2 ^ q : ℤ) : ℚ) * 2 ^ (Int.log 2 x - q) := by
          rw [Int.cast_pow, Int.cast_ofNat, ← zpow_natCast, ← zpow_add₀ two_ne_zero, add_sub_cancel]
      _ ≤ _ := mul_le_mul_of_nonneg_right (Int.cast_le.2 hdigits.1) hpos.le
  · calc _ ≤ ((2 ^ (q + 1) : ℤ) : ℚ) * 2 ^ (Int.log 2 x - q) :=
          mul_le_mul_of_nonneg_right (Int.cast_le.2 hdigits.2) hpos.le
      _ = 2 ^ (Int.log 2 x + 1) := by
          rw [Int.cast_pow, Int.cast_ofNat, ← zpow_natCast, ← zpow_add₀ two_ne_zero, Nat.cast_add, Nat.cast_one]
          congr 1
          ring

theorem round_nonneg (hx : 0 ≤ x) : 0 ≤ round p x := by
  have hle := nearest_mono (div_nonneg hx (unit_pos p x).le)
  have hzero : nearest 0 = 0 := nearest_intCast 0
  rw [hzero] at hle
  exact mul_nonneg (Int.cast_nonneg hle) (unit_pos p x).le

theorem round_neg (p : ℕ) (x : ℚ) : round p (-x) = -round p x := by
  have hunit : unit p (-x) = unit p x := by rw [unit, unit, abs_neg]
  rw [round, round, hunit, neg_div, nearest_neg, Int.cast_neg, neg_mul]

theorem round_le_of_nonneg (hp : 0 < p) (hx : 0 ≤ x) (hxy : x ≤ y) : round p x ≤ round p y := by
  rcases hx.eq_or_lt with rfl | hx
  · rw [round_zero]
    exact round_nonneg hxy
  have hy := hx.trans_le hxy
  rcases (Int.log_mono_right (b := 2) hx hxy).lt_or_eq with hlt | heq
  · -- a power of two is between them
    calc round p x ≤ 2 ^ (Int.log 2 x + 1) := (round_bounds hp hx).2
      _ ≤ 2 ^ Int.log 2 y := zpow_le_zpow_right₀ one_le_two hlt
      _ ≤ round p y := (round_bounds hp hy).1
  · have hunit : unit p x = unit p y := by rw [unit, unit, abs_of_pos hx, abs_of_pos hy, heq]
    rw [round, round, hunit]
    refine mul_le_mul_of_nonneg_right (Int.cast_le.2 (nearest_mono ?_)) (unit_pos p y).le
    exact div_le_div_of_nonneg_right hxy (unit_pos p y).le

/-- **Rounding** keeps the order. -/
theorem round_mono (hp : 0 < p) : Monotone (round p) := by
  intro x y hxy
  rcases le_total 0 x with hx | hx
  · exact round_le_of_nonneg hp hx hxy
  · have hneg := round_nonneg (p := p) (neg_nonneg.2 hx)
    rw [round_neg] at hneg
    rcases le_total 0 y with hy | hy
    · exact (neg_nonneg.1 hneg).trans (round_nonneg hy)
    · have hle := round_le_of_nonneg hp (neg_nonneg.2 hy) (neg_le_neg hxy)
      rwa [round_neg, round_neg, neg_le_neg_iff] at hle

/-- **What is lost.** -/
theorem abs_round_sub_le (p : ℕ) (x : ℚ) : |round p x - x| ≤ |x| / 2 ^ p := by
  by_cases h0 : x = 0
  · rw [h0, round_zero, sub_zero, abs_zero, zero_div]
  have hx : 0 < |x| := abs_pos.2 h0
  have hlow := Int.zpow_log_le_self (b := 2) (by decide) hx
  rw [Nat.cast_ofNat] at hlow
  have hunit : unit p x / 2 ≤ |x| / 2 ^ p := by
    have heq : unit p x / 2 = 2 ^ Int.log 2 |x| / 2 ^ p := by
      rw [unit, ← zpow_natCast, ← zpow_sub₀ two_ne_zero, div_eq_mul_inv, ← zpow_sub_one₀ two_ne_zero]
      congr 1
      ring
    rw [heq]
    exact div_le_div_of_nonneg_right hlow (by positivity)
  have hsub : round p x - x = (nearest (x / unit p x) - x / unit p x) * unit p x := by
    rw [round, sub_mul, div_mul_cancel₀ _ (unit_pos p x).ne']
  calc |round p x - x| = |(nearest (x / unit p x) : ℚ) - x / unit p x| * unit p x := by
        rw [hsub, abs_mul, abs_of_pos (unit_pos p x)]
    _ ≤ 1 / 2 * unit p x := mul_le_mul_of_nonneg_right (abs_nearest_sub_le _) (unit_pos p x).le
    _ = unit p x / 2 := by ring
    _ ≤ |x| / 2 ^ p := hunit

end

/-! ## Errors -/

section
variable {K : Type} [Field K] [LinearOrder K] [IsStrictOrderedRing K] {x y z u v ε δ : K}

namespace Near

theorem refl (hε : 0 ≤ ε) (hx : 0 ≤ x) : Near ε x x :=
  ⟨by nlinarith, by nlinarith⟩

theorem mono (h : Near ε x y) (hx : 0 ≤ x) (hle : ε ≤ δ) : Near δ x y :=
  ⟨le_trans (by nlinarith) h.lower, h.upper.trans (by nlinarith)⟩

theorem nonneg (h : Near ε x y) (hx : 0 ≤ x) (hε : ε ≤ 1) : 0 ≤ y :=
  (mul_nonneg hx (sub_nonneg.2 hε)).trans h.lower

theorem pos (h : Near ε x y) (hx : 0 < x) (hε : ε < 1) : 0 < y :=
  (mul_pos hx (sub_pos.2 hε)).trans_le h.lower

/-- One error after another. -/
theorem trans (h : Near ε x y) (h' : Near δ y z) (hx : 0 ≤ x) (hε : 0 ≤ ε) (hδ : 0 ≤ δ) (hδ1 : δ ≤ 1) :
    Near (ε + δ + ε * δ) x z := by
  have hsum : 0 ≤ x * (ε * δ) := mul_nonneg hx (mul_nonneg hε hδ)
  constructor
  · calc x * (1 - (ε + δ + ε * δ)) ≤ x * (1 - ε) * (1 - δ) := by linarith
      _ ≤ y * (1 - δ) := mul_le_mul_of_nonneg_right h.lower (sub_nonneg.2 hδ1)
      _ ≤ z := h'.lower
  · calc z ≤ y * (1 + δ) := h'.upper
      _ ≤ x * (1 + ε) * (1 + δ) := mul_le_mul_of_nonneg_right h.upper (by linarith)
      _ = x * (1 + (ε + δ + ε * δ)) := by ring

theorem mul_left (h : Near ε x y) (hu : 0 ≤ u) : Near ε (u * x) (u * y) :=
  ⟨by rw [mul_assoc]; exact mul_le_mul_of_nonneg_left h.lower hu,
    by rw [mul_assoc]; exact mul_le_mul_of_nonneg_left h.upper hu⟩

theorem mul_right (h : Near ε x y) (hu : 0 ≤ u) : Near ε (x * u) (y * u) := by
  rw [mul_comm x, mul_comm y]
  exact h.mul_left hu

theorem div_right (h : Near ε x y) (hu : 0 ≤ u) : Near ε (x / u) (y / u) := by
  rw [div_eq_mul_inv, div_eq_mul_inv]
  exact h.mul_right (inv_nonneg.2 hu)

theorem add (h : Near ε x y) (h' : Near ε u v) : Near ε (x + u) (y + v) :=
  ⟨by linarith [h.lower, h'.lower], by linarith [h.upper, h'.upper]⟩

/-- A divisor with an error. -/
theorem div_left (h : Near ε x y) (hx : 0 < x) (hu : 0 ≤ u) (hε : 0 ≤ ε) (hhalf : ε ≤ 1 / 2) :
    Near (2 * ε) (u / x) (u / y) := by
  have hy : 0 < y := h.pos hx (by linarith)
  constructor
  · rw [div_mul_eq_mul_div, div_le_div_iff₀ hx hy]
    have hone : (1 - 2 * ε) * y ≤ x := by
      have hmul := mul_le_mul_of_nonneg_left h.upper (show 0 ≤ 1 - 2 * ε by linarith)
      have hsq : 0 ≤ x * (ε * (1 + 2 * ε)) := mul_nonneg hx.le (mul_nonneg hε (by linarith))
      linarith
    have hmul := mul_le_mul_of_nonneg_left hone hu
    linarith
  · rw [div_mul_eq_mul_div, div_le_div_iff₀ hy hx]
    have hone : x ≤ (1 + 2 * ε) * y := by
      have hmul := mul_le_mul_of_nonneg_left h.lower (show 0 ≤ 1 + 2 * ε by linarith)
      have hsq : 0 ≤ x * (ε * (1 - 2 * ε)) := mul_nonneg hx.le (mul_nonneg hε (by linarith))
      linarith
    have hmul := mul_le_mul_of_nonneg_left hone hu
    linarith

theorem abs_sub_le (h : Near ε x y) : |y - x| ≤ x * ε :=
  abs_le.2 ⟨by linarith [h.lower], by linarith [h.upper]⟩

end Near

theorem near_of_abs (hx : 0 ≤ x) (h : |y - x| ≤ |x| * ε) : Near ε x y := by
  rw [abs_of_nonneg hx] at h
  obtain ⟨hlow, hhigh⟩ := abs_le.1 h
  exact ⟨by linarith, by linarith⟩

/-- The square of a number of either sign. -/
theorem near_sq (h : |y - x| ≤ |x| * ε) (hε : 0 ≤ ε) (hone : ε ≤ 1) : Near (3 * ε) (x * x) (y * y) := by
  have hsum : |y + x| ≤ |x| * 3 := by
    have htwo : y + x = y - x + 2 * x := by ring
    have htriangle := abs_add_le (y - x) (2 * x)
    rw [abs_mul, abs_two] at htriangle
    rw [htwo]
    have hle := mul_le_of_le_one_right (abs_nonneg x) hone
    linarith
  refine near_of_abs (mul_self_nonneg x) ?_
  calc |y * y - x * x| = |y - x| * |y + x| := by rw [← abs_mul]; congr 1; ring
    _ ≤ |x| * ε * (|x| * 3) := mul_le_mul h hsum (abs_nonneg _) (mul_nonneg (abs_nonneg x) hε)
    _ = |x * x| * (3 * ε) := by rw [abs_mul]; ring

end

theorem Near.cast {K : Type} [Field K] [LinearOrder K] [IsStrictOrderedRing K] {ε x y : ℚ} (h : Near ε x y) :
    Near (ε : K) x y :=
  ⟨by exact_mod_cast h.lower, by exact_mod_cast h.upper⟩

/-- **A rounded number** is near. -/
theorem near_round {p : ℕ} {x : ℚ} (hx : 0 ≤ x) : Near (1 / 2 ^ p) x (round p x) :=
  near_of_abs hx (by rw [mul_one_div]; exact abs_round_sub_le p x)

/-- One more summand. -/
theorem Near.add_round {p : ℕ} {ε x y u v : ℚ} (h : Near ε x y) (h' : Near ε u v) (hx : 0 ≤ x) (hu : 0 ≤ u)
    (hε : 0 ≤ ε) (hone : ε ≤ 1) : Near (ε + 2 / 2 ^ p) (x + u) (round p (y + v)) := by
  have hsum := h.add h'
  have hunit : (0 : ℚ) ≤ 1 / 2 ^ p := by positivity
  have hle : (1 : ℚ) / 2 ^ p ≤ 1 := (div_le_one (by positivity)).2 (one_le_pow₀ one_le_two)
  refine (hsum.trans (near_round (hsum.nonneg (add_nonneg hx hu) hone)) (add_nonneg hx hu) hε hunit hle).mono
    (add_nonneg hx hu) ?_
  have hprod := mul_le_of_le_one_left hunit hone
  rw [show (2 : ℚ) / 2 ^ p = 1 / 2 ^ p + 1 / 2 ^ p by ring]
  linarith

/-- The root of a number is not off by more. -/
theorem Near.sqrt {ε x y : ℝ} (h : Near ε x y) (hx : 0 ≤ x) (hε : 0 ≤ ε) (hone : ε ≤ 1) : Near ε √x √y := by
  have hlow : 0 ≤ 1 - ε := sub_nonneg.2 hone
  constructor
  · have hle : 1 - ε ≤ √(1 - ε) := Real.le_sqrt_of_sq_le (by nlinarith)
    calc √x * (1 - ε) ≤ √x * √(1 - ε) := mul_le_mul_of_nonneg_left hle (Real.sqrt_nonneg x)
      _ = √(x * (1 - ε)) := (Real.sqrt_mul hx _).symm
      _ ≤ √y := Real.sqrt_le_sqrt h.lower
  · have hle : √(1 + ε) ≤ 1 + ε := (Real.sqrt_le_left (by linarith)).2 (by nlinarith)
    calc √y ≤ √(x * (1 + ε)) := Real.sqrt_le_sqrt h.upper
      _ = √x * √(1 + ε) := Real.sqrt_mul hx _
      _ ≤ √x * (1 + ε) := mul_le_mul_of_nonneg_left hle (Real.sqrt_nonneg x)

end Floats
