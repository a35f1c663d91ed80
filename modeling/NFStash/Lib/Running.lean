/-
  The least, the greatest and the mean of values that come one after the other.

  A program keeps them without the values: `least_concat`, `greatest_concat` and `mean_concat` are the
  updates.  The extremes start from a value of their own; `isLeast_least_iff` and
  `isGreatest_greatest_iff` say when this start does no harm.  The mean lies between any bounds of the
  values (`le_mean`, `mean_le`); if none is negative it is 0 only if they all are (`mean_eq_zero_iff`).
-/
import Mathlib.Algebra.BigOperators.Group.List.Basic
import Mathlib.Algebra.Order.BigOperators.Group.List
import Mathlib.Algebra.Order.Field.Basic
import Mathlib.Algebra.Order.Group.Unbundled.Abs
import Mathlib.Algebra.Field.Basic
import Mathlib.Data.Nat.Cast.Basic
import Mathlib.Algebra.CharZero.Defs
import Mathlib.Order.Bounds.Defs
import Mathlib.Order.MinMax
import Mathlib.Tactic.Common

namespace Running

/-! ## Extremes -/

section
variable {α : Type} [LinearOrder α]

def least (start : α) (xs : List α) : α := xs.foldl min start

def greatest (start : α) (xs : List α) : α := xs.foldl max start

theorem least_cons (start x : α) (xs : List α) : least start (x :: xs) = least (min start x) xs := rfl

/-- The update of a program that keeps the least value. -/
theorem least_concat (start : α) (xs : List α) (x : α) :
    least start (xs ++ [x]) = if x < least start xs then x else least start xs := by
  rw [least, List.foldl_concat, min_comm, min_def_lt]
  rfl

/-- The update of a program that keeps the greatest value. -/
theorem greatest_concat (start : α) (xs : List α) (x : α) :
    greatest start (xs ++ [x]) = if x > greatest start xs then x else greatest start xs := by
  rw [greatest, List.foldl_concat, max_def_lt]
  rfl

/-- What is kept is the start or one of the values, and a bound of all of them. -/
theorem least_spec (start : α) (xs : List α) : (least start xs = start ∨ least start xs ∈ xs) ∧
    least start xs ≤ start ∧ ∀ x ∈ xs, least start xs ≤ x := by
  induction xs generalizing start with
  | nil => simp [least]
  | cons x xs ih =>
    obtain ⟨hmem, hle, hall⟩ := ih (min start x)
    rw [least_cons]
    refine ⟨?_, hle.trans (min_le_left ..), ?_⟩
    · rcases hmem with hmem | hmem
      · rw [hmem]
        rcases min_choice start x with h | h
        · exact .inl h
        · rw [h]
          exact .inr (List.mem_cons_self ..)
      · exact .inr (List.mem_cons_of_mem _ hmem)
    · intro y hy
      rcases List.mem_cons.1 hy with rfl | hy
      · exact hle.trans (min_le_right ..)
      · exact hall y hy

/-- **The least value** is what is kept, iff one of the values is not above the start. -/
theorem isLeast_least_iff {start : α} {xs : List α} :
    IsLeast {x | x ∈ xs} (least start xs) ↔ ∃ x ∈ xs, x ≤ start := by
  obtain ⟨hmem, hle, hall⟩ := least_spec start xs
  constructor
  · intro h
    exact ⟨_, h.1, hle⟩
  · rintro ⟨x, hx, hxs⟩
    refine ⟨?_, hall⟩
    rcases hmem with hmem | hmem
    · obtain rfl : x = start := hxs.antisymm (hmem.symm.trans_le (hall x hx))
      show least x xs ∈ xs
      rwa [hmem]
    · exact hmem

/-- **The greatest value** is what is kept, iff one of the values is not below the start. -/
theorem isGreatest_greatest_iff {start : α} {xs : List α} :
    IsGreatest {x | x ∈ xs} (greatest start xs) ↔ ∃ x ∈ xs, start ≤ x :=
  @isLeast_least_iff αᵒᵈ _ start xs

end

/-! ## The mean -/

section
variable {K : Type} [Field K]

/-- The arithmetic mean. -/
def mean (xs : List K) : K := xs.sum / xs.length

@[simp] theorem mean_nil : mean ([] : List K) = 0 := by simp [mean]

theorem mean_mul_length [CharZero K] (xs : List K) : mean xs * xs.length = xs.sum := by
  rcases eq_or_ne xs [] with rfl | hne
  · simp
  · have hlen : (xs.length : K) ≠ 0 := Nat.cast_ne_zero.2 (List.length_pos_iff.2 hne).ne'
    exact div_mul_cancel₀ _ hlen

/-- **The running mean.** -/
theorem mean_concat [CharZero K] (xs : List K) (x : K) :
    mean (xs ++ [x]) = (mean xs * xs.length + x) / (xs.length + 1) := by
  rw [mean_mul_length, mean, List.sum_append, List.sum_singleton, List.length_append,
    List.length_singleton, Nat.cast_add, Nat.cast_one]

/-- A value that takes the place of another one leaves the mean as it is iff it is the mean. -/
theorem mean_replace_iff [CharZero K] {m x : K} {n : ℕ} :
    (m * n + x) / (n + 1) = m ↔ x = m := by
  have hn : ((n : K) + 1) ≠ 0 := by exact_mod_cast Nat.succ_ne_zero n
  rw [div_eq_iff hn, mul_add, mul_one, add_right_inj]

end

section
variable {K : Type} [Field K] [LinearOrder K] [IsStrictOrderedRing K] {xs : List K} {a : K}

theorem le_mean (hne : xs ≠ []) (h : ∀ x ∈ xs, a ≤ x) : a ≤ mean xs := by
  have hlen : (0 : K) < xs.length := Nat.cast_pos.2 (List.length_pos_iff.2 hne)
  have hsum := List.card_nsmul_le_sum xs a h
  rw [nsmul_eq_mul, mul_comm] at hsum
  exact (le_div_iff₀ hlen).2 hsum

theorem mean_le (hne : xs ≠ []) (h : ∀ x ∈ xs, x ≤ a) : mean xs ≤ a := by
  have hlen : (0 : K) < xs.length := Nat.cast_pos.2 (List.length_pos_iff.2 hne)
  have hsum := List.sum_le_card_nsmul xs a h
  rw [nsmul_eq_mul, mul_comm] at hsum
  exact (div_le_iff₀ hlen).2 hsum

/-- Values that are close to others, relative to these, have a mean that is. -/
theorem mean_close {ι : Type} {f g : ι → K} {c : K} (hc : 0 ≤ c) {is : List ι}
    (h : ∀ i ∈ is, |f i - g i| * c ≤ g i) :
    |mean (is.map f) - mean (is.map g)| * c ≤ mean (is.map g) := by
  have hsum : |(is.map f).sum - (is.map g).sum| * c ≤ (is.map g).sum := by
    induction is with
    | nil => simp
    | cons i is ih =>
      rw [List.map_cons, List.map_cons, List.sum_cons, List.sum_cons, add_sub_add_comm]
      have hrest := ih fun j hj => h j (List.mem_cons_of_mem _ hj)
      have htriangle := mul_le_mul_of_nonneg_right
        (abs_add_le (f i - g i) ((is.map f).sum - (is.map g).sum)) hc
      refine htriangle.trans ?_
      rw [add_mul]
      exact add_le_add (h i (List.mem_cons_self ..)) hrest
  have hlen : (0 : K) ≤ is.length := Nat.cast_nonneg _
  rw [mean, mean, List.length_map, List.length_map, ← sub_div, abs_div, abs_of_nonneg hlen,
    div_mul_eq_mul_div]
  exact div_le_div_of_nonneg_right hsum hlen

/-- The mean of values that are not negative is 0 only if they all are. -/
theorem mean_eq_zero_iff (h : ∀ x ∈ xs, 0 ≤ x) : mean xs = 0 ↔ ∀ x ∈ xs, x = 0 := by
  constructor
  · intro hmean x hx
    have hsum : xs.sum = 0 := by rw [← mean_mul_length, hmean, zero_mul]
    exact List.all_zero_of_le_zero_le_of_sum_eq_zero h hsum hx
  · intro hall
    rw [mean, List.sum_eq_zero hall, zero_div]

end

end Running
