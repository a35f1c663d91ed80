/-
  Levels that come closer and closer to a bound.

  A step that leaves a part of the way to a bound, and takes away at least a fixed share of it, passes
  every value below the bound (`exists_lt_level`).  It is enough that it does so up to a value `top`
  (`Approaches`): until a level is above that the levels ascend and are below the bound.
-/
import Mathlib.Algebra.Order.Archimedean.Basic
import Mathlib.Logic.Function.Iterate
import Mathlib.Order.Monotone.Basic
import Mathlib.Tactic.Linarith

namespace Levels

/-- The levels from `a` on. -/
def level {K : Type} (f : K → K) (a : K) (n : ℕ) : K := f^[n] a

theorem level_succ {K : Type} (f : K → K) (a : K) (n : ℕ) : level f a (n + 1) = f (level f a n) :=
  Function.iterate_succ_apply' f n a

section
variable {K : Type} [Field K] [LinearOrder K] [IsStrictOrderedRing K]

/-- From every level between `a` and `top`, a step stays below the bound and leaves the part `c` of the way
    at most. -/
structure Approaches (f : K → K) (a top bound c : K) : Prop where
  nonneg : 0 ≤ c
  lt_one : c < 1
  top_lt : top < bound
  lt : ∀ x, a ≤ x → x ≤ top → f x < bound
  way : ∀ x, a ≤ x → x ≤ top → bound - f x ≤ c * (bound - x)

variable {f : K → K} {a top bound c : K} {n : ℕ}

namespace Approaches

variable (h : Approaches f a top bound c)
include h

theorem lt_step {x : K} (ha : a ≤ x) (hx : x ≤ top) : x < f x := by
  have hpos : 0 < (1 - c) * (bound - x) := mul_pos (sub_pos.2 h.lt_one) (sub_pos.2 (hx.trans_lt h.top_lt))
  have hway := h.way x ha hx
  linarith

theorem level_bounds (ha : a < bound) (hn : ∀ i < n, level f a i ≤ top) :
    a ≤ level f a n ∧ level f a n < bound := by
  induction n with
  | zero => exact ⟨le_rfl, ha⟩
  | succ n ih =>
    have hle := (ih fun i hi => hn i (hi.trans n.lt_succ_self)).1
    have htop := hn n n.lt_succ_self
    rw [level_succ]
    exact ⟨hle.trans (h.lt_step hle htop).le, h.lt _ hle htop⟩

/-- **The levels ascend.** -/
theorem level_lt (ha : a < bound) {i : ℕ} (hi : i < n) (hn : ∀ i < n, level f a i ≤ top) :
    level f a i < level f a n := by
  induction n with
  | zero => exact absurd hi (Nat.not_lt_zero i)
  | succ n ih =>
    have hbelow : ∀ i < n, level f a i ≤ top := fun i hi => hn i (hi.trans n.lt_succ_self)
    have hstep := h.lt_step (h.level_bounds ha hbelow).1 (hn n n.lt_succ_self)
    rw [level_succ]
    rcases (Nat.lt_succ_iff.1 hi).lt_or_eq with hlt | rfl
    · exact (ih hlt hbelow).trans hstep
    · exact hstep

/-- What is left of the way. -/
theorem way_level (ha : a < bound) (hn : ∀ i < n, level f a i ≤ top) :
    bound - level f a n ≤ c ^ n * (bound - a) := by
  induction n with
  | zero => rw [pow_zero, one_mul]; rfl
  | succ n ih =>
    have hbelow : ∀ i < n, level f a i ≤ top := fun i hi => hn i (hi.trans n.lt_succ_self)
    rw [level_succ]
    calc bound - f (level f a n) ≤ c * (bound - level f a n) :=
          h.way _ (h.level_bounds ha hbelow).1 (hn n n.lt_succ_self)
      _ ≤ c * (c ^ n * (bound - a)) := mul_le_mul_of_nonneg_left (ih hbelow) h.nonneg
      _ = c ^ (n + 1) * (bound - a) := by rw [pow_succ' c n, mul_assoc]

/-- **The top is passed.** -/
theorem exists_lt_level [Archimedean K] (ha : a < bound) : ∃ n, top < level f a n := by
  by_contra hnone
  have hall : ∀ n, level f a n ≤ top := fun n => not_lt.1 fun hn => hnone ⟨n, hn⟩
  have hway : 0 < bound - a := sub_pos.2 ha
  obtain ⟨n, hn⟩ := exists_pow_lt_of_lt_one (div_pos (sub_pos.2 h.top_lt) hway) h.lt_one
  have hlt := (lt_div_iff₀ hway).1 hn
  have hle := h.way_level ha (n := n) fun i _ => hall i
  linarith [hall n]

end Approaches

end

end Levels
