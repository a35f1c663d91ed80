/-
  Counters that wrap around.

  A program counts its requests, and those that succeed, modulo `m`.  `CountsMod.concat` is its update.
  `CountsMod.all_iff`: if there are fewer than `m`, the counters are the same and not 0 iff there are
  requests and all have succeeded; `CountsMod.tells_iff` says when this holds for any number of them.
-/
import Mathlib.Data.Nat.ModEq
import Mathlib.Tactic.Common

namespace Counters

variable {α : Type} {m : ℕ} {p : α → Bool} {done : List α} {sent ok : ℕ}

/-- The counters of the elements of `done`, and of those with `p`. -/
structure CountsMod (m : ℕ) (p : α → Bool) (done : List α) (sent ok : ℕ) : Prop where
  sent : sent = done.length % m
  ok : ok = done.countP p % m

/-- The elements that are not counted as good. -/
def lost (p : α → Bool) (done : List α) : ℕ := done.countP fun a => !p a

theorem length_eq_add_lost : done.length = done.countP p + lost p done := by
  rw [List.length_eq_countP_add_countP p, lost]
  simp

theorem lost_eq_zero_iff : lost p done = 0 ↔ ∀ a ∈ done, p a = true := by
  simp [lost, List.countP_eq_zero]

/-- **The update.** -/
theorem CountsMod.concat (h : CountsMod m p done sent ok) (a : α) :
    CountsMod m p (done ++ [a]) ((sent + 1) % m) (if p a then (ok + 1) % m else ok) := by
  constructor
  · rw [h.sent, Nat.mod_add_mod, List.length_append, List.length_singleton]
  · rw [h.ok, List.countP_append, List.countP_singleton]
    split_ifs
    · rw [Nat.mod_add_mod]
    · rfl

/-- **The comparison.** -/
theorem CountsMod.equal_iff (h : CountsMod m p done sent ok) :
    sent ≠ 0 ∧ sent = ok ↔ ¬ m ∣ done.length ∧ m ∣ lost p done := by
  have hzero : sent = 0 ↔ m ∣ done.length := by
    rw [h.sent, Nat.dvd_iff_mod_eq_zero]
  have hequal : sent = ok ↔ m ∣ lost p done := by
    rw [h.sent, h.ok, length_eq_add_lost (p := p)]
    constructor
    · intro heq
      have hmod : done.countP p + lost p done ≡ done.countP p + 0 [MOD m] := heq
      exact (Nat.modEq_zero_iff_dvd).1 (Nat.ModEq.add_left_cancel' _ hmod)
    · intro hdvd
      exact Nat.ModEq.add_left (done.countP p) ((Nat.modEq_zero_iff_dvd).2 hdvd)
  rw [ne_eq, hzero, hequal]

/-- **What the comparison says**: it is right, unless some multiple of `m` is taken for 0. -/
theorem CountsMod.tells_iff (h : CountsMod m p done sent ok) :
    (sent ≠ 0 ∧ sent = ok ↔ done ≠ [] ∧ ∀ a ∈ done, p a = true) ↔
      if lost p done = 0 then m ∣ done.length → done.length = 0
      else m ∣ lost p done → m ∣ done.length := by
  have hempty : done ≠ [] ↔ done.length ≠ 0 := List.length_eq_zero_iff.not.symm
  rw [h.equal_iff, ← lost_eq_zero_iff, hempty]
  by_cases hlost : lost p done = 0
  · rw [if_pos hlost, hlost]
    simp only [dvd_zero, and_true]
    constructor
    · intro hiff hdvd
      by_contra hne
      exact hiff.2 hne hdvd
    · intro hzero
      exact ⟨fun hdvd hzero' => hdvd (hzero' ▸ dvd_zero _), fun hne hdvd => hne (hzero hdvd)⟩
  · rw [if_neg hlost]
    simp only [hlost, and_false, iff_false, not_and]
    constructor
    · intro hnot hdvd
      by_contra hsent
      exact hnot hsent hdvd
    · intro hdvds hsent hdvd
      exact hsent (hdvds hdvd)

/-- **Few requests** are counted as they are. -/
theorem CountsMod.all_iff (h : CountsMod m p done sent ok) (hlt : done.length < m) :
    sent ≠ 0 ∧ sent = ok ↔ done ≠ [] ∧ ∀ a ∈ done, p a = true := by
  rw [h.tells_iff]
  have hle : lost p done ≤ done.length := List.countP_le_length
  split_ifs with hlost
  · intro hdvd
    exact Nat.eq_zero_of_dvd_of_lt hdvd hlt
  · intro hdvd
    exact absurd (Nat.eq_zero_of_dvd_of_lt hdvd (hle.trans_lt hlt)) hlost

end Counters
