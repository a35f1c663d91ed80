/-
  Response times.

  A target, a filehandle and an export keep the least, the greatest and the mean time of their
  replies (`KeepsTimes`), without the times themselves.  `Folded w` says what the updates make of them
  with a counter of `w` bits, if the minimum starts from the largest value: `Folded.time` is one more
  time, and by `Folded.keeps_iff` the times are kept as long as the counter has not wrapped.
-/
import NFStash.Lib.Running
import NFStash.Types

namespace NFStash

open Running

/-- The least, the greatest and the mean of these times. -/
structure KeepsTimes (times : List ℕ) (s : Stats) : Prop where
  min : IsLeast {t | t ∈ times} s.min
  max : IsGreatest {t | t ∈ times} s.max
  avg : s.avg = some (mean (times.map fun t : ℕ => (t : ℚ)))

/-- What is made of these times with a counter of `w` bits. -/
structure Folded (w : ℕ) (times : List ℕ) (s : Stats) : Prop where
  min : s.min = least ULONG_MAX times
  max : s.max = greatest 0 times
  avg : s.avg =
    if times.length < 2 ^ w then some (mean (times.map fun t : ℕ => (t : ℚ))) else none

/-- The loss in percent from counters of `w` bits, as `nfsping` and `nfsls` compute it with a floating
    divisor; `none` is no number. -/
def lossPercent (w sent received : ℕ) : Option ℚ :=
  if sent = 0 then none else some (((sent + 2 ^ w - received) % 2 ^ w : ℕ) / sent * 100)

section
variable {w : ℕ} {times : List ℕ} {s : Stats}

/-- The average of one more time, in the arithmetic of the counter. -/
theorem runningAvg_mean (w : ℕ) (times : List ℕ) (usec : ℕ) :
    runningAvg w (if times.length < 2 ^ w then some (mean (times.map fun t : ℕ => (t : ℚ))) else none)
        ((times.length % 2 ^ w + 1) % 2 ^ w) usec =
      if (times ++ [usec]).length < 2 ^ w then some (mean ((times ++ [usec]).map fun t : ℕ => (t : ℚ)))
      else none := by
  have hpos : 0 < 2 ^ w := Nat.two_pow_pos w
  rw [Nat.mod_add_mod, List.length_append, List.length_singleton]
  unfold runningAvg
  rcases lt_trichotomy (times.length + 1) (2 ^ w) with hlt | heq | hgt
  · have hpred : (times.length + 1 + 2 ^ w - 1) % 2 ^ w = times.length := by
      rw [show times.length + 1 + 2 ^ w - 1 = times.length + 2 ^ w by omega, Nat.add_mod_right,
        Nat.mod_eq_of_lt (by omega)]
    rw [Nat.mod_eq_of_lt hlt, hpred, if_neg (Nat.succ_ne_zero _), if_pos (by omega), if_pos hlt,
      Option.map_some, List.map_append, List.map_singleton, mean_concat, List.length_map, Nat.cast_add,
      Nat.cast_one]
  · rw [heq, Nat.mod_self, if_pos rfl, if_neg (lt_irrefl _)]
  · rw [if_neg (show ¬ times.length < 2 ^ w by omega), if_neg (show ¬ times.length + 1 < 2 ^ w by omega)]
    split_ifs <;> rfl

theorem folded_nil (hmin : s.min = ULONG_MAX) (hmax : s.max = 0) (havg : s.avg = some 0) :
    Folded w [] s := by
  refine ⟨hmin, hmax, ?_⟩
  simp [havg]

/-- **One more time.** -/
theorem Folded.time {s' : Stats} (h : Folded w times s) (usec : ℕ)
    (hmin : s'.min = if usec < s.min then usec else s.min)
    (hmax : s'.max = if usec > s.max then usec else s.max)
    (havg : s'.avg = runningAvg w s.avg ((times.length % 2 ^ w + 1) % 2 ^ w) usec) :
    Folded w (times ++ [usec]) s' := by
  refine ⟨?_, ?_, ?_⟩
  · rw [hmin, h.min, least_concat]
  · rw [hmax, h.max, greatest_concat]
  · rw [havg, h.avg, runningAvg_mean]

/-- **The times are kept** iff their number fits the counter. -/
theorem Folded.keeps_iff (h : Folded w times s) (hne : times ≠ []) (hle : ∀ t ∈ times, t ≤ ULONG_MAX) :
    KeepsTimes times s ↔ times.length < 2 ^ w := by
  obtain ⟨t, ht⟩ := List.exists_mem_of_ne_nil times hne
  constructor
  · intro hk
    by_contra hlen
    have havg := hk.avg
    rw [h.avg, if_neg hlen] at havg
    cases havg
  · intro hlen
    refine ⟨?_, ?_, by rw [h.avg, if_pos hlen]⟩
    · rw [h.min]
      exact isLeast_least_iff.2 ⟨t, ht, hle t ht⟩
    · rw [h.max]
      exact isGreatest_greatest_iff.2 ⟨t, ht, Nat.zero_le t⟩

end

end NFStash
