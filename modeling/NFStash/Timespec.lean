/-
  `timespec.h`, and the times that are computed with it.

  The macros work on seconds and nanoseconds.  On normalised times `timespeccmp` compares the nanoseconds
  there are in all (`timespeccmp_gt`, `timespeccmp_ge`), and `timespecadd` and `timespecsub` add and
  subtract them (`timespecadd_nanos`, `timespecsub_nanos`).
-/
import NFStash.Types

namespace NFStash

/-- `struct timespec`. -/
structure Timespec where
  tvSec : ℤ := 0
  tvNsec : ℤ := 0
deriving DecidableEq

/-- The nanoseconds in all. -/
def Timespec.nanos (t : Timespec) : ℤ := t.tvSec * 1000000000 + t.tvNsec

def Timespec.Normalised (t : Timespec) : Prop := 0 ≤ t.tvNsec ∧ t.tvNsec < 1000000000

instance (t : Timespec) : Decidable t.Normalised := inferInstanceAs (Decidable (_ ∧ _))

/-! ## The macros -/

/-- `timespeccmp(tsp, usp, cmp)`. -/
def timespeccmp (tsp usp : Timespec) (cmp : ℤ → ℤ → Bool) : Bool :=
  if tsp.tvSec = usp.tvSec then cmp tsp.tvNsec usp.tvNsec else cmp tsp.tvSec usp.tvSec

/-- `timespecadd(tsp, usp, vsp)`: what `vsp` is set to. -/
def timespecadd (tsp usp : Timespec) : Timespec :=
  let vsp : Timespec := ⟨tsp.tvSec + usp.tvSec, tsp.tvNsec + usp.tvNsec⟩
  if vsp.tvNsec ≥ 1000000000 then ⟨vsp.tvSec + 1, vsp.tvNsec - 1000000000⟩ else vsp

/-- `timespecsub(tsp, usp, vsp)`: what `vsp` is set to. -/
def timespecsub (tsp usp : Timespec) : Timespec :=
  let vsp : Timespec := ⟨tsp.tvSec - usp.tvSec, tsp.tvNsec - usp.tvNsec⟩
  if vsp.tvNsec < 0 then ⟨vsp.tvSec - 1, vsp.tvNsec + 1000000000⟩ else vsp

/-! ## Conversions -/

/-- `ms2ts`. -/
def ms2ts (ms : ℕ) : Timespec where
  tvSec := ms / 1000
  tvNsec := (ms % 1000 : ℕ) * 1000000

/-- A value of type `long`. -/
def IsLong (n : ℤ) : Prop := -2 ^ 63 ≤ n ∧ n < 2 ^ 63

instance (n : ℤ) : Decidable (IsLong n) := inferInstanceAs (Decidable (_ ∧ _))

/-- `ts2us`: the arithmetic is that of `long`, in which an overflow has no result. -/
def ts2us (ts : Timespec) : Option ℕ :=
  let us := ts.tvSec * 1000000
  let us' := us + ts.tvNsec.tdiv 1000
  if IsLong us ∧ IsLong us' then some (us' % 2 ^ 64).toNat else none

/-! ## Periods -/

/-- `1000000000 / hertz`, of unsigned numbers. -/
def nsecPerRound (hertz : ℕ) : Except Fault Timespec :=
  if hertz = 0 then .error .divisionByZero else .ok ⟨0, (1000000000 / hertz : ℕ)⟩

/-- `sleep_time` where a frequency of 1 is a case of its own. -/
def sleepTimeOrOne (hertz : ℕ) : Except Fault Timespec :=
  if hertz = 1 then .ok ⟨1, 0⟩ else nsecPerRound hertz

/-- The period of a frequency of `hertz`. -/
def period (hertz : ℕ) : Timespec := if hertz = 1 then ⟨1, 0⟩ else ⟨0, (1000000000 / hertz : ℕ)⟩

/-! ## Nanoseconds -/

section
variable {a b : Timespec} {hertz : ℕ}

/-- **Comparing** with `>`. -/
theorem timespeccmp_gt (ha : a.Normalised) (hb : b.Normalised) :
    timespeccmp a b (fun m n => m > n) = true ↔ b.nanos < a.nanos := by
  obtain ⟨ha, ha'⟩ := ha
  obtain ⟨hb, hb'⟩ := hb
  unfold timespeccmp Timespec.nanos
  split_ifs with h
  · rw [decide_eq_true_iff]
    omega
  · rw [decide_eq_true_iff]
    omega

/-- **Comparing** with `>=`. -/
theorem timespeccmp_ge (ha : a.Normalised) (hb : b.Normalised) :
    timespeccmp a b (fun m n => m ≥ n) = true ↔ b.nanos ≤ a.nanos := by
  obtain ⟨ha, ha'⟩ := ha
  obtain ⟨hb, hb'⟩ := hb
  unfold timespeccmp Timespec.nanos
  split_ifs with h
  · rw [decide_eq_true_iff]
    omega
  · rw [decide_eq_true_iff]
    omega

/-- **Adding**, with a carry. -/
theorem timespecadd_nanos (ha : a.Normalised) (hb : b.Normalised) :
    (timespecadd a b).Normalised ∧ (timespecadd a b).nanos = a.nanos + b.nanos := by
  obtain ⟨ha, ha'⟩ := ha
  obtain ⟨hb, hb'⟩ := hb
  unfold timespecadd Timespec.Normalised Timespec.nanos
  dsimp only
  split_ifs with h
  · dsimp only
    omega
  · dsimp only
    omega

/-- **Subtracting**, with a borrow. -/
theorem timespecsub_nanos (ha : a.Normalised) (hb : b.Normalised) :
    (timespecsub a b).Normalised ∧ (timespecsub a b).nanos = a.nanos - b.nanos := by
  obtain ⟨ha, ha'⟩ := ha
  obtain ⟨hb, hb'⟩ := hb
  unfold timespecsub Timespec.Normalised Timespec.nanos
  dsimp only
  split_ifs with h
  · dsimp only
    omega
  · dsimp only
    omega

/-- A time that is not negative has no negative part. -/
theorem tvSec_nonneg (ha : a.Normalised) (h : 0 ≤ a.nanos) : 0 ≤ a.tvSec := by
  unfold Timespec.nanos at h
  obtain ⟨ha, ha'⟩ := ha
  omega

/-- Milliseconds, as nanoseconds. -/
theorem ms2ts_nanos (ms : ℕ) : (ms2ts ms).Normalised ∧ (ms2ts ms).nanos = ms * 1000000 := by
  unfold ms2ts Timespec.Normalised Timespec.nanos
  dsimp only
  omega

/-- A period that can be computed. -/
theorem sleepTimeOrOne_eq (hpos : hertz ≠ 0) : sleepTimeOrOne hertz = .ok (period hertz) := by
  unfold sleepTimeOrOne nsecPerRound period
  split_ifs <;> rfl

theorem period_normalised (hpos : hertz ≠ 0) : (period hertz).Normalised := by
  unfold period Timespec.Normalised
  split_ifs with h1
  · simp
  · have hlt : 1000000000 / hertz < 1000000000 := Nat.div_lt_self (by decide) (by omega)
    generalize 1000000000 / hertz = n at hlt ⊢
    exact ⟨Int.natCast_nonneg n, Int.ofNat_lt.2 hlt⟩

theorem period_nanos : (period hertz).nanos = (1000000000 / hertz : ℕ) := by
  unfold period Timespec.nanos
  split_ifs with h1
  · simp [h1]
  · simp

/-- **`ts2us`** rounds down, as long as the microseconds are those of a `long`. -/
theorem ts2us_iff (ha : a.Normalised) (h : 0 ≤ a.nanos) :
    ts2us a = some (a.nanos / 1000).toNat ↔ a.nanos / 1000 < 2 ^ 63 := by
  have hsec := tvSec_nonneg ha h
  have hus : a.tvSec * 1000000 + a.tvNsec.tdiv 1000 = a.nanos / 1000 := by
    rw [Int.tdiv_eq_ediv_of_nonneg ha.1]
    unfold Timespec.nanos
    omega
  have hnonneg : 0 ≤ a.tvNsec.tdiv 1000 := Int.tdiv_nonneg ha.1 (by decide)
  unfold ts2us IsLong
  dsimp only
  rw [hus]
  constructor
  · intro hsome
    split_ifs at hsome with hlong
    exact hlong.2.2
  · intro hlt
    rw [if_pos (by omega), Int.emod_eq_of_lt (by omega) (by omega)]

end

end NFStash
