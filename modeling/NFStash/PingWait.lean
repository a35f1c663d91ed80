/-
  The pauses of `nfsping` between two targets.

  Before the first round, `nfsping` adds up the interval of `-i` once for each target, and refuses
  to start when the sum gets to the polling period (`checkWait`).  `pingStart_iff` says when it starts, and how
  long the pauses of a round are then.
-/
import NFStash.PingChecks
import NFStash.PollingPeriod

namespace NFStash

open CLib Loops

/-! ## Model -/

/-- The pauses of a round: one after each target but the last. -/
def roundPauses (waitTime : Timespec) : List Target → List Timespec
  | [] => []
  | _ :: targets =>
    (if targets ≠ [] ∧ Waits waitTime then [waitTime] else []) ++ roundPauses waitTime targets

/-- What `main` does for the times before the first round. -/
def pingStart (s : PingSettings) (targets : List Target) : Except Fault Timespec := do
  let sleepTime ← Command.nfsping.sleepTime s.hertz
  checkWait (ms2ts s.waitTime) sleepTime targets {}

/-- The nanoseconds of all pauses. -/
def pausesNanos (pauses : List Timespec) : ℤ := (pauses.map Timespec.nanos).sum

/-! ## The pauses -/

section
variable {waitTime : Timespec} {targets : List Target}

theorem roundPauses_nanos (hwait : Waits waitTime) (hne : targets ≠ []) :
    pausesNanos (roundPauses waitTime targets) + waitTime.nanos = targets.length * waitTime.nanos := by
  induction targets with
  | nil => exact absurd rfl hne
  | cons t targets ih =>
    rcases eq_or_ne targets [] with rfl | hrest
    · simp [roundPauses, pausesNanos]
    · have hpauses : pausesNanos (roundPauses waitTime (t :: targets)) =
          waitTime.nanos + pausesNanos (roundPauses waitTime targets) := by
        rw [roundPauses, if_pos ⟨hrest, hwait⟩, pausesNanos, List.map_append, List.sum_append]
        simp [pausesNanos]
      rw [hpauses, List.length_cons]
      have := ih hrest
      push_cast
      linarith

theorem roundPauses_zero (hwait : ¬ Waits waitTime) : roundPauses waitTime targets = [] := by
  induction targets with
  | nil => rfl
  | cons t targets ih => rw [roundPauses, if_neg fun h => hwait h.2, ih, List.append_nil]

theorem pingStart_eq {s : PingSettings} (hhertz : s.hertz ≠ 0) :
    pingStart s targets = checkWait (ms2ts s.waitTime) (period s.hertz) targets {} := by
  rw [pingStart, Command.sleepTime_eq hhertz]
  rfl

end

/-- **The pauses of a round.**  `nfsping` starts iff the interval is zero, or one for each target is less
    than the polling period.  The pauses are then less than that, unless there are none, and in any case
    they are less than `1 / hertz` seconds. -/
theorem pingStart_iff (s : PingSettings) (targets : List Target) (hhertz : s.hertz ≠ 0)
    (hne : targets ≠ []) :
    ((∃ sleepy, pingStart s targets = .ok sleepy) ↔ s.waitTime = 0 ∨
      targets.length * (ms2ts s.waitTime).nanos < (period s.hertz).nanos) ∧
    ((∃ sleepy, pingStart s targets = .ok sleepy) →
      (pausesNanos (roundPauses (ms2ts s.waitTime) targets) < (period s.hertz).nanos ∨
        s.waitTime = 0 ∧ roundPauses (ms2ts s.waitTime) targets = []) ∧
      pausesNanos (roundPauses (ms2ts s.waitTime) targets) * s.hertz < 1000000000) := by
  have haccepts : (∃ sleepy, pingStart s targets = .ok sleepy) ↔ s.waitTime = 0 ∨
      targets.length * (ms2ts s.waitTime).nanos < (period s.hertz).nanos := by
    rw [pingStart_eq hhertz]
    exact checkWait_starts hhertz hne
  refine ⟨haccepts, ?_⟩
  intro hstart
  by_cases hwait : s.waitTime = 0
  · have hnone : roundPauses (ms2ts s.waitTime) targets = [] :=
      roundPauses_zero (waits_ms2ts.not.2 (not_not.2 hwait))
    refine ⟨.inr ⟨hwait, hnone⟩, ?_⟩
    rw [hnone]
    simp [pausesNanos]
  · have hlt := (haccepts.1 hstart).resolve_left hwait
    have hsum := roundPauses_nanos (waits_ms2ts.2 hwait) hne
    have hnanos := (ms2ts_nanos s.waitTime).2
    have hpauses : pausesNanos (roundPauses (ms2ts s.waitTime) targets) < (period s.hertz).nanos := by
      omega
    refine ⟨.inl hpauses, ?_⟩
    rw [period_nanos] at hpauses
    calc pausesNanos (roundPauses (ms2ts s.waitTime) targets) * s.hertz
        < (1000000000 / s.hertz : ℕ) * s.hertz :=
          mul_lt_mul_of_pos_right hpauses (Int.natCast_pos.2 (Nat.pos_of_ne_zero hhertz))
      _ ≤ 1000000000 := by exact_mod_cast Nat.div_mul_le_self 1000000000 s.hertz

/-- Three targets with 30 milliseconds between them, at ten Hertz. -/
theorem pingStart_iff_three :
    ((∃ sleepy, pingStart { waitTime := 30 } [{}, {}, {}] = .ok sleepy) ↔ 30 = 0 ∨
      ([{}, {}, {}] : List Target).length * (ms2ts 30).nanos < (period 10).nanos) ∧
    ((∃ sleepy, pingStart { waitTime := 30 } [{}, {}, {}] = .ok sleepy) →
      (pausesNanos (roundPauses (ms2ts 30) [{}, {}, {}]) < (period 10).nanos ∨
        30 = 0 ∧ roundPauses (ms2ts 30) [{}, {}, {}] = []) ∧
      pausesNanos (roundPauses (ms2ts 30) [{}, {}, {}]) * (10 : ℕ) < 1000000000) :=
  pingStart_iff { waitTime := 30 } [{}, {}, {}] (by decide) (by simp)

/-- Above a billion Hertz the period is zero, and no pauses are not less than that. -/
theorem pingStart_zero : (∃ sleepy, pingStart { waitTime := 0, hertz := 1000000001 } [{}] = .ok sleepy) ∧
    ¬ pausesNanos (roundPauses (ms2ts 0) [{}]) < (period 1000000001).nanos :=
  ⟨⟨_, rfl⟩, by decide⟩

end NFStash
