/-
  The sleep between two rounds.

  After a round that is followed by another one, `nfsping`, `nfsmount`, `nfsdf` and `nfsls` subtract the time
  the round took from the period, and sleep for the rest if there is one (`roundSleep`).  `timedRound`
  is a round of one of them with its sleep; by `polls_timed` the rounds are the same as without.
-/
import NFStash.Df
import NFStash.PingIntervals
import NFStash.PollingPeriod

namespace NFStash

open CLib Loops

/-! ## Model -/

/-- Two readings of a monotonic clock, one after the other. -/
structure Span where
  start : Timespec
  stop : Timespec
  startNormalised : start.Normalised
  stopNormalised : stop.Normalised
  ordered : start.nanos ≤ stop.nanos

/-- The time between them. -/
def Span.elapsed (span : Span) : Timespec := timespecsub span.stop span.start

/-- The argument of `nanosleep` after a round that took `loopElapsed`, if it is called. -/
def roundSleep (sleepTime loopElapsed : Timespec) : Option Timespec :=
  if timespeccmp loopElapsed sleepTime fun m n => m > n then none
  else some (timespecsub sleepTime loopElapsed)

/-- It sleeps iff the time is not more than the period, and then for the rest of it. -/
structure SleepRight (sleepTime loopElapsed : Timespec) (sleep : Option Timespec) : Prop where
  sleeps : sleep.isSome ↔ loopElapsed.nanos ≤ sleepTime.nanos
  rest : ∀ sleepy, sleep = some sleepy → sleepy.Normalised ∧ 0 ≤ sleepy.tvSec ∧
    loopElapsed.nanos + sleepy.nanos = sleepTime.nanos

section
variable {σ : Type} (round : ℕ → σ → Except Fault σ) (more : σ → Bool) (clock : ℕ → Span)
  (sleepTime : Timespec)

/-- A round, and the sleep after it if there is another one. -/
def timedRound (r : ℕ) (s : σ × List (Option Timespec)) : Except Fault (σ × List (Option Timespec)) := do
  let t ← round r s.1
  .ok (t, if more t then s.2 ++ [roundSleep sleepTime (clock r).elapsed] else s.2)

/-- In every run, the sleeps after the rounds that are followed by another one are right. -/
def SleepsRight : Prop :=
  ∀ n s t sleeps, Polls (timedRound round more clock sleepTime) (fun _ s => more s.1) n (s, []) (t, sleeps) →
    Polls round (fun _ s => more s) n s t ∧ sleeps.length = n ∧ ∀ (r : ℕ) (sleep : Option Timespec),
      sleeps[r]? = some sleep → SleepRight sleepTime (clock r).elapsed sleep

end

/-! ## One round -/

section
variable {sleepTime : Timespec}

/-- **The time between two readings.** -/
theorem Span.elapsed_nanos (span : Span) : span.elapsed.Normalised ∧
    span.elapsed.nanos = span.stop.nanos - span.start.nanos ∧ 0 ≤ span.elapsed.nanos := by
  obtain ⟨hnorm, hnanos⟩ := timespecsub_nanos span.stopNormalised span.startNormalised
  refine ⟨hnorm, hnanos, ?_⟩
  rw [Span.elapsed, hnanos]
  exact sub_nonneg.2 span.ordered

/-- **The sleep after a round.** -/
theorem roundSleep_right (span : Span) (hnorm : sleepTime.Normalised) :
    SleepRight sleepTime span.elapsed (roundSleep sleepTime span.elapsed) := by
  obtain ⟨helapsed, -, -⟩ := span.elapsed_nanos
  obtain ⟨hrest, hnanos⟩ := timespecsub_nanos hnorm helapsed
  have hcmp := timespeccmp_gt helapsed hnorm
  unfold roundSleep
  split_ifs with hslow
  · have hlt := hcmp.1 hslow
    exact ⟨iff_of_false (by simp) (not_le.2 hlt), by simp⟩
  · have hle : span.elapsed.nanos ≤ sleepTime.nanos := not_lt.1 (hcmp.not.1 hslow)
    refine ⟨iff_of_true rfl hle, ?_⟩
    intro sleepy hsleepy
    obtain rfl := Option.some.inj hsleepy
    exact ⟨hrest, tvSec_nonneg hrest (by omega), by omega⟩

/-! ## Runs -/

variable {σ : Type} {round : ℕ → σ → Except Fault σ} {more : σ → Bool} {clock : ℕ → Span}

/-- **A run with its sleeps** is the run without, and there is a sleep for each round. -/
theorem polls_timed {n : ℕ} {s t : σ} {sleeps : List (Option Timespec)} :
    Polls (timedRound round more clock sleepTime) (fun _ s => more s.1) n (s, []) (t, sleeps) ↔
      Polls round (fun _ s => more s) n s t ∧
        sleeps = (List.range n).map fun r => roundSleep sleepTime (clock r).elapsed := by
  induction n generalizing t sleeps with
  | zero => simp [polls_zero, eq_comm]
  | succ n ih =>
    simp only [polls_succ, Prod.exists, ih, List.range_succ, List.map_append, List.map_singleton]
    constructor
    · rintro ⟨u, before, ⟨hu, rfl⟩, hround, hmore⟩
      obtain ⟨t', ht', heq⟩ := bind_eq_ok.1 hround
      obtain ⟨rfl, rfl⟩ := Prod.mk.inj (Except.ok.inj heq)
      exact ⟨⟨u, hu, ht', hmore⟩, if_pos hmore⟩
    · rintro ⟨⟨u, hu, hround, hmore⟩, rfl⟩
      refine ⟨u, _, ⟨hu, rfl⟩, bind_eq_ok.2 ⟨t, hround, ?_⟩, hmore⟩
      rw [if_pos hmore]

theorem sleepsRight_of_normalised (hnorm : sleepTime.Normalised) :
    SleepsRight round more clock sleepTime := by
  intro n s t sleeps h
  obtain ⟨hpolls, rfl⟩ := polls_timed.1 h
  refine ⟨hpolls, by simp, ?_⟩
  intro r sleep hr
  obtain ⟨hlt, rfl⟩ := List.getElem?_eq_some_iff.1 hr
  rw [List.getElem_map, List.getElem_range]
  exact roundSleep_right (clock r) hnorm

end

/-- **Elapsed times and sleeps.**  The time between two readings is normalised, and `ts2us` of it is
    rounded down to microseconds, if these fit a `long`.  With a period that has been computed, the
    sleeps of all four commands are right. -/
theorem sleeps_right (hertz : ℕ) (clock : ℕ → Span) :
    (∀ span : Span, span.elapsed.Normalised ∧
      span.elapsed.nanos = span.stop.nanos - span.start.nanos ∧
      (ts2us span.elapsed = some ((span.stop.nanos - span.start.nanos) / 1000).toNat ↔
        (span.stop.nanos - span.start.nanos) / 1000 < 2 ^ 63)) ∧
    (∀ cfg env t, Command.nfsping.sleepTime hertz = .ok t →
      SleepsRight (pingRound cfg env) (·.more) clock t) ∧
    (∀ cfg env t, Command.nfsmount.sleepTime hertz = .ok t →
      SleepsRight (mountRound cfg env) (·.more) clock t) ∧
    (∀ cfg env t, Command.nfsdf.sleepTime hertz = .ok t →
      SleepsRight (dfRound cfg env) (·.more) clock t) ∧
    ∀ cfg env pages depth t, Command.nfsls.sleepTime hertz = .ok t →
      SleepsRight (lsRound cfg env pages depth) (·.more) clock t := by
  refine ⟨?_, ?_, ?_, ?_, ?_⟩
  · intro span
    obtain ⟨hnorm, hnanos, hnonneg⟩ := span.elapsed_nanos
    rw [← hnanos]
    exact ⟨hnorm, rfl, ts2us_iff hnorm hnonneg⟩
  · exact fun _ _ _ h => sleepsRight_of_normalised (Command.sleepTime_ok h).1
  · exact fun _ _ _ h => sleepsRight_of_normalised (Command.sleepTime_ok h).1
  · exact fun _ _ _ h => sleepsRight_of_normalised (Command.sleepTime_ok h).1
  · exact fun _ _ _ _ _ h => sleepsRight_of_normalised (Command.sleepTime_ok h).1

/-- A round takes 40 milliseconds. -/
def shortRounds (_ : ℕ) : Span where
  start := ⟨7, 980000000⟩
  stop := ⟨8, 20000000⟩
  startNormalised := by decide
  stopNormalised := by decide
  ordered := by decide

/-- Two rounds of `nfsping` at ten Hertz: it sleeps for 60 milliseconds. -/
theorem sleeps_right_ping : ∃ t, Polls (pingRound { count := 2 } answersNone) (fun _ s => s.more) 1
    { targets := [{}] } t ∧ ([some ⟨0, 60000000⟩] : List (Option Timespec)).length = 1 ∧
      ∀ (r : ℕ) (sleep : Option Timespec), [some ⟨0, 60000000⟩][r]? = some sleep →
        SleepRight ⟨0, 100000000⟩ (shortRounds r).elapsed sleep := by
  obtain ⟨t, ht⟩ : ∃ t, Polls (timedRound (pingRound { count := 2 } answersNone) (·.more) shortRounds
      ⟨0, 100000000⟩) (fun _ s => s.1.more) 1 ({ targets := [{}] }, []) (t, [some ⟨0, 60000000⟩]) :=
    ⟨_, polls_succ.2 ⟨_, polls_zero.2 rfl, rfl, rfl⟩⟩
  exact ⟨t, (sleeps_right 10 shortRounds).2.1 { count := 2 } answersNone ⟨0, 100000000⟩ rfl 1 _ t _ ht⟩

/-- Three hundred thousand years are more microseconds than a `long` has room for. -/
theorem ts2us_overflow : ∃ span : Span, span.start = ⟨0, 0⟩ ∧ span.stop = ⟨9223372036855, 0⟩ ∧
    ts2us span.elapsed = none ∧
    ts2us span.elapsed ≠ some ((span.stop.nanos - span.start.nanos) / 1000).toNat :=
  ⟨⟨⟨0, 0⟩, ⟨9223372036855, 0⟩, by decide, by decide, by decide⟩, rfl, rfl, by decide, by decide⟩

end NFStash
