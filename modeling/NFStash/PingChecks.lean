/-
  The checks of `nfsping` before its first round.

  `main` goes over the targets once: it asks for the length of each name, which a target without one does
  not survive, and adds up the interval of `-i`, which stops the program when the sum gets to the polling
  period.  `checkWait` is the loop as far as it is about the times (`checkTargets_ok`), and `pingSetup_iff` says
  when `main` gets to its first round.
-/
import NFStash.Ping

namespace NFStash

open CLib Loops

/-- The loop over the targets before the first round, for targets with names: it stops the program or
    leaves the sum of the intervals in `sleepy`. -/
def checkWait (waitTime sleepTime : Timespec) : List Target → Timespec → Except Fault Timespec
  | [], sleepy => .ok sleepy
  | _ :: targets, sleepy => do
    let sleepy ← addWait waitTime sleepTime sleepy
    checkWait waitTime sleepTime targets sleepy

/-- `main` gets to its first round with these targets: with a count there will be something to
    output, every target has a name, and the pauses leave time in a round. -/
structure Starts (cfg : PingConfig) (targets : List Target) : Prop where
  interval : cfg.count ≠ 0 → wrap64 (cfg.hertz * cfg.summaryInterval) < cfg.count
  hertz : cfg.hertz ≠ 0
  named : ∀ t ∈ targets, t.displayName ≠ .null
  waits : cfg.waitTime = 0 ∨ targets.length * (ms2ts cfg.waitTime).nanos < (period cfg.hertz).nanos

/-! ## The sum of the intervals -/

section
variable {waitTime sleepTime sleepy r : Timespec} {targets : List Target} {ms : ℕ} {e : Fault}

theorem waits_ms2ts : Waits (ms2ts ms) ↔ ms ≠ 0 := by
  unfold Waits ms2ts
  dsimp only
  omega

theorem addWait_zero (hwait : ¬ Waits waitTime) : addWait waitTime sleepTime sleepy = .ok sleepy :=
  if_neg hwait

theorem addWait_error (h : addWait waitTime sleepTime sleepy = .error e) : e = .exit 3 := by
  unfold addWait at h
  dsimp only at h
  split_ifs at h
  exact (Except.error.inj h).symm

theorem checkWait_zero (hwait : ¬ Waits waitTime) : checkWait waitTime sleepTime targets sleepy = .ok sleepy := by
  induction targets with
  | nil => rfl
  | cons t targets ih =>
    rw [checkWait, addWait_zero hwait]
    exact ih

/-- **The loop** adds an interval for each target, and stops at the first sum that is too large.
    The induction is on the targets, for any sum so far. -/
theorem checkWait_iff (hwait : Waits waitTime) (hnorm : waitTime.Normalised) (hpos : 0 ≤ waitTime.nanos)
    (hsleep : sleepTime.Normalised) (hsleepy : sleepy.Normalised) :
    (∃ r, checkWait waitTime sleepTime targets sleepy = .ok r) ↔
      targets = [] ∨ sleepy.nanos + targets.length * waitTime.nanos < sleepTime.nanos := by
  induction targets generalizing sleepy with
  | nil => exact iff_of_true ⟨sleepy, rfl⟩ (.inl rfl)
  | cons t targets ih =>
    obtain ⟨hadd, hnanos⟩ := timespecadd_nanos hnorm hsleepy
    have hlen : ((t :: targets).length : ℤ) * waitTime.nanos =
        targets.length * waitTime.nanos + waitTime.nanos := by
      rw [List.length_cons]
      push_cast
      ring
    have hrest : 0 ≤ (targets.length : ℤ) * waitTime.nanos := mul_nonneg (Int.natCast_nonneg _) hpos
    have hcmp := timespeccmp_ge hadd hsleep
    rw [checkWait, addWait, if_pos hwait, or_iff_right (List.cons_ne_nil t targets), hlen]
    dsimp only
    split_ifs with hslow
    · have hle := hcmp.1 hslow
      refine iff_of_false ?_ (by omega)
      rintro ⟨r, h⟩
      cases h
    · have hlt : sleepy.nanos + waitTime.nanos < sleepTime.nanos := by
        have := hcmp.not.1 hslow
        omega
      refine (ih hadd).trans ?_
      rw [hnanos]
      constructor
      · rintro (rfl | h)
        · simpa using hlt
        · omega
      · intro h
        exact .inr (by omega)

/-- The start, in terms of the interval and of the frequency. -/
theorem checkWait_starts {hertz : ℕ} (hhertz : hertz ≠ 0) (hne : targets ≠ []) :
    (∃ r, checkWait (ms2ts ms) (period hertz) targets {} = .ok r) ↔
      ms = 0 ∨ targets.length * (ms2ts ms).nanos < (period hertz).nanos := by
  obtain ⟨hnorm, hnanos⟩ := ms2ts_nanos ms
  by_cases hwait : ms = 0
  · exact iff_of_true ⟨{}, checkWait_zero (waits_ms2ts.not.2 (not_not.2 hwait))⟩ (.inl hwait)
  · rw [or_iff_right hwait, checkWait_iff (waits_ms2ts.2 hwait) hnorm (by omega)
      (period_normalised hhertz) (by decide), or_iff_right hne]
    simp [Timespec.nanos]

/-! ## The loop over the targets -/

/-- **The loop** gets through iff all targets have names and the sum stays below the period. -/
theorem checkTargets_ok : checkTargets waitTime sleepTime targets sleepy = .ok r ↔
    (∀ t ∈ targets, t.displayName ≠ .null) ∧ checkWait waitTime sleepTime targets sleepy = .ok r := by
  induction targets generalizing sleepy with
  | nil => simp [checkTargets, checkWait]
  | cons t targets ih =>
    rw [checkTargets, checkWait, List.forall_mem_cons]
    split_ifs with hnull
    · exact iff_of_false (by simp) fun h => h.1.1 hnull
    · rw [bind_eq_ok, bind_eq_ok]
      simp only [ih]
      constructor
      · rintro ⟨s, hadd, hnamed, hrest⟩
        exact ⟨⟨hnull, hnamed⟩, s, hadd, hrest⟩
      · rintro ⟨⟨-, hnamed⟩, s, hadd, hrest⟩
        exact ⟨s, hadd, hnamed, hrest⟩

theorem checkTargets_error (h : checkTargets waitTime sleepTime targets sleepy = .error e) :
    e = .nullDeref ∨ e = .exit 3 := by
  induction targets generalizing sleepy with
  | nil => cases h
  | cons t targets ih =>
    rw [checkTargets] at h
    split_ifs at h
    · exact .inl (Except.error.inj h).symm
    · obtain hadd | ⟨s, -, hrest⟩ := bind_eq_error.1 h
      · exact .inr (addWait_error hadd)
      · exact ih hrest

end

/-! ## The way to the first round -/

section
variable {cfg : PingConfig} {res : Resolver} {args : List CString} {ts : List Target}

/-- What `pingSetup` is, once the targets have been made. -/
theorem pingSetup_eq
    (hts : pingTargets cfg res (if cfg.format = .fping then cfg.count else 0) dummyTargets args = .ok ts) :
    pingSetup cfg res args =
      if cfg.count ≠ 0 ∧ cfg.count ≤ wrap64 (cfg.hertz * cfg.summaryInterval) then .error (.exit 3)
      else sleepTimeOrOne cfg.hertz >>= fun sleepTime =>
        if args = [] then .error (.exit 3)
        else checkTargets (ms2ts cfg.waitTime) sleepTime ts.tail {} >>= fun _ => .ok ts.tail := by
  unfold pingSetup
  simp only [hts]
  rfl

/-- The targets of the first round are those that have been made. -/
theorem pingSetup_ok {us : List Target} (h : pingSetup cfg res args = .ok us) : ∃ ts,
    pingTargets cfg res (if cfg.format = .fping then cfg.count else 0) dummyTargets args = .ok ts ∧
      us = ts.tail := by
  unfold pingSetup at h
  by_cases hinterval : cfg.count ≠ 0 ∧ cfg.count ≤ wrap64 (cfg.hertz * cfg.summaryInterval)
  · rw [if_pos hinterval] at h
    cases h
  · rw [if_neg hinterval] at h
    obtain ⟨sleepTime, -, h⟩ := bind_eq_ok.1 h
    by_cases hargs : args = []
    · rw [if_pos hargs] at h
      cases h
    · rw [if_neg hargs] at h
      obtain ⟨ts, hts, h⟩ := bind_eq_ok.1 h
      obtain ⟨sleepy, -, h⟩ := bind_eq_ok.1 h
      exact ⟨ts, hts, (Except.ok.inj h).symm⟩

/-- The checks accept the targets, or stop the program without an access to an array. -/
theorem pingSetup_cases
    (hts : pingTargets cfg res (if cfg.format = .fping then cfg.count else 0) dummyTargets args = .ok ts) :
    pingSetup cfg res args = .ok ts.tail ∨ ∃ e, pingSetup cfg res args = .error e ∧ e ≠ .outOfBounds := by
  rw [pingSetup_eq hts]
  by_cases hinterval : cfg.count ≠ 0 ∧ cfg.count ≤ wrap64 (cfg.hertz * cfg.summaryInterval)
  · exact .inr ⟨_, if_pos hinterval, by simp⟩
  · rw [if_neg hinterval]
    cases hsleep : sleepTimeOrOne cfg.hertz with
    | error e =>
      unfold sleepTimeOrOne nsecPerRound at hsleep
      split_ifs at hsleep
      obtain rfl := Except.error.inj hsleep
      exact .inr ⟨_, rfl, by simp⟩
    | ok sleepTime =>
      by_cases hargs : args = []
      · exact .inr ⟨_, bind_eq_error.2 (.inr ⟨_, rfl, if_pos hargs⟩), by simp⟩
      · cases hcheck : checkTargets (ms2ts cfg.waitTime) sleepTime ts.tail {} with
        | error e =>
          refine .inr ⟨e, bind_eq_error.2 (.inr ⟨_, rfl, (if_neg hargs).trans ?_⟩), ?_⟩
          · rw [hcheck]
            rfl
          · rcases checkTargets_error hcheck with rfl | rfl
            · simp
            · simp
        | ok sleepy =>
          refine .inl (bind_eq_ok.2 ⟨_, rfl, (if_neg hargs).trans ?_⟩)
          rw [hcheck]
          rfl

/-- Without arguments there are no targets. -/
theorem args_ne_nil {count : ℕ} (hne : ts.tail ≠ [])
    (hts : pingTargets cfg res count dummyTargets args = .ok ts) : args ≠ [] := by
  rintro rfl
  obtain rfl := Except.ok.inj hts
  exact hne rfl

/-- **The first round** is reached iff all checks accept. -/
theorem pingSetup_iff (hne : ts.tail ≠ [])
    (hts : pingTargets cfg res (if cfg.format = .fping then cfg.count else 0) dummyTargets args = .ok ts) :
    pingSetup cfg res args = .ok ts.tail ↔ Starts cfg ts.tail := by
  rw [pingSetup_eq hts]
  simp only [args_ne_nil hne hts, if_false]
  constructor
  · intro h
    split_ifs at h with hinterval
    obtain ⟨sleepTime, hsleep, hrest⟩ := bind_eq_ok.1 h
    obtain ⟨sleepy, hcheck, -⟩ := bind_eq_ok.1 hrest
    have hhertz : cfg.hertz ≠ 0 := by
      intro hzero
      rw [hzero] at hsleep
      cases hsleep
    obtain rfl := Except.ok.inj ((sleepTimeOrOne_eq hhertz).symm.trans hsleep)
    obtain ⟨hnamed, hwait⟩ := checkTargets_ok.1 hcheck
    exact ⟨fun hcount => by omega, hhertz, hnamed, (checkWait_starts hhertz hne).1 ⟨_, hwait⟩⟩
  · rintro ⟨hinterval, hhertz, hnamed, hwait⟩
    obtain ⟨sleepy, hsum⟩ := (checkWait_starts hhertz hne).2 hwait
    rw [if_neg (fun h => absurd (hinterval h.1) (Nat.not_lt.2 h.2)), sleepTimeOrOne_eq hhertz]
    exact bind_eq_ok.2 ⟨_, rfl, bind_eq_ok.2 ⟨sleepy, checkTargets_ok.2 ⟨hnamed, hsum⟩, rfl⟩⟩

end

end NFStash
