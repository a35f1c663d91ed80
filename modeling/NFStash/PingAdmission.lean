/-
  The check of the interval of `nfsping -Q`.

  A run with a count is refused when its rounds are not more than those of an interval, `-H` times `-Q`;
  a summary comes in every round whose number is a multiple of them.  Both products are those of
  `unsigned long`.  `pingRounds_summarised` says when there is a summary in a run, and
  `pingAdmission_iff` when the check is right.  Only a frequency without a period makes the product wrap to 0,
  and where there are pauses between the targets such a frequency does not get to a round.
-/
import NFStash.PingIntervals
import NFStash.PingWait

namespace NFStash

open CLib Loops

/-! ## Summaries in a run -/

/-- There is an interval summary. -/
def Summarised (tr : List PingEvent) : Prop := ∃ t, .interval t ∈ tr

section
variable {cfg : PingConfig} {env : PingEnv} {r j : ℕ} {t t' : Target} {run run' : PingRun}
  {status : Option ℕ} {s s' : PingState}

/-- Events without a summary, and the number of the round kept. -/
structure Unsummarised (run run' : PingRun) : Prop where
  loopCount : run'.loopCount = run.loopCount
  trace : Summarised run'.trace ↔ Summarised run.trace

theorem summarised_append {tr tr' : List PingEvent} :
    Summarised (tr ++ tr') ↔ Summarised tr ∨ Summarised tr' := by
  simp [Summarised, List.mem_append, exists_or]

theorem Unsummarised.trans {run'' : PingRun} (h : Unsummarised run run') (h' : Unsummarised run' run'') :
    Unsummarised run run'' := ⟨h'.loopCount.trans h.loopCount, h'.trace.trans h.trace⟩

/-- Events are appended. -/
theorem unsummarised_append {tr : List PingEvent} (hloop : run'.loopCount = run.loopCount)
    (htrace : run'.trace = run.trace ++ tr) (h : ¬ Summarised tr) : Unsummarised run run' :=
  ⟨hloop, by rw [htrace, summarised_append, or_iff_left h]⟩

theorem pingConnect_unsummarised (env : PingEnv) (j : ℕ) (t : Target) (run : PingRun) :
    Unsummarised run (pingConnect env j t run).2 := by
  unfold pingConnect
  split_ifs
  · exact ⟨rfl, Iff.rfl⟩
  · exact unsummarised_append rfl rfl (by simp [Summarised])

theorem pingOutcome_unsummarised (h : pingOutcome cfg env status t run = .ok (t', run')) :
    Unsummarised run run' := by
  cases status with
  | some us =>
    obtain ⟨u, -, h⟩ := bind_eq_ok.1 h
    obtain ⟨-, rfl⟩ := Prod.mk.inj (Except.ok.inj h)
    refine unsummarised_append rfl rfl ?_
    split_ifs <;> simp [Summarised]
  | none =>
    have hfail : (pingFailure env t run).2 = run' := congrArg Prod.snd (Except.ok.inj h)
    rw [← hfail]
    unfold pingFailure
    split_ifs
    · exact unsummarised_append rfl (List.append_assoc ..) (by simp [Summarised])
    · exact unsummarised_append rfl rfl (by simp [Summarised])

/-- A summary is printed iff it is due. -/
theorem pingInterval_due (h : pingInterval cfg t run = .ok (t', run')) :
    run'.loopCount = run.loopCount ∧
      (Summarised run'.trace ↔ Summarised run.trace ∨ Due cfg run.loopCount) := by
  unfold pingInterval at h
  dsimp only at h
  split_ifs at h with hnone hzero hdue
  · obtain ⟨-, rfl⟩ := Prod.mk.inj (Except.ok.inj h)
    exact ⟨rfl, by simp [Due, hnone]⟩
  · obtain ⟨-, rfl⟩ := Prod.mk.inj (Except.ok.inj h)
    have hyes : Due cfg run.loopCount := ⟨hnone, hdue⟩
    refine ⟨rfl, ?_⟩
    rw [summarised_append]
    exact iff_of_true (.inr ⟨t, List.mem_singleton.2 rfl⟩) (.inr hyes)
  · obtain ⟨-, rfl⟩ := Prod.mk.inj (Except.ok.inj h)
    have hno : ¬ Due cfg run.loopCount := fun hd => hdue hd.2
    exact ⟨rfl, (or_iff_left hno).symm⟩

/-- **One turn.** -/
theorem pingTarget_summarised (h : pingTarget cfg env r j t run = .ok (t', run')) :
    run'.loopCount = run.loopCount ∧
      (Summarised run'.trace ↔ Summarised run.trace ∨ Due cfg run.loopCount) := by
  obtain ⟨t₁, run₁, t₂, run₂, t₃, hconnect, houtcome, hinterval, -⟩ := pingTarget_ok.1 h
  have hconnected := pingConnect_unsummarised env j t run
  rw [hconnect] at hconnected
  have hping : Unsummarised run₁ { run₁ with
      totalSent := wrap64 (run₁.totalSent + 1)
      trace := run₁.trace ++ [.ping r j (pingStatus env t₁ run₁)] } :=
    unsummarised_append rfl rfl (by simp [Summarised])
  have hquiet := (hconnected.trans hping).trans (pingOutcome_unsummarised houtcome)
  obtain ⟨hloop, htrace⟩ := pingInterval_due hinterval
  rw [hloop, htrace, hquiet.loopCount, hquiet.trace]
  exact ⟨rfl, Iff.rfl⟩

/-- **One round**, with a target. -/
theorem pingRound_summarised (hne : s.targets ≠ []) (h : pingRound cfg env r s = .ok s') :
    s'.targets ≠ [] ∧ s'.loopCount = wrap64 (s.loopCount + 1) ∧
      (Summarised s'.trace ↔ Summarised s.trace ∨ Due cfg (wrap64 (s.loopCount + 1))) := by
  obtain ⟨⟨targets, run⟩, hw, h⟩ := bind_eq_ok.1 h
  obtain rfl := Except.ok.inj h
  have hlen := walk_length hw
  have hrun := (walk_spec (P := fun k u => PingRun.loopCount u = wrap64 (s.loopCount + 1) ∧
    (Summarised (PingRun.trace u) ↔
      Summarised s.trace ∨ 0 < k ∧ Due cfg (wrap64 (s.loopCount + 1)))) ?_ ⟨rfl, by simp⟩ hw).1
  · have hpos : 0 < s.targets.length := List.length_pos_iff.2 hne
    refine ⟨List.length_pos_iff.1 (hlen ▸ hpos), hrun.1, ?_⟩
    rw [hrun.2, and_iff_right hpos]
  · rintro k t u t' u' - ⟨hloop, htrace⟩ hstep
    obtain ⟨hloop', htrace'⟩ := pingTarget_summarised hstep
    rw [hloop', htrace', htrace, hloop]
    refine ⟨rfl, ?_⟩
    simp only [Nat.succ_pos, true_and]
    tauto

/-- **Any number of rounds**: there is a summary iff one was due. -/
theorem pingRounds_summarised {n : ℕ} {targets : List Target} (hne : targets ≠ []) (hn : n < 2 ^ 64)
    (h : rounds (pingRound cfg env) n 0 { targets } = .ok s) :
    Summarised s.trace ↔ ∃ k < n, Due cfg (k + 1) := by
  suffices hall : s.targets ≠ [] ∧ s.loopCount = n ∧ (Summarised s.trace ↔ ∃ k < n, Due cfg (k + 1)) from
    hall.2.2
  refine rounds_inv (P := fun k s => s.targets ≠ [] ∧ s.loopCount = k ∧
    (Summarised s.trace ↔ ∃ i < k, Due cfg (i + 1))) ?_ ⟨hne, rfl, by simp [Summarised]⟩ h
  rintro k u u' hk ⟨htargets, hloop, htrace⟩ hround
  obtain ⟨htargets', hloop', htrace'⟩ := pingRound_summarised htargets hround
  have hwrap : wrap64 (u.loopCount + 1) = k + 1 := by
    rw [hloop]
    exact Nat.mod_eq_of_lt (by omega)
  rw [hwrap] at hloop' htrace'
  refine ⟨htargets', hloop', ?_⟩
  rw [htrace', htrace]
  simp only [Nat.lt_succ_iff_lt_or_eq, or_and_right, exists_or, exists_eq_left]

theorem pingStatus_unanswered (t : Target) (run : PingRun) : pingStatus answersNone t run = none := by
  unfold pingStatus
  split_ifs <;> rfl

theorem pingTarget_unanswered (hp : PeriodOk cfg) (r j : ℕ) (t : Target) (run : PingRun) :
    ∃ t' run', pingTarget cfg answersNone r j t run = .ok (t', run') := by
  obtain ⟨t₁, run₁, hconnect, -⟩ := pingConnect_turn answersNone j t run
  obtain ⟨⟨t₂, run₂⟩, hfail⟩ : ∃ p, pingFailure answersNone { t₁ with sent := wrap32 (t₁.sent + 1) }
    { run₁ with
      totalSent := wrap64 (run₁.totalSent + 1)
      trace := run₁.trace ++ [.ping r j none] } = p := ⟨_, rfl⟩
  obtain ⟨t₃, run₃, hinterval, -⟩ := pingInterval_turn hp t₂ run₂
  refine ⟨_, run₃, pingTarget_ok.2 ⟨t₁, run₁, t₂, run₂, t₃, hconnect, ?_, hinterval, rfl⟩⟩
  rw [pingStatus_unanswered]
  exact congrArg Except.ok hfail

/-- Rounds without an answer complete. -/
theorem pingRounds_unanswered (hp : PeriodOk cfg) (n : ℕ) (targets : List Target) :
    ∃ s, rounds (pingRound cfg answersNone) n 0 { targets } = .ok s := by
  have hround : ∀ r s, ∃ s', pingRound cfg answersNone r s = .ok s' := by
    intro r s
    have hwalk : ∃ ts run, walk (pingTarget cfg answersNone r) 0 s.targets
        { s.toPingRun with loopCount := wrap64 (s.loopCount + 1) } = .ok (ts, run) ∧ True :=
      walk_total (P := fun _ _ => True) (fun j t run _ _ => by
        obtain ⟨t', run', h⟩ := pingTarget_unanswered hp r (0 + j) t run
        exact ⟨t', run', h, trivial⟩) trivial
    obtain ⟨ts, run, hw, -⟩ := hwalk
    exact ⟨_, bind_eq_ok.2 ⟨(ts, run), hw, rfl⟩⟩
  have htotal : ∃ s, rounds (pingRound cfg answersNone) n 0 { targets } = .ok s ∧ True :=
    rounds_total (P := fun _ _ => True) (fun k s _ _ => by
      obtain ⟨s', hs'⟩ := hround (0 + k) s
      exact ⟨s', hs', trivial⟩) trivial
  obtain ⟨s, hs, -⟩ := htotal
  exact ⟨s, hs⟩

end

/-! ## The check -/

/-- No interval summary is printed in the rounds of a count, in any run that is not interrupted. -/
def NoSummary (s : PingSettings) : Prop :=
  ∀ env targets st, targets ≠ [] → rounds (pingRound s.config env) s.count 0 { targets } = .ok st →
    ¬ Summarised st.trace

/-- The check is right: with a count, options are refused iff there would be no summary, and a run
    that gets to its first round has a period that is not 0. -/
structure AdmissionRight (opts : List PingOption) (s : PingSettings) : Prop where
  refused : s.count ≠ 0 → ((∃ e, pingOptions opts = .error e) ↔ NoSummary s)
  period : ∀ s' targets sleepy, pingOptions opts = .ok s' → targets ≠ [] →
    pingStart s' targets = .ok sleepy → summaryPeriod s'.config ≠ 0

section
variable {opts : List PingOption} {s : PingSettings}

/-- The check, of options that have been read. -/
theorem pingOptions_eq (h : readOptions pingOption opts {} = .ok s) : pingOptions opts =
    if s.count ≠ 0 ∧ s.count ≤ summaryPeriod s.config then
      .error (.fatal "Interval (-Q) too small for count!\n")
    else .ok s.defaults := by
  unfold pingOptions
  rw [h]
  rfl

theorem pingOptions_refused (h : readOptions pingOption opts {} = .ok s) :
    (∃ e, pingOptions opts = .error e) ↔ s.count ≠ 0 ∧ s.count ≤ summaryPeriod s.config := by
  rw [pingOptions_eq h]
  split_ifs with hsmall
  · exact iff_of_true ⟨_, rfl⟩ hsmall
  · exact iff_of_false (by simp) hsmall

/-- **There is a summary** in the rounds of a count iff they are not less than the period. -/
theorem noSummary_iff (hcount : s.count < 2 ^ 64) (hinterval : s.summaryInterval ≠ 0)
    (hperiod : summaryPeriod s.config ≠ 0) : NoSummary s ↔ s.count < summaryPeriod s.config := by
  have hp : PeriodOk s.config := .inr hperiod
  have hdue : ∀ k, Due s.config (k + 1) ↔ summaryPeriod s.config ∣ k + 1 := by
    intro k
    rw [Due, and_iff_right (show s.config.summaryInterval ≠ 0 from hinterval), Nat.dvd_iff_mod_eq_zero]
  constructor
  · intro hno
    by_contra hle
    obtain ⟨st, hst⟩ := pingRounds_unanswered hp s.count [{}]
    refine hno answersNone [{}] st (by simp) hst ((pingRounds_summarised (by simp) hcount hst).2 ?_)
    refine ⟨summaryPeriod s.config - 1, by omega, (hdue _).2 ?_⟩
    rw [Nat.sub_add_cancel (Nat.pos_of_ne_zero hperiod)]
  · intro hlt env targets st hne hst hsum
    obtain ⟨k, hk, hd⟩ := (pingRounds_summarised hne hcount hst).1 hsum
    have hle := Nat.le_of_dvd (Nat.succ_pos k) ((hdue k).1 hd)
    omega

/-- A period of 0 is divided by in the first round. -/
theorem noSummary_zero (hcount : s.count ≠ 0) (hinterval : s.summaryInterval ≠ 0)
    (hperiod : summaryPeriod s.config = 0) : NoSummary s := by
  intro env targets st hne hst _
  obtain ⟨n, hn⟩ := Nat.exists_eq_succ_of_ne_zero hcount
  rw [hn] at hst
  obtain ⟨st₁, hround, -⟩ := rounds_succ_eq_ok.1 hst
  obtain ⟨⟨ts, run⟩, hwalk, -⟩ := bind_eq_ok.1 hround
  obtain ⟨t, targets, rfl⟩ := List.exists_cons_of_ne_nil hne
  obtain ⟨t', run', -, hturn, -⟩ := walk_cons.1 hwalk
  obtain ⟨-, -, t₂, run₂, t₃, -, -, hinterval', -⟩ := pingTarget_ok.1 hturn
  unfold pingInterval at hinterval'
  rw [if_neg (show s.config.summaryInterval ≠ 0 from hinterval)] at hinterval'
  exact absurd ((if_pos hperiod).symm.trans hinterval') (by simp)

/-- A product that wraps to 0 has a frequency without a period. -/
theorem hertz_of_wrap {hertz interval : ℕ} (hhertz : hertz ≠ 0) (hinterval : interval ≠ 0)
    (hlt : interval < 2 ^ 32) (h : wrap64 (hertz * interval) = 0) : 1000000000 < hertz := by
  have hle : 2 ^ 64 ≤ hertz * interval :=
    Nat.le_of_dvd (Nat.mul_pos (Nat.pos_of_ne_zero hhertz) (Nat.pos_of_ne_zero hinterval))
      (Nat.dvd_of_mod_eq_zero h)
  by_contra hslow
  have hmul : hertz * interval ≤ 1000000000 * 2 ^ 32 := Nat.mul_le_mul (Nat.not_lt.1 hslow) hlt.le
  omega

end

end NFStash
