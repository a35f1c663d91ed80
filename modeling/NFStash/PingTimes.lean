/-
  The response times of `nfsping`.

  Two formats print times that are kept in the target, `fping` and `unixtime`; but only for `fping` the
  answers change them.  `timesAt` are the times of the answers since the last interval summary of a
  target, `PingTimed` is what the target makes of them, and `pingTarget_timed` is one turn.
  `pingLines_iff` says which lines are right.
-/
import NFStash.PingSummary
import NFStash.Times

namespace NFStash

open CLib Loops Running

/-! ## Lines -/

/-- The line `print_result` prints, with the values in it. -/
inductive ResultLine where
  /-- the number of the ping, its time, the average and the loss -/
  | averaged (seq us : ℕ) (avg loss : Option ℚ)
  /-- the time, and the histogram that the other columns are taken from -/
  | histogram (us : ℕ) (histogram : List ℕ)
  | usec (us : ℕ)
  | ms (us : ℕ)

/-- `print_result`. -/
def printResult (format : PingFormat) (target : Target) (us : ℕ) : ResultLine :=
  match format with
  | .unixtime | .fping =>
    .averaged (wrap32 (target.sent + (2 ^ 32 - 1))) us target.avg
      (lossPercent 32 target.sent target.received)
  | .ping => .histogram us target.intervalHistogram
  | .graphite => .usec us
  | .statsd => .ms us

/-- The average that is printed. -/
def ResultLine.avg? : ResultLine → Option (Option ℚ)
  | .averaged _ _ avg _ => some avg
  | _ => none

/-- The minimum, average and maximum that are printed. -/
def IntervalLine.times? : IntervalLine → Option (ℕ × Option ℚ × ℕ)
  | .xmtRcvLoss _ _ _ times => times
  | _ => none

/-- What is known of the times in a trace: the place of the last ping, and for each place the times of
    the answers since its last interval summary. -/
structure TimeScan where
  place : ℕ := 0
  times : ℕ → List ℕ := fun _ => []

def TimeScan.event (s : TimeScan) : PingEvent → TimeScan
  | .ping _ j status => { place := j, times := Function.update s.times j (s.times j ++ status.toList) }
  | .interval _ => { s with times := Function.update s.times s.place [] }
  | _ => s

def timeScan (tr : List PingEvent) : TimeScan := tr.foldl TimeScan.event {}

/-- The place that was pinged last. -/
def lastPlace (tr : List PingEvent) : ℕ := (timeScan tr).place

/-- The times of the answers of the target at place `j` since its last interval summary. -/
def timesAt (j : ℕ) (tr : List PingEvent) : List ℕ := (timeScan tr).times j

/-- The times in what is printed are those of these answers. -/
def LineRight (format : PingFormat) (times : List ℕ) : PingEvent → Prop
  | .result t us => ∀ avg, (printResult format t us).avg? = some avg →
    avg = some (mean (times.map fun t : ℕ => (t : ℚ)))
  | .interval t => ∀ line ∈ printInterval format t, ∀ min avg max, line.times? = some (min, avg, max) →
    KeepsTimes times { min, avg, max }
  | _ => True

/-- The condition on the answers: no more than the counter holds, and all of them at once in
    `unixtime` format. -/
def LineOk (format : PingFormat) (times : List ℕ) : PingEvent → Prop
  | .result _ _ => match format with
    | .fping => times.length < 2 ^ 32
    | .unixtime => ∀ t ∈ times, t = 0
    | _ => True
  | .interval _ => match format with
    | .fping => times.length < 2 ^ 32 ∨ times.length % 2 ^ 32 = 0
    | .unixtime => times.length % 2 ^ 32 = 0
    | _ => True
  | _ => True

/-- An event that is right iff the condition holds of the answers before it. -/
def LineIff (format : PingFormat) (tr : List PingEvent) (ev : PingEvent) : Prop :=
  LineRight format (timesAt (lastPlace tr) tr) ev ↔ LineOk format (timesAt (lastPlace tr) tr) ev

def LinesIff (format : PingFormat) (tr : List PingEvent) : Prop :=
  ∀ tr' ev rest, tr = tr' ++ ev :: rest → LineIff format tr' ev

/-- What a target makes of the times since its last interval summary. -/
structure PingTimed (format : PingFormat) (times : List ℕ) (s : Stats) : Prop where
  received : s.received = wrap32 times.length
  folded : format = .fping → Folded 32 times s
  start : format ≠ .fping → s.min = ULONG_MAX ∧ s.max = 0 ∧ s.avg = some 0
  le : ∀ t ∈ times, t ≤ ULONG_MAX

section
variable {cfg : PingConfig} {env : PingEnv} {format : PingFormat} {r j k us : ℕ} {times : List ℕ}
  {t t' : Target} {s s' : Stats} {run run' : PingRun} {tr tr' : List PingEvent} {ev : PingEvent}
  {status : Option ℕ}

theorem timeScan_concat : timeScan (tr ++ [ev]) = (timeScan tr).event ev := List.foldl_concat ..

theorem timesAt_ping : timesAt k (tr ++ [.ping r j status]) =
    if k = j then timesAt j tr ++ status.toList else timesAt k tr := by
  rw [timesAt, timeScan_concat]
  exact Function.update_apply ..

theorem lastPlace_ping : lastPlace (tr ++ [.ping r j status]) = j := by
  rw [lastPlace, timeScan_concat]
  rfl

theorem timesAt_interval :
    timesAt k (tr ++ [.interval t]) = if k = lastPlace tr then [] else timesAt k tr := by
  rw [timesAt, timeScan_concat]
  exact Function.update_apply ..

theorem linesIff_concat : LinesIff format (tr ++ [ev]) ↔ LinesIff format tr ∧ LineIff format tr ev := by
  constructor
  · intro h
    refine ⟨fun tr' ev' rest heq => h tr' ev' (rest ++ [ev]) ?_, h tr ev [] rfl⟩
    rw [heq, List.append_assoc, List.cons_append]
  · rintro ⟨hlines, hline⟩ tr' ev' rest heq
    rcases List.eq_nil_or_concat rest with rfl | ⟨rest, last, rfl⟩
    · obtain ⟨rfl, hev⟩ := List.append_inj' heq rfl
      obtain rfl := List.singleton_inj.1 hev
      exact hline
    · rw [List.concat_eq_append, ← List.cons_append, ← List.append_assoc] at heq
      obtain ⟨rfl, -⟩ := List.append_inj' heq rfl
      exact hlines tr' ev' rest rfl

/-! ## What is printed -/

theorem mean_times_iff : mean (times.map fun t : ℕ => (t : ℚ)) = 0 ↔ ∀ t ∈ times, t = 0 := by
  rw [mean_eq_zero_iff, List.forall_mem_map]
  · simp only [Nat.cast_eq_zero]
  · rw [List.forall_mem_map]
    exact fun t _ => Nat.cast_nonneg t

theorem lineIff_result (h : PingTimed format times t.toStats) :
    LineRight format times (.result t us) ↔ LineOk format times (.result t us) := by
  have hmean : (∀ avg, some t.avg = some avg → avg = some (mean (times.map fun t : ℕ => (t : ℚ)))) ↔
      t.avg = some (mean (times.map fun t : ℕ => (t : ℚ))) :=
    ⟨fun hall => hall _ rfl, fun havg avg heq => (Option.some.inj heq).symm.trans havg⟩
  cases format with
  | fping =>
    refine hmean.trans ?_
    rw [(h.folded rfl).avg, LineOk]
    split_ifs with hlen
    · exact iff_of_true rfl hlen
    · exact iff_of_false id hlen
  | unixtime =>
    refine hmean.trans ?_
    rw [(h.start (by decide)).2.2, Option.some_inj, eq_comm, mean_times_iff, LineOk]
  | ping => exact iff_of_true (fun avg heq => by cases heq) trivial
  | graphite => exact iff_of_true (fun avg heq => by cases heq) trivial
  | statsd => exact iff_of_true (fun avg heq => by cases heq) trivial

/-- A line with times, which is printed if there has been an answer. -/
theorem lineRight_interval (hformat : format = .fping ∨ format = .unixtime) :
    LineRight format times (.interval t) ↔ (t.received ≠ 0 → KeepsTimes times t.toStats) := by
  have hline : printInterval format t = [.xmtRcvLoss t.sent t.received
      (wrap32 (t.sent + (2 ^ 32 - t.received)))
      (if t.received ≠ 0 then some (t.min, t.avg, t.max) else none)] := by
    rcases hformat with rfl | rfl
    · rfl
    · rfl
  simp only [LineRight, hline, List.mem_singleton, forall_eq, IntervalLine.times?]
  constructor
  · intro hall hne
    have hkeeps := hall t.min t.avg t.max (if_pos hne)
    exact ⟨hkeeps.min, hkeeps.max, hkeeps.avg⟩
  · intro hkeeps min avg max heq
    split_ifs at heq with hne
    obtain ⟨rfl, havg⟩ := Prod.mk.inj (Option.some.inj heq)
    obtain ⟨rfl, rfl⟩ := Prod.mk.inj havg
    exact ⟨(hkeeps hne).min, (hkeeps hne).max, (hkeeps hne).avg⟩

/-- The other formats print the histogram, or no times. -/
theorem lineRight_none (hfping : format ≠ .fping) (hunix : format ≠ .unixtime) :
    LineRight format times (.interval t) := by
  have hnone : ∀ line ∈ printInterval format t, line.times? = none := by
    cases format with
    | fping => exact absurd rfl hfping
    | unixtime => exact absurd rfl hunix
    | ping =>
      unfold printInterval
      split_ifs <;> simp [IntervalLine.times?]
    | graphite =>
      simp only [printInterval, List.cons_append, List.forall_mem_cons, List.forall_mem_append]
      split_ifs <;> simp [IntervalLine.times?]
    | statsd =>
      simp only [printInterval, List.forall_mem_cons]
      split_ifs <;> simp [IntervalLine.times?]
  intro line hline min avg max heq
  rw [hnone line hline] at heq
  cases heq

theorem lineIff_interval (h : PingTimed format times t.toStats) :
    LineRight format times (.interval t) ↔ LineOk format times (.interval t) := by
  have hreceived : t.received ≠ 0 ↔ ¬ times.length % 2 ^ 32 = 0 := by
    rw [h.received]
    rfl
  have hne : ¬ times.length % 2 ^ 32 = 0 → times ≠ [] := by
    rintro hlen rfl
    exact hlen rfl
  cases format with
  | fping =>
    rw [lineRight_interval (.inl rfl), hreceived, LineOk, or_comm, or_iff_not_imp_left]
    exact forall_congr' fun hlen => (h.folded rfl).keeps_iff (hne hlen) h.le
  | unixtime =>
    rw [lineRight_interval (.inr rfl), hreceived, LineOk]
    -- the minimum and the maximum are those of `init_target`
    refine ⟨fun hkeeps => ?_, fun hlen hlen' => absurd hlen hlen'⟩
    by_contra hlen
    obtain ⟨hmin, hmax, -⟩ := h.start (by decide)
    have hle : t.min ≤ t.max := (hkeeps hlen).min.2 (hkeeps hlen).max.1
    rw [hmin, hmax] at hle
    exact absurd hle (by decide)
  | ping => exact iff_of_true (lineRight_none (by decide) (by decide)) trivial
  | graphite => exact iff_of_true (lineRight_none (by decide) (by decide)) trivial
  | statsd => exact iff_of_true (lineRight_none (by decide) (by decide)) trivial

/-! ## One turn -/

/-- An event without a line, after which the times are what they were. -/
structure Timeless (format : PingFormat) (ev : PingEvent) : Prop where
  scan : ∀ s : TimeScan, s.event ev = s
  line : ∀ tr, LineIff format tr ev

theorem timeless_connect (format : PingFormat) (j : ℕ) (ok : Bool) : Timeless format (.connect j ok) :=
  ⟨fun _ => rfl, fun _ => Iff.rfl⟩

theorem timeless_lost (format : PingFormat) (t : Target) : Timeless format (.lost t) :=
  ⟨fun _ => rfl, fun _ => Iff.rfl⟩

theorem timeless_clntPerror (format : PingFormat) (t : Target) : Timeless format (.clntPerror t) :=
  ⟨fun _ => rfl, fun _ => Iff.rfl⟩

/-- The trace goes on to `tr'` without a change of the times, and what is printed is right as it
    should. -/
structure KeepsScan (format : PingFormat) (tr tr' : List PingEvent) : Prop where
  scan : timeScan tr' = timeScan tr
  lines : LinesIff format tr → LinesIff format tr'

theorem KeepsScan.refl (format : PingFormat) (tr : List PingEvent) : KeepsScan format tr tr := ⟨rfl, id⟩

theorem KeepsScan.timesAt (h : KeepsScan format tr tr') (k : ℕ) :
    NFStash.timesAt k tr' = NFStash.timesAt k tr := by
  rw [NFStash.timesAt, h.scan]
  rfl

theorem KeepsScan.lastPlace (h : KeepsScan format tr tr') :
    NFStash.lastPlace tr' = NFStash.lastPlace tr := by
  rw [NFStash.lastPlace, h.scan]
  rfl

theorem KeepsScan.concat (h : KeepsScan format tr tr') (hev : Timeless format ev) :
    KeepsScan format tr (tr' ++ [ev]) :=
  ⟨by rw [timeScan_concat, hev.scan, h.scan], fun hl => linesIff_concat.2 ⟨h.lines hl, hev.line tr'⟩⟩

theorem pingConnect_keeps (format : PingFormat) (h : pingConnect env j t run = (t', run')) :
    t'.toStats = t.toStats ∧ KeepsScan format run.trace run'.trace := by
  unfold pingConnect at h
  split_ifs at h
  · obtain ⟨rfl, rfl⟩ := Prod.mk.inj h
    exact ⟨rfl, .refl format run.trace⟩
  · obtain ⟨rfl, rfl⟩ := Prod.mk.inj h
    exact ⟨rfl, (KeepsScan.refl format run.trace).concat (timeless_connect format j _)⟩

/-- The time of an answer. -/
theorem pingRecord_timed {n : ℕ} (ht : PingTimed cfg.format times t.toStats) (hus : us ≤ ULONG_MAX)
    (h : pingRecord cfg us n t = .ok t') : PingTimed cfg.format (times ++ [us]) t'.toStats := by
  have hle : ∀ u ∈ times ++ [us], u ≤ ULONG_MAX := by
    intro u hu
    rcases List.mem_append.1 hu with hu | hu
    · exact ht.le u hu
    · rwa [List.mem_singleton.1 hu]
  have hreceived : wrap32 (t.received + 1) = wrap32 (times ++ [us]).length := by
    rw [ht.received, List.length_append, List.length_singleton, wrap32, wrap32, wrap32, Nat.mod_add_mod]
  unfold pingRecord at h
  by_cases hf : cfg.format = .fping
  · rw [if_pos hf] at h
    obtain ⟨results, -, h⟩ := bind_eq_ok.1 h
    obtain rfl := Except.ok.inj h
    refine ⟨hreceived, fun _ => (ht.folded hf).time us rfl rfl ?_, fun hne => absurd hf hne, hle⟩
    dsimp only
    rw [ht.received]
    rfl
  · rw [if_neg hf] at h
    obtain rfl := Except.ok.inj h
    exact ⟨hreceived, fun hfp => absurd hfp hf, ht.start, hle⟩

/-- After an answer, a line that is right as it should. -/
theorem pingOutcome_timed (hus : ∀ us, status = some us → us ≤ ULONG_MAX)
    (ht : PingTimed cfg.format times t.toStats)
    (htimes : timesAt (lastPlace run.trace) run.trace = times ++ status.toList)
    (h : pingOutcome cfg env status t run = .ok (t', run')) :
    PingTimed cfg.format (times ++ status.toList) t'.toStats ∧
      KeepsScan cfg.format run.trace run'.trace := by
  cases status with
  | some us =>
    obtain ⟨u, hu, h⟩ := bind_eq_ok.1 h
    obtain ⟨rfl, rfl⟩ := Prod.mk.inj (Except.ok.inj h)
    have htimed := pingRecord_timed ht (hus us rfl) hu
    refine ⟨htimed, ?_⟩
    dsimp only
    split_ifs
    · rw [List.append_nil]
      exact .refl cfg.format run.trace
    · refine ⟨timeScan_concat, fun hl => linesIff_concat.2 ⟨hl, ?_⟩⟩
      rw [LineIff, htimes]
      exact lineIff_result htimed
  | none =>
    have hlost := (KeepsScan.refl cfg.format run.trace).concat (timeless_lost cfg.format t)
    simp only [pingOutcome, pingFailure, Except.ok.injEq] at h
    rw [Option.toList_none, List.append_nil]
    split_ifs at h
    · obtain ⟨rfl, rfl⟩ := Prod.mk.inj h
      exact ⟨ht, hlost.concat (timeless_clntPerror cfg.format t)⟩
    · obtain ⟨rfl, rfl⟩ := Prod.mk.inj h
      exact ⟨ht, hlost⟩

theorem resetCounters_timed (ht : PingTimed cfg.format times t.toStats) :
    PingTimed cfg.format [] (resetCounters cfg t).toStats := by
  unfold resetCounters
  by_cases hf : cfg.format = .fping
  · rw [if_pos hf]
    exact ⟨rfl, fun _ => folded_nil rfl rfl rfl, fun hne => absurd hf hne, by simp⟩
  · rw [if_neg hf]
    exact ⟨rfl, fun hfp => absurd hfp hf, ht.start, by simp⟩

/-- After an interval summary, the times are forgotten. -/
theorem pingInterval_timed (ht : PingTimed cfg.format (timesAt j run.trace) t.toStats)
    (hplace : lastPlace run.trace = j) (h : pingInterval cfg t run = .ok (t', run')) :
    PingTimed cfg.format (timesAt j run'.trace) t'.toStats ∧
      (LinesIff cfg.format run.trace → LinesIff cfg.format run'.trace) ∧
      ∀ k, k ≠ j → timesAt k run'.trace = timesAt k run.trace := by
  subst hplace
  rcases pingInterval_ok h with ⟨rfl, rfl⟩ | ⟨rfl, rfl⟩
  · exact ⟨ht, id, fun _ _ => rfl⟩
  · refine ⟨?_, fun hl => linesIff_concat.2 ⟨hl, lineIff_interval ht⟩, fun k hk => ?_⟩
    · rw [timesAt_interval, if_pos rfl]
      exact resetCounters_timed ht
    · rw [timesAt_interval, if_neg hk]

/-- **One turn**: the target keeps the times it should, what it prints is right as it should, and the
    other targets have nothing to do with it. -/
theorem pingTarget_timed (hus : ∀ n us, env.ping n = some us → us ≤ ULONG_MAX)
    (ht : PingTimed cfg.format (timesAt j run.trace) t.toStats)
    (h : pingTarget cfg env r j t run = .ok (t', run')) :
    PingTimed cfg.format (timesAt j run'.trace) t'.toStats ∧
      (LinesIff cfg.format run.trace → LinesIff cfg.format run'.trace) ∧
      ∀ k, k ≠ j → timesAt k run'.trace = timesAt k run.trace := by
  obtain ⟨t₁, run₁, t₂, run₂, t₃, hconnect, houtcome, hinterval, rfl⟩ := pingTarget_ok.1 h
  obtain ⟨hstats, hkeeps₁⟩ := pingConnect_keeps cfg.format hconnect
  let status := pingStatus env t₁ run₁
  have hstatus : ∀ us, status = some us → us ≤ ULONG_MAX := by
    intro us hs
    simp only [status, pingStatus] at hs
    split_ifs at hs
    exact hus _ us hs
  let tr₁ := run₁.trace ++ [PingEvent.ping r j status]
  have hplace : lastPlace tr₁ = j := lastPlace_ping
  have htimes : timesAt j tr₁ = timesAt j run₁.trace ++ status.toList := by rw [timesAt_ping, if_pos rfl]
  rw [← hkeeps₁.timesAt, ← hstats] at ht
  have hsent : PingTimed cfg.format (timesAt j run₁.trace)
      { t₁ with sent := wrap32 (t₁.sent + 1) }.toStats :=
    ⟨ht.received, fun hf => ⟨(ht.folded hf).min, (ht.folded hf).max, (ht.folded hf).avg⟩, ht.start, ht.le⟩
  obtain ⟨htimed₂, hkeeps₂⟩ := pingOutcome_timed hstatus hsent (by rw [hplace]; exact htimes) houtcome
  have htimes₂ : timesAt j run₂.trace = timesAt j run₁.trace ++ status.toList :=
    (hkeeps₂.timesAt j).trans htimes
  rw [← htimes₂] at htimed₂
  obtain ⟨htimed₃, hlines₃, hothers₃⟩ :=
    pingInterval_timed htimed₂ (hkeeps₂.lastPlace.trans hplace) hinterval
  refine ⟨htimed₃, fun hl => hlines₃ (hkeeps₂.lines ?_), fun k hk => ?_⟩
  · exact linesIff_concat.2 ⟨hkeeps₁.lines hl, Iff.rfl⟩
  · rw [hothers₃ k hk, hkeeps₂.timesAt, timesAt_ping, if_neg hk, hkeeps₁.timesAt]

/-! ## Rounds -/

/-- Every target keeps the times it should, and everything printed is right as it should. -/
structure AllTimed (cfg : PingConfig) (s : PingState) : Prop where
  targets : ∀ j t, s.targets[j]? = some t → PingTimed cfg.format (timesAt j s.trace) t.toStats
  lines : LinesIff cfg.format s.trace

theorem pingRound_timed {s s' : PingState} (hus : ∀ n us, env.ping n = some us → us ≤ ULONG_MAX)
    (hs : AllTimed cfg s) (h : pingRound cfg env r s = .ok s') : AllTimed cfg s' := by
  unfold pingRound at h
  obtain ⟨⟨targets, run⟩, hw, h⟩ := bind_eq_ok.1 h
  obtain rfl := Except.ok.inj h
  obtain ⟨⟨hlines, -⟩, heach⟩ := walk_each
    (P := fun i run => LinesIff cfg.format run.trace ∧
      ∀ j t, i ≤ j → s.targets[j]? = some t → PingTimed cfg.format (timesAt j run.trace) t.toStats)
    (Q := fun j t run => PingTimed cfg.format (timesAt j run.trace) t.toStats)
    (fun i t run t' run' ht hP hstep => by
      rw [Nat.zero_add] at hstep
      obtain ⟨htimed, hlines, hothers⟩ := pingTarget_timed hus (hP.2 i t (le_refl i) ht) hstep
      refine ⟨⟨hlines hP.1, fun j u hj hu => ?_⟩, htimed, fun j u hj hu => ?_⟩
      · rw [hothers j (by omega)]
        exact hP.2 j u (by omega) hu
      · rwa [hothers j (by omega)])
    ⟨hs.lines, fun j t _ ht => hs.targets j t ht⟩ hw
  exact ⟨heach, hlines⟩

/-- What the targets start with. -/
theorem pingTargets_timed {res : Resolver} {count : ℕ} {ts : List Target} {args : List CString}
    (h : pingTargets cfg res count dummyTargets args = .ok ts) : AllTimed cfg { targets := ts.tail } := by
  obtain ⟨d, rest, rfl, -, -, hrest⟩ :=
    pingTargets_headed (Q := fun t => PingTimed cfg.format [] t.toStats)
      (fun _ => ⟨rfl, fun _ => folded_nil rfl rfl rfl, fun _ => ⟨rfl, rfl, rfl⟩, by simp⟩)
      (fun t t' _ hstats ht => hstats ▸ ht) h (headed_dummyTargets _)
  refine ⟨fun j t ht => (hrest t (List.mem_of_getElem? ht)).2.2, fun tr ev rest' heq => ?_⟩
  exact absurd heq (by simp)

end

/-- **The times that are printed**, in every round, are those of the answers since the last interval
    summary, iff the format is `fping` and there have not been more than the counter holds, or the
    format is `unixtime` and the times are 0 (or, for an interval summary, the counter is). -/
theorem pingLines_iff (cfg : PingConfig) (env : PingEnv) (res : Resolver) (args : List CString)
    (ts : List Target) (n : ℕ) (s : PingState) (hus : ∀ n us, env.ping n = some us → us ≤ ULONG_MAX)
    (hts : pingTargets cfg res (if cfg.format = .fping then cfg.count else 0) dummyTargets args = .ok ts)
    (h : rounds (pingRound cfg env) n 0 { targets := ts.tail } = .ok s)
    (tr : List PingEvent) (ev : PingEvent) (rest : List PingEvent) (htr : s.trace = tr ++ ev :: rest) :
    LineRight cfg.format (timesAt (lastPlace tr) tr) ev ↔
      LineOk cfg.format (timesAt (lastPlace tr) tr) ev :=
  (rounds_inv (P := fun _ s => AllTimed cfg s) (fun _ _ _ _ hs hround => pingRound_timed hus hs hround)
    (pingTargets_timed hts) h).lines tr ev rest htr

/-- One target is pinged once, under `-C 1`. -/
theorem pingLines_iff_once : ∃ ts s t,
    pingTargets pingOnce.toPingConfig noNames 1 dummyTargets ["10.0.0.1".toList] = .ok ts ∧
      rounds (pingRound pingOnce.toPingConfig answersAll) 1 0 { targets := ts.tail } = .ok s ∧
      s.trace = [.connect 0 true, .ping 0 0 (some 5)] ++ .result t 5 :: [] ∧
      LineRight .fping [5] (.result t 5) := by
  have hround : ∃ ts s t,
      pingTargets pingOnce.toPingConfig noNames 1 dummyTargets ["10.0.0.1".toList] = .ok ts ∧
        rounds (pingRound pingOnce.toPingConfig answersAll) 1 0 { targets := ts.tail } = .ok s ∧
        s.trace = [.connect 0 true, .ping 0 0 (some 5)] ++ .result t 5 :: [] :=
    ⟨_, _, _, rfl, rfl, rfl⟩
  obtain ⟨ts, s, t, hts, h, htr⟩ := hround
  have hus : ∀ n us, answersAll.ping n = some us → us ≤ ULONG_MAX := by
    intro n us heq
    obtain rfl := Option.some.inj heq
    decide
  refine ⟨ts, s, t, hts, h, htr, ?_⟩
  refine (pingLines_iff pingOnce.toPingConfig answersAll noNames _ ts 1 s hus hts h _ _ [] htr).2 ?_
  show [5].length < 2 ^ 32
  decide

/-- `-D -c 1`. -/
def pingUnixtime : PingConfig where
  format := .unixtime
  count := 1

/-- After an answer that took 5 microseconds, an average of 0 is printed. -/
theorem pingLines_unixtime : ∃ ts s t,
    pingTargets pingUnixtime noNames 0 dummyTargets ["10.0.0.1".toList] = .ok ts ∧
      rounds (pingRound pingUnixtime answersAll) 1 0 { targets := ts.tail } = .ok s ∧
      s.trace = [.connect 0 true, .ping 0 0 (some 5)] ++ .result t 5 :: [] ∧
      timesAt 0 [.connect 0 true, .ping 0 0 (some 5)] = [5] ∧
      (printResult .unixtime t 5).avg? = some (some 0) ∧ ¬ LineRight .unixtime [5] (.result t 5) := by
  refine ⟨_, _, _, rfl, rfl, rfl, rfl, rfl, ?_⟩
  intro hright
  have hmean := hright (some 0) rfl
  exact absurd (mean_times_iff.1 (Option.some.inj hmean).symm 5 (List.mem_singleton_self 5)) (by decide)

end NFStash
