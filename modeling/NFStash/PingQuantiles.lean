/-
  The histograms of `nfsping`.

  `init_target` makes a histogram for the times up to the timeout; the model of a target has the list
  of the values recorded in it since `hdr_reset` (`recorded`, `hdrReset_recorded`).  `PingKept` says
  that these are the times of the answers since the last interval summary, `pingTarget_kept` is one
  turn, and `pingQuantiles_tell` says what the columns that are printed tell about them.
-/
import NFStash.HdrValues
import NFStash.PingTimes

namespace NFStash

open CLib Loops Running

/-! ## Model -/

/-- `struct timeval`. -/
structure Timeval where
  tvSec : ℕ
  tvUsec : ℕ

def ms2tv (ms : ℕ) : Timeval where
  tvSec := ms / 1000
  tvUsec := ms % 1000 * 1000

def tv2us (tv : Timeval) : ℕ := wrap64 (tv.tvSec * 1000000 + tv.tvUsec)

/-- An `unsigned long` as an `int64_t`. -/
def toInt64 (n : ℕ) : ℤ := if n ≤ INT64_MAX then n else n - 2 ^ 64

/-- The histogram `init_target` makes for a timeout. -/
def targetHistogram (timeout : Timeval) : Except HdrError HdrHistogram :=
  hdrInit 1 (toInt64 (tv2us timeout)) 3

/-- The histogram after these times. -/
def recorded (h : HdrHistogram) (times : List ℕ) : HdrHistogram :=
  times.foldl (fun h us => (hdrRecordValue h (toInt64 us)).2) h

/-- The columns of `print_result` and `print_interval` in `ping` format. -/
structure Quantiles where
  min : ℕ
  p50 : ℕ
  p90 : ℕ
  p99 : ℕ
  max : ℕ

def quantiles (h : HdrHistogram) : Option Quantiles := do
  let p50 ← hdrValueAtPercentile h 50
  let p90 ← hdrValueAtPercentile h 90
  let p99 ← hdrValueAtPercentile h 99
  some { min := hdrMin h, p50, p90, p99, max := hdrMax h }

/-! ## What the columns tell -/

def Quantiles.Ordered (q : Quantiles) : Prop :=
  q.min ≤ q.p50 ∧ q.p50 ≤ q.p90 ∧ q.p90 ≤ q.p99 ∧ q.p99 ≤ q.max

/-- The target that is printed with its histogram. -/
def PingEvent.printed? : PingEvent → Option Target
  | .result t _ => some t
  | .interval t => some t
  | _ => none

/-- What a target keeps of the times since its last interval summary. -/
structure PingKept (times : List ℕ) (t : Target) : Prop where
  received : t.received = wrap32 times.length
  histogram : t.intervalHistogram = times
  le : ∀ us ∈ times, us ≤ ULONG_MAX

/-- A target is printed with what it keeps. -/
def LineKept (tr : List PingEvent) (ev : PingEvent) : Prop :=
  ∀ t, ev.printed? = some t → PingKept (timesAt (lastPlace tr) tr) t

def LinesKept (tr : List PingEvent) : Prop := ∀ tr' ev rest, tr = tr' ++ ev :: rest → LineKept tr' ev

/-! ## Histograms -/

section
variable {h : HdrHistogram} {times : List ℕ} {us ms : ℕ}

theorem toInt64_lt_iff (hus : us ≤ ULONG_MAX) (hlimit : h.limit ≤ INT64_MAX) :
    (0 ≤ toInt64 us ∧ toInt64 us < h.limit) ↔ us < h.limit := by
  have hint : INT64_MAX = 2 ^ 63 - 1 := rfl
  have hlong : ULONG_MAX = 2 ^ 64 - 1 := rfl
  unfold toInt64
  split_ifs <;> omega

/-- The histogram of one more time is that of the times, in which it is recorded. -/
theorem recorded_concat : recorded h (times ++ [us]) = (hdrRecordValue (recorded h times) (toInt64 us)).2 :=
  List.foldl_concat ..

/-- The recording of the times, as a history. -/
theorem recorded_eq (h : HdrHistogram) (times : List ℕ) :
    recorded h times = (times.map fun us => HdrOp.record (toInt64 us)).foldl HdrOp.apply h := by
  rw [List.foldl_map]
  rfl

/-- The values that are held after it. -/
theorem held_records (hus : ∀ us ∈ times, us ≤ ULONG_MAX) (hlimit : h.limit ≤ INT64_MAX) (vs : List ℕ) :
    (times.map fun us => HdrOp.record (toInt64 us)).foldl (HdrOp.held h.limit) vs =
      vs ++ times.filter (· < h.limit) := by
  induction times generalizing vs with
  | nil => exact (List.append_nil vs).symm
  | cons us times ih =>
    rw [List.forall_mem_cons] at hus
    have hiff := toInt64_lt_iff hus.1 hlimit
    rw [List.map_cons, List.foldl_cons, ih hus.2, List.filter_cons, HdrOp.held]
    by_cases hlt : us < h.limit
    · have hint : (toInt64 us).toNat = us := by
        have hle : us ≤ INT64_MAX := hlt.le.trans hlimit
        rw [toInt64, if_pos hle, Int.toNat_natCast]
      rw [if_pos (hiff.2 hlt), hint, if_pos (decide_eq_true hlt), List.append_assoc, List.singleton_append]
    · rw [if_neg (mt hiff.1 hlt), if_neg (by simpa using hlt)]

/-- After a reset the histogram is the one that was made. -/
theorem hdrReset_recorded (cfg : HdrBucketConfig) (times : List ℕ) :
    hdrReset (recorded (hdrInitPreallocated cfg) times) = hdrInitPreallocated cfg := by
  have hcfg := foldl_apply_config (hdrInitPreallocated cfg) (times.map fun us => .record (toInt64 us))
  rw [← recorded_eq] at hcfg
  unfold hdrReset
  rw [hcfg]
  rfl

/-- A histogram that holds no values. -/
theorem HdrHistogram.Holds.quantiles_nil (hh : h.Holds []) :
    quantiles h = some { min := INT64_MAX, p50 := 0, p90 := 0, p99 := 0, max := 0 } := by
  have hcount : hdrCountAtIndex h 0 = 0 := by
    rw [hdrCountAtIndex, hh.counts, Ranks.table_nil, List.getD_eq_getElem?_getD, List.getElem?_replicate]
    split_ifs <;> rfl
  have hmin : hdrMin h = INT64_MAX := by
    have hvalue : h.minValue = INT64_MAX := hh.minValue
    rw [hdrMin, if_neg (by omega), nonZeroMin, if_pos hvalue]
  have hmax : hdrMax h = 0 := if_pos hh.maxValue
  simp only [quantiles, hh.percentile_nil, hmin, hmax, Option.bind_eq_bind, Option.bind_some]

theorem HdrHistogram.Holds.quantiles_some (hh : h.Holds times) (hne : times ≠ [])
    (hfew : times.length < 2 ^ 48) (ht : h.Tells 3 times) : ∃ q, quantiles h = some q ∧ q.Ordered := by
  have hvalue : ∀ p, ∃ x, hdrValueAtPercentile h p = some x := fun p =>
    let ⟨_, _, hv⟩ := valueAtPercentile_some hne (hfew.trans (by decide)) p
    ⟨_, hh.percentile hv⟩
  obtain ⟨x, hx⟩ := hvalue 50
  obtain ⟨y, hy⟩ := hvalue 90
  obtain ⟨z, hz⟩ := hvalue 99
  refine ⟨⟨hdrMin h, x, y, z, hdrMax h⟩, ?_, ?_, ?_, ?_, ?_⟩
  · simp only [quantiles, hx, hy, hz, Option.bind_eq_bind, Option.bind_some]
  · exact (ht.between hne 50 x hx).1
  · exact ht.percentile_mono 50 90 x y (by norm_num) hx hy
  · exact ht.percentile_mono 90 99 y z (by norm_num) hy hz
  · exact (ht.between hne 99 z hz).2

theorem tv2us_ms2tv (hlarge : ms * 1000 < 2 ^ 62) : toInt64 (tv2us (ms2tv ms)) = (ms * 1000 : ℕ) := by
  have hus : (ms2tv ms).tvSec * 1000000 + (ms2tv ms).tvUsec = ms * 1000 := by
    simp only [ms2tv]
    omega
  have hint : INT64_MAX = 2 ^ 63 - 1 := rfl
  rw [tv2us, hus, wrap64, Nat.mod_eq_of_lt (by omega), toInt64, if_pos (by omega)]

/-- The histogram for a timeout, and what it holds. -/
theorem targetHistogram_used (hms : 0 < ms) (hlarge : ms * 1000 < 2 ^ 62) :
    ∃ h, targetHistogram (ms2tv ms) = .ok h ∧ ms * 1000 < h.limit ∧ ∀ times,
      (∀ us ∈ times, us ≤ ULONG_MAX) → (recorded h times).Used 3 (times.filter (· < h.limit)) := by
  have hint : INT64_MAX = 2 ^ 63 - 1 := rfl
  obtain ⟨cfg, hcfg, hinit⟩ := hdrInit_ok (ms * 1000 : ℕ) 3 (by omega) (by omega) (by decide) (by decide)
  obtain ⟨-, -, hlt, -⟩ := hdrCalculateBucketConfig_ok (by omega) hcfg
  have hmade : (hdrInitPreallocated cfg).Used 3 [] := hdrInit_used (by omega) hinit []
  refine ⟨_, by rw [targetHistogram, tv2us_ms2tv hlarge]; exact hinit, Int.ofNat_lt.1 hlt, fun times hus => ?_⟩
  have hused := hdrInit_used (by omega) hinit (times.map fun us => .record (toInt64 us))
  rwa [held_records hus hmade.limit, List.nil_append, ← recorded_eq] at hused

end

/-! ## One turn -/

section
variable {cfg : PingConfig} {env : PingEnv} {r j us : ℕ} {times : List ℕ} {t t' : Target}
  {run run' : PingRun} {tr tr' : List PingEvent} {ev : PingEvent} {status : Option ℕ}

/-- Events that do not print a target need nothing. -/
theorem lineKept_none (h : ev.printed? = none) : LineKept tr ev := by
  intro t ht
  rw [h] at ht
  cases ht

theorem linesKept_concat : LinesKept (tr ++ [ev]) ↔ LinesKept tr ∧ LineKept tr ev := by
  constructor
  · intro h
    refine ⟨fun tr' ev' rest heq => h tr' ev' (rest ++ [ev]) ?_, h tr ev [] rfl⟩
    rw [heq, List.append_assoc, List.cons_append]
  · rintro ⟨hlines, hline⟩ tr' ev' rest heq
    rcases List.eq_nil_or_concat rest with rfl | ⟨rest, last, rfl⟩
    · obtain ⟨rfl, hev⟩ := List.append_inj' heq rfl
      obtain rfl := List.singleton_inj.1 hev
      exact hline
    · rw [List.concat_eq_append, ← List.cons_append, ← List.append_assoc] at heq
      obtain ⟨rfl, -⟩ := List.append_inj' heq rfl
      exact hlines tr' ev' rest rfl

/-- The trace goes on to `tr'` without a change of the times, and targets are printed with what they
    keep. -/
structure KeepsLines (tr tr' : List PingEvent) : Prop where
  scan : timeScan tr' = timeScan tr
  lines : LinesKept tr → LinesKept tr'

theorem KeepsLines.refl (tr : List PingEvent) : KeepsLines tr tr := ⟨rfl, id⟩

theorem KeepsLines.concat (h : KeepsLines tr tr') (hscan : ∀ s : TimeScan, s.event ev = s)
    (hev : LineKept tr' ev) : KeepsLines tr (tr' ++ [ev]) :=
  ⟨by rw [timeScan_concat, hscan, h.scan], fun hl => linesKept_concat.2 ⟨h.lines hl, hev⟩⟩

theorem KeepsLines.timesAt (h : KeepsLines tr tr') (k : ℕ) :
    NFStash.timesAt k tr' = NFStash.timesAt k tr := by
  rw [NFStash.timesAt, h.scan]
  rfl

theorem KeepsLines.lastPlace (h : KeepsLines tr tr') : NFStash.lastPlace tr' = NFStash.lastPlace tr := by
  rw [NFStash.lastPlace, h.scan]
  rfl

theorem pingConnect_kept (ht : PingKept times t) (h : pingConnect env j t run = (t', run')) :
    PingKept times t' ∧ KeepsLines run.trace run'.trace := by
  unfold pingConnect at h
  split_ifs at h
  · obtain ⟨rfl, rfl⟩ := Prod.mk.inj h
    exact ⟨ht, .refl run.trace⟩
  · obtain ⟨rfl, rfl⟩ := Prod.mk.inj h
    exact ⟨⟨ht.received, ht.histogram, ht.le⟩, (KeepsLines.refl run.trace).concat (fun _ => rfl) nofun⟩

/-- The time of an answer. -/
theorem pingRecord_kept {n : ℕ} (hformat : cfg.format ≠ .fping) (ht : PingKept times t)
    (hus : us ≤ ULONG_MAX) (h : pingRecord cfg us n t = .ok t') : PingKept (times ++ [us]) t' := by
  unfold pingRecord at h
  rw [if_neg hformat] at h
  obtain rfl := Except.ok.inj h
  refine ⟨?_, congrArg (· ++ [us]) ht.histogram, fun u hu => ?_⟩
  · dsimp only
    rw [ht.received, List.length_append, List.length_singleton, wrap32, wrap32, wrap32, Nat.mod_add_mod]
  · rcases List.mem_append.1 hu with hu | hu
    · exact ht.le u hu
    · rwa [List.mem_singleton.1 hu]

/-- After an answer the target is printed. -/
theorem pingOutcome_kept (hformat : cfg.format ≠ .fping) (hus : ∀ us, status = some us → us ≤ ULONG_MAX)
    (ht : PingKept times t)
    (htimes : timesAt (lastPlace run.trace) run.trace = times ++ status.toList)
    (h : pingOutcome cfg env status t run = .ok (t', run')) :
    PingKept (times ++ status.toList) t' ∧ KeepsLines run.trace run'.trace := by
  cases status with
  | some us =>
    obtain ⟨u, hu, h⟩ := bind_eq_ok.1 h
    obtain ⟨rfl, rfl⟩ := Prod.mk.inj (Except.ok.inj h)
    have hkept := pingRecord_kept hformat ht (hus us rfl) hu
    refine ⟨hkept, ?_⟩
    dsimp only
    split_ifs
    · rw [List.append_nil]
      exact .refl run.trace
    · refine (KeepsLines.refl run.trace).concat (fun _ => rfl) fun t' heq => ?_
      obtain rfl := Option.some.inj heq
      rw [htimes]
      exact hkept
  | none =>
    have hlost : KeepsLines run.trace (run.trace ++ [.lost t]) :=
      (KeepsLines.refl run.trace).concat (fun _ => rfl) (lineKept_none rfl)
    simp only [pingOutcome, pingFailure, Except.ok.injEq] at h
    rw [Option.toList_none, List.append_nil]
    split_ifs at h
    · obtain ⟨rfl, rfl⟩ := Prod.mk.inj h
      exact ⟨⟨ht.received, ht.histogram, ht.le⟩, hlost.concat (fun _ => rfl) (lineKept_none rfl)⟩
    · obtain ⟨rfl, rfl⟩ := Prod.mk.inj h
      exact ⟨ht, hlost⟩

/-- In an interval summary the target is printed, and forgets the times. -/
theorem pingInterval_kept (hformat : cfg.format ≠ .fping) (ht : PingKept (timesAt j run.trace) t)
    (hplace : lastPlace run.trace = j) (h : pingInterval cfg t run = .ok (t', run')) :
    PingKept (timesAt j run'.trace) t' ∧ (LinesKept run.trace → LinesKept run'.trace) ∧
      ∀ k, k ≠ j → timesAt k run'.trace = timesAt k run.trace := by
  subst hplace
  rcases pingInterval_ok h with ⟨rfl, rfl⟩ | ⟨rfl, rfl⟩
  · exact ⟨ht, id, fun _ _ => rfl⟩
  · refine ⟨?_, fun hl => linesKept_concat.2 ⟨hl, fun t' heq => ?_⟩, fun k hk => ?_⟩
    · rw [timesAt_interval, if_pos rfl, resetCounters, if_neg hformat]
      exact ⟨rfl, rfl, nofun⟩
    · obtain rfl := Option.some.inj heq
      exact ht
    · rw [timesAt_interval, if_neg hk]

/-- **One turn**: the target keeps the times it should, and is printed with them. -/
theorem pingTarget_kept (hformat : cfg.format ≠ .fping)
    (hus : ∀ n us, env.ping n = some us → us ≤ ULONG_MAX)
    (ht : PingKept (timesAt j run.trace) t) (h : pingTarget cfg env r j t run = .ok (t', run')) :
    PingKept (timesAt j run'.trace) t' ∧ (LinesKept run.trace → LinesKept run'.trace) ∧
      ∀ k, k ≠ j → timesAt k run'.trace = timesAt k run.trace := by
  obtain ⟨t₁, run₁, t₂, run₂, t₃, hconnect, houtcome, hinterval, rfl⟩ := pingTarget_ok.1 h
  obtain ⟨ht₁, hkeeps₁⟩ := pingConnect_kept ht hconnect
  let status := pingStatus env t₁ run₁
  have hstatus : ∀ us, status = some us → us ≤ ULONG_MAX := by
    intro us hs
    simp only [status, pingStatus] at hs
    split_ifs at hs
    exact hus _ us hs
  let tr₁ := run₁.trace ++ [PingEvent.ping r j status]
  have hplace : lastPlace tr₁ = j := lastPlace_ping
  have htimes : timesAt j tr₁ = timesAt j run₁.trace ++ status.toList := by rw [timesAt_ping, if_pos rfl]
  rw [← hkeeps₁.timesAt] at ht₁
  have hsent : PingKept (timesAt j run₁.trace) { t₁ with sent := wrap32 (t₁.sent + 1) } :=
    ⟨ht₁.received, ht₁.histogram, ht₁.le⟩
  obtain ⟨ht₂, hkeeps₂⟩ := pingOutcome_kept hformat hstatus hsent (by rw [hplace]; exact htimes) houtcome
  rw [show timesAt j run₁.trace ++ status.toList = timesAt j run₂.trace from
    htimes.symm.trans (hkeeps₂.timesAt j).symm] at ht₂
  obtain ⟨ht₃, hlines₃, hothers₃⟩ :=
    pingInterval_kept hformat ht₂ (hkeeps₂.lastPlace.trans hplace) hinterval
  refine ⟨⟨ht₃.received, ht₃.histogram, ht₃.le⟩, fun hl => hlines₃ (hkeeps₂.lines ?_), fun k hk => ?_⟩
  · exact linesKept_concat.2 ⟨hkeeps₁.lines hl, lineKept_none rfl⟩
  · rw [hothers₃ k hk, hkeeps₂.timesAt, timesAt_ping, if_neg hk, hkeeps₁.timesAt]

/-! ## Rounds -/

/-- Every target keeps the times it should, and has been printed with them. -/
structure AllKept (s : PingState) : Prop where
  targets : ∀ j t, s.targets[j]? = some t → PingKept (timesAt j s.trace) t
  lines : LinesKept s.trace

theorem pingRound_kept {s s' : PingState} (hformat : cfg.format ≠ .fping)
    (hus : ∀ n us, env.ping n = some us → us ≤ ULONG_MAX) (hs : AllKept s)
    (h : pingRound cfg env r s = .ok s') : AllKept s' := by
  unfold pingRound at h
  obtain ⟨⟨targets, run⟩, hw, h⟩ := bind_eq_ok.1 h
  obtain rfl := Except.ok.inj h
  obtain ⟨⟨hlines, -⟩, heach⟩ := walk_each
    (P := fun i run => LinesKept run.trace ∧
      ∀ j t, i ≤ j → s.targets[j]? = some t → PingKept (timesAt j run.trace) t)
    (Q := fun j t run => PingKept (timesAt j run.trace) t)
    (fun i t run t' run' ht hP hstep => by
      rw [Nat.zero_add] at hstep
      obtain ⟨hkept, hlines, hothers⟩ := pingTarget_kept hformat hus (hP.2 i t (le_refl i) ht) hstep
      refine ⟨⟨hlines hP.1, fun j u hj hu => ?_⟩, hkept, fun j u hj hu => ?_⟩
      · rw [hothers j (by omega)]
        exact hP.2 j u (by omega) hu
      · rwa [hothers j (by omega)])
    ⟨hs.lines, fun j t _ ht => hs.targets j t ht⟩ hw
  exact ⟨heach, hlines⟩

theorem madeTarget_histogram {res : Resolver} {dns displayIps : Bool} {path : Option CString} {count : ℕ}
    (targetName : CString) (ip : InAddr) (t : Target) :
    (madeTarget res dns displayIps path count targetName ip t).intervalHistogram = t.intervalHistogram := by
  obtain ⟨name, displayName, ndqf, heq⟩ := madeTarget_eq targetName ip t
  rw [heq]
  cases path with
  | none => rfl
  | some path => rfl

/-- The targets of the command line have no times. -/
theorem pingTargets_empty {res : Resolver} {count : ℕ} {head ts : List Target} {args : List CString}
    (h : pingTargets cfg res count head args = .ok ts) (hh : Headed (PingKept []) head) :
    Headed (PingKept []) ts := by
  induction args generalizing head with
  | nil =>
    obtain rfl := Except.ok.inj h
    exact hh
  | cons arg args ih =>
    obtain ⟨r, hr, h⟩ := bind_eq_ok.1 h
    refine ih h ((makeTarget_makes hr).1.headed (fun _ => ⟨rfl, rfl, nofun⟩)
      (fun ip t => madeTarget_update arg ip t) (fun ip t ht => ⟨?_, ?_, nofun⟩) hh)
    · rw [madeTarget_stats]
      exact ht.received
    · rw [madeTarget_histogram]
      exact ht.histogram

theorem pingTargets_kept {res : Resolver} {count : ℕ} {ts : List Target} {args : List CString}
    (h : pingTargets cfg res count dummyTargets args = .ok ts) : AllKept { targets := ts.tail } := by
  obtain ⟨d, rest, rfl, -, -, hrest⟩ := pingTargets_empty h (headed_dummyTargets _)
  refine ⟨fun j t ht => (hrest t (List.mem_of_getElem? ht)).2.2, fun tr ev rest' heq => ?_⟩
  exact absurd heq (by simp)

end

/-- **The columns that are printed**, in every round and format but that of `-C`, tell about the
    answers since the last interval summary that have a place in the histogram; those that came within
    the timeout have one.  Without them the minimum is the largest number and the others are 0. -/
theorem pingQuantiles_tell (cfg : PingConfig) (env : PingEnv) (res : Resolver) (args : List CString)
    (ts : List Target) (n : ℕ) (s : PingState) (ms : ℕ) (hformat : cfg.format ≠ .fping)
    (hms : 0 < ms) (hlarge : ms * 1000 < 2 ^ 62) (hus : ∀ n us, env.ping n = some us → us ≤ ULONG_MAX)
    (hts : pingTargets cfg res 0 dummyTargets args = .ok ts)
    (h : rounds (pingRound cfg env) n 0 { targets := ts.tail } = .ok s) :
    ∃ h₀, targetHistogram (ms2tv ms) = .ok h₀ ∧ ms * 1000 < h₀.limit ∧
      ∀ tr ev rest t, s.trace = tr ++ ev :: rest → ev.printed? = some t →
        let times := (timesAt (lastPlace tr) tr).filter (· < h₀.limit)
        times.length < 2 ^ 48 → (recorded h₀ t.intervalHistogram).Tells 3 times ∧
          ∃ q, quantiles (recorded h₀ t.intervalHistogram) = some q ∧
            (times ≠ [] ∧ q.Ordered ∨ times = [] ∧ q = ⟨INT64_MAX, 0, 0, 0, 0⟩) := by
  have hkept : AllKept s := rounds_inv (P := fun _ s => AllKept s)
    (fun _ _ _ _ hs hround => pingRound_kept hformat hus hs hround) (pingTargets_kept hts) h
  obtain ⟨h₀, hinit, hlimit, hall⟩ := targetHistogram_used hms hlarge
  refine ⟨h₀, hinit, hlimit, fun tr ev rest t htr hev hfew => ?_⟩
  have ht := hkept.lines tr ev rest htr t hev
  rw [ht.histogram]
  have hused := hall _ ht.le
  have hholds := hused.holds
  have ht' := hholds.tells hused.unit hused.limit hused.figures hused.five hfew
  refine ⟨ht', ?_⟩
  by_cases hne : (timesAt (lastPlace tr) tr).filter (· < h₀.limit) = []
  · rw [hne] at hholds
    exact ⟨_, hholds.quantiles_nil, .inr ⟨hne, rfl⟩⟩
  · obtain ⟨q, hq, hordered⟩ := hholds.quantiles_some hne hfew ht'
    exact ⟨q, hq, .inl ⟨hne, hordered⟩⟩

/-- `-c 1`. -/
def pingCountOnce : PingConfig where
  count := 1

/-- One target is pinged once, and the answer takes 5 microseconds. -/
theorem pingQuantiles_once : ∃ ts s t h₀,
    pingTargets pingCountOnce noNames 0 dummyTargets ["10.0.0.1".toList] = .ok ts ∧
      rounds (pingRound pingCountOnce answersAll) 1 0 { targets := ts.tail } = .ok s ∧
      s.trace = [.connect 0 true, .ping 0 0 (some 5)] ++ .result t 5 :: [] ∧
      targetHistogram (ms2tv 1000) = .ok h₀ ∧
      (recorded h₀ t.intervalHistogram).Tells 3 ([5].filter (· < h₀.limit)) := by
  have hround : ∃ ts s t,
      pingTargets pingCountOnce noNames 0 dummyTargets ["10.0.0.1".toList] = .ok ts ∧
        rounds (pingRound pingCountOnce answersAll) 1 0 { targets := ts.tail } = .ok s ∧
        s.trace = [.connect 0 true, .ping 0 0 (some 5)] ++ .result t 5 :: [] :=
    ⟨_, _, _, rfl, rfl, rfl⟩
  obtain ⟨ts, s, t, hts, h, htr⟩ := hround
  have hus : ∀ n us, answersAll.ping n = some us → us ≤ ULONG_MAX := by
    intro n us heq
    obtain rfl := Option.some.inj heq
    decide
  have hfew : ∀ limit, ([5].filter (· < limit)).length < 2 ^ 48 := fun limit =>
    (List.length_filter_le ..).trans_lt (by decide)
  obtain ⟨h₀, hinit, -, hall⟩ := pingQuantiles_tell pingCountOnce answersAll noNames _ ts 1 s 1000
    (by decide) (by decide) (by decide) hus hts h
  exact ⟨ts, s, t, h₀, hts, h, htr, hinit, (hall _ _ [] t htr rfl (hfew _)).1⟩

end NFStash
