/-
  The summary of `nfsping -C`.

  `pingTarget_step` says what one ping does to the array of results, to the counters and
  to the trace.  With one target the counter of all pings is that of its rounds, so the
  columns of the summary are its response times (`OneTarget`); with more targets
  the counter runs past the end of the arrays (`ManyTargets`).
-/
import NFStash.PingChecks

namespace NFStash

open CLib Loops

/-! ## One ping -/

def PingEvent.ping? : PingEvent → Option (ℕ × ℕ × Option ℕ)
  | .ping r j status => some (r, j, status)
  | _ => none

/-- The pings of a trace: round, target, and time of the answer. -/
def pings (tr : List PingEvent) : List (ℕ × ℕ × Option ℕ) := tr.filterMap PingEvent.ping?

theorem pings_append (tr tr' : List PingEvent) : pings (tr ++ tr') = pings tr ++ pings tr' :=
  List.filterMap_append

/-- The results after a ping, when `i` pings have been sent before. -/
def recordAt (cfg : PingConfig) (status : Option ℕ) (i : ℕ) (results : List ℕ) : List ℕ :=
  match status with
  | some us => if cfg.format = .fping then results.set i us else results
  | none => results

/-- What a ping does. -/
structure PingStep (cfg : PingConfig) (r j : ℕ) (status : Option ℕ) (t : Target) (run : PingRun)
    (t' : Target) (run' : PingRun) : Prop where
  results : t'.results = recordAt cfg status run.totalSent t.results
  totalSent : run'.totalSent = wrap64 (run.totalSent + 1)
  loopCount : run'.loopCount = run.loopCount
  pings : pings run'.trace = pings run.trace ++ [(r, j, status)]

/-- The number of the round is a multiple of a period that is not 0. -/
def PeriodOk (cfg : PingConfig) : Prop :=
  cfg.summaryInterval = 0 ∨ wrap64 (cfg.hertz * cfg.summaryInterval) ≠ 0

section
variable (cfg : PingConfig) (env : PingEnv)

theorem pingConnect_same (j : ℕ) (t : Target) (run : PingRun) :
    (pingConnect env j t run).1.results = t.results ∧
      (pingConnect env j t run).2.totalSent = run.totalSent ∧
      (pingConnect env j t run).2.loopCount = run.loopCount ∧
      pings (pingConnect env j t run).2.trace = pings run.trace := by
  unfold pingConnect
  split_ifs
  · exact ⟨rfl, rfl, rfl, rfl⟩
  · exact ⟨rfl, rfl, rfl, by simp [pings, PingEvent.ping?]⟩

theorem pingFailure_same (t : Target) (run : PingRun) :
    (pingFailure env t run).1.results = t.results ∧
      (pingFailure env t run).2.totalSent = run.totalSent ∧
      (pingFailure env t run).2.loopCount = run.loopCount ∧
      pings (pingFailure env t run).2.trace = pings run.trace := by
  unfold pingFailure
  split_ifs
  · exact ⟨rfl, rfl, rfl, by simp [pings, PingEvent.ping?]⟩
  · exact ⟨rfl, rfl, rfl, by simp [pings, PingEvent.ping?]⟩

theorem pingInterval_same (t : Target) (run : PingRun) :
    (pingInterval cfg t run = .error .divisionByZero ∧ ¬ PeriodOk cfg) ∨
      ∃ t' run', pingInterval cfg t run = .ok (t', run') ∧ t'.results = t.results ∧
        run'.totalSent = run.totalSent ∧ run'.loopCount = run.loopCount ∧
        pings run'.trace = pings run.trace := by
  unfold pingInterval
  dsimp only
  split_ifs with h0 hp hd
  · exact .inr ⟨t, run, rfl, rfl, rfl, rfl, rfl⟩
  · exact .inl ⟨rfl, by simp [PeriodOk, h0, hp]⟩
  · refine .inr ⟨resetCounters cfg t, _, rfl, ?_, rfl, rfl, by simp [pings, PingEvent.ping?]⟩
    unfold resetCounters
    split_ifs
    · rfl
    · rfl
  · exact .inr ⟨t, run, rfl, rfl, rfl, rfl, rfl⟩

/-- The index of a result: the pings sent before. -/
theorem index_eq {n : ℕ} (h : n < 2 ^ 64) : wrap64 (wrap64 (n + 1) + ULONG_MAX) = n := by
  unfold wrap64 ULONG_MAX
  omega

theorem pingRecord_cases (us : ℕ) {n : ℕ} (hn : n < 2 ^ 64) (t : Target) :
    (pingRecord cfg us (wrap64 (n + 1)) t = .error .outOfBounds ∧ t.results.length ≤ n) ∨
      ∃ t', pingRecord cfg us (wrap64 (n + 1)) t = .ok t' ∧
        t'.results = recordAt cfg (some us) n t.results := by
  unfold pingRecord recordAt storeAt
  rw [index_eq hn]
  by_cases hf : cfg.format = .fping
  · by_cases hl : n < t.results.length
    · exact .inr ⟨_, by simp [hf, hl, bind, Except.bind]; rfl, by simp [hf]⟩
    · exact .inl ⟨by simp [hf, hl, bind, Except.bind], by omega⟩
  · exact .inr ⟨_, by simp [hf]; rfl, by simp [hf]⟩

/-- The outcome of the `n + 1`-st ping. -/
theorem pingOutcome_cases (status : Option ℕ) {n : ℕ} (hn : n < 2 ^ 64) (t : Target) (run : PingRun)
    (hs : run.totalSent = wrap64 (n + 1)) :
    (pingOutcome cfg env status t run = .error .outOfBounds ∧ t.results.length ≤ n) ∨
      ∃ t' run', pingOutcome cfg env status t run = .ok (t', run') ∧
        t'.results = recordAt cfg status n t.results ∧ run'.totalSent = run.totalSent ∧
        run'.loopCount = run.loopCount ∧ pings run'.trace = pings run.trace := by
  cases status with
  | none =>
    obtain ⟨h1, h2, h3, h4⟩ := pingFailure_same env t run
    exact .inr ⟨_, _, rfl, h1, h2, h3, h4⟩
  | some us =>
    unfold pingOutcome pingSuccess
    rw [hs]
    rcases pingRecord_cases cfg us hn t with ⟨he, hl⟩ | ⟨t', ht', hres⟩
    · exact .inl ⟨by simp [he, bind, Except.bind], hl⟩
    · refine .inr ⟨t', { run with
        totalRecv := wrap64 (run.totalRecv + 1)
        trace := run.trace ++ if cfg.quiet then [] else [.result t' us] },
        by simp [ht', hs, bind, Except.bind], hres, hs, rfl, ?_⟩
      cases cfg.quiet <;> simp [pings, PingEvent.ping?]

/-- **One ping.**  It writes outside the array of its target, or divides by a period of 0, or
    has the effects of a `PingStep`. -/
theorem pingTarget_step (r j : ℕ) (t : Target) (run : PingRun) (hn : run.totalSent < 2 ^ 64) :
    (pingTarget cfg env r j t run = .error .outOfBounds ∧ t.results.length ≤ run.totalSent) ∨
      (pingTarget cfg env r j t run = .error .divisionByZero ∧ ¬ PeriodOk cfg) ∨
      ∃ status t' run', pingTarget cfg env r j t run = .ok (t', run') ∧
        PingStep cfg r j status t run t' run' := by
  obtain ⟨hc1, hc2, hc3, hc4⟩ := pingConnect_same env j t run
  unfold pingTarget
  generalize pingConnect env j t run = c at hc1 hc2 hc3 hc4
  obtain ⟨t₁, run₁⟩ := c
  dsimp only at hc1 hc2 hc3 hc4 ⊢
  generalize pingStatus env t₁ run₁ = status
  rcases pingOutcome_cases cfg env status hn { t₁ with sent := wrap32 (t₁.sent + 1) }
    { run₁ with
      totalSent := wrap64 (run₁.totalSent + 1)
      trace := run₁.trace ++ [.ping r j status] } (by rw [hc2]) with
    ⟨he, hl⟩ | ⟨t₂, run₂, hok, h1, h2, h3, h4⟩
  · exact .inl ⟨by simp [he, bind, Except.bind], hc1 ▸ hl⟩
  · rcases pingInterval_same cfg t₂ run₂ with ⟨he, hp⟩ | ⟨t₃, run₃, hok₃, h1', h2', h3', h4'⟩
    · exact .inr (.inl ⟨by simp [hok, he, bind, Except.bind], hp⟩)
    · refine .inr (.inr ⟨status, { t₃ with client := t₃.client && !cfg.reconnect }, run₃,
        by simp [hok, hok₃, bind, Except.bind], ⟨?_, ?_, ?_, ?_⟩⟩)
      · rw [← hc1]
        exact h1'.trans h1
      · rw [← hc2]
        exact h2'.trans h2
      · exact h3'.trans (h3.trans hc3)
      · rw [h4', h4, pings_append, hc4]
        rfl

end

/-! ## The counters after a round -/

/-- The options `-C n`, as they are accepted. -/
structure FpingConfig extends PingConfig where
  format_eq : format = .fping
  loop_eq : loop = false
  count_pos : 0 < count
  count_lt : count < ULONG_MAX

/-- `k` rounds over `T` targets have been completed. -/
structure AfterRounds (cfg : PingConfig) (env : PingEnv) (T k : ℕ) (s : PingState) : Prop where
  length : s.targets.length = T
  results : ∀ t ∈ s.targets, t.results.length = cfg.count
  totalSent : s.totalSent = k * T
  loopCount : s.loopCount = k
  more : k ≠ 0 → s.more = pingMore cfg env s.toPingRun

section
variable {cfg : FpingConfig} {env : PingEnv} {T k : ℕ} {s : PingState}

theorem recordAt_length (cfg : PingConfig) (status : Option ℕ) (i : ℕ) (results : List ℕ) :
    (recordAt cfg status i results).length = results.length := by
  unfold recordAt
  split
  · split_ifs
    · simp
    · rfl
  · rfl

/-- Another round is asked for only below the count. -/
theorem pingMore_lt {run : PingRun} (h : pingMore cfg.toPingConfig env run = true) :
    run.loopCount < cfg.count := by
  unfold pingMore at h
  simp only [cfg.loop_eq, Bool.false_or, Bool.and_eq_true, decide_eq_true_eq] at h
  exact h.2.2

/-- Without an interrupt, another round is asked for whenever the count is not reached. -/
theorem pingMore_not {run : PingRun} (h : pingMore cfg.toPingConfig env run = false)
    (hq : ∀ k, env.quitting k = false) : cfg.count ≤ run.loopCount := by
  have hc := cfg.count_pos
  unfold pingMore at h
  simp only [hq, cfg.loop_eq, Bool.not_false, Bool.true_and, Bool.false_or, Bool.and_eq_false_iff,
    decide_eq_false_iff_not, not_lt] at h
  omega

/-- The counters in round `k`, when `i` of the `T` targets have been pinged. -/
def Counts (T k i : ℕ) (run : PingRun) : Prop := run.totalSent = k * T + i ∧ run.loopCount = k + 1

/-- A ping moves the counters on, and leaves an array as long as it was. -/
theorem pingTarget_counts {r i : ℕ} {t t' : Target} {run run' : PingRun} (hc : Counts T k i run)
    (hlt : k * T + (i + 1) < 2 ^ 64)
    (h : pingTarget cfg.toPingConfig env r i t run = .ok (t', run')) :
    Counts T k (i + 1) run' ∧ t'.results.length = t.results.length := by
  obtain ⟨hsent, hloop⟩ := hc
  rcases pingTarget_step cfg.toPingConfig env r i t run (by omega) with
    ⟨he, -⟩ | ⟨he, -⟩ | ⟨status, t₁, run₁, hok, hs⟩
  · simp [he] at h
  · simp [he] at h
  · obtain ⟨rfl, rfl⟩ := Prod.mk.inj (Except.ok.inj (hok.symm.trans h))
    refine ⟨⟨?_, hs.loopCount.trans hloop⟩, by rw [hs.results, recordAt_length]⟩
    rw [hs.totalSent, hsent, wrap64, Nat.mod_eq_of_lt (by omega), Nat.add_assoc]

/-- A ping that faults writes outside an array, or divides by a period of 0. -/
theorem pingTarget_error {r i : ℕ} {t : Target} {run : PingRun} {e : Fault} (hc : Counts T k i run)
    (hlt : k * T + (i + 1) < 2 ^ 64) (h : pingTarget cfg.toPingConfig env r i t run = .error e) :
    e = .outOfBounds ∨ ¬ PeriodOk cfg.toPingConfig := by
  obtain ⟨hsent, -⟩ := hc
  rcases pingTarget_step cfg.toPingConfig env r i t run (by omega) with
    ⟨he, -⟩ | ⟨-, hp⟩ | ⟨status, t₁, run₁, hok, -⟩
  · exact .inl (Except.error.inj (h.symm.trans he))
  · exact .inr hp
  · simp [h] at hok

/-- The number of the next round does not wrap. -/
theorem loopCount_succ (h : s.loopCount = k) (hk : k < cfg.count) : wrap64 (s.loopCount + 1) = k + 1 := by
  have hlt := cfg.count_lt
  unfold ULONG_MAX at hlt
  rw [h, wrap64, Nat.mod_eq_of_lt (by omega)]

theorem pingRound_ok {r : ℕ} {targets : List Target} {run : PingRun}
    (h : walk (pingTarget cfg.toPingConfig env r) 0 s.targets
      { s.toPingRun with loopCount := wrap64 (s.loopCount + 1) } = .ok (targets, run)) :
    pingRound cfg.toPingConfig env r s =
      .ok { run with targets, more := pingMore cfg.toPingConfig env run } := by
  simp only [pingRound, h, bind, Except.bind]

theorem pingRound_error {r : ℕ} {e : Fault}
    (h : walk (pingTarget cfg.toPingConfig env r) 0 s.targets
      { s.toPingRun with loopCount := wrap64 (s.loopCount + 1) } = .error e) :
    pingRound cfg.toPingConfig env r s = .error e := by
  simp only [pingRound, h, bind, Except.bind]

/-- **One round** over any number of targets. -/
theorem pingRound_step (hT : cfg.count * T < 2 ^ 64) (hk : k < cfg.count) (r : ℕ)
    (h : AfterRounds cfg.toPingConfig env T k s) :
    (∃ e, pingRound cfg.toPingConfig env r s = .error e ∧
        (e = .outOfBounds ∨ ¬ PeriodOk cfg.toPingConfig)) ∨
      ∃ s', pingRound cfg.toPingConfig env r s = .ok s' ∧
        AfterRounds cfg.toPingConfig env T (k + 1) s' := by
  have hbound : (k + 1) * T ≤ cfg.count * T := Nat.mul_le_mul_right T hk
  rw [Nat.add_mul, Nat.one_mul] at hbound
  have hlt : ∀ i t, s.targets[i]? = some t → k * T + (i + 1) < 2 ^ 64 := fun i t hi => by
    have hi : i < T := h.length ▸ (List.getElem?_eq_some_iff.1 hi).1
    omega
  have hstep : ∀ i t run t' run', s.targets[i]? = some t → Counts T k i run →
      pingTarget cfg.toPingConfig env r (0 + i) t run = .ok (t', run') → Counts T k (i + 1) run' :=
    fun i t run t' run' hi hc hp =>
      (pingTarget_counts hc (hlt i t hi) (by rwa [Nat.zero_add] at hp)).1
  have hstart : Counts T k 0 { s.toPingRun with loopCount := wrap64 (s.loopCount + 1) } :=
    ⟨h.totalSent, loopCount_succ h.loopCount hk⟩
  cases hw : walk (pingTarget cfg.toPingConfig env r) 0 s.targets
    { s.toPingRun with loopCount := wrap64 (s.loopCount + 1) } with
  | error e =>
    obtain ⟨i, t, run, hi, hc, he⟩ := walk_error hstep hstart hw
    rw [Nat.zero_add] at he
    exact .inl ⟨e, pingRound_error hw, pingTarget_error hc (hlt i t hi) he⟩
  | ok q =>
    obtain ⟨targets, run⟩ := q
    obtain ⟨hc, hlen, hat⟩ := walk_spec hstep hstart hw
    refine .inr ⟨_, pingRound_ok hw, hlen.trans h.length, ?_, ?_, hc.2, fun _ => rfl⟩
    · intro t' ht'
      obtain ⟨i, hi⟩ := List.mem_iff_getElem?.1 ht'
      have hi' : i < s.targets.length := hlen ▸ (List.getElem?_eq_some_iff.1 hi).1
      have hget := List.getElem?_eq_getElem hi'
      obtain ⟨u, run₁, run₂, hu, hc₁, hp⟩ := hat i _ hget
      obtain rfl : u = t' := Option.some.inj (hu.symm.trans hi)
      rw [Nat.zero_add] at hp
      exact (pingTarget_counts hc₁ (hlt i _ hget) hp).2.trans (h.results _ (List.getElem_mem hi'))
    · rw [hc.1, h.length, Nat.add_mul, Nat.one_mul]

end

/-! ## Targets -/

/-- A property that new targets have and updates keep is one of the targets `main` starts with. -/
theorem pingTargets_headed {cfg : PingConfig} {res : Resolver} {count : ℕ} {head ts : List Target}
    {args : List CString} {Q : Target → Prop} (hnew : ∀ ip, Q (newTarget ip cfg.port count))
    (hupd : ∀ t t', Update none count t t' → t'.toStats = t.toStats → Q t → Q t')
    (h : pingTargets cfg res count head args = .ok ts) (hh : Headed Q head) : Headed Q ts := by
  induction args generalizing head with
  | nil =>
    obtain rfl := Except.ok.inj h
    exact hh
  | cons arg args ih =>
    obtain ⟨r, hr, h⟩ := bind_eq_ok.1 h
    exact ih h ((makeTarget_makes hr).1.headed hnew (fun ip t => madeTarget_update arg ip t)
      (fun ip t => hupd t _ (madeTarget_update arg ip t) (madeTarget_stats arg ip t)) hh)

/-- The targets `main` starts with have an array of `count` zeros each. -/
theorem pingTargets_results {cfg : PingConfig} {res : Resolver} {count : ℕ} {ts : List Target}
    {args : List CString} (h : pingTargets cfg res count dummyTargets args = .ok ts) :
    ∀ t ∈ ts.tail, t.results = List.replicate count 0 := by
  obtain ⟨d, rest, rfl, -, -, hrest⟩ :=
    pingTargets_headed (Q := fun t => t.results = List.replicate count 0) (fun _ => rfl)
      (fun t t' hu _ ht => hu.results.trans ht) h (headed_dummyTargets _)
  exact fun t ht => (hrest t ht).2.2

/-! ## Several targets -/

section
variable {cfg : FpingConfig} {env : PingEnv} {ts : List Target}

theorem afterRounds_start (hres : ∀ t ∈ ts, t.results = List.replicate cfg.count 0) :
    AfterRounds cfg.toPingConfig env ts.length 0 { targets := ts } :=
  ⟨rfl, fun t ht => by simp [hres t ht], by simp, rfl, fun h => absurd rfl h⟩

/-- The summary reads past the end of every array, when more pings have been sent than it has
    room for. -/
theorem printSummary_outOfBounds {totalSent : ℕ} (hne : ts ≠ [])
    (hlen : ∀ t ∈ ts, t.results.length < totalSent) :
    printSummary totalSent ts = .error .outOfBounds := by
  obtain ⟨t, ts, rfl⟩ := List.exists_cons_of_ne_nil hne
  have hlt := hlen t List.mem_cons_self
  simp [printSummary, summaryColumns, Nat.not_le.2 hlt, bind, Except.bind]

/-- With several targets the main loop, or else the summary, leaves the arrays. -/
theorem pingLoop_many (hT : cfg.count * ts.length < 2 ^ 64) (h1 : 1 < ts.length)
    (hq : ∀ k, env.quitting k = false) (hp : PeriodOk cfg.toPingConfig)
    (hres : ∀ t ∈ ts, t.results = List.replicate cfg.count 0) :
    pingLoop cfg.toPingConfig env cfg.count ts = .error .outOfBounds ∨
      ∃ s, pingLoop cfg.toPingConfig env cfg.count ts = .ok (some s) ∧
        printSummary s.totalSent s.targets = .error .outOfBounds := by
  have hne : ts ≠ [] := by
    rintro rfl
    simp at h1
  have hpoll := poll_bounded (pingRound cfg.toPingConfig env) (fun _ s => s.more)
    (P := AfterRounds cfg.toPingConfig env ts.length) (E := (· = .outOfBounds)) (n := cfg.count)
    (fun k s hk hs => (pingRound_step hT hk k hs).imp_left fun ⟨e, he, hE⟩ =>
      ⟨e, he, hE.resolve_right (not_not_intro hp)⟩)
    (fun k s hs hm => by
      rw [hs.more (Nat.succ_ne_zero k)] at hm
      exact hs.loopCount ▸ pingMore_lt hm)
    cfg.count cfg.count_pos (afterRounds_start hres)
  unfold pingLoop
  rw [if_neg hne]
  rcases hpoll with ⟨e, he, rfl⟩ | ⟨-, hlt⟩ | ⟨r, s, hs, hr, hP, hm⟩
  · exact .inl (by simp [he, bind, Except.bind])
  · omega
  · refine .inr ⟨s, by simp [hs, bind, Except.bind], ?_⟩
    rw [hP.more (Nat.succ_ne_zero r)] at hm
    have hge := pingMore_not hm hq
    rw [hP.loopCount] at hge
    have hr1 : r + 1 = cfg.count := by omega
    have hne' : s.targets ≠ [] := List.ne_nil_of_length_pos (by rw [hP.length]; omega)
    refine printSummary_outOfBounds hne' ?_
    intro t ht
    rw [hP.results t ht, hP.totalSent, hr1]
    exact lt_mul_of_one_lt_right cfg.count_pos h1

end

/-! ## One target -/

/-- One target has been pinged, with the outcomes `outs` in the rounds so far. -/
structure OneTarget (cfg : PingConfig) (env : PingEnv) (outs : List (Option ℕ)) (s : PingState) :
    Prop where
  targets : ∃ t, s.targets = [t] ∧
    t.results = outs.map (·.getD 0) ++ List.replicate (cfg.count - outs.length) 0
  totalSent : s.totalSent = outs.length
  loopCount : s.loopCount = outs.length
  pings : pings s.trace = outs.mapIdx fun r status => (r, 0, status)
  more : outs ≠ [] → s.more = pingMore cfg env s.toPingRun

section
variable {cfg : FpingConfig} {env : PingEnv} {outs : List (Option ℕ)} {s : PingState} {t : Target}

/-- The outcome of a ping goes to the first place that has not been used. -/
theorem recordAt_outs (status : Option ℕ) (h : outs.length < cfg.count) :
    recordAt cfg.toPingConfig status outs.length
        (outs.map (·.getD 0) ++ List.replicate (cfg.count - outs.length) 0) =
      (outs ++ [status]).map (·.getD 0) ++
        List.replicate (cfg.count - (outs ++ [status]).length) 0 := by
  have hrep : cfg.count - outs.length = cfg.count - (outs.length + 1) + 1 := by omega
  rw [hrep, List.replicate_succ]
  cases status with
  | none => simp [recordAt]
  | some us =>
    rw [recordAt, if_pos cfg.format_eq, List.set_append_right _ _ (by simp)]
    simp

/-- **One round** of one target. -/
theorem pingRound_one (h : OneTarget cfg.toPingConfig env outs s) (hk : outs.length < cfg.count) :
    pingRound cfg.toPingConfig env outs.length s = .error .divisionByZero ∨
      ∃ status s', pingRound cfg.toPingConfig env outs.length s = .ok s' ∧
        OneTarget cfg.toPingConfig env (outs ++ [status]) s' := by
  obtain ⟨t, hts, hres⟩ := h.targets
  have hlt := cfg.count_lt
  have hsent := h.totalSent
  unfold ULONG_MAX at hlt
  rcases pingTarget_step cfg.toPingConfig env outs.length 0 t
    { s.toPingRun with loopCount := wrap64 (s.loopCount + 1) } (by simp only; omega) with
    ⟨-, hl⟩ | ⟨he, -⟩ | ⟨status, t', run', hok, hs⟩
  · rw [hres] at hl
    simp only [List.length_append, List.length_map, List.length_replicate] at hl
    omega
  · exact .inl (pingRound_error (by rw [hts]; simp [walk, he, bind, Except.bind]))
  · have hw : walk (pingTarget cfg.toPingConfig env outs.length) 0 s.targets
        { s.toPingRun with loopCount := wrap64 (s.loopCount + 1) } = .ok ([t'], run') := by
      rw [hts]
      simp [walk, hok, bind, Except.bind]
    refine .inr ⟨status, _, pingRound_ok hw, ⟨⟨t', rfl, ?_⟩, ?_, ?_, ?_, fun _ => rfl⟩⟩
    · rw [hs.results, hres, ← recordAt_outs status hk]
      simp only [hsent]
    · rw [hs.totalSent]
      simp only [hsent, List.length_append, List.length_singleton, wrap64]
      exact Nat.mod_eq_of_lt (by omega)
    · rw [hs.loopCount]
      simpa using loopCount_succ h.loopCount hk
    · rw [hs.pings]
      simp [h.pings]

theorem oneTarget_start (ht : t.results = List.replicate cfg.count 0) :
    OneTarget cfg.toPingConfig env [] { targets := [t] } :=
  ⟨⟨t, rfl, by simp [ht]⟩, rfl, rfl, rfl, fun h => absurd rfl h⟩

/-- How the main loop ends with one target. -/
theorem pingLoop_one (cfg : FpingConfig) (env : PingEnv)
    (ht : t.results = List.replicate cfg.count 0) (fuel : ℕ) :
    pingLoop cfg.toPingConfig env fuel [t] = .error .divisionByZero ∨
      pingLoop cfg.toPingConfig env fuel [t] = .ok none ∨
      ∃ outs s, pingLoop cfg.toPingConfig env fuel [t] = .ok (some s) ∧
        OneTarget cfg.toPingConfig env outs s ∧ outs.length ≤ cfg.count ∧
        ((∀ k, env.quitting k = false) → outs.length = cfg.count) := by
  have hpoll := poll_bounded (pingRound cfg.toPingConfig env) (fun _ s => s.more)
    (P := fun k s => ∃ outs : List (Option ℕ), outs.length = k ∧ OneTarget cfg.toPingConfig env outs s)
    (E := (· = .divisionByZero)) (n := cfg.count)
    (fun k s hk ⟨outs, hl, hs⟩ => by
      subst hl
      rcases pingRound_one hs hk with he | ⟨status, s', hok, hs'⟩
      · exact .inl ⟨_, he, rfl⟩
      · exact .inr ⟨s', hok, outs ++ [status], by simp, hs'⟩)
    (fun k s ⟨outs, hl, hs⟩ hm => by
      have hne : outs ≠ [] := List.ne_nil_of_length_eq_add_one hl
      rw [hs.more hne] at hm
      have := pingMore_lt hm
      rw [hs.loopCount] at this
      omega)
    fuel cfg.count_pos ⟨[], rfl, oneTarget_start ht⟩
  unfold pingLoop
  rw [if_neg (by simp)]
  rcases hpoll with ⟨e, he, rfl⟩ | ⟨he, -⟩ | ⟨r, s, hs, hr, ⟨outs, hl, hP⟩, hm⟩
  · exact .inl (by simp [he, bind, Except.bind])
  · exact .inr (.inl (by simp [he, bind, Except.bind]))
  · refine .inr (.inr ⟨outs, s, by simp [hs, bind, Except.bind], hP, by omega, ?_⟩)
    intro hq
    rw [hP.more (List.ne_nil_of_length_eq_add_one hl)] at hm
    have hge := pingMore_not hm hq
    rw [hP.loopCount] at hge
    omega

/-- The column of a round is `-` without an answer. -/
theorem column_getD (status : Option ℕ) : column (status.getD 0) = status.bind column := by
  cases status with
  | none => rfl
  | some us => rfl

/-- The summary of one target has the outcomes of its rounds as columns. -/
theorem printSummary_one (h : OneTarget cfg.toPingConfig env outs s) :
    printSummary s.totalSent s.targets = .ok [outs.map (·.bind column)] := by
  obtain ⟨t, hts, hres⟩ := h.targets
  rw [hts, h.totalSent]
  simp only [printSummary, summaryColumns, hres, bind, Except.bind]
  rw [List.take_left' (by simp), List.map_map]
  simp [Function.comp_def, column_getD]

end

/-! ## The whole run -/

/-- Every write and read of a run is inside the arrays, every target is pinged in every round (of
    a run without an interrupt), and the columns of the summary are its response times. -/
structure ColumnsRight (cfg : PingConfig) (env : PingEnv) (res : Resolver) (args : List CString)
    (T : ℕ) : Prop where
  inBounds : ∀ fuel, pingMain cfg env res fuel args ≠ .error .outOfBounds
  columns : ∀ fuel r, pingMain cfg env res fuel args = .ok (some r) →
    ∀ k j status, (k, j, status) ∈ pings r.state.trace →
      ∃ cols, r.summary[j]? = some cols ∧ cols[k]? = some (status.bind column)
  pinged : ∀ fuel r, pingMain cfg env res fuel args = .ok (some r) →
    (∀ k, env.quitting k = false) → ∀ k < cfg.count, ∀ j < T,
      ∃ status, (k, j, status) ∈ pings r.state.trace

section
variable {cfg : FpingConfig} {env : PingEnv} {res : Resolver} {args : List CString} {ts : List Target}

/-- Under `-C` every target has room for the results. -/
theorem FpingConfig.makes (hts : pingTargets cfg.toPingConfig res cfg.count dummyTargets args = .ok ts) :
    pingTargets cfg.toPingConfig res (if cfg.format = .fping then cfg.count else 0) dummyTargets args =
      .ok ts := by
  rw [if_pos cfg.format_eq]
  exact hts

/-- The run once the checks have accepted the targets. -/
theorem pingMain_eq (h : pingSetup cfg.toPingConfig res args = .ok ts) (fuel : ℕ) :
    pingMain cfg.toPingConfig env res fuel args =
      pingLoop cfg.toPingConfig env fuel ts >>= pingFinish cfg.toPingConfig := by
  unfold pingMain
  rw [h]
  rfl

theorem pingFinish_some (s : PingState) : pingFinish cfg.toPingConfig (some s) =
    printSummary s.totalSent s.targets >>= fun summary =>
      .ok (some ⟨s, summary, if s.totalRecv < s.totalSent then 1 else 0⟩) := by
  simp only [pingFinish, cfg.format_eq, if_true]

/-- What a run with one target at most can come to. -/
theorem pingMain_one (env : PingEnv)
    (hts : pingTargets cfg.toPingConfig res cfg.count dummyTargets args = .ok ts)
    (h1 : ts.tail.length ≤ 1) (fuel : ℕ) :
    (∃ e, pingMain cfg.toPingConfig env res fuel args = .error e ∧ e ≠ .outOfBounds) ∨
      pingMain cfg.toPingConfig env res fuel args = .ok none ∨
      ∃ r, pingMain cfg.toPingConfig env res fuel args = .ok (some r) ∧
        ((ts.tail.length = 0 ∧ pings r.state.trace = []) ∨
          ∃ outs, OneTarget cfg.toPingConfig env outs r.state ∧ r.summary = [outs.map (·.bind column)] ∧
            ((∀ k, env.quitting k = false) → outs.length = cfg.count)) := by
  have hres := pingTargets_results hts
  obtain hsetup | ⟨e, hsetup, he⟩ := pingSetup_cases (cfg.makes hts)
  swap
  · refine .inl ⟨e, ?_, he⟩
    unfold pingMain
    rw [hsetup]
    rfl
  · rw [pingMain_eq hsetup]
    rcases hcases : ts.tail with _ | ⟨t, _ | ⟨u, us⟩⟩
    · refine .inr (.inr ⟨{ state := { targets := [] }, summary := [], status := 0 }, ?_, .inl ⟨rfl, rfl⟩⟩)
      change pingFinish cfg.toPingConfig (some { targets := [] }) = _
      rw [pingFinish_some]
      rfl
    · rw [hcases] at hres
      rcases pingLoop_one cfg env (hres t List.mem_cons_self) fuel with
        he | he | ⟨outs, s, hs, hP, hl, hq⟩
      · exact .inl ⟨.divisionByZero, by simp [he, bind, Except.bind], by simp⟩
      · exact .inr (.inl (by simp [he, pingFinish, bind, Except.bind]))
      · refine .inr (.inr ⟨{ state := s, summary := [outs.map (·.bind column)]
                             status := if s.totalRecv < s.totalSent then 1 else 0 }, ?_,
          .inr ⟨outs, hP, rfl, hq⟩⟩)
        rw [hs]
        change pingFinish cfg.toPingConfig (some s) = _
        rw [pingFinish_some, printSummary_one hP]
        rfl
    · rw [hcases] at h1
      simp at h1

theorem columnsRight_one (hts : pingTargets cfg.toPingConfig res cfg.count dummyTargets args = .ok ts)
    (h1 : ts.tail.length ≤ 1) :
    ColumnsRight cfg.toPingConfig env res args ts.tail.length := by
  refine ⟨fun fuel he => ?_, fun fuel r hr k j status hm => ?_, fun fuel r hr hq k hk j hj => ?_⟩
  all_goals rcases pingMain_one env hts h1 fuel with
    ⟨e, he', hne⟩ | he' | ⟨r', hr', hcases⟩
  · exact hne (Except.error.inj (he'.symm.trans he))
  · simp [he'] at he
  · simp [hr'] at he
  · simp [he'] at hr
  · simp [he'] at hr
  · obtain rfl : r' = r := by simpa using hr'.symm.trans hr
    rcases hcases with ⟨-, hp⟩ | ⟨outs, hP, hsum, -⟩
    · simp [hp] at hm
    · rw [hP.pings, List.mem_mapIdx] at hm
      obtain ⟨i, hi, heq⟩ := hm
      simp only [Prod.mk.injEq] at heq
      obtain ⟨rfl, rfl, rfl⟩ := heq
      exact ⟨_, by rw [hsum]; rfl, by simp [hi]⟩
  · simp [he'] at hr
  · simp [he'] at hr
  · obtain rfl : r' = r := by simpa using hr'.symm.trans hr
    rcases hcases with ⟨hl, -⟩ | ⟨outs, hP, -, hlen⟩
    · omega
    · obtain rfl : j = 0 := by omega
      have hk' : k < outs.length := by rwa [hlen hq]
      refine ⟨outs[k], ?_⟩
      rw [hP.pings, List.mem_mapIdx]
      exact ⟨k, hk', rfl⟩

/-- A run that stops before its first round leaves no array. -/
theorem columnsRight_stopped (hts : pingTargets cfg.toPingConfig res cfg.count dummyTargets args = .ok ts)
    (hne : ts.tail ≠ []) (hstop : ¬ Starts cfg.toPingConfig ts.tail) (T : ℕ) :
    ColumnsRight cfg.toPingConfig env res args T := by
  obtain hsetup | ⟨e, hsetup, he⟩ := pingSetup_cases (cfg.makes hts)
  · exact absurd ((pingSetup_iff hne (cfg.makes hts)).1 hsetup) hstop
  · have hmain : ∀ fuel, pingMain cfg.toPingConfig env res fuel args = .error e := by
      intro fuel
      unfold pingMain
      rw [hsetup]
      rfl
    refine ⟨?_, ?_, ?_⟩
    · intro fuel h
      exact he (Except.error.inj ((hmain fuel).symm.trans h))
    · intro fuel r h
      exact absurd ((hmain fuel).symm.trans h) (by simp)
    · intro fuel r h
      exact absurd ((hmain fuel).symm.trans h) (by simp)

/-- With several targets a run without an interrupt leaves the arrays. -/
theorem pingMain_many (hts : pingTargets cfg.toPingConfig res cfg.count dummyTargets args = .ok ts)
    (h1 : 1 < ts.tail.length) (hq : ∀ k, env.quitting k = false) (hp : PeriodOk cfg.toPingConfig)
    (hstart : Starts cfg.toPingConfig ts.tail)
    (hT : cfg.count * ts.tail.length < 2 ^ 64) :
    pingMain cfg.toPingConfig env res cfg.count args = .error .outOfBounds := by
  have hne : ts.tail ≠ [] := List.ne_nil_of_length_pos (by omega)
  rw [pingMain_eq ((pingSetup_iff hne (cfg.makes hts)).2 hstart)]
  rcases pingLoop_many hT h1 hq hp (pingTargets_results hts) with he | ⟨s, hs, he⟩
  · simp [he, bind, Except.bind]
  · rw [hs]
    change pingFinish cfg.toPingConfig (some s) = _
    rw [pingFinish_some, he]
    rfl

end

/-- `nfsping -C 1`. -/
def pingOnce : FpingConfig where
  format := .fping
  count := 1
  format_eq := rfl
  loop_eq := rfl
  count_pos := by decide
  count_lt := by decide

/-- Every ping is answered after 5 microseconds. -/
def answersAll : PingEnv where
  connect _ := true
  ping _ := some 5

def twoAddresses : List CString := ["10.0.0.1".toList, "10.0.0.2".toList]

end NFStash
