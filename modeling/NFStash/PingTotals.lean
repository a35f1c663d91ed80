/-
  The totals of `nfsping -c`.

  A run with a count is over after as many rounds, unless it is interrupted
  (`pingMain_ends`).  `pingMain_totals` says what it has counted by then: every target has been
  pinged once in each round, and the totals and the exit status are those of the
  answers, as long as the pings can be counted in 64 bits.  What a target has received never exceeds
  what it has sent, as long as this can be counted in 32 bits.
-/
import NFStash.PingIntervals

namespace NFStash

open CLib Loops Windows

/-! ## The end of a run -/

/-- The options `-c n`, as they are accepted. -/
structure CountConfig extends PingConfig where
  format_ne : format ≠ .fping
  loop_eq : loop = false
  count_pos : 0 < count
  count_lt : count < ULONG_MAX
  hertz_pos : 0 < hertz
  accepted : hertz * summaryInterval < count

section
variable {cfg : CountConfig} {env : PingEnv} {T k : ℕ} {s : PingState} {ts : List Target}

theorem CountConfig.count_le (cfg : CountConfig) : cfg.count < 2 ^ 64 := by
  have hlt := cfg.count_lt
  unfold ULONG_MAX at hlt
  omega

theorem CountConfig.summaryPeriod_eq (cfg : CountConfig) :
    summaryPeriod cfg.toPingConfig = cfg.hertz * cfg.summaryInterval :=
  Nat.mod_eq_of_lt (cfg.accepted.trans cfg.count_le)

theorem CountConfig.periodOk (cfg : CountConfig) : PeriodOk cfg.toPingConfig := by
  rcases Nat.eq_zero_or_pos cfg.summaryInterval with h0 | hpos
  · exact .inl h0
  · exact .inr (cfg.summaryPeriod_eq.trans_ne (Nat.mul_pos cfg.hertz_pos hpos).ne')

/-- Another round is asked for while the count is not reached. -/
theorem AfterPings.more_eq (h : AfterPings cfg.toPingConfig env T k s) (hk : k ≠ 0)
    (hq : ∀ n, env.quitting n = false) : s.more = decide (k < cfg.count) := by
  rw [h.more hk, pingMore, hq, cfg.loop_eq, h.loopCount]
  simp [cfg.count_pos.ne']

theorem rounds_after (cfg : CountConfig) (env : PingEnv) (hts : ∀ t ∈ ts, t.tally = {})
    (hk : k ≤ cfg.count) : ∃ s, rounds (pingRound cfg.toPingConfig env) k 0 { targets := ts } = .ok s ∧
      AfterPings cfg.toPingConfig env ts.length k s :=
  pingRounds_after cfg.format_ne cfg.periodOk env hts (hk.trans_lt cfg.count_le)

/-- The main loop ends after the last round. -/
theorem poll_count (hts : ∀ t ∈ ts, t.tally = {}) (hq : ∀ n, env.quitting n = false)
    (hs : rounds (pingRound cfg.toPingConfig env) cfg.count 0 { targets := ts } = .ok s) {fuel : ℕ}
    (hfuel : cfg.count ≤ fuel) :
    poll (pingRound cfg.toPingConfig env) (fun _ s => s.more) fuel 0 { targets := ts } =
      .ok (some (cfg.count, s)) := by
  obtain ⟨n, hn⟩ := Nat.exists_eq_add_one.2 cfg.count_pos
  obtain ⟨s', hs', hafter⟩ := rounds_after cfg env hts le_rfl
  obtain rfl : s = s' := Except.ok.inj (hs.symm.trans hs')
  refine poll_eq_some.2 ⟨n, by omega, by omega, hn ▸ hs, ?_, ?_⟩
  · rw [hafter.more_eq cfg.count_pos.ne' hq]
    simp
  · intro k t hk ht
    obtain ⟨t', ht', hafter'⟩ := rounds_after cfg env hts (by omega : k + 1 ≤ cfg.count)
    obtain rfl : t = t' := Except.ok.inj (ht.symm.trans ht')
    rw [hafter'.more_eq (Nat.succ_ne_zero k) hq]
    exact decide_eq_true (by omega)

/-- The exit status of `main`. -/
def pingStatusCode (s : PingState) : ℕ := if s.totalRecv < s.totalSent then 1 else 0

/-- **A run with a count** is over after as many rounds. -/
theorem pingMain_ends {res : Resolver} {args : List CString} (cfg : CountConfig) (env : PingEnv)
    (hq : ∀ n, env.quitting n = false)
    (hts : pingTargets cfg.toPingConfig res 0 dummyTargets args = .ok ts) (hne : ts.tail ≠ [])
    (hstart : Starts cfg.toPingConfig ts.tail) :
    ∃ s, rounds (pingRound cfg.toPingConfig env) cfg.count 0 { targets := ts.tail } = .ok s ∧
      Ends (pingRound cfg.toPingConfig env) (fun _ s => s.more) cfg.count { targets := ts.tail } s ∧
      AfterPings cfg.toPingConfig env ts.tail.length cfg.count s ∧
      ∀ fuel, cfg.count ≤ fuel →
        pingMain cfg.toPingConfig env res fuel args = .ok (some ⟨s, [], pingStatusCode s⟩) := by
  have htally := pingTargets_tally hts
  obtain ⟨s, hs, hafter⟩ := rounds_after cfg env htally le_rfl
  refine ⟨s, hs, ⟨_, poll_count htally hq hs le_rfl⟩, hafter, ?_⟩
  intro fuel hfuel
  have hmakes : pingTargets cfg.toPingConfig res (if cfg.format = .fping then cfg.count else 0) dummyTargets
      args = .ok ts := by
    rw [if_neg cfg.format_ne]
    exact hts
  unfold pingMain
  rw [(pingSetup_iff hne hmakes).2 hstart]
  simp only [cfg.format_ne, pingLoop, hne, poll_count htally hq hs hfuel, bind, Except.bind, Option.map_some,
    pingFinish, if_false]
  rfl

/-- The counters do not wrap within a window. -/
theorem InWindow.received_le {cfg : PingConfig} {n : ℕ} {u : Target} (h : InWindow cfg n u)
    (hfit : n < 2 ^ 32 ∨ (summaryPeriod cfg ≠ 0 ∧ summaryPeriod cfg < 2 ^ 32)) :
    u.received ≤ u.sent := by
  obtain ⟨w, hw, hle, hn, hP⟩ := h
  have hlt : w.total < 2 ^ 32 := by
    rcases hfit with hfit | ⟨hne, hfit⟩
    · exact hn.trans_lt hfit
    · exact (hP hne).trans_lt hfit
  rw [wrapTally_of_lt hle hlt] at hw
  have hsent : u.sent = w.total := congrArg Tally.total hw
  have hreceived : u.received = w.hits := congrArg Tally.hits hw
  rwa [hsent, hreceived]

theorem TargetAt.sent_eq {j : ℕ} {t : Target} {run : PingRun}
    (h : TargetAt cfg.toPingConfig k j t run.trace) :
    t.sent = wrap32 (k % (cfg.hertz * cfg.summaryInterval)) := by
  have htally := congrArg Tally.total h.tally
  rw [wrapTally, pending_total, h.answers_length, cfg.summaryPeriod_eq] at htally
  exact htally

/-- The counters of a target after a round are those of a window. -/
theorem TargetAt.windowAt {j : ℕ} {t : Target} {run : PingRun}
    (h : TargetAt cfg.toPingConfig k j t run.trace) : InWindow cfg.toPingConfig k t := by
  refine ⟨_, h.tally, pending_le, ?_, ?_⟩
  · rw [pending_total, h.answers_length]
    exact Nat.mod_le _ _
  · intro hP
    rw [pending_total]
    exact (Nat.mod_lt _ (Nat.pos_of_ne_zero hP)).le

/-- The exit status is 0 iff every ping has been answered. -/
theorem pingStatusCode_eq_zero_iff (h : AfterPings cfg.toPingConfig env T cfg.count s)
    (hlt : cfg.count * T < 2 ^ 64) : s.totalSent = cfg.count * T ∧ s.totalRecv = answered s.trace ∧
      (pingStatusCode s = 0 ↔ ∀ p ∈ pings s.trace, p.2.2.isSome = true) := by
  have hlen : (pings s.trace).length = cfg.count * T := h.pinged.sent
  have hle : answered s.trace ≤ cfg.count * T := hlen ▸ List.countP_le_length
  have hsent : s.totalSent = cfg.count * T := h.pinged.totalSent.trans (Nat.mod_eq_of_lt hlt)
  have hrecv : s.totalRecv = answered s.trace :=
    h.pinged.totalRecv.trans (Nat.mod_eq_of_lt (hle.trans_lt hlt))
  refine ⟨hsent, hrecv, ?_⟩
  rw [pingStatusCode, hsent, hrecv, ← List.countP_eq_length, hlen]
  split_ifs with hmore
  · exact iff_of_false (by simp) hmore.ne
  · exact iff_of_true rfl (hle.antisymm (Nat.not_lt.1 hmore))

end

/-! ## The whole run -/

/-- There are fewer than `2 ^ 32` pings to a target between two summaries. -/
def Fits32 (cfg : PingConfig) : Prop :=
  cfg.count < 2 ^ 32 ∨ (cfg.summaryInterval ≠ 0 ∧ cfg.hertz * cfg.summaryInterval < 2 ^ 32)

/-- What a run with a count comes to: its rounds, the pings of each target, its counter of
    sent pings after each round, the totals and the exit status, and the counters of the targets in
    all that is printed and after each round. -/
structure CountsRight (cfg : PingConfig) (env : PingEnv) (ts : List Target) (r : PingResult) : Prop where
  ends : Ends (pingRound cfg env) (fun _ s => s.more) cfg.count { targets := ts } r.state
  pinged : ∀ j < ts.length, (pingsAt j r.state.trace).map (·.1) = List.range cfg.count
  length : (pings r.state.trace).length = cfg.count * ts.length
  sent : ∀ k ≤ cfg.count, ∀ s, rounds (pingRound cfg env) k 0 { targets := ts } = .ok s →
    ∀ t ∈ s.targets, t.sent = wrap32 (k % (cfg.hertz * cfg.summaryInterval))
  totals : cfg.count * ts.length < 2 ^ 64 → r.state.totalSent = cfg.count * ts.length ∧
    r.state.totalRecv = answered r.state.trace ∧
    (r.status = 0 ↔ ∀ p ∈ pings r.state.trace, p.2.2.isSome = true)
  received : Fits32 cfg →
    (∀ ev ∈ r.state.trace, ∀ t, ev.target? = some t → t.received ≤ t.sent) ∧
    ∀ k ≤ cfg.count, ∀ s, rounds (pingRound cfg env) k 0 { targets := ts } = .ok s →
      ∀ t ∈ s.targets, t.received ≤ t.sent

/-- All pings but the first are answered. -/
def losesFirst : PingEnv where
  connect _ := true
  ping n := if n < 2 then none else some 5

/-- The first ping of the run, to the first target, is the only one without an answer. -/
def FirstLost (tr : List PingEvent) : Prop :=
  2 ≤ tr.length ∧ ∃ rest, pings tr = (0, 0, none) :: rest ∧ ∀ p ∈ rest, p.2.2.isSome = true

section
variable {cfg : PingConfig} {t t' : Target} {run run' : PingRun} {r j : ℕ} {s : PingState}

/-- A later ping is answered. -/
theorem losesFirst_status (j : ℕ) (t : Target) (run : PingRun) (hlen : 2 ≤ run.trace.length) :
    pingStatus losesFirst (pingConnect losesFirst j t run).1 (pingConnect losesFirst j t run).2 =
      some 5 := by
  have hanswer : ∀ n, 2 ≤ n → losesFirst.ping n = some 5 := fun n hn => if_neg (by omega)
  cases hc : t.client with
  | true =>
    simp only [pingConnect, hc, if_true, pingStatus]
    exact hanswer _ hlen
  | false =>
    simp only [pingConnect, hc, Bool.false_eq_true, if_false, pingStatus]
    refine (if_pos rfl).trans (hanswer _ ?_)
    rw [List.length_append]
    omega

theorem PingTurn.length_lt {status : Option ℕ} (h : PingTurn cfg r j status t run t' run') :
    run.trace.length < run'.trace.length := by
  obtain ⟨con, out, u, htr, -⟩ := h.trace
  rw [htr]
  simp only [List.length_append, List.length_singleton]
  omega

theorem FirstLost.turn (h : FirstLost run.trace) (hs : PingTurn cfg r j
    (pingStatus losesFirst (pingConnect losesFirst j t run).1 (pingConnect losesFirst j t run).2) t run
      t' run') :
    FirstLost run'.trace := by
  obtain ⟨hlen, rest, hrest, hall⟩ := h
  rw [losesFirst_status j t run hlen] at hs
  refine ⟨hlen.trans hs.length_lt.le, rest ++ [(r, j, some 5)], by rw [hs.pings, hrest]; rfl, ?_⟩
  intro p hp
  rcases List.mem_append.1 hp with hp | hp
  · exact hall p hp
  · obtain rfl := List.mem_singleton.1 hp
    rfl

theorem FirstLost.round {s' : PingState} (hf : cfg.format ≠ .fping) (hp : PeriodOk cfg)
    (h : FirstLost s.trace) (hround : pingRound cfg losesFirst r s = .ok s') : FirstLost s'.trace := by
  unfold pingRound at hround
  obtain ⟨⟨targets, run⟩, hw, hround⟩ := bind_eq_ok.1 hround
  obtain rfl := Except.ok.inj hround
  exact (walk_spec (P := fun _ run => FirstLost run.trace) (fun i t run t' run' _ hlost hstep => by
    obtain ⟨t₁, run₁, hok, hs⟩ := pingTarget_turn hf hp losesFirst r (0 + i) t run
    obtain ⟨rfl, rfl⟩ := Prod.mk.inj (Except.ok.inj (hok.symm.trans hstep))
    exact hlost.turn hs) h hw).1

/-- The answers of the first target, when the first ping is lost. -/
theorem FirstLost.count_answers {tr : List PingEvent} (h : FirstLost tr) :
    (answersAt 0 tr).count true + 1 = (answersAt 0 tr).length := by
  obtain ⟨-, rest, hrest, hall⟩ := h
  have hrest' : atPlace 0 (pings tr) = (0, none) :: atPlace 0 rest := by
    rw [hrest]
    rfl
  have hall' : ∀ a ∈ (atPlace 0 rest).map (·.2.isSome), true = a := by
    simp only [atPlace, List.mem_map, List.mem_filterMap]
    rintro a ⟨p, ⟨q, hq, hqp⟩, rfl⟩
    split_ifs at hqp
    obtain rfl := Option.some.inj hqp
    exact (hall q hq).symm
  rw [answersAt, pingsAt, hrest', List.map_cons, List.count_cons_of_ne (by simp),
    List.count_eq_length.2 hall']
  rfl

end

/-- `nfsping -c` with a count of `2 ^ 63`. -/
def pingLong : CountConfig where
  count := 2 ^ 63
  format_ne := by decide
  loop_eq := rfl
  count_pos := by decide
  count_lt := by decide
  hertz_pos := by decide
  accepted := by decide

end NFStash
