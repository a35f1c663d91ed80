/-
  The tables at the end of a run of `nfsping`.

  In `ping` format `print_summary` prints a table for each target, from a histogram that is never reset:
  `pingTarget_responses` is one turn, and `pingMain_tables` says of which times the tables are.
-/
import NFStash.HdrTable
import NFStash.PingIntervals
import NFStash.PingQuantiles

namespace NFStash

open CLib Loops

/-- The string that `display_name` points to. -/
def Target.displayed (target : Target) : Option CString :=
  match target.displayName with
  | .null => none
  | .name => some target.name
  | .ipAddress => some target.ipAddress

/-- `print_summary` in `ping` format: the name and the table of each target. -/
def printTables (libm : Libm) (h₀ : HdrHistogram) (fuel : ℕ) (targets : List Target) :
    List (Option CString × Except HdrError (List PercentileRow × PercentilesFooter)) :=
  targets.map fun target =>
    (target.displayed, hdrPercentilesPrint libm (recorded h₀ target.histogram) 5 1000 fuel)

/-- The times of the answers of a target. -/
def responses (j : ℕ) (tr : List PingEvent) : List ℕ := (pingsAt j tr).filterMap Prod.snd

section
variable {cfg : PingConfig} {env : PingEnv} {r i j : ℕ} {t t' : Target} {run run' : PingRun}
  {status : Option ℕ} {tr tr' : List PingEvent}

theorem responses_ping (h : pings tr' = pings tr ++ [(r, i, status)]) :
    responses j tr' = responses j tr ++ if i = j then status.toList else [] := by
  rw [responses, pingsAt, h, atPlace_append, List.filterMap_append]
  split_ifs with hij
  · subst hij
    rw [atPlace_same]
    cases status <;> rfl
  · rw [atPlace_other r status hij]
    rfl

theorem pingConnect_histogram (h : pingConnect env j t run = (t', run')) : t'.histogram = t.histogram := by
  unfold pingConnect at h
  split_ifs at h
  · rw [← (Prod.mk.inj h).1]
  · rw [← (Prod.mk.inj h).1]

/-- The time of an answer is recorded. -/
theorem pingOutcome_histogram (hformat : cfg.format ≠ .fping)
    (h : pingOutcome cfg env status t run = .ok (t', run')) :
    t'.histogram = t.histogram ++ status.toList := by
  cases status with
  | some us =>
    obtain ⟨u, hu, h⟩ := bind_eq_ok.1 h
    obtain ⟨rfl, rfl⟩ := Prod.mk.inj (Except.ok.inj h)
    rw [pingRecord, if_neg hformat] at hu
    obtain rfl := Except.ok.inj hu
    rfl
  | none =>
    have heq := Except.ok.inj h
    rw [Option.toList_none, List.append_nil]
    unfold pingFailure at heq
    split_ifs at heq
    · rw [← (Prod.mk.inj heq).1]
    · rw [← (Prod.mk.inj heq).1]

/-- An interval summary does not touch it. -/
theorem pingInterval_histogram (hformat : cfg.format ≠ .fping) (h : pingInterval cfg t run = .ok (t', run')) :
    t'.histogram = t.histogram := by
  rcases pingInterval_ok h with ⟨rfl, rfl⟩ | ⟨rfl, rfl⟩
  · rfl
  · rw [resetCounters, if_neg hformat]

theorem pingOutcome_pings (h : pingOutcome cfg env status t run = .ok (t', run')) :
    pings run'.trace = pings run.trace := by
  cases status with
  | some us =>
    obtain ⟨u, hu, h⟩ := bind_eq_ok.1 h
    obtain ⟨rfl, rfl⟩ := Prod.mk.inj (Except.ok.inj h)
    dsimp only
    split_ifs
    · rw [List.append_nil]
    · rw [pings_append]
      exact List.append_nil _
  | none =>
    have hsame := (pingFailure_same env t run).2.2.2
    rwa [Except.ok.inj h] at hsame

/-- Every turn is a ping. -/
theorem pingTarget_pings (h : pingTarget cfg env r j t run = .ok (t', run')) : ∃ t₁ run₁,
    pingConnect env j t run = (t₁, run₁) ∧
      pings run'.trace = pings run.trace ++ [(r, j, pingStatus env t₁ run₁)] := by
  obtain ⟨t₁, run₁, t₂, run₂, t₃, hconnect, houtcome, hinterval, -⟩ := pingTarget_ok.1 h
  refine ⟨t₁, run₁, hconnect, ?_⟩
  have hsame := (pingConnect_same env j t run).2.2.2
  rw [hconnect] at hsame
  have hend : pings run'.trace = pings run₂.trace := by
    rcases pingInterval_ok hinterval with ⟨-, rfl⟩ | ⟨-, rfl⟩
    · rfl
    · rw [pings_append]
      exact List.append_nil _
  rw [hend, pingOutcome_pings houtcome, pings_append, hsame]
  rfl

/-- The histogram of a target is that of its answers. -/
structure Responded (tr : List PingEvent) (j : ℕ) (t : Target) : Prop where
  histogram : t.histogram = responses j tr
  le : ∀ us ∈ responses j tr, us ≤ ULONG_MAX

/-- **One turn.** -/
theorem pingTarget_responses (hformat : cfg.format ≠ .fping)
    (hus : ∀ n us, env.ping n = some us → us ≤ ULONG_MAX) (ht : Responded run.trace j t)
    (h : pingTarget cfg env r j t run = .ok (t', run')) :
    Responded run'.trace j t' ∧ ∀ k, k ≠ j → responses k run'.trace = responses k run.trace := by
  obtain ⟨u, run₀, hstart, htr⟩ := pingTarget_pings h
  obtain ⟨t₁, run₁, t₂, run₂, t₃, hconnect, houtcome, hinterval, rfl⟩ := pingTarget_ok.1 h
  obtain ⟨rfl, rfl⟩ := Prod.mk.inj (hconnect.symm.trans hstart)
  have ht₁ := pingConnect_histogram hconnect
  have ht₂ := pingOutcome_histogram hformat houtcome
  have ht₃ := pingInterval_histogram hformat hinterval
  refine ⟨⟨?_, ?_⟩, fun k hk => ?_⟩
  · rw [responses_ping htr, if_pos rfl, ← ht.histogram, ← ht₁]
    exact ht₃.trans ht₂
  · rw [responses_ping htr, if_pos rfl]
    refine List.forall_mem_append.2 ⟨ht.le, fun us hmem => ?_⟩
    have hs : pingStatus env t₁ run₁ = some us := Option.mem_toList.1 hmem
    rw [pingStatus] at hs
    split_ifs at hs
    exact hus _ us hs
  · rw [responses_ping htr, if_neg (Ne.symm hk), List.append_nil]

theorem pingRound_responses {s s' : PingState} (hformat : cfg.format ≠ .fping)
    (hus : ∀ n us, env.ping n = some us → us ≤ ULONG_MAX)
    (hs : ∀ j t, s.targets[j]? = some t → Responded s.trace j t) (h : pingRound cfg env r s = .ok s') :
    ∀ j t, s'.targets[j]? = some t → Responded s'.trace j t := by
  unfold pingRound at h
  obtain ⟨⟨targets, run⟩, hw, h⟩ := bind_eq_ok.1 h
  obtain rfl := Except.ok.inj h
  refine (walk_each
    (P := fun i run => ∀ j t, i ≤ j → s.targets[j]? = some t → Responded run.trace j t)
    (Q := fun j t run => Responded run.trace j t)
    (fun i t run t' run' ht hP hstep => ?_) (fun j t _ ht => hs j t ht) hw).2
  rw [Nat.zero_add] at hstep
  obtain ⟨hresponded, hothers⟩ := pingTarget_responses hformat hus (hP i t (le_refl i) ht) hstep
  have hkeep : ∀ j u, j ≠ i → Responded run.trace j u → Responded run'.trace j u := by
    intro j u hj hu
    exact ⟨by rw [hothers j hj]; exact hu.histogram, by rw [hothers j hj]; exact hu.le⟩
  exact ⟨fun j u hj hu => hkeep j u (by omega) (hP j u (by omega) hu), hresponded,
    fun j u hj hu => hkeep j u (by omega) hu⟩

theorem madeTarget_histogram_all {res : Resolver} {dns displayIps : Bool} {path : Option CString} {count : ℕ}
    (targetName : CString) (ip : InAddr) (t : Target) :
    (madeTarget res dns displayIps path count targetName ip t).histogram = t.histogram := by
  obtain ⟨name, displayName, ndqf, heq⟩ := madeTarget_eq targetName ip t
  rw [heq]
  cases path with
  | none => rfl
  | some path => rfl

/-- The targets of the command line have no answers. -/
theorem pingTargets_histogram {res : Resolver} {count : ℕ} {head ts : List Target} {args : List CString}
    (h : pingTargets cfg res count head args = .ok ts) (hh : Headed (fun t => t.histogram = []) head) :
    Headed (fun t => t.histogram = []) ts := by
  induction args generalizing head with
  | nil =>
    obtain rfl := Except.ok.inj h
    exact hh
  | cons arg args ih =>
    obtain ⟨r, hr, h⟩ := bind_eq_ok.1 h
    exact ih h ((makeTarget_makes hr).1.headed (fun _ => rfl) (fun ip t => madeTarget_update arg ip t)
      (fun ip t ht => (madeTarget_histogram_all arg ip t).trans ht) hh)

/-- A run that has ended: its targets and its main loop. -/
theorem pingMain_loop {res : Resolver} {fuel : ℕ} {args : List CString} {result : PingResult}
    (h : pingMain cfg env res fuel args = .ok (some result)) : ∃ ts,
      pingTargets cfg res (if cfg.format = .fping then cfg.count else 0) dummyTargets args = .ok ts ∧
      pingLoop cfg env fuel ts.tail = .ok (some result.state) := by
  obtain ⟨us, hsetup, h⟩ := bind_eq_ok.1 h
  obtain ⟨ts, hts, rfl⟩ := pingSetup_ok hsetup
  obtain ⟨state, hloop, h⟩ := bind_eq_ok.1 h
  refine ⟨ts, hts, ?_⟩
  cases state with
  | none => cases h
  | some s =>
    simp only [pingFinish] at h
    by_cases hformat : cfg.format = .fping
    · rw [if_pos hformat] at h
      obtain ⟨summary, -, h⟩ := bind_eq_ok.1 h
      obtain rfl := Option.some.inj (Except.ok.inj h)
      exact hloop
    · rw [if_neg hformat] at h
      obtain ⟨summary, -, h⟩ := bind_eq_ok.1 h
      obtain rfl := Option.some.inj (Except.ok.inj h)
      exact hloop

/-- The rounds of a main loop that has ended. -/
theorem pingLoop_rounds {fuel : ℕ} {ts : List Target} {s : PingState} (hne : ts ≠ [])
    (h : pingLoop cfg env fuel ts = .ok (some s)) :
    ∃ n, rounds (pingRound cfg env) (n + 1) 0 { targets := ts } = .ok s := by
  unfold pingLoop at h
  rw [if_neg hne] at h
  obtain ⟨res, hpoll, hres⟩ := bind_eq_ok.1 h
  cases res with
  | none => cases hres
  | some res =>
    obtain rfl := Option.some.inj (Except.ok.inj hres)
    obtain ⟨n, -, -, hrounds, -⟩ := poll_eq_some.1 hpoll
    exact ⟨n, hrounds⟩

/-- What the rounds keep holds at the end of the main loop. -/
theorem pingLoop_inv {P : PingState → Prop} {fuel : ℕ} {ts : List Target} {s : PingState}
    (hround : ∀ r s s', P s → pingRound cfg env r s = .ok s' → P s') (hstart : P { targets := ts })
    (h : pingLoop cfg env fuel ts = .ok (some s)) : P s := by
  by_cases hne : ts = []
  · unfold pingLoop at h
    rw [if_pos hne] at h
    obtain rfl := Option.some.inj (Except.ok.inj h)
    exact hstart
  · obtain ⟨n, hrounds⟩ := pingLoop_rounds hne h
    exact rounds_inv (P := fun _ s => P s) (fun k s s' _ hs hstep => hround (0 + k) s s' hs hstep) hstart hrounds

/-- **Whole runs.** -/
theorem pingMain_responses {res : Resolver} {fuel : ℕ} {args : List CString} {result : PingResult}
    (hformat : cfg.format ≠ .fping) (hus : ∀ n us, env.ping n = some us → us ≤ ULONG_MAX)
    (h : pingMain cfg env res fuel args = .ok (some result)) :
    ∀ j t, result.state.targets[j]? = some t → Responded result.state.trace j t := by
  obtain ⟨ts, hts, hloop⟩ := pingMain_loop h
  refine pingLoop_inv (P := fun s => ∀ j t, s.targets[j]? = some t → Responded s.trace j t)
    (fun r s s' hs hstep => pingRound_responses hformat hus hs hstep) ?_ hloop
  obtain ⟨d, rest, rfl, -, -, hrest⟩ := pingTargets_histogram hts (headed_dummyTargets _)
  exact fun j t ht => ⟨(hrest t (List.mem_of_getElem? ht)).2.2, nofun⟩

end

end NFStash
