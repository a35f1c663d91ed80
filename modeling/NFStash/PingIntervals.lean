/-
  The counters of `nfsping` and its interval summaries.

  `pingTarget_turn` says what one ping does to the counters, and to what is seen of the run.  The
  counters of a target are those of an open window of its pings, which is closed and shown
  in every round whose number is a multiple of the period: `TargetAt` relates a target after
  any number of rounds to the windows over its answers, `pingRound_after` is one
  round and `pingRounds_after` any number of them.  Without interval summaries the period is 0, and
  the window never closes.
-/
import NFStash.Lib.Windows
import NFStash.PingSummary

namespace NFStash

open CLib Loops Windows

/-! ## What is seen of a run -/

def Target.tally (t : Target) : Tally := ⟨t.sent, t.received⟩

/-- The counters of a target have 32 bits. -/
def wrapTally (w : Tally) : Tally := ⟨wrap32 w.total, wrap32 w.hits⟩

/-- The counters of a target after a ping. -/
def countPing (w : Tally) (answered : Bool) : Tally :=
  ⟨wrap32 (w.total + 1), if answered then wrap32 (w.hits + 1) else w.hits⟩

/-- The target that is printed. -/
def PingEvent.target? : PingEvent → Option Target
  | .result t _ | .lost t | .clntPerror t | .interval t => some t
  | _ => none

/-- The interval summaries so far, and the round and the place of the last ping. -/
structure Scan where
  round : ℕ := 0
  place : ℕ := 0
  summaries : List (ℕ × ℕ × Target) := []

def Scan.event (s : Scan) : PingEvent → Scan
  | .ping r j _ => { s with round := r + 1, place := j }
  | .interval t => { s with summaries := s.summaries ++ [(s.round, s.place, t)] }
  | _ => s

/-- The interval summaries of a trace: the number of the round, counted from 1, the place of the
    target, and the target as it is summarised. -/
def summaries (tr : List PingEvent) : List (ℕ × ℕ × Target) := (tr.foldl Scan.event {}).summaries

/-- What is at place `j`, without the place. -/
def atPlace {α : Type} (j : ℕ) (xs : List (ℕ × ℕ × α)) : List (ℕ × α) :=
  xs.filterMap fun x => if x.2.1 = j then some (x.1, x.2.2) else none

/-- The summaries of the target at place `j`. -/
def summariesAt (j : ℕ) (tr : List PingEvent) : List (ℕ × Target) := atPlace j (summaries tr)

/-- The pings of the target at place `j`, with their rounds. -/
def pingsAt (j : ℕ) (tr : List PingEvent) : List (ℕ × Option ℕ) := atPlace j (pings tr)

/-- Which pings of the target at place `j` have been answered. -/
def answersAt (j : ℕ) (tr : List PingEvent) : List Bool := (pingsAt j tr).map (·.2.isSome)

section
variable {α : Type} {j : ℕ}

theorem atPlace_append (xs ys : List (ℕ × ℕ × α)) : atPlace j (xs ++ ys) = atPlace j xs ++ atPlace j ys :=
  List.filterMap_append

theorem atPlace_same (n : ℕ) (a : α) : atPlace j [(n, j, a)] = [(n, a)] := by simp [atPlace]

theorem atPlace_other {i : ℕ} (n : ℕ) (a : α) (h : i ≠ j) : atPlace j [(n, i, a)] = [] := by
  simp [atPlace, h]

end

/-! ## One ping -/

/-- The rounds between two interval summaries. -/
def summaryPeriod (cfg : PingConfig) : ℕ := wrap64 (cfg.hertz * cfg.summaryInterval)

/-- There is an interval summary in this round. -/
def Due (cfg : PingConfig) (loopCount : ℕ) : Prop :=
  cfg.summaryInterval ≠ 0 ∧ loopCount % summaryPeriod cfg = 0

instance (cfg : PingConfig) (loopCount : ℕ) : Decidable (Due cfg loopCount) :=
  inferInstanceAs (Decidable (_ ∧ _))

/-- An event that is neither a ping nor a summary, and shows the counters `w` if any. -/
structure PingEvent.Shows (w : Tally) (ev : PingEvent) : Prop where
  scan : ∀ s : Scan, s.event ev = s
  ping : ev.ping? = none
  tally : ∀ u, ev.target? = some u → u.tally = w

/-- What one ping does to the counters and to the trace. -/
structure PingTurn (cfg : PingConfig) (r j : ℕ) (status : Option ℕ) (t : Target) (run : PingRun)
    (t' : Target) (run' : PingRun) : Prop where
  totalSent : run'.totalSent = wrap64 (run.totalSent + 1)
  totalRecv : run'.totalRecv = if status.isSome then wrap64 (run.totalRecv + 1) else run.totalRecv
  loopCount : run'.loopCount = run.loopCount
  tally : t'.tally = if Due cfg run.loopCount then {} else countPing t.tally status.isSome
  trace : ∃ con out u, run'.trace = run.trace ++ con ++ [.ping r j status] ++ out ++
      (if Due cfg run.loopCount then [.interval u] else []) ∧
    (∀ ev ∈ con ++ out, ev.Shows (countPing t.tally status.isSome)) ∧
    u.tally = countPing t.tally status.isSome

section
variable {cfg : PingConfig} {env : PingEnv} {r j : ℕ} {t t' : Target} {run run' : PingRun}
  {status : Option ℕ}

theorem pingConnect_turn (env : PingEnv) (j : ℕ) (t : Target) (run : PingRun) :
    ∃ t' run', pingConnect env j t run = (t', run') ∧ t'.tally = t.tally ∧
      run'.totalSent = run.totalSent ∧ run'.totalRecv = run.totalRecv ∧
      run'.loopCount = run.loopCount ∧
      ∃ con, run'.trace = run.trace ++ con ∧ ∀ ev ∈ con, ∀ w, ev.Shows w := by
  unfold pingConnect
  split_ifs
  · exact ⟨t, run, rfl, rfl, rfl, rfl, rfl, [], by simp, by simp⟩
  · refine ⟨_, _, rfl, rfl, rfl, rfl, rfl, _, rfl, ?_⟩
    intro ev hev w
    obtain rfl := List.mem_singleton.1 hev
    exact ⟨fun _ => rfl, rfl, by simp [PingEvent.target?]⟩

theorem pingRecord_turn (hf : cfg.format ≠ .fping) (us totalSent : ℕ) (t : Target) :
    ∃ t', pingRecord cfg us totalSent t = .ok t' ∧ t'.tally = ⟨t.sent, wrap32 (t.received + 1)⟩ :=
  ⟨_, if_neg hf, rfl⟩

/-- An outcome is counted as received iff there is an answer. -/
theorem pingOutcome_turn (env : PingEnv) (hf : cfg.format ≠ .fping) (status : Option ℕ) (t : Target)
    (run : PingRun) :
    ∃ t' run', pingOutcome cfg env status t run = .ok (t', run') ∧
      t'.tally = ⟨t.sent, if status.isSome then wrap32 (t.received + 1) else t.received⟩ ∧
      run'.totalSent = run.totalSent ∧
      run'.totalRecv = (if status.isSome then wrap64 (run.totalRecv + 1) else run.totalRecv) ∧
      run'.loopCount = run.loopCount ∧
      ∃ out, run'.trace = run.trace ++ out ∧ ∀ ev ∈ out, ev.Shows t'.tally := by
  cases status with
  | some us =>
    obtain ⟨t', ht', htally⟩ := pingRecord_turn hf us run.totalSent t
    refine ⟨t', { run with
      totalRecv := wrap64 (run.totalRecv + 1)
      trace := run.trace ++ if cfg.quiet then [] else [.result t' us] },
      by simp only [pingOutcome, pingSuccess, ht', bind, Except.bind], htally, rfl, rfl, rfl, _, rfl, ?_⟩
    intro ev hev
    split_ifs at hev
    · simp at hev
    · obtain rfl := List.mem_singleton.1 hev
      exact ⟨fun _ => rfl, rfl, by simp [PingEvent.target?]⟩
  | none =>
    have hlost : (PingEvent.lost t).Shows t.tally := ⟨fun _ => rfl, rfl, by simp [PingEvent.target?]⟩
    have herr : (PingEvent.clntPerror t).Shows t.tally := ⟨fun _ => rfl, rfl, by simp [PingEvent.target?]⟩
    simp only [pingOutcome, pingFailure, Option.isSome_none, Bool.false_eq_true, if_false]
    split_ifs
    · refine ⟨_, _, rfl, rfl, rfl, rfl, rfl, [.lost t, .clntPerror t], by simp, ?_⟩
      intro ev hev
      simp only [List.mem_cons, List.not_mem_nil, or_false] at hev
      rcases hev with rfl | rfl
      · exact hlost
      · exact herr
    · refine ⟨_, _, rfl, rfl, rfl, rfl, rfl, [.lost t], rfl, ?_⟩
      intro ev hev
      obtain rfl := List.mem_singleton.1 hev
      exact hlost

theorem resetCounters_tally (cfg : PingConfig) (t : Target) : (resetCounters cfg t).tally = {} := by
  unfold resetCounters
  split_ifs
  · rfl
  · rfl

/-- A summary closes the window. -/
theorem pingInterval_turn (hp : PeriodOk cfg) (t : Target) (run : PingRun) :
    ∃ t' run', pingInterval cfg t run = .ok (t', run') ∧
      t'.tally = (if Due cfg run.loopCount then {} else t.tally) ∧
      run'.totalSent = run.totalSent ∧ run'.totalRecv = run.totalRecv ∧
      run'.loopCount = run.loopCount ∧
      run'.trace = run.trace ++ if Due cfg run.loopCount then [.interval t] else [] := by
  unfold pingInterval
  dsimp only
  by_cases h0 : cfg.summaryInterval = 0
  · have hdue : ¬ Due cfg run.loopCount := fun h => h.1 h0
    simp only [if_pos h0, if_neg hdue]
    exact ⟨t, run, rfl, rfl, rfl, rfl, rfl, by simp⟩
  · have hne : wrap64 (cfg.hertz * cfg.summaryInterval) ≠ 0 := hp.resolve_left h0
    rw [if_neg h0, if_neg hne]
    by_cases hd : run.loopCount % wrap64 (cfg.hertz * cfg.summaryInterval) = 0
    · have hdue : Due cfg run.loopCount := ⟨h0, hd⟩
      simp only [if_pos hd, if_pos hdue]
      exact ⟨_, _, rfl, resetCounters_tally cfg t, rfl, rfl, rfl, rfl⟩
    · have hdue : ¬ Due cfg run.loopCount := fun h => hd h.2
      simp only [if_neg hd, if_neg hdue]
      exact ⟨t, run, rfl, rfl, rfl, rfl, rfl, by simp⟩

/-- **One ping**, when no results are stored. -/
theorem pingTarget_turn (hf : cfg.format ≠ .fping) (hp : PeriodOk cfg) (env : PingEnv) (r j : ℕ)
    (t : Target) (run : PingRun) : ∃ t' run', pingTarget cfg env r j t run = .ok (t', run') ∧
      PingTurn cfg r j (pingStatus env (pingConnect env j t run).1 (pingConnect env j t run).2) t run
        t' run' := by
  obtain ⟨t₁, run₁, h₁, htally₁, hsent₁, hrecv₁, hloop₁, con, htr₁, hcon⟩ := pingConnect_turn env j t run
  obtain ⟨t₂, run₂, h₂, htally₂, hsent₂, hrecv₂, hloop₂, out, htr₂, hout⟩ :=
    pingOutcome_turn env hf (pingStatus env t₁ run₁) { t₁ with sent := wrap32 (t₁.sent + 1) }
      { run₁ with
        totalSent := wrap64 (run₁.totalSent + 1)
        trace := run₁.trace ++ [.ping r j (pingStatus env t₁ run₁)] }
  obtain ⟨t₃, run₃, h₃, htally₃, hsent₃, hrecv₃, hloop₃, htr₃⟩ := pingInterval_turn hp t₂ run₂
  have hcount : t₂.tally = countPing t.tally (pingStatus env t₁ run₁).isSome := by
    rw [htally₂, ← htally₁]
    rfl
  have hloop : run₂.loopCount = run.loopCount := hloop₂.trans hloop₁
  rw [h₁]
  refine ⟨{ t₃ with client := t₃.client && !cfg.reconnect }, run₃, ?_,
    ?_, ?_, hloop₃.trans hloop, ?_, con, out, t₂, ?_, ?_, hcount⟩
  · unfold pingTarget
    rw [h₁]
    dsimp only
    rw [h₂]
    simp only [bind, Except.bind, h₃]
  · rw [hsent₃, hsent₂, hsent₁]
  · rw [hrecv₃, hrecv₂, hrecv₁]
  · rw [← hloop, ← hcount]
    exact htally₃
  · rw [htr₃, htr₂, htr₁, hloop]
  · intro ev hev
    rcases List.mem_append.1 hev with hev | hev
    · exact hcon ev hev _
    · exact hcount ▸ hout ev hev

theorem foldl_shows {evs : List PingEvent} {w : Tally} (h : ∀ ev ∈ evs, ev.Shows w) (s : Scan) :
    evs.foldl Scan.event s = s := by
  induction evs with
  | nil => rfl
  | cons ev evs ih =>
    rw [List.foldl_cons, (h ev List.mem_cons_self).scan]
    exact ih fun ev hev => h ev (List.mem_cons_of_mem _ hev)

theorem pings_shows {evs : List PingEvent} {w : Tally} (h : ∀ ev ∈ evs, ev.Shows w) : pings evs = [] :=
  List.filterMap_eq_nil_iff.2 fun ev hev => (h ev hev).ping

theorem PingTurn.pings (h : PingTurn cfg r j status t run t' run') :
    NFStash.pings run'.trace = NFStash.pings run.trace ++ [(r, j, status)] := by
  obtain ⟨con, out, u, htr, hshows, -⟩ := h.trace
  have hcon := pings_shows fun ev hev => hshows ev (List.mem_append_left _ hev)
  have hout := pings_shows fun ev hev => hshows ev (List.mem_append_right _ hev)
  rw [htr]
  simp only [pings_append, hcon, hout, List.append_nil]
  split_ifs
  · exact List.append_nil _
  · exact List.append_nil _

theorem PingTurn.summaries (h : PingTurn cfg r j status t run t' run') :
    ∃ u : Target, u.tally = countPing t.tally status.isSome ∧
      NFStash.summaries run'.trace = NFStash.summaries run.trace ++
        if Due cfg run.loopCount then [(r + 1, j, u)] else [] := by
  obtain ⟨con, out, u, htr, hshows, hu⟩ := h.trace
  have hcon := foldl_shows fun ev hev => hshows ev (List.mem_append_left _ hev)
  have hout := foldl_shows fun ev hev => hshows ev (List.mem_append_right _ hev)
  refine ⟨u, hu, ?_⟩
  unfold NFStash.summaries
  rw [htr, List.foldl_append, List.foldl_append, List.foldl_append, List.foldl_append, hcon, hout]
  split_ifs
  · rfl
  · exact (List.append_nil _).symm

/-- The counters that are printed. -/
theorem PingTurn.shown (h : PingTurn cfg r j status t run t' run') {ev : PingEvent}
    (hev : ev ∈ run'.trace) :
    ev ∈ run.trace ∨ ∀ u, ev.target? = some u → u.tally = countPing t.tally status.isSome := by
  obtain ⟨con, out, u, htr, hshows, hu⟩ := h.trace
  rw [htr] at hev
  simp only [List.mem_append, List.mem_singleton, or_assoc] at hev
  rcases hev with hev | hev | rfl | hev | hev
  · exact .inl hev
  · exact .inr (hshows ev (List.mem_append_left _ hev)).tally
  · exact .inr (by simp [PingEvent.target?])
  · exact .inr (hshows ev (List.mem_append_right _ hev)).tally
  · split_ifs at hev
    · obtain rfl := List.mem_singleton.1 hev
      exact .inr (by simpa [PingEvent.target?] using hu)
    · simp at hev

end

/-! ## Rounds -/

/-- A target after `k` rounds: it has been pinged once in each, its counters are the open window of its
    answers, and its summaries are the windows that are over. -/
structure TargetAt (cfg : PingConfig) (k j : ℕ) (t : Target) (tr : List PingEvent) : Prop where
  pinged : (pingsAt j tr).map (·.1) = List.range k
  tally : t.tally = wrapTally (pending (summaryPeriod cfg) (answersAt j tr))
  summaries : (summariesAt j tr).map (fun x => (x.1, x.2.tally)) =
    (closed (summaryPeriod cfg) (answersAt j tr)).map fun x => (x.1, wrapTally x.2)

/-- The counters are those of a window of at most `n` pings. -/
def InWindow (cfg : PingConfig) (n : ℕ) (t : Target) : Prop :=
  ∃ w : Tally, t.tally = wrapTally w ∧ w.hits ≤ w.total ∧ w.total ≤ n ∧
    (summaryPeriod cfg ≠ 0 → w.total ≤ summaryPeriod cfg)

/-- All targets that have been printed are in such a window. -/
def ShownInWindow (cfg : PingConfig) (n : ℕ) (tr : List PingEvent) : Prop :=
  ∀ ev ∈ tr, ∀ u, ev.target? = some u → InWindow cfg n u

/-- The pings that have been answered. -/
def answered (tr : List PingEvent) : ℕ := (pings tr).countP (·.2.2.isSome)

/-- `T` targets have been pinged in `k` rounds, and the first `i` of them once more. -/
structure Pinged (T k i : ℕ) (run : PingRun) : Prop where
  totalSent : run.totalSent = wrap64 (k * T + i)
  sent : (pings run.trace).length = k * T + i
  totalRecv : run.totalRecv = wrap64 (answered run.trace)

/-- The state after `k` rounds over `T` targets. -/
structure AfterPings (cfg : PingConfig) (env : PingEnv) (T k : ℕ) (s : PingState) : Prop where
  length : s.targets.length = T
  loopCount : s.loopCount = k
  pinged : Pinged T k 0 s.toPingRun
  shown : ShownInWindow cfg k s.trace
  targetAt : ∀ j t, s.targets[j]? = some t → TargetAt cfg k j t s.trace
  more : k ≠ 0 → s.more = pingMore cfg env s.toPingRun

section
variable {cfg : PingConfig} {env : PingEnv} {T k i j : ℕ} {t t' : Target} {run run' : PingRun}
  {status : Option ℕ} {s : PingState} {ts : List Target}

theorem countPing_wrapTally (w : Tally) (hit : Bool) :
    countPing (wrapTally w) hit = wrapTally (w.add hit) := by
  cases hit with
  | false => simp [countPing, wrapTally, Tally.add, wrap32]
  | true => simp [countPing, wrapTally, Tally.add, wrap32]

theorem due_iff (hp : PeriodOk cfg) (k : ℕ) : Due cfg (k + 1) ↔ summaryPeriod cfg ∣ k + 1 := by
  unfold Due
  rw [← Nat.dvd_iff_mod_eq_zero]
  rcases hp with h0 | hne
  · have hzero : summaryPeriod cfg = 0 := by simp [summaryPeriod, h0, wrap64]
    simp [h0, hzero]
  · have h0 : cfg.summaryInterval ≠ 0 := by
      rintro h0
      exact hne (by simp [h0, wrap64])
    exact and_iff_right h0

theorem TargetAt.answers_length (h : TargetAt cfg k j t run.trace) :
    (answersAt j run.trace).length = k := by
  have hlen := congrArg List.length h.pinged
  rw [List.length_map, List.length_range] at hlen
  rw [answersAt, List.length_map, hlen]

/-- The counters a ping leads to. -/
theorem TargetAt.countPing (h : TargetAt cfg k j t run.trace) (hit : Bool) :
    NFStash.countPing t.tally hit =
      wrapTally ((pending (summaryPeriod cfg) (answersAt j run.trace)).add hit) := by
  rw [h.tally, countPing_wrapTally]

theorem PingTurn.pingsAt (h : PingTurn cfg k i status t run t' run') :
    NFStash.pingsAt j run'.trace = NFStash.pingsAt j run.trace ++ atPlace j [(k, i, status)] := by
  unfold NFStash.pingsAt
  rw [h.pings, atPlace_append]

/-- The pinged target goes on by one round. -/
theorem TargetAt.turn (h : TargetAt cfg k j t run.trace) (hp : PeriodOk cfg)
    (hs : PingTurn cfg k j status t run t' run') (hloop : run.loopCount = k + 1) :
    TargetAt cfg (k + 1) j t' run'.trace := by
  have hpings := hs.pingsAt (j := j)
  rw [atPlace_same] at hpings
  have hanswers : answersAt j run'.trace = answersAt j run.trace ++ [status.isSome] := by
    rw [answersAt, hpings, List.map_append]
    rfl
  obtain ⟨u, hu, hsum⟩ := hs.summaries
  have hcount := h.countPing status.isSome
  have hdue := due_iff hp k
  rw [hloop] at hsum
  refine ⟨?_, ?_, ?_⟩
  · rw [hpings, List.map_append, h.pinged, List.range_succ]
    rfl
  · rw [hs.tally, hloop, hanswers, pending_concat, h.answers_length, hcount]
    simp only [hdue]
    split_ifs
    · rfl
    · rfl
  · rw [hanswers, closed_concat, h.answers_length, List.map_append, ← h.summaries]
    unfold summariesAt
    rw [hsum, atPlace_append, List.map_append]
    simp only [hdue]
    split_ifs
    · rw [atPlace_same, List.map_singleton, List.map_singleton, hu, hcount]
    · rfl

/-- The other targets stay where they are. -/
theorem TargetAt.other {u : Target} (h : TargetAt cfg k j u run.trace) {r : ℕ} (hij : i ≠ j)
    (hs : PingTurn cfg r i status t run t' run') : TargetAt cfg k j u run'.trace := by
  have hpings := hs.pingsAt (j := j)
  rw [atPlace_other _ _ hij, List.append_nil] at hpings
  obtain ⟨v, -, hsum⟩ := hs.summaries
  have hsummaries : summariesAt j run'.trace = summariesAt j run.trace := by
    unfold summariesAt
    rw [hsum, atPlace_append]
    split_ifs
    · rw [atPlace_other _ _ hij, List.append_nil]
    · exact List.append_nil _
  have hanswers : answersAt j run'.trace = answersAt j run.trace := by
    rw [answersAt, hpings, answersAt]
  exact ⟨by rw [hpings, h.pinged], by rw [h.tally, hanswers], by rw [hsummaries, hanswers, h.summaries]⟩

/-- The window of a target that is being pinged. -/
theorem TargetAt.inWindow (h : TargetAt cfg k j t run.trace) {u : Target}
    (hu : u.tally = NFStash.countPing t.tally status.isSome) : InWindow cfg (k + 1) u := by
  let w := pending (summaryPeriod cfg) (answersAt j run.trace)
  have hle : w.hits ≤ w.total := pending_le
  have htotal : w.total = k % summaryPeriod cfg := pending_total.trans (by rw [h.answers_length])
  refine ⟨_, hu.trans (h.countPing _), ?_, ?_, ?_⟩
  · have hbit := Bool.toNat_le status.isSome
    change w.hits + _ ≤ w.total + 1
    omega
  · have hmod := Nat.mod_le k (summaryPeriod cfg)
    change w.total + 1 ≤ k + 1
    omega
  · intro hP
    have hmod := Nat.mod_lt k (Nat.pos_of_ne_zero hP)
    change w.total + 1 ≤ summaryPeriod cfg
    omega

theorem Pinged.turn (h : Pinged T k i run) (hs : PingTurn cfg k i status t run t' run') :
    Pinged T k (i + 1) run' := by
  refine ⟨?_, ?_, ?_⟩
  · rw [hs.totalSent, h.totalSent, wrap64, wrap64, Nat.mod_add_mod, ← Nat.add_assoc]
    rfl
  · rw [hs.pings, List.length_append, h.sent, List.length_singleton, Nat.add_assoc]
  · rw [hs.totalRecv, h.totalRecv, answered, answered, hs.pings, List.countP_append,
      List.countP_singleton]
    split_ifs
    · rw [wrap64, wrap64, Nat.mod_add_mod]
      rfl
    · rfl

theorem ShownInWindow.succ {tr : List PingEvent} (h : ShownInWindow cfg k tr) :
    ShownInWindow cfg (k + 1) tr := by
  intro ev hev u hu
  obtain ⟨w, h1, h2, h3, h4⟩ := h ev hev u hu
  exact ⟨w, h1, h2, h3.trans (Nat.le_succ _), h4⟩

theorem ShownInWindow.turn (h : ShownInWindow cfg (k + 1) run.trace) (ht : TargetAt cfg k i t run.trace)
    (hs : PingTurn cfg k i status t run t' run') : ShownInWindow cfg (k + 1) run'.trace := by
  intro ev hev u hu
  rcases hs.shown hev with hev | hev
  · exact h ev hev u hu
  · exact ht.inWindow (hev u hu)

/-- **One round** of pings. -/
theorem pingRound_after (hf : cfg.format ≠ .fping) (hp : PeriodOk cfg) (hk : k + 1 < 2 ^ 64)
    (h : AfterPings cfg env T k s) :
    ∃ s', pingRound cfg env k s = .ok s' ∧ AfterPings cfg env T (k + 1) s' := by
  let start : PingRun := { s.toPingRun with loopCount := wrap64 (s.loopCount + 1) }
  have hloop : start.loopCount = k + 1 := by
    simp only [start, h.loopCount]
    exact Nat.mod_eq_of_lt hk
  have hstart : Pinged T k 0 start := ⟨h.pinged.totalSent, h.pinged.sent, h.pinged.totalRecv⟩
  have htotal : ∃ targets run, walk (pingTarget cfg env k) 0 s.targets start = .ok (targets, run) ∧ True :=
    walk_total (P := fun _ _ => True) (fun i t run _ _ => by
      obtain ⟨t', run', hok, -⟩ := pingTarget_turn hf hp env k (0 + i) t run
      exact ⟨t', run', hok, trivial⟩) trivial
  obtain ⟨targets, run, hw, -⟩ := htotal
  obtain ⟨⟨hloop', hpinged, hshown, -⟩, hat⟩ := walk_each
    (P := fun i run => run.loopCount = k + 1 ∧ Pinged T k i run ∧ ShownInWindow cfg (k + 1) run.trace ∧
      ∀ j t, i ≤ j → s.targets[j]? = some t → TargetAt cfg k j t run.trace)
    (Q := fun j t run => TargetAt cfg (k + 1) j t run.trace)
    (fun i t run t' run' ht ⟨hl, hpd, hsh, hrest⟩ hstep => by
      obtain ⟨t₁, run₁, hok, hs⟩ := pingTarget_turn hf hp env k (0 + i) t run
      obtain ⟨rfl, rfl⟩ := Prod.mk.inj (Except.ok.inj (hok.symm.trans hstep))
      rw [Nat.zero_add] at hs
      have hti := hrest i t le_rfl ht
      refine ⟨⟨hs.loopCount.trans hl, hpd.turn hs, hsh.turn hti hs, ?_⟩, hti.turn hp hs hl, ?_⟩
      · intro j u hj hu
        exact (hrest j u (by omega) hu).other (by omega) hs
      · intro j b hj hb
        exact hb.other (by omega) hs)
    ⟨hloop, hstart, h.shown.succ, fun j t _ => h.targetAt j t⟩ hw
  have hlen := walk_length hw
  rw [h.length] at hpinged hlen
  have hnext : k * T + T = (k + 1) * T + 0 := by rw [Nat.add_mul, Nat.one_mul, Nat.add_zero]
  refine ⟨{ run with targets, more := pingMore cfg env run }, ?_, hlen, hloop',
    ⟨?_, ?_, hpinged.totalRecv⟩, hshown, hat, fun _ => rfl⟩
  · simp only [pingRound]
    rw [show walk (pingTarget cfg env k) 0 s.targets
      { s.toPingRun with loopCount := wrap64 (s.loopCount + 1) } = .ok (targets, run) from hw]
    rfl
  · rw [← hnext]
    exact hpinged.totalSent
  · rw [← hnext]
    exact hpinged.sent

/-- Targets that have not been pinged. -/
theorem afterPings_start (env : PingEnv) (hts : ∀ t ∈ ts, t.tally = {}) :
    AfterPings cfg env ts.length 0 { targets := ts } := by
  refine ⟨rfl, rfl, ⟨by simp [wrap64], by simp [pings], by simp [wrap64, answered, pings]⟩,
    by simp [ShownInWindow], ?_, fun h => absurd rfl h⟩
  intro j t ht
  refine ⟨rfl, ?_, ?_⟩
  · rw [hts t (List.mem_of_getElem? ht)]
    exact (congrArg wrapTally pending_nil).symm
  · change [] = (closed (summaryPeriod cfg) []).map _
    rw [closed_nil]
    rfl

/-- **Any number of rounds**, as long as the number of the round has 64 bits. -/
theorem pingRounds_after (hf : cfg.format ≠ .fping) (hp : PeriodOk cfg) (env : PingEnv)
    (hts : ∀ t ∈ ts, t.tally = {}) (hk : k < 2 ^ 64) :
    ∃ s, rounds (pingRound cfg env) k 0 { targets := ts } = .ok s ∧
      AfterPings cfg env ts.length k s := by
  refine rounds_total (P := fun k s => AfterPings cfg env ts.length k s) ?_ (afterPings_start env hts)
  intro i s hi hs
  rw [Nat.zero_add]
  exact pingRound_after hf hp (by omega) hs

end

/-- The targets `main` starts with have not been pinged. -/
theorem pingTargets_tally {cfg : PingConfig} {res : Resolver} {count : ℕ} {ts : List Target}
    {args : List CString} (h : pingTargets cfg res count dummyTargets args = .ok ts) :
    ∀ t ∈ ts.tail, t.tally = {} := by
  obtain ⟨d, rest, rfl, -, -, hrest⟩ := pingTargets_headed (Q := fun t => t.tally = {}) (fun _ => rfl)
    (fun t t' hu _ ht => by rw [← ht, Target.tally, Target.tally, hu.sent, hu.received])
    h (headed_dummyTargets _)
  exact fun t ht => (hrest t ht).2.2

/-! ## Interval summaries -/

/-- The counters in a line are those of the target. -/
def IntervalLine.Right (t : Target) : IntervalLine → Prop
  | .xmtRcvLoss n m l _ => n = t.sent ∧ m = t.received ∧ l + t.received = t.sent
  | .percentiles m histogram => m = t.received ∧ histogram = t.intervalHistogram
  | .count n => n = t.sent
  | .lost l => l + t.received = t.sent
  | .usecUpper histogram | .usecLower histogram | .usecMean histogram | .usecUpper95th histogram =>
    histogram = t.intervalHistogram

/-- What is printed for a target gives its counters; nothing is printed for one without answers in the
    `ping` format. -/
structure LinesRight (format : PingFormat) (t : Target) : Prop where
  none_iff : printInterval format t = [] ↔ format = .ping ∧ t.received = 0
  lines : ∀ line ∈ printInterval format t, line.Right t

/-- The interval summaries of a target after `k` rounds, with the period `P`: there is one in every
    round whose number is a multiple of `P`, it gives the pings of the last `P` rounds, and the
    counters of the target have the others. -/
structure SummariesRight (format : PingFormat) (P k j : ℕ) (t : Target) (tr : List PingEvent) : Prop where
  pinged : (pingsAt j tr).map (·.1) = List.range k
  summaries : (summariesAt j tr).map (fun x => (x.1, x.2.sent, x.2.received)) =
    (List.range (k / P)).map fun i =>
      ((i + 1) * P, P, (((answersAt j tr).drop (i * P)).take P).count true)
  residual : t.sent = k % P ∧ t.received = ((answersAt j tr).drop (k / P * P)).count true
  sent : ((summariesAt j tr).map (·.2.sent)).sum + t.sent = (pingsAt j tr).length
  received : ((summariesAt j tr).map (·.2.received)).sum + t.received = (answersAt j tr).count true
  lines : ∀ x ∈ summariesAt j tr, LinesRight format x.2

theorem wrapTally_of_lt {w : Tally} (hle : w.hits ≤ w.total) (hlt : w.total < 2 ^ 32) : wrapTally w = w := by
  unfold wrapTally wrap32
  rw [Nat.mod_eq_of_lt hlt, Nat.mod_eq_of_lt (hle.trans_lt hlt)]

/-- The difference that is printed does not wrap. -/
theorem linesRight {t : Target} (format : PingFormat) (hle : t.received ≤ t.sent) (hlt : t.sent < 2 ^ 32) :
    LinesRight format t := by
  have hlost : wrap32 (t.sent + (2 ^ 32 - t.received)) = t.sent - t.received := by
    unfold wrap32
    omega
  have hdiff : t.sent - t.received + t.received = t.sent := Nat.sub_add_cancel hle
  cases format with
  | ping =>
    constructor
    · simp [printInterval]
    · simp only [printInterval]
      split_ifs
      · simp [IntervalLine.Right]
      · simp
  | fping =>
    refine ⟨by simp [printInterval], ?_⟩
    simp only [printInterval, hlost, List.forall_mem_singleton]
    exact ⟨rfl, rfl, hdiff⟩
  | unixtime =>
    refine ⟨by simp [printInterval], ?_⟩
    simp only [printInterval, hlost, List.forall_mem_singleton]
    exact ⟨rfl, rfl, hdiff⟩
  | statsd =>
    refine ⟨by simp [printInterval], ?_⟩
    simp only [printInterval, hlost]
    split_ifs
    · simp [IntervalLine.Right, hdiff]
    · simp [IntervalLine.Right]
  | graphite =>
    refine ⟨by simp [printInterval], ?_⟩
    simp only [printInterval, hlost]
    split_ifs
    all_goals simp [IntervalLine.Right, hdiff]

section
variable {cfg : PingConfig} {P k j : ℕ} {t : Target} {tr : List PingEvent}

/-- The windows of a target, when its counters have room for one. -/
theorem TargetAt.summariesRight {run : PingRun} (h : TargetAt cfg k j t run.trace)
    (hperiod : summaryPeriod cfg = P) (hpos : 0 < P) (hP : P < 2 ^ 32) :
    SummariesRight cfg.format P k j t run.trace := by
  have hlen := h.answers_length
  obtain ⟨hpinged, htally, hsum⟩ := h
  rw [hperiod] at htally hsum
  have hclosed : ∀ w ∈ closed P (answersAt j run.trace), wrapTally w.2 = w.2 := fun w hw =>
    wrapTally_of_lt (closed_le hw) (closed_length hw ▸ hP)
  have hopen : wrapTally (pending P (answersAt j run.trace)) = pending P (answersAt j run.trace) := by
    refine wrapTally_of_lt pending_le ?_
    rw [pending_total]
    exact (Nat.mod_lt _ hpos).trans hP
  rw [hopen] at htally
  have hsum : (summariesAt j run.trace).map (fun x => (x.1, x.2.tally)) =
      closed P (answersAt j run.trace) := by
    rw [hsum]
    exact (List.map_congr_left fun w hw => by rw [hclosed w hw]; rfl).trans (List.map_id _)
  have hsent : (summariesAt j run.trace).map (·.2.sent) =
      (closed P (answersAt j run.trace)).map (·.2.total) := by
    rw [← hsum, List.map_map]
    rfl
  have hreceived : (summariesAt j run.trace).map (·.2.received) =
      (closed P (answersAt j run.trace)).map (·.2.hits) := by
    rw [← hsum, List.map_map]
    rfl
  have hpings : (pingsAt j run.trace).length = (answersAt j run.trace).length := by
    rw [answersAt, List.length_map]
  refine ⟨hpinged, ?_, ⟨?_, ?_⟩, ?_, ?_, ?_⟩
  · have hpairs : (summariesAt j run.trace).map (fun x => (x.1, x.2.sent, x.2.received)) =
        (closed P (answersAt j run.trace)).map fun w => (w.1, w.2.total, w.2.hits) := by
      rw [← hsum, List.map_map]
      rfl
    rw [hpairs, ← hlen, closed, List.map_map]
    refine List.map_congr_left fun i hi => ?_
    have hw := closed_length (List.mem_map_of_mem hi : _ ∈ closed P (answersAt j run.trace))
    exact congrArg (fun n => ((i + 1) * P, n, _)) hw
  · rw [← hlen, ← pending_total, ← htally]
    rfl
  · rw [← hlen]
    exact congrArg Tally.hits htally
  · rw [hsent, hpings, ← closed_total P, ← htally]
    rfl
  · rw [hreceived, ← closed_hits P, ← htally]
    rfl
  · intro x hx
    have hw : (x.1, x.2.tally) ∈ closed P (answersAt j run.trace) := hsum ▸ List.mem_map_of_mem hx
    have htotal : x.2.sent = P := closed_length hw
    exact linesRight _ (closed_le hw) (htotal ▸ hP)

end

/-- Interval summaries with a period of `P`, which are printed as `format` has it. -/
def pingEvery (P : ℕ) (format : PingFormat) : PingConfig where
  format
  loop := true
  hertz := 1
  summaryInterval := P

/-- The number of the round wraps to 0, a multiple of every period. -/
theorem pingRound_wraps {cfg : PingConfig} {env : PingEnv} {s : PingState} {n : ℕ} (hf : cfg.format ≠ .fping)
    (hp : PeriodOk cfg) (hq : cfg.summaryInterval ≠ 0) (hn : n + 1 = 2 ^ 64)
    (h : AfterPings cfg env 1 n s) :
    ∃ s' t, pingRound cfg env n s = .ok s' ∧ (n + 1, t) ∈ summariesAt 0 s'.trace := by
  obtain ⟨t, ht⟩ := List.length_eq_one_iff.1 h.length
  obtain ⟨t', run', hok, hs⟩ := pingTarget_turn hf hp env n 0 t
    { s.toPingRun with loopCount := wrap64 (s.loopCount + 1) }
  have hdue : Due cfg (wrap64 (s.loopCount + 1)) := by
    rw [h.loopCount, hn]
    exact ⟨hq, Nat.zero_mod _⟩
  obtain ⟨u, -, hsum⟩ := hs.summaries
  refine ⟨{ run' with targets := [t'], more := pingMore cfg env run' }, u, ?_, ?_⟩
  · simp only [pingRound, ht, walk, hok, bind, Except.bind]
  · unfold summariesAt
    rw [hsum, if_pos hdue, atPlace_append, atPlace_same]
    exact List.mem_append_right _ (List.mem_singleton.2 rfl)

/-- No ping is answered. -/
def answersNone : PingEnv where
  connect _ := true
  ping _ := none

end NFStash
