/-
  The rounds of `nfsdf`.

  With working connections every filehandle is asked for in each round.  A reply stops the program if
  it is missing (`xdr_free` reads it), if its status has no label in `nfs_perror`, or if it is good and
  the terminal has no rows.  `dfRounds_complete_iff` says that the program completes its rounds, and
  returns 0 iff requests were sent and all were answered with `NFS3_OK`, iff there is no such reply (and
  no count without a target).
-/
import NFStash.Df
import NFStash.Lib.Counters
import NFStash.ParseFhGroup

namespace NFStash

open CLib Counters Loops

variable (cfg : DfConfig) (env : DfEnv)

/-! ## One request -/

/-- The reply to a request does not stop the program. -/
def DfSafe (q : ℕ × ℕ × ℕ) : Prop :=
  ∃ res, env.fsstat q.1 q.2.1 q.2.2 = some res ∧
    if res.status = NFS3_OK then cfg.oneHeader = true ∨ env.rows q.1 ≠ 0
    else ∃ text, nfsPerror res.status = .ok text

/-- A request is answered with `NFS3_OK`. -/
def dfAnswered (q : ℕ × ℕ × ℕ) : Bool :=
  (env.fsstat q.1 q.2.1 q.2.2).any fun res => res.status = NFS3_OK

section
variable {cfg env} {r j k : ℕ} {fh fh' : NfsFhList} {target target' : Target} {run run' : DfRun}

theorem printHeader_counters : (printHeader cfg run).dfSent = run.dfSent ∧
    (printHeader cfg run).dfOk = run.dfOk := by
  unfold printHeader
  split_ifs <;> exact ⟨rfl, rfl⟩

theorem dfScreen_ok (h : dfScreen cfg env r run = .ok run') :
    (cfg.oneHeader = true ∨ env.rows r ≠ 0) ∧ run'.dfSent = run.dfSent ∧ run'.dfOk = run.dfOk := by
  unfold dfScreen at h
  split_ifs at h with hone hrows hscreen
  · obtain rfl := Except.ok.inj h
    exact ⟨.inl hone, rfl, rfl⟩
  · obtain rfl := Except.ok.inj h
    exact ⟨.inr hrows, printHeader_counters⟩
  · obtain rfl := Except.ok.inj h
    exact ⟨.inr hrows, rfl, rfl⟩

theorem dfScreen_total (run : DfRun) (h : cfg.oneHeader = true ∨ env.rows r ≠ 0) :
    ∃ run', dfScreen cfg env r run = .ok run' := by
  unfold dfScreen
  split_ifs with hone hrows hscreen
  · exact ⟨_, rfl⟩
  · exact absurd hrows (h.resolve_left hone)
  · exact ⟨_, rfl⟩
  · exact ⟨_, rfl⟩

/-- **One request** that does not stop the program is counted, and so is a good reply. -/
theorem dfFilehandle_ok (h : dfFilehandle cfg env r j k fh (target, run) = .ok (fh', target', run')) :
    DfSafe cfg env (r, j, k) ∧ fh' = { fh with sent := wrap64 (fh.sent + 1) } ∧
      (∃ received, target' = { target with received }) ∧ run'.dfSent = wrap64 (run.dfSent + 1) ∧
      run'.dfOk = if dfAnswered env (r, j, k) then wrap64 (run.dfOk + 1) else run.dfOk := by
  simp only [dfFilehandle, getFsstat, bind_eq_ok] at h
  obtain ⟨⟨res, run₁⟩, hfsstat, ⟨target₁, run₂⟩, hrecord, _, hfree, h⟩ := h
  obtain ⟨rfl, hs⟩ := Prod.mk.inj (Except.ok.inj h)
  obtain ⟨rfl, rfl⟩ := Prod.mk.inj hs
  cases hr : env.fsstat r j k with
  | none =>
    simp only [hr] at hfsstat
    obtain ⟨rfl, -⟩ := Prod.mk.inj (Except.ok.inj hfsstat)
    simp [xdrFree] at hfree
  | some reply =>
    simp only [hr] at hfsstat
    by_cases hok : reply.status = NFS3_OK
    · rw [if_pos hok] at hfsstat
      obtain ⟨rfl, rfl⟩ := Prod.mk.inj (Except.ok.inj hfsstat)
      simp only [dfRecord, if_pos hok, dfSuccess, bind_eq_ok] at hrecord
      obtain ⟨run₃, hscreen, hrecord⟩ := hrecord
      obtain ⟨rfl, rfl⟩ := Prod.mk.inj (Except.ok.inj hrecord)
      obtain ⟨hrows, hsent, hokcount⟩ := dfScreen_ok hscreen
      refine ⟨⟨reply, hr, by rwa [if_pos hok]⟩, rfl, ⟨_, rfl⟩, hsent, ?_⟩
      simp [dfAnswered, hr, hok, hokcount, DfRun.emit]
    · rw [if_neg hok] at hfsstat
      obtain ⟨text, htext, hfsstat⟩ := bind_eq_ok.1 hfsstat
      obtain ⟨rfl, rfl⟩ := Prod.mk.inj (Except.ok.inj hfsstat)
      simp only [dfRecord, if_neg hok, Except.ok.injEq, Prod.mk.injEq] at hrecord
      obtain ⟨rfl, rfl⟩ := hrecord
      refine ⟨⟨reply, hr, by rw [if_neg hok]; exact ⟨text, htext⟩⟩, rfl, ⟨_, rfl⟩, rfl, ?_⟩
      simp [dfAnswered, hr, hok, DfRun.emit]

theorem dfFilehandle_total (fh : NfsFhList) (target : Target) (run : DfRun)
    (h : DfSafe cfg env (r, j, k)) : ∃ p, dfFilehandle cfg env r j k fh (target, run) = .ok p := by
  obtain ⟨reply, hr, hsafe⟩ := h
  simp only [dfFilehandle, exists_bind_eq_ok]
  by_cases hok : reply.status = NFS3_OK
  · rw [if_pos hok] at hsafe
    have hfsstat : getFsstat env r j k target.name fh run =
        .ok (some reply, run.emit (.fsstat r j k fh.nfsFh)) := by
      simp only [getFsstat, hr, if_pos hok]
    refine ⟨_, hfsstat, ?_⟩
    simp only [dfRecord, if_pos hok, dfSuccess]
    obtain ⟨run', hscreen⟩ := dfScreen_total _ hsafe
    exact ⟨_, bind_eq_ok.2 ⟨run', hscreen, rfl⟩, (), rfl, _, rfl⟩
  · rw [if_neg hok] at hsafe
    obtain ⟨text, htext⟩ := hsafe
    have hfsstat : getFsstat env r j k target.name fh run = .ok (some reply,
        (run.emit (.fsstat r j k fh.nfsFh)).emit (.nfsPerror target.name fh.path "nfsproc3_fsstat_3" text)) := by
      simp only [getFsstat, hr, if_neg hok, htext, bind, Except.bind]
    refine ⟨_, hfsstat, ?_⟩
    simp only [dfRecord, if_neg hok]
    exact ⟨_, rfl, (), rfl, _, rfl⟩

end

/-! ## Targets from the input -/

/-- A target has filehandles, and none has been asked for. -/
def Unsent (t : Target) : Prop := t.filehandles ≠ [] ∧ ∀ fh ∈ t.filehandles, fh.sent = 0

section
variable {lookup : CString → String → Option CString} {junk : ℕ → UInt8} {port : UInt16} {count : ℕ}
  {input : CString} {inputs : List CString} {head ts : List Target} {run run' : DfRun}

/-- An accepted line adds a filehandle to its target. -/
theorem parseFields_adds (junk : ℕ → UInt8) (count : ℕ) (current : Target)
    (h : HasFields lookup input) :
    ∃ fh : NfsFhList, fh.sent = 0 ∧
      (parseFields lookup junk input count current).2.filehandles = current.filehandles ++ [fh] ∧
      (parseFields lookup junk input count current).2.addr = current.addr := by
  obtain ⟨hhost, hpath, tmp, hfh, -⟩ := h
  obtain ⟨host, hhost⟩ := Option.isSome_iff_exists.1 hhost
  obtain ⟨path, hpath⟩ := Option.isSome_iff_exists.1 hpath
  simp only [parseFields, hhost, hpath, hfh]
  split_ifs
  · exact ⟨_, rfl, rfl, rfl⟩
  · exact ⟨_, rfl, rfl, rfl⟩

theorem parseFh_unsent {r : Except ParseFhError ℕ}
    (hl : NoAddress lookup input ∨ HasFields lookup input) (hhead : Headed Unsent head)
    (h : parseFh lookup junk head input port count = .ok (r, ts)) :
    Headed Unsent ts := by
  by_cases hn : NoAddress lookup input
  · obtain ⟨e, he⟩ := parseFh_noAddress lookup junk port count head hn
    obtain ⟨-, rfl⟩ := Prod.mk.inj (Except.ok.inj (he.symm.trans h))
    exact hhead
  obtain ⟨addr, i, ts', t, hf, ht, ⟨-, hfields, rfl⟩ | ⟨-, -, -, hno, -⟩⟩ :=
    parseFh_cases lookup junk port count hn h
  · obtain ⟨fh, hfh, hadds, haddr⟩ := parseFields_adds junk count t hfields
    refine hhead.update hf ht haddr (parseFields_freed lookup junk count input t) ?_
    -- an old target has filehandles, a new one has none yet
    intro ht'
    have hsent : ∀ fh ∈ t.filehandles, fh.sent = 0 := by
      rcases ht' with ht' | rfl
      · exact ht'.2
      · simp [newTarget, initTarget]
    rw [Unsent, hadds]
    refine ⟨by simp, ?_⟩
    intro fh' hfh'
    rcases List.mem_append.1 hfh' with hfh' | hfh'
    · exact hsent fh' hfh'
    · rw [List.mem_singleton.1 hfh', hfh]
  · exact absurd (hl.resolve_left hn) hno

theorem dfCurrent_counters {cfg : DfConfig} {current : Except ParseFhError ℕ}
    (h : dfCurrent cfg head run current = .ok run') :
    run'.dfSent = run.dfSent ∧ run'.dfOk = run.dfOk := by
  unfold dfCurrent at h
  split at h
  · obtain rfl := Except.ok.inj h
    exact ⟨rfl, rfl⟩
  · split at h
    · cases h
    · unfold dfWidths at h
      split at h
      · cases h
      · obtain rfl := Except.ok.inj h
        exact ⟨rfl, rfl⟩

theorem dfInput_unsent {cfg : DfConfig}
    (hl : ∀ input ∈ inputs, NoAddress lookup input ∨ HasFields lookup input)
    (hhead : Headed Unsent head) (h : dfInput cfg lookup junk head run inputs = .ok (ts, run')) :
    Headed Unsent ts ∧ run'.dfSent = run.dfSent ∧ run'.dfOk = run.dfOk := by
  induction inputs generalizing head run with
  | nil =>
    obtain ⟨rfl, rfl⟩ := Prod.mk.inj (Except.ok.inj h)
    exact ⟨hhead, rfl, rfl⟩
  | cons input inputs ih =>
    simp only [dfInput, bind_eq_ok] at h
    obtain ⟨⟨current, head'⟩, hparse, run₁, hrun₁, h⟩ := h
    obtain ⟨hts, hsent, hok⟩ := ih (fun input' hi => hl input' (List.mem_cons_of_mem _ hi))
      (parseFh_unsent (hl input (List.mem_cons_self ..)) hhead hparse) h
    obtain ⟨hsent₁, hok₁⟩ := dfCurrent_counters hrun₁
    exact ⟨hts, hsent.trans hsent₁, hok.trans hok₁⟩

/-- **The state before the first round**, if no line is rejected after its address. -/
theorem dfStart_unsent {cfg : DfConfig} {s : DfState}
    (hl : ∀ input ∈ inputs, NoAddress lookup input ∨ HasFields lookup input)
    (h : dfStart cfg lookup junk inputs = .ok s) :
    (∀ t ∈ s.targets, t.freed = false ∧ Unsent t) ∧ s.dfSent = 0 ∧ s.dfOk = 0 := by
  simp only [dfStart, bind_eq_ok] at h
  obtain ⟨⟨ts, run⟩, hinput, h⟩ := h
  obtain rfl := Except.ok.inj h
  obtain ⟨⟨d, rest, rfl, -, -, hrest⟩, hsent, hok⟩ :=
    dfInput_unsent hl (headed_dummyTargets Unsent) hinput
  refine ⟨?_, printHeader_counters.1.trans hsent, printHeader_counters.2.trans hok⟩
  intro t ht
  exact (hrest t ht).2

end

/-! ## One round -/

/-- The number of requests to a target in a round. -/
def dfSends (ts : List Target) (_ j : ℕ) : ℕ := (ts[j]?).elim 0 fun t => t.filehandles.length

/-- The requests of `n` rounds: the round, the target and the filehandle. -/
def dfRequests (ts : List Target) (n : ℕ) : List (ℕ × ℕ × ℕ) := requestGrid (dfSends ts) ts.length n

/-- The requests made so far are counted. -/
def DfTally (done : List (ℕ × ℕ × ℕ)) (run : DfRun) : Prop :=
  CountsMod (2 ^ 64) (dfAnswered env) done run.dfSent run.dfOk

/-- A target before round `r`; it was `t₀` before the first round. -/
structure DfStands (r : ℕ) (t₀ t : Target) : Prop where
  freed : t.freed = false
  length : t.filehandles.length = t₀.filehandles.length
  sent : ∀ fh ∈ t.filehandles, fh.sent = wrap64 r

/-- The targets before round `r`; they were `ts` before the first round. -/
def DfStand (ts : List Target) (r : ℕ) (targets : List Target) : Prop :=
  Pointwise (fun _ => DfStands r) ts targets

section
variable {cfg env} {r j n : ℕ} {t₀ t t' : Target} {ts targets targets' : List Target}
  {run run' : DfRun} {done : List (ℕ × ℕ × ℕ)}

theorem dfTarget_ok : dfTarget cfg env r j t run = .ok (t', run') ↔
    t.freed = false ∧ ∃ run₁ fhs target, dfConnect env r j t run = .ok run₁ ∧
      walk (dfFilehandle cfg env r j) 0 t.filehandles ({ t with client := true }, run₁) =
        .ok (fhs, target, run') ∧ t' = { target with filehandles := fhs } := by
  unfold dfTarget
  split_ifs with hf
  · simp [hf]
  · simp only [bind_eq_ok, Prod.exists, Except.ok.injEq, Prod.mk.injEq]
    constructor
    · rintro ⟨run₁, hconnect, fhs, target, run₂, hw, rfl, rfl⟩
      exact ⟨by simpa using hf, run₁, fhs, target, hconnect, hw, rfl⟩
    · rintro ⟨-, run₁, fhs, target, hconnect, hw, rfl⟩
      exact ⟨run₁, hconnect, fhs, target, run', hw, rfl, rfl⟩

/-- **A round of a target**: all its filehandles are asked for. -/
theorem dfTarget_stands (ht : DfStands r t₀ t) (h : dfTarget cfg env r j t run = .ok (t', run')) :
    DfStands (r + 1) t₀ t' := by
  obtain ⟨hfreed, run₁, fhs, target, -, hw, rfl⟩ := dfTarget_ok.1 h
  have htarget := (walk_spec (P := fun _ s => Target.freed s.1 = false)
    (fun k fh s fh' s' _ hs hstep => by
      obtain ⟨-, -, ⟨received, htarget⟩, -⟩ := dfFilehandle_ok hstep
      rw [htarget]
      exact hs) hfreed hw).1
  refine ⟨htarget, (walk_length hw).trans ht.length, ?_⟩
  intro fh' hfh'
  obtain ⟨k, hk⟩ := List.mem_iff_getElem?.1 hfh'
  obtain ⟨fh, u, u', hfh, hstep⟩ := walk_get_before hw hk
  obtain ⟨-, rfl, -⟩ := dfFilehandle_ok hstep
  show wrap64 (fh.sent + 1) = wrap64 (r + 1)
  rw [ht.sent fh (List.mem_of_getElem? hfh)]
  simp [wrap64]

/-- They are counted. -/
theorem dfTarget_tally (ht : DfStands r t₀ t) (htally : DfTally env done run)
    (h : dfTarget cfg env r j t run = .ok (t', run')) :
    DfTally env (done ++ nodeRequests r j t₀.filehandles.length) run' := by
  obtain ⟨-, run₁, fhs, target, hconnect, hw, rfl⟩ := dfTarget_ok.1 h
  have htally₁ : DfTally env done run₁ := by
    unfold dfConnect at hconnect
    split_ifs at hconnect
    · obtain rfl := Except.ok.inj hconnect
      exact htally
    · obtain rfl := Except.ok.inj hconnect
      exact htally
  rw [← ht.length]
  refine walk_nodeRequests (P := fun done s => DfTally env done s.2) ?_ htally₁ hw
  intro done k fh s fh' s' _ hd hstep
  obtain ⟨-, -, -, hsent, hok⟩ := dfFilehandle_ok hstep
  rw [DfTally, hsent, hok]
  exact hd.concat (r, j, k)

/-- It gets through iff the replies are safe. -/
theorem dfTarget_ok_iff (hconnect : ∀ r j, env.connect r j = true) (run : DfRun)
    (ht : DfStands r t₀ t) :
    (∃ p, dfTarget cfg env r j t run = .ok p) ↔
      ∀ k < t₀.filehandles.length, DfSafe cfg env (r, j, k) := by
  have hconn : ∃ run₁, dfConnect env r j t run = .ok run₁ := by
    unfold dfConnect
    split_ifs with hclient hc
    · exact ⟨_, rfl⟩
    · exact ⟨_, rfl⟩
    · exact absurd (hconnect r j) hc
  obtain ⟨run₁, hrun₁⟩ := hconn
  have hwalk : (∃ p, dfTarget cfg env r j t run = .ok p) ↔
      ∃ p, walk (dfFilehandle cfg env r j) 0 t.filehandles
        ({ t with client := true }, run₁) = .ok p := by
    constructor
    · rintro ⟨⟨t', run'⟩, h⟩
      obtain ⟨-, run₂, fhs, target, hrun₂, hw, -⟩ := dfTarget_ok.1 h
      obtain rfl := Except.ok.inj (hrun₁.symm.trans hrun₂)
      exact ⟨_, hw⟩
    · rintro ⟨⟨fhs, target, run'⟩, hw⟩
      exact ⟨(_, run'), dfTarget_ok.2 ⟨ht.freed, run₁, fhs, target, hrun₁, hw, rfl⟩⟩
  rw [hwalk, walk_ok_iff (G := fun k _ => DfSafe cfg env (r, j, k))]
  · rw [← ht.length]
    constructor
    · intro hall k hk
      have hsafe := hall k _ (List.getElem?_eq_getElem hk)
      rwa [Nat.zero_add] at hsafe
    · intro hall k fh hfh
      rw [Nat.zero_add]
      exact hall k (List.getElem?_eq_some_iff.1 hfh).1
  · intro k fh s _
    rw [Nat.zero_add]
    constructor
    · rintro ⟨⟨fh', target', run'⟩, h⟩
      exact (dfFilehandle_ok h).1
    · exact dfFilehandle_total fh s.1 s.2

/-- **A round.** -/
theorem walk_dfTarget_stand (hs : DfStand ts r targets)
    (hw : walk (dfTarget cfg env r) 0 targets run = .ok (targets', run')) :
    DfStand ts (r + 1) targets' :=
  hs.walk hw fun _ _ _ _ _ _ _ ht hstep => dfTarget_stands ht hstep

theorem walk_dfTarget_tally (hs : DfStand ts r targets) (htally : DfTally env done run)
    (hw : walk (dfTarget cfg env r) 0 targets run = .ok (targets', run')) :
    DfTally env (done ++ roundGrid (dfSends ts) ts.length r) run' := by
  refine walk_roundGrid hs.length ?_ htally hw
  intro done j t u t' u' ht hd hstep
  obtain ⟨t₀, h₀, hstands⟩ := hs.get_before ht
  rw [dfSends, h₀, Option.elim_some]
  exact dfTarget_tally hstands hd hstep

theorem walk_dfTarget_ok_iff (hconnect : ∀ r j, env.connect r j = true) (run : DfRun)
    (hs : DfStand ts r targets) : (∃ p, walk (dfTarget cfg env r) 0 targets run = .ok p) ↔
      ∀ q ∈ roundGrid (dfSends ts) ts.length r, DfSafe cfg env q := by
  rw [walk_ok_iff (G := fun j _ => ∀ k < dfSends ts r j, DfSafe cfg env (r, j, k))]
  · constructor
    · rintro hall ⟨r', j, k⟩ hq
      obtain ⟨rfl, hj, hk⟩ := mem_roundGrid.1 hq
      have hsafe := hall j _ (List.getElem?_eq_getElem (hs.length.symm ▸ hj))
      rw [Nat.zero_add] at hsafe
      exact hsafe k hk
    · intro hall j t ht k hk
      rw [Nat.zero_add] at hk ⊢
      exact hall _ (mem_roundGrid.2 ⟨rfl, hs.length ▸ (List.getElem?_eq_some_iff.1 ht).1, hk⟩)
  · intro j t u ht
    obtain ⟨t₀, h₀, hstands⟩ := hs.get_before ht
    rw [Nat.zero_add, dfTarget_ok_iff hconnect u hstands, dfSends, h₀, Option.elim_some]

end

/-! ## All rounds -/

/-- Another round is asked for after round `r`. -/
def DfAgain (r : ℕ) : Prop := env.quitting r = false ∧ (cfg.loop = true ∨ r + 1 < cfg.count)

instance (r : ℕ) : Decidable (DfAgain cfg env r) := inferInstanceAs (Decidable (_ ∧ (_ ∨ _)))

/-- The loop gets to round `r`. -/
def DfRuns (r : ℕ) : Prop := ∀ i < r, DfAgain cfg env i

/-- The rounds do not stop the program, they end with the last one that is asked for (with `-c n`, unless
    there is an interrupt, this is round `n - 1`), and it returns 0 iff requests were sent and all
    were answered with `NFS3_OK`. -/
structure DfCompletes (s : DfState) : Prop where
  rounds : ∀ fuel fault, poll (dfRound cfg env) (fun _ s => s.more) fuel 0 s ≠ .error fault
  ends : ∀ r, DfRuns cfg env r → ¬ DfAgain cfg env r →
    ∃ s', Ends (dfRound cfg env) (fun _ s => s.more) (r + 1) s s'
  status : ∀ n s', Ends (dfRound cfg env) (fun _ s => s.more) n s s' →
    (dfStatus s'.toDfRun = 0 ↔
      dfRequests s.targets n ≠ [] ∧ ∀ q ∈ dfRequests s.targets n, dfAnswered env q = true)

/-- The replies to requests that are made are safe, and there is a target to count with.  The counters
    are `unsigned long`: they tell what happened unless `2 ^ 64` requests, or lost ones, are taken for
    none. -/
structure DfCompletable (ts : List Target) : Prop where
  replies : ∀ r, DfRuns cfg env r → ∀ q ∈ roundGrid (dfSends ts) ts.length r, DfSafe cfg env q
  target : ts = [] → env.quitting 0 = true ∨ cfg.loop = true ∨ cfg.count = 0
  counters : ∀ r, DfRuns cfg env r → ¬ DfAgain cfg env r →
    let sent := (dfRequests ts (r + 1)).length
    let lost := (dfRequests ts (r + 1)).countP fun q => !dfAnswered env q
    if lost = 0 then 2 ^ 64 ∣ sent → sent = 0 else 2 ^ 64 ∣ lost → 2 ^ 64 ∣ sent

section
variable {cfg env} {r n : ℕ} {ts targets : List Target} {s s' u : DfState} {done : List (ℕ × ℕ × ℕ)}

theorem dfRuns_succ : DfRuns cfg env (r + 1) ↔ DfRuns cfg env r ∧ DfAgain cfg env r := by
  constructor
  · intro h
    exact ⟨fun i hi => h i (by omega), h r (Nat.lt_succ_self r)⟩
  · rintro ⟨h, hr⟩ i hi
    rcases Nat.lt_or_eq_of_le (Nat.le_of_lt_succ hi) with hlt | rfl
    · exact h i hlt
    · exact hr

/-- While the rounds are counted the counters of the filehandles do not overflow. -/
theorem DfRuns.wrap64 (h : DfRuns cfg env r) (hloop : cfg.loop = false)
    (hcount : cfg.count ≤ ULONG_MAX) :
    wrap64 (r + 1) = r + 1 := by
  refine wrap64_succ ?_
  cases r with
  | zero => decide
  | succ r =>
    have hlt := (h r (Nat.lt_succ_self r)).2
    rw [hloop] at hlt
    have := hlt.resolve_left Bool.false_ne_true
    omega

/-- The test for another round, after round `r`. -/
theorem dfMore_eq (hts : ∀ t ∈ ts, Unsent t) (hcount : cfg.count ≤ ULONG_MAX) (hruns : DfRuns cfg env r)
    (hs : DfStand ts (r + 1) targets) : dfMore cfg env r targets =
      if ts = [] ∧ ¬ (env.quitting r = true ∨ cfg.loop = true ∨ cfg.count = 0) then .error .nullDeref
      else .ok (decide (DfAgain cfg env r)) := by
  by_cases hq : env.quitting r = true
  · simp [dfMore, DfAgain, hq]
  by_cases hloop : cfg.loop = true
  · simp [dfMore, DfAgain, hq, hloop]
  by_cases h0 : cfg.count = 0
  · simp [dfMore, DfAgain, hq, hloop, h0]
  cases ts with
  | nil =>
    obtain rfl : targets = [] := List.length_eq_zero_iff.1 hs.length
    simp [dfMore, hq, hloop, h0]
  | cons t₀ ts =>
    obtain ⟨t, rest, rfl⟩ : ∃ t rest, targets = t :: rest :=
      List.exists_cons_of_length_eq_add_one hs.length
    have hstands := hs.each 0 t₀ t rfl rfl
    obtain ⟨fh, fhs, hfhs⟩ : ∃ fh fhs, t.filehandles = fh :: fhs := by
      refine List.exists_cons_of_ne_nil fun hnil => (hts t₀ (List.mem_cons_self ..)).1 ?_
      rw [← List.length_eq_zero_iff, ← hstands.length, hnil, List.length_nil]
    have hsent : fh.sent = r + 1 := by
      rw [hstands.sent fh (by rw [hfhs]; exact List.mem_cons_self ..)]
      exact hruns.wrap64 (by simpa using hloop) hcount
    simp [dfMore, DfAgain, hq, hloop, h0, hfhs, hsent]

theorem dfRound_eq_ok : dfRound cfg env r s = .ok s' ↔
    walk (dfTarget cfg env r) 0 s.targets s.toDfRun = .ok (s'.targets, s'.toDfRun) ∧
      dfMore cfg env r s'.targets = .ok s'.more := by
  simp only [dfRound, bind_eq_ok, Prod.exists, Except.ok.injEq]
  constructor
  · rintro ⟨targets, run, hw, more, hm, rfl⟩
    exact ⟨hw, hm⟩
  · rintro ⟨hw, hm⟩
    exact ⟨s'.targets, s'.toDfRun, hw, s'.more, hm, rfl⟩

/-- The targets and counters before round `r`. -/
structure DfBefore (env : DfEnv) (ts : List Target) (r : ℕ) (s : DfState) : Prop where
  stand : DfStand ts r s.targets
  tally : DfTally env (dfRequests ts r) s.toDfRun

/-- **One round** asks for all filehandles. -/
theorem dfRound_before (hs : DfBefore env ts r s) (h : dfRound cfg env r s = .ok s') :
    DfBefore env ts (r + 1) s' := by
  obtain ⟨hw, -⟩ := dfRound_eq_ok.1 h
  refine ⟨walk_dfTarget_stand hs.stand hw, ?_⟩
  rw [dfRequests, requestGrid_succ]
  exact walk_dfTarget_tally hs.stand hs.tally hw

theorem dfRound_more (hts : ∀ t ∈ ts, Unsent t) (hcount : cfg.count ≤ ULONG_MAX)
    (hruns : DfRuns cfg env r) (hs : DfBefore env ts r s) (h : dfRound cfg env r s = .ok s') :
    s'.more = true ↔ DfAgain cfg env r := by
  obtain ⟨hw, hmore⟩ := dfRound_eq_ok.1 h
  rw [dfMore_eq hts hcount hruns (walk_dfTarget_stand hs.stand hw)] at hmore
  split_ifs at hmore
  rw [← Except.ok.inj hmore, decide_eq_true_iff]

/-- A round gets through iff its replies are safe, and there is a target to count with. -/
theorem dfRound_ok_iff (hconnect : ∀ r j, env.connect r j = true) (hts : ∀ t ∈ ts, Unsent t)
    (hcount : cfg.count ≤ ULONG_MAX) (hruns : DfRuns cfg env r) (hs : DfBefore env ts r s) :
    (∃ s', dfRound cfg env r s = .ok s') ↔
      (∀ q ∈ roundGrid (dfSends ts) ts.length r, DfSafe cfg env q) ∧
      (ts = [] → env.quitting r = true ∨ cfg.loop = true ∨ cfg.count = 0) := by
  rw [← walk_dfTarget_ok_iff hconnect s.toDfRun hs.stand]
  constructor
  · rintro ⟨s', h⟩
    obtain ⟨hw, hmore⟩ := dfRound_eq_ok.1 h
    rw [dfMore_eq hts hcount hruns (walk_dfTarget_stand hs.stand hw)] at hmore
    split_ifs at hmore with htarget
    refine ⟨⟨_, hw⟩, ?_⟩
    intro hnil
    by_contra hno
    exact htarget ⟨hnil, hno⟩
  · rintro ⟨⟨⟨targets, run⟩, hw⟩, htarget⟩
    have hmore := dfMore_eq hts hcount hruns (walk_dfTarget_stand hs.stand hw)
    rw [if_neg fun h => h.2 (htarget h.1)] at hmore
    exact ⟨{ run with targets, more := _ }, dfRound_eq_ok.2 ⟨hw, hmore⟩⟩

/-- **What the loop gets to.** -/
theorem dfPolls_before (hts : ∀ t ∈ s.targets, Unsent t) (hcount : cfg.count ≤ ULONG_MAX)
    (h₀ : DfBefore env s.targets 0 s)
    (h : Polls (dfRound cfg env) (fun _ s => s.more) n s u) :
    DfRuns cfg env n ∧ DfBefore env s.targets n u := by
  induction n generalizing u with
  | zero =>
    obtain rfl := polls_zero.1 h
    exact ⟨fun i hi => absurd hi (Nat.not_lt_zero i), h₀⟩
  | succ n ih =>
    obtain ⟨t, ht, hround, hmore⟩ := polls_succ.1 h
    obtain ⟨hruns, hbefore⟩ := ih ht
    exact ⟨dfRuns_succ.2 ⟨hruns, (dfRound_more hts hcount hruns hbefore hround).1 hmore⟩,
      dfRound_before hbefore hround⟩

/-- If nothing stops it, it gets to every round that is asked for. -/
theorem dfPolls_total (hts : ∀ t ∈ s.targets, Unsent t) (hcount : cfg.count ≤ ULONG_MAX)
    (h₀ : DfBefore env s.targets 0 s)
    (hsafe : ∀ n u, Polls (dfRound cfg env) (fun _ s => s.more) n s u →
      ∃ u', dfRound cfg env n u = .ok u')
    (hruns : DfRuns cfg env n) : ∃ u, Polls (dfRound cfg env) (fun _ s => s.more) n s u := by
  induction n with
  | zero => exact ⟨s, polls_zero.2 rfl⟩
  | succ n ih =>
    obtain ⟨hn, hagain⟩ := dfRuns_succ.1 hruns
    obtain ⟨u, hu⟩ := ih hn
    obtain ⟨u', hu'⟩ := hsafe n u hu
    obtain ⟨-, hbefore⟩ := dfPolls_before hts hcount h₀ hu
    exact ⟨u', polls_succ.2 ⟨u, hu, hu', (dfRound_more hts hcount hn hbefore hu').2 hagain⟩⟩

/-- The rounds end with the last one that is asked for. -/
theorem dfEnds (hts : ∀ t ∈ s.targets, Unsent t) (hcount : cfg.count ≤ ULONG_MAX)
    (h₀ : DfBefore env s.targets 0 s)
    (hsafe : ∀ n u, Polls (dfRound cfg env) (fun _ s => s.more) n s u →
      ∃ u', dfRound cfg env n u = .ok u')
    (hruns : DfRuns cfg env r) (hlast : ¬ DfAgain cfg env r) :
    ∃ s', Ends (dfRound cfg env) (fun _ s => s.more) (r + 1) s s' ∧ DfBefore env s.targets (r + 1) s' := by
  obtain ⟨u, hu⟩ := dfPolls_total hts hcount h₀ hsafe hruns
  obtain ⟨u', hu'⟩ := hsafe r u hu
  have hbefore := (dfPolls_before hts hcount h₀ hu).2
  have hmore : u'.more = false := by
    rw [← Bool.not_eq_true, dfRound_more hts hcount hruns hbefore hu']
    exact hlast
  exact ⟨u', ends_succ_iff.2 ⟨u, hu, hu', hmore⟩, dfRound_before hbefore hu'⟩

theorem dfStatus_eq_zero {run : DfRun} : dfStatus run = 0 ↔ run.dfSent ≠ 0 ∧ run.dfSent = run.dfOk := by
  unfold dfStatus
  by_cases hcount : run.dfSent ≠ 0 ∧ run.dfSent = run.dfOk
  · rw [if_pos hcount]
    exact iff_of_true rfl hcount
  · rw [if_neg hcount]
    exact iff_of_false one_ne_zero hcount

/-- The status is right iff the counters tell what happened. -/
theorem DfTally.tells {run : DfRun} (h : DfTally env done run) :
    (dfStatus run = 0 ↔ done ≠ [] ∧ ∀ q ∈ done, dfAnswered env q = true) ↔
      if lost (dfAnswered env) done = 0 then 2 ^ 64 ∣ done.length → done.length = 0
      else 2 ^ 64 ∣ lost (dfAnswered env) done → 2 ^ 64 ∣ done.length := by
  rw [dfStatus_eq_zero]
  exact h.tells_iff

theorem dfBefore_zero (hts : ∀ t ∈ s.targets, t.freed = false ∧ Unsent t) (hsent : s.dfSent = 0)
    (hok : s.dfOk = 0) : DfBefore env s.targets 0 s := by
  refine ⟨pointwise_self ?_, hsent, hok⟩
  intro j t ht
  obtain ⟨hfreed, -, hfhs⟩ := hts t (List.mem_of_getElem? ht)
  exact ⟨hfreed, rfl, hfhs⟩

end

/-- **The program completes its rounds**, with the status it should have, iff no reply that it gets stops
    it, and there is a target if it counts. -/
theorem dfRounds_complete_iff (lookup : CString → String → Option CString) (junk : ℕ → UInt8)
    (inputs : List CString) (s : DfState)
    (hl : ∀ input ∈ inputs, NoAddress lookup input ∨ HasFields lookup input)
    (hs : dfStart cfg lookup junk inputs = .ok s) (hcount : cfg.count ≤ ULONG_MAX)
    (hconnect : ∀ r j, env.connect r j = true) :
    DfCompletes cfg env s ↔ DfCompletable cfg env s.targets := by
  obtain ⟨htargets, hsent, hok⟩ := dfStart_unsent hl hs
  have h₀ : DfBefore env s.targets 0 s := dfBefore_zero htargets hsent hok
  have hts : ∀ t ∈ s.targets, Unsent t := fun t ht => (htargets t ht).2
  constructor
  · rintro ⟨hrounds, -, hstatus⟩
    have hsafe := poll_ne_error_iff.1 hrounds
    have hround : ∀ r, DfRuns cfg env r →
        (∀ q ∈ roundGrid (dfSends s.targets) s.targets.length r, DfSafe cfg env q) ∧
        (s.targets = [] → env.quitting r = true ∨ cfg.loop = true ∨ cfg.count = 0) := by
      intro r hruns
      obtain ⟨u, hu⟩ := dfPolls_total hts hcount h₀ hsafe hruns
      obtain ⟨u', hu'⟩ := hsafe r u hu
      exact (dfRound_ok_iff hconnect hts hcount hruns (dfPolls_before hts hcount h₀ hu).2).1 ⟨u', hu'⟩
    have hfirst := (hround 0 fun i hi => absurd hi (Nat.not_lt_zero i)).2
    refine ⟨fun r hruns => (hround r hruns).1, hfirst, ?_⟩
    intro r hruns hlast
    obtain ⟨s', hends, hbefore⟩ := dfEnds hts hcount h₀ hsafe hruns hlast
    exact hbefore.tally.tells.1 (hstatus (r + 1) s' hends)
  · rintro ⟨hreplies, htarget, hcounters⟩
    have hsafe : ∀ n u, Polls (dfRound cfg env) (fun _ s => s.more) n s u → ∃ u', dfRound cfg env n u = .ok u' := by
      intro n u hu
      obtain ⟨hruns, hbefore⟩ := dfPolls_before hts hcount h₀ hu
      refine (dfRound_ok_iff hconnect hts hcount hruns hbefore).2 ⟨hreplies n hruns, ?_⟩
      intro hnil
      rcases Nat.eq_zero_or_pos n with rfl | hpos
      · exact htarget hnil
      · -- a later round without a target is one of a loop
        obtain ⟨hquit, hagain⟩ := hruns 0 hpos
        rcases htarget hnil with hq | hloop | h0
        · rw [hquit] at hq
          cases hq
        · exact .inr (.inl hloop)
        · exact .inr (.inr h0)
    refine ⟨poll_ne_error_iff.2 hsafe, ?_, ?_⟩
    · intro r hruns hlast
      obtain ⟨s', hends, -⟩ := dfEnds hts hcount h₀ hsafe hruns hlast
      exact ⟨s', hends⟩
    · intro n s' hends
      obtain ⟨m, rfl, -⟩ := ends_iff.1 hends
      obtain ⟨u, hu, hu', hmore⟩ := ends_succ_iff.1 hends
      obtain ⟨hruns, hbefore⟩ := dfPolls_before hts hcount h₀ hu
      have hlast : ¬ DfAgain cfg env m := by
        rw [← dfRound_more hts hcount hruns hbefore hu', hmore]
        exact Bool.false_ne_true
      exact (dfRound_before hbefore hu').tally.tells.2 (hcounters m hruns hlast)

/-- Every request is answered, on a terminal with so many rows. -/
def answering (rows : UInt16) : DfEnv where
  fsstat _ _ _ := some {}
  rows _ := rows

/-- No request is answered. -/
def silent : DfEnv where
  fsstat _ _ _ := none

theorem threeLines_fields : ∀ input ∈ threeLines.map (·.1),
    NoAddress (tableLookup threeLines) input ∨ HasFields (tableLookup threeLines) input := by
  intro input hi
  simp only [threeLines, List.map_cons, List.map_nil, List.mem_cons, List.not_mem_nil, or_false] at hi
  rcases hi with rfl | rfl | rfl
  all_goals exact .inr ⟨by decide, by decide, _, rfl, by decide, by decide, by decide⟩

theorem dfRounds_complete_iff_answering : ∃ s,
    dfStart {} (tableLookup threeLines) (fun _ => 0) (threeLines.map (·.1)) = .ok s ∧
    (DfCompletes {} (answering 24) s ↔ DfCompletable {} (answering 24) s.targets) :=
  ⟨_, rfl, dfRounds_complete_iff {} (answering 24) (tableLookup threeLines) (fun _ => 0)
    (threeLines.map (·.1)) _ threeLines_fields rfl (by decide) fun _ _ => rfl⟩

/-- Without rows the first good reply is a division by zero, and without a reply a null pointer is
    read. -/
theorem dfRounds_stopped :
    (dfMain {} (answering 0) (tableLookup threeLines) (fun _ => 0) (threeLines.map (·.1)) 1 =
        .error .divisionByZero ∧
      ∃ s, dfStart {} (tableLookup threeLines) (fun _ => 0) (threeLines.map (·.1)) = .ok s ∧
        ¬ DfCompletes {} (answering 0) s) ∧
    dfMain {} silent (tableLookup threeLines) (fun _ => 0) (threeLines.map (·.1)) 1 =
        .error .nullDeref ∧
      ∃ s, dfStart {} (tableLookup threeLines) (fun _ => 0) (threeLines.map (·.1)) = .ok s ∧
        ¬ DfCompletes {} silent s := by
  refine ⟨⟨rfl, _, rfl, ?_⟩, rfl, _, rfl, ?_⟩
  · intro h
    exact h.rounds 1 .divisionByZero rfl
  · intro h
    exact h.rounds 1 .nullDeref rfl

end NFStash
