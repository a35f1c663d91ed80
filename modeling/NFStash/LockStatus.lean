/-
  The exit status of `nfslock`.

  The status of each test replaces that of the one before, so `main` returns that of the last test.
  `lockMain_status_iff` says that this is the status of the last test that was not granted iff the last
  test of all was not, or all were; `lockMain_ends` that the main loop ends.
-/
import NFStash.Lock
import NFStash.ParseFhGroup

namespace NFStash

open CLib Loops

/-! ## Statuses -/

/-- The status of a test. -/
def lockStatus : Option Nlm4Stats → ℕ
  | none => 10
  | some stat => stat.toNat

/-- The last test that was not granted. -/
def lastFailure (outcomes : List (Option Nlm4Stats)) : Option (Option Nlm4Stats) :=
  (outcomes.filter (· ≠ some nlm4Granted)).getLast?

/-- The status that is left by the tests. -/
def lastStatus (outcomes : List (Option Nlm4Stats)) : ℕ := outcomes.getLast?.elim 0 lockStatus

/-- A status is 0 if all tests were granted, and that of the last failure if not. -/
structure TellsFailures (outcomes : List (Option Nlm4Stats)) (status : ℕ) : Prop where
  zero : status = 0 ↔ ∀ o ∈ outcomes, o = some nlm4Granted
  last : ∀ o, lastFailure outcomes = some o → status = lockStatus o

section
variable {outcomes : List (Option Nlm4Stats)}

theorem lockStatus_eq_zero {o : Option Nlm4Stats} : lockStatus o = 0 ↔ o = some nlm4Granted := by
  cases o with
  | none => simp [lockStatus]
  | some stat => simp [lockStatus, nlm4Granted, ← UInt32.toNat_inj]

theorem lastStatus_append (o : Option Nlm4Stats) : lastStatus (outcomes ++ [o]) = lockStatus o := by
  rw [lastStatus, List.getLast?_concat, Option.elim_some]

/-- **The last status tells the failures** iff a last test that was granted was not preceded by one that
    was not. -/
theorem lastStatus_tells_iff : TellsFailures outcomes (lastStatus outcomes) ↔
    (outcomes.getLast? = some (some nlm4Granted) → ∀ o ∈ outcomes, o = some nlm4Granted) := by
  rcases List.eq_nil_or_concat outcomes with rfl | ⟨before, last, rfl⟩
  · simp [lastStatus, lastFailure, TellsFailures.mk]
  rw [List.concat_eq_append, List.getLast?_concat, lastStatus_append]
  constructor
  · intro h hlast
    obtain rfl := Option.some.inj hlast
    exact h.zero.1 (lockStatus_eq_zero.2 rfl)
  · intro h
    constructor
    · rw [lockStatus_eq_zero]
      constructor
      · rintro rfl
        exact h rfl
      · intro hall
        exact hall last (List.mem_append_right _ List.mem_cons_self)
    · intro o ho
      by_cases hlast : last = some nlm4Granted
      · -- there is no failure if all are granted
        have hnil : (before ++ [last]).filter (· ≠ some nlm4Granted) = [] := by
          rw [List.filter_eq_nil_iff]
          intro o' ho'
          simp [h (congrArg some hlast) o' ho']
        rw [lastFailure, hnil] at ho
        cases ho
      · have hfilter : (before ++ [last]).filter (· ≠ some nlm4Granted) =
            before.filter (· ≠ some nlm4Granted) ++ [last] := by
          rw [List.filter_append, List.filter_singleton]
          simp [hlast]
        rw [lastFailure, hfilter, List.getLast?_concat] at ho
        rw [Option.some.inj ho]

end

/-! ## Clients and requests -/

section
variable (env : LockEnv)

/-- Target `j` has a client after `r` rounds, if it was `t` before the first. -/
def lockClient (j : ℕ) (t : Target) : ℕ → Bool
  | 0 => t.client
  | r + 1 => lockClient j t r || env.connect r j

/-- The number of tests for a target in a round, if the targets were `ts` before the first. -/
def lockSends (ts : List Target) (r j : ℕ) : ℕ :=
  (ts[j]?).elim 0 fun t => if lockClient env j t (r + 1) then t.filehandles.length else 0

/-- The tests of `n` rounds: the round, the target and the filehandle. -/
def lockTests (ts : List Target) (n : ℕ) : List (ℕ × ℕ × ℕ) :=
  requestGrid (lockSends env ts) ts.length n

/-- What comes back from them. -/
def lockOutcomes (tests : List (ℕ × ℕ × ℕ)) : List (Option Nlm4Stats) :=
  tests.map fun q => env.test q.1 q.2.1 q.2.2

/-- Target `j` before round `r`: it was `t₀` before the first. -/
structure LockStands (j : ℕ) (t₀ : Target) (r : ℕ) (t : Target) : Prop where
  freed : t.freed = t₀.freed
  client : t.client = lockClient env j t₀ r
  length : t.filehandles.length = t₀.filehandles.length

/-- The state before round `r`, if the targets were `ts` before the first. -/
structure LockBefore (ts : List Target) (r : ℕ) (s : LockState) : Prop where
  stand : Pointwise (fun j t₀ t => LockStands env j t₀ r t) ts s.targets
  sent : s.sent = wrap32 r
  status : s.status = lastStatus (lockOutcomes env (lockTests env ts r))

end

section
variable {cfg : LockConfig} {env : LockEnv} {r j k : ℕ} {t₀ t t' : Target} {ts : List Target}
  {run run' : LockRun} {s s' : LockState} {done : List (ℕ × ℕ × ℕ)} {fh fh' : NfsFhList}

theorem doNlmTest_ok {nodename host : CString} {status : ℕ} {events : List LockEvent}
    (h : doNlmTest env r j k nodename host fh = .ok (status, events)) :
    status = lockStatus (env.test r j k) := by
  simp only [doNlmTest] at h
  cases htest : env.test r j k with
  | none =>
    simp only [htest] at h
    exact (Prod.mk.inj (Except.ok.inj h)).1.symm
  | some stat =>
    simp only [htest] at h
    cases hlabel : nlm4StatsLabels[stat.toNat]? with
    | none => simp [hlabel] at h
    | some text =>
      simp only [hlabel] at h
      exact (Prod.mk.inj (Except.ok.inj h)).1.symm

theorem lockConnect_ok (h : lockConnect env r j t run = .ok (t', run')) :
    t' = { t with client := t.client || env.connect r j } ∧ run'.status = run.status := by
  simp only [lockConnect] at h
  split_ifs at h with hclient hconnect
  · obtain ⟨rfl, rfl⟩ := Prod.mk.inj (Except.ok.inj h)
    have hsame : (t.client || env.connect r j) = t.client := by simp [hclient]
    rw [hsame]
    exact ⟨rfl, rfl⟩
  · obtain ⟨rfl, rfl⟩ := Prod.mk.inj (Except.ok.inj h)
    simp [hconnect]
  · obtain ⟨rfl, rfl⟩ := Prod.mk.inj (Except.ok.inj h)
    have hsame : (t.client || env.connect r j) = t.client := by simp [hconnect]
    rw [hsame]
    exact ⟨rfl, rfl⟩

/-- **One test** leaves its status. -/
theorem lockFilehandle_ok (h : lockFilehandle env r j t k fh run = .ok (fh', run')) :
    run'.status = if t.client then lockStatus (env.test r j k) else run.status := by
  unfold lockFilehandle at h
  split_ifs at h ⊢ with hclient
  · obtain ⟨⟨status, events⟩, htest, h⟩ := bind_eq_ok.1 h
    obtain ⟨-, rfl⟩ := Prod.mk.inj (Except.ok.inj h)
    exact doNlmTest_ok htest
  · obtain ⟨-, rfl⟩ := Prod.mk.inj (Except.ok.inj h)
    rfl

theorem lockTarget_ok (h : lockTarget env r j t run = .ok (t', run')) :
    ∃ target run₁ fhs, lockConnect env r j t run = .ok (target, run₁) ∧
      walk (lockFilehandle env r j target) 0 target.filehandles run₁ = .ok (fhs, run') ∧
      t' = { target with filehandles := fhs } := by
  unfold lockTarget at h
  split_ifs at h
  obtain ⟨⟨target, run₁⟩, hconnect, h⟩ := bind_eq_ok.1 h
  obtain ⟨⟨fhs, run₂⟩, hw, h⟩ := bind_eq_ok.1 h
  obtain ⟨rfl, rfl⟩ := Prod.mk.inj (Except.ok.inj h)
  exact ⟨target, run₁, fhs, hconnect, hw, rfl⟩

/-- The tests for the filehandles of a target with a client. -/
theorem walk_lockFilehandle {fhs fhs' : List NfsFhList} (hclient : t.client = true)
    (h : run.status = lastStatus (lockOutcomes env done))
    (hw : walk (lockFilehandle env r j t) 0 fhs run = .ok (fhs', run')) :
    run'.status = lastStatus (lockOutcomes env (done ++ nodeRequests r j fhs.length)) := by
  refine walk_nodeRequests (P := fun done u => LockRun.status u = lastStatus (lockOutcomes env done))
    ?_ h hw
  intro done k fh u fh' u' _ _ hstep
  rw [lockFilehandle_ok hstep, if_pos hclient, lockOutcomes, List.map_append, List.map_singleton,
    lastStatus_append]

/-- Without a client nothing is sent. -/
theorem walk_lockFilehandle_none {fhs fhs' : List NfsFhList} (hclient : t.client = false)
    (hw : walk (lockFilehandle env r j t) 0 fhs run = .ok (fhs', run')) : run'.status = run.status := by
  refine (walk_spec (P := fun _ u => LockRun.status u = run.status) (fun k fh u fh' u' _ hu hstep => ?_)
    rfl hw).1
  rw [lockFilehandle_ok hstep, hclient]
  exact hu

/-! ## Rounds -/

theorem lockTarget_stands (ht : LockStands env j t₀ r t)
    (h : lockTarget env r j t run = .ok (t', run')) : LockStands env j t₀ (r + 1) t' := by
  obtain ⟨target, run₁, fhs, hconnect, hw, rfl⟩ := lockTarget_ok h
  obtain ⟨rfl, -⟩ := lockConnect_ok hconnect
  refine ⟨ht.freed, ?_, (walk_length hw).trans ht.length⟩
  show (t.client || env.connect r j) = _
  rw [ht.client, lockClient]

/-- **One target**: its tests, if there is a client for them. -/
theorem lockTarget_status (h₀ : ts[j]? = some t₀) (ht : LockStands env j t₀ r t)
    (hrun : run.status = lastStatus (lockOutcomes env done))
    (h : lockTarget env r j t run = .ok (t', run')) :
    run'.status = lastStatus (lockOutcomes env (done ++ nodeRequests r j (lockSends env ts r j))) := by
  obtain ⟨target, run₁, fhs, hconnect, hw, -⟩ := lockTarget_ok h
  obtain ⟨rfl, hrun₁⟩ := lockConnect_ok hconnect
  rw [← hrun₁] at hrun
  have hclient : (t.client || env.connect r j) = lockClient env j t₀ (r + 1) := by
    rw [ht.client, lockClient]
  rw [lockSends, h₀, Option.elim_some, ← hclient]
  cases hc : (t.client || env.connect r j) with
  | true =>
    rw [if_pos rfl, ← ht.length]
    exact walk_lockFilehandle hc hrun hw
  | false =>
    rw [walk_lockFilehandle_none hc hw, hrun]
    simp [nodeRequests]

theorem lockRound_ok (h : lockRound env r s = .ok s') :
    walk (lockTarget env r) 0 s.targets s.toLockRun = .ok (s'.targets, s'.toLockRun) ∧
      s'.sent = wrap32 (s.sent + 1) := by
  obtain ⟨⟨targets, run⟩, hw, h⟩ := bind_eq_ok.1 h
  obtain rfl := Except.ok.inj h
  exact ⟨hw, rfl⟩

/-- **One round.** -/
theorem lockRound_before (hs : LockBefore env ts r s) (h : lockRound env r s = .ok s') :
    LockBefore env ts (r + 1) s' := by
  obtain ⟨hw, hsent⟩ := lockRound_ok h
  constructor
  · exact hs.stand.walk hw fun _ _ _ _ _ _ _ ht hstep => lockTarget_stands ht hstep
  · rw [hsent, hs.sent]
    simp [wrap32]
  · rw [lockTests, requestGrid_succ]
    refine walk_roundGrid (P := fun done u => LockRun.status u = lastStatus (lockOutcomes env done))
      hs.stand.length ?_ hs.status hw
    intro done j t u t' u' ht hd hstep
    obtain ⟨t₀, h₀, hstands⟩ := hs.stand.get_before ht
    exact lockTarget_status h₀ hstands hd hstep

theorem lockBefore_zero (hsent : s.sent = 0) (hstatus : s.status = 0) :
    LockBefore env s.targets 0 s := by
  refine ⟨pointwise_self ?_, hsent, hstatus⟩
  intro j t _
  exact ⟨rfl, rfl, rfl⟩

/-- **What the rounds leave.** -/
theorem rounds_lockBefore {n : ℕ} (h₀ : LockBefore env ts 0 s)
    (h : rounds (lockRound env) n 0 s = .ok s') : LockBefore env ts n s' := by
  refine rounds_inv (P := LockBefore env ts) (fun k u u' _ hu hround => ?_) h₀ h
  rw [Nat.zero_add] at hround
  exact lockRound_before hu hround

theorem lockAgain_eq_false : lockAgain cfg s = false ↔ cfg.count ≤ s.sent ∧ cfg.loop = false := by
  simp [lockAgain]

/-- **The rounds that are made**: the loop ends after `count` of them, if it ends. -/
theorem lockLoop_rounds {fuel : ℕ} (h₀ : LockBefore env ts 0 s)
    (h : lockLoop cfg env fuel s = .ok (some s')) : LockBefore env ts cfg.count s' := by
  have hsent₀ : s.sent = 0 := h₀.sent
  unfold lockLoop at h
  split_ifs at h with hagain
  · obtain ⟨ended, hpoll, h⟩ := bind_eq_ok.1 h
    obtain ⟨⟨n, u⟩, hended, rfl⟩ := Option.map_eq_some_iff.1 (Except.ok.inj h)
    obtain ⟨m, rfl, hrounds, hlast, hbefore⟩ := ends_iff.1 ⟨fuel, hended ▸ hpoll⟩
    have hu := rounds_lockBefore h₀ hrounds
    obtain ⟨hlast, hloop⟩ := lockAgain_eq_false.1 hlast
    rw [hu.sent] at hlast
    have hagain₀ : 0 < cfg.count := by
      simpa [lockAgain, hsent₀, hloop] using hagain
    have hmod : wrap32 (m + 1) ≤ m + 1 := Nat.mod_le _ _
    have hlt : wrap32 (m + 1) < 2 ^ 32 := Nat.mod_lt _ (by decide)
    -- the counter has not wrapped, or a round before would have been the last
    have hcount : m + 1 ≤ cfg.count := by
      by_contra hless
      obtain ⟨t, ht⟩ := rounds_le hrounds (m := cfg.count) (by omega)
      obtain ⟨i, hi⟩ : ∃ i, cfg.count = i + 1 := ⟨cfg.count - 1, by omega⟩
      have hmore := hbefore i t (by omega) (hi ▸ ht)
      have hsent := (rounds_lockBefore h₀ ht).sent
      rw [wrap32, Nat.mod_eq_of_lt (by omega)] at hsent
      simp [lockAgain, hloop, hsent] at hmore
    rw [show cfg.count = m + 1 by omega]
    exact hu
  · obtain rfl := Option.some.inj (Except.ok.inj h)
    obtain ⟨hlast, -⟩ := lockAgain_eq_false.1 (Bool.not_eq_true _ ▸ hagain)
    rw [show cfg.count = 0 by omega]
    exact h₀

/-! ## The loop ends -/

/-- Every status has a label. -/
def Labelled (env : LockEnv) : Prop :=
  ∀ r j k stat, env.test r j k = some stat → stat.toNat < nlm4StatsLabels.length

/-- No name lookup fails. -/
def Named (env : LockEnv) : Prop := ∀ r j, (env.getnameinfo r j).1 ≤ 0

theorem doNlmTest_total (hlabels : Labelled env) (r j k : ℕ) (nodename host : CString)
    (fh : NfsFhList) : ∃ p, doNlmTest env r j k nodename host fh = .ok p := by
  simp only [doNlmTest]
  cases htest : env.test r j k with
  | none => exact ⟨_, rfl⟩
  | some stat =>
    have hlabel := List.getElem?_eq_getElem (hlabels r j k stat htest)
    simp only [hlabel]
    exact ⟨_, rfl⟩

theorem lockConnect_total (hnames : Named env) (r j : ℕ) (t : Target) (run : LockRun) :
    ∃ p, lockConnect env r j t run = .ok p := by
  simp only [lockConnect, if_neg (not_lt.2 (hnames r j))]
  split_ifs
  all_goals exact ⟨_, rfl⟩

theorem lockFilehandle_total (hlabels : Labelled env) (r j k : ℕ) (t : Target) (fh : NfsFhList)
    (run : LockRun) : ∃ p, lockFilehandle env r j t k fh run = .ok p := by
  unfold lockFilehandle
  split_ifs
  · obtain ⟨p, hp⟩ := doNlmTest_total hlabels r j k run.nodename t.name fh
    exact exists_bind_eq_ok.2 ⟨p, hp, _, rfl⟩
  · exact ⟨_, rfl⟩

theorem lockTarget_total (hlabels : Labelled env) (hnames : Named env) (r j : ℕ) (run : LockRun)
    (ht : t.freed = false) : ∃ p, lockTarget env r j t run = .ok p := by
  obtain ⟨⟨target, run₁⟩, hconnect⟩ := lockConnect_total hnames r j t run
  obtain ⟨p, hw⟩ : ∃ p, walk (lockFilehandle env r j target) 0 target.filehandles run₁ = .ok p :=
    (walk_ok_iff (G := fun _ _ => True) fun k fh u _ =>
      iff_of_true (lockFilehandle_total hlabels r j (0 + k) target fh u) trivial).2 fun _ _ _ => trivial
  unfold lockTarget
  rw [if_neg (by simp [ht])]
  exact exists_bind_eq_ok.2 ⟨_, hconnect, exists_bind_eq_ok.2 ⟨p, hw, _, rfl⟩⟩

theorem lockRound_total (hlabels : Labelled env) (hnames : Named env) (hts : Allocated ts)
    (hs : LockBefore env ts r s) : ∃ s', lockRound env r s = .ok s' := by
  have hfreed : ∀ (j : ℕ) (t : Target), s.targets[j]? = some t → t.freed = false := by
    intro j t ht
    obtain ⟨t₀, h₀, hstands⟩ := hs.stand.get_before ht
    rw [hstands.freed]
    exact hts t₀ (List.mem_of_getElem? h₀)
  obtain ⟨p, hw⟩ : ∃ p, walk (lockTarget env r) 0 s.targets s.toLockRun = .ok p :=
    (walk_ok_iff (G := fun _ _ => True) fun j t u ht =>
      iff_of_true (lockTarget_total hlabels hnames r (0 + j) u (hfreed j t ht)) trivial).2
        fun _ _ _ => trivial
  exact exists_bind_eq_ok.2 ⟨p, hw, _, rfl⟩

theorem lockLoop_ends {fuel : ℕ} (hlabels : Labelled env) (hnames : Named env) (hts : Allocated ts)
    (hloop : cfg.loop = false) (hcount : cfg.count < 2 ^ 32) (hfuel : cfg.count ≤ fuel)
    (h₀ : LockBefore env ts 0 s) : ∃ s', lockLoop cfg env fuel s = .ok (some s') := by
  have hsent₀ : s.sent = 0 := h₀.sent
  unfold lockLoop
  split_ifs with hagain
  · have hpos : 0 < cfg.count := by
      simpa [lockAgain, hloop, hsent₀] using hagain
    rcases poll_bounded (lockRound env) (fun _ s => lockAgain cfg s) (E := fun _ => False)
      (P := fun k u => LockBefore env ts k u ∧ k ≤ cfg.count)
      (fun k u hk hu => by
        obtain ⟨u', hround⟩ := lockRound_total hlabels hnames hts hu.1
        exact .inr ⟨u', hround, lockRound_before hu.1 hround, hk⟩)
      (fun k u hu hmore => by
        have hsent := hu.1.sent
        rw [wrap32, Nat.mod_eq_of_lt (by omega)] at hsent
        simpa [lockAgain, hloop, hsent] using hmore)
      fuel hpos ⟨h₀, Nat.zero_le _⟩ with ⟨_, -, hno⟩ | ⟨-, hlt⟩ | ⟨n, u, hpoll, -⟩
    · exact hno.elim
    · omega
    · exact ⟨u, bind_eq_ok.2 ⟨_, hpoll, rfl⟩⟩
  · exact ⟨s, rfl⟩

/-! ## Name lookups -/

theorem doNlmTest_error {nodename host : CString} {e : Fault}
    (h : doNlmTest env r j k nodename host fh = .error e) : e = .outOfBounds := by
  simp only [doNlmTest] at h
  cases htest : env.test r j k with
  | none => simp [htest] at h
  | some stat =>
    simp only [htest] at h
    cases hlabel : nlm4StatsLabels[stat.toNat]? with
    | none =>
      simp only [hlabel] at h
      exact (Except.error.inj h).symm
    | some text => simp [hlabel] at h

theorem lockTarget_exit {c : ℕ} (h : lockTarget env r j t run = .error (.exit c)) :
    c = 10 ∧ 0 < (env.getnameinfo r j).1 := by
  unfold lockTarget at h
  split_ifs at h
  · cases h
  rcases bind_eq_error.1 h with hconnect | ⟨⟨target, run₁⟩, -, h⟩
  · simp only [lockConnect] at hconnect
    split_ifs at hconnect with _ _ hname
    exact ⟨(Fault.exit.inj (Except.error.inj hconnect)).symm, hname⟩
  · rcases bind_eq_error.1 h with hw | ⟨p, -, h⟩
    · obtain ⟨k, fh, u, -, -, hstep⟩ := walk_error (P := fun _ _ => True)
        (fun _ _ _ _ _ _ _ _ => trivial) trivial hw
      unfold lockFilehandle at hstep
      split_ifs at hstep
      rcases bind_eq_error.1 hstep with htest | ⟨p, -, hstep⟩
      · cases doNlmTest_error htest
      · cases hstep
    · cases h

/-- **Other exits**: only a failed name lookup ends the loop with a status of its own. -/
theorem lockLoop_exit {fuel c : ℕ} (h : lockLoop cfg env fuel s = .error (.exit c)) :
    c = 10 ∧ ∃ r j, 0 < (env.getnameinfo r j).1 := by
  unfold lockLoop at h
  split_ifs at h
  rcases bind_eq_error.1 h with hpoll | ⟨p, -, h⟩
  · obtain ⟨r, u, -, -, hround, -⟩ := poll_eq_error.1 hpoll
    rcases bind_eq_error.1 hround with hw | ⟨p, -, hround⟩
    · obtain ⟨j, t, u, -, -, hstep⟩ := walk_error (P := fun _ _ => True)
        (fun _ _ _ _ _ _ _ _ => trivial) trivial hw
      obtain ⟨rfl, hname⟩ := lockTarget_exit hstep
      exact ⟨rfl, _, _, hname⟩
    · cases hround
  · cases h

end

/-! ## The program -/

section
variable (cfg : LockConfig) (env : LockEnv) (lookup : CString → String → Option CString)
  (junk : ℕ → UInt8) (inputs : List CString) (fuel : ℕ)

/-- **The run ends** after so many rounds. -/
theorem lockMain_ends (hhertz : cfg.hertz ≠ 0) (hloop : cfg.loop = false) (hcount : cfg.count < 2 ^ 32)
    (hl : ∀ input ∈ inputs, NoAddress lookup input ∨ HasFields lookup input) (hlabels : Labelled env)
    (hnames : Named env) (hfuel : cfg.count ≤ fuel) :
    ∃ s, lockMain cfg env lookup junk inputs fuel = .ok (some s) := by
  have hsleep : ∃ p, lockSleepTime cfg.hertz = .ok p := by
    unfold lockSleepTime
    split_ifs
    all_goals exact ⟨_, rfl⟩
  obtain ⟨p, hsleep⟩ := hsleep
  obtain ⟨ts, hts, halloc⟩ := parseLines_allocated lookup junk 0 0 dummyTargets_allocated hl
  have htail : Allocated ts.tail := fun t ht => halloc t (List.mem_of_mem_tail ht)
  have h₀ : LockBefore env ts.tail 0 { targets := ts.tail } :=
    lockBefore_zero (s := { targets := ts.tail }) rfl rfl
  obtain ⟨s, hs⟩ := lockLoop_ends hlabels hnames htail hloop hcount hfuel h₀
  exact ⟨s, bind_eq_ok.2 ⟨p, hsleep, bind_eq_ok.2 ⟨ts, hts, hs⟩⟩⟩

/-- **The exit status** of a run that ends is 0 if all its tests were granted and that of the last
    failure if not, iff a last test that was granted was not preceded by a failure. -/
theorem lockMain_status_iff (s : LockState)
    (h : lockMain cfg env lookup junk inputs fuel = .ok (some s)) :
    ∃ ts, parseLines lookup junk 0 0 dummyTargets inputs = .ok ts ∧
      (TellsFailures (lockOutcomes env (lockTests env ts.tail cfg.count)) s.status ↔
        ((lockOutcomes env (lockTests env ts.tail cfg.count)).getLast? = some (some nlm4Granted) →
          ∀ o ∈ lockOutcomes env (lockTests env ts.tail cfg.count), o = some nlm4Granted)) := by
  obtain ⟨-, -, h⟩ := bind_eq_ok.1 h
  obtain ⟨ts, hts, h⟩ := bind_eq_ok.1 h
  have h₀ : LockBefore env ts.tail 0 { targets := ts.tail } :=
    lockBefore_zero (s := { targets := ts.tail }) rfl rfl
  refine ⟨ts, hts, ?_⟩
  rw [(lockLoop_rounds h₀ h).status]
  exact lastStatus_tells_iff

end

/-- The first test is denied, and all others are granted. -/
def deniedFirst : LockEnv where
  test r j k := some (if r = 0 ∧ j = 0 ∧ k = 0 then 1 else 0)

theorem lockMain_status_iff_deniedFirst : ∃ s,
    lockMain {} deniedFirst (tableLookup threeLines) (fun _ => 0) (threeLines.map (·.1)) 1 =
      .ok (some s) ∧
    ∃ ts, parseLines (tableLookup threeLines) (fun _ => 0) 0 0 dummyTargets (threeLines.map (·.1)) =
        .ok ts ∧
      (TellsFailures (lockOutcomes deniedFirst (lockTests deniedFirst ts.tail 1)) s.status ↔
        ((lockOutcomes deniedFirst (lockTests deniedFirst ts.tail 1)).getLast? =
            some (some nlm4Granted) →
          ∀ o ∈ lockOutcomes deniedFirst (lockTests deniedFirst ts.tail 1), o = some nlm4Granted)) :=
  ⟨_, rfl, lockMain_status_iff {} deniedFirst (tableLookup threeLines) (fun _ => 0)
    (threeLines.map (·.1)) 1 _ rfl⟩

/-- The exit status says nothing of a test that was denied before another was granted. -/
theorem lockMain_deniedFirst : ∃ ts s,
    parseLines (tableLookup threeLines) (fun _ => 0) 0 0 dummyTargets (threeLines.map (·.1)) = .ok ts ∧
    lockMain {} deniedFirst (tableLookup threeLines) (fun _ => 0) (threeLines.map (·.1)) 1 =
      .ok (some s) ∧
    lockOutcomes deniedFirst (lockTests deniedFirst ts.tail 1) = [some 1, some 0, some 0] ∧
    s.status = 0 ∧
    ¬ TellsFailures (lockOutcomes deniedFirst (lockTests deniedFirst ts.tail 1)) s.status := by
  refine ⟨_, _, rfl, rfl, rfl, rfl, ?_⟩
  intro h
  have hdenied : (some 1 : Option Nlm4Stats) = some nlm4Granted := h.zero.1 rfl _ List.mem_cons_self
  exact absurd hdenied (by decide)

end NFStash
