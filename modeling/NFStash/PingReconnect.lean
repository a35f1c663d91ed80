/-
  The connections of `nfsping -R`.

  Without reconnecting after every ping, a connection should last until it breaks: `KeepsConnection`.
  But the test for a broken connection has a constant as its second operand, so that a connection is
  given up after every ping without an answer (`pingTarget_client`).  `pingAttempts_keeps_iff` says when
  this makes no difference.
-/
import NFStash.PingIntervals

namespace NFStash

open CLib Loops

/-! ## Attempts -/

/-- One turn of a target, seen from its connection. -/
structure PingAttempt where
  /-- `create_rpc_client` has been called and has returned a client -/
  created : Bool
  /-- there is a client for the ping -/
  connected : Bool
  status : Option ℕ
  /-- the error of the client, if there is no answer -/
  reErrno : ℕ
  /-- the client is still there after the turn -/
  kept : Bool

/-- A ping has failed because the connection is broken. -/
def PingAttempt.reset (a : PingAttempt) : Bool :=
  a.connected && a.status.isNone && (a.reErrno == EPIPE || a.reErrno == ECONNRESET)

variable (cfg : PingConfig) (env : PingEnv)

/-- The attempt that a turn makes. -/
def pingAttempt (r : ℕ) (step : ℕ × Target × PingRun) : PingAttempt :=
  let (j, target, run) := step
  let (target₁, run₁) := pingConnect env j target run
  { created := !target.client && target₁.client
    connected := target₁.client
    status := pingStatus env target₁ run₁
    -- after the events of the ping and of `print_lost`
    reErrno := env.reErrno (run₁.trace.length + 2)
    kept := match pingTarget cfg env r j target run with
      | .ok (target', _) => target'.client
      | .error _ => false }

/-- The attempt at the target at place `j` in round `r`, which starts from `s`. -/
def PingState.attempt (r : ℕ) (s : PingState) (j : ℕ) : Option PingAttempt :=
  (steps (pingTarget cfg env r) 0 s.targets
    { s.toPingRun with loopCount := wrap64 (s.loopCount + 1) })[j]?.map (pingAttempt cfg env r)

/-- The attempts at the target at place `j` in `n` rounds. -/
def pingAttempts (n : ℕ) (s : PingState) (j : ℕ) : List PingAttempt :=
  (List.range n).filterMap fun r => match rounds (pingRound cfg env) r 0 s with
    | .ok s => s.attempt cfg env r j
    | .error _ => none

/-- The connection is given up only when it is broken, and made once, and again after each break. -/
structure KeepsConnection (attempts : List PingAttempt) : Prop where
  destroyed : ∀ a ∈ attempts, a.connected = true → a.kept = false → a.reset = true
  created : attempts.countP (·.created) ≤ 1 + attempts.countP (·.reset)

/-- What the attempts of a target have led to. -/
structure Attempted (attempts : List PingAttempt) (t : Target) : Prop where
  kept : ∀ a ∈ attempts, a.kept = (a.connected && a.status.isSome)
  created : (∀ a ∈ attempts, a.connected = true → a.status = none → a.reset = true) →
    attempts.countP (·.created) ≤ attempts.countP (·.reset) + t.client.toNat

section
variable {cfg env} {r j n us : ℕ} {t t' : Target} {run run' : PingRun} {s s' s₀ : PingState}
  {attempts : List PingAttempt} {a : PingAttempt}

/-! ## One turn -/

theorem pingConnect_client (h : pingConnect env j t run = (t', run')) :
    t.client = true → t'.client = true := by
  intro hc
  rw [pingConnect, if_pos hc] at h
  rwa [← (Prod.mk.inj h).1]

theorem pingRecord_client {totalSent : ℕ} (h : pingRecord cfg us totalSent t = .ok t') :
    t'.client = t.client := by
  unfold pingRecord at h
  by_cases hf : cfg.format = .fping
  · rw [if_pos hf] at h
    obtain ⟨results, -, h⟩ := bind_eq_ok.1 h
    obtain rfl := Except.ok.inj h
    rfl
  · rw [if_neg hf] at h
    obtain rfl := Except.ok.inj h
    rfl

/-- Without an answer there is no client left, whatever the error. -/
theorem pingOutcome_client {status : Option ℕ} (h : pingOutcome cfg env status t run = .ok (t', run')) :
    t'.client = (t.client && status.isSome) := by
  cases status with
  | some us =>
    obtain ⟨u, hu, h⟩ := bind_eq_ok.1 h
    obtain ⟨rfl, -⟩ := Prod.mk.inj (Except.ok.inj h)
    rw [pingRecord_client hu, Option.isSome_some, Bool.and_true]
  | none =>
    have hfailure : pingFailure env t run = (t', run') := Except.ok.inj h
    have hconst : ECONNRESET ≠ 0 := by decide
    unfold pingFailure at hfailure
    dsimp only at hfailure
    rw [Option.isSome_none, Bool.and_false]
    split_ifs at hfailure with hc
    · rw [← (Prod.mk.inj hfailure).1]
      simp [hconst]
    · rw [← (Prod.mk.inj hfailure).1]
      exact Bool.eq_false_iff.2 hc

theorem pingInterval_client (h : pingInterval cfg t run = .ok (t', run')) : t'.client = t.client := by
  have hreset : (resetCounters cfg t).client = t.client := by
    unfold resetCounters
    split_ifs
    · rfl
    · rfl
  rcases pingInterval_ok h with ⟨rfl, -⟩ | ⟨rfl, -⟩
  · rfl
  · exact hreset

/-- **One turn** keeps the client iff there is an answer. -/
theorem pingTarget_client (hr : cfg.reconnect = false) (h : pingTarget cfg env r j t run = .ok (t', run'))
    (ha : pingAttempt cfg env r (j, t, run) = a) :
    a.created = (!t.client && a.connected) ∧ (t.client = true → a.connected = true) ∧
      a.kept = t'.client ∧ a.kept = (a.connected && a.status.isSome) := by
  obtain ⟨t₁, run₁, t₂, run₂, t₃, hconnect, houtcome, hinterval, ht'⟩ := pingTarget_ok.1 h
  simp only [pingAttempt, hconnect, h] at ha
  subst ha
  refine ⟨rfl, pingConnect_client hconnect, rfl, ?_⟩
  dsimp only
  rw [ht', hr, Bool.not_false, Bool.and_true, pingInterval_client hinterval, pingOutcome_client houtcome]

/-! ## Rounds -/

theorem pingRound_attempt (hr : cfg.reconnect = false) (h : pingRound cfg env r s = .ok s')
    (ht : s.targets[j]? = some t) : ∃ a t', s.attempt cfg env r j = some a ∧ s'.targets[j]? = some t' ∧
      a.created = (!t.client && a.connected) ∧ (t.client = true → a.connected = true) ∧
      a.kept = t'.client ∧ a.kept = (a.connected && a.status.isSome) := by
  unfold pingRound at h
  obtain ⟨⟨targets, run⟩, hw, h⟩ := bind_eq_ok.1 h
  obtain rfl := Except.ok.inj h
  obtain ⟨t', run₁, run₂, ht', hstep, hok⟩ := walk_step hw ht
  rw [Nat.zero_add] at hstep hok
  exact ⟨_, t', by rw [PingState.attempt, hstep, Option.map_some], ht', pingTarget_client hr hok rfl⟩

theorem pingAttempts_succ (h : rounds (pingRound cfg env) n 0 s₀ = .ok s)
    (ha : s.attempt cfg env n j = some a) :
    pingAttempts cfg env (n + 1) s₀ j = pingAttempts cfg env n s₀ j ++ [a] := by
  rw [pingAttempts, List.range_succ, List.filterMap_append]
  simp only [List.filterMap_cons, h, ha, List.filterMap_nil]
  rfl

theorem attempted_nil : Attempted [] t := ⟨by simp, by simp⟩

/-- **One attempt more.** -/
theorem Attempted.concat (h : Attempted attempts t) (hcreated : a.created = (!t.client && a.connected))
    (hconn : t.client = true → a.connected = true) (hkept : a.kept = t'.client)
    (hstatus : a.kept = (a.connected && a.status.isSome)) : Attempted (attempts ++ [a]) t' := by
  refine ⟨fun b hb => ?_, fun hreset => ?_⟩
  · rcases List.mem_append.1 hb with hb | hb
    · exact h.kept b hb
    · rwa [List.mem_singleton.1 hb]
  · have hcount := h.created fun b hb => hreset b (List.mem_append_left _ hb)
    have ha := hreset a (List.mem_append_right _ (List.mem_singleton_self a))
    rw [List.countP_append, List.countP_append, List.countP_singleton, List.countP_singleton, ← hkept,
      hstatus, hcreated]
    -- a client that is there is kept, or the attempt is a reset
    cases hcon : a.connected with
    | false =>
      have hc : t.client = false := Bool.eq_false_iff.2 fun hc => by simp [hconn hc] at hcon
      simp only [hc, Bool.toNat_false] at hcount
      simp
      omega
    | true =>
      have hbit := Bool.toNat_le t.client
      cases hs : a.status with
      | some us =>
        cases hc : t.client <;> simp [hc] at hcount ⊢ <;> omega
      | none =>
        cases hc : t.client <;> simp [hc, ha hcon hs] at hcount ⊢ <;> omega

/-- **Any number of rounds**: one attempt at each target in each of them. -/
theorem rounds_attempted (hr : cfg.reconnect = false)
    (h : rounds (pingRound cfg env) n 0 s₀ = .ok s) (hj : j < s₀.targets.length) :
    ∃ t, s.targets[j]? = some t ∧ Attempted (pingAttempts cfg env n s₀ j) t ∧
      (pingAttempts cfg env n s₀ j).length = n := by
  induction n generalizing s with
  | zero =>
    obtain rfl := Except.ok.inj h
    exact ⟨s₀.targets[j], List.getElem?_eq_getElem hj, attempted_nil, rfl⟩
  | succ n ih =>
    obtain ⟨s₁, h₁, hround⟩ := rounds_last.1 h
    rw [Nat.zero_add] at hround
    obtain ⟨t, ht, hattempted, hlen⟩ := ih h₁
    obtain ⟨a, t', ha, ht', hcreated, hconn, hkept, hstatus⟩ := pingRound_attempt hr hround ht
    refine ⟨t', ht', ?_, ?_⟩
    · rw [pingAttempts_succ h₁ ha]
      exact hattempted.concat hcreated hconn hkept hstatus
    · rw [pingAttempts_succ h₁ ha, List.length_append, hlen, List.length_singleton]

end

/-- **The connection is kept** under `-R` iff every ping of a connected target that gets no answer has
    one of the two errors. -/
theorem pingAttempts_keeps_iff (ts : List Target) (n : ℕ) (s : PingState) (hr : cfg.reconnect = false)
    (h : rounds (pingRound cfg env) n 0 { targets := ts } = .ok s) (j : ℕ) (hj : j < ts.length) :
    (pingAttempts cfg env n { targets := ts } j).length = n ∧
      (KeepsConnection (pingAttempts cfg env n { targets := ts } j) ↔
        ∀ a ∈ pingAttempts cfg env n { targets := ts } j, a.connected = true → a.status = none →
          a.reErrno = EPIPE ∨ a.reErrno = ECONNRESET) := by
  obtain ⟨t, -, hattempted, hlen⟩ := rounds_attempted hr h hj
  have hreset : ∀ a : PingAttempt, a.connected = true → a.status = none →
      (a.reset = true ↔ a.reErrno = EPIPE ∨ a.reErrno = ECONNRESET) := by
    intro a hconn hstatus
    simp [PingAttempt.reset, hconn, hstatus]
  refine ⟨hlen, fun hkeeps a ha hconn hstatus => ?_, fun herrors => ⟨fun a ha hconn hkept => ?_, ?_⟩⟩
  · refine (hreset a hconn hstatus).1 (hkeeps.destroyed a ha hconn ?_)
    rw [hattempted.kept a ha, hstatus, Option.isSome_none, Bool.and_false]
  · have hstatus : a.status = none := by
      rw [hattempted.kept a ha, hconn, Bool.true_and] at hkept
      exact Option.not_isSome_iff_eq_none.1 (by rw [hkept]; exact Bool.false_ne_true)
    exact (hreset a hconn hstatus).2 (herrors a ha hconn hstatus)
  · have hcount := hattempted.created fun a ha hconn hstatus =>
      (hreset a hconn hstatus).2 (herrors a ha hconn hstatus)
    have hbit := Bool.toNat_le t.client
    omega

/-- `-R -c 2`. -/
def pingKept : PingConfig where
  count := 2
  reconnect := false

theorem pingAttempts_keeps_iff_answered : ∃ ts s,
    pingTargets pingKept noNames 0 dummyTargets ["10.0.0.1".toList] = .ok ts ∧
      rounds (pingRound pingKept answersAll) 2 0 { targets := ts.tail } = .ok s ∧
      KeepsConnection (pingAttempts pingKept answersAll 2 { targets := ts.tail } 0) := by
  have hround : ∃ ts s, pingTargets pingKept noNames 0 dummyTargets ["10.0.0.1".toList] = .ok ts ∧
      rounds (pingRound pingKept answersAll) 2 0 { targets := ts.tail } = .ok s ∧ 0 < ts.tail.length ∧
      (pingAttempts pingKept answersAll 2 { targets := ts.tail } 0).map (·.status) = [some 5, some 5] :=
    ⟨_, _, rfl, rfl, by decide, rfl⟩
  obtain ⟨ts, s, hts, h, hj, hstatus⟩ := hround
  refine ⟨ts, s, hts, h, ?_⟩
  refine (pingAttempts_keeps_iff pingKept answersAll ts.tail 2 s rfl h 0 hj).2.2 ?_
  intro a ha _ hnone
  have hmem : a.status ∈ [some 5, some 5] := hstatus ▸ List.mem_map_of_mem ha
  simp [hnone] at hmem

/-- Every ping times out, and the connection is made again for each. -/
theorem pingAttempts_timeout : ∃ ts s,
    pingTargets pingKept noNames 0 dummyTargets ["10.0.0.1".toList] = .ok ts ∧
      rounds (pingRound pingKept answersNone) 2 0 { targets := ts.tail } = .ok s ∧
      (pingAttempts pingKept answersNone 2 { targets := ts.tail } 0).map
        (fun a => (a.created, a.status, a.reErrno, a.kept)) =
          [(true, none, 0, false), (true, none, 0, false)] ∧
      ¬ KeepsConnection (pingAttempts pingKept answersNone 2 { targets := ts.tail } 0) := by
  refine ⟨_, _, rfl, rfl, rfl, fun hkeeps => ?_⟩
  exact absurd hkeeps.created (by decide)

end NFStash
