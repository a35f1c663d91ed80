/-
  The loss that `nfsmount` shows.

  It is an integer division before the multiplication (`mountLoss`), where the other commands divide
  by a floating point number: `lossRight_iff` says that the percentage is right only if all requests or
  none have been answered, and that there is none before the first request.  `mountLoss_iff` follows
  the counters of an export over a run.
-/
import NFStash.MountRequests
import NFStash.Times
import Mathlib.Tactic.FieldSimp
import Mathlib.Tactic.Linarith

namespace NFStash

open CLib Loops

/-! ## Percentages -/

/-- The loss in a line of output. -/
def MountLine.loss? : MountLine → Option ℕ
  | .ping _ _ _ _ _ _ percent => some percent
  | _ => none

/-- The loss in a line of the summary. -/
def MountSummary.loss? : MountSummary → Option ℕ
  | .loss _ _ _ _ percent _ => some percent
  | _ => none

/-- The percentage of the requests that are lost is shown, which is what the other commands compute. -/
def LossRight (s : Stats) (shown : Except Fault (Option ℕ)) : Prop :=
  ∃ loss : ℕ, shown = .ok (some loss) ∧ (loss : ℚ) = 100 * ((s.sent : ℚ) - s.received) / s.sent ∧
    ∀ w, s.sent < 2 ^ w → lossPercent w s.sent s.received = some (loss : ℚ)

/-- There is a request, and all or none are answered. -/
def AllOrNone (sent received : ℕ) : Prop := sent ≠ 0 ∧ (received = 0 ∨ received = sent)

section
variable {cfg : MountConfig} {env : MountEnv} {target : Target} {e : MountExports} {s : Stats}

theorem lossPercent_none {w sent : ℕ} (hsent : sent ≠ 0) (hw : sent < 2 ^ w) :
    lossPercent w sent 0 = some 100 := by
  have hne : (sent : ℚ) ≠ 0 := Nat.cast_ne_zero.2 hsent
  rw [lossPercent, if_neg hsent, Nat.sub_zero, Nat.add_mod_right, Nat.mod_eq_of_lt hw, div_self hne,
    one_mul]

theorem lossPercent_all {w sent : ℕ} (hsent : sent ≠ 0) : lossPercent w sent sent = some 0 := by
  rw [lossPercent, if_neg hsent, Nat.add_sub_cancel_left, Nat.mod_self, Nat.cast_zero, zero_div,
    zero_mul]

/-- **The integer division** gives the right percentage for all or nothing. -/
theorem lossRight_iff (hlt : s.sent < 2 ^ 64) :
    LossRight s ((mountLoss s).map some) ↔ AllOrNone s.sent s.received := by
  unfold mountLoss
  by_cases hsent : s.sent = 0
  · rw [if_pos hsent]
    refine iff_of_false ?_ fun h => h.1 hsent
    rintro ⟨loss, hshown, -⟩
    cases hshown
  rw [if_neg hsent]
  have hne : (s.sent : ℚ) ≠ 0 := Nat.cast_ne_zero.2 hsent
  constructor
  · rintro ⟨loss, hshown, hloss, -⟩
    refine ⟨hsent, ?_⟩
    obtain rfl := Option.some.inj (Except.ok.inj hshown)
    revert hloss
    generalize wrap64 (s.sent + 2 ^ 64 - s.received) / s.sent = q
    intro hloss
    -- the quotient is 0 or 1
    have hq : q * s.sent + s.received = s.sent := by
      rw [eq_div_iff hne, Nat.cast_mul, Nat.cast_ofNat] at hloss
      have hcast : (q : ℚ) * s.sent + s.received = s.sent := by linarith
      exact_mod_cast hcast
    match q, hq with
    | 0, hq => exact .inr (by omega)
    | 1, hq => exact .inl (by omega)
    | q + 2, hq =>
      have hexp : (q + 2) * s.sent = q * s.sent + 2 * s.sent := Nat.add_mul q 2 s.sent
      omega
  · rintro ⟨-, hreceived | hreceived⟩
    · have hwrap : wrap64 (s.sent + 2 ^ 64 - s.received) = s.sent := by
        rw [hreceived, Nat.sub_zero, wrap64, Nat.add_mod_right, Nat.mod_eq_of_lt hlt]
      refine ⟨100, ?_, ?_, fun w hw => ?_⟩
      · rw [hwrap, Nat.div_self (Nat.pos_of_ne_zero hsent)]
        rfl
      · rw [hreceived, Nat.cast_zero, sub_zero, mul_div_assoc, div_self hne, mul_one]
        rfl
      · rw [hreceived, lossPercent_none hsent hw]
        rfl
    · have hwrap : wrap64 (s.sent + 2 ^ 64 - s.received) = 0 := by
        rw [hreceived, Nat.add_sub_cancel_left]
        rfl
      refine ⟨0, ?_, ?_, fun w _ => ?_⟩
      · rw [hwrap, Nat.zero_div]
        rfl
      · rw [hreceived, sub_self, mul_zero, zero_div]
        rfl
      · rw [hreceived, lossPercent_all hsent]
        rfl

/-- The loss in the output, in the formats that show one. -/
theorem printOutput_loss {root : Root} {clock : ℕ × ℕ} {usec : ℕ}
    (hformat : cfg.format = .ping ∨ cfg.format = .unixtime ∨ cfg.format = .fping) :
    (printOutput cfg env target e root clock usec).map (·.2.loss?) = (mountLoss e.toStats).map some := by
  unfold printOutput
  cases mountLoss e.toStats with
  | error f => rfl
  | ok loss =>
    rcases hformat with hf | hf | hf
    · rw [hf]
      rfl
    · rw [hf]
      rfl
    · rw [hf]
      rfl

/-- The loss in the summary; in format `fping` it shows the results instead. -/
theorem exportSummary_loss (hformat : cfg.format ≠ .fping) :
    (exportSummary cfg target e).map (·.loss?) = (mountLoss e.toStats).map some := by
  rw [exportSummary, if_neg hformat]
  cases mountLoss e.toStats with
  | error f => rfl
  | ok loss => rfl

end

/-! ## Counters -/

variable (cfg : MountConfig) (env : MountEnv)

/-- The number of rounds before `r` in which the request for export `k` of target `j` has been
    answered. -/
def gotIn (j : ℕ) (t : Target) (k r : ℕ) : ℕ :=
  (List.range r).countP fun r => clientIn cfg env j t r && decide (Got cfg env (r, j, k))

/-- An export with these numbers of requests and answers. -/
structure RequestCounters (sent received : ℕ) (e : MountExports) : Prop where
  sent : e.sent = wrap64 sent
  received : e.received = wrap64 received

section
variable {cfg env} {r j k n : ℕ} {target t t' : Target} {e e' : MountExports} {run run' : MountRun}
  {s s' : MountState} {res : Resolver}

theorem gotIn_succ : gotIn cfg env j t k (r + 1) = gotIn cfg env j t k r +
    if clientIn cfg env j t r = true ∧ Got cfg env (r, j, k) then 1 else 0 := by
  simp [gotIn, List.range_succ]

theorem RequestCounters.lossRight_iff {sent received : ℕ} (h : RequestCounters sent received e) :
    LossRight e.toStats ((mountLoss e.toStats).map some) ↔
      AllOrNone (wrap64 sent) (wrap64 received) := by
  rw [← h.sent, ← h.received]
  refine NFStash.lossRight_iff ?_
  rw [h.sent]
  exact Nat.mod_lt _ (Nat.two_pow_pos 64)

theorem mountRecord_counters {usec : ℕ} (h : mountRecord cfg usec e = .ok e') :
    e'.sent = e.sent ∧ e'.received = e.received := by
  rcases mountRecord_ok h with ⟨-, -, rfl⟩ | ⟨results, rfl, -⟩
  · exact ⟨rfl, rfl⟩
  · exact ⟨rfl, rfl⟩

/-- A request is counted, and so is its answer. -/
theorem mountExport_counters (h : mountExport cfg env r j target k e run = .ok (e', run')) :
    e'.sent = wrap64 (e.sent + 1) ∧
      e'.received = if Got cfg env (r, j, k) then wrap64 (e.received + 1) else e.received := by
  obtain ⟨reply, run₁, hr, -, ⟨hlost, rfl, -⟩ | ⟨hgot, hsuccess⟩⟩ := mountExport_ok h
  · rw [if_neg (by simp [Got, hr, hlost])]
    exact ⟨rfl, rfl⟩
  · rw [if_pos ⟨reply, hr, hgot⟩]
    obtain ⟨e₁, hrecord, houtput⟩ := mountSuccess_ok.1 hsuccess
    obtain ⟨hsent, hreceived⟩ := mountRecord_counters hrecord
    rw [mountOutput_stats houtput]
    exact ⟨hsent, hreceived⟩

theorem RequestCounters.answered {sent received : ℕ} (h : RequestCounters sent received e)
    (hsent : e'.sent = wrap64 (e.sent + 1)) (hreceived : e'.received = wrap64 (e.received + 1)) :
    RequestCounters (sent + 1) (received + 1) e' := by
  refine ⟨?_, ?_⟩
  · rw [hsent, h.sent, wrap64, wrap64, wrap64, Nat.mod_add_mod]
  · rw [hreceived, h.received, wrap64, wrap64, wrap64, Nat.mod_add_mod]

/-- **Every round**: an export has been counted in the rounds with a client. -/
theorem rounds_counters {args : List CString} (hs : mountTargets cfg env res args = .ok s)
    (h : rounds (mountRound cfg env) n 0 s = .ok s') :
    AllStand cfg env (fun j k e => ∀ t, s.targets[j]? = some t →
      RequestCounters (roundsIn cfg env j t n) (gotIn cfg env j t k n) e) s.targets n s'.targets := by
  refine rounds_stand (Q := fun r j k e => ∀ t, s.targets[j]? = some t →
    RequestCounters (roundsIn cfg env j t r) (gotIn cfg env j t k r) e) (fun r => ⟨?_, ?_⟩) ?_ h
  · intro j t₀ k target e u e' u' h₀ hc he hexport t ht
    obtain rfl : t = t₀ := Option.some.inj (ht.symm.trans h₀)
    obtain ⟨hsent, hreceived⟩ := mountExport_counters hexport
    obtain ⟨hsent₀, hreceived₀⟩ := he t ht
    rw [roundsIn_succ, gotIn_succ, if_pos hc]
    refine ⟨?_, ?_⟩
    · rw [hsent, hsent₀, wrap64, wrap64, wrap64, Nat.mod_add_mod]
    · rw [hreceived, hreceived₀]
      by_cases hgot : Got cfg env (r, j, k)
      · rw [if_pos hgot, if_pos ⟨hc, hgot⟩, wrap64, wrap64, wrap64, Nat.mod_add_mod]
      · rw [if_neg hgot, if_neg fun h => hgot h.2, Nat.add_zero]
  · intro j t₀ k e h₀ hc he t ht
    obtain rfl : t = t₀ := Option.some.inj (ht.symm.trans h₀)
    rw [roundsIn_succ, gotIn_succ, hc, if_neg Bool.false_ne_true, if_neg fun h => Bool.false_ne_true h.1]
    exact he t ht
  · intro j t ht k e he t' ht'
    exact mountTargets_exports (Q := fun e => RequestCounters 0 0 e) (fun _ _ => ⟨rfl, rfl⟩) hs t
      (List.mem_of_getElem? ht) e (List.mem_of_getElem? he)

/-- The counters of an export when its request is made. -/
theorem MountReaches.counters {args : List CString} (hs : mountTargets cfg env res args = .ok s)
    (h : MountReaches cfg env s r j k target e run) (ht : s.targets[j]? = some t) :
    clientIn cfg env j t r = true ∧
      RequestCounters (roundsIn cfg env j t r) (gotIn cfg env j t k r) e := by
  obtain @⟨sr, t', u, hrounds, -, hget, hconnected, hclient, -, hget'⟩ := h
  obtain ⟨t₀, h₀, hstands⟩ := (rounds_counters hs hrounds).get_before hget
  obtain rfl : t₀ = t := Option.some.inj (h₀.symm.trans ht)
  rw [mountConnect_eq] at hconnected
  obtain ⟨rfl, -⟩ := Prod.mk.inj hconnected
  exact ⟨hstands.clientIn ▸ hclient, hstands.each k e hget' t₀ ht⟩

end

/-- **The loss**, in the summary after any number of rounds and in the output for any answer, is right
    iff there is a request and all or none of the requests so far have been answered, in the
    arithmetic of the counters. -/
theorem mountLoss_iff (res : Resolver) (args : List CString) (s : MountState)
    (hformat : cfg.format = .ping ∨ cfg.format = .unixtime ∨ cfg.format = .fping)
    (hs : mountTargets cfg env res args = .ok s) (j k : ℕ) (t : Target) (ht : s.targets[j]? = some t) :
    (cfg.format ≠ .fping → ∀ n s' t' e, rounds (mountRound cfg env) n 0 s = .ok s' →
      s'.targets[j]? = some t' → t'.exports[k]? = some e →
        (LossRight e.toStats ((exportSummary cfg t' e).map (·.loss?)) ↔
          AllOrNone (wrap64 (roundsIn cfg env j t n)) (wrap64 (gotIn cfg env j t k n)))) ∧
      ∀ r target e run e' root clock usec, MountReaches cfg env s r j k target e run →
        Got cfg env (r, j, k) →
        mountRecord cfg usec { e with sent := wrap64 (e.sent + 1), received := wrap64 (e.received + 1) } =
          .ok e' →
        (LossRight e'.toStats ((printOutput cfg env target e' root clock usec).map (·.2.loss?)) ↔
          AllOrNone (wrap64 (roundsIn cfg env j t (r + 1))) (wrap64 (gotIn cfg env j t k (r + 1)))) := by
  constructor
  · intro hf n s' t' e h ht' he
    rw [exportSummary_loss hf]
    exact (((rounds_counters hs h).each j t t' ht ht').each k e he t ht).lossRight_iff
  · intro r target e run e' root clock usec h hgot hrecord
    obtain ⟨hclient, hcounters⟩ := h.counters hs ht
    obtain ⟨hsent, hreceived⟩ := mountRecord_counters hrecord
    rw [printOutput_loss hformat, (hcounters.answered hsent hreceived).lossRight_iff, roundsIn_succ,
      gotIn_succ, if_pos hclient, if_pos ⟨hclient, hgot⟩]

/-- `-c 2`. -/
def mountTwice : MountConfig where
  format := .ping
  count := 2

/-- The first request is answered with a filehandle, and the second without one. -/
def answersOnce : MountEnv where
  connect _ _ := true
  mountres3 r _ _ := some { fhandle :=
    ⟨List.replicate (1 - r) 6, by rw [List.length_replicate, FHSIZE3]; omega⟩ }

/-- No connection is made. -/
def neverConnects : MountEnv where
  connect _ _ := false

/-- After the first round, in which the only request is answered. -/
theorem mountLoss_iff_oneRound : ∃ s s' t e,
    mountTargets mountTwice answersOnce noNames ["10.0.0.1:/a".toList] = .ok s ∧
      rounds (mountRound mountTwice answersOnce) 1 0 s = .ok s' ∧ s'.targets[0]? = some t ∧
      t.exports[0]? = some e ∧ LossRight e.toStats ((exportSummary mountTwice t e).map (·.loss?)) := by
  have hround : ∃ s s' t t' e,
      mountTargets mountTwice answersOnce noNames ["10.0.0.1:/a".toList] = .ok s ∧
        rounds (mountRound mountTwice answersOnce) 1 0 s = .ok s' ∧ s.targets[0]? = some t ∧
        s'.targets[0]? = some t' ∧ t'.exports[0]? = some e ∧ roundsIn mountTwice answersOnce 0 t 1 = 1 ∧
        gotIn mountTwice answersOnce 0 t 0 1 = 1 :=
    ⟨_, _, _, _, _, rfl, rfl, rfl, rfl, rfl, by decide, by decide⟩
  obtain ⟨s, s', t, t', e, hs, h, ht, ht', he, hsent, hgot⟩ := hround
  refine ⟨s, s', t', e, hs, h, ht', he, ?_⟩
  refine ((mountLoss_iff mountTwice answersOnce noNames _ s (.inl rfl) hs 0 0 t ht).1 (by decide) 1 s' t'
    e h ht' he).2 ?_
  rw [hsent, hgot]
  exact ⟨by decide, .inr rfl⟩

/-- One of two requests is lost, and the loss is 0; and an export without a connection has none. -/
theorem mountLoss_half :
    (∃ s s' t e, mountTargets mountTwice answersOnce noNames ["10.0.0.1:/a".toList] = .ok s ∧
      rounds (mountRound mountTwice answersOnce) 2 0 s = .ok s' ∧ s'.targets[0]? = some t ∧
      t.exports[0]? = some e ∧ e.sent = 2 ∧ e.received = 1 ∧
      (exportSummary mountTwice t e).map (·.loss?) = .ok (some 0) ∧
      ¬ LossRight e.toStats ((exportSummary mountTwice t e).map (·.loss?))) ∧
    ∃ s s' t e, mountTargets mountTwice neverConnects noNames ["10.0.0.1:/a".toList] = .ok s ∧
      rounds (mountRound mountTwice neverConnects) 1 0 s = .ok s' ∧ s'.targets[0]? = some t ∧
      t.exports[0]? = some e ∧ (exportSummary mountTwice t e).map (·.loss?) = .error .divisionByZero := by
  refine ⟨⟨_, _, _, _, rfl, rfl, rfl, rfl, rfl, rfl, rfl, ?_⟩, ⟨_, _, _, _, rfl, rfl, rfl, rfl, rfl⟩⟩
  rintro ⟨loss, hshown, hloss, -⟩
  obtain rfl : 0 = loss := Option.some.inj (Except.ok.inj hshown)
  have hsent : ∀ x : ℕ, x = 2 → ∀ y : ℕ, y = 1 → ((0 : ℕ) : ℚ) ≠ 100 * ((x : ℚ) - y) / x := by
    rintro x rfl y rfl
    norm_num
  exact hsent _ rfl _ rfl hloss

end NFStash
