/-
  The response times of `nfsmount`.

  An export keeps the least, the greatest and the mean time of its replies with a filehandle
  (`mountTimes`).  `init_export` leaves the minimum at 0, where `init_target` and
  `nfs_fh_list_new` start from the largest value; so nothing is ever below it, and
  `mountTimes_kept_iff` says that it is a time of the export only if this is 0.
-/
import NFStash.MountRequests
import NFStash.Times

namespace NFStash

open CLib Loops Running

variable (cfg : MountConfig) (env : MountEnv)

/-- The times of the replies with a filehandle in the first `n` rounds, for export `k` of target `j`,
    which was `t` before the first round. -/
def mountTimes (j : ℕ) (t : Target) (k n : ℕ) : List ℕ :=
  ((List.range n).filter fun r => clientIn cfg env j t r && decide (Got cfg env (r, j, k))).map
    fun r => env.usec r j k

/-- What an export keeps of its times. -/
structure Timed (times : List ℕ) (e : MountExports) : Prop where
  received : e.received = wrap64 times.length
  min : e.min = least 0 times
  max : e.max = greatest 0 times
  avg : e.avg = if times.length < 2 ^ 64 then some (mean (times.map fun t : ℕ => (t : ℚ))) else none

/-- The least, the greatest and the mean time, if there is one. -/
def TimesKept (times : List ℕ) (e : MountExports) : Prop :=
  times ≠ [] → IsLeast {t | t ∈ times} e.min ∧ IsGreatest {t | t ∈ times} e.max ∧
    e.avg = some (mean (times.map fun t : ℕ => (t : ℚ)))

section
variable {cfg env} {r j k n : ℕ} {target : Target} {e e' : MountExports} {run run' : MountRun}
  {times : List ℕ} {s s' : MountState} {res : Resolver}

theorem initExport_timed {path : CString} : Timed [] (initExport target path cfg.count) :=
  ⟨rfl, rfl, rfl, by simp [initExport]⟩

theorem mountRecord_timed (hlooping : cfg.count ≠ 0 ∨ cfg.loop = true) {usec : ℕ} (he : Timed times e)
    (h : mountRecord cfg usec { e with received := wrap64 (e.received + 1) } = .ok e') :
    Timed (times ++ [usec]) e' := by
  have hreceived : wrap64 (wrap64 times.length + 1) = wrap64 (times ++ [usec]).length := by
    simp [wrap64]
  rcases mountRecord_ok h with ⟨hcount, hloop, -⟩ | ⟨results, rfl, -⟩
  · rcases hlooping with hne | hl
    · exact absurd hcount hne
    · simp [hl] at hloop
  · refine ⟨?_, ?_, ?_, ?_⟩
    · show wrap64 (e.received + 1) = _
      rw [he.received, hreceived]
    · show (if usec < e.min then usec else e.min) = _
      rw [he.min, least_concat]
    · show (if usec > e.max then usec else e.max) = _
      rw [he.max, greatest_concat]
    · show runningAvg 64 e.avg (wrap64 (e.received + 1)) usec = _
      rw [he.avg, he.received]
      exact runningAvg_mean 64 times usec

/-- **A request** adds its time, if its reply has a filehandle. -/
theorem mountExport_timed (hlooping : cfg.count ≠ 0 ∨ cfg.loop = true) (he : Timed times e)
    (h : mountExport cfg env r j target k e run = .ok (e', run')) :
    Timed (times ++ if Got cfg env (r, j, k) then [env.usec r j k] else []) e' := by
  obtain ⟨reply, run₁, hr, -, ⟨hlost, rfl, -⟩ | ⟨hgot, hsuccess⟩⟩ := mountExport_ok h
  · rw [if_neg (by simp [Got, hr, hlost]), List.append_nil]
    exact ⟨he.received, he.min, he.max, he.avg⟩
  · rw [if_pos ⟨reply, hr, hgot⟩]
    obtain ⟨e₁, hrecord, houtput⟩ := mountSuccess_ok.1 hsuccess
    have he₁ : Timed (times ++ [env.usec r j k]) e₁ :=
      mountRecord_timed (e := { e with sent := wrap64 (e.sent + 1) }) hlooping
        ⟨he.received, he.min, he.max, he.avg⟩ hrecord
    have hstats := mountOutput_stats houtput
    exact ⟨by rw [hstats, he₁.received], by rw [hstats, he₁.min], by rw [hstats, he₁.max],
      by rw [hstats, he₁.avg]⟩

theorem mountTimes_succ {t : Target} : mountTimes cfg env j t k (r + 1) = mountTimes cfg env j t k r ++
    if clientIn cfg env j t r = true ∧ Got cfg env (r, j, k) then [env.usec r j k] else [] := by
  unfold mountTimes
  rw [List.range_succ, List.filter_append, List.map_append]
  congr 1
  by_cases hc : clientIn cfg env j t r = true <;> by_cases hg : Got cfg env (r, j, k) <;> simp [hc, hg]

/-- **Every round**: an export keeps what it has been told. -/
theorem rounds_timed (hlooping : cfg.count ≠ 0 ∨ cfg.loop = true) {args : List CString}
    (hs : mountTargets cfg env res args = .ok s) (h : rounds (mountRound cfg env) n 0 s = .ok s') :
    ∀ j t t' k e, s.targets[j]? = some t → s'.targets[j]? = some t' → t'.exports[k]? = some e →
      Timed (mountTimes cfg env j t k n) e := by
  let Q : ℕ → ℕ → ℕ → MountExports → Prop := fun r j k e =>
    ∀ t, s.targets[j]? = some t → Timed (mountTimes cfg env j t k r) e
  have hlead : ∀ r, Leads cfg env s.targets r (Q r) (Q (r + 1)) := by
    intro r
    constructor
    · intro j t₀ k target e u e' u' h₀ hc he hexport t ht
      obtain rfl : t = t₀ := Option.some.inj (ht.symm.trans h₀)
      rw [mountTimes_succ]
      simpa [hc] using mountExport_timed hlooping (he t ht) hexport
    · intro j t₀ k e h₀ hc he t ht
      obtain rfl : t = t₀ := Option.some.inj (ht.symm.trans h₀)
      rw [mountTimes_succ]
      simpa [hc] using he t ht
  have hstand := rounds_stand hlead (fun j t ht k e he t' ht' =>
    mountTargets_exports (fun _ _ => initExport_timed) hs t (List.mem_of_getElem? ht) e
      (List.mem_of_getElem? he)) h
  intro j t t' k e ht ht' he
  exact (hstand.2 j t t' ht ht').each k e he t ht

end

/-- **The times are kept** after a round, iff there are none yet, or one of them is 0 (and their number
    fits the counter). -/
theorem mountTimes_kept_iff (res : Resolver) (args : List CString) (s s' : MountState) (n : ℕ)
    (hlooping : cfg.count ≠ 0 ∨ cfg.loop = true) (hs : mountTargets cfg env res args = .ok s)
    (h : rounds (mountRound cfg env) n 0 s = .ok s') (j k : ℕ) (t t' : Target) (e : MountExports)
    (ht : s.targets[j]? = some t) (ht' : s'.targets[j]? = some t') (he : t'.exports[k]? = some e) :
    TimesKept (mountTimes cfg env j t k n) e ↔ mountTimes cfg env j t k n = [] ∨
      0 ∈ mountTimes cfg env j t k n ∧ (mountTimes cfg env j t k n).length < 2 ^ 64 := by
  have htimed := rounds_timed hlooping hs h j t t' k e ht ht' he
  revert htimed
  generalize mountTimes cfg env j t k n = times
  intro htimed
  by_cases hne : times = []
  · simp [TimesKept, hne]
  have hgreatest : ∃ x ∈ times, 0 ≤ x := by
    obtain ⟨x, hx⟩ := List.exists_mem_of_ne_nil times hne
    exact ⟨x, hx, Nat.zero_le x⟩
  have hleast : (∃ x ∈ times, x ≤ 0) ↔ 0 ∈ times := by simp
  simp only [TimesKept, hne, ne_eq, not_false_eq_true, forall_const, false_or]
  rw [htimed.min, htimed.max, htimed.avg, isLeast_least_iff, isGreatest_greatest_iff, hleast]
  constructor
  · rintro ⟨hzero, -, havg⟩
    refine ⟨hzero, ?_⟩
    by_contra hlen
    rw [if_neg hlen] at havg
    cases havg
  · rintro ⟨hzero, hlen⟩
    exact ⟨hzero, hgreatest, if_pos hlen⟩

/-- `-c 1`. -/
def mountPing : MountConfig where
  format := .ping
  count := 1

/-- Every request takes 5 microseconds, and its reply has a filehandle. -/
def fiveMicroseconds : MountEnv where
  connect _ _ := true
  mountres3 _ _ _ := some { fhandle := ⟨[5], by decide⟩ }
  usec _ _ _ := 5

/-- The export of `10.0.0.1:/a` after the first round. -/
theorem mountPing_round : ∃ s s' t t' e,
    mountTargets mountPing fiveMicroseconds noNames ["10.0.0.1:/a".toList] = .ok s ∧
    rounds (mountRound mountPing fiveMicroseconds) 1 0 s = .ok s' ∧ s.targets[0]? = some t ∧
    s'.targets[0]? = some t' ∧ t'.exports[0]? = some e ∧ e.min = 0 ∧
    mountTimes mountPing fiveMicroseconds 0 t 0 1 = [5] :=
  ⟨_, _, _, _, _, rfl, rfl, rfl, rfl, rfl, rfl, by decide⟩

theorem mountTimes_kept_iff_onePing : ∃ t e,
    TimesKept (mountTimes mountPing fiveMicroseconds 0 t 0 1) e ↔
      mountTimes mountPing fiveMicroseconds 0 t 0 1 = [] ∨
        0 ∈ mountTimes mountPing fiveMicroseconds 0 t 0 1 ∧
          (mountTimes mountPing fiveMicroseconds 0 t 0 1).length < 2 ^ 64 := by
  obtain ⟨s, s', t, t', e, hs, h, ht, ht', he, -⟩ := mountPing_round
  exact ⟨t, e, mountTimes_kept_iff _ _ noNames _ s s' 1 (.inl (by decide)) hs h 0 0 t t' e ht ht' he⟩

/-- After one reply, which took 5 microseconds, the minimum is 0. -/
theorem mountTimes_zero : ∃ s s' t t' e,
    mountTargets mountPing fiveMicroseconds noNames ["10.0.0.1:/a".toList] = .ok s ∧
    rounds (mountRound mountPing fiveMicroseconds) 1 0 s = .ok s' ∧ s.targets[0]? = some t ∧
    s'.targets[0]? = some t' ∧ t'.exports[0]? = some e ∧
    mountTimes mountPing fiveMicroseconds 0 t 0 1 = [5] ∧ e.min = 0 ∧
    ¬ TimesKept (mountTimes mountPing fiveMicroseconds 0 t 0 1) e := by
  obtain ⟨s, s', t, t', e, hs, h, ht, ht', he, hmin, htimes⟩ := mountPing_round
  refine ⟨s, s', t, t', e, hs, h, ht, ht', he, htimes, hmin, ?_⟩
  intro hkept
  rw [htimes] at hkept
  have hmem : e.min ∈ [5] := (hkept (by decide)).1.1
  rw [hmin] at hmem
  exact absurd hmem (by decide)

end NFStash
