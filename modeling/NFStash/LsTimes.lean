/-
  The times `nfsls` keeps for a filehandle.

  A round makes one request for every filehandle; `listings` are those of one filehandle in a run,
  each with its outcome and its time, and `rounds_listed` is the rule for invariants of its
  statistics.  These are updated after every listing, whether it has entries or not, and
  the number of successful ones is the divisor of the running mean: by `lsTimes_iff` the times are
  right after each round iff the failed listings are `Harmless`.
-/
import NFStash.LsPolling
import NFStash.LsSuccess
import NFStash.ParseFh
import NFStash.Times

namespace NFStash

open CLib Loops Running

/-! ## The listings of a filehandle -/

/-- A listing that returned: whether it has entries, and the microseconds it took. -/
structure Listing where
  ok : Bool
  usec : ℕ
deriving DecidableEq

/-- The times of the successful ones. -/
def times (hs : List Listing) : List ℕ := (hs.filter (·.ok)).map (·.usec)

section
variable (cfg : LsConfig) (env : LsEnv) (pages depth : ℕ)

/-- The listing made for a request, if the procedure returns. -/
def LsRequest.listing (q : LsRequest) : Option Listing :=
  match q.result cfg env pages depth with
  | (.ok (entries, _), trace) => some ⟨!entries.isEmpty, env.usec trace.length⟩
  | (.error _, _) => none

/-- The request for filehandle `j` of target `i` in the round that starts in `s`. -/
def LsState.request (s : LsState) (i j : ℕ) : Option LsRequest :=
  (steps (lsTarget cfg env pages depth) 0 s.targets s.toLsRun)[i]?.bind fun (_, target, run) =>
    (targetRequests cfg env pages depth target run)[j]?

/-- The listings of filehandle `j` of target `i` in a run of `n` rounds from `s`. -/
def listings (n : ℕ) (s : LsState) (i j : ℕ) : List Listing :=
  (roundStates (lsRound cfg env pages depth) n 0 s).filterMap fun s =>
    (s.request cfg env pages depth i j).bind (·.listing cfg env pages depth)

/-- What a listing does to the statistics of its filehandle. -/
def Stats.list (l : Listing) (s : Stats) : Except Fault Stats :=
  lsStore cfg ((s.count l.ok).time l.usec) l.usec

end

section
variable {cfg : LsConfig} {env : LsEnv} {host : CString} {pages depth n i j : ℕ}
  {nested : NfsFhList → List LsEvent → LsResult} {fh fh' : NfsFhList} {s s' : LsState}

/-- The procedures leave the statistics as they are. -/
def KeepsStats (proc : NfsFhList → List LsEvent → LsResult) : Prop :=
  ∀ fh tr es fh', (proc fh tr).1 = .ok (es, fh') → fh'.toStats = fh.toStats

theorem getattrBody_keepsStats (hn : KeepsStats nested) :
    KeepsStats (getattrBody cfg env host nested) := by
  intro fh tr es fh' h
  obtain ⟨tr', -, hret⟩ := getattrBody_returns_ok h
  cases hret with
  | noReply => rfl
  | dir _ _ _ hq => exact hn _ _ _ _ (congrArg Prod.fst hq)
  | object => rfl
  | refused => rfl

theorem LoopReturns.keepsStats (hn : KeepsStats nested) {args : Readdirplus3args}
    {entries es : List Entrypluslink3} {tr tr' : List LsEvent}
    (h : LoopReturns cfg env host nested fh args entries tr es fh' tr') : fh'.toStats = fh.toStats := by
  induction h with
  | noReply => rfl
  | last => rfl
  | next _ _ _ ih => exact ih
  | notdir _ _ hq => exact hn fh _ _ _ (congrArg Prod.fst hq)
  | refused => rfl

theorem call_keepsStats (proc : LsProc) : KeepsStats (proc.call cfg env host pages depth) := by
  suffices h : KeepsStats (doGetattr cfg env host pages depth) ∧
      KeepsStats (doReaddirplus cfg env host pages depth) by
    cases proc with
    | getattr => exact h.1
    | readdirplus => exact h.2
  induction depth with
  | zero =>
    constructor
    · intro fh tr es fh' h
      simp [doGetattr] at h
    · intro fh tr es fh' h
      simp [doReaddirplus] at h
  | succ depth ih =>
    constructor
    · exact getattrBody_keepsStats ih.2
    · intro fh tr es fh' h
      obtain ⟨tr', -, hret⟩ := readdirplusLoop_returns_ok h
      exact hret.keepsStats ih.1

/-- **One request** updates the statistics of its filehandle, whatever its outcome. -/
theorem lsFilehandle_listing {q : LsRequest} {st' : Target × LsRun}
    (h : lsFilehandle cfg env pages depth q.index q.fh (q.target, q.run) = .ok (fh', st')) :
    ∃ l, q.listing cfg env pages depth = some l ∧ q.fh.toStats.list cfg l = .ok fh'.toStats := by
  obtain ⟨es, fh'', tr, stats, hcall, hstats, rfl, -⟩ := lsFilehandle_ok h
  have hkeeps := call_keepsStats _ _ _ _ _ (congrArg Prod.fst hcall)
  refine ⟨⟨!es.isEmpty, env.usec tr.length⟩, ?_, ?_⟩
  · simp only [LsRequest.listing, LsRequest.result, hcall]
  · rw [hkeeps] at hstats
    exact hstats

theorem lsRound_request (h : lsRound cfg env pages depth n s = .ok s') (hfh : s.fhAt i j = some fh) :
    ∃ q fh' st', s.request cfg env pages depth i j = some q ∧ q.fh = fh ∧ s'.fhAt i j = some fh' ∧
      lsFilehandle cfg env pages depth q.index q.fh (q.target, q.run) = .ok (fh', st') := by
  obtain ⟨targets, run, more, hw, -, rfl⟩ := lsRound_ok h
  obtain ⟨t, ht, hfh⟩ := Option.bind_eq_some_iff.1 hfh
  obtain ⟨t', run₀, run', ht', hstep, hst⟩ := walk_step hw ht
  obtain ⟨run₁, fhs, target, hconn, hwalk, rfl⟩ := lsTarget_ok hst
  obtain ⟨fh', st, st', hfh', hstep', hlist⟩ := walk_step hwalk hfh
  refine ⟨⟨0 + j, fh, st.1, st.2⟩, fh', st', ?_, rfl, Option.bind_eq_some_iff.2 ⟨_, ht', hfh'⟩, hlist⟩
  simp [LsState.request, hstep, targetRequests, hconn, hstep']

/-- **One round** updates the statistics of every filehandle. -/
theorem lsRound_listing (h : lsRound cfg env pages depth n s = .ok s') (hfh : s.fhAt i j = some fh) :
    ∃ l fh', (s.request cfg env pages depth i j).bind (·.listing cfg env pages depth) = some l ∧
      s'.fhAt i j = some fh' ∧ fh.toStats.list cfg l = .ok fh'.toStats := by
  obtain ⟨q, fh', st', hq, rfl, hfh', hlist⟩ := lsRound_request h hfh
  obtain ⟨l, hl, hstats⟩ := lsFilehandle_listing hlist
  exact ⟨l, fh', by rw [hq]; exact hl, hfh', hstats⟩

theorem listings_zero : listings cfg env pages depth 0 s i j = [] := rfl

/-- The listing of the next round. -/
theorem listings_succ {s₀ : LsState} {l : Listing}
    (h : rounds (lsRound cfg env pages depth) n 0 s₀ = .ok s)
    (hl : (s.request cfg env pages depth i j).bind (·.listing cfg env pages depth) = some l) :
    listings cfg env pages depth (n + 1) s₀ i j = listings cfg env pages depth n s₀ i j ++ [l] := by
  simp only [listings, roundStates_succ h, List.filterMap_append, List.filterMap_cons, hl,
    List.filterMap_nil]

/-- **Invariants of the statistics** of a filehandle, which look back at its listings. -/
theorem rounds_listed {P : List Listing → Stats → Prop} {s₀ : LsState}
    (hstep : ∀ hs l st st', P hs st → st.list cfg l = .ok st' → P (hs ++ [l]) st')
    (hfh : s₀.fhAt i j = some fh) (h₀ : P [] fh.toStats)
    (h : rounds (lsRound cfg env pages depth) n 0 s₀ = .ok s) :
    ∃ fh', s.fhAt i j = some fh' ∧ P (listings cfg env pages depth n s₀ i j) fh'.toStats := by
  induction n generalizing s with
  | zero =>
    obtain rfl : s₀ = s := by simpa [rounds] using h
    exact ⟨fh, hfh, h₀⟩
  | succ n ih =>
    obtain ⟨t, ht, hround⟩ := rounds_last.1 h
    obtain ⟨fh₁, hfh₁, hP⟩ := ih ht
    obtain ⟨l, fh', hl, hfh', hstats⟩ := lsRound_listing hround hfh₁
    rw [listings_succ ht hl]
    exact ⟨fh', hfh', hstep _ l _ _ hP hstats⟩

/-- A filehandle has been there from the start. -/
theorem lsRound_fhAt_before (h : lsRound cfg env pages depth n s = .ok s')
    (hfh : s'.fhAt i j = some fh') : ∃ fh, s.fhAt i j = some fh := by
  obtain ⟨targets, run, more, hw, -, rfl⟩ := lsRound_ok h
  obtain ⟨t', ht', hfh'⟩ := Option.bind_eq_some_iff.1 hfh
  obtain ⟨t, run₀, run₁, ht, hstep⟩ := walk_get_before hw ht'
  obtain ⟨run₂, fhs, target, -, hw', rfl⟩ := lsTarget_ok hstep
  obtain ⟨fh, st, st', hfh, -⟩ := walk_get_before hw' hfh'
  exact ⟨fh, Option.bind_eq_some_iff.2 ⟨t, ht, hfh⟩⟩

theorem rounds_fhAt_before {s₀ : LsState} (h : rounds (lsRound cfg env pages depth) n 0 s₀ = .ok s)
    (hfh : s.fhAt i j = some fh) : ∃ fh₀, s₀.fhAt i j = some fh₀ := by
  induction n generalizing s fh with
  | zero =>
    obtain rfl : s₀ = s := by simpa [rounds] using h
    exact ⟨fh, hfh⟩
  | succ n ih =>
    obtain ⟨t, ht, hround⟩ := rounds_last.1 h
    obtain ⟨fh₁, hfh₁⟩ := lsRound_fhAt_before hround hfh
    exact ih ht hfh₁

/-- There is one in every round. -/
theorem listings_length {s₀ : LsState} (hfh : s₀.fhAt i j = some fh)
    (h : rounds (lsRound cfg env pages depth) n 0 s₀ = .ok s) :
    (listings cfg env pages depth n s₀ i j).length = n := by
  induction n generalizing s with
  | zero => rfl
  | succ n ih =>
    obtain ⟨t, ht, hround⟩ := rounds_last.1 h
    obtain ⟨fh₁, hfh₁, -⟩ :=
      rounds_listed (P := fun _ _ => True) (fun _ _ _ _ _ _ => trivial) hfh trivial ht
    obtain ⟨l, -, hl, -⟩ := lsRound_listing hround hfh₁
    rw [listings_succ ht hl, List.length_append, ih ht, List.length_singleton]

end

/-! ## The filehandles of the input -/

/-- No filehandle has been listed. -/
def Unlisted (count : ℕ) (ts : List Target) : Prop :=
  ∀ t ∈ ts, ∀ fh ∈ t.filehandles, fh.toStats = (nfsFhListNew count).toStats

section
variable {lookup : CString → String → Option CString} {junk : ℕ → UInt8} {port : UInt16} {count : ℕ}
  {ts head : List Target} {input : CString} {inputs : List CString}

theorem parseFields_unlisted {current : Target} {fh : NfsFhList}
    (h : fh ∈ (parseFields lookup junk input count current).2.filehandles) :
    fh ∈ current.filehandles ∨ fh.toStats = (nfsFhListNew count).toStats := by
  unfold parseFields at h
  cases hhost : lookup input "host" with
  | none =>
    simp only [hhost] at h
    exact .inl h
  | some host =>
    cases hpath : lookup input "path" with
    | none =>
      simp only [hhost, hpath] at h
      exact .inl h
    | some path =>
      simp only [hhost, hpath] at h
      cases hf : lookup input "filehandle" with
      | none =>
        simp only [hf] at h
        exact (List.mem_append.1 h).imp id fun h => by rw [List.mem_singleton.1 h]
      | some tmp =>
        simp only [hf] at h
        split_ifs at h
        · exact (List.mem_append.1 h).imp id fun h => by rw [List.mem_singleton.1 h]
        · exact (List.mem_append.1 h).imp id fun h => by rw [List.mem_singleton.1 h]

theorem parseFh_unlisted {r : Except ParseFhError ℕ} (hh : Unlisted count head)
    (h : parseFh lookup junk head input port count = .ok (r, ts)) : Unlisted count ts := by
  by_cases hn : NoAddress lookup input
  · obtain ⟨e, he⟩ := parseFh_noAddress lookup junk port count head hn
    obtain ⟨-, rfl⟩ := Prod.mk.inj (Except.ok.inj (he.symm.trans h))
    exact hh
  obtain ⟨addr, i, ts', t, hf, ht, hr⟩ := parseFh_cases lookup junk port count hn h
  have hts' : Unlisted count ts' := by
    rcases findOrMakeTarget_ok port count hf with ⟨rfl, -⟩ | ⟨rfl, rfl⟩
    · exact hh
    · intro t ht
      rcases List.mem_append.1 ht with ht | ht
      · exact hh t ht
      · obtain rfl := List.mem_singleton.1 ht
        simp [newTarget, initTarget]
  -- a rejected line frees the target, with the filehandles it has
  have hset : ∃ t', ts = ts'.set i t' ∧
      t'.filehandles = (parseFields lookup junk input count t).2.filehandles := by
    rcases hr with ⟨-, -, rfl⟩ | ⟨-, t', -, -, rfl, rfl⟩
    · exact ⟨_, rfl, rfl⟩
    · exact ⟨_, rfl, rfl⟩
  obtain ⟨t', rfl, ht'⟩ := hset
  intro u hu
  rcases List.mem_or_eq_of_mem_set hu with hu | rfl
  · exact hts' u hu
  · intro fh hfh
    rw [ht'] at hfh
    exact (parseFields_unlisted hfh).elim (hts' t (List.mem_of_getElem? ht) fh) id

theorem parseLines_unlisted (hh : Unlisted count head)
    (h : parseLines lookup junk port count head inputs = .ok ts) : Unlisted count ts := by
  induction inputs generalizing head with
  | nil =>
    obtain rfl := Except.ok.inj h
    exact hh
  | cons input inputs ih =>
    obtain ⟨r, ts', hp, hr⟩ := (parseLines_cons lookup junk port count).1 h
    exact ih (parseFh_unlisted hh hp) hr

theorem dummyTargets_unlisted : Unlisted count dummyTargets := by
  intro t ht
  obtain rfl := List.mem_singleton.1 ht
  simp

/-- The filehandles of the input, at the start of the first round. -/
theorem parseLines_fhAt {i j : ℕ} {fh : NfsFhList}
    (h : parseLines lookup junk port count dummyTargets inputs = .ok ts)
    (hfh : LsState.fhAt { targets := ts.tail } i j = some fh) :
    fh.toStats = (nfsFhListNew count).toStats := by
  obtain ⟨t, ht, hfh⟩ := Option.bind_eq_some_iff.1 hfh
  exact parseLines_unlisted dummyTargets_unlisted h t
    (List.mem_of_mem_tail (List.mem_of_getElem? ht)) fh (List.mem_of_getElem? hfh)

end

/-! ## The times after each round -/

/-- What the last of these listings is meant to do to the times that are kept. -/
structure TimesRight (hs : List Listing) (s s' : Stats) : Prop where
  /-- the divisor of the running mean, which is also its weight plus one -/
  divisor : s'.received ≠ 0
  kept : times hs ≠ [] → KeepsTimes (times hs) s'
  failed : ∀ l ∈ hs.getLast?, l.ok = false → s'.min = s.min ∧ s'.max = s.max ∧ s'.avg = s.avg

/-- The last of these listings, which come after `hs`, does no harm: if it fails, it takes as long as the
    successful ones before it on average. -/
def HarmlessStep (hs : List Listing) (l : Listing) : Prop :=
  if l.ok then (times hs).length + 1 < 2 ^ 64
  else times hs ≠ [] ∧ (l.usec : ℚ) = mean ((times hs).map fun t : ℕ => (t : ℚ))

/-- No listing does harm. -/
def Harmless (hs : List Listing) : Prop := (times hs).length < 2 ^ 64 ∧
  ∀ k l, hs[k]? = some l → l.ok = false → times (hs.take k) ≠ [] ∧
    (l.usec : ℚ) = mean ((times (hs.take k)).map fun t : ℕ => (t : ℚ))

/-- The statistics after these listings, none of which has done harm. -/
structure LsTimed (hs : List Listing) (s : Stats) : Prop where
  received : s.received = (times hs).length
  bound : (times hs).length < 2 ^ 64
  folded : Folded 64 (times hs) s
  le : ∀ t ∈ times hs, t ≤ ULONG_MAX

section
variable {cfg : LsConfig} {hs : List Listing} {l : Listing} {s s' : Stats}

theorem times_ok (h : l.ok = true) : times (hs ++ [l]) = times hs ++ [l.usec] := by
  simp [times, h]

theorem times_failed (h : l.ok = false) : times (hs ++ [l]) = times hs := by
  simp [times, h]

theorem list_ok (h : s.list cfg l = .ok s') : ∃ results,
    s' = { (s.count l.ok).time l.usec with results } ∧ results.length = s.results.length :=
  lsStore_ok h

theorem lsTimed_nil {count : ℕ} : LsTimed [] (nfsFhListNew count).toStats :=
  ⟨rfl, by decide, folded_nil rfl rfl rfl, by simp [times]⟩

theorem LsTimed.keeps (h : LsTimed hs s) (hne : times hs ≠ []) : KeepsTimes (times hs) s :=
  (h.folded.keeps_iff hne h.le).2 h.bound

/-- A successful listing adds its time. -/
theorem LsTimed.succeeds (h : LsTimed hs s) (hl : l.ok = true) (husec : l.usec ≤ ULONG_MAX)
    (hlist : s.list cfg l = .ok s') :
    s'.received = wrap64 ((times hs).length + 1) ∧ Folded 64 (times (hs ++ [l])) s' ∧
      ∀ t ∈ times (hs ++ [l]), t ≤ ULONG_MAX := by
  obtain ⟨results, rfl, -⟩ := list_ok hlist
  rw [times_ok hl]
  refine ⟨?_, h.folded.time l.usec rfl rfl ?_, ?_⟩
  · simp only [Stats.time, Stats.count, hl, if_true, h.received]
  · simp only [Stats.time, Stats.count, hl, if_true, h.received, Nat.mod_eq_of_lt h.bound]
    rfl
  · intro t ht
    rcases List.mem_append.1 ht with ht | ht
    · exact h.le t ht
    · rwa [List.mem_singleton.1 ht]

/-- A failed listing leaves the times as they are iff its time is their mean. -/
theorem LsTimed.fails (h : LsTimed hs s) (hl : l.ok = false) (hlist : s.list cfg l = .ok s') :
    s'.received = (times hs).length ∧
      ((times hs ≠ [] ∧ s'.min = s.min ∧ s'.max = s.max ∧ s'.avg = s.avg) ↔ HarmlessStep hs l) := by
  obtain ⟨results, rfl, -⟩ := list_ok hlist
  have hreceived : s.received = (times hs).length := h.received
  simp only [Stats.time, Stats.count, hl, HarmlessStep, Bool.false_eq_true, if_false, hreceived]
  refine ⟨trivial, and_congr_right fun hne => ?_⟩
  have hkeeps := h.keeps hne
  obtain ⟨n, hn⟩ : ∃ n, (times hs).length = n + 1 :=
    Nat.exists_eq_succ_of_ne_zero (List.length_pos_iff.2 hne).ne'
  have hpred : (n + 1 + 2 ^ 64 - 1) % 2 ^ 64 = n := by
    have hbound := h.bound
    omega
  have havg : runningAvg 64 s.avg (times hs).length l.usec = s.avg ↔
      (l.usec : ℚ) = mean ((times hs).map fun t : ℕ => (t : ℚ)) := by
    rw [hkeeps.avg, hn, runningAvg, if_neg (Nat.succ_ne_zero n), hpred, Option.map_some,
      Option.some_inj, Nat.cast_add, Nat.cast_one, mean_replace_iff]
  rw [havg]
  refine ⟨fun hright => hright.2.2, fun hmean => ⟨?_, ?_, hmean⟩⟩
  · have hle : (s.min : ℚ) ≤ l.usec := by
      rw [hmean]
      refine le_mean (by simpa using hne) ?_
      intro q hq
      obtain ⟨t, ht, rfl⟩ := List.mem_map.1 hq
      exact Nat.cast_le.2 (hkeeps.min.2 ht)
    exact if_neg (not_lt.2 (Nat.cast_le.1 hle))
  · have hle : (l.usec : ℚ) ≤ s.max := by
      rw [hmean]
      refine mean_le (by simpa using hne) ?_
      intro q hq
      obtain ⟨t, ht, rfl⟩ := List.mem_map.1 hq
      exact Nat.cast_le.2 (hkeeps.max.2 ht)
    exact if_neg (not_lt.2 (Nat.cast_le.1 hle))

/-- **One listing** is right iff it does no harm. -/
theorem LsTimed.right_iff (h : LsTimed hs s) (husec : l.usec ≤ ULONG_MAX)
    (hlist : s.list cfg l = .ok s') : TimesRight (hs ++ [l]) s s' ↔ HarmlessStep hs l := by
  have hbound := h.bound
  cases hl : l.ok with
  | true =>
    obtain ⟨hreceived, hfolded, hle⟩ := h.succeeds hl husec hlist
    have hne : times (hs ++ [l]) ≠ [] := by simp [times_ok hl]
    have hkeeps := hfolded.keeps_iff hne hle
    rw [times_ok hl, List.length_append, List.length_singleton, ← times_ok hl] at hkeeps
    rw [HarmlessStep, if_pos hl, ← hkeeps]
    constructor
    · intro hright
      exact hright.kept hne
    · intro hk
      have hlt := hkeeps.1 hk
      refine ⟨?_, fun _ => hk, ?_⟩
      · rw [hreceived, wrap64, Nat.mod_eq_of_lt hlt]
        exact Nat.succ_ne_zero _
      · intro l' hl' hfail
        obtain rfl : l = l' := by simpa using hl'
        rw [hl] at hfail
        cases hfail
  | false =>
    obtain ⟨hreceived, hfails⟩ := h.fails hl hlist
    rw [← hfails]
    constructor
    · intro hright
      refine ⟨?_, hright.failed l (by simp) hl⟩
      intro hnil
      exact hright.divisor (by rw [hreceived, hnil]; rfl)
    · rintro ⟨hne, hmin, hmax, havg⟩
      have hk := h.keeps hne
      refine ⟨?_, ?_, fun _ _ _ => ⟨hmin, hmax, havg⟩⟩
      · rw [hreceived]
        exact (List.length_pos_iff.2 hne).ne'
      · intro _
        rw [times_failed hl]
        exact ⟨by rw [hmin]; exact hk.min, by rw [hmax]; exact hk.max, by rw [havg]; exact hk.avg⟩

theorem LsTimed.step (h : LsTimed hs s) (husec : l.usec ≤ ULONG_MAX) (hlist : s.list cfg l = .ok s')
    (hharm : HarmlessStep hs l) : LsTimed (hs ++ [l]) s' := by
  cases hl : l.ok with
  | true =>
    obtain ⟨hreceived, hfolded, hle⟩ := h.succeeds hl husec hlist
    rw [HarmlessStep, if_pos hl] at hharm
    refine ⟨?_, ?_, hfolded, hle⟩
    · rw [hreceived, wrap64, Nat.mod_eq_of_lt hharm, times_ok hl]
      simp
    · rw [times_ok hl]
      simpa using hharm
  | false =>
    obtain ⟨hreceived, hfails⟩ := h.fails hl hlist
    obtain ⟨-, hmin, hmax, havg⟩ := hfails.2 hharm
    refine ⟨?_, ?_, ?_, ?_⟩
    · rw [hreceived, times_failed hl]
    · rw [times_failed hl]
      exact h.bound
    · rw [times_failed hl]
      exact ⟨hmin.trans h.folded.min, hmax.trans h.folded.max, havg.trans h.folded.avg⟩
    · rw [times_failed hl]
      exact h.le

theorem harmless_nil : Harmless [] := ⟨by decide, by simp⟩

/-- What holds of the members and their places. -/
theorem forall_concat_iff {Q : ℕ → Listing → Prop} : (∀ k l', (hs ++ [l])[k]? = some l' → Q k l') ↔
    (∀ k l', hs[k]? = some l' → Q k l') ∧ Q hs.length l := by
  constructor
  · intro h
    refine ⟨fun k l' hk => h k l' ?_, h hs.length l (by simp)⟩
    rw [List.getElem?_append_left (List.getElem?_eq_some_iff.1 hk).1, hk]
  · rintro ⟨h, hl⟩ k l' hk
    rcases lt_trichotomy k hs.length with hlt | rfl | hgt
    · rw [List.getElem?_append_left hlt] at hk
      exact h k l' hk
    · obtain rfl : l = l' := by simpa using hk
      exact hl
    · rw [List.getElem?_eq_none (by simp; omega)] at hk
      cases hk

theorem harmless_concat : Harmless (hs ++ [l]) ↔ Harmless hs ∧ HarmlessStep hs l := by
  have htake : ∀ k l', hs[k]? = some l' → (hs ++ [l]).take k = hs.take k := by
    intro k l' hk
    exact List.take_append_of_le_length (List.getElem?_eq_some_iff.1 hk).1.le
  have hall : (∀ k l', (hs ++ [l])[k]? = some l' → l'.ok = false → times ((hs ++ [l]).take k) ≠ [] ∧
        (l'.usec : ℚ) = mean ((times ((hs ++ [l]).take k)).map fun t : ℕ => (t : ℚ))) ↔
      (∀ k l', hs[k]? = some l' → l'.ok = false → times (hs.take k) ≠ [] ∧
        (l'.usec : ℚ) = mean ((times (hs.take k)).map fun t : ℕ => (t : ℚ))) ∧
      (l.ok = false → times hs ≠ [] ∧
        (l.usec : ℚ) = mean ((times hs).map fun t : ℕ => (t : ℚ))) := by
    rw [forall_concat_iff, List.take_left]
    refine and_congr_left fun _ => forall₃_congr fun k l' hk => ?_
    rw [htake k l' hk]
  rw [Harmless, hall, Harmless, HarmlessStep]
  cases hl : l.ok with
  | true =>
    rw [times_ok hl, List.length_append, List.length_singleton]
    simp only [if_true, reduceCtorEq, false_implies, and_true]
    constructor
    · rintro ⟨hlt, h⟩
      exact ⟨⟨by omega, h⟩, hlt⟩
    · rintro ⟨⟨-, h⟩, hlt⟩
      exact ⟨hlt, h⟩
  | false =>
    rw [times_failed hl]
    simp only [Bool.false_eq_true, if_false, true_implies]
    exact and_assoc.symm

end

section
variable {cfg : LsConfig} {env : LsEnv} {pages depth n i j : ℕ} {fh : NfsFhList} {s₀ s : LsState}

/-- The times of a filehandle are right after round `k`. -/
def RoundRight (cfg : LsConfig) (env : LsEnv) (pages depth : ℕ) (s₀ : LsState) (i j k : ℕ) : Prop :=
  ∀ s s' fh fh', rounds (lsRound cfg env pages depth) k 0 s₀ = .ok s →
    lsRound cfg env pages depth k s = .ok s' → s.fhAt i j = some fh → s'.fhAt i j = some fh' →
    TimesRight (listings cfg env pages depth (k + 1) s₀ i j) fh.toStats fh'.toStats

theorem listing_usec_le (husec : ∀ k, env.usec k ≤ ULONG_MAX) {q : LsRequest} {l : Listing}
    (h : q.listing cfg env pages depth = some l) : l.usec ≤ ULONG_MAX := by
  unfold LsRequest.listing at h
  split at h
  · obtain rfl := Option.some.inj h
    exact husec _
  · cases h

/-- **All rounds**: they are right iff no listing does harm, and then so are the statistics. -/
theorem rounds_right (husec : ∀ k, env.usec k ≤ ULONG_MAX) (hfh : s₀.fhAt i j = some fh)
    (h₀ : LsTimed [] fh.toStats) (h : rounds (lsRound cfg env pages depth) n 0 s₀ = .ok s) :
    ((∀ k < n, RoundRight cfg env pages depth s₀ i j k) ↔
        Harmless (listings cfg env pages depth n s₀ i j)) ∧
      ∃ fh', s.fhAt i j = some fh' ∧ (Harmless (listings cfg env pages depth n s₀ i j) →
        LsTimed (listings cfg env pages depth n s₀ i j) fh'.toStats) := by
  induction n generalizing s with
  | zero =>
    obtain rfl : s₀ = s := by simpa [rounds] using h
    exact ⟨by simp [listings_zero, harmless_nil], fh, hfh, fun _ => h₀⟩
  | succ n ih =>
    obtain ⟨t, ht, hround⟩ := rounds_last.1 h
    rw [Nat.zero_add] at hround
    obtain ⟨hiff, fh₁, hfh₁, htimed⟩ := ih ht
    obtain ⟨l, fh', hl, hfh', hlist⟩ := lsRound_listing hround hfh₁
    have husec : l.usec ≤ ULONG_MAX := by
      obtain ⟨q, -, hq⟩ := Option.bind_eq_some_iff.1 hl
      exact listing_usec_le husec hq
    have hlast : RoundRight cfg env pages depth s₀ i j n ↔
        TimesRight (listings cfg env pages depth (n + 1) s₀ i j) fh₁.toStats fh'.toStats := by
      constructor
      · intro hr
        exact hr t s fh₁ fh' ht hround hfh₁ hfh'
      · intro hr t' s' fh₂ fh₃ ht' hround' hfh₂ hfh₃
        obtain rfl := Except.ok.inj (ht.symm.trans ht')
        obtain rfl := Except.ok.inj (hround.symm.trans hround')
        obtain rfl := Option.some.inj (hfh₁.symm.trans hfh₂)
        obtain rfl := Option.some.inj (hfh'.symm.trans hfh₃)
        exact hr
    rw [listings_succ ht hl] at hlast ⊢
    rw [harmless_concat]
    refine ⟨?_, fh', hfh', ?_⟩
    · rw [Nat.forall_lt_succ_right, hiff, hlast]
      exact and_congr_right fun hh => (htimed hh).right_iff husec hlist
    · rintro ⟨hh, hstep⟩
      exact (htimed hh).step husec hlist hstep

end

/-- **When the times are right.**  After each of the rounds of a run, for any filehandle, the least,
    the greatest and the mean time of its successful listings are kept, without a zero divisor, and a
    failed listing changes none of them, iff no listing does harm. -/
theorem lsTimes_iff (cfg : LsConfig) (env : LsEnv) (pages depth : ℕ)
    (lookup : CString → String → Option CString) (junk : ℕ → UInt8) (inputs : List CString) (count n : ℕ)
    (ts : List Target) (s : LsState) (i j : ℕ) (fh : NfsFhList)
    (husec : ∀ k, env.usec k ≤ ULONG_MAX)
    (hparse : parseLines lookup junk cfg.port count dummyTargets inputs = .ok ts)
    (hfh : LsState.fhAt { targets := ts.tail } i j = some fh)
    (h : rounds (lsRound cfg env pages depth) n 0 { targets := ts.tail } = .ok s) :
    (∀ k < n, RoundRight cfg env pages depth { targets := ts.tail } i j k) ↔
      Harmless (listings cfg env pages depth n { targets := ts.tail } i j) := by
  refine (rounds_right husec hfh ?_ h).1
  rw [parseLines_fhAt hparse hfh]
  exact lsTimed_nil

/-- A server that answers no request, after 7 microseconds. -/
def silentServer : LsEnv where
  getattr _ _ := none
  readdirplus _ _ := none
  readlink _ _ := none
  usec _ := 7

/-- `-c 1`. -/
def lsPing : LsConfig where
  format := .ping
  count := 1

/-- The target of `fullLine`. -/
def fullTarget (count : ℕ) : Target where
  results := List.replicate count 0
  min := ULONG_MAX
  name := ['a']
  ndqf := .str [some 'a']
  ipAddress := "10.0.0.1".toList
  displayName := .name
  clientSock := some { sinAddr := ⟨10, 0, 0, 1⟩, sinPort := htons 2049 }
  filehandles := [
    { results := List.replicate count 0, min := ULONG_MAX, path := "/x".toList, nfsFh := ⟨[10]⟩ }]

theorem parse_fullLine (count : ℕ) : parseLines sampleLookup (fun _ => 0) 2049 count dummyTargets
    [fullLine] = .ok [{}, fullTarget count] := rfl

theorem lsTimes_iff_oneFile : ∃ ts fh s,
    parseLines sampleLookup (fun _ => 0) 2049 0 dummyTargets [fullLine] = .ok ts ∧
    LsState.fhAt { targets := ts.tail } 0 0 = some fh ∧
    rounds (lsRound lsPing oneFile 1 2) 1 0 { targets := ts.tail } = .ok s ∧
    ((∀ k < 1, RoundRight lsPing oneFile 1 2 { targets := ts.tail } 0 0 k) ↔
      Harmless (listings lsPing oneFile 1 2 1 { targets := ts.tail } 0 0)) :=
  ⟨_, _, _, parse_fullLine 0, rfl, rfl, lsTimes_iff lsPing oneFile 1 2 sampleLookup (fun _ => 0)
    [fullLine] 0 1 _ _ 0 0 _ (fun _ => Nat.zero_le _) (parse_fullLine 0) rfl rfl⟩

/-- The first listing fails: its time is kept, and the mean has been divided by zero. -/
theorem lsTimes_silent : ∃ ts s fh,
    parseLines sampleLookup (fun _ => 0) 2049 0 dummyTargets [fullLine] = .ok ts ∧
    rounds (lsRound lsPing silentServer 1 2) 1 0 { targets := ts.tail } = .ok s ∧
    s.fhAt 0 0 = some fh ∧ fh.received = 0 ∧ fh.min = 7 ∧ fh.max = 7 ∧ fh.avg = none ∧
    listings lsPing silentServer 1 2 1 { targets := ts.tail } 0 0 = [⟨false, 7⟩] ∧
    ¬ RoundRight lsPing silentServer 1 2 { targets := ts.tail } 0 0 0 := by
  refine ⟨_, _, _, parse_fullLine 0, rfl, rfl, rfl, rfl, rfl, rfl, by decide, ?_⟩
  intro hright
  exact (hright _ _ _ _ rfl rfl rfl rfl).divisor rfl

end NFStash
