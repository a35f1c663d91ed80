/-
  The summary of `nfsls`.

  Under `-C` the summary has a column for every listing of a filehandle, which is read from its
  results; a result of 0 is printed as `-`.  `Recorded` says what the results are after these
  listings: every one of them has left its time, and `lsColumns_iff` that the columns are
  right iff no failed listing took any time.
-/
import NFStash.LsOptions

namespace NFStash

open CLib Loops

/-! ## Model -/

/-- A line of the summary, with the width it is padded to: the counters, and the times if there are
    any, or the columns of format `fping`. -/
inductive LsSummary where
  | counters (host : CString) (width : ℕ) (path : CString) (sent received : ℕ) (loss : Option ℚ)
      (times : Option (ℕ × Option ℚ × ℕ))
  | columns (host : CString) (width : ℕ) (path : CString) (columns : List (Option ℕ))
deriving DecidableEq

/-- The longest host and path. -/
def summaryWidth (targets : List Target) : ℕ :=
  (targets.flatMap fun t => t.filehandles.map fun fh => t.name.length + fh.path.length).foldl max 0

/-- The line for a filehandle in format `ping`. -/
def countersLine (width : ℕ) (target : Target) (fh : NfsFhList) : LsSummary :=
  let least := if fh.min = ULONG_MAX then 0 else fh.min
  .counters target.name width fh.path fh.sent fh.received (lossPercent 64 fh.sent fh.received)
    (if fh.received = 0 then none else some (least, fh.avg, fh.max))

/-- The columns of a filehandle: a result of 0 is printed as `-`. -/
def NfsFhList.columns (fh : NfsFhList) : List (Option ℕ) := (fh.results.take fh.sent).map column

/-- The line for a filehandle in format `fping`: as many results are read as listings were sent. -/
def columnsLine (width : ℕ) (target : Target) (fh : NfsFhList) : Except Fault LsSummary :=
  if fh.sent ≤ fh.results.length then
    .ok (.columns target.name width fh.path fh.columns)
  else .error .outOfBounds

/-- `print_summary`, after its blank line. -/
def printLsSummary (format : LsFormat) (targets : List Target) : Except Fault (List LsSummary) :=
  let lines := targets.flatMap fun t => t.filehandles.map fun fh => (t, fh)
  match format with
  | .ping => .ok (lines.map fun (t, fh) => countersLine (summaryWidth targets) t fh)
  | .fping => lines.mapM fun (t, fh) => columnsLine (summaryWidth targets) t fh
  | _ => .ok []

/-! ## The results -/

/-- The results after these listings. -/
structure Recorded (count : ℕ) (hs : List Listing) (s : Stats) : Prop where
  sent : s.sent = hs.length
  length : s.results.length = count
  room : hs.length ≤ count
  results : s.results.take hs.length = hs.map (·.usec)

/-- There is a column for each listing: a `-` if it failed, else its time (except that a time of 0 is
    not seen). -/
structure LsColumnsRight (hs : List Listing) (columns : List (Option ℕ)) : Prop where
  length : columns.length = hs.length
  failed : ∀ (k : ℕ) l c, hs[k]? = some l → columns[k]? = some c → l.ok = false → c = none
  listed : ∀ (k : ℕ) l c, hs[k]? = some l → columns[k]? = some c → l.ok = true → l.usec ≠ 0 →
    c = some l.usec

section
variable {cfg : LsConfig} {count : ℕ} {hs : List Listing} {l : Listing} {s s' : Stats}

/-- **One listing** leaves its time, whatever its outcome. -/
theorem Recorded.list (hf : cfg.format = .fping) (hlt : count < ULONG_MAX) (h : Recorded count hs s)
    (hl : s.list cfg l = .ok s') : Recorded count (hs ++ [l]) s' := by
  have hroom := h.room
  have hsent : wrap64 (s.sent + 1) = hs.length + 1 := by
    rw [h.sent]
    exact wrap64_succ (by omega)
  have hindex : wrap64 (hs.length + 1 + ULONG_MAX) = hs.length := wrap64_pred (by omega)
  unfold Stats.list lsStore at hl
  rw [if_pos (.inl hf)] at hl
  obtain ⟨hlen, rfl⟩ := Stats.store_ok hl
  simp only [Stats.time, Stats.count, hsent, hindex, h.length] at hlen ⊢
  refine ⟨by simp, by simpa using h.length, ?_, ?_⟩
  · rw [List.length_append, List.length_singleton]
    exact hlen
  · rw [List.length_append, List.length_singleton, List.map_append, ← h.results, List.map_singleton]
    rw [List.take_add_one, List.take_set_of_le (le_refl _),
      List.getElem?_set_self (by rw [h.length]; exact hlen)]
    rfl

theorem column_eq_none {us : ℕ} : column us = none ↔ us = 0 := by simp [column]

/-- The columns of these results. -/
theorem Recorded.columns_iff (h : Recorded count hs s) :
    LsColumnsRight hs ((s.results.take s.sent).map column) ↔ ∀ l ∈ hs, l.ok = false → l.usec = 0 := by
  rw [h.sent, h.results]
  have hget : ∀ (k : ℕ) l c, hs[k]? = some l → ((hs.map (·.usec)).map column)[k]? = some c →
      c = column l.usec := by
    intro k l c hk hc
    rw [List.getElem?_map, List.getElem?_map, hk] at hc
    exact (Option.some.inj hc).symm
  constructor
  · intro hright l hl hfail
    obtain ⟨k, hk⟩ := List.mem_iff_getElem?.1 hl
    refine column_eq_none.1 (hright.failed k l _ hk ?_ hfail)
    rw [List.getElem?_map, List.getElem?_map, hk]
    rfl
  · intro hzero
    refine ⟨by simp, ?_, ?_⟩
    · intro k l c hk hc hfail
      rw [hget k l c hk hc, hzero l (List.mem_of_getElem? hk) hfail]
      rfl
    · intro k l c hk hc _ hne
      rw [hget k l c hk hc]
      exact if_neg hne

end

section
variable {cfg : LsConfig} {env : LsEnv} {pages depth n i j : ℕ} {s : LsState} {fh : NfsFhList}

/-- **After any number of rounds** the listings of a filehandle are recorded. -/
theorem rounds_recorded {lookup : CString → String → Option CString} {junk : ℕ → UInt8}
    {inputs : List CString} {ts : List Target} (hf : cfg.format = .fping) (hlt : cfg.count < ULONG_MAX)
    (hparse : parseLines lookup junk cfg.port (lsCount cfg) dummyTargets inputs = .ok ts)
    (h : rounds (lsRound cfg env pages depth) n 0 { targets := ts.tail } = .ok s)
    (hfh : s.fhAt i j = some fh) :
    Recorded cfg.count (listings cfg env pages depth n { targets := ts.tail } i j) fh.toStats := by
  have hcount : lsCount cfg = cfg.count := if_pos (.inl hf)
  rw [hcount] at hparse
  obtain ⟨fh₀, hfh₀⟩ := rounds_fhAt_before h hfh
  have hstart : Recorded cfg.count [] fh₀.toStats := by
    rw [parseLines_fhAt hparse hfh₀]
    exact ⟨rfl, by simp [nfsFhListNew], by simp, rfl⟩
  obtain ⟨fh', hfh', hrec⟩ := rounds_listed (fun hs l st st' hst hl => hst.list hf hlt hl) hfh₀ hstart h
  obtain rfl := Option.some.inj (hfh'.symm.trans hfh)
  exact hrec

end

/-- **When the columns are right.**  After any number of rounds of `nfsls -C` over any filehandles, the
    summary has a line for each of them, with a column for every listing; the columns are a `-` for
    each failed listing and the time of each other one, iff no failed listing took any time. -/
theorem lsColumns_iff (opts : List LsOption) (cfg : LsConfig) (hopts : lsOptions opts = .ok cfg)
    (hf : cfg.format = .fping) (env : LsEnv) (pages depth : ℕ)
    (lookup : CString → String → Option CString) (junk : ℕ → UInt8) (inputs : List CString)
    (ts : List Target)
    (hparse : parseLines lookup junk cfg.port (lsCount cfg) dummyTargets inputs = .ok ts) (n : ℕ)
    (s : LsState) (h : rounds (lsRound cfg env pages depth) n 0 { targets := ts.tail } = .ok s) :
    printLsSummary cfg.format s.targets = .ok (s.targets.flatMap fun t => t.filehandles.map fun fh =>
        .columns t.name (summaryWidth s.targets) fh.path fh.columns) ∧
      ∀ i j fh, s.fhAt i j = some fh →
        (LsColumnsRight (listings cfg env pages depth n { targets := ts.tail } i j) fh.columns ↔
          ∀ l ∈ listings cfg env pages depth n { targets := ts.tail } i j,
            l.ok = false → l.usec = 0) := by
  have hrec : ∀ i j fh, s.fhAt i j = some fh → Recorded cfg.count
      (listings cfg env pages depth n { targets := ts.tail } i j) fh.toStats := fun i j fh hfh =>
    rounds_recorded hf (lsOptions_count hopts).2.1 hparse h hfh
  refine ⟨?_, fun i j fh hfh => (hrec i j fh hfh).columns_iff⟩
  rw [hf]
  simp only [printLsSummary]
  rw [mapM_eq_ok (g := fun p : Target × NfsFhList =>
    .columns p.1.name (summaryWidth s.targets) p.2.path p.2.columns), List.map_flatMap]
  · simp only [List.map_map]
    rfl
  · rintro ⟨t, fh⟩ hmem
    obtain ⟨t', ht', hfh⟩ := List.mem_flatMap.1 hmem
    obtain ⟨fh', hfh', heq⟩ := List.mem_map.1 hfh
    obtain ⟨rfl, rfl⟩ := Prod.mk.inj heq
    obtain ⟨i, hi⟩ := List.mem_iff_getElem?.1 ht'
    obtain ⟨j, hj⟩ := List.mem_iff_getElem?.1 hfh'
    have hr := hrec i j fh' (Option.bind_eq_some_iff.2 ⟨t', hi, hj⟩)
    refine if_pos ?_
    rw [hr.sent, hr.length]
    exact hr.room

/-- `-C 1`. -/
def lsFping : LsConfig where
  format := .fping
  count := 1

theorem lsColumns_iff_oneFile : ∃ ts s, lsOptions [.C ['1']] = .ok lsFping ∧
    parseLines sampleLookup (fun _ => 0) 2049 (lsCount lsFping) dummyTargets [fullLine] = .ok ts ∧
    rounds (lsRound lsFping oneFile 1 2) 1 0 { targets := ts.tail } = .ok s ∧
    printLsSummary lsFping.format s.targets = .ok (s.targets.flatMap fun t => t.filehandles.map fun fh =>
        .columns t.name (summaryWidth s.targets) fh.path fh.columns) ∧
      ∀ i j fh, s.fhAt i j = some fh →
        (LsColumnsRight (listings lsFping oneFile 1 2 1 { targets := ts.tail } i j) fh.columns ↔
          ∀ l ∈ listings lsFping oneFile 1 2 1 { targets := ts.tail } i j, l.ok = false → l.usec = 0) :=
  ⟨_, _, rfl, parse_fullLine 1, rfl, lsColumns_iff [.C ['1']] lsFping rfl rfl oneFile 1 2 sampleLookup
    (fun _ => 0) [fullLine] _ (parse_fullLine 1) 1 _ rfl⟩

/-- The column of a listing that failed after 7 microseconds is its time. -/
theorem lsColumns_silent : ∃ ts s fh, lsOptions [.C ['1']] = .ok lsFping ∧
    parseLines sampleLookup (fun _ => 0) 2049 (lsCount lsFping) dummyTargets [fullLine] = .ok ts ∧
    rounds (lsRound lsFping silentServer 1 2) 1 0 { targets := ts.tail } = .ok s ∧
    s.fhAt 0 0 = some fh ∧ fh.columns = [some 7] ∧
    listings lsFping silentServer 1 2 1 { targets := ts.tail } 0 0 = [⟨false, 7⟩] ∧
    ¬ LsColumnsRight (listings lsFping silentServer 1 2 1 { targets := ts.tail } 0 0) fh.columns := by
  refine ⟨_, _, _, rfl, parse_fullLine 1, rfl, rfl, rfl, rfl, ?_⟩
  intro hright
  have hnone : some 7 = none := hright.failed 0 ⟨false, 7⟩ (some 7) rfl rfl rfl
  cases hnone

end NFStash
