/-
  What `nfsls` counts as received.

  `main` takes a listing for received iff it has an entry.  A request is `answered` if every RPC
  made for it was answered with `NFS3_OK` (a READDIRPLUS that finds a file is followed
  by a GETATTR); `LsRequest.clear_iff`: the two agree iff the replies are
  `Clear`.  `lsRequests` are the requests of a run, with what happens in each of them, and
  `lsMain_status` says what they make of the exit status.
-/
import NFStash.Lib.Counters
import NFStash.Readdirplus

namespace NFStash

open CLib Counters Loops Paging

/-! ## Model -/

/-- The exit status of `main`, after the last round. -/
def lsStatus (s : LsRun) : ℕ := if s.lsSent ≠ 0 ∧ s.lsSent = s.lsOk then 0 else 1

/-! ## Requests -/

/-- A request of a run: the target and the filehandle as they are when it starts, and the run so
    far. -/
structure LsRequest where
  index : ℕ
  fh : NfsFhList
  target : Target
  run : LsRun

section
variable (cfg : LsConfig) (env : LsEnv) (pages depth : ℕ)

/-- What the procedure called for a request does. -/
def LsRequest.result (q : LsRequest) : LsResult :=
  (chooseProc cfg q.fh.path).call cfg env q.target.name pages depth q.fh q.run.trace

/-- The RPCs made for a request, with the messages about them. -/
def LsRequest.events (q : LsRequest) : List LsEvent :=
  (q.result cfg env pages depth).2.drop q.run.trace.length

/-- The filehandle after a request has one more received. -/
def LsRequest.counted (q : LsRequest) : Bool :=
  match lsFilehandle cfg env pages depth q.index q.fh (q.target, q.run) with
  | .ok (fh, _) => fh.received = wrap64 (q.fh.received + 1)
  | .error _ => false

/-- The requests to a target. -/
def targetRequests (target : Target) (run : LsRun) : List LsRequest :=
  match lsConnect env target run with
  | .ok run => (steps (lsFilehandle cfg env pages depth) 0 target.filehandles
      ({ target with client := true }, run)).map fun (i, fh, target, run) => ⟨i, fh, target, run⟩
  | .error _ => []

/-- The requests of a round. -/
def roundRequests (s : LsState) : List LsRequest :=
  (steps (lsTarget cfg env pages depth) 0 s.targets s.toLsRun).flatMap fun (_, target, run) =>
    targetRequests cfg env pages depth target run

/-- The requests of a run of `n` rounds. -/
def lsRequests (n : ℕ) (s : LsState) : List LsRequest :=
  (roundStates (lsRound cfg env pages depth) n 0 s).flatMap (roundRequests cfg env pages depth)

end

/-! ## Replies -/

/-- The RPC was answered with `NFS3_OK`, or with what leads to a GETATTR. -/
def LsEvent.answered : LsEvent → Bool
  | .getattr _ res => res.any (·.status = NFS3_OK)
  | .readdirplus _ res => res.any fun res => res.status = NFS3_OK || res.status = NFS3ERR_NOTDIR
  | .readlink _ res => res.any (·.status = NFS3_OK)
  | _ => true

/-- The reply puts an entry into the listing. -/
def LsEvent.shows (cfg : LsConfig) : LsEvent → Bool
  | .getattr _ (some res) =>
    res.status = NFS3_OK && (res.objAttributes.type ≠ NF3DIR || cfg.listdir)
  | .readdirplus _ (some res) => res.status = NFS3_OK && res.entries.any (shown cfg)
  | _ => false

/-- Every RPC of a request was answered. -/
def AllAnswered (evs : List LsEvent) : Prop := ∀ ev ∈ evs, ev.answered = true

instance (evs : List LsEvent) : Decidable (AllAnswered evs) :=
  inferInstanceAs (Decidable (∀ ev ∈ evs, ev.answered = true))

/-- One of the replies puts an entry into the listing. -/
def Shows (cfg : LsConfig) (evs : List LsEvent) : Prop := ∃ ev ∈ evs, ev.shows cfg = true

/-- If every RPC was answered, there was an entry to show; if one failed, there was none. -/
structure Clear (cfg : LsConfig) (evs : List LsEvent) : Prop where
  shows : AllAnswered evs → Shows cfg evs
  fails : ¬ AllAnswered evs → ¬ Shows cfg evs

/-- What a procedure lists are the entries that its replies show; it does not count them. -/
def ListsShown (cfg : LsConfig) (proc : NfsFhList → List LsEvent → LsResult) : Prop :=
  ∀ fh tr es fh', (proc fh tr).1 = .ok (es, fh') → fh'.received = fh.received ∧
    ∃ evs, (proc fh tr).2 = tr ++ evs ∧ (es ≠ [] ↔ Shows cfg evs)

section
variable {cfg : LsConfig} {env : LsEnv} {host : CString} {pages depth : ℕ}
  {nested : NfsFhList → List LsEvent → LsResult} {tr evs evs' : List LsEvent} {ev : LsEvent}

theorem shows_append : Shows cfg (evs ++ evs') ↔ Shows cfg evs ∨ Shows cfg evs' := by
  simp only [Shows, List.mem_append, or_and_right, exists_or]

theorem shows_cons : Shows cfg (ev :: evs) ↔ ev.shows cfg = true ∨ Shows cfg evs := by
  simp [Shows]

theorem shows_nil : ¬ Shows cfg [] := by simp [Shows]

theorem OfEntries.not_shows (h : OfEntries tr) : ¬ Shows cfg tr := by
  rintro ⟨ev, hev, hs⟩
  have hev := h ev hev
  cases ev with
  | getattr object res => cases hev
  | readdirplus args res => cases hev
  | _ => cases hs

theorem checkCookieverf_not_shows (path : CString) (kept sent : CookieVerf) :
    ¬ Shows cfg (checkCookieverf host path kept sent).2 := by
  unfold checkCookieverf
  split_ifs
  all_goals simp [Shows, LsEvent.shows]

/-- `do_getattr` lists the file, or what the other procedure lists. -/
theorem getattrBody_listsShown (hn : ListsShown cfg nested) :
    ListsShown cfg (getattrBody cfg env host nested) := by
  intro fh tr es fh' h
  obtain ⟨tr', htr', hret⟩ := getattrBody_returns_ok h
  rw [htr']
  cases hret with
  | noReply hr =>
    exact ⟨rfl, [.getattr fh.nfsFh none, .clntPerror "nfsproc3_getattr_3"], by simp, by
      simp [Shows, LsEvent.shows]⟩
  | @dir res _ _ _ hr hok hdir hq =>
    obtain ⟨hrec, evs, hevs, hshow⟩ := hn _ _ _ _ (congrArg Prod.fst hq)
    rw [hq] at hevs
    refine ⟨hrec, .getattr fh.nfsFh (some res) :: evs, hevs.trans (List.append_assoc ..), ?_⟩
    rw [hshow, shows_cons]
    simp [LsEvent.shows, hdir.1, hdir.2]
  | @object res entry _ hr hok hdir he =>
    obtain ⟨tr'', htr'', hq⟩ := getattrEntry_trace env host fh res.objAttributes
      (tr ++ [.getattr fh.nfsFh (some res)])
    rw [he] at htr''
    refine ⟨rfl, .getattr fh.nfsFh (some res) :: tr'', htr''.trans (List.append_assoc ..), ?_⟩
    rw [shows_cons, or_iff_left hq.not_shows]
    have hfile : res.objAttributes.type ≠ NF3DIR ∨ cfg.listdir = true := by
      rw [not_and_or, Bool.not_eq_false] at hdir
      exact hdir
    simpa [LsEvent.shows, hok] using hfile
  | @refused res hr hok =>
    exact ⟨rfl, [.getattr fh.nfsFh (some res),
      .nfsPerror host fh.path res.status "nfsproc3_getattr_3"], by simp, by
        simp [Shows, LsEvent.shows, hok]⟩

theorem climb_eq_nil_iff {c : ℕ} {q : List Entryplus3} : climb cookieKey c q = [] ↔ q = [] := by
  cases q with
  | nil => simp [climb]
  | cons e q =>
    rw [climb]
    split_ifs
    · simp
    · simp

/-- The entries of a successful reply that are not hidden are added to the listing. -/
theorem replyPage_listsShown (cfg : LsConfig) (env : LsEnv) (host : CString) (fh : NfsFhList)
    (args : Readdirplus3args) {res : Readdirplus3res} (hok : res.status = NFS3_OK)
    (entries : List Entrypluslink3) (tr : List LsEvent) :
    ∃ evs, (replyPage cfg env host fh args entries tr res).trace = tr ++ evs ∧
      ((replyPage cfg env host fh args entries tr res).entries ≠ [] ↔
        entries ≠ [] ∨ Shows cfg evs) := by
  let start : Page :=
    { cookie := args.cookie, entries
      trace := tr ++ [.readdirplus args (some res)] ++
        (checkCookieverf host fh.path args.cookieverf res.cookieverf).2 }
  obtain ⟨tr', htr', hq⟩ := readEntries_trace cfg env host fh.path res.entries start
  obtain ⟨hentries, -⟩ := readEntries_climb cfg env host fh.path res.entries start rfl
  refine ⟨[.readdirplus args (some res)] ++
    (checkCookieverf host fh.path args.cookieverf res.cookieverf).2 ++ tr', ?_, ?_⟩
  · rw [replyPage, htr']
    simp [start]
  · have hnil : (replyPage cfg env host fh args entries tr res).entries = [] ↔
        entries = [] ∧ res.entries.filter (shown cfg) = [] := by
      rw [replyPage, ← List.map_eq_nil_iff, hentries, List.append_eq_nil_iff, List.map_eq_nil_iff,
        List.map_eq_nil_iff, climb_eq_nil_iff]
    have hshow : Shows cfg [.readdirplus args (some res)] ↔ res.entries.filter (shown cfg) ≠ [] := by
      rw [shows_cons, or_iff_left shows_nil, ne_eq, List.filter_eq_nil_iff]
      simp [LsEvent.shows, hok]
    rw [shows_append, or_iff_left hq.not_shows, shows_append,
      or_iff_left (checkCookieverf_not_shows fh.path _ _), hshow, ne_eq, hnil, not_and_or]

/-- `do_readdirplus` lists what the replies show, after what has been listed before. -/
theorem LoopReturns.listsShown (hn : ListsShown cfg nested) {args : Readdirplus3args}
    {entries es : List Entrypluslink3} {fh fh' : NfsFhList} {tr tr' : List LsEvent}
    (h : LoopReturns cfg env host nested fh args entries tr es fh' tr') :
    fh'.received = fh.received ∧ ∃ evs, tr' = tr ++ evs ∧ (es ≠ [] ↔ entries ≠ [] ∨ Shows cfg evs) := by
  induction h with
  | @noReply args entries tr hr =>
    exact ⟨rfl, [.readdirplus args none, .clntPerror "nfsproc3_readdirplus_3"], by simp, by
      simp [Shows, LsEvent.shows]⟩
  | @last args entries tr res hr hok =>
    obtain ⟨evs, hevs, hpage⟩ := replyPage_listsShown cfg env host fh args hok entries tr
    exact ⟨rfl, evs, hevs, hpage⟩
  | @next args entries tr res es fh' tr' hr hok _ ih =>
    obtain ⟨evs, hevs, hpage⟩ := replyPage_listsShown cfg env host fh args hok entries tr
    obtain ⟨hrec, evs', hevs', hshow⟩ := ih
    refine ⟨hrec, evs ++ evs', ?_, ?_⟩
    · rw [hevs', hevs, List.append_assoc]
    · rw [hshow, hpage, shows_append, or_assoc]
  | @notdir args entries tr res es fh' tr' hr hok hq =>
    obtain ⟨hrec, evs, hevs, hshow⟩ := hn fh _ es fh' (congrArg Prod.fst hq)
    rw [hq] at hevs
    have hno : ¬ (LsEvent.readdirplus args (some res)).shows cfg = true := by
      simp [LsEvent.shows, hok]
    refine ⟨hrec, .readdirplus args (some res) :: evs, hevs.trans (List.append_assoc ..), ?_⟩
    simp only [shows_cons, hno, Bool.false_eq_true, false_or]
    rw [← hshow, ne_eq, List.append_eq_nil_iff, not_and_or]
  | @refused args entries tr res hr hok =>
    exact ⟨rfl, [.readdirplus args (some res),
      .nfsPerror host fh.path res.status "nfsproc3_readdirplus_3"], by simp, by
        simp [Shows, LsEvent.shows, hok]⟩

/-- **What is listed** is not empty iff one of the replies shows an entry. -/
theorem call_listsShown (proc : LsProc) :
    ListsShown cfg (proc.call cfg env host pages depth) := by
  suffices h : ListsShown cfg (doGetattr cfg env host pages depth) ∧
      ListsShown cfg (doReaddirplus cfg env host pages depth) by
    cases proc with
    | getattr => exact h.1
    | readdirplus => exact h.2
  induction depth with
  | zero =>
    constructor
    · intro fh tr es fh' h
      simp [doGetattr] at h
    · intro fh tr es fh' h
      simp [doReaddirplus] at h
  | succ depth ih =>
    constructor
    · exact getattrBody_listsShown ih.2
    · intro fh tr es fh' h
      obtain ⟨tr', htr', hret⟩ := readdirplusLoop_returns_ok h
      obtain ⟨hrec, evs, hevs, hshow⟩ := hret.listsShown ih.1
      exact ⟨hrec, evs, htr'.trans hevs, by simpa using hshow⟩

end

/-! ## One request -/

section
variable {cfg : LsConfig} {env : LsEnv} {pages depth : ℕ}

/-- At most the results change, and there are as many as before. -/
theorem lsStore_ok {stats stats' : Stats} {usec : ℕ} (h : lsStore cfg stats usec = .ok stats') :
    ∃ results, stats' = { stats with results } ∧ results.length = stats.results.length := by
  unfold lsStore at h
  split_ifs at h
  · obtain ⟨-, rfl⟩ := Stats.store_ok h
    exact ⟨_, rfl, List.length_set⟩
  · obtain rfl := Except.ok.inj h
    exact ⟨_, rfl, rfl⟩

/-- What a request does to its filehandle and to the counters of the run. -/
theorem lsFilehandle_counts {q : LsRequest} {fh' : NfsFhList} {st' : Target × LsRun}
    (h : lsFilehandle cfg env pages depth q.index q.fh (q.target, q.run) = .ok (fh', st')) :
    ∃ es fh'', (q.result cfg env pages depth).1 = .ok (es, fh'') ∧
      fh'.received = (if es ≠ [] then wrap64 (fh''.received + 1) else fh''.received) ∧
      st'.2.lsSent = wrap64 (q.run.lsSent + 1) ∧
      st'.2.lsOk = if es ≠ [] then wrap64 (q.run.lsOk + 1) else q.run.lsOk := by
  obtain ⟨es, fh'', tr, stats, hcall, hstats, rfl, -, -, hsent, hok⟩ := lsFilehandle_ok h
  obtain ⟨results, rfl, -⟩ := lsStore_ok hstats
  refine ⟨es, fh'', congrArg Prod.fst hcall, ?_, hsent, ?_⟩
  · cases es with
    | nil => rfl
    | cons e es => rfl
  · rw [hok]
    cases es with
    | nil => rfl
    | cons e es => rfl

/-- The request was carried out. -/
def LsRequest.Completed (cfg : LsConfig) (env : LsEnv) (pages depth : ℕ) (q : LsRequest) : Prop :=
  ∃ r, lsFilehandle cfg env pages depth q.index q.fh (q.target, q.run) = .ok r

/-- A counter that wraps does not stay the same. -/
theorem wrap64_succ_ne (n : ℕ) : wrap64 (n + 1) ≠ n := by
  unfold wrap64
  omega

/-- The outcome of a request that was carried out. -/
theorem LsRequest.Completed.outcome {q : LsRequest} (h : q.Completed cfg env pages depth) :
    ∃ fh' st', lsFilehandle cfg env pages depth q.index q.fh (q.target, q.run) = .ok (fh', st') ∧
      (q.counted cfg env pages depth = true ↔ Shows cfg (q.events cfg env pages depth)) ∧
      st'.2.lsSent = wrap64 (q.run.lsSent + 1) ∧
      st'.2.lsOk = if q.counted cfg env pages depth then wrap64 (q.run.lsOk + 1) else q.run.lsOk := by
  obtain ⟨⟨fh', st'⟩, h⟩ := h
  obtain ⟨es, fh'', hres, hrec, hsent, hok⟩ := lsFilehandle_counts h
  obtain ⟨hrec', evs, hevs, hshow⟩ := call_listsShown _ q.fh q.run.trace es fh'' hres
  have hevents : q.events cfg env pages depth = evs := by
    rw [LsRequest.events, LsRequest.result, hevs, List.drop_left]
  have hcounted : q.counted cfg env pages depth = true ↔ es ≠ [] := by
    simp only [LsRequest.counted, h, decide_eq_true_eq]
    rw [hrec, hrec']
    split_ifs with hes
    · exact iff_of_true rfl hes
    · exact iff_of_false (wrap64_succ_ne _).symm hes
  refine ⟨fh', st', h, by rw [hcounted, hshow, hevents], hsent, ?_⟩
  rw [hok]
  simp only [hcounted]

/-- **When a request is counted right**: it is counted iff every RPC was answered, iff its replies
    are clear. -/
theorem LsRequest.Completed.clear_iff {q : LsRequest} (h : q.Completed cfg env pages depth) :
    (q.counted cfg env pages depth = true ↔ AllAnswered (q.events cfg env pages depth)) ↔
      Clear cfg (q.events cfg env pages depth) := by
  obtain ⟨-, -, -, hcounted, -⟩ := h.outcome
  rw [hcounted]
  constructor
  · intro hiff
    exact ⟨hiff.2, fun hn hs => hn (hiff.1 hs)⟩
  · intro hc
    exact ⟨fun hs => by_contra fun hn => hc.fails hn hs, hc.shows⟩

end

/-! ## All requests -/

/-- The counters of a run after these requests. -/
structure LsCounted (cfg : LsConfig) (env : LsEnv) (pages depth : ℕ) (qs : List LsRequest) (run : LsRun) :
    Prop where
  sent : run.lsSent = wrap64 qs.length
  ok : run.lsOk = wrap64 (qs.countP (·.counted cfg env pages depth))
  completed : ∀ q ∈ qs, q.Completed cfg env pages depth

section
variable {cfg : LsConfig} {env : LsEnv} {pages depth : ℕ} {qs : List LsRequest} {run run' : LsRun}

theorem LsCounted.counts (hc : LsCounted cfg env pages depth qs run) :
    CountsMod (2 ^ 64) (·.counted cfg env pages depth) qs run.lsSent run.lsOk := ⟨hc.sent, hc.ok⟩

theorem LsCounted.concat {q : LsRequest} {r : NfsFhList × Target × LsRun}
    (hc : LsCounted cfg env pages depth qs q.run)
    (h : lsFilehandle cfg env pages depth q.index q.fh (q.target, q.run) = .ok r) :
    LsCounted cfg env pages depth (qs ++ [q]) r.2.2 := by
  have hq : q.Completed cfg env pages depth := ⟨r, h⟩
  obtain ⟨fh', st', h', -, hsent, hok⟩ := hq.outcome
  obtain rfl : r = (fh', st') := Except.ok.inj (h.symm.trans h')
  have hcounts := hc.counts.concat q
  refine ⟨hsent.trans hcounts.sent, hok.trans hcounts.ok, ?_⟩
  intro q' hq'
  rcases List.mem_append.1 hq' with hq' | hq'
  · exact hc.completed q' hq'
  · obtain rfl := List.mem_singleton.1 hq'
    exact hq

/-- The requests to a target are counted one after the other. -/
theorem lsTarget_counted {i : ℕ} {t t' : Target} (hc : LsCounted cfg env pages depth qs run)
    (h : lsTarget cfg env pages depth i t run = .ok (t', run')) :
    LsCounted cfg env pages depth (qs ++ targetRequests cfg env pages depth t run) run' := by
  obtain ⟨run₁, fhs, target, hconn, hw, -⟩ := lsTarget_ok h
  have hc₁ : LsCounted cfg env pages depth qs run₁ := by
    rcases lsConnect_ok hconn with rfl | rfl
    · exact hc
    · exact ⟨hc.sent, hc.ok, hc.completed⟩
  simp only [targetRequests, hconn]
  refine walk_steps (P := fun done st => LsCounted cfg env pages depth (qs ++ done.map
    fun (i, fh, target, run) => ⟨i, fh, target, run⟩) st.2) ?_ (by simpa using hc₁) hw
  intro done k fh st fh' st' hdone hf
  rw [List.map_append, ← List.append_assoc]
  exact LsCounted.concat (q := ⟨k, fh, st.1, st.2⟩) hdone hf

theorem lsRound_counted {n : ℕ} {s s' : LsState} (hc : LsCounted cfg env pages depth qs s.toLsRun)
    (h : lsRound cfg env pages depth n s = .ok s') :
    LsCounted cfg env pages depth (qs ++ roundRequests cfg env pages depth s) s'.toLsRun := by
  obtain ⟨targets, run, more, hw, -, rfl⟩ := lsRound_ok h
  have hrun : LsCounted cfg env pages depth (qs ++ roundRequests cfg env pages depth s) run := by
    refine walk_steps (P := fun done run => LsCounted cfg env pages depth (qs ++ done.flatMap
      fun (_, target, run) => targetRequests cfg env pages depth target run) run) ?_
      (by simpa using hc) hw
    intro done k t run t' run' hdone hf
    rw [List.flatMap_append, ← List.append_assoc, List.flatMap_singleton]
    exact lsTarget_counted hdone hf
  exact ⟨hrun.sent, hrun.ok, hrun.completed⟩

/-- **All requests of a run** are counted. -/
theorem lsRounds_counted {n : ℕ} {ts : List Target} {s' : LsState}
    (h : rounds (lsRound cfg env pages depth) n 0 { targets := ts } = .ok s') :
    LsCounted cfg env pages depth (lsRequests cfg env pages depth n { targets := ts }) s'.toLsRun := by
  refine rounds_states (P := fun done s => LsCounted cfg env pages depth
    (done.flatMap (roundRequests cfg env pages depth)) s.toLsRun) ?_ ?_ h
  · intro done k s s' hdone hround
    rw [List.flatMap_append, List.flatMap_singleton]
    exact lsRound_counted hdone hround
  · exact ⟨rfl, rfl, by simp⟩

/-- The exit status after fewer than `2 ^ 64` requests. -/
theorem lsStatus_eq_zero_iff (hc : LsCounted cfg env pages depth qs run) (hlt : qs.length < 2 ^ 64) :
    lsStatus run = 0 ↔ qs ≠ [] ∧ ∀ q ∈ qs, q.counted cfg env pages depth = true := by
  rw [← hc.counts.all_iff hlt, lsStatus]
  split_ifs with h
  · exact iff_of_true rfl h
  · exact iff_of_false (by simp) h

end

/-- **When `nfsls` succeeds.**  In every run each request is counted as received exactly if every
    RPC made for it was answered, iff its replies are clear.  If they all are, and there are fewer
    than `2 ^ 64`, the exit status is 0 exactly if there was a request and every RPC was
    answered. -/
theorem lsMain_status (cfg : LsConfig) (env : LsEnv) (pages depth n : ℕ) (ts : List Target)
    (s' : LsState)
    (h : Ends (lsRound cfg env pages depth) (fun _ s => s.more) n { targets := ts } s') :
    (∀ q ∈ lsRequests cfg env pages depth n { targets := ts },
      (q.counted cfg env pages depth = true ↔ AllAnswered (q.events cfg env pages depth)) ↔
        Clear cfg (q.events cfg env pages depth)) ∧
    ((lsRequests cfg env pages depth n { targets := ts }).length < 2 ^ 64 →
      (∀ q ∈ lsRequests cfg env pages depth n { targets := ts },
        Clear cfg (q.events cfg env pages depth)) →
      (lsStatus s'.toLsRun = 0 ↔ lsRequests cfg env pages depth n { targets := ts } ≠ [] ∧
        ∀ q ∈ lsRequests cfg env pages depth n { targets := ts },
          AllAnswered (q.events cfg env pages depth))) := by
  obtain ⟨k, rfl, hrounds, -⟩ := ends_iff.1 h
  have hc := lsRounds_counted hrounds
  have hiff := fun q hq => (hc.completed q hq).clear_iff
  refine ⟨hiff, fun hlt hclear => ?_⟩
  rw [lsStatus_eq_zero_iff hc hlt]
  refine and_congr_right fun _ => forall₂_congr fun q hq => ?_
  exact (hiff q hq).2 (hclear q hq)

/-- A target with one filehandle. -/
def lsTargets (path : CString) : List Target := [{ filehandles := [{ path }] }]

/-- A server whose handles are those of empty directories. -/
def emptyDir : LsEnv where
  getattr _ _ := some { objAttributes := { type := NF3DIR } }
  readdirplus _ _ := some { eof := true }
  readlink _ _ := none

/-- A server whose handles are those of files. -/
def oneFile : LsEnv where
  getattr _ _ := some { objAttributes := { type := 1 } }
  readdirplus _ _ := some { status := NFS3ERR_NOTDIR }
  readlink _ _ := none

theorem lsMain_status_file : ∃ s',
    (∀ q ∈ lsRequests {} oneFile 1 2 1 { targets := lsTargets ['f'] },
      (q.counted {} oneFile 1 2 = true ↔ AllAnswered (q.events {} oneFile 1 2)) ↔
        Clear {} (q.events {} oneFile 1 2)) ∧
    ((lsRequests {} oneFile 1 2 1 { targets := lsTargets ['f'] }).length < 2 ^ 64 →
      (∀ q ∈ lsRequests {} oneFile 1 2 1 { targets := lsTargets ['f'] },
        Clear {} (q.events {} oneFile 1 2)) →
      (lsStatus s' = 0 ↔ lsRequests {} oneFile 1 2 1 { targets := lsTargets ['f'] } ≠ [] ∧
        ∀ q ∈ lsRequests {} oneFile 1 2 1 { targets := lsTargets ['f'] },
          AllAnswered (q.events {} oneFile 1 2))) :=
  ⟨_, lsMain_status {} oneFile 1 2 1 (lsTargets ['f']) _ ⟨1, rfl⟩⟩

/-- An empty directory is taken for lost. -/
theorem lsMain_status_emptyDir : ∃ s' : LsState,
    Ends (lsRound {} emptyDir 1 2) (fun _ s => s.more) 1 { targets := lsTargets ['/'] } s' ∧
      lsStatus s'.toLsRun = 1 ∧
      (lsRequests {} emptyDir 1 2 1 { targets := lsTargets ['/'] }).map
        (fun q => (q.counted {} emptyDir 1 2, decide (AllAnswered (q.events {} emptyDir 1 2)))) =
          [(false, true)] :=
  ⟨_, ⟨1, rfl⟩, by decide, by decide⟩

end NFStash
