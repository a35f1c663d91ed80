/-
  The connections of `nfsls`, `nfsdf` and `nfscat`.

  Each of them walks over its targets, connects to those without a client and asks for their
  filehandles.  They replace the authentication of a new client before they check that there is one,
  where `nfslock` checks first; `connecting_skips_iff` says that a target without a client is skipped,
  and the others are asked for all their filehandles, iff every connection succeeds.
-/
import NFStash.Cat
import NFStash.DfRounds
import NFStash.Readdirplus

namespace NFStash

open CLib Loops

/-! ## Loops over targets -/

/-- A loop over targets. -/
structure TargetLoop (σ : Type) where
  step : ℕ → Target → σ → Except Fault (Target × σ)
  /-- `create_rpc_client` returns a client, if it is called in this step -/
  connects : ℕ → Target → σ → Bool
  /-- the filehandles of the requests in the trace of a state, in order -/
  asked : σ → List NfsFh3

namespace TargetLoop
variable {σ : Type} (l : TargetLoop σ) (targets : List Target) (s : σ)

/-- The step needs a client and does not get one. -/
def Fails (j : ℕ) (t : Target) (u : σ) : Prop :=
  t.freed = false ∧ t.client = false ∧ l.connects j t u = false

/-- Between the two states there are requests for all filehandles of the target, in order. -/
def AsksFor (t : Target) (u u' : σ) : Prop :=
  ∃ new, l.asked u' = l.asked u ++ new ∧ (t.filehandles.map (·.nfsFh)).Sublist new

/-- A target without a client is left alone, and the loop goes on with the next; one with a client is
    asked for all its filehandles. -/
structure Skips : Prop where
  goesOn : ∀ j t u, targets[j]? = some t → Reaches l.step 0 targets s j u → l.Fails j t u →
    ∃ u', l.step j t u = .ok (t, u') ∧ l.asked u' = l.asked u
  asks : ∀ j t u, targets[j]? = some t → Reaches l.step 0 targets s j u → ¬ l.Fails j t u →
    ∀ t' u', l.step j t u = .ok (t', u') → l.AsksFor t u u'

/-- Every attempt to connect that is made succeeds. -/
def AllConnect : Prop :=
  ∀ j t u, targets[j]? = some t → Reaches l.step 0 targets s j u → ¬ l.Fails j t u

/-- A client that is used unchecked, in an otherwise good loop. -/
structure Unchecked : Prop where
  fault : ∀ j t u, l.Fails j t u → l.step j t u = .error .nullDeref
  asks : ∀ j t u t' u', l.step j t u = .ok (t', u') → l.AsksFor t u u'

variable {l targets s}

/-- In a round that completes, every target has been skipped or asked for all its filehandles. -/
theorem Skips.asked {targets' : List Target} {s' : σ} {j : ℕ} {t : Target} (h : l.Skips targets s)
    (hw : walk l.step 0 targets s = .ok (targets', s')) (ht : targets[j]? = some t) :
    ∃ u t' u', Reaches l.step 0 targets s j u ∧ l.step j t u = .ok (t', u') ∧
      (l.Fails j t u → l.asked u' = l.asked u) ∧ (¬ l.Fails j t u → l.AsksFor t u u') := by
  obtain ⟨u', hnext⟩ := walk_reaches (k := j + 1) hw
  obtain ⟨u, t', hu, hstep⟩ := (reaches_succ ht).1 hnext
  rw [Nat.zero_add] at hstep
  refine ⟨u, t', u', hu, hstep, fun hfails => ?_, fun hno => h.asks j t u ht hu hno _ _ hstep⟩
  obtain ⟨v, hv, hasked⟩ := h.goesOn j t u ht hu hfails
  obtain ⟨-, rfl⟩ := Prod.mk.inj (Except.ok.inj (hv.symm.trans hstep))
  exact hasked

theorem Unchecked.skips_iff (h : l.Unchecked) : l.Skips targets s ↔ l.AllConnect targets s := by
  constructor
  · intro hskips j t u ht hu hfails
    obtain ⟨u', hok, -⟩ := hskips.goesOn j t u ht hu hfails
    rw [h.fault j t u hfails] at hok
    cases hok
  · intro hall
    constructor
    · intro j t u ht hu hfails
      exact absurd hfails (hall j t u ht hu)
    · intro j t u _ _ _ t' u' hok
      exact h.asks j t u t' u' hok

end TargetLoop

/-! ## The requests of `nfsls` -/

/-- The filehandle of a request. -/
def LsEvent.object? : LsEvent → Option NfsFh3
  | .getattr object _ => some object
  | .readdirplus args _ => some args.dir
  | _ => none

def LsRun.objects (run : LsRun) : List NfsFh3 := run.trace.filterMap LsEvent.object?

section
variable {cfg : LsConfig} {env : LsEnv} {host : CString} {pages depth : ℕ}
  {nested : NfsFhList → List LsEvent → LsResult}

/-- `do_getattr` sends GETATTR before anything else. -/
theorem getattrBody_sends (hnested : ∀ fh tr, tr <+: (nested fh tr).2) (fh : NfsFhList)
    (tr : List LsEvent) : tr ++ [.getattr fh.nfsFh (env.getattr tr.length fh.nfsFh)] <+:
      (getattrBody cfg env host nested fh tr).2 := by
  unfold getattrBody
  cases env.getattr tr.length fh.nfsFh with
  | none => exact List.prefix_append ..
  | some res =>
    dsimp only
    split_ifs
    · exact hnested fh _
    · obtain ⟨tr', htr', -⟩ := getattrEntry_trace env host fh res.objAttributes
        (tr ++ [.getattr fh.nfsFh (some res)])
      exact ⟨tr', htr'.symm⟩
    · exact List.prefix_append ..

/-- `do_readdirplus` sends READDIRPLUS before anything else. -/
theorem readdirplusLoop_sends (hnested : ∀ fh tr, tr <+: (nested fh tr).2) (fh : NfsFhList)
    (hnext : ∀ args entries tr, tr <+: (readdirplusLoop cfg env host nested fh pages args entries tr).2)
    (args : Readdirplus3args) (entries : List Entrypluslink3) (tr : List LsEvent) :
    tr ++ [.readdirplus args (env.readdirplus tr.length args)] <+:
      (readdirplusLoop cfg env host nested fh (pages + 1) args entries tr).2 := by
  unfold readdirplusLoop
  cases env.readdirplus tr.length args with
  | none => exact List.prefix_append ..
  | some res =>
    dsimp only
    split_ifs
    · obtain ⟨tr', htr', -⟩ := readEntries_trace cfg env host fh.path res.entries
        { cookie := args.cookie, entries, trace := tr ++ [.readdirplus args (some res)] ++
          (checkCookieverf host fh.path args.cookieverf res.cookieverf).2 }
      rw [htr', List.append_assoc _ _ tr']
      exact List.prefix_append ..
    · refine List.IsPrefix.trans ?_ (hnext _ _ _)
      obtain ⟨tr', htr', -⟩ := readEntries_trace cfg env host fh.path res.entries
        { cookie := args.cookie, entries, trace := tr ++ [.readdirplus args (some res)] ++
          (checkCookieverf host fh.path args.cookieverf res.cookieverf).2 }
      rw [htr', List.append_assoc _ _ tr']
      exact List.prefix_append ..
    · have hget := hnested fh (tr ++ [.readdirplus args (some res)])
      generalize nested fh (tr ++ [.readdirplus args (some res)]) = r at hget ⊢
      rcases r with ⟨_ | ⟨_, _⟩, _⟩
      · exact hget
      · exact hget
    · exact List.prefix_append ..

theorem readdirplusLoop_extends (hnested : ∀ fh tr, tr <+: (nested fh tr).2) (fh : NfsFhList)
    (args : Readdirplus3args) (entries : List Entrypluslink3) (tr : List LsEvent) :
    tr <+: (readdirplusLoop cfg env host nested fh pages args entries tr).2 := by
  induction pages generalizing args entries tr with
  | zero => exact List.prefix_rfl
  | succ pages ih =>
    exact (List.prefix_append ..).trans (readdirplusLoop_sends hnested fh ih args entries tr)

/-- Neither procedure forgets what has been sent. -/
theorem doGetattr_extends : (∀ fh tr, tr <+: (doGetattr cfg env host pages depth fh tr).2) ∧
    ∀ fh tr, tr <+: (doReaddirplus cfg env host pages depth fh tr).2 := by
  induction depth with
  | zero => exact ⟨fun _ _ => List.prefix_rfl, fun _ _ => List.prefix_rfl⟩
  | succ depth ih =>
    constructor
    · intro fh tr
      exact (List.prefix_append ..).trans (getattrBody_sends ih.2 fh tr)
    · intro fh tr
      exact readdirplusLoop_extends ih.1 fh _ _ tr

/-- **A procedure that returns** has sent a request for the filehandle. -/
theorem LsProc.call_sends {proc : LsProc} {fh fh' : NfsFhList} {es : List Entrypluslink3}
    {tr tr' : List LsEvent} (h : proc.call cfg env host pages depth fh tr = (.ok (es, fh'), tr')) :
    ∃ more, tr'.filterMap LsEvent.object? = tr.filterMap LsEvent.object? ++ fh.nfsFh :: more := by
  have hsent : ∃ ev : LsEvent, ev.object? = some fh.nfsFh ∧ tr ++ [ev] <+: tr' := by
    cases depth with
    | zero =>
      cases proc with
      | getattr => cases (Prod.mk.inj h).1
      | readdirplus => cases (Prod.mk.inj h).1
    | succ depth =>
      obtain rfl := (Prod.mk.inj h).2
      cases proc with
      | getattr => exact ⟨_, rfl, getattrBody_sends doGetattr_extends.2 fh tr⟩
      | readdirplus =>
        cases pages with
        | zero => cases (Prod.mk.inj h).1
        | succ pages =>
          exact ⟨.readdirplus (firstArgs fh) _, rfl, readdirplusLoop_sends doGetattr_extends.1 fh
            (readdirplusLoop_extends doGetattr_extends.1 fh) _ _ tr⟩
  obtain ⟨ev, hev, more, rfl⟩ := hsent
  refine ⟨more.filterMap LsEvent.object?, ?_⟩
  have hone : [ev].filterMap LsEvent.object? = [fh.nfsFh] := by simp [hev]
  rw [List.filterMap_append, List.filterMap_append, hone, List.append_assoc]
  rfl

theorem lsFilehandle_sends {i : ℕ} {fh fh' : NfsFhList} {st st' : Target × LsRun}
    (h : lsFilehandle cfg env pages depth i fh st = .ok (fh', st')) :
    ∃ more, st'.2.objects = st.2.objects ++ fh.nfsFh :: more := by
  obtain ⟨es, fh'', tr, stats, hcall, -, -, -, htr, -⟩ := lsFilehandle_ok h
  obtain ⟨more, hmore⟩ := LsProc.call_sends hcall
  exact ⟨_, by rw [LsRun.objects, htr, List.filterMap_append, hmore, List.append_assoc]; rfl⟩

end

/-! ## The requests of `nfsdf` and `nfscat` -/

def DfEvent.object? : DfEvent → Option NfsFh3
  | .fsstat _ _ _ object => some object
  | _ => none

def DfRun.objects (run : DfRun) : List NfsFh3 := run.trace.filterMap DfEvent.object?

def CatEvent.object? : CatEvent → Option NfsFh3
  | .read args _ => some args.file
  | _ => none

def CatState.objects (s : CatState) : List NfsFh3 := s.trace.filterMap CatEvent.object?

section
variable {cfg : DfConfig} {env : DfEnv} {r j k : ℕ} {fh fh' : NfsFhList} {st st' : Target × DfRun}
  {run run' : DfRun}

theorem DfRun.objects_emit (run : DfRun) (ev : DfEvent) :
    (run.emit ev).objects = run.objects ++ ev.object?.toList := by
  rw [objects, emit, List.filterMap_append]
  cases h : ev.object? <;> simp [objects, h]

theorem getFsstat_sends {host : CString} {res : Option Fsstat3res}
    (h : getFsstat env r j k host fh run = .ok (res, run')) : run'.objects = run.objects ++ [fh.nfsFh] := by
  have hsent : (run.emit (.fsstat r j k fh.nfsFh)).objects = run.objects ++ [fh.nfsFh] :=
    DfRun.objects_emit run _
  unfold getFsstat at h
  dsimp only at h
  split at h
  · obtain ⟨-, rfl⟩ := Prod.mk.inj (Except.ok.inj h)
    rw [DfRun.objects_emit, hsent]
    exact List.append_nil _
  · split_ifs at h
    · obtain ⟨-, rfl⟩ := Prod.mk.inj (Except.ok.inj h)
      exact hsent
    · obtain ⟨text, -, h⟩ := bind_eq_ok.1 h
      obtain ⟨-, rfl⟩ := Prod.mk.inj (Except.ok.inj h)
      rw [DfRun.objects_emit, hsent]
      exact List.append_nil _

theorem dfScreen_objects (h : dfScreen cfg env r run = .ok run') : run'.objects = run.objects := by
  unfold dfScreen at h
  split_ifs at h
  · rw [Except.ok.inj h]
  · obtain rfl := Except.ok.inj h
    unfold printHeader
    split_ifs
    · exact (DfRun.objects_emit run _).trans (List.append_nil _)
    · rfl
  · rw [Except.ok.inj h]

theorem dfRecord_objects {res : Option Fsstat3res} {target target' : Target}
    (h : dfRecord cfg env r j k fh res target run = .ok (target', run')) : run'.objects = run.objects := by
  unfold dfRecord at h
  split at h
  · split_ifs at h
    · obtain ⟨run₁, hscreen, h⟩ := bind_eq_ok.1 h
      obtain ⟨-, rfl⟩ := Prod.mk.inj (Except.ok.inj h)
      have hlines : ∀ lines : List DfLine, (lines.map DfEvent.output).filterMap DfEvent.object? = [] := by
        intro lines
        rw [List.filterMap_map]
        exact List.filterMap_eq_nil_iff.2 fun _ _ => rfl
      rw [DfRun.objects, List.filterMap_append, hlines, List.append_nil]
      have hsame := dfScreen_objects hscreen
      exact hsame
    · rw [(Prod.mk.inj (Except.ok.inj h)).2]
  · rw [(Prod.mk.inj (Except.ok.inj h)).2]

theorem dfFilehandle_sends (h : dfFilehandle cfg env r j k fh st = .ok (fh', st')) :
    ∃ more, st'.2.objects = st.2.objects ++ fh.nfsFh :: more := by
  simp only [dfFilehandle, bind_eq_ok] at h
  obtain ⟨⟨res, run₁⟩, hfsstat, ⟨target₁, run₂⟩, hrecord, -, -, h⟩ := h
  obtain ⟨-, rfl⟩ := Prod.mk.inj (Except.ok.inj h)
  have hsame := dfRecord_objects hrecord
  have hsent := getFsstat_sends hfsstat
  exact ⟨[], hsame.trans hsent⟩

end

section
variable {cfg : CatConfig} {env : CatEnv} {fuel : ℕ} {name : CString} {fh fh' : NfsFhList}
  {s s' : CatState}

theorem doRead_sends (offset : UInt64) (tr : List CatEvent) :
    (doRead cfg env fh offset tr).2.filterMap CatEvent.object? =
      tr.filterMap CatEvent.object? ++ [fh.nfsFh] := by
  unfold doRead
  dsimp only
  split
  · rw [List.filterMap_append]
    rfl
  · split_ifs
    · rw [List.filterMap_append]
      rfl
    · rw [List.filterMap_append]
      rfl

theorem catRead_sends {r : ℕ} (h : catRead cfg env name fh r s = .ok s') :
    s'.objects = s.objects ++ [fh.nfsFh] := by
  have hread : (doRead cfg env fh s.offset s.trace).2.filterMap CatEvent.object? =
      s.objects ++ [fh.nfsFh] := doRead_sends s.offset s.trace
  unfold catRead at h
  generalize doRead cfg env fh s.offset s.trace = p at h hread
  obtain ⟨res, trace⟩ := p
  cases res with
  | none =>
    obtain rfl := Except.ok.inj h
    exact hread
  | some res =>
    by_cases hok : res.status = NFS3_OK
    · simp only [if_pos hok] at h
      obtain rfl := Except.ok.inj h
      simp only [CatState.objects, List.filterMap_append]
      refine (congrArg (· ++ _) hread).trans ?_
      by_cases hcount : cfg.count = 0
      · rw [if_pos hcount]
        exact List.append_nil _
      · rw [if_neg hcount]
        exact List.append_nil _
    · simp only [if_neg hok] at h
      obtain rfl := Except.ok.inj h
      exact hread

theorem catFile_sends {i : ℕ} (h : catFile cfg env fuel name i fh s = .ok (fh', s')) :
    ∃ more, s'.objects = s.objects ++ fh.nfsFh :: more := by
  obtain ⟨end?, hpoll, h⟩ := bind_eq_ok.1 h
  cases end? with
  | none => cases h
  | some last =>
    obtain ⟨-, rfl⟩ := Prod.mk.inj (Except.ok.inj h)
    obtain ⟨n, -, -, hrounds, -⟩ := poll_eq_some.1 hpoll
    obtain ⟨s₁, hfirst, hrest⟩ := rounds_succ_eq_ok.1 hrounds
    obtain ⟨more, hmore⟩ : ∃ more, last.2.objects = s₁.objects ++ more := by
      refine rounds_inv (P := fun _ (u : CatState) => ∃ more, u.objects = s₁.objects ++ more) ?_
        ⟨[], (List.append_nil _).symm⟩ hrest
      rintro k u u' - ⟨more, hu⟩ hstep
      exact ⟨more ++ [fh.nfsFh], by rw [catRead_sends hstep, hu, List.append_assoc]⟩
    exact ⟨more, by rw [hmore, catRead_sends hfirst, List.append_assoc]; rfl⟩

end

/-! ## The three programs -/

/-- The loop of `nfsls`. -/
def lsLoop (cfg : LsConfig) (env : LsEnv) (pages depth : ℕ) : TargetLoop LsRun where
  step := lsTarget cfg env pages depth
  connects _ _ run := env.connect run.trace.length
  asked := LsRun.objects

/-- The loop of `nfsdf` in round `r`. -/
def dfLoop (cfg : DfConfig) (env : DfEnv) (r : ℕ) : TargetLoop DfRun where
  step := dfTarget cfg env r
  connects j _ _ := env.connect r j
  asked := DfRun.objects

/-- The loop of `nfscat`. -/
def catLoop (cfg : CatConfig) (env : CatEnv) (fuel : ℕ) : TargetLoop CatState where
  step := catTarget cfg env fuel
  connects _ _ s := env.connect s.trace.length
  asked := CatState.objects

theorem lsLoop_unchecked (cfg : LsConfig) (env : LsEnv) (pages depth : ℕ) :
    (lsLoop cfg env pages depth).Unchecked := by
  constructor
  · rintro j t run ⟨hfreed, hclient, hconnect⟩
    have hconn : lsConnect env t run = .error .nullDeref := by
      simp only [lsLoop] at hconnect
      simp [lsConnect, hclient, hconnect]
    simp [lsLoop, lsTarget, hfreed, hconn, bind, Except.bind]
  · intro j t run t' run' h
    have hok : lsTarget cfg env pages depth j t run = .ok (t', run') := h
    obtain ⟨run₁, fhs, target, hconnect, hw, -⟩ := lsTarget_ok hok
    have hsame : run₁.objects = run.objects := by
      rcases lsConnect_ok hconnect with rfl | rfl
      · rfl
      · rw [LsRun.objects, List.filterMap_append]
        exact List.append_nil _
    obtain ⟨new, hnew, hsub⟩ := walk_adds (g := fun st : Target × LsRun => st.2.objects)
      (fun _ _ _ _ _ hstep => lsFilehandle_sends hstep) hw
    exact ⟨new, hnew.trans (congrArg (· ++ new) hsame), hsub⟩

theorem dfLoop_unchecked (cfg : DfConfig) (env : DfEnv) (r : ℕ) : (dfLoop cfg env r).Unchecked := by
  constructor
  · rintro j t run ⟨hfreed, hclient, hconnect⟩
    have hconn : dfConnect env r j t run = .error .nullDeref := by
      simp only [dfLoop] at hconnect
      simp [dfConnect, hclient, hconnect]
    simp [dfLoop, dfTarget, hfreed, hconn, bind, Except.bind]
  · intro j t run t' run' h
    obtain ⟨-, run₁, fhs, target, hconnect, hw, -⟩ := dfTarget_ok.1 h
    have hsame : run₁.objects = run.objects := by
      unfold dfConnect at hconnect
      split_ifs at hconnect
      · rw [Except.ok.inj hconnect]
      · obtain rfl := Except.ok.inj hconnect
        exact (DfRun.objects_emit run _).trans (List.append_nil _)
    obtain ⟨new, hnew, hsub⟩ := walk_adds (g := fun st : Target × DfRun => st.2.objects)
      (fun _ _ _ _ _ hstep => dfFilehandle_sends hstep) hw
    exact ⟨new, hnew.trans (congrArg (· ++ new) hsame), hsub⟩

theorem catLoop_unchecked (cfg : CatConfig) (env : CatEnv) (fuel : ℕ) :
    (catLoop cfg env fuel).Unchecked := by
  constructor
  · rintro j t s ⟨hfreed, hclient, hconnect⟩
    have hconn : catConnect env t s = .error .nullDeref := by
      simp only [catLoop] at hconnect
      simp [catConnect, hclient, hconnect]
    simp [catLoop, catTarget, hfreed, hconn, bind, Except.bind]
  · intro j t s t' s' h
    simp only [catLoop, catTarget] at h
    split_ifs at h
    obtain ⟨s₁, hconnect, h⟩ := bind_eq_ok.1 h
    obtain ⟨⟨fhs, s₂⟩, hw, h⟩ := bind_eq_ok.1 h
    obtain ⟨-, rfl⟩ := Prod.mk.inj (Except.ok.inj h)
    have hsame : s₁.objects = s.objects := by
      unfold catConnect at hconnect
      split_ifs at hconnect
      · rw [Except.ok.inj hconnect]
      · obtain rfl := Except.ok.inj hconnect
        rw [CatState.objects, List.filterMap_append]
        exact List.append_nil _
    obtain ⟨new, hnew, hsub⟩ := walk_adds (g := CatState.objects)
      (fun _ _ _ _ _ hstep => catFile_sends hstep) hw
    exact ⟨new, hnew.trans (congrArg (· ++ new) hsame), hsub⟩

/-- **Targets without a client are skipped**, and all others asked for all their filehandles in each
    round, iff every connection that is attempted succeeds. -/
theorem connecting_skips_iff (lsCfg : LsConfig) (lsEnv : LsEnv) (pages depth : ℕ) (lsState : LsState)
    (dfCfg : DfConfig) (dfEnv : DfEnv) (dfState : DfState) (catCfg : CatConfig) (catEnv : CatEnv)
    (fuel : ℕ) (targets : List Target) (catState : CatState) :
    ((∀ r u, Polls (lsRound lsCfg lsEnv pages depth) (fun _ s => s.more) r lsState u →
        (lsLoop lsCfg lsEnv pages depth).Skips u.targets u.toLsRun) ↔
      ∀ r u, Polls (lsRound lsCfg lsEnv pages depth) (fun _ s => s.more) r lsState u →
        (lsLoop lsCfg lsEnv pages depth).AllConnect u.targets u.toLsRun) ∧
    ((∀ r u, Polls (dfRound dfCfg dfEnv) (fun _ s => s.more) r dfState u →
        (dfLoop dfCfg dfEnv r).Skips u.targets u.toDfRun) ↔
      ∀ r u, Polls (dfRound dfCfg dfEnv) (fun _ s => s.more) r dfState u →
        (dfLoop dfCfg dfEnv r).AllConnect u.targets u.toDfRun) ∧
    ((catLoop catCfg catEnv fuel).Skips targets catState ↔
      (catLoop catCfg catEnv fuel).AllConnect targets catState) := by
  refine ⟨?_, ?_, (catLoop_unchecked catCfg catEnv fuel).skips_iff⟩
  · simp only [(lsLoop_unchecked lsCfg lsEnv pages depth).skips_iff]
  · simp only [(dfLoop_unchecked dfCfg dfEnv _).skips_iff]

/-- The first connection fails, and all others succeed. -/
def lsRefused : LsEnv where
  getattr _ _ := none
  readdirplus _ _ := none
  readlink _ _ := none
  connect n := n ≠ 0

def dfRefused : DfEnv where
  fsstat _ _ _ := some {}
  connect _ j := j ≠ 0

def catRefused : CatEnv where
  read _ _ := none
  connect n := n ≠ 0

/-- With a first target that cannot be connected to, the programs stop at its missing client. -/
theorem connecting_refused : ∃ ts,
    parseLines (tableLookup threeLines) (fun _ => 0) 0 0 dummyTargets (threeLines.map (·.1)) = .ok ts ∧
    (lsMain {} lsRefused 1 1 (tableLookup threeLines) (fun _ => 0) (threeLines.map (·.1)) 1 =
        .error .nullDeref ∧
      ¬ (lsLoop {} lsRefused 1 1).Skips ts.tail {}) ∧
    (dfMain {} dfRefused (tableLookup threeLines) (fun _ => 0) (threeLines.map (·.1)) 1 =
        .error .nullDeref ∧
      ¬ (dfLoop {} dfRefused 0).Skips ts.tail {}) ∧
    catMain {} catRefused 1 (tableLookup threeLines) (fun _ => 0) (threeLines.map (·.1)) =
        .error .nullDeref ∧
      ¬ (catLoop {} catRefused 1).Skips ts.tail {} := by
  refine ⟨_, rfl, ⟨rfl, ?_⟩, ⟨rfl, ?_⟩, rfl, ?_⟩
  · rw [(lsLoop_unchecked _ _ _ _).skips_iff]
    intro hall
    exact hall 0 _ {} rfl (reaches_zero.2 rfl) ⟨rfl, rfl, rfl⟩
  · rw [(dfLoop_unchecked _ _ _).skips_iff]
    intro hall
    exact hall 0 _ {} rfl (reaches_zero.2 rfl) ⟨rfl, rfl, rfl⟩
  · rw [(catLoop_unchecked _ _ _).skips_iff]
    intro hall
    exact hall 0 _ {} rfl (reaches_zero.2 rfl) ⟨rfl, rfl, rfl⟩

end NFStash
