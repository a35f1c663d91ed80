/-
  The trailing slash of a path.

  `main` chooses the procedure for a filehandle by the last character of its path.  On a
  `ConsistentServer`, where GETATTR and READDIRPLUS agree about what is a directory, the choice makes
  no difference: the procedure that finds that it has the wrong kind of file calls the other one.
  `call_slash` relates the two calls, and `lsRound_slash` the two rounds.  A path that fills its field with
  the slash has no terminator, and is read on into the field behind it (`lsRound_slash_iff`).
-/
import NFStash.Readdirplus

namespace NFStash

open CLib Loops

/-! ## Servers -/

/-- A server whose replies do not change, and whose directories are those handles that GETATTR says
    are directories. -/
structure ConsistentServer extends LsEnv where
  attributes : NfsFh3 → Fattr3
  listing : Readdirplus3args → Readdirplus3res
  link : NfsFh3 → Option Readlink3res
  getattr_eq : ∀ k fh, getattr k fh = some { objAttributes := attributes fh }
  readdirplus_eq : ∀ k args, readdirplus k args = some (listing args)
  readlink_eq : ∀ k fh, readlink k fh = link fh
  dir : ∀ args, (attributes args.dir).type = NF3DIR → (listing args).status = NFS3_OK
  notdir : ∀ args, (attributes args.dir).type ≠ NF3DIR → (listing args).status = NFS3ERR_NOTDIR

/-! ## What is printed -/

/-- The JSON object that is printed. -/
def LsEvent.json? : LsEvent → Option (List (String × JsonValue))
  | .filehandle json => some json
  | _ => none

/-- The JSON objects that are printed. -/
def jsonObjects (tr : List LsEvent) : List (List (String × JsonValue)) := tr.filterMap LsEvent.json?

/-- The paths in them. -/
def jsonPaths (tr : List LsEvent) : List JsonValue := (jsonObjects tr).filterMap (·.lookup "path")

theorem jsonObjects_append (tr tr' : List LsEvent) :
    jsonObjects (tr ++ tr') = jsonObjects tr ++ jsonObjects tr' := List.filterMap_append

theorem jsonPaths_append (tr tr' : List LsEvent) :
    jsonPaths (tr ++ tr') = jsonPaths tr ++ jsonPaths tr' := by
  rw [jsonPaths, jsonObjects_append, List.filterMap_append]
  rfl

theorem jsonPaths_congr {tr tr' : List LsEvent} (h : jsonObjects tr = jsonObjects tr') :
    jsonPaths tr = jsonPaths tr' := by rw [jsonPaths, h, jsonPaths]

/-- The procedure prints no JSON objects. -/
def NoOutput (proc : NfsFhList → List LsEvent → LsResult) : Prop :=
  ∀ fh tr, jsonObjects (proc fh tr).2 = jsonObjects tr

theorem OfEntries.jsonObjects_eq {tr : List LsEvent} (h : OfEntries tr) : jsonObjects tr = [] := by
  refine List.filterMap_eq_nil_iff.2 fun ev hev => ?_
  have hev := h ev hev
  cases ev with
  | filehandle json => cases hev
  | _ => rfl

section
variable {cfg : LsConfig} {env : LsEnv} {host : CString} {nested : NfsFhList → List LsEvent → LsResult}

theorem checkCookieverf_noOutput (path : CString) (kept sent : CookieVerf) :
    jsonObjects (checkCookieverf host path kept sent).2 = [] := by
  unfold checkCookieverf
  split_ifs
  all_goals rfl

theorem getattrBody_noOutput (hn : NoOutput nested) : NoOutput (getattrBody cfg env host nested) := by
  intro fh tr
  unfold getattrBody
  cases env.getattr tr.length fh.nfsFh with
  | none => simp [jsonObjects, LsEvent.json?]
  | some res =>
    dsimp only
    split_ifs
    · rw [hn]
      simp [jsonObjects, LsEvent.json?]
    · obtain ⟨tr', htr', hq⟩ := getattrEntry_trace env host fh res.objAttributes
        (tr ++ [.getattr fh.nfsFh (some res)])
      dsimp only
      rw [htr', jsonObjects_append, hq.jsonObjects_eq]
      simp [jsonObjects, LsEvent.json?]
    · simp [jsonObjects, LsEvent.json?]

theorem readdirplusLoop_noOutput (hn : NoOutput nested) (fh : NfsFhList) (pages : ℕ)
    (args : Readdirplus3args) (entries : List Entrypluslink3) (tr : List LsEvent) :
    jsonObjects (readdirplusLoop cfg env host nested fh pages args entries tr).2 = jsonObjects tr := by
  induction pages generalizing args entries tr with
  | zero => rfl
  | succ pages ih =>
    rw [readdirplusLoop]
    cases env.readdirplus tr.length args with
    | none => simp [jsonObjects, LsEvent.json?]
    | some res =>
      have hreply : jsonObjects (tr ++ [.readdirplus args (some res)]) = jsonObjects tr := by
        simp [jsonObjects, LsEvent.json?]
      obtain ⟨tr', htr', hq⟩ := readEntries_trace cfg env host fh.path res.entries
        { cookie := args.cookie, entries
          trace := tr ++ [.readdirplus args (some res)] ++
            (checkCookieverf host fh.path args.cookieverf res.cookieverf).2 }
      have hpage : jsonObjects (readEntries cfg env host fh.path res.entries
          { cookie := args.cookie, entries
            trace := tr ++ [.readdirplus args (some res)] ++
              (checkCookieverf host fh.path args.cookieverf res.cookieverf).2 }).trace =
          jsonObjects tr := by
        rw [htr', jsonObjects_append, hq.jsonObjects_eq, List.append_nil, jsonObjects_append, hreply,
          checkCookieverf_noOutput, List.append_nil]
      dsimp only
      split_ifs
      · exact hpage
      · exact (ih _ _ _).trans hpage
      · generalize hr : nested fh (tr ++ [.readdirplus args (some res)]) = r
        have hnested := hn fh (tr ++ [.readdirplus args (some res)])
        rw [hr, hreply] at hnested
        rcases r with ⟨f | ⟨es, fh'⟩, tr'⟩
        · exact hnested
        · exact hnested
      · rw [jsonObjects_append, hreply]
        simp [jsonObjects, LsEvent.json?]

/-- The objects are printed by `main` only. -/
theorem call_noOutput (cfg : LsConfig) (env : LsEnv) (host : CString) (pages depth : ℕ) (proc : LsProc) :
    NoOutput (proc.call cfg env host pages depth) := by
  suffices h : NoOutput (doGetattr cfg env host pages depth) ∧
      NoOutput (doReaddirplus cfg env host pages depth) by
    cases proc with
    | getattr => exact h.1
    | readdirplus => exact h.2
  induction depth with
  | zero => exact ⟨fun _ _ => rfl, fun _ _ => rfl⟩
  | succ depth ih =>
    exact ⟨getattrBody_noOutput ih.2, fun fh tr => readdirplusLoop_noOutput ih.1 fh pages _ _ tr⟩

end

/-- A filehandle with another path, from which the same paths are printed. -/
structure SameObject (fh fh' : NfsFhList) : Prop where
  rest : { fh with path := fh'.path } = fh'
  path : ∀ name, joinPath fh.path name = joinPath fh'.path name

/-- Two calls fail in the same way, or list the same entries of the same object. -/
def SameListing (r r' : LsResult) : Prop :=
  match r.1, r'.1 with
  | .ok (es, fh), .ok (es', fh') => es = es' ∧ SameObject fh fh'
  | .error f, .error f' => f = f'
  | _, _ => False

theorem SameObject.refl (fh : NfsFhList) : SameObject fh fh := ⟨rfl, fun _ => rfl⟩

/-! ## Entries -/

section
variable {cfg : LsConfig} {srv : ConsistentServer} {host : CString}

theorem doReadlink_same (srv : ConsistentServer) (host path path' : CString) (fh : NfsFh3)
    (tr tr' : List LsEvent) :
    (doReadlink srv.toLsEnv host path fh tr).1 = (doReadlink srv.toLsEnv host path' fh tr').1 := by
  simp only [doReadlink, srv.readlink_eq]
  cases srv.link fh with
  | none => rfl
  | some res =>
    dsimp only
    split_ifs
    · rfl
    · rfl

theorem copyEntry_same (srv : ConsistentServer) (host path path' : CString) (e : Entryplus3)
    (tr tr' : List LsEvent) :
    (copyEntry srv.toLsEnv host path e tr).1 = (copyEntry srv.toLsEnv host path' e tr').1 := by
  unfold copyEntry
  split_ifs
  · rfl
  · have hlink := doReadlink_same srv host path path' e.handle tr tr'
    exact congrArg (fun symlink => ({ e with symlink } : Entrypluslink3)) hlink
  · rfl

/-- Two states of the loop over the entries that differ in what has been printed. -/
structure SamePage (page page' : Page) : Prop where
  cookie : page.cookie = page'.cookie
  entries : page.entries = page'.entries
  loop : page.loop = page'.loop

/-- The path has no part in the entries of a reply. -/
theorem readEntries_same (cfg : LsConfig) (srv : ConsistentServer) (host path path' : CString)
    (es : List Entryplus3) {page page' : Page} (h : SamePage page page') :
    SamePage (readEntries cfg srv.toLsEnv host path es page)
      (readEntries cfg srv.toLsEnv host path' es page') := by
  induction es generalizing page page' with
  | nil => exact h
  | cons e es ih =>
    obtain ⟨hcookie, hentries, hloop⟩ := h
    have hcopy := copyEntry_same srv host path path' e page.trace page'.trace
    simp only [readEntries]
    rw [hcookie, hentries, hcopy]
    split_ifs
    · exact ih ⟨hcookie, hentries, hloop⟩
    · exact ih ⟨rfl, rfl, hloop⟩
    · exact ⟨rfl, rfl, rfl⟩

/-- Nor in the listing of a directory. -/
theorem readdirplusLoop_same {fh fh' : NfsFhList} (hobj : SameObject fh fh')
    (nested nested' : NfsFhList → List LsEvent → LsResult) (pages : ℕ) (args : Readdirplus3args)
    (hdir : (srv.attributes args.dir).type = NF3DIR) (entries : List Entrypluslink3)
    (tr tr' : List LsEvent) :
    SameListing (readdirplusLoop cfg srv.toLsEnv host nested fh pages args entries tr)
      (readdirplusLoop cfg srv.toLsEnv host nested' fh' pages args entries tr') := by
  induction pages generalizing args entries tr tr' with
  | zero => rfl
  | succ pages ih =>
    let start (path : CString) (tr : List LsEvent) : Page :=
      { cookie := args.cookie, entries
        trace := tr ++ [.readdirplus args (some (srv.listing args))] ++
          (checkCookieverf host path args.cookieverf (srv.listing args).cookieverf).2 }
    have hstart : SamePage (start fh.path tr) (start fh'.path tr') := ⟨rfl, rfl, rfl⟩
    obtain ⟨hcookie, hentries, hloop⟩ :=
      readEntries_same cfg srv host fh.path fh'.path (srv.listing args).entries hstart
    simp only [readdirplusLoop, srv.readdirplus_eq, srv.dir args hdir, if_true]
    rw [hloop, hcookie, hentries]
    split_ifs
    · exact ⟨rfl, hobj⟩
    · refine ih _ ?_ _ _ _
      exact hdir

/-! ## Procedures -/

/-- The entry `do_getattr` makes up does not depend on a trailing slash. -/
theorem getattrEntry_same (srv : ConsistentServer) (host : CString) {fh fh' : NfsFhList}
    (hfh : fh.nfsFh = fh'.nfsFh)
    (hbase : basename (strncpy MNTPATHLEN fh.path) = basename (strncpy MNTPATHLEN fh'.path))
    (attributes : Fattr3) (tr tr' : List LsEvent) :
    (getattrEntry srv.toLsEnv host fh attributes tr).1 =
      (getattrEntry srv.toLsEnv host fh' attributes tr').1 := by
  unfold getattrEntry
  rw [hbase, hfh]
  dsimp only
  split_ifs
  · rfl
  · have hlink := doReadlink_same srv host fh.path fh'.path fh'.nfsFh tr tr'
    dsimp only
    rw [hlink]
  · rfl

/-- `do_getattr` lists an object itself, unless it is a directory whose entries are asked for. -/
theorem getattrBody_object (nested : NfsFhList → List LsEvent → LsResult) {fh : NfsFhList}
    (h : ¬ ((srv.attributes fh.nfsFh).type = NF3DIR ∧ cfg.listdir = false)) (tr : List LsEvent) :
    (getattrBody cfg srv.toLsEnv host nested fh tr).1 =
      .ok ([(getattrEntry srv.toLsEnv host fh (srv.attributes fh.nfsFh)
        (tr ++ [.getattr fh.nfsFh (some { objAttributes := srv.attributes fh.nfsFh })])).1],
        { fh with path := strncpy MNTPATHLEN (dirname fh.path) }) := by
  simp only [getattrBody, srv.getattr_eq, if_true, h, if_false]

theorem getattrBody_dir (nested : NfsFhList → List LsEvent → LsResult) {fh : NfsFhList}
    (h : (srv.attributes fh.nfsFh).type = NF3DIR ∧ cfg.listdir = false) (tr : List LsEvent) :
    getattrBody cfg srv.toLsEnv host nested fh tr =
      nested fh (tr ++ [.getattr fh.nfsFh (some { objAttributes := srv.attributes fh.nfsFh })]) := by
  simp only [getattrBody, srv.getattr_eq, if_true, h, and_self]

/-- `do_readdirplus` has the other procedure list what is not a directory. -/
theorem readdirplusLoop_file (nested : NfsFhList → List LsEvent → LsResult) {fh : NfsFhList}
    (h : (srv.attributes fh.nfsFh).type ≠ NF3DIR) (pages : ℕ) (tr : List LsEvent) :
    (readdirplusLoop cfg srv.toLsEnv host nested fh (pages + 1) (firstArgs fh) [] tr).1 =
      (nested fh (tr ++ [.readdirplus (firstArgs fh) (some (srv.listing (firstArgs fh)))])).1 := by
  have hstatus := srv.notdir (firstArgs fh) h
  have hne : ¬ NFS3ERR_NOTDIR = NFS3_OK := by decide
  simp only [readdirplusLoop, srv.readdirplus_eq, hstatus, hne, if_false, if_true]
  generalize nested fh _ = q
  rcases q with ⟨f | ⟨es, fh'⟩, tr'⟩
  · rfl
  · rfl

/-- A path and the same path with a slash, as they are stored. -/
structure SlashPaths (p q : CString) : Prop where
  ne_nil : p ≠ []
  last : p.getLast? ≠ some '/'
  slash : q = p ++ ['/']
  fits : p.length + 1 < MNTPATHLEN

section
variable {p q : CString} (h : SlashPaths p q)
include h

theorem SlashPaths.joinPath_eq (name : CString) : joinPath p name = joinPath q name := by
  rw [joinPath, joinPath, if_neg h.last, h.slash, if_pos (by simp), List.append_assoc]
  rfl

/-- Both paths end within their fields. -/
theorem SlashPaths.length_lt : p.length < MNTPATHLEN ∧ q.length < MNTPATHLEN := by
  have hfits := h.fits
  rw [h.slash, List.length_append, List.length_singleton]
  omega

/-- The two paths are copied as they are. -/
theorem SlashPaths.strncpy_eq : strncpy MNTPATHLEN p = p ∧ strncpy MNTPATHLEN q = q :=
  ⟨strncpy_of_lt h.length_lt.1.le, strncpy_of_lt h.length_lt.2.le⟩

theorem SlashPaths.basename_eq :
    basename (strncpy MNTPATHLEN p) = basename (strncpy MNTPATHLEN q) := by
  rw [h.strncpy_eq.1, h.strncpy_eq.2, h.slash, basename_concat_slash h.ne_nil]

theorem SlashPaths.dirname_eq : dirname p = dirname q := by
  rw [h.slash, dirname_concat_slash h.ne_nil h.last]

end

variable {fh fh' : NfsFhList}

/-- The object itself is listed in the same way from both paths. -/
theorem getattrBody_same (nested nested' : NfsFhList → List LsEvent → LsResult)
    (hrest : { fh with path := fh'.path } = fh') (hpq : SlashPaths fh.path fh'.path)
    (h : ¬ ((srv.attributes fh.nfsFh).type = NF3DIR ∧ cfg.listdir = false)) (tr tr' : List LsEvent) :
    ∃ es fh'', (getattrBody cfg srv.toLsEnv host nested fh tr).1 = .ok (es, fh'') ∧
      (getattrBody cfg srv.toLsEnv host nested' fh' tr').1 = .ok (es, fh'') := by
  have hfh : fh.nfsFh = fh'.nfsFh := by rw [← hrest]
  have hpath : { fh with path := strncpy MNTPATHLEN (dirname fh.path) } =
      { fh' with path := strncpy MNTPATHLEN (dirname fh'.path) } := by
    rw [hpq.dirname_eq, ← hrest]
  refine ⟨_, _, getattrBody_object nested h tr, ?_⟩
  rw [getattrBody_object nested' (hfh ▸ h), hpath]
  rw [hfh, getattrEntry_same srv host hfh hpq.basename_eq]

/-- **Both calls** list the same entries of the same object, whatever procedure is chosen. -/
theorem call_slash (cfg : LsConfig) (srv : ConsistentServer) (host : CString)
    (hrest : { fh with path := fh'.path } = fh') (hpq : SlashPaths fh.path fh'.path) (pages depth : ℕ)
    (tr tr' : List LsEvent) :
    SameListing
      ((chooseProc cfg fh.path).call cfg srv.toLsEnv host (pages + 1) (depth + 2) fh tr)
      ((chooseProc cfg fh'.path).call cfg srv.toLsEnv host (pages + 1) (depth + 2) fh' tr') := by
  have hfh : fh.nfsFh = fh'.nfsFh := by rw [← hrest]
  have hobj : SameObject fh fh' := ⟨hrest, hpq.joinPath_eq⟩
  have hproc : chooseProc cfg fh.path = .getattr := if_pos (.inr hpq.last)
  rw [hproc]
  by_cases h : (srv.attributes fh.nfsFh).type = NF3DIR ∧ cfg.listdir = false
  · -- a directory: the first call comes to `do_readdirplus`, which the second one starts with
    have hproc' : chooseProc cfg fh'.path = .readdirplus := by
      rw [chooseProc, if_neg]
      simp [h.2, hpq.slash]
    rw [hproc']
    change SameListing (getattrBody cfg srv.toLsEnv host _ fh tr) _
    rw [getattrBody_dir _ h]
    have hargs : firstArgs fh' = firstArgs fh := by rw [firstArgs, firstArgs, hfh]
    change SameListing (readdirplusLoop ..) (readdirplusLoop ..)
    rw [hargs]
    exact readdirplusLoop_same hobj _ _ _ _ h.1 _ _ _
  · -- the object itself is listed: the second call comes to `do_getattr`
    obtain ⟨nested, tr'', hcall⟩ : ∃ nested tr'',
        ((chooseProc cfg fh'.path).call cfg srv.toLsEnv host (pages + 1) (depth + 2) fh' tr').1 =
          (getattrBody cfg srv.toLsEnv host nested fh' tr'').1 := by
      cases hl : cfg.listdir with
      | true =>
        have hproc' : chooseProc cfg fh'.path = .getattr := if_pos (.inl hl)
        rw [hproc']
        exact ⟨_, tr', rfl⟩
      | false =>
        have hproc' : chooseProc cfg fh'.path = .readdirplus := by
          rw [chooseProc, if_neg]
          simp [hl, hpq.slash]
        have htype : (srv.attributes fh'.nfsFh).type ≠ NF3DIR := fun hd => h ⟨hfh ▸ hd, hl⟩
        rw [hproc']
        exact ⟨_, _, readdirplusLoop_file _ htype pages tr'⟩
    obtain ⟨es, fh'', hfst, hsnd⟩ := getattrBody_same (doReaddirplus cfg srv.toLsEnv host (pages + 1)
      (depth + 1)) nested hrest hpq h tr tr''
    unfold SameListing
    rw [hcall, hsnd, show ((LsProc.getattr).call cfg srv.toLsEnv host (pages + 1) (depth + 2) fh tr).1 = _
      from hfst]
    exact ⟨rfl, .refl _⟩

end

/-! ## One round -/

/-- Two walks, or rounds, that fail in the same way or whose results are related. -/
def SameOutcome {α : Type} (R : α → α → Prop) : Except Fault α → Except Fault α → Prop
  | .ok a, .ok a' => R a a'
  | .error f, .error f' => f = f'
  | _, _ => False

section
variable {α β : Type} {R : α → α → Prop} {Q : β → β → Prop}

theorem SameOutcome.bind {x x' : Except Fault α} {f f' : α → Except Fault β} (hx : SameOutcome R x x')
    (hf : ∀ a a', R a a' → SameOutcome Q (f a) (f' a')) : SameOutcome Q (x >>= f) (x' >>= f') := by
  cases x with
  | error e =>
    cases x' with
    | error e' => exact hx
    | ok a' => exact absurd hx id
  | ok a =>
    cases x' with
    | error e' => exact absurd hx id
    | ok a' => exact hf a a' hx

/-- What a result is compared with itself by. -/
theorem SameOutcome.refl (hR : ∀ a, R a a) (x : Except Fault α) : SameOutcome R x x := by
  cases x with
  | error e => rfl
  | ok a => exact hR a

end

/-- The objects `main` prints for a listing. -/
theorem jsonObjects_output (cfg : LsConfig) (target : Target) (fh : NfsFhList) (usec : ℕ) :
    jsonObjects (lsOutput cfg target fh usec) =
      if cfg.format = .json then
        (fh.entries.filter fun e => e.handle.data ≠ []).map fun e =>
          printEntrypluslink3 target.name e target.ipAddress fh.path usec
      else [] := by
  unfold lsOutput
  split_ifs
  · rw [printFilehandles, jsonObjects, List.filterMap_map, ← List.filterMap_eq_map]
    rfl
  · rfl
  · rfl

/-- The paths in them. -/
theorem jsonPaths_output (cfg : LsConfig) (target : Target) (fh : NfsFhList) (usec : ℕ) :
    jsonPaths (lsOutput cfg target fh usec) =
      if cfg.format = .json then
        (fh.entries.filter fun e => e.handle.data ≠ []).map fun e => .string (joinPath fh.path e.name)
      else [] := by
  rw [jsonPaths, jsonObjects_output]
  split_ifs
  · rw [List.filterMap_map, ← List.filterMap_eq_map]
    rfl
  · rfl

section
variable {cfg : LsConfig} {srv : ConsistentServer} {fh fh' : NfsFhList} {t t' : Target}
  {run run' : LsRun}

/-- Whether a time can be stored does not depend on the time. -/
theorem lsStore_same (cfg : LsConfig) {s s' : Stats} (hlen : s.results.length = s'.results.length)
    (hsent : s.sent = s'.sent) (usec usec' : ℕ) :
    SameOutcome (fun _ _ => True) (lsStore cfg s usec) (lsStore cfg s' usec') := by
  unfold lsStore Stats.store storeAt
  rw [hlen, hsent]
  split_ifs
  · trivial
  · rfl
  · trivial

/-- The listing `main` ends up with, and what it has printed. -/
def SameRecord (r r' : NfsFhList × Target × LsRun) : Prop :=
  r.1.entries = r'.1.entries ∧ jsonPaths r.2.2.trace = jsonPaths r'.2.2.trace

/-- The same entries of the same object are recorded and printed in the same way. -/
theorem lsRecord_same (env : LsEnv) (es : List Entrypluslink3) (hobj : SameObject fh fh')
    (htr : jsonPaths run.trace = jsonPaths run'.trace) :
    SameOutcome SameRecord (lsRecord cfg env es fh t run) (lsRecord cfg env es fh' t' run') := by
  have hstats : fh.toStats = fh'.toStats := by rw [← hobj.rest]
  unfold lsRecord
  rw [hstats]
  refine SameOutcome.bind (R := fun _ _ => True) (lsStore_same cfg ?_ ?_ _ _) fun _ _ _ => ?_
  · rfl
  · rfl
  refine ⟨rfl, ?_⟩
  dsimp only
  rw [jsonPaths_append, jsonPaths_append, htr, jsonPaths_output, jsonPaths_output]
  simp only [hobj.path]

/-- **One filehandle**, with and without a slash after its path. -/
theorem lsFilehandle_slash (hrest : { fh with path := fh'.path } = fh')
    (hpq : SlashPaths fh.path fh'.path) (hname : t.name = t'.name) (pages depth i : ℕ)
    (htr : jsonPaths run.trace = jsonPaths run'.trace) :
    SameOutcome SameRecord (lsFilehandle cfg srv.toLsEnv (pages + 1) (depth + 2) i fh (t, run))
      (lsFilehandle cfg srv.toLsEnv (pages + 1) (depth + 2) i fh' (t', run')) := by
  have hne : ¬ (cfg.listdir = false ∧ fh.path = []) := fun h => hpq.ne_nil h.2
  have hne' : ¬ (cfg.listdir = false ∧ fh'.path = []) := by
    rw [hpq.slash]
    simp
  have hcall := call_slash cfg srv t'.name hrest hpq pages depth run.trace run'.trace
  have hout := call_noOutput cfg srv.toLsEnv t'.name (pages + 1) (depth + 2) (chooseProc cfg fh.path)
    fh run.trace
  have hout' := call_noOutput cfg srv.toLsEnv t'.name (pages + 1) (depth + 2) (chooseProc cfg fh'.path)
    fh' run'.trace
  unfold lsFilehandle
  rw [if_neg hne, if_neg hne', pathOverrun_of_lt hpq.length_lt.1, pathOverrun_of_lt hpq.length_lt.2, hname]
  dsimp only [Bool.false_eq_true, if_false]
  generalize LsProc.call .. = r at hcall hout
  generalize LsProc.call .. = r' at hcall hout'
  rcases r with ⟨f | ⟨es, fh₁⟩, tr⟩
  · rcases r' with ⟨f' | ⟨es', fh₁'⟩, tr'⟩
    · exact hcall
    · exact absurd hcall id
  · rcases r' with ⟨f' | ⟨es', fh₁'⟩, tr'⟩
    · exact absurd hcall id
    · obtain ⟨rfl, hobj⟩ := hcall
      have hpaths : jsonPaths tr = jsonPaths run.trace := jsonPaths_congr hout
      have hpaths' : jsonPaths tr' = jsonPaths run'.trace := jsonPaths_congr hout'
      refine lsRecord_same _ es hobj ?_
      exact hpaths.trans (htr.trans hpaths'.symm)

/-- A run with one filehandle, whose path is stored as the line has it. -/
def oneFilehandle (target : Target) (fh : NfsFhList) (path : CString) : LsState where
  targets := [{ target with filehandles := [{ fh with path := strncpy MNTPATHLEN path }] }]

/-- The entries that are kept, and the paths that are printed. -/
def SameState (s s' : LsState) : Prop :=
  (s.targets.map fun t => t.filehandles.map (·.entries)) =
      (s'.targets.map fun t => t.filehandles.map (·.entries)) ∧
    jsonPaths s.trace = jsonPaths s'.trace

/-- There is a first filehandle to look at after the round. -/
theorem lsMore_same (cfg : LsConfig) (env : LsEnv) {f f' : NfsFhList} (hf : t.filehandles = [f])
    (hf' : t'.filehandles = [f']) (n n' : ℕ) :
    SameOutcome (fun _ _ => True) (lsMore cfg env [t] n) (lsMore cfg env [t'] n') := by
  have hok : ∀ {t : Target} {f : NfsFhList}, t.filehandles = [f] → ∀ n, ∃ more,
      lsMore cfg env [t] n = .ok more := by
    intro t f h n
    unfold lsMore
    split_ifs
    · exact ⟨_, rfl⟩
    · exact ⟨_, rfl⟩
    · exact ⟨_, rfl⟩
    · simp only [h]
      exact ⟨_, rfl⟩
  obtain ⟨more, hmore⟩ := hok hf n
  obtain ⟨more', hmore'⟩ := hok hf' n'
  rw [hmore, hmore']
  trivial

/-- The filehandle of the only target of a round. -/
def SameTarget (r r' : Target × LsRun) : Prop :=
  (∃ f f', r.1.filehandles = [f] ∧ r'.1.filehandles = [f'] ∧ f.entries = f'.entries) ∧
    jsonPaths r.2.trace = jsonPaths r'.2.trace

theorem lsTarget_slash (target : Target) (hrest : { fh with path := fh'.path } = fh')
    (hpq : SlashPaths fh.path fh'.path) (pages depth i : ℕ) (run : LsRun) :
    SameOutcome SameTarget
      (lsTarget cfg srv.toLsEnv (pages + 1) (depth + 2) i { target with filehandles := [fh] } run)
      (lsTarget cfg srv.toLsEnv (pages + 1) (depth + 2) i { target with filehandles := [fh'] } run) := by
  unfold lsTarget
  dsimp only
  split_ifs
  · rfl
  · refine SameOutcome.bind (R := Eq) (.refl (fun _ => rfl) _) ?_
    rintro run _ rfl
    rw [walk_singleton, walk_singleton, bind_assoc, bind_assoc]
    refine SameOutcome.bind (R := SameRecord) (lsFilehandle_slash hrest hpq ?_ pages depth 0 ?_) ?_
    · rfl
    · rfl
    rintro ⟨f, t, run₁⟩ ⟨f', t', run₁'⟩ ⟨hentries, htr⟩
    exact ⟨⟨f, f', rfl, rfl, hentries⟩, htr⟩

/-- A round with a path that fits its field, and one with a slash after it. -/
theorem lsRound_slash (cfg : LsConfig) (srv : ConsistentServer) (pages depth r : ℕ) (target : Target)
    (fh : NfsFhList) (p : CString) (hne : p ≠ []) (hlast : p.getLast? ≠ some '/')
    (hlt : p.length + 1 < MNTPATHLEN) :
    SameOutcome SameState
      (lsRound cfg srv.toLsEnv (pages + 1) (depth + 2) r (oneFilehandle target fh p))
      (lsRound cfg srv.toLsEnv (pages + 1) (depth + 2) r (oneFilehandle target fh (p ++ ['/']))) := by
  have hpq : SlashPaths p (p ++ ['/']) := ⟨hne, hlast, rfl, hlt⟩
  obtain ⟨hp, hq⟩ := hpq.strncpy_eq
  unfold lsRound oneFilehandle
  rw [hp, hq, walk_singleton, walk_singleton, bind_assoc, bind_assoc]
  refine SameOutcome.bind (R := SameTarget) (lsTarget_slash target ?_ hpq pages depth 0 {}) ?_
  · rfl
  rintro ⟨t, run⟩ ⟨t', run'⟩ ⟨⟨f, f', hf, hf', hentries⟩, htr⟩
  change SameOutcome SameState (lsMore .. >>= _) (lsMore .. >>= _)
  refine SameOutcome.bind (R := fun _ _ => True) (lsMore_same cfg srv.toLsEnv hf hf' _ _) fun _ _ _ => ?_
  refine ⟨?_, ?_⟩
  · have ht : t.filehandles = [f] := hf
    have ht' : t'.filehandles = [f'] := hf'
    simp [ht, ht', hentries]
  · rw [jsonPaths_append, jsonPaths_append]
    split_ifs
    · exact congrArg (· ++ []) htr
    · exact congrArg (· ++ []) htr

end

/-! ## Paths that fill their field -/

section
variable {cfg : LsConfig} {env : LsEnv} {pages depth r i : ℕ} {target : Target} {fh : NfsFhList} {p : CString}

/-- A path that ends within its field is not read beyond it. -/
theorem lsFilehandle_inField {st : Target × LsRun} (h : fh.path.length < MNTPATHLEN) :
    lsFilehandle cfg env pages depth i fh st ≠ .error .unterminated := by
  have hcall : ((chooseProc cfg fh.path).call cfg env st.1.name pages depth fh st.2.trace).1 ≠
      .error .unterminated :=
    call_ne_error cfg env st.1.name pages depth (by decide) (by decide) _ _
  unfold lsFilehandle
  rw [pathOverrun_of_lt h]
  split_ifs
  · simp
  · contradiction
  · generalize LsProc.call _ _ _ _ _ _ _ _ = res at hcall ⊢
    rcases res with ⟨f | ⟨es, fh'⟩, tr⟩
    · exact fun h => hcall (congrArg Except.error (Except.error.inj h))
    · intro hrecord
      obtain hstore | ⟨_, -, hok⟩ := bind_eq_error.1 hrecord
      · unfold lsStore Stats.store storeAt at hstore
        split_ifs at hstore
        · cases hstore
        · cases hstore
      · cases hok

/-- The target is freed, or gets no client. -/
def StopsFirst (target : Target) (env : LsEnv) : Prop :=
  target.freed = true ∨ target.client = false ∧ env.connect 0 = false

/-- A run that stops before its listing does not depend on the path. -/
theorem lsRound_stops (h : StopsFirst target env) : ∃ f, f ≠ .unterminated ∧ ∀ p,
    lsRound cfg env pages depth r (oneFilehandle target fh p) = .error f := by
  have hround : ∀ f p, lsTarget cfg env pages depth 0
      { target with filehandles := [{ fh with path := strncpy MNTPATHLEN p }] } {} = .error f →
      lsRound cfg env pages depth r (oneFilehandle target fh p) = .error f := by
    intro f p hstep
    unfold lsRound oneFilehandle
    rw [walk_singleton]
    exact bind_eq_error.2 (.inl (bind_eq_error.2 (.inl hstep)))
  by_cases hfreed : target.freed = true
  · exact ⟨.useAfterFree, by decide, fun p => hround _ p (if_pos hfreed)⟩
  · obtain ⟨hclient, hconnect⟩ := h.resolve_left hfreed
    refine ⟨.nullDeref, by decide, fun p => hround _ p ?_⟩
    have hconn : ∀ t : Target, t.client = false → lsConnect env t {} = .error .nullDeref := by
      intro t ht
      rw [lsConnect, ht]
      exact (if_neg Bool.false_ne_true).trans (if_neg (ne_true_of_eq_false hconnect))
    exact (if_neg hfreed).trans (bind_eq_error.2 (.inl (hconn _ hclient)))

theorem lsMore_inField (ts : List Target) (n : ℕ) : lsMore cfg env ts n ≠ .error .unterminated := by
  unfold lsMore
  split_ifs
  · simp
  · simp
  · simp
  · rcases ts with _ | ⟨t, ts⟩
    · simp
    · rcases hfhs : t.filehandles with _ | ⟨fh, fhs⟩
      · simp [hfhs]
      · simp [hfhs]

/-- A listing whose path fits its field. -/
theorem lsRound_inField (h : p.length < MNTPATHLEN) :
    lsRound cfg env pages depth r (oneFilehandle target fh p) ≠ .error .unterminated := by
  have hstep : ∀ run, lsFilehandle cfg env pages depth 0 { fh with path := strncpy MNTPATHLEN p }
      ({ target with filehandles := [{ fh with path := strncpy MNTPATHLEN p }], client := true }, run) ≠
        .error .unterminated :=
    fun run => lsFilehandle_inField (by rw [strncpy_of_lt h.le]; exact h)
  intro hround
  unfold lsRound oneFilehandle at hround
  rw [walk_singleton] at hround
  obtain hwalk | ⟨⟨ts, run⟩, -, hmore⟩ := bind_eq_error.1 hround
  · obtain htarget | ⟨_, -, hok⟩ := bind_eq_error.1 hwalk
    · unfold lsTarget at htarget
      split_ifs at htarget
      · cases htarget
      · obtain hconnect | ⟨run, -, hrest⟩ := bind_eq_error.1 htarget
        · unfold lsConnect at hconnect
          split_ifs at hconnect
          cases hconnect
        · rw [walk_singleton] at hrest
          obtain hone | ⟨_, -, hok⟩ := bind_eq_error.1 hrest
          · obtain hfh | ⟨_, -, hok⟩ := bind_eq_error.1 hone
            · exact hstep run hfh
            · cases hok
          · cases hok
    · cases hok
  · obtain hmore | ⟨_, -, hok⟩ := bind_eq_error.1 hmore
    · exact lsMore_inField _ _ hmore
    · cases hok

/-- A listing whose path fills its field, on a server that answers. -/
theorem lsRound_overruns {srv : ConsistentServer} (h : MNTPATHLEN ≤ p.length)
    (hgo : ¬ StopsFirst target srv.toLsEnv) :
    lsRound cfg srv.toLsEnv pages depth r (oneFilehandle target fh p) = .error .unterminated := by
  obtain ⟨hfreed, hclient⟩ := not_or.1 hgo
  have hlen : (strncpy MNTPATHLEN p).length = MNTPATHLEN := List.length_take_of_le h
  have hstep : ∀ i (st : Target × LsRun), lsFilehandle cfg srv.toLsEnv pages depth i
      { fh with path := strncpy MNTPATHLEN p } st = .error .unterminated := by
    intro i st
    have hne : ¬ (cfg.listdir = false ∧ strncpy MNTPATHLEN p = []) := by
      rintro ⟨-, hnil⟩
      rw [hnil] at hlen
      exact absurd hlen (by decide)
    have hover : pathOverrun cfg srv.toLsEnv { fh with path := strncpy MNTPATHLEN p } st.2.trace.length =
        true := by
      rw [pathOverrun, srv.getattr_eq, decide_eq_true hlen.ge, Option.isSome_some, Bool.or_true]
      rfl
    unfold lsFilehandle
    rw [if_neg hne, if_pos hover]
  have hconnect : ∃ run, lsConnect srv.toLsEnv
      { target with filehandles := [{ fh with path := strncpy MNTPATHLEN p }] } {} = .ok run := by
    unfold lsConnect
    split_ifs with hc hconn
    · exact ⟨_, rfl⟩
    · exact ⟨_, rfl⟩
    · exact absurd ⟨Bool.eq_false_iff.2 hc, Bool.eq_false_iff.2 hconn⟩ hclient
  obtain ⟨run, hrun⟩ := hconnect
  unfold lsRound oneFilehandle
  rw [walk_singleton]
  refine bind_eq_error.2 (.inl (bind_eq_error.2 (.inl ?_)))
  unfold lsTarget
  rw [if_neg hfreed]
  refine bind_eq_error.2 (.inr ⟨run, hrun, bind_eq_error.2 (.inl ?_)⟩)
  rw [walk_singleton]
  exact bind_eq_error.2 (.inl (hstep _ _))

end

/-- The two rounds agree, and neither reads beyond a path. -/
structure SlashIsHint (r r' : Except Fault LsState) : Prop where
  same : SameOutcome SameState r r'
  inField : r ≠ .error .unterminated
  inField' : r' ≠ .error .unterminated

/-- **When the trailing slash is only a hint**: a round with one filehandle gives the same entries and
    prints the same paths, whether its path has a slash at the end or not, iff with the slash it
    still ends within its field, or the round stops before it looks at the path. -/
theorem lsRound_slash_iff (cfg : LsConfig) (srv : ConsistentServer) (pages depth r : ℕ) (target : Target)
    (fh : NfsFhList) (p : CString) (hne : p ≠ []) (hlast : p.getLast? ≠ some '/') :
    SlashIsHint (lsRound cfg srv.toLsEnv (pages + 1) (depth + 2) r (oneFilehandle target fh p))
        (lsRound cfg srv.toLsEnv (pages + 1) (depth + 2) r (oneFilehandle target fh (p ++ ['/']))) ↔
      p.length + 1 < MNTPATHLEN ∨ StopsFirst target srv.toLsEnv := by
  have hslash : (p ++ ['/']).length = p.length + 1 := by rw [List.length_append, List.length_singleton]
  constructor
  · intro h
    by_contra hcon
    obtain ⟨hle, hgo⟩ := not_or.1 hcon
    exact h.inField' (lsRound_overruns (by rw [hslash]; exact Nat.not_lt.1 hle) hgo)
  · rintro (hlt | hstops)
    · exact ⟨lsRound_slash cfg srv pages depth r target fh p hne hlast hlt,
        lsRound_inField (Nat.lt_of_succ_lt hlt), lsRound_inField (by rw [hslash]; exact hlt)⟩
    · obtain ⟨f, hf, hround⟩ := lsRound_stops hstops
      rw [hround, hround]
      exact ⟨rfl, fun h => hf (Except.error.inj h), fun h => hf (Except.error.inj h)⟩

/-- A server with a single file. -/
def fileServer : ConsistentServer where
  attributes _ := { type := 1 }
  listing _ := { status := NFS3ERR_NOTDIR }
  link _ := none
  getattr _ _ := some { objAttributes := { type := 1 } }
  readdirplus _ _ := some { status := NFS3ERR_NOTDIR }
  readlink _ _ := none
  getattr_eq _ _ := rfl
  readdirplus_eq _ _ := rfl
  readlink_eq _ _ := rfl
  dir _ h := absurd h (by decide)
  notdir _ _ := rfl

theorem lsRound_slash_iff_file :
    (SlashIsHint (lsRound {} fileServer.toLsEnv 1 2 0 (oneFilehandle {} { nfsFh := ⟨[1]⟩ } "/a".toList))
        (lsRound {} fileServer.toLsEnv 1 2 0 (oneFilehandle {} { nfsFh := ⟨[1]⟩ } "/a/".toList)) ↔
      "/a".toList.length + 1 < MNTPATHLEN ∨ StopsFirst {} fileServer.toLsEnv) ∧
    ∃ s, lsRound {} fileServer.toLsEnv 1 2 0 (oneFilehandle {} { nfsFh := ⟨[1]⟩ } "/a/".toList) = .ok s ∧
      jsonPaths s.trace = [.string "/a".toList] :=
  ⟨lsRound_slash_iff {} fileServer 0 0 0 {} { nfsFh := ⟨[1]⟩ } "/a".toList (by decide) (by decide),
    _, rfl, by decide⟩

/-- With a slash, a path of 1023 characters is read beyond its field. -/
theorem lsRound_slash_long : (List.replicate 1023 'a').getLast? ≠ some '/' ∧
    lsRound {} fileServer.toLsEnv 1 2 0
        (oneFilehandle {} { nfsFh := ⟨[1]⟩ } (List.replicate 1023 'a' ++ ['/'])) = .error .unterminated ∧
    ¬ SlashIsHint
      (lsRound {} fileServer.toLsEnv 1 2 0 (oneFilehandle {} { nfsFh := ⟨[1]⟩ } (List.replicate 1023 'a')))
      (lsRound {} fileServer.toLsEnv 1 2 0
        (oneFilehandle {} { nfsFh := ⟨[1]⟩ } (List.replicate 1023 'a' ++ ['/']))) := by
  have hlen : (List.replicate 1023 'a' ++ ['/']).length = MNTPATHLEN := by
    rw [List.length_append, List.length_replicate]
    rfl
  have hgo : ¬ StopsFirst {} fileServer.toLsEnv := by
    rintro (h | ⟨-, h⟩)
    · cases h
    · cases h
  have hover : lsRound {} fileServer.toLsEnv 1 2 0
      (oneFilehandle {} { nfsFh := ⟨[1]⟩ } (List.replicate 1023 'a' ++ ['/'])) = .error .unterminated :=
    lsRound_overruns hlen.ge hgo
  refine ⟨?_, hover, fun h => h.inField' hover⟩
  rw [List.getLast?_replicate]
  decide

end NFStash
