/-
  `ls.c`: listing and polling filehandles.

  `doReaddirplus` reads a directory page by page and `doGetattr` a single file; each
  calls the other when the server says that it has the wrong kind of file.  The
  nesting of these calls is bounded by a `depth`, the pages of one listing by
  `pages`.  `lsRound` is one round of `main` over all targets and filehandles.

  Replies, connection attempts and times are given by an `LsEnv`.  All that a run sends
  and prints goes to a trace, and the environment may answer by how far
  the run has got.
-/
import NFStash.Lib.Loops
import NFStash.Util

namespace NFStash

open CLib Loops

/-! ## Requests and replies -/

/-- The eight bytes of a cookie verifier. -/
abbrev CookieVerf := { v : List UInt8 // v.length = NFS3_COOKIEVERFSIZE }

/-- An empty cookie verifier. -/
def emptyverf : CookieVerf := ⟨List.replicate NFS3_COOKIEVERFSIZE 0, rfl⟩

structure Readdirplus3args where
  dir : NfsFh3
  cookie : UInt64 := 0
  cookieverf : CookieVerf := emptyverf
  dircount : UInt32 := 1024
  maxcount : UInt32 := 8192
deriving DecidableEq

/-- All but the status is there only if that is `NFS3_OK`. -/
structure Readdirplus3res where
  status : Nfsstat3 := NFS3_OK
  cookieverf : CookieVerf := emptyverf
  entries : List Entryplus3 := []
  eof : Bool := false
deriving DecidableEq

structure Getattr3res where
  status : Nfsstat3 := NFS3_OK
  objAttributes : Fattr3 := {}
deriving DecidableEq

structure Readlink3res where
  status : Nfsstat3 := NFS3_OK
  data : CString := []
deriving DecidableEq

inductive LsFormat where
  | ping
  | fping
  | longform
  | json
deriving DecidableEq

/-- `struct config`, after the options have been read. -/
structure LsConfig where
  port : UInt16 := 2049
  format : LsFormat := .json
  listdir : Bool := false
  listdot : Bool := false
  loop : Bool := false
  count : ℕ := 0
  quiet : Bool := false
deriving DecidableEq

/-- What a run does: RPCs with their replies (`none` if there is none), messages, and output. -/
inductive LsEvent where
  | connect (clientSock : Option SockaddrIn) (ok : Bool)
  | getattr (object : NfsFh3) (res : Option Getattr3res)
  | readdirplus (args : Readdirplus3args) (res : Option Readdirplus3res)
  | readlink (symlink : NfsFh3) (res : Option Readlink3res)
  /-- `clnt_perror(client, proc)` -/
  | clntPerror (proc : String)
  /-- host and path, and `nfs_perror(status, proc)` -/
  | nfsPerror (host path : CString) (status : Nfsstat3) (proc : String)
  | cookieverfChanged (host path : CString)
  | readdirplusLoop (host path : CString) (cookie : UInt64)
  | filehandle (json : List (String × JsonValue))
  | ping (host path : CString) (index usec : ℕ) (avg : Option ℚ) (sent received : ℕ)
  | longListing (targets : List Target)
deriving DecidableEq

/-- The text of the messages that are printed as such. -/
def LsEvent.text : LsEvent → Option String
  | .cookieverfChanged host path =>
    some (String.ofList host ++ ": " ++ String.ofList path ++ " cookieverf changed!\n")
  | .readdirplusLoop host path cookie =>
    some ("directory " ++ String.ofList host ++ ":" ++ String.ofList path ++
      " contains a readdirplus loop. Offending cookie: " ++ toString cookie.toNat ++ "\n")
  | _ => none

/-- What a run gets from outside.  The first argument counts the events of the run so far. -/
structure LsEnv where
  getattr : ℕ → NfsFh3 → Option Getattr3res
  readdirplus : ℕ → Readdirplus3args → Option Readdirplus3res
  readlink : ℕ → NfsFh3 → Option Readlink3res
  /-- `create_rpc_client` returns a client -/
  connect : ℕ → Bool := fun _ => true
  /-- the microseconds a listing took -/
  usec : ℕ → ℕ := fun _ => 0
  /-- there has been a SIGINT -/
  quitting : ℕ → Bool := fun _ => false

/-- The trace after a procedure, with the entries it returns and the filehandle as it leaves it. -/
abbrev LsResult := Except Fault (List Entrypluslink3 × NfsFhList) × List LsEvent

variable (cfg : LsConfig) (env : LsEnv) (host : CString)

/-! ## `do_readlink` -/

def doReadlink (path : CString) (fh : NfsFh3) (tr : List LsEvent) : Option CString × List LsEvent :=
  let res := env.readlink tr.length fh
  let tr := tr ++ [.readlink fh res]
  match res with
  | none => (none, tr ++ [.clntPerror "nfsproc3_readlink_3"])
  | some res =>
    if res.status = NFS3_OK then (some res.data, tr)
    else (none, tr ++ [.nfsPerror host path res.status "nfsproc3_readlink_3"])

/-! ## `do_getattr` -/

/-- The entry `do_getattr` makes up for a filehandle. -/
def getattrEntry (fh : NfsFhList) (attributes : Fattr3) (tr : List LsEvent) :
    Entrypluslink3 × List LsEvent :=
  let base := basename (strncpy MNTPATHLEN fh.path)
  let (name, symlink, tr) :=
    if attributes.type = NF3DIR then (base ++ ['/'], none, tr)
    else if attributes.type = NF3LNK then
      let (symlink, tr) := doReadlink env host fh.path fh.nfsFh tr
      (base, symlink, tr)
    else (base, none, tr)
  ({ fileid := attributes.fileid
     name
     nameAttributes := some attributes
     nameHandle := some fh.nfsFh
     symlink }, tr)

/-- `do_getattr`, where `doReaddirplus` is the other procedure. -/
def getattrBody (doReaddirplus : NfsFhList → List LsEvent → LsResult) (fh : NfsFhList)
    (tr : List LsEvent) : LsResult :=
  let res := env.getattr tr.length fh.nfsFh
  let tr := tr ++ [.getattr fh.nfsFh res]
  match res with
  | none => (.ok ([], fh), tr ++ [.clntPerror "nfsproc3_getattr_3"])
  | some res =>
    if res.status = NFS3_OK then
      if res.objAttributes.type = NF3DIR ∧ cfg.listdir = false then doReaddirplus fh tr
      else
        let (entry, tr) := getattrEntry env host fh res.objAttributes tr
        (.ok ([entry], { fh with path := strncpy MNTPATHLEN (dirname fh.path) }), tr)
    else (.ok ([], fh), tr ++ [.nfsPerror host fh.path res.status "nfsproc3_getattr_3"])

/-! ## `do_readdirplus` -/

/-- The check of the cookie verifier: the one kept, and the warning. -/
def checkCookieverf (path : CString) (kept sent : CookieVerf) : CookieVerf × List LsEvent :=
  -- as in the source, the third argument is the value of a comparison, and no byte is compared
  if memcmpNe kept.val emptyverf.val (if NFS3_COOKIEVERFSIZE = 0 then 1 else 0) then
    if memcmpNe sent.val emptyverf.val NFS3_COOKIEVERFSIZE then (sent, []) else (kept, [])
  else if memcmpNe kept.val sent.val NFS3_COOKIEVERFSIZE then (kept, [.cookieverfChanged host path])
  else (kept, [])

/-- A hidden file is skipped. -/
def hidden (e : Entryplus3) : Bool := !cfg.listdot && e.name.head? = some '.'

/-- The entry that is added to the list for an entry of a reply. -/
def copyEntry (path : CString) (e : Entryplus3) (tr : List LsEvent) : Entrypluslink3 × List LsEvent :=
  if e.attributes.type = NF3DIR then ({ e with name := e.name ++ ['/'] }, tr)
  else if e.attributes.type = NF3LNK then
    let (symlink, tr) := doReadlink env host path e.handle tr
    ({ e with symlink }, tr)
  else ({ e with }, tr)

/-- The state of the loop over the entries of a reply; `loop` is set when a cookie does not
    increase. -/
structure Page where
  cookie : UInt64
  entries : List Entrypluslink3
  loop : Bool := false
  trace : List LsEvent

def readEntries (path : CString) : List Entryplus3 → Page → Page
  | [], page => page
  | e :: es, page =>
    if hidden cfg e then readEntries path es page
    else
      let (entry, trace) := copyEntry env host path e page.trace
      let entries := page.entries ++ [entry]
      if page.cookie < e.cookie then
        readEntries path es { page with cookie := e.cookie, entries, trace }
      else { page with entries, loop := true, trace := trace ++ [.readdirplusLoop host path e.cookie] }

/-- `do_readdirplus` from a request on, where `doGetattr` is the other procedure. -/
def readdirplusLoop (doGetattr : NfsFhList → List LsEvent → LsResult) (fh : NfsFhList) :
    ℕ → Readdirplus3args → List Entrypluslink3 → List LsEvent → LsResult
  | 0, _, _, tr => (.error .fuel, tr)
  | pages + 1, args, entries, tr =>
    let res := env.readdirplus tr.length args
    let tr := tr ++ [.readdirplus args res]
    match res with
    | none => (.ok (entries, fh), tr ++ [.clntPerror "nfsproc3_readdirplus_3"])
    | some res =>
      if res.status = NFS3_OK then
        let (_, warning) := checkCookieverf host fh.path args.cookieverf res.cookieverf
        let page := readEntries cfg env host fh.path res.entries
          { cookie := args.cookie, entries, trace := tr ++ warning }
        if res.eof || page.loop then (.ok (page.entries, fh), page.trace)
        else
          readdirplusLoop doGetattr fh pages
            { args with cookie := page.cookie, cookieverf := res.cookieverf } page.entries page.trace
      else if res.status = NFS3ERR_NOTDIR then
        match doGetattr fh tr with
        | (.error f, tr) => (.error f, tr)
        | (.ok (es, fh), tr) => (.ok (entries ++ es, fh), tr)
      else (.ok (entries, fh), tr ++ [.nfsPerror host fh.path res.status "nfsproc3_readdirplus_3"])

/-- The first request for a directory. -/
def firstArgs (fh : NfsFhList) : Readdirplus3args := { dir := fh.nfsFh }

variable (pages : ℕ)

mutual

def doGetattr : ℕ → NfsFhList → List LsEvent → LsResult
  | 0 => fun _ tr => (.error .depth, tr)
  | depth + 1 => getattrBody cfg env host (doReaddirplus depth)

def doReaddirplus : ℕ → NfsFhList → List LsEvent → LsResult
  | 0 => fun _ tr => (.error .depth, tr)
  | depth + 1 => fun fh tr =>
    readdirplusLoop cfg env host (doGetattr depth) fh pages (firstArgs fh) [] tr

end

/-! ## Output -/

/-- The path `print_entrypluslink3` prints for an entry called `name`. -/
def joinPath (path name : CString) : CString :=
  if path.getLast? = some '/' then path ++ name else path ++ '/' :: name

/-- The JSON object `print_entrypluslink3` prints. -/
def printEntrypluslink3 (entryplus : Entrypluslink3) (ipAddress path : CString) (usec : ℕ) :
    List (String × JsonValue) :=
  [("host", .string host), ("ip", .string ipAddress),
    ("path", .string (joinPath path entryplus.name)), ("usec", .number usec),
    ("filehandle", .string (nfsFh3ToString entryplus.handle)),
    ("cookie", .string (toString entryplus.cookie.toNat).toList)] ++
  match entryplus.nameAttributes with
  | some attributes =>
    [("size", .number attributes.size.toNat), ("used", .number attributes.used.toNat),
      ("nlink", .number attributes.nlink.toNat), ("fsid", .number attributes.fsid.toNat),
      ("fileid", .number attributes.fileid.toNat), ("uid", .number attributes.uid.toNat),
      ("gid", .number attributes.gid.toNat)]
  | none => []

/-- `print_filehandles`: an entry without a filehandle is not printed. -/
def printFilehandles (target : Target) (fh : NfsFhList) (usec : ℕ) : List LsEvent :=
  (fh.entries.filter fun e => e.handle.data ≠ []).map fun e =>
    .filehandle (printEntrypluslink3 target.name e target.ipAddress fh.path usec)

/-! ## `main` -/

/-- The procedure `main` calls for a filehandle. -/
inductive LsProc where
  | getattr
  | readdirplus
deriving DecidableEq

/-- A path with a trailing slash is listed, any other one may be that of a file. -/
def chooseProc (path : CString) : LsProc :=
  if cfg.listdir ∨ path.getLast? ≠ some '/' then .getattr else .readdirplus

def LsProc.call (depth : ℕ) : LsProc → NfsFhList → List LsEvent → LsResult
  | .getattr => doGetattr cfg env host pages depth
  | .readdirplus => doReaddirplus cfg env host pages depth

/-- The variables of `main`; `more` is the outcome of the test for another round. -/
structure LsRun where
  trace : List LsEvent := []
  lsSent : ℕ := 0
  lsOk : ℕ := 0

structure LsState extends LsRun where
  targets : List Target
  more : Bool := true

/-- The counters after a listing. -/
def Stats.count (s : Stats) (ok : Bool) : Stats :=
  { s with sent := wrap64 (s.sent + 1), received := if ok then wrap64 (s.received + 1) else s.received }

/-- The counters of a target after a listing have 32 bits. -/
def Target.count (t : Target) (ok : Bool) : Target :=
  { t with sent := wrap32 (t.sent + 1), received := if ok then wrap32 (t.received + 1) else t.received }

/-- The output for a listing. -/
def lsOutput (target : Target) (fh : NfsFhList) (usec : ℕ) : List LsEvent :=
  if cfg.format = .json then printFilehandles target fh usec
  else if !cfg.quiet ∧ (cfg.format = .ping ∨ cfg.format = .fping) then
    [.ping target.name fh.path (wrap64 (fh.sent + ULONG_MAX)) usec fh.avg fh.sent fh.received]
  else []

variable (depth : ℕ)

/-- The time of a listing is stored for the summary or the long listing. -/
def lsStore (stats : Stats) (usec : ℕ) : Except Fault Stats :=
  if cfg.format = .fping ∨ cfg.format = .longform then stats.store usec else .ok stats

/-- The part of the loop body after a listing, which returned `entries`. -/
def lsRecord (entries : List Entrypluslink3) (fh : NfsFhList) (target : Target) (run : LsRun) :
    Except Fault (NfsFhList × Target × LsRun) := do
  let usec := env.usec run.trace.length
  let ok := !entries.isEmpty
  let fh := { fh with toStats := (fh.toStats.count ok).time usec, entries }
  let target := target.count ok
  let stats ← lsStore cfg fh.toStats usec
  .ok ({ fh with toStats := stats }, target,
    { trace := run.trace ++ lsOutput cfg target fh usec
      lsSent := wrap64 (run.lsSent + 1)
      lsOk := if ok then wrap64 (run.lsOk + 1) else run.lsOk })

/-- A path that fills its field has no terminator.  Its length is asked for, or, with `-d`, `do_getattr` takes
    it apart or prints it once there is a reply. -/
def pathOverrun (fh : NfsFhList) (events : ℕ) : Bool :=
  MNTPATHLEN ≤ fh.path.length && (!cfg.listdir || (env.getattr events fh.nfsFh).isSome)

/-- A path that ends within its field. -/
theorem pathOverrun_of_lt {cfg : LsConfig} {env : LsEnv} {fh : NfsFhList} {n : ℕ} (h : fh.path.length < MNTPATHLEN) :
    pathOverrun cfg env fh n = false := by
  rw [pathOverrun, decide_eq_false (Nat.not_le.2 h), Bool.false_and]

/-- The body of the loop over the filehandles of a target. -/
def lsFilehandle (_ : ℕ) (fh : NfsFhList) (s : Target × LsRun) :
    Except Fault (NfsFhList × Target × LsRun) :=
  -- the last character of an empty path is looked for in front of it
  if cfg.listdir = false ∧ fh.path = [] then .error .outOfBounds
  else if pathOverrun cfg env fh s.2.trace.length then .error .unterminated
  else match (chooseProc cfg fh.path).call cfg env s.1.name pages depth fh s.2.trace with
    | (.error f, _) => .error f
    | (.ok (entries, fh), trace) => lsRecord cfg env entries fh s.1 { s.2 with trace }

/-- The client of a target; a new one is used before it is checked. -/
def lsConnect (target : Target) (run : LsRun) : Except Fault LsRun :=
  if target.client then .ok run
  else if env.connect run.trace.length then
    .ok { run with trace := run.trace ++ [.connect target.clientSock true] }
  else .error .nullDeref

/-- The body of the loop over the targets. -/
def lsTarget (_ : ℕ) (target : Target) (run : LsRun) : Except Fault (Target × LsRun) :=
  if target.freed then .error .useAfterFree
  else do
    let run ← lsConnect env target run
    let (filehandles, target, run) ← walk (lsFilehandle cfg env pages depth) 0 target.filehandles
      ({ target with client := true }, run)
    .ok ({ target with filehandles }, run)

/-- The test for another round: it looks at the first filehandle of the first target. -/
def lsMore (targets : List Target) (events : ℕ) : Except Fault Bool :=
  if env.quitting events then .ok false
  else if cfg.loop then .ok true
  else if cfg.count = 0 then .ok false
  else match targets with
    | [] => .error .nullDeref
    | target :: _ => match target.filehandles with
      | [] => .error .nullDeref
      | fh :: _ => .ok (decide (fh.sent < cfg.count))

/-- One round of the main loop.  `print_long_listing` is only an event here: where an owner or a group has no
    name it crashes (`LongListing`), and the program ends there without a status. -/
def lsRound (_ : ℕ) (s : LsState) : Except Fault LsState := do
  let (targets, run) ← walk (lsTarget cfg env pages depth) 0 s.targets s.toLsRun
  let trace := run.trace ++ if cfg.format = .longform then [.longListing targets] else []
  let more ← lsMore cfg env targets trace.length
  .ok { run with trace, targets, more }

/-- `main`, after the options: the number of rounds and the final state, if the rounds end. -/
def lsMain (lookup : CString → String → Option CString) (junk : ℕ → UInt8) (inputs : List CString)
    (fuel : ℕ) : Except Fault (Option (ℕ × LsState)) := do
  -- without output from them there are no results
  let count := if cfg.format = .fping ∨ cfg.format = .longform then cfg.count else 0
  let targets ← parseLines lookup junk cfg.port count dummyTargets inputs
  poll (lsRound cfg env pages depth) (fun _ s => s.more) fuel 0 { targets := targets.tail }

/-! ## What the procedures fail with -/

section
variable {nested : NfsFhList → List LsEvent → LsResult} {fh : NfsFhList} {e : Fault}

/-- `do_getattr` itself does not fail. -/
theorem getattrBody_ne_error (hn : ∀ tr, (nested fh tr).1 ≠ .error e) (tr : List LsEvent) :
    (getattrBody cfg env host nested fh tr).1 ≠ .error e := by
  unfold getattrBody
  cases env.getattr tr.length fh.nfsFh with
  | none => simp
  | some res =>
    dsimp only
    split_ifs
    · exact hn _
    · simp
    · simp

/-- `do_readdirplus` itself can run out of pages. -/
theorem readdirplusLoop_ne_error (he : e ≠ .fuel) (hn : ∀ tr, (nested fh tr).1 ≠ .error e) (pages : ℕ)
    (args : Readdirplus3args) (entries : List Entrypluslink3) (tr : List LsEvent) :
    (readdirplusLoop cfg env host nested fh pages args entries tr).1 ≠ .error e := by
  induction pages generalizing args entries tr with
  | zero => exact fun h => he (Except.error.inj h).symm
  | succ pages ih =>
    rw [readdirplusLoop]
    cases env.readdirplus tr.length args with
    | none => simp
    | some res =>
      dsimp only
      split_ifs
      · simp
      · exact ih _ _ _
      · generalize hq : nested fh _ = q
        have hq' : q.1 ≠ .error e := hq ▸ hn _
        rcases q with ⟨f | ⟨es, fh'⟩, tr'⟩
        · exact hq'
        · simp
      · simp

/-- A call runs out of pages or of depth. -/
theorem call_ne_error (hf : e ≠ .fuel) (hd : e ≠ .depth) (proc : LsProc)
    (tr : List LsEvent) : (proc.call cfg env host pages depth fh tr).1 ≠ .error e := by
  suffices h : ∀ tr, (doGetattr cfg env host pages depth fh tr).1 ≠ .error e ∧
      (doReaddirplus cfg env host pages depth fh tr).1 ≠ .error e by
    cases proc with
    | getattr => exact (h tr).1
    | readdirplus => exact (h tr).2
  induction depth with
  | zero => exact fun _ => ⟨fun h => hd (Except.error.inj h).symm, fun h => hd (Except.error.inj h).symm⟩
  | succ depth ih =>
    exact fun tr => ⟨getattrBody_ne_error cfg env host (fun tr => (ih tr).2) tr,
      readdirplusLoop_ne_error cfg env host hf (fun tr => (ih tr).1) pages _ _ tr⟩

end

/-! ## What the loops do -/

section
variable {cfg env pages depth} {fh fh' : NfsFhList} {st st' : Target × LsRun} {t t' : Target}
  {run run' : LsRun} {s s' : LsState} {i : ℕ}

/-- **One listing**: the procedure chosen for the path returns, and what it returns is recorded. -/
theorem lsFilehandle_ok (h : lsFilehandle cfg env pages depth i fh st = .ok (fh', st')) :
    ∃ es fh'' tr stats,
      (chooseProc cfg fh.path).call cfg env st.1.name pages depth fh st.2.trace = (.ok (es, fh''), tr) ∧
      lsStore cfg ((fh''.toStats.count !es.isEmpty).time (env.usec tr.length)) (env.usec tr.length) =
        .ok stats ∧
      fh' = { fh'' with toStats := stats, entries := es } ∧ st'.1 = st.1.count !es.isEmpty ∧
      st'.2.trace = tr ++ lsOutput cfg (st.1.count !es.isEmpty)
        { fh'' with toStats := (fh''.toStats.count !es.isEmpty).time (env.usec tr.length), entries := es }
        (env.usec tr.length) ∧
      st'.2.lsSent = wrap64 (st.2.lsSent + 1) ∧
      st'.2.lsOk = if !es.isEmpty then wrap64 (st.2.lsOk + 1) else st.2.lsOk := by
  unfold lsFilehandle at h
  split_ifs at h
  generalize LsProc.call _ _ _ _ _ _ _ _ = r at h ⊢
  rcases r with ⟨f | ⟨es, fh''⟩, tr⟩
  · cases h
  · simp only [lsRecord, bind_eq_ok] at h
    obtain ⟨stats, hstats, h⟩ := h
    cases h
    exact ⟨es, fh'', tr, stats, rfl, hstats, rfl, rfl, rfl, rfl, rfl⟩

/-- **One target** is connected to, and its filehandles are walked. -/
theorem lsTarget_ok (h : lsTarget cfg env pages depth i t run = .ok (t', run')) :
    ∃ run₁ fhs target, lsConnect env t run = .ok run₁ ∧
      walk (lsFilehandle cfg env pages depth) 0 t.filehandles ({ t with client := true }, run₁) =
        .ok (fhs, target, run') ∧
      t' = { target with filehandles := fhs } := by
  unfold lsTarget at h
  split_ifs at h
  simp only [bind_eq_ok] at h
  obtain ⟨run₁, hconn, ⟨fhs, target, run₂⟩, hw, h⟩ := h
  cases h
  exact ⟨run₁, fhs, target, hconn, hw, rfl⟩

/-- Connecting counts nothing. -/
theorem lsConnect_ok (h : lsConnect env t run = .ok run') :
    run' = run ∨ run' = { run with trace := run.trace ++ [.connect t.clientSock true] } := by
  unfold lsConnect at h
  split_ifs at h
  · exact .inl (Except.ok.inj h).symm
  · exact .inr (Except.ok.inj h).symm

/-- **One round** walks over the targets. -/
theorem lsRound_ok (h : lsRound cfg env pages depth i s = .ok s') :
    ∃ targets run more, walk (lsTarget cfg env pages depth) 0 s.targets s.toLsRun = .ok (targets, run) ∧
      lsMore cfg env targets s'.trace.length = .ok more ∧
      s' = { run with
        trace := run.trace ++ if cfg.format = .longform then [.longListing targets] else []
        targets, more } := by
  unfold lsRound at h
  simp only [bind_eq_ok] at h
  obtain ⟨⟨targets, run⟩, hw, more, hmore, h⟩ := h
  cases h
  exact ⟨targets, run, more, hw, hmore, rfl⟩

end

end NFStash
