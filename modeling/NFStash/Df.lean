/-
  `df.c`: the usage of filesystems.

  `dfRound` is one round of the main loop: a FSSTAT request for every filehandle of every target, a
  line for each reply that is `NFS3_OK`, and the header once for each screen.  `dfMain` is the whole
  program after its options.

  What comes from outside is a function of the place where it is asked for: the round, the
  target and the filehandle.
-/
import NFStash.Lib.Loops
import NFStash.MakeTarget

namespace NFStash

open CLib Loops

/-! ## Configuration and replies -/

inductive DfFormat where
  | ping
  | graphite
deriving DecidableEq

/-- `struct config`, after the options have been read. -/
structure DfConfig where
  port : UInt16 := 2049
  count : ℕ := 0
  loop : Bool := false
  format : DfFormat := .ping
  bytePrefix : BytePrefix := .human
  inodes : Bool := false
  displayIps : Bool := false
  oneHeader : Bool := false
  outputPrefix : CString := "nfs".toList
deriving DecidableEq

/-- All but the status is there only if that is `NFS3_OK`. -/
structure Fsstat3res where
  status : Nfsstat3 := NFS3_OK
  tbytes : UInt64 := 0
  fbytes : UInt64 := 0
  tfiles : UInt64 := 0
  ffiles : UInt64 := 0
deriving DecidableEq

/-- What a run gets from outside. -/
structure DfEnv where
  /-- the reply to a FSSTAT request, if there is one -/
  fsstat : ℕ → ℕ → ℕ → Option Fsstat3res
  /-- `create_rpc_client` returns a client -/
  connect : ℕ → ℕ → Bool := fun _ _ => true
  /-- the microseconds a request took -/
  usec : ℕ → ℕ → ℕ → ℕ := fun _ _ _ => 0
  /-- the seconds of the wall clock -/
  wallClock : ℕ → ℕ → ℕ → ℕ := fun _ _ _ => 0
  /-- `ws_row` at the start of a round -/
  rows : ℕ → UInt16 := fun _ => 24
  /-- there has been a SIGINT by the end of a round -/
  quitting : ℕ → Bool := fun _ => false

/-- A line on stdout.  The columns of `df` are the host, the offset and the path, the total, used and
    free bytes, the used and free inodes, and the time; those of `inodes` have the total number of
    inodes in place of the bytes. -/
inductive DfLine where
  | df (host : CString) (offset : ℕ) (path total used avail : CString) (iused ifree : UInt64) (usec : ℕ)
  | inodes (host : CString) (offset : ℕ) (path : CString) (inodes iused ifree : UInt64) (usec : ℕ)
  | graphite (outputPrefix : CString) (ndqf : Ndqf) (path : CString) (metric : String) (value now : ℕ)
deriving DecidableEq

/-- What a run does. -/
inductive DfEvent where
  | header (maxhost maxpath : ℕ)
  | connect (round target : ℕ) (ok : Bool)
  | fsstat (round target filehandle : ℕ) (object : NfsFh3)
  /-- host and path, and `clnt_perror(client, proc)` -/
  | clntPerror (host path : CString) (proc : String)
  /-- host and path, and the text of `nfs_perror(status, proc)` -/
  | nfsPerror (host path : CString) (proc : String) (text : Option String)
  | output (line : DfLine)
deriving DecidableEq

/-- The variables of `main`. -/
structure DfRun where
  trace : List DfEvent := []
  dfSent : ℕ := 0
  dfOk : ℕ := 0
  maxhost : ℕ := 0
  maxpath : ℕ := 0

def DfRun.emit (run : DfRun) (event : DfEvent) : DfRun := { run with trace := run.trace ++ [event] }

structure DfState extends DfRun where
  targets : List Target
  more : Bool := true

/-! ## Sizes -/

/-- The shift for a unit. -/
def BytePrefix.shift : BytePrefix → ℕ
  | .byte => 0
  | .kilo => 10
  | .mega => 20
  | .giga => 30
  | .tera => 40
  | .human => 99

/-- The largest unit of which there are ten. -/
def bestPrefix (input : UInt64) : Option ℕ :=
  [60, 50, 40, 30, 20, 10, 0].find? fun n => 10 ≤ input.toNat >>> n

/-- `prefix_label`; bytes have none. -/
def prefixLabel : ℕ → CString
  | 10 => "K".toList
  | 20 => "M".toList
  | 30 => "G".toList
  | 40 => "T".toList
  | 50 => "P".toList
  | 60 => "E".toList
  | _ => []

/-- `prefix_print`: a number that is not zero but is printed as such has a `>` in front of it. -/
def prefixPrint (input : UInt64) (bytePrefix : BytePrefix) : CString :=
  if bytePrefix = .human then
    let shift := (bestPrefix input).getD 0
    (toString (input.toNat >>> shift)).toList ++ prefixLabel shift
  else
    let shifted := input.toNat >>> bytePrefix.shift
    (if input ≠ 0 ∧ shifted = 0 then ['>'] else []) ++ (toString shifted).toList

/-! ## FSSTAT -/

def NFS3ERR_REMOTE : Nfsstat3 := 71
def NFS3ERR_JUKEBOX : Nfsstat3 := 10008

/-- `labels_low`, where there are labels. -/
def labelLow : ℕ → Option String
  | 1 => some "NFS3ERR_PERM"
  | 2 => some "NFS3ERR_NOENT"
  | 5 => some "NFS3ERR_IO"
  | 6 => some "NFS3ERR_NXIO"
  | 13 => some "NFS3ERR_ACCES"
  | 17 => some "NFS3ERR_EXIST"
  | 18 => some "NFS3ERR_XDEV"
  | 19 => some "NFS3ERR_NODEV"
  | 20 => some "NFS3ERR_NOTDIR"
  | 21 => some "NFS3ERR_ISDIR"
  | 22 => some "NFS3ERR_INVAL"
  | 27 => some "NFS3ERR_FBIG"
  | 28 => some "NFS3ERR_NOSPC"
  | 30 => some "NFS3ERR_ROFS"
  | 31 => some "NFS3ERR_MLINK"
  | 63 => some "NFS3ERR_NAMETOOLONG"
  | 66 => some "NFS3ERR_NOTEMPTY"
  | 69 => some "NFS3ERR_DQUOT"
  | 70 => some "NFS3ERR_STALE"
  | 71 => some "NFS3ERR_REMOTE"
  | _ => none

/-- `labels_high`, by the difference to 10000. -/
def labelHigh : ℕ → Option String
  | 1 => some "NFS3ERR_BADHANDLE"
  | 2 => some "NFS3ERR_NOT_SYNC"
  | 3 => some "NFS3ERR_BAD_COOKIE"
  | 4 => some "NFS3ERR_NOTSUPP"
  | 5 => some "NFS3ERR_TOOSMALL"
  | 6 => some "NFS3ERR_SERVERFAULT"
  | 7 => some "NFS3ERR_BADTYPE"
  | 8 => some "NFS3ERR_JUKEBOX"
  | _ => none

/-- The text of `nfs_perror`, if there is one; the null pointers between the lower labels are read. -/
def nfsPerror (status : Nfsstat3) : Except Fault (Option String) :=
  if status = NFS3_OK then .ok none
  else if status > 10000 then
    .ok (if status > NFS3ERR_JUKEBOX then some "UNKNOWN" else labelHigh (status.toNat - 10000))
  else if status > NFS3ERR_REMOTE then .ok (some "UNKNOWN")
  else match labelLow status.toNat with
    | none => .error .nullDeref
    | some label => .ok (some label)

section
variable (cfg : DfConfig) (env : DfEnv)

/-- `get_fsstat`. -/
def getFsstat (r j k : ℕ) (host : CString) (fs : NfsFhList) (run : DfRun) :
    Except Fault (Option Fsstat3res × DfRun) :=
  let run := run.emit (.fsstat r j k fs.nfsFh)
  match env.fsstat r j k with
  | none => .ok (none, run.emit (.clntPerror host fs.path "nfsproc3_fsstat_3"))
  | some res =>
    if res.status = NFS3_OK then .ok (some res, run)
    else do
      let text ← nfsPerror res.status
      .ok (some res, run.emit (.nfsPerror host fs.path "nfsproc3_fsstat_3" text))

/-! ## Output -/

/-- `print_header`. -/
def printHeader (run : DfRun) : DfRun :=
  if cfg.format = .ping then run.emit (.header run.maxhost run.maxpath) else run

/-- The host that is printed. -/
def dfHost (target : Target) : CString := if cfg.displayIps then target.ipAddress else target.name

/-- `print_df`, for a reply that is `NFS3_OK`. -/
def printDf (offset : ℕ) (host path : CString) (res : Fsstat3res) (usec : ℕ) : DfLine :=
  .df host offset path (prefixPrint res.tbytes cfg.bytePrefix)
    (prefixPrint (res.tbytes - res.fbytes) cfg.bytePrefix) (prefixPrint res.fbytes cfg.bytePrefix)
    (res.tfiles - res.ffiles) res.ffiles usec

/-- `print_inodes`. -/
def printInodes (offset : ℕ) (host path : CString) (res : Fsstat3res) (usec : ℕ) : DfLine :=
  .inodes host offset path res.tfiles (res.tfiles - res.ffiles) res.ffiles usec

/-- `replace_char` for all the bad characters of a path. -/
def replaceChars (path : CString) : CString :=
  path.map fun c => if c = ' ' ∨ c = '.' ∨ c = '-' ∨ c = '/' then '_' else c

/-- `print_format`. -/
def printFormat (ndqf : Ndqf) (path : CString) (res : Fsstat3res) (usec now : ℕ) : List DfLine :=
  [("tbytes", res.tbytes.toNat), ("fbytes", res.fbytes.toNat), ("tfiles", res.tfiles.toNat),
    ("ffiles", res.ffiles.toNat), ("usec", usec)].map fun (metric, value) =>
    .graphite cfg.outputPrefix ndqf (replaceChars path) metric value now

/-- The lines for a reply. -/
def dfLines (target : Target) (fh : NfsFhList) (res : Fsstat3res) (maxpath usec now : ℕ) :
    List DfLine :=
  match cfg.format with
  | .ping =>
    if cfg.inodes then [printInodes maxpath (dfHost cfg target) fh.path res usec]
    else [printDf cfg maxpath (dfHost cfg target) fh.path res usec]
  | .graphite => printFormat cfg target.ndqf fh.path res usec now

/-! ## Rounds -/

/-- The header is printed once per screen. -/
def dfScreen (r : ℕ) (run : DfRun) : Except Fault DfRun :=
  if cfg.oneHeader then .ok run
  else if env.rows r = 0 then .error .divisionByZero
  else .ok (if run.dfOk % (env.rows r).toNat = 0 then printHeader cfg run else run)

/-- After a reply that is `NFS3_OK`. -/
def dfSuccess (r j k : ℕ) (fh : NfsFhList) (res : Fsstat3res) (target : Target) (run : DfRun) :
    Except Fault (Target × DfRun) := do
  let run := { run with dfOk := wrap64 (run.dfOk + 1) }
  let target := { target with received := wrap32 (target.received + 1) }
  let run ← dfScreen cfg env r run
  let lines := dfLines cfg target fh res run.maxpath (env.usec r j k) (env.wallClock r j k)
  .ok (target, { run with trace := run.trace ++ lines.map .output })

/-- After a reply, if there is one. -/
def dfRecord (r j k : ℕ) (fh : NfsFhList) (res : Option Fsstat3res) (target : Target) (run : DfRun) :
    Except Fault (Target × DfRun) :=
  match res with
  | some res =>
    if res.status = NFS3_OK then dfSuccess cfg env r j k fh res target run else .ok (target, run)
  | none => .ok (target, run)

/-- `xdr_free`, which reads what it frees. -/
def xdrFree (res : Option Fsstat3res) : Except Fault Unit :=
  if res.isSome then .ok () else .error .nullDeref

/-- The body of the loop over the filehandles of a target. -/
def dfFilehandle (r j k : ℕ) (fh : NfsFhList) (s : Target × DfRun) :
    Except Fault (NfsFhList × Target × DfRun) := do
  let (res, run) ← getFsstat env r j k s.1.name fh s.2
  let run := { run with dfSent := wrap64 (run.dfSent + 1) }
  let fh := { fh with sent := wrap64 (fh.sent + 1) }
  let s ← dfRecord cfg env r j k fh res s.1 run
  xdrFree res
  .ok (fh, s)

/-- The client of a target; a new one is used before it is checked. -/
def dfConnect (r j : ℕ) (target : Target) (run : DfRun) : Except Fault DfRun :=
  if target.client then .ok run
  else if env.connect r j then .ok (run.emit (.connect r j true))
  else .error .nullDeref

/-- The body of the loop over the targets, in round `r`. -/
def dfTarget (r j : ℕ) (target : Target) (run : DfRun) : Except Fault (Target × DfRun) :=
  if target.freed then .error .useAfterFree
  else do
    let run ← dfConnect env r j target run
    let (filehandles, target, run) ← walk (dfFilehandle cfg env r j) 0 target.filehandles
      ({ target with client := true }, run)
    .ok ({ target with filehandles }, run)

/-- The test for another round: it looks at the first filehandle of the first target. -/
def dfMore (r : ℕ) (targets : List Target) : Except Fault Bool :=
  if env.quitting r then .ok false
  else if cfg.loop then .ok true
  else if cfg.count = 0 then .ok false
  else match targets with
    | [] => .error .nullDeref
    | target :: _ => match target.filehandles with
      | [] => .error .nullDeref
      | fh :: _ => .ok (decide (fh.sent < cfg.count))

/-- One round of the main loop. -/
def dfRound (r : ℕ) (s : DfState) : Except Fault DfState := do
  let (targets, run) ← walk (dfTarget cfg env r) 0 s.targets s.toDfRun
  let more ← dfMore cfg env r targets
  .ok { run with targets, more }

/-! ## `main` -/

/-- The longest host and path; the path is that of the first filehandle of the target. -/
def dfWidths (current : Target) (run : DfRun) : Except Fault DfRun :=
  match current.filehandles with
  | [] => .error .nullDeref
  | fh :: _ => .ok { run with
      maxhost := max run.maxhost (dfHost cfg current).length
      maxpath := max run.maxpath fh.path.length }

/-- A line that is rejected has no target. -/
def dfCurrent (head : List Target) (run : DfRun) : Except ParseFhError ℕ → Except Fault DfRun
  | .error _ => .ok run
  | .ok i => match head[i]? with
    | none => .error .nullDeref
    | some current => dfWidths cfg current run

/-- The loop over the lines of the input. -/
def dfInput (lookup : CString → String → Option CString) (junk : ℕ → UInt8) :
    List Target → DfRun → List CString → Except Fault (List Target × DfRun)
  | head, run, [] => .ok (head, run)
  | head, run, input :: inputs => do
    let (current, head) ← parseFh lookup junk head input cfg.port 0
    let run ← dfCurrent cfg head run current
    dfInput lookup junk head run inputs

/-- The targets and variables before the first round. -/
def dfStart (lookup : CString → String → Option CString) (junk : ℕ → UInt8) (inputs : List CString) :
    Except Fault DfState := do
  let (targets, run) ← dfInput cfg lookup junk dummyTargets {} inputs
  .ok { printHeader cfg run with targets := targets.tail }

/-- The exit status. -/
def dfStatus (run : DfRun) : ℕ := if run.dfSent ≠ 0 ∧ run.dfSent = run.dfOk then 0 else 1

/-- `main`, after the options: the exit status and the final state, if the rounds end. -/
def dfMain (lookup : CString → String → Option CString) (junk : ℕ → UInt8) (inputs : List CString)
    (fuel : ℕ) : Except Fault (Option (ℕ × DfState)) := do
  let s ← dfStart cfg lookup junk inputs
  let ended ← poll (dfRound cfg env) (fun _ s => s.more) fuel 0 s
  .ok (ended.map fun (_, s) => (dfStatus s.toDfRun, s))

end

end NFStash
