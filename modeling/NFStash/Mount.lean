/-
  `mount.c`: mounting exports in rounds.

  `mountArgs` is the loop over the arguments, which gives every target one export or none;
  `listExports` asks the servers for the exports of the others.  `mountRound` is one round
  of the main loop over all targets, `mountMain` the whole program after its options.
  Every export has its own counters and results, but the test for another round
  (`mountMore`) looks at the first export of the first target only.

  What comes from outside is a function of the place where it is asked for: the round,
  the target and the export.
-/
import NFStash.Lib.Loops
import NFStash.Util

namespace NFStash

open CLib Loops

/-! ## Configuration and replies -/

inductive MountFormat where
  | ping
  | fping
  | unixtime
  | json
  | graphite
  | statsd
  | showmount
deriving DecidableEq

/-- The versions of the protocol that `-V` accepts. -/
inductive MountVersion where
  | v1
  | v2
  | v3
deriving DecidableEq

/-- `export_dispatch[version].version`: the version of the filehandles. -/
def MountVersion.version : MountVersion → ℕ
  | .v1 => 2
  | .v2 => 2
  | .v3 => 3

/-- `export_dispatch[version].protocol`. -/
def MountVersion.protocol : MountVersion → String
  | .v1 => "mountv1"
  | .v2 => "mountv2"
  | .v3 => "mountv3"

/-- The configuration, after the options have been read. -/
structure MountConfig where
  format : MountFormat := .json
  namePrefix : String := "nfsmount"
  version : MountVersion := .v3
  count : ℕ := 0
  port : UInt16 := 0
  dns : Bool := false
  ip : Bool := false
  loop : Bool := false
  multiple : Bool := false
  quiet : Bool := false
  reconnect : Bool := true
  unmount : Bool := true
deriving DecidableEq

/-- `FHSIZE`: the bytes in a filehandle of versions 1 and 2. -/
def FHSIZE : ℕ := 32

/-- `fhandle3`: XDR rejects longer ones. -/
structure Fhandle3 where
  data : List UInt8
  bound : data.length ≤ FHSIZE3
deriving DecidableEq

/-- `fhstatus`, of versions 1 and 2. -/
structure Fhstatus where
  fhsStatus : UInt32
  fhsFhandle : Vector UInt8 FHSIZE
deriving DecidableEq

/-- `mountres3`: without `MNT3_OK` the handle and the list are zeroed memory. -/
structure Mountres3 where
  fhsStatus : UInt32 := 0
  fhandle : Fhandle3 := ⟨[], by decide⟩
  authFlavors : List UInt32 := []
deriving DecidableEq

def MNT3_OK : UInt32 := 0
def MNT3ERR_ACCES : UInt32 := 13
def MNT3ERR_SERVERFAULT : UInt32 := 10006
def AUTH_SYS : UInt32 := 1

/-- An entry of an EXPORT reply. -/
structure Exportnode where
  exDir : CString
  exGroups : List CString := []
deriving DecidableEq

/-- The streams the program prints to. -/
inductive Stream where
  | stdout
  | stderr
deriving DecidableEq

/-- What a run gets from outside. -/
structure MountEnv where
  /-- `create_rpc_client` returns a client, before the first round -/
  connectList : ℕ → Bool := fun _ => true
  /-- the EXPORT reply of a target, if there is one -/
  exportList : ℕ → Option (List Exportnode) := fun _ => none
  /-- `create_rpc_client` returns a client, in a round -/
  connect : ℕ → ℕ → Bool
  /-- the MNT reply of versions 1 and 2, if there is one -/
  fhstatus : ℕ → ℕ → ℕ → Option Fhstatus := fun _ _ _ => none
  /-- the MNT reply of version 3, if there is one -/
  mountres3 : ℕ → ℕ → ℕ → Option Mountres3 := fun _ _ _ => none
  /-- the microseconds a MNT request took -/
  usec : ℕ → ℕ → ℕ → ℕ := fun _ _ _ => 0
  /-- the seconds and nanoseconds of the wall clock -/
  wallClock : ℕ → ℕ → ℕ → ℕ × ℕ := fun _ _ _ => (0, 0)
  /-- `geteuid` is that of root -/
  root : Bool := true
  /-- a null pointer for `%s` is printed as text; else it is dereferenced -/
  printsNull : Stream → Bool := fun _ => false
  /-- there has been a SIGINT by the end of a round -/
  quitting : ℕ → Bool := fun _ => false

/-! ## MNT -/

/-- `fhstatus_to_mountres3`. -/
def fhstatusToMountres3 (status : Option Fhstatus) : Option Mountres3 :=
  status.map fun status =>
    { fhsStatus := status.fhsStatus
      fhandle := ⟨status.fhsFhandle.toList, by rw [Vector.length_toList]; decide⟩
      authFlavors := [AUTH_SYS] }

/-- `copy_mountres3`: of `n` flavors, `n` bytes are copied to zeroed memory (little-endian). -/
def copyMountres3 (mountres : Mountres3) : Mountres3 :=
  { mountres with
    authFlavors := mountres.authFlavors.zipIdx.map fun (flavor, i) =>
      .ofNat (flavor.toNat % 2 ^ (8 * (mountres.authFlavors.length - 4 * i))) }

/-- The labels of `mount_perror`: an array up to the last of them. -/
def mountLabel (status : UInt32) : Except Fault (Option String) :=
  if status > MNT3ERR_SERVERFAULT then .error .outOfBounds
  else .ok <| match status.toNat with
    | 2 => some "MNT3ERR_NOENT"
    | 13 => some "MNT3ERR_ACCES"
    | 20 => some "MNT3ERR_NOTDIR"
    | 22 => some "MNT3ERR_INVAL"
    | 63 => some "MNT3ERR_NAMETOOLONG"
    | 10004 => some "MNT3ERR_NOTSUPP"
    | 10006 => some "MNT3ERR_SERVERFAULT"
    | _ => none

abbrev JsonObject := List (String × JsonValue)

/-- `json_object_set_value`. -/
def jsonSet (name : String) (value : JsonValue) : JsonObject → JsonObject
  | [] => [(name, value)]
  | (name', value') :: obj =>
    if name' = name then (name, value) :: obj else (name', value') :: jsonSet name value obj

/-- A line on stdout for an export; `ping` has a timestamp in format `unixtime`. -/
inductive MountLine where
  | ping (timestamp : Option (ℕ × ℕ)) (host path : CString) (seq usec : ℕ) (avg : Option ℚ) (loss : ℕ)
  | graphite (namePrefix : String) (ndqf : Ndqf) (path : CString) (protocol : String)
      (usec timestamp : ℕ)
  | statsd (namePrefix : String) (ndqf : Ndqf) (path : CString) (protocol : String) (usec : ℕ)
  | json (object : Option JsonObject)
deriving DecidableEq

/-- What a run does. -/
inductive MountEvent where
  | connectList (target : ℕ) (ok : Bool)
  | connect (round target : ℕ) (ok : Bool)
  | mnt (round target exportIdx : ℕ)
  | umnt (round target exportIdx : ℕ)
  /-- a message on stderr, after the host and the path; `none` is a null pointer printed -/
  | error (host path : CString) (text : Option String)
  | output (line : MountLine)
  /-- `print_exports` -/
  | exports (host : CString) (ex : List Exportnode)
deriving DecidableEq

/-- The buffer for a root filehandle, of which `len` bytes are in use. -/
structure Root where
  len : ℕ := 0
  val : List UInt8 := List.replicate FHSIZE3 0
deriving DecidableEq

/-- The variables of `main`. -/
structure MountRun where
  trace : List MountEvent := []
  exportsSent : ℕ := 0
  exportsOk : ℕ := 0
  root : Root := {}

def MountRun.emit (run : MountRun) (event : MountEvent) : MountRun :=
  { run with trace := run.trace ++ [event] }

structure MountState extends MountRun where
  targets : List Target
  more : Bool := true

section
variable (cfg : MountConfig) (env : MountEnv)

/-- The message of `mount_perror`, if there is one. -/
def mountPerror (fhsStatus : UInt32) : Except Fault (Option String) := do
  let label ← mountLabel fhsStatus
  if label.isNone && !env.printsNull .stderr then .error .nullDeref else .ok label

/-- `mountproc_mnt_x`: a NULL reply does not survive being copied or freed. -/
def mountprocMntX (r j k : ℕ) : Except Fault (Option Mountres3) :=
  match cfg.version with
  | .v3 => match env.mountres3 r j k with
    | none => .error .nullDeref
    | some result => .ok (some (copyMountres3 result))
  | _ =>
    let status := env.fhstatus r j k
    let mountres := fhstatusToMountres3 status
    if status.isNone then .error .nullDeref else .ok mountres

/-- What `get_root_filehandle` prints for a reply that is not `MNT3_OK`. -/
def mountError (fhsStatus : UInt32) : Except Fault (Option String) :=
  if fhsStatus = MNT3ERR_ACCES ∧ !env.root then
    .ok (some "Access denied mounting filesystem, rerun with sudo")
  else mountPerror env fhsStatus

/-- The end of `get_root_filehandle`: the handle of a reply is copied, an error printed. -/
def rootResult (hostname path : CString) (run : MountRun) : Option Mountres3 → Except Fault MountRun
  | some mountres =>
    if mountres.fhsStatus = MNT3_OK then
      let data := mountres.fhandle.data
      .ok { run with root := { len := data.length, val := memcpy run.root.val data data.length } }
    else do
      let text ← mountError env mountres.fhsStatus
      .ok (run.emit (.error hostname path text))
  | none => .ok (run.emit (.error hostname path (some "mountproc_mnt_x")))

/-- `get_root_filehandle`, with a client. -/
def getRootFilehandle (r j k : ℕ) (hostname path : CString) (run : MountRun) :
    Except Fault MountRun := do
  let run := { run.emit (.mnt r j k) with root := { run.root with len := 0 } }
  let mountres ← mountprocMntX cfg env r j k
  rootResult env hostname path run mountres

/-! ## Output -/

/-- The loss in percent: an integer division, before the multiplication. -/
def mountLoss (s : Stats) : Except Fault ℕ :=
  if s.sent = 0 then .error .divisionByZero
  else .ok (wrap64 (s.sent + 2 ^ 64 - s.received) / s.sent * 100)

/-- `print_fhandle3`: the object with the fields set. -/
def printFhandle3 (root : Root) (usec timestamp : ℕ) (obj : JsonObject) : JsonObject :=
  let obj := jsonSet "usec" (.number usec) obj
  let obj := jsonSet "timestamp" (.number timestamp) obj
  let obj := jsonSet "filehandle" (.string (nfsFh3ToString ⟨root.val.take root.len⟩)) obj
  jsonSet "version" (.number cfg.version.version) obj

/-- The host that is printed. -/
def mountHost (target : Target) : CString := if cfg.ip then target.ipAddress else target.name

/-- `print_output`: the export after it, and the line. -/
def printOutput (target : Target) (e : MountExports) (root : Root) (wallClock : ℕ × ℕ) (usec : ℕ) :
    Except Fault (MountExports × MountLine) := do
  let loss ← mountLoss e.toStats
  let seq := wrap64 (e.sent + ULONG_MAX)
  match cfg.format with
  | .unixtime => .ok (e, .ping (some wallClock) (mountHost cfg target) e.path seq usec e.avg loss)
  | .ping => .ok (e, .ping none (mountHost cfg target) e.path seq usec e.avg loss)
  | .fping => .ok (e, .ping none (mountHost cfg target) e.path seq usec e.avg loss)
  | .graphite =>
    .ok (e, .graphite cfg.namePrefix target.ndqf e.path cfg.version.protocol usec wallClock.1)
  | .statsd => .ok (e, .statsd cfg.namePrefix target.ndqf e.path cfg.version.protocol usec)
  | .json => match e.jsonRoot with
    | some obj =>
      let obj := printFhandle3 cfg root usec wallClock.1 obj
      .ok ({ e with jsonRoot := some obj }, .json (some obj))
    -- parson does not serialize a null pointer
    | none => if env.printsNull .stdout then .ok (e, .json none) else .error .nullDeref
  | .showmount => .error (.exit 3)

/-! ## Rounds -/

/-- The client of a target. -/
def mountConnect (r j : ℕ) (target : Target) (run : MountRun) : Target × MountRun :=
  if target.client then (target, run)
  else
    let ok := env.connect r j
    ({ target with client := ok }, run.emit (.connect r j ok))

/-- The time of a reply is only kept for several rounds. -/
def mountRecord (usec : ℕ) (e : MountExports) : Except Fault MountExports :=
  if cfg.count = 0 ∧ !cfg.loop then .ok e
  else if cfg.format = .fping then do
    let stats ← (e.toStats.time usec).store usec
    .ok { e with toStats := stats }
  else .ok { e with toStats := e.toStats.time usec }

/-- The output for a reply. -/
def mountOutput (r j k : ℕ) (target : Target) (e : MountExports) (run : MountRun) :
    Except Fault (MountExports × MountRun) :=
  if cfg.quiet then .ok (e, run)
  else do
    let (e, line) ← printOutput cfg env target e run.root (env.wallClock r j k) (env.usec r j k)
    .ok (e, run.emit (.output line))

/-- After a reply with a filehandle. -/
def mountSuccess (r j k : ℕ) (target : Target) (e : MountExports) (run : MountRun) :
    Except Fault (MountExports × MountRun) := do
  let e := { e with received := wrap64 (e.received + 1) }
  let run := { run with exportsOk := wrap64 (run.exportsOk + 1) }
  let run := if cfg.unmount then run.emit (.umnt r j k) else run
  let e ← mountRecord cfg (env.usec r j k) e
  mountOutput cfg env r j k target e run

/-- The body of the loop over the exports of a target. -/
def mountExport (r j : ℕ) (target : Target) (k : ℕ) (e : MountExports) (run : MountRun) :
    Except Fault (MountExports × MountRun) := do
  let run ← getRootFilehandle cfg env r j k target.name e.path run
  let run := { run with exportsSent := wrap64 (run.exportsSent + 1) }
  let e := { e with sent := wrap64 (e.sent + 1) }
  if run.root.len = 0 then .ok (e, run) else mountSuccess cfg env r j k target e run

/-- The exports of a target; without a client nothing is sent, and nothing counted. -/
def mountTargetExports (r j : ℕ) (target : Target) (run : MountRun) :
    Except Fault (List MountExports × MountRun) :=
  if target.client then walk (mountExport cfg env r j target) 0 target.exports run
  else .ok (target.exports, run)

/-- The body of the loop over the targets, in round `r`. -/
def mountTarget (r j : ℕ) (target : Target) (run : MountRun) : Except Fault (Target × MountRun) := do
  let (target, run) := mountConnect env r j target run
  let (exports, run) ← mountTargetExports cfg env r j target run
  .ok ({ target with exports, client := target.client && !cfg.reconnect }, run)

/-- The test for another round: it looks at the first export of the first target. -/
def mountMore (r : ℕ) (targets : List Target) : Except Fault Bool :=
  if env.quitting r then .ok false
  else if cfg.loop then .ok true
  else if cfg.count = 0 then .ok false
  else match targets with
    | [] => .error .nullDeref
    | target :: _ => match target.exports with
      | [] => .error .nullDeref
      | e :: _ => .ok (decide (e.sent < cfg.count))

/-- One round of the main loop. -/
def mountRound (r : ℕ) (s : MountState) : Except Fault MountState := do
  let (targets, run) ← walk (mountTarget cfg env r) 0 s.targets s.toMountRun
  let more ← mountMore cfg env r targets
  .ok { run with targets, more }

/-! ## Targets and exports -/

/-- The checks of a path that is given. -/
def checkPath : Option CString → Except Fault Unit
  | none => .ok ()
  | some path =>
    if path.head? ≠ some '/' ∨ cfg.format = .showmount then .error (.exit 3) else .ok ()

/-- The loop over the arguments: `strtok` gives the host, behind leading colons, and the path. -/
def mountArgs (res : Resolver) : List Target → List CString → Except Fault (List Target)
  | targets, [] => .ok targets
  | targets, arg :: args =>
    match tokens ':' arg with
    | [] => .error .nullDeref
    | host :: rest => do
      checkPath cfg rest.head?
      let r ← makeTarget res cfg.port cfg.dns cfg.ip cfg.multiple rest.head? cfg.count targets host
        ((arg.dropWhile (· == ':')).length + 1)
      mountArgs res r.targets args

/-- `get_exports`: without a client its error is asked for, and a NULL reply is dereferenced. -/
def getExports (j : ℕ) (target : Target) : Except Fault (List Exportnode) :=
  if target.client then
    match env.exportList j with
    | none => .error .nullDeref
    | some ex => .ok ex
  else .error .nullDeref

/-- `make_exports`. -/
def makeExports (j : ℕ) (target : Target) : Except Fault (List MountExports) :=
  if target.client then do
    let ex ← getExports env j target
    .ok (ex.map fun e => initExport target e.exDir cfg.count)
  else .ok []

/-- The body of the loop that looks up the exports of targets without a path. -/
def listExports (j : ℕ) (target : Target) (run : MountRun) : Except Fault (Target × MountRun) :=
  if target.exports ≠ [] then .ok (target, run)
  else
    let ok := env.connectList j
    let target := { target with client := ok }
    let run := run.emit (.connectList j ok)
    if cfg.format = .showmount then do
      let ex ← getExports env j target
      .ok (target, { run.emit (.exports (mountHost cfg target) ex) with exportsSent := ex.length })
    else do
      let exports ← makeExports cfg env j target
      .ok ({ target with exports }, run)

/-- The targets and variables before the first round. -/
def mountTargets (res : Resolver) (args : List CString) : Except Fault MountState := do
  let targets ← mountArgs cfg res dummyTargets args
  let (targets, run) ← walk (listExports cfg env) 0 targets.tail {}
  .ok { run with targets := if cfg.format = .showmount then [] else targets }

/-! ## `main` -/

/-- A line of the summary: the times if there are any, or the columns of format `fping`. -/
inductive MountSummary where
  | loss (host path : CString) (sent received loss : ℕ) (times : Option (ℕ × Option ℚ × ℕ))
  | columns (host path : CString) (columns : List (Option ℕ))

/-- The body of the loops of `print_summary`. -/
def exportSummary (target : Target) (e : MountExports) : Except Fault MountSummary :=
  if cfg.format = .fping then
    if e.sent ≤ e.results.length then
      .ok (.columns (mountHost cfg target) e.path ((e.results.take e.sent).map column))
    else .error .outOfBounds
  else do
    let loss ← mountLoss e.toStats
    .ok (.loss (mountHost cfg target) e.path e.sent e.received loss
      (if e.received = 0 then none else some (e.min, e.avg, e.max)))

/-- `print_summary`. -/
def printMountSummary (targets : List Target) : Except Fault (List MountSummary) :=
  if cfg.format = .ping ∨ cfg.format = .unixtime ∨ cfg.format = .fping then
    (targets.flatMap fun target => target.exports.map (target, ·)).mapM fun (target, e) =>
      exportSummary cfg target e
  else .ok []

/-- The final state, the summary and the exit status. -/
structure MountResult where
  state : MountState
  summary : List MountSummary
  status : ℕ

/-- The end of `main`, if the main loop has ended. -/
def mountFinish : Option (ℕ × MountState) → Except Fault (Option MountResult)
  | none => .ok none
  | some (_, state) => do
    let summary ←
      if cfg.count ≠ 0 ∨ cfg.loop then printMountSummary cfg state.targets else .ok []
    .ok (some { state, summary, status :=
      if state.exportsSent ≠ 0 ∧ state.exportsSent = state.exportsOk then 0 else 1 })

/-- `main`, after the options; `none` if the main loop has not ended within its fuel. -/
def mountMain (res : Resolver) (fuel : ℕ) (args : List CString) : Except Fault (Option MountResult) := do
  let state ← mountTargets cfg env res args
  let ended ← poll (mountRound cfg env) (fun _ s => s.more) fuel 0 state
  mountFinish cfg ended

end

end NFStash
