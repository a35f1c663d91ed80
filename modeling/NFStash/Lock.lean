/-
  `lock.c`: asking whether files could be locked.

  `doNlmTest` makes a TEST request and returns a status: that of the reply, or 10 if there is none.
  `lockMain` makes one for each filehandle of each target with a client, round by round, and keeps the
  status of the last.
-/
import NFStash.Lib.Loops
import NFStash.Util

namespace NFStash

open CLib Loops

/-! ## Requests and replies -/

/-- The status of a reply; no value is refused when it is decoded. -/
abbrev Nlm4Stats := UInt32

def nlm4Granted : Nlm4Stats := 0

def nlm4StatsLabels : List String :=
  ["granted", "denied", "denied_nolocks", "blocked", "denied_grace_period", "deadlock",
    "read_only_filesystem", "stale_filehandle", "file_too_big", "failed"]

structure Nlm4Lock where
  callerName : CString
  fh : NfsFh3
  oh : CString
  svid : ℤ
  lOffset : ℕ := 0
  lLen : ℕ := 0
deriving DecidableEq

structure Nlm4Testargs where
  exclusive : Bool := false
  alock : Nlm4Lock
deriving DecidableEq

/-- The variables of `main`, after the options have been read.  `-l` is refused unless `count` is 0,
    which it never is. -/
structure LockConfig where
  count : ℕ := 1
  loop : Bool := false
  hertz : ℕ := 10
deriving DecidableEq

inductive LockEvent where
  | connect (r j : ℕ) (ok : Bool)
  | test (args : Nlm4Testargs) (res : Option Nlm4Stats)
  /-- `clnt_perror(client, proc)` -/
  | clntPerror (proc : String)
  /-- a line on stderr -/
  | label (text : String)
  /-- a line on stdout -/
  | line (host fh : CString) (us sec : ℕ)
deriving DecidableEq

/-- What a run gets from outside, for filehandle `k` of target `j` in round `r`. -/
structure LockEnv where
  test : ℕ → ℕ → ℕ → Option Nlm4Stats
  /-- `create_rpc_client` returns a client -/
  connect : ℕ → ℕ → Bool := fun _ _ => true
  /-- what `getnameinfo` returns, and `nodename` after it -/
  getnameinfo : ℕ → ℕ → ℤ × CString := fun _ _ => (0, [])
  /-- the microseconds a request took -/
  us : ℕ → ℕ → ℕ → ℕ := fun _ _ _ => 0
  /-- the seconds of the wall clock -/
  wallClock : ℕ → ℕ → ℕ → ℕ := fun _ _ _ => 0
  mypid : ℤ := 1

structure LockRun where
  trace : List LockEvent := []
  nodename : CString := []
  status : ℕ := 0

structure LockState extends LockRun where
  targets : List Target
  sent : ℕ := 0

section
variable (cfg : LockConfig) (env : LockEnv)

/-! ## `do_nlm_test` -/

def nlm4Testargs (nodename : CString) (fh : NfsFh3) : Nlm4Testargs where
  alock :=
    { callerName := nodename
      fh
      oh := (toString env.mypid).toList ++ '@' :: nodename
      svid := env.mypid }

/-- `do_nlm_test`: the status, and what it sends and prints. -/
def doNlmTest (r j k : ℕ) (nodename host : CString) (current : NfsFhList) :
    Except Fault (ℕ × List LockEvent) :=
  let res := env.test r j k
  let sent := LockEvent.test (nlm4Testargs env nodename current.nfsFh) res
  match res with
  | none => .ok (10, [sent, .clntPerror "nlm4_test_4"])
  | some stat => match nlm4StatsLabels[stat.toNat]? with
    | none => .error .outOfBounds
    | some text => .ok (stat.toNat,
      [sent, .label text,
        .line host (nfsFh3ToString current.nfsFh) (env.us r j k) (env.wallClock r j k)])

/-! ## `main` -/

/-- The seconds and nanoseconds between two rounds. -/
def lockSleepTime (hertz : ℕ) : Except Fault (ℕ × ℕ) :=
  if hertz = 1 then .ok (1, 0)
  else if hertz = 0 then .error .divisionByZero
  else .ok (0, 1000000000 / hertz)

/-- The client of a target, and the name of this host for its requests. -/
def lockConnect (r j : ℕ) (target : Target) (run : LockRun) : Except Fault (Target × LockRun) :=
  if target.client then .ok (target, run)
  else
    let ok := env.connect r j
    let run := { run with trace := run.trace ++ [.connect r j ok] }
    if ok then
      let getaddr := (env.getnameinfo r j).1
      if getaddr > 0 then .error (.exit 10)
      else .ok ({ target with client := true }, { run with nodename := (env.getnameinfo r j).2 })
    else .ok (target, run)

/-- The body of the loop over the filehandles of a target. -/
def lockFilehandle (r j : ℕ) (target : Target) (k : ℕ) (fh : NfsFhList) (run : LockRun) :
    Except Fault (NfsFhList × LockRun) :=
  if target.client then do
    let (status, events) ← doNlmTest env r j k run.nodename target.name fh
    .ok (fh, { run with status, trace := run.trace ++ events })
  else .ok (fh, run)

/-- The body of the loop over the targets, in round `r`. -/
def lockTarget (r j : ℕ) (target : Target) (run : LockRun) : Except Fault (Target × LockRun) :=
  if target.freed then .error .useAfterFree
  else do
    let (target, run) ← lockConnect env r j target run
    let (filehandles, run) ← walk (lockFilehandle env r j target) 0 target.filehandles run
    .ok ({ target with filehandles }, run)

/-- One round of the main loop; `sent` has 32 bits. -/
def lockRound (r : ℕ) (s : LockState) : Except Fault LockState := do
  let (targets, run) ← walk (lockTarget env r) 0 s.targets s.toLockRun
  .ok { run with targets, sent := wrap32 (s.sent + 1) }

/-- The condition of the main loop. -/
def lockAgain (s : LockState) : Bool := s.sent < cfg.count || cfg.loop

/-- The main loop: the final state, if it ends. -/
def lockLoop (fuel : ℕ) (s : LockState) : Except Fault (Option LockState) :=
  if lockAgain cfg s then do
    let ended ← poll (lockRound env) (fun _ s => lockAgain cfg s) fuel 0 s
    .ok (ended.map (·.2))
  else .ok (some s)

/-- `main`, after the options.  It returns the `status` of the final state, if the main loop ends. -/
def lockMain (lookup : CString → String → Option CString) (junk : ℕ → UInt8) (inputs : List CString)
    (fuel : ℕ) : Except Fault (Option LockState) := do
  let _ ← lockSleepTime cfg.hertz
  let targets ← parseLines lookup junk 0 0 dummyTargets inputs
  lockLoop cfg env fuel { targets := targets.tail }

end

end NFStash
