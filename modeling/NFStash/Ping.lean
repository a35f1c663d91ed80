/-
  `nfsping.c`: pinging targets in rounds.

  `pingRound` is one round of the main loop over all targets, `pingMain` the whole
  program after its options.  Under `-C` the response times are stored for a summary; the
  index is the number of pings sent to all targets (`pingRecord`), while every
  target has room for its own pings only.
-/
import NFStash.Lib.Loops
import NFStash.MakeTarget
import NFStash.Timespec

namespace NFStash

open CLib Loops

/-! ## Model -/

inductive PingFormat where
  | ping
  | fping
  | unixtime
  | statsd
  | graphite
deriving DecidableEq

/-- The configuration, after the options have been read. -/
structure PingConfig where
  port : UInt16 := 2049
  format : PingFormat := .ping
  count : ℕ := 0
  loop : Bool := false
  quiet : Bool := false
  hertz : ℕ := 10
  /-- the milliseconds of `-i` -/
  waitTime : ℕ := 1
  summaryInterval : ℕ := 0
  reconnect : Bool := true
  multiple : Bool := false
  reverseDns : Bool := false
  displayIps : Bool := false
deriving DecidableEq

/-- What a run does: connection attempts and pings, each with the round and the place of its target,
    and output for a target as it is then. -/
inductive PingEvent where
  | connect (target : ℕ) (ok : Bool)
  /-- the microseconds to the answer, if there is one -/
  | ping (round target : ℕ) (status : Option ℕ)
  | result (target : Target) (us : ℕ)
  | lost (target : Target)
  /-- `clnt_perror` -/
  | clntPerror (target : Target)
  | interval (target : Target)
deriving DecidableEq

/-- What a run gets from outside.  The first argument counts the events of the run so far. -/
structure PingEnv where
  /-- `create_rpc_client` returns a client -/
  connect : ℕ → Bool
  /-- the null procedure: the microseconds to the answer, if there is one -/
  ping : ℕ → Option ℕ
  /-- `re_errno` of the client after a failure -/
  reErrno : ℕ → ℕ := fun _ => 0
  /-- there has been a SIGINT -/
  quitting : ℕ → Bool := fun _ => false

def EPIPE : ℕ := 32
def ECONNRESET : ℕ := 104

/-- The variables of `main`. -/
structure PingRun where
  trace : List PingEvent := []
  totalSent : ℕ := 0
  totalRecv : ℕ := 0
  loopCount : ℕ := 0

structure PingState extends PingRun where
  targets : List Target
  more : Bool := true

section
variable (cfg : PingConfig) (env : PingEnv)

/-- The client of a target. -/
def pingConnect (j : ℕ) (target : Target) (run : PingRun) : Target × PingRun :=
  if target.client then (target, run)
  else
    let ok := env.connect run.trace.length
    ({ target with client := ok }, { run with trace := run.trace ++ [.connect j ok] })

/-- The time of an answer is stored for the summary, or recorded in the histograms. -/
def pingRecord (us totalSent : ℕ) (target : Target) : Except Fault Target :=
  let received := wrap32 (target.received + 1)
  if cfg.format = .fping then do
    let results ← storeAt target.results (wrap64 (totalSent + ULONG_MAX)) us
    .ok { target with
      received
      min := if us < target.min then us else target.min
      max := if us > target.max then us else target.max
      avg := runningAvg 32 target.avg received us
      results }
  else .ok { target with
    received
    histogram := target.histogram ++ [us]
    intervalHistogram := target.intervalHistogram ++ [us] }

/-- After an answer. -/
def pingSuccess (us : ℕ) (target : Target) (run : PingRun) : Except Fault (Target × PingRun) := do
  let target ← pingRecord cfg us run.totalSent target
  .ok (target, { run with
    totalRecv := wrap64 (run.totalRecv + 1)
    trace := run.trace ++ if cfg.quiet then [] else [.result target us] })

/-- After a ping without an answer: the connection is dropped after any error. -/
def pingFailure (target : Target) (run : PingRun) : Target × PingRun :=
  let trace := run.trace ++ [.lost target]
  if target.client then
    -- as in the source: the second operand is a constant
    let broken := env.reErrno trace.length = EPIPE ∨ ECONNRESET ≠ 0
    ({ target with client := !broken }, { run with trace := trace ++ [.clntPerror target] })
  else (target, { run with trace })

/-- The counters of a target after an interval summary. -/
def resetCounters (target : Target) : Target :=
  if cfg.format = .fping then
    { target with sent := 0, received := 0, min := ULONG_MAX, max := 0, avg := some 0 }
  else { target with sent := 0, received := 0, intervalHistogram := [] }

/-- The lines `print_interval` prints, each with the values in it; those of the `hdr_` functions are
    given by the histogram they are taken from. -/
inductive IntervalLine where
  /-- xmt/rcv/%loss; min/avg/max if there are any -/
  | xmtRcvLoss (sent received lost : ℕ) (times : Option (ℕ × Option ℚ × ℕ))
  | percentiles (received : ℕ) (histogram : List ℕ)
  | count (sent : ℕ)
  | lost (lost : ℕ)
  | usecUpper (histogram : List ℕ)
  | usecLower (histogram : List ℕ)
  | usecMean (histogram : List ℕ)
  | usecUpper95th (histogram : List ℕ)
deriving DecidableEq

/-- `print_interval`. -/
def printInterval (format : PingFormat) (target : Target) : List IntervalLine :=
  let lost := wrap32 (target.sent + (2 ^ 32 - target.received))
  match format with
  | .unixtime | .fping =>
    [.xmtRcvLoss target.sent target.received lost
      (if target.received ≠ 0 then some (target.min, target.avg, target.max) else none)]
  | .ping =>
    if target.received ≠ 0 then [.percentiles target.received target.intervalHistogram] else []
  | .graphite =>
    .count target.sent :: (if lost ≠ 0 then [.lost lost] else []) ++
      if target.received ≠ 0 then
        [.usecUpper target.intervalHistogram, .usecLower target.intervalHistogram,
          .usecMean target.intervalHistogram, .usecUpper95th target.intervalHistogram]
      else []
  | .statsd => .count target.sent :: if lost ≠ 0 then [.lost lost] else []

/-- The interval summary, in every round whose number is a multiple of the period. -/
def pingInterval (target : Target) (run : PingRun) : Except Fault (Target × PingRun) :=
  if cfg.summaryInterval = 0 then .ok (target, run)
  else
    let period := wrap64 (cfg.hertz * cfg.summaryInterval)
    if period = 0 then .error .divisionByZero
    else if run.loopCount % period = 0 then
      .ok (resetCounters cfg target, { run with trace := run.trace ++ [.interval target] })
    else .ok (target, run)

/-- The ping itself: the answer, if there is a client and one comes. -/
def pingStatus (target : Target) (run : PingRun) : Option ℕ :=
  if target.client then env.ping run.trace.length else none

/-- The outcome of a ping is counted and printed. -/
def pingOutcome (status : Option ℕ) (target : Target) (run : PingRun) :
    Except Fault (Target × PingRun) :=
  match status with
  | some us => pingSuccess cfg us target run
  | none => .ok (pingFailure env target run)

/-- The body of the loop over the targets, in round `r`. -/
def pingTarget (r j : ℕ) (target : Target) (run : PingRun) : Except Fault (Target × PingRun) := do
  let (target, run) := pingConnect env j target run
  let status := pingStatus env target run
  let target := { target with sent := wrap32 (target.sent + 1) }
  let (target, run) ← pingOutcome cfg env status target { run with
    totalSent := wrap64 (run.totalSent + 1)
    trace := run.trace ++ [.ping r j status] }
  let (target, run) ← pingInterval cfg target run
  .ok ({ target with client := target.client && !cfg.reconnect }, run)

/-- The test for another round. -/
def pingMore (run : PingRun) : Bool :=
  !env.quitting run.trace.length &&
    (cfg.loop || (cfg.count ≠ 0 && run.loopCount < cfg.count))

/-- One round of the main loop. -/
def pingRound (r : ℕ) (s : PingState) : Except Fault PingState := do
  let (targets, run) ← walk (pingTarget cfg env r) 0 s.targets
    { s.toPingRun with loopCount := wrap64 (s.loopCount + 1) }
  .ok { run with targets, more := pingMore cfg env run }

/-- The main loop; it is not entered without targets. -/
def pingLoop (fuel : ℕ) (targets : List Target) : Except Fault (Option PingState) :=
  if targets = [] then .ok (some { targets })
  else do
    let res ← poll (pingRound cfg env) (fun _ s => s.more) fuel 0 { targets }
    .ok (res.map (·.2))

/-! ### The summary -/

/-- The columns of a target: the loop reads as many results as have been sent in total. -/
def summaryColumns (totalSent : ℕ) (target : Target) : Except Fault (List (Option ℕ)) :=
  if totalSent ≤ target.results.length then .ok ((target.results.take totalSent).map column)
  else .error .outOfBounds

/-- `print_summary` in `fping` format: the columns of each target. -/
def printSummary (totalSent : ℕ) : List Target → Except Fault (List (List (Option ℕ)))
  | [] => .ok []
  | target :: targets => do
    let columns ← summaryColumns totalSent target
    let rest ← printSummary totalSent targets
    .ok (columns :: rest)

/-! ### Targets -/

/-- The targets for the arguments of the command line. -/
def pingTargets (res : Resolver) (count : ℕ) : List Target → List CString → Except Fault (List Target)
  | head, [] => .ok head
  | head, arg :: args => do
    let r ← makeTarget res cfg.port cfg.reverseDns cfg.displayIps cfg.multiple none count head arg
      (arg.length + 1)
    pingTargets res count r.targets args

/-- The condition for a pause between two targets. -/
def Waits (waitTime : Timespec) : Prop := waitTime.tvSec ≠ 0 ∨ waitTime.tvNsec ≠ 0

instance (waitTime : Timespec) : Decidable (Waits waitTime) := inferInstanceAs (Decidable (_ ∨ _))

/-- The interval is added once more to the sum in `sleepy`, which must stay below the polling period. -/
def addWait (waitTime sleepTime sleepy : Timespec) : Except Fault Timespec :=
  if Waits waitTime then
    let sleepy := timespecadd waitTime sleepy
    if timespeccmp sleepy sleepTime fun m n => m ≥ n then .error (.exit 3) else .ok sleepy
  else .ok sleepy

/-- The loop over the targets before the first round, which asks for the length of each name. -/
def checkTargets (waitTime sleepTime : Timespec) : List Target → Timespec → Except Fault Timespec
  | [], sleepy => .ok sleepy
  | target :: targets, sleepy =>
    if target.displayName = .null then .error .nullDeref
    else do
      let sleepy ← addWait waitTime sleepTime sleepy
      checkTargets waitTime sleepTime targets sleepy

/-- `main` between the options and the first round: the targets, unless a check fails. -/
def pingSetup (res : Resolver) (args : List CString) : Except Fault (List Target) :=
  if cfg.count ≠ 0 ∧ cfg.count ≤ wrap64 (cfg.hertz * cfg.summaryInterval) then .error (.exit 3)
  else do
    let sleepTime ← sleepTimeOrOne cfg.hertz
    -- `usage`
    if args = [] then .error (.exit 3)
    else do
      let targets ← pingTargets cfg res (if cfg.format = .fping then cfg.count else 0) dummyTargets args
      let _ ← checkTargets (ms2ts cfg.waitTime) sleepTime targets.tail {}
      .ok targets.tail

/-- The final state, the columns of the summary and the exit status. -/
structure PingResult where
  state : PingState
  summary : List (List (Option ℕ))
  status : ℕ

/-- The end of `main`, if the main loop has ended. -/
def pingFinish : Option PingState → Except Fault (Option PingResult)
  | none => .ok none
  | some state => do
    let summary ← if cfg.format = .fping then printSummary state.totalSent state.targets else .ok []
    .ok (some { state, summary, status := if state.totalRecv < state.totalSent then 1 else 0 })

/-- `main`, after the options; `none` if the main loop has not ended within its fuel. -/
def pingMain (res : Resolver) (fuel : ℕ) (args : List CString) : Except Fault (Option PingResult) := do
  let targets ← pingSetup cfg res args
  let state ← pingLoop cfg env fuel targets
  pingFinish cfg state

/-! ### One ping -/

variable {cfg env} {r j : ℕ} {t t' : Target} {run run' : PingRun}

/-- An interval summary, if there is one. -/
theorem pingInterval_ok (h : pingInterval cfg t run = .ok (t', run')) : t' = t ∧ run' = run ∨
    t' = resetCounters cfg t ∧ run' = { run with trace := run.trace ++ [.interval t] } := by
  unfold pingInterval at h
  dsimp only at h
  split_ifs at h
  · obtain ⟨rfl, rfl⟩ := Prod.mk.inj (Except.ok.inj h)
    exact .inl ⟨rfl, rfl⟩
  · obtain ⟨rfl, rfl⟩ := Prod.mk.inj (Except.ok.inj h)
    exact .inr ⟨rfl, rfl⟩
  · obtain ⟨rfl, rfl⟩ := Prod.mk.inj (Except.ok.inj h)
    exact .inl ⟨rfl, rfl⟩

/-- The parts of a turn: connecting, the ping and its outcome, and the interval summary. -/
theorem pingTarget_ok : pingTarget cfg env r j t run = .ok (t', run') ↔ ∃ t₁ run₁ t₂ run₂ t₃,
      pingConnect env j t run = (t₁, run₁) ∧
      pingOutcome cfg env (pingStatus env t₁ run₁) { t₁ with sent := wrap32 (t₁.sent + 1) } { run₁ with
        totalSent := wrap64 (run₁.totalSent + 1)
        trace := run₁.trace ++ [.ping r j (pingStatus env t₁ run₁)] } = .ok (t₂, run₂) ∧
      pingInterval cfg t₂ run₂ = .ok (t₃, run') ∧
      t' = { t₃ with client := t₃.client && !cfg.reconnect } := by
  simp only [pingTarget, bind_eq_ok, Prod.exists]
  constructor
  · rintro ⟨t₂, run₂, houtcome, t₃, run₃, hinterval, heq⟩
    obtain ⟨rfl, rfl⟩ := Prod.mk.inj (Except.ok.inj heq)
    exact ⟨_, _, t₂, run₂, t₃, rfl, houtcome, hinterval, rfl⟩
  · rintro ⟨t₁, run₁, t₂, run₂, t₃, hconnect, houtcome, hinterval, rfl⟩
    rw [hconnect]
    exact ⟨t₂, run₂, houtcome, t₃, run', hinterval, rfl⟩

end

end NFStash
