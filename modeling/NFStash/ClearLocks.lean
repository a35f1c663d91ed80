/-
  `clear_locks.c`: freeing the locks of a client.

  The status monitor of the server is notified, and if that fails the lock manager is
  told to free all locks.  Both connections use the same socket address, whose port is 0 before the
  first one: what the second one does depends on the port the first one leaves there.

  `clearLocks_sends_iff`: every call is sent with a client, and to the port the portmapper
  reported for its program, iff the notification succeeds, the status monitor is not registered,
  or there is no connection to the lock manager either after one that failed in another way.
-/
import NFStash.RpcSockets

namespace NFStash

open CLib

/-! ## Model -/

def SM_VERS : ℕ := 1
def NLM_VERS4 : ℕ := 4

inductive ClearLocksProc where
  | smNotify
  | nlm4FreeAll
deriving DecidableEq

def ClearLocksProc.prog : ClearLocksProc → ℕ
  | .smNotify => SM_PROG
  | .nlm4FreeAll => NLM_PROG

def ClearLocksProc.vers : ClearLocksProc → ℕ
  | .smNotify => SM_VERS
  | .nlm4FreeAll => NLM_VERS4

/-- A call with its arguments; without a client it is made on NULL. -/
structure ClearLocksCall where
  proc : ClearLocksProc
  client : Option Client
  name : CString
  state : Int32
deriving DecidableEq

/-- What a run gets from outside: the two connections, whether the calls are answered, and the seconds
    of the wall clock. -/
structure ClearLocksEnv where
  sm : CreateOutcome
  nlm : CreateOutcome
  notify : Bool := true
  freeAll : Bool := true
  seconds : ℤ := 0

structure ClearLocksRun where
  net : Net := {}
  calls : List ClearLocksCall := []
deriving DecidableEq

section
variable (env : ClearLocksEnv) (type : Socktype) (srcIp : InAddr) (clientName : CString)

/-- A call: whether it was answered. -/
def clearLocksCall (proc : ClearLocksProc) (answered : Bool) (client : Option Client)
    (run : ClearLocksRun) : Except Fault Bool × ClearLocksRun :=
  let call := { proc, client, name := clientName, state := .ofInt env.seconds }
  (if client.isSome then .ok answered else .error .nullDeref, { run with calls := run.calls ++ [call] })

/-- `do_notify`. -/
def doNotify := clearLocksCall env clientName .smNotify env.notify

/-- `do_free_all`. -/
def doFreeAll := clearLocksCall env clientName .nlm4FreeAll env.freeAll

/-- The connection to the lock manager. -/
def connectNlm (clntInfo : SockaddrIn) (run : ClearLocksRun) : Option Client × ClearLocksRun :=
  let (client, _, net) := createRpcClient env.nlm type NLM_PROG NLM_VERS4 srcIp clntInfo run.net
  (client, { run with net })

/-- `main` from the first connection on: whether the last call was answered. -/
def clearLocksRun (server : InAddr) : Except Fault Bool × ClearLocksRun :=
  let (client, clntInfo, net) :=
    createRpcClient env.sm type SM_PROG SM_VERS srcIp { sinAddr := server, sinPort := 0 } {}
  match client with
  | some _ =>
    match doNotify env clientName client { net } with
    | (.ok false, run) =>
      let run := { run with net := destroyRpcClient client run.net }
      let (client, run) := connectNlm env type srcIp clntInfo run
      -- here the client is not checked
      doFreeAll env clientName client run
    | r => r
  | none =>
    match connectNlm env type srcIp clntInfo { net } with
    | (some client, run) => doFreeAll env clientName (some client) run
    | (none, run) => (.ok false, run)

/-- `main`, after the options and the address of the server: the exit status. -/
def clearLocksMain (server : InAddr) : Except Fault ℕ × ClearLocksRun :=
  let (status, run) := clearLocksRun env type srcIp clientName server
  (status.map fun status => if status then 0 else 1, run)

end

/-! ## Where the calls go -/

/-- The call has a client, whose socket is connected to the port that the portmapper reported for
    the program of the call. -/
def ClearLocksCall.Reported (log : List RpcEvent) (call : ClearLocksCall) : Prop :=
  ∃ c, call.client = some c ∧ (∃ dst, .connect c.fd dst ∈ log) ∧
    ∀ dst, .connect c.fd dst ∈ log →
      ∃ protocol, .getport call.proc.prog call.proc.vers protocol dst.sinPort ∈ log

/-- The connections and answers for which all calls go where they should. -/
def ClearLocksEnv.Direct (env : ClearLocksEnv) (srcIp : InAddr) : Prop :=
  if env.sm.ReachesPortmapper srcIp ∧ env.sm.reported ≠ 0 ∧ env.sm.Serves then env.notify = true
  else (env.sm.ReachesPortmapper srcIp ∧ env.sm.reported = 0) ∨ ¬ env.nlm.Serves

section
variable (type : Socktype) {prognum prog vers : ℕ} (version : ℕ) {o : CreateOutcome} {srcIp : InAddr}
  {clientSock : SockaddrIn} (n : Net)

theorem queryEvents_unreported (hne : prog ≠ prognum) (dst : SockaddrIn) (fd : ℕ) :
    Unreported prog vers (queryEvents o type prognum version srcIp dst fd) := by
  intro protocol p hp
  unfold queryEvents getportEvents at hp
  split_ifs at hp
  all_goals
    cases hport : o.getport
    all_goals simp [hport, hne] at hp

/-- A call reports no port for another program. -/
theorem createRpcClient_other (o : CreateOutcome) (srcIp : InAddr) (clientSock : SockaddrIn)
    (hne : prog ≠ prognum) (vers : ℕ) : ∃ evs,
    (createRpcClient o type prognum version srcIp clientSock n).2.2.log = n.log ++ evs ∧
      Unreported prog vers evs := by
  by_cases h0 : clientSock.sinPort = 0
  · by_cases hr : o.ReachesPortmapper srcIp
    · rw [createRpcClient_query prognum version type h0 (queryPortmapper_eq type prognum version _ n hr)]
      obtain ⟨evs, hlog, hu⟩ := connectService_log prognum version o srcIp
        { clientSock with sinPort := o.reported } ⟨n.next + 1, n.next :: n.opened,
          n.log ++ queryEvents o type prognum version srcIp
            { clientSock with sinPort := htons PMAPPORT } n.next⟩
      exact ⟨_, by rw [hlog, List.append_assoc],
        (queryEvents_unreported type version hne _ _).append (hu _ _)⟩
    · obtain ⟨evs, hnone, hlog, hu⟩ := queryPortmapper_early prognum version type hr
        { clientSock with sinPort := htons PMAPPORT } n
      rw [createRpcClient_early prognum version type h0 (Prod.ext hnone rfl)]
      exact ⟨evs, hlog, hu _ _⟩
  · obtain ⟨evs, hlog, hu⟩ := connectService_log prognum version o srcIp clientSock n
    rw [createRpcClient, if_neg h0]
    exact ⟨evs, hlog, hu _ _⟩

/-- A program without a reported port is not where a call should go. -/
theorem not_reported {log : List RpcEvent} (call : ClearLocksCall) {c : Client} {dst : SockaddrIn}
    (hc : call.client = some c) (hconn : .connect c.fd dst ∈ log) (hp : dst.sinPort ≠ 0)
    (hu : Unreported call.proc.prog call.proc.vers log) : ¬ call.Reported log := by
  rintro ⟨c', hc', -, hall⟩
  obtain rfl : c = c' := Option.some.inj (hc.symm.trans hc')
  obtain ⟨protocol, hport⟩ := hall dst hconn
  exact hp (hu protocol _ hport)

/-- What a client has been connected to, if its socket is a new one. -/
theorem createEvents_connect {type : Socktype} {version : ℕ} {n : Net} {dst : SockaddrIn}
    (h : .connect (serviceFd clientSock n) dst ∈
      createEvents o type prognum version srcIp clientSock n) : dst = o.service clientSock := by
  unfold createEvents serviceFd at h
  unfold CreateOutcome.service at h ⊢
  split_ifs at h ⊢ with h0
  · rcases List.mem_append.1 h with h | h
    · -- the query has another socket
      unfold queryEvents getportEvents at h
      split_ifs at h
      all_goals
        cases hport : o.getport
        all_goals simp [hport] at h
    · simpa [serviceEvents] using h
  · simpa [serviceEvents] using h

theorem mem_createEvents (o : CreateOutcome) (prognum : ℕ) (srcIp : InAddr) (clientSock : SockaddrIn) :
    .connect (serviceFd clientSock n) (o.service clientSock) ∈
      createEvents o type prognum version srcIp clientSock n := by
  simp [createEvents, serviceEvents]

/-- A call that asks the portmapper has it report the port. -/
theorem createEvents_getport (prognum : ℕ) (srcIp : InAddr) (h0 : clientSock.sinPort = 0)
    (hp : o.reported ≠ 0) :
    .getport prognum version type.protocol o.reported ∈
      createEvents o type prognum version srcIp clientSock n := by
  unfold CreateOutcome.reported at hp ⊢
  split_ifs at hp ⊢ with hc
  · rcases hport : o.getport with _ | p
    · simp [hport] at hp
    · simp [createEvents, queryEvents, getportEvents, h0, hc, hport]
  · exact absurd rfl hp

end

section
variable (env : ClearLocksEnv) (type : Socktype) (srcIp : InAddr) {clntInfo : SockaddrIn}
  {run : ClearLocksRun}

/-- The lock manager is connected to at the port that is left in the socket address. -/
theorem connectNlm_stale (hp : clntInfo.sinPort ≠ 0)
    (hu : Unreported NLM_PROG NLM_VERS4 run.net.log) :
    let r := connectNlm env type srcIp clntInfo run
    r.2.calls = run.calls ∧
      ((¬ env.nlm.Serves ∧ r.1 = none) ∨ env.nlm.Serves ∧ ∃ c, r.1 = some c ∧
        .connect c.fd clntInfo ∈ r.2.net.log ∧ Unreported NLM_PROG NLM_VERS4 r.2.net.log) := by
  refine ⟨rfl, ?_⟩
  by_cases hs : env.nlm.Serves
  · have hr : env.nlm.Returns srcIp clntInfo := ⟨fun h0 => absurd h0 hp, hs⟩
    obtain ⟨n', heq, hlog⟩ := createRpcClient_returns type NLM_PROG NLM_VERS4 run.net hr
    obtain ⟨evs, hlog', hu', -⟩ := createRpcClient_nonzero NLM_PROG NLM_VERS4 type env.nlm srcIp hp
      run.net
    simp only [connectNlm, heq] at hlog' ⊢
    refine .inr ⟨hs, _, rfl, ?_, ?_⟩
    · rw [hlog]
      have hmem := mem_createEvents type NLM_VERS4 run.net env.nlm NLM_PROG srcIp clntInfo
      rw [CreateOutcome.service, if_neg hp] at hmem
      exact List.mem_append_right _ hmem
    · rw [hlog']
      exact hu.append hu'
  · exact .inl ⟨hs, createRpcClient_none type NLM_PROG NLM_VERS4 run.net fun hr => hs hr.2⟩

end

section
variable {env : ClearLocksEnv} (type : Socktype) {srcIp : InAddr} (name : CString) {server : InAddr}

/-- The status monitor's client, if there is one, is connected to the port reported. -/
theorem smNotify_reported (hr : env.sm.Returns srcIp ⟨server, 0⟩) {call : ClearLocksCall}
    (hproc : call.proc = .smNotify)
    (hc : call.client = some ⟨serviceFd ⟨server, 0⟩ {}, SM_PROG, SM_VERS, true⟩) :
    call.Reported (createEvents env.sm type SM_PROG SM_VERS srcIp ⟨server, 0⟩ {}) := by
  refine ⟨_, hc, ⟨_, mem_createEvents type SM_VERS {} env.sm SM_PROG srcIp ⟨server, 0⟩⟩, ?_⟩
  intro dst hdst
  rw [createEvents_connect hdst, hproc]
  exact ⟨type.protocol, createEvents_getport type SM_VERS {} SM_PROG srcIp rfl (hr.1 rfl).2⟩

/-- The first connection reports no port for the lock manager. -/
theorem sm_unreported (env : ClearLocksEnv) (srcIp server : InAddr) : Unreported NLM_PROG NLM_VERS4
    (createRpcClient env.sm type SM_PROG SM_VERS srcIp ⟨server, 0⟩ {}).2.2.log := by
  obtain ⟨evs, hlog, hu⟩ := createRpcClient_other type SM_VERS {} env.sm srcIp ⟨server, 0⟩
    (by decide : NLM_PROG ≠ SM_PROG) NLM_VERS4
  rw [hlog]
  exact Unreported.append (fun _ _ h => by simp at h) hu

/-- **After a notification that fails**, the other call does not go where it should. -/
theorem notify_failed (hr : env.sm.Returns srcIp ⟨server, 0⟩) (hn : env.notify = false) :
    let run := (clearLocksRun env type srcIp name server).2
    ∃ call ∈ run.calls, ¬ call.Reported run.net.log := by
  obtain ⟨n', heq, -⟩ := createRpcClient_returns type SM_PROG SM_VERS {} hr
  have hu := sm_unreported type env srcIp server
  rw [heq] at hu
  have hp : (env.sm.service ⟨server, 0⟩).sinPort ≠ 0 := (hr.1 rfl).2
  simp only [clearLocksRun, heq, doNotify, clearLocksCall, hn, Option.isSome_some, if_true]
  generalize hrun : ({ net := destroyRpcClient _ n', calls := _ } : ClearLocksRun) = run
  have hunr : Unreported NLM_PROG NLM_VERS4 run.net.log := by
    rw [← hrun]
    obtain ⟨evs', hd, hu'⟩ := destroyRpcClient_log NLM_PROG NLM_VERS4
      (some ⟨serviceFd ⟨server, 0⟩ {}, SM_PROG, SM_VERS, true⟩) n'
    rw [hd]
    exact hu.append hu'
  obtain ⟨-, ⟨-, hnone⟩ | ⟨-, c, hsome, hconn, hunr'⟩⟩ := connectNlm_stale env type srcIp hp hunr
  · -- the call is made on NULL
    refine ⟨_, List.mem_append_right _ (List.mem_singleton_self _), ?_⟩
    rintro ⟨c, hc, -⟩
    rw [hnone] at hc
    cases hc
  · refine ⟨_, List.mem_append_right _ (List.mem_singleton_self _), ?_⟩
    exact not_reported _ hsome hconn hp hunr'

/-- Without a client for the status monitor, the lock manager is looked for at the port that is left
    behind. -/
theorem noNotify_stale
    (hnone : (createRpcClient env.sm type SM_PROG SM_VERS srcIp ⟨server, 0⟩ {}).1 = none)
    (hp : (createRpcClient env.sm type SM_PROG SM_VERS srcIp ⟨server, 0⟩ {}).2.1.sinPort ≠ 0) :
    let run := (clearLocksRun env type srcIp name server).2
    (∀ call ∈ run.calls, call.Reported run.net.log) ↔ ¬ env.nlm.Serves := by
  have hu := sm_unreported type env srcIp server
  unfold clearLocksRun
  generalize createRpcClient env.sm type SM_PROG SM_VERS srcIp ⟨server, 0⟩ {} = r at hnone hp hu ⊢
  obtain ⟨client, clntInfo, n⟩ := r
  obtain rfl : client = none := hnone
  have hu : Unreported NLM_PROG NLM_VERS4 ({ net := n } : ClearLocksRun).net.log := hu
  obtain ⟨hcalls, hcase⟩ := connectNlm_stale env type srcIp hp hu
  dsimp only
  generalize connectNlm env type srcIp clntInfo { net := n } = r at hcalls hcase ⊢
  obtain ⟨client, run⟩ := r
  rcases hcase with ⟨hs, hcl⟩ | ⟨hs, c, hcl, hconn, hunr⟩
  · obtain rfl : client = none := hcl
    have hcalls : run.calls = [] := hcalls
    exact iff_of_true (by simp [hcalls]) hs
  · obtain rfl : client = some c := hcl
    refine iff_of_false (fun hall => ?_) (not_not.2 hs)
    refine not_reported ⟨.nlm4FreeAll, some c, name, .ofInt env.seconds⟩ rfl hconn hp hunr ?_
    exact hall _ (List.mem_append_right _ (List.mem_singleton_self _))

/-- If the status monitor is not registered, the portmapper is asked again. -/
theorem notRegistered_reported (hr : env.sm.ReachesPortmapper srcIp) (h0 : env.sm.reported = 0) :
    let run := (clearLocksRun env type srcIp name server).2
    ∀ call ∈ run.calls, call.Reported run.net.log := by
  have heq : createRpcClient env.sm type SM_PROG SM_VERS srcIp ⟨server, 0⟩ {} =
      (none, ⟨server, 0⟩, ⟨1, [0], queryEvents env.sm type SM_PROG SM_VERS srcIp
        ⟨server, htons PMAPPORT⟩ 0⟩) := by
    rw [createRpcClient_query SM_PROG SM_VERS type rfl (queryPortmapper_eq type SM_PROG SM_VERS _ {} hr)]
    simp [connectService, h0]
  simp only [clearLocksRun, heq]
  generalize hn : Net.mk 1 [0] (queryEvents env.sm type SM_PROG SM_VERS srcIp
    ⟨server, htons PMAPPORT⟩ 0) = n
  by_cases hs : env.nlm.Returns srcIp ⟨server, 0⟩
  · obtain ⟨n', heq', hlog⟩ := createRpcClient_returns type NLM_PROG NLM_VERS4 n hs
    simp only [connectNlm, heq', doFreeAll, clearLocksCall, List.nil_append, List.mem_singleton,
      forall_eq]
    have hmem := mem_createEvents type NLM_VERS4 n env.nlm NLM_PROG srcIp ⟨server, 0⟩
    refine ⟨_, rfl, ⟨_, hlog ▸ List.mem_append_right _ hmem⟩, ?_⟩
    intro dst hdst
    rw [hlog] at hdst ⊢
    rcases List.mem_append.1 hdst with hdst | hdst
    · -- the first query has another socket
      rw [← hn] at hdst
      unfold queryEvents getportEvents at hdst
      split_ifs at hdst
      all_goals
        cases hport : env.sm.getport
        all_goals simp [hport, serviceFd] at hdst
    · rw [createEvents_connect hdst]
      exact ⟨type.protocol, List.mem_append_right _
        (createEvents_getport type NLM_VERS4 n NLM_PROG srcIp rfl (hs.1 rfl).2)⟩
  · have hnone := createRpcClient_none type NLM_PROG NLM_VERS4 n hs
    unfold connectNlm
    generalize createRpcClient env.nlm type NLM_PROG NLM_VERS4 srcIp ⟨server, 0⟩ n = r at hnone ⊢
    obtain ⟨client, sock, n'⟩ := r
    obtain rfl : client = none := hnone
    simp

end

/-- **Where `clear_locks` sends its calls.**  Each has a client that is connected to the port reported
    for its program, iff the status monitor, once it is connected to, answers; and, if it is not, it
    is not registered, or the lock manager cannot be connected to either. -/
theorem clearLocks_sends_iff (env : ClearLocksEnv) (type : Socktype) (srcIp : InAddr)
    (clientName : CString) (server : InAddr) :
    let run := (clearLocksMain env type srcIp clientName server).2
    (∀ call ∈ run.calls, call.Reported run.net.log) ↔ env.Direct srcIp := by
  simp only [clearLocksMain, ClearLocksEnv.Direct]
  by_cases hr : env.sm.Returns srcIp ⟨server, 0⟩
  · have hdirect : env.sm.ReachesPortmapper srcIp ∧ env.sm.reported ≠ 0 ∧ env.sm.Serves :=
      ⟨(hr.1 rfl).1, (hr.1 rfl).2, hr.2⟩
    rw [if_pos hdirect]
    cases hn : env.notify with
    | false =>
      refine iff_of_false (fun hall => ?_) (by simp)
      obtain ⟨call, hcall, hnot⟩ := notify_failed type clientName hr hn
      exact hnot (hall call hcall)
    | true =>
      obtain ⟨n', heq, hlog⟩ := createRpcClient_returns type SM_PROG SM_VERS {} hr
      refine iff_of_true ?_ rfl
      simp only [clearLocksRun, heq, doNotify, clearLocksCall, hn, Option.isSome_some, if_true,
        List.nil_append, List.mem_singleton, forall_eq]
      rw [hlog]
      exact smNotify_reported type hr rfl rfl
  · have hnone := createRpcClient_none type SM_PROG SM_VERS {} hr
    have hdirect : ¬ (env.sm.ReachesPortmapper srcIp ∧ env.sm.reported ≠ 0 ∧ env.sm.Serves) :=
      fun h => hr ⟨fun _ => ⟨h.1, h.2.1⟩, h.2.2⟩
    rw [if_neg hdirect]
    by_cases hreach : env.sm.ReachesPortmapper srcIp
    · by_cases h0 : env.sm.reported = 0
      · exact iff_of_true (notRegistered_reported type clientName hreach h0) (.inl ⟨hreach, h0⟩)
      · rw [or_iff_right (fun h => h0 h.2)]
        refine noNotify_stale type clientName hnone ?_
        rw [createRpcClient_query SM_PROG SM_VERS type rfl
          (queryPortmapper_eq type SM_PROG SM_VERS _ {} hreach)]
        exact h0
    · rw [or_iff_right (fun h => hreach h.1)]
      refine noNotify_stale type clientName hnone ?_
      obtain ⟨evs, -, -, hstale⟩ := createRpcClient_zero SM_PROG SM_VERS type env.sm srcIp
        (rfl : (⟨server, 0⟩ : SockaddrIn).sinPort = 0) {}
      rw [(hstale hreach).1]
      exact htons_pmapport

/-- The status monitor is connected to but does not answer. -/
def smSilent (nlm : CreateOutcome) : ClearLocksEnv where
  sm := { getport := some 4045 }
  nlm := nlm
  notify := false

def silentRun (nlm : CreateOutcome) : Except Fault ℕ × ClearLocksRun :=
  clearLocksMain (smSilent nlm) .dgram .any "client".toList ⟨10, 0, 0, 1⟩

/-- The locks are freed at the port of the status monitor, or on NULL. -/
theorem clearLocks_smSilent :
    ((silentRun {}).1 = .ok 0 ∧
      (silentRun {}).2.calls.map (fun call => (call.proc, call.client.map (·.fd))) =
        [(.smNotify, some 1), (.nlm4FreeAll, some 2)] ∧
      .connect 2 ⟨⟨10, 0, 0, 1⟩, htons 4045⟩ ∈ (silentRun {}).2.net.log ∧
      ¬ ∀ call ∈ (silentRun {}).2.calls, call.Reported (silentRun {}).2.net.log) ∧
    (silentRun { connect := false }).1 = .error .nullDeref ∧
      (silentRun { connect := false }).2.calls.map (·.client) =
        [some ⟨1, SM_PROG, SM_VERS, true⟩, none] := by
  refine ⟨⟨by decide, by decide, by decide, fun hall => ?_⟩, by decide, by decide⟩
  have hr : (smSilent {}).sm.Returns .any ⟨⟨10, 0, 0, 1⟩, 0⟩ := by decide
  obtain ⟨call, hcall, hnot⟩ := notify_failed .dgram "client".toList hr rfl
  exact hnot (hall call hcall)

end NFStash
