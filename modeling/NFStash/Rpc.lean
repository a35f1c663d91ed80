/-
  `rpc.c`: creating and destroying RPC clients.

  The outcomes of the system and library calls of one `create_rpc_client`
  call are a record (`CreateOutcome`); sockets are numbered in the order they are
  opened, and the calls that succeed are logged.

  `createRpcClient_port`: the caller's port is 0 or the port the portmapper
  reported after a call entered with port 0, iff the sockets calls before
  the portmapper query succeed.  Otherwise the port of the portmapper itself stays
  behind, and the next rounds talk to it.
-/
import NFStash.Types

namespace NFStash

open CLib

/-! ## Model -/

def PMAPPORT : UInt16 := 111
def PMAPPROG : ℕ := 100000
def NFS_PROGRAM : ℕ := 100003
def MOUNTPROG : ℕ := 100005
def RQUOTAPROG : ℕ := 100011
def KLM_PROG : ℕ := 100020
def NLM_PROG : ℕ := 100021
def SM_PROG : ℕ := 100024
def NFS_ACL_PROGRAM : ℕ := 100227
def PMAPVERS : ℕ := 2
def PMAP_IPPROTO_TCP : ℕ := 6
def PMAP_IPPROTO_UDP : ℕ := 17

/-- `hints->ai_socktype`. -/
inductive Socktype where
  | stream
  | dgram
deriving DecidableEq

/-- The result of `bindresvport`, with the `errno` the code looks at. -/
inductive BindResult where
  | ok
  | eacces
  | failed
deriving DecidableEq

/-- The outcomes of the calls of one `create_rpc_client`: first those for the connection to the
    portmapper, whose answer is `getport` (`none` if the RPC fails), then those for the service. -/
structure CreateOutcome where
  pmSocket : Bool := true
  pmBind : Bool := true
  pmConnect : Bool := true
  pmCreate : Bool := true
  getport : Option ℕ := none
  socket : Bool := true
  bindresvport : BindResult := .ok
  connect : Bool := true
  create : Bool := true
deriving DecidableEq

/-- A call that succeeded. -/
inductive RpcEvent where
  | socket (fd : ℕ)
  | bind (fd : ℕ) (src : InAddr)
  | connect (fd : ℕ) (dst : SockaddrIn)
  | create (fd prog vers : ℕ)
  /-- the portmapper reports the port (in network byte order) of a program -/
  | getport (prog vers protocol : ℕ) (port : UInt16)
  | close (fd : ℕ)
deriving DecidableEq

/-- The sockets of the process, and what has happened so far. -/
structure Net where
  next : ℕ := 0
  opened : List ℕ := []
  log : List RpcEvent := []
deriving DecidableEq

/-- `CLIENT`: its socket, program and version, and whether `CLSET_FD_CLOSE` is set. -/
structure Client where
  fd : ℕ
  prog : ℕ
  vers : ℕ
  fdClose : Bool := false
deriving DecidableEq

namespace Net

def emit (n : Net) (e : RpcEvent) : Net := { n with log := n.log ++ [e] }

/-- `socket()`; its result is `n.next`. -/
def openSocket (n : Net) : Net :=
  { next := n.next + 1, opened := n.next :: n.opened, log := n.log ++ [.socket n.next] }

def closeSocket (n : Net) (fd : ℕ) : Net :=
  { n with opened := n.opened.erase fd, log := n.log ++ [.close fd] }

end Net

/-- `get_rpc_port`, `res` being the result of `pmapproc_getport_2`: the port in network byte order,
    or 0. -/
def getRpcPort (client : Option Client) (prognum version protocol : ℕ) (res : Option ℕ) (n : Net) :
    UInt16 × Net :=
  match client, res with
  | some _, some p =>
    let port := htons (UInt16.ofNat p)
    (port, n.emit (.getport prognum version protocol port))
  | _, _ => (0, n)

/-- `destroy_rpc_client`: the socket is closed only if `CLSET_FD_CLOSE` is set. -/
def destroyRpcClient (client : Option Client) (n : Net) : Net :=
  match client with
  | some c => if c.fdClose then n.closeSocket c.fd else n
  | none => n

section
variable (o : CreateOutcome) (type : Socktype) (prognum version : ℕ) (srcIp : InAddr)

/-- The first half of `create_rpc_client`, on the portmapper's socket address `dst`: the port it
    reports, or `none` where the function returns early. -/
def queryPortmapper (dst : SockaddrIn) (n : Net) : Option UInt16 × Net :=
  if !o.pmSocket then (none, n)
  else
    let sock := n.next
    let n := n.openSocket
    if srcIp ≠ .any ∧ !o.pmBind then (none, n)
    else
      let n := if srcIp ≠ .any then n.emit (.bind sock srcIp) else n
      if !o.pmConnect then (none, n)
      else
        let n := n.emit (.connect sock dst)
        let protocol := match type with
          | .stream => PMAP_IPPROTO_TCP
          | .dgram => PMAP_IPPROTO_UDP
        let client : Option Client := if o.pmCreate then some ⟨sock, PMAPPROG, PMAPVERS, false⟩ else none
        let n := if o.pmCreate then n.emit (.create sock PMAPPROG PMAPVERS) else n
        let (port, n) := getRpcPort client prognum version protocol o.getport n
        (some port, destroyRpcClient client n)

/-- The second half of `create_rpc_client`: the connection to the service at `dst`. -/
def connectService (dst : SockaddrIn) (n : Net) : Option Client × Net :=
  if dst.sinPort = 0 then (none, n)
  else if !o.socket then (none, n)
  else
    let sock := n.next
    let n := n.openSocket
    match o.bindresvport with
    | .failed => (none, n)
    | bound =>
      let n := if bound = .ok then n.emit (.bind sock srcIp) else n
      if !o.connect then (none, n)
      else
        let n := n.emit (.connect sock dst)
        -- `CLSET_FD_CLOSE` is set on every client that is returned
        if o.create then (some ⟨sock, prognum, version, true⟩, n.emit (.create sock prognum version))
        else (none, n)

/-- `create_rpc_client`: the client, if any, and the caller's socket address afterwards. -/
def createRpcClient (clientSock : SockaddrIn) (n : Net) : Option Client × SockaddrIn × Net :=
  if clientSock.sinPort = 0 then
    -- the caller's port is overwritten before anything can fail
    let pm := { clientSock with sinPort := htons PMAPPORT }
    match queryPortmapper o type prognum version srcIp pm n with
    | (none, n) => (none, pm, n)
    | (some port, n) =>
      let dst := { clientSock with sinPort := port }
      let (client, n) := connectService o prognum version srcIp dst n
      (client, dst, n)
  else
    let (client, n) := connectService o prognum version srcIp clientSock n
    (client, clientSock, n)

end

/-! ## The caller's port -/

/-- The calls before the portmapper query succeed: `socket`, `bind` if there is a source address,
    and `connect`. -/
def CreateOutcome.ReachesPortmapper (o : CreateOutcome) (srcIp : InAddr) : Prop :=
  o.pmSocket ∧ (srcIp = .any ∨ o.pmBind) ∧ o.pmConnect

/-- The port `p` is 0, or `log` has the portmapper report it for the program. -/
def PortOk (prognum version : ℕ) (p : UInt16) (log : List RpcEvent) : Prop :=
  p = 0 ∨ ∃ protocol, .getport prognum version protocol p ∈ log

/-- No port other than 0 is reported for the program in `log`. -/
def Unreported (prognum version : ℕ) (log : List RpcEvent) : Prop :=
  ∀ protocol p, .getport prognum version protocol p ∈ log → p = 0

section
variable {prognum version : ℕ}

theorem Unreported.append {l l' : List RpcEvent} (h : Unreported prognum version l)
    (h' : Unreported prognum version l') : Unreported prognum version (l ++ l') :=
  fun protocol p hp => (List.mem_append.1 hp).elim (h protocol p) (h' protocol p)

theorem PortOk.append {p : UInt16} {l' : List RpcEvent} (l : List RpcEvent)
    (h : PortOk prognum version p l') : PortOk prognum version p (l ++ l') :=
  h.imp id fun ⟨protocol, hp⟩ => ⟨protocol, List.mem_append_right l hp⟩

theorem PortOk.mono {p : UInt16} {l : List RpcEvent} (l' : List RpcEvent)
    (h : PortOk prognum version p l) : PortOk prognum version p (l ++ l') :=
  h.imp id fun ⟨protocol, hp⟩ => ⟨protocol, List.mem_append_left l' hp⟩

variable (prognum version) (type : Socktype) {o : CreateOutcome} {srcIp : InAddr}

theorem getRpcPort_spec (client : Option Client) (protocol : ℕ) (res : Option ℕ) (n : Net) :
    ∃ evs, (getRpcPort client prognum version protocol res n).2.log = n.log ++ evs ∧
      PortOk prognum version (getRpcPort client prognum version protocol res n).1 evs ∧
      ((getRpcPort client prognum version protocol res n).1 = 0 → Unreported prognum version evs) := by
  unfold getRpcPort
  split
  · refine ⟨[_], rfl, Or.inr ⟨protocol, List.mem_singleton_self _⟩, ?_⟩
    intro h0 protocol' p' hp
    simp only [List.mem_singleton, RpcEvent.getport.injEq] at hp
    exact hp.2.2.2.trans h0
  · exact ⟨[], by simp, Or.inl rfl, fun _ _ _ h => by simp at h⟩

theorem destroyRpcClient_open {client : Option Client} (h : ∀ c, client = some c → c.fdClose = false)
    (n : Net) : destroyRpcClient client n = n := by
  cases client with
  | none => rfl
  | some c => simp [destroyRpcClient, h c rfl]

/-- A query that is reached leaves a reported port. -/
theorem queryPortmapper_reached (hr : o.ReachesPortmapper srcIp) (dst : SockaddrIn) (n : Net) :
    ∃ port evs, (queryPortmapper o type prognum version srcIp dst n).1 = some port ∧
      (queryPortmapper o type prognum version srcIp dst n).2.log = n.log ++ evs ∧
      PortOk prognum version port evs ∧ (port = 0 → Unreported prognum version evs) := by
  obtain ⟨h1, h2, h3⟩ := hr
  have hb : ¬ (srcIp ≠ .any ∧ (!o.pmBind) = true) := by
    rcases h2 with h2 | h2
    · simp [h2]
    · simp [h2]
  simp only [queryPortmapper, h1, h3, if_neg hb, Bool.not_true, Bool.false_eq_true, if_false]
  rw [destroyRpcClient_open fun c hc => by split_ifs at hc; simp at hc; rw [← hc]]
  generalize hm : (if o.pmCreate = true then _ else _ : Net) = m
  have hlog : ∃ pre, m.log = n.log ++ pre ∧ Unreported prognum version pre := by
    subst hm
    split_ifs
    all_goals
      simp only [Net.emit, Net.openSocket, List.append_assoc]
      exact ⟨_, rfl, fun protocol p hp => by simp at hp⟩
  obtain ⟨pre, hpre, hu⟩ := hlog
  obtain ⟨evs, he, hok, h0⟩ := getRpcPort_spec prognum version
    (if o.pmCreate = true then some ⟨n.next, PMAPPROG, PMAPVERS, false⟩ else none)
    (match type with | .stream => PMAP_IPPROTO_TCP | .dgram => PMAP_IPPROTO_UDP) o.getport m
  exact ⟨_, pre ++ evs, rfl, by rw [he, hpre, List.append_assoc], hok.append pre,
    fun hp => hu.append (h0 hp)⟩

/-- A query that is not reached leaves the function early. -/
theorem queryPortmapper_early (hr : ¬ o.ReachesPortmapper srcIp) (dst : SockaddrIn) (n : Net) :
    ∃ evs, (queryPortmapper o type prognum version srcIp dst n).1 = none ∧
      (queryPortmapper o type prognum version srcIp dst n).2.log = n.log ++ evs ∧
      ∀ prog vers, Unreported prog vers evs := by
  by_cases h1 : o.pmSocket = true
  · by_cases hb : srcIp ≠ .any ∧ (!o.pmBind) = true
    · simp only [queryPortmapper, h1, if_pos hb, Bool.not_true, Bool.false_eq_true, if_false]
      exact ⟨_, trivial, rfl, fun _ _ protocol p hp => by simp at hp⟩
    · have h3 : o.pmConnect = false := by
        by_contra h3
        refine hr ⟨h1, ?_, by simpa using h3⟩
        by_contra h2
        simp only [not_or] at h2
        exact hb ⟨h2.1, by simpa using h2.2⟩
      simp only [queryPortmapper, h1, if_neg hb, h3, Bool.not_true, Bool.not_false, Bool.false_eq_true,
        if_false, if_true]
      split_ifs
      all_goals
        simp only [Net.emit, Net.openSocket, List.append_assoc]
        exact ⟨_, trivial, rfl, fun _ _ protocol p hp => by simp at hp⟩
  · simp only [queryPortmapper, h1, Bool.not_false, if_true]
    exact ⟨[], trivial, by simp, fun _ _ _ _ hp => by simp at hp⟩

theorem connectService_log (o : CreateOutcome) (srcIp : InAddr) (dst : SockaddrIn) (n : Net) :
    ∃ evs, (connectService o prognum version srcIp dst n).2.log = n.log ++ evs ∧
      ∀ prog vers, Unreported prog vers evs := by
  have hnil : ∃ evs, n.log = n.log ++ evs ∧ ∀ prog vers, Unreported prog vers evs :=
    ⟨[], by simp, fun _ _ _ _ hp => by simp at hp⟩
  cases hb : o.bindresvport <;> simp only [connectService, hb] <;> split_ifs <;>
    first
    | exact hnil
    | simp only [Net.emit, Net.openSocket, List.append_assoc]
      exact ⟨_, rfl, fun _ _ protocol p hp => by simp at hp⟩

/-- `create_rpc_client` where the query returns early. -/
theorem createRpcClient_early {clientSock : SockaddrIn} (h : clientSock.sinPort = 0) {n n' : Net}
    (hq : queryPortmapper o type prognum version srcIp
      { clientSock with sinPort := htons PMAPPORT } n = (none, n')) :
    createRpcClient o type prognum version srcIp clientSock n =
      (none, { clientSock with sinPort := htons PMAPPORT }, n') := by
  simp only [createRpcClient, if_pos h, hq]

/-- `create_rpc_client` where the query yields a port. -/
theorem createRpcClient_query {clientSock : SockaddrIn} (h : clientSock.sinPort = 0) {n n' : Net}
    {port : UInt16} (hq : queryPortmapper o type prognum version srcIp
      { clientSock with sinPort := htons PMAPPORT } n = (some port, n')) :
    createRpcClient o type prognum version srcIp clientSock n =
      ((connectService o prognum version srcIp { clientSock with sinPort := port } n').1,
        { clientSock with sinPort := port },
        (connectService o prognum version srcIp { clientSock with sinPort := port } n').2) := by
  simp only [createRpcClient, if_pos h, hq]

/-- What a call entered with port 0 leaves behind. -/
theorem createRpcClient_zero (o : CreateOutcome) (srcIp : InAddr) {clientSock : SockaddrIn}
    (h : clientSock.sinPort = 0) (n : Net) :
    ∃ evs, (createRpcClient o type prognum version srcIp clientSock n).2.2.log = n.log ++ evs ∧
      let port := (createRpcClient o type prognum version srcIp clientSock n).2.1.sinPort
      (o.ReachesPortmapper srcIp → PortOk prognum version port evs ∧
        (port = 0 → Unreported prognum version evs)) ∧
      (¬ o.ReachesPortmapper srcIp → port = htons PMAPPORT ∧ Unreported prognum version evs) := by
  by_cases hr : o.ReachesPortmapper srcIp
  · obtain ⟨port, evs, hq, hlog, hok, h0⟩ := queryPortmapper_reached prognum version type hr
      { clientSock with sinPort := htons PMAPPORT } n
    rw [createRpcClient_query prognum version type h (Prod.ext hq rfl)]
    obtain ⟨evs', hlog', hu⟩ := connectService_log prognum version o srcIp { clientSock with sinPort := port }
      (queryPortmapper o type prognum version srcIp { clientSock with sinPort := htons PMAPPORT } n).2
    exact ⟨evs ++ evs', by rw [hlog', hlog, List.append_assoc],
      fun _ => ⟨hok.mono evs', fun hp => (h0 hp).append (hu _ _)⟩, fun hn => absurd hr hn⟩
  · obtain ⟨evs, hq, hlog, hu⟩ := queryPortmapper_early prognum version type hr
      { clientSock with sinPort := htons PMAPPORT } n
    rw [createRpcClient_early prognum version type h (Prod.ext hq rfl)]
    exact ⟨evs, hlog, fun h' => absurd h' hr, fun _ => ⟨rfl, hu _ _⟩⟩

/-- A call entered with a port keeps it. -/
theorem createRpcClient_nonzero (o : CreateOutcome) (srcIp : InAddr) {clientSock : SockaddrIn}
    (h : clientSock.sinPort ≠ 0) (n : Net) :
    ∃ evs, (createRpcClient o type prognum version srcIp clientSock n).2.2.log = n.log ++ evs ∧
      Unreported prognum version evs ∧
      (createRpcClient o type prognum version srcIp clientSock n).2.1 = clientSock := by
  obtain ⟨evs, hlog, hu⟩ := connectService_log prognum version o srcIp clientSock n
  rw [createRpcClient, if_neg h]
  exact ⟨evs, hlog, hu _ _, rfl⟩

theorem htons_pmapport : htons PMAPPORT ≠ 0 := by decide

/-- The port of the portmapper is not a port reported for the program. -/
theorem not_portOk_pmapport {prognum version : ℕ} {l : List RpcEvent}
    (h : Unreported prognum version l) :
    ¬ PortOk prognum version (htons PMAPPORT) l := by
  rintro (h0 | ⟨protocol, hp⟩)
  · exact htons_pmapport h0
  · exact htons_pmapport (h protocol _ hp)

end

/-! ## Reconnecting every round -/

section
variable (type : Socktype) (prognum version : ℕ) (srcIp : InAddr)

/-- One round of reconnecting: a client is created and destroyed again. -/
def reconnect (s : SockaddrIn × Net) (o : CreateOutcome) : SockaddrIn × Net :=
  let (client, sock, n) := createRpcClient o type prognum version srcIp s.1 s.2
  (sock, destroyRpcClient client n)

/-- The socket address and the sockets after some rounds. -/
def reconnects (s : SockaddrIn × Net) (os : List CreateOutcome) : SockaddrIn × Net :=
  os.foldl (reconnect type prognum version srcIp) s

/-- Between rounds: the port is 0 or reported, and nothing is reported while it is 0. -/
def PortInv (s : SockaddrIn × Net) : Prop :=
  PortOk prognum version s.1.sinPort s.2.log ∧ (s.1.sinPort = 0 → Unreported prognum version s.2.log)

variable {type prognum version srcIp}

theorem destroyRpcClient_log (prognum version : ℕ) (client : Option Client) (n : Net) :
    ∃ evs, (destroyRpcClient client n).log = n.log ++ evs ∧ Unreported prognum version evs := by
  have hnil : ∃ evs, n.log = n.log ++ evs ∧ Unreported prognum version evs :=
    ⟨[], by simp, fun _ _ hp => by simp at hp⟩
  unfold destroyRpcClient
  split
  · split_ifs
    · exact ⟨_, rfl, fun _ _ hp => by simp at hp⟩
    · exact hnil
  · exact hnil

/-- A round keeps the invariant unless it stops before the query. -/
theorem reconnect_inv {s : SockaddrIn × Net} {o : CreateOutcome} (hs : PortInv prognum version s)
    (hr : s.1.sinPort = 0 → o.ReachesPortmapper srcIp) :
    PortInv prognum version (reconnect type prognum version srcIp s o) := by
  obtain ⟨evs', hd, hu'⟩ := destroyRpcClient_log prognum version
    (createRpcClient o type prognum version srcIp s.1 s.2).1
    (createRpcClient o type prognum version srcIp s.1 s.2).2.2
  by_cases h0 : s.1.sinPort = 0
  · obtain ⟨evs, hlog, hp, -⟩ := createRpcClient_zero prognum version type o srcIp h0 s.2
    obtain ⟨hok, hz⟩ := hp (hr h0)
    simp only [PortInv, reconnect, hd, hlog]
    exact ⟨(hok.append _).mono _, fun h => ((hs.2 h0).append (hz h)).append hu'⟩
  · obtain ⟨evs, hlog, -, hk⟩ := createRpcClient_nonzero prognum version type o srcIp h0 s.2
    simp only [PortInv, reconnect, hd, hlog, hk]
    exact ⟨(hs.1.mono _).mono _, fun h => absurd h h0⟩

/-- A round that stops before the query leaves the port of the portmapper behind. -/
theorem reconnect_stuck {s : SockaddrIn × Net} {o : CreateOutcome} (hs : PortInv prognum version s)
    (h0 : s.1.sinPort = 0) (hr : ¬ o.ReachesPortmapper srcIp) :
    let s' := reconnect type prognum version srcIp s o
    ¬ PortOk prognum version s'.1.sinPort s'.2.log := by
  obtain ⟨evs', hd, hu'⟩ := destroyRpcClient_log prognum version
    (createRpcClient o type prognum version srcIp s.1 s.2).1
    (createRpcClient o type prognum version srcIp s.1 s.2).2.2
  obtain ⟨evs, hlog, -, hp⟩ := createRpcClient_zero prognum version type o srcIp h0 s.2
  obtain ⟨hport, hu⟩ := hp hr
  simp only [reconnect, hd, hlog, hport]
  exact not_portOk_pmapport (((hs.2 h0).append hu).append hu')

theorem reconnects_take_succ {s : SockaddrIn × Net} {os : List CreateOutcome} {k : ℕ}
    {o : CreateOutcome} (ho : os[k]? = some o) :
    reconnects type prognum version srcIp s (os.take (k + 1)) =
      reconnect type prognum version srcIp (reconnects type prognum version srcIp s (os.take k)) o := by
  simp [reconnects, List.take_add_one, ho]

/-- Rounds of which none stops before the query keep the invariant. -/
theorem reconnects_inv (type : Socktype) {s : SockaddrIn × Net} {os : List CreateOutcome}
    (hs : PortInv prognum version s) (k : ℕ) (hr : ∀ j o, j < k → os[j]? = some o →
      (reconnects type prognum version srcIp s (os.take j)).1.sinPort = 0 → o.ReachesPortmapper srcIp) :
    PortInv prognum version (reconnects type prognum version srcIp s (os.take k)) := by
  induction k with
  | zero => simpa [reconnects] using hs
  | succ k ih =>
    have ih := ih fun j o hj => hr j o (by omega)
    rcases ho : os[k]? with _ | o
    · rwa [List.take_add_one, ho, Option.toList_none, List.append_nil]
    · rw [reconnects_take_succ ho]
      exact reconnect_inv ih (hr k o (by omega) ho)

end

/-- **The caller's port.**  A call entered with port 0 leaves 0 or the port it had reported iff it
    gets to the portmapper query; and in a run that starts with port 0, this is so after every
    round iff no round that enters with port 0 stops before the query. -/
theorem createRpcClient_port (type : Socktype) (prognum version : ℕ) (srcIp : InAddr) :
    (∀ (o : CreateOutcome) (clientSock : SockaddrIn) (n : Net), clientSock.sinPort = 0 →
      let r := createRpcClient o type prognum version srcIp clientSock n
      (PortOk prognum version r.2.1.sinPort (r.2.2.log.drop n.log.length) ↔
        o.ReachesPortmapper srcIp)) ∧
    ∀ (addr : InAddr) (os : List CreateOutcome),
      let s := fun k => reconnects type prognum version srcIp (⟨addr, 0⟩, {}) (os.take k)
      ((∀ k, PortOk prognum version (s k).1.sinPort (s k).2.log) ↔
        ∀ k o, os[k]? = some o → (s k).1.sinPort = 0 → o.ReachesPortmapper srcIp) := by
  constructor
  · intro o clientSock n h0
    obtain ⟨evs, hlog, hp, hn⟩ := createRpcClient_zero prognum version type o srcIp h0 n
    simp only [hlog, List.drop_left]
    constructor
    · intro hok
      by_contra hr
      obtain ⟨hport, hu⟩ := hn hr
      rw [hport] at hok
      exact not_portOk_pmapport hu hok
    · intro hr
      exact (hp hr).1
  · intro addr os
    have h₀ : PortInv prognum version ((⟨addr, 0⟩, {}) : SockaddrIn × Net) :=
      ⟨Or.inl rfl, fun _ _ _ hp => by simp at hp⟩
    constructor
    · intro h k
      -- the first round that stops before the query is not followed by an allowed port
      induction k using Nat.strongRecOn with
      | ind k ih =>
        intro o ho h0
        by_contra hr
        have hk := reconnects_inv type h₀ k fun j o hj => ih j hj o
        have := h (k + 1)
        simp only [reconnects_take_succ ho] at this
        exact reconnect_stuck hk h0 hr this
    · intro h k
      exact (reconnects_inv type h₀ k fun j o _ => h j o).1

/-- A portmapper that refuses the connection leaves its own port behind, and the next call makes
    a client for the mount program on that port without a query. -/
theorem createRpcClient_port_refused :
    let r := createRpcClient { pmConnect := false } .dgram 100005 3 .any ⟨⟨10, 0, 0, 1⟩, 0⟩ {}
    let r' := createRpcClient {} .dgram 100005 3 .any r.2.1 r.2.2
    ¬ PortOk 100005 3 r.2.1.sinPort r.2.2.log ∧ r'.1 = some ⟨1, 100005, 3, true⟩ ∧
      .connect 1 ⟨⟨10, 0, 0, 1⟩, htons PMAPPORT⟩ ∈ r'.2.2.log := by
  refine ⟨not_portOk_pmapport fun protocol p hp => ?_, by decide, by decide⟩
  have : (createRpcClient { pmConnect := false } .dgram 100005 3 .any
      ⟨⟨10, 0, 0, 1⟩, 0⟩ {}).2.2.log = [.socket 0] := by decide
  simp [this] at hp

end NFStash
