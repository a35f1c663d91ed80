/-
  The sockets of `create_rpc_client`.

  Both halves of a call open a socket, and only the one of a client that is returned is ever
  closed again.  `sockets_conserved_iff`: after any calls the open sockets are those of the clients
  that were returned and not yet destroyed, iff no call has opened a socket for the
  portmapper, or for a service that it then fails to make a client for.

  `createRpcClient_bound_iff`: every socket that is connected has been bound to the source
  address, unless `bindresvport` is denied, as it is for users other than root.
-/
import NFStash.Rpc
import Mathlib.Data.List.Perm.Basic
import Mathlib.Tactic.Common

namespace NFStash

open CLib

/-! ## What a call does -/

/-- The calls for the service succeed; `bindresvport` may be denied. -/
def CreateOutcome.Serves (o : CreateOutcome) : Prop :=
  o.socket ∧ o.bindresvport ≠ .failed ∧ o.connect ∧ o.create

instance (o : CreateOutcome) : Decidable o.Serves :=
  inferInstanceAs (Decidable (_ ∧ _ ∧ _ ∧ _))

instance (o : CreateOutcome) (srcIp : InAddr) : Decidable (o.ReachesPortmapper srcIp) :=
  inferInstanceAs (Decidable (_ ∧ _ ∧ _))

/-- The port a query yields. -/
def CreateOutcome.reported (o : CreateOutcome) : UInt16 :=
  if o.pmCreate then (o.getport.map fun p => htons (.ofNat p)).getD 0 else 0

/-- The protocol the portmapper is asked for. -/
def Socktype.protocol : Socktype → ℕ
  | .stream => PMAP_IPPROTO_TCP
  | .dgram => PMAP_IPPROTO_UDP

section
variable (o : CreateOutcome) (type : Socktype) (prognum version : ℕ) (srcIp : InAddr)
  (dst : SockaddrIn) (fd : ℕ)

/-- What the portmapper answers. -/
def getportEvents : List RpcEvent :=
  if o.pmCreate then
    .create fd PMAPPROG PMAPVERS :: match o.getport with
      | some p => [.getport prognum version type.protocol (htons (.ofNat p))]
      | none => []
  else []

/-- The calls for a query that is reached. -/
def queryEvents : List RpcEvent :=
  .socket fd :: ((if srcIp = .any then [] else [.bind fd srcIp]) ++
    .connect fd dst :: getportEvents o type prognum version fd)

/-- The calls for a client that is made. -/
def serviceEvents : List RpcEvent :=
  .socket fd :: ((if o.bindresvport = .ok then [.bind fd srcIp] else []) ++
    [.connect fd dst, .create fd prognum version])

end

section
variable (type : Socktype) (prognum version : ℕ) {o : CreateOutcome} {srcIp : InAddr}

/-- What the portmapper answers, over a connection that has been made. -/
theorem getRpcPort_eq (n : Net) (protocol fd : ℕ) (hp : protocol = type.protocol) :
    getRpcPort (if o.pmCreate then some ⟨fd, PMAPPROG, PMAPVERS, false⟩ else none) prognum version
        protocol o.getport (if o.pmCreate then n.emit (.create fd PMAPPROG PMAPVERS) else n) =
      (o.reported, { n with log := n.log ++ getportEvents o type prognum version fd }) := by
  subst hp
  cases hc : o.pmCreate with
  | false => simp [getRpcPort, CreateOutcome.reported, getportEvents, hc]
  | true =>
    cases hport : o.getport with
    | none => simp [getRpcPort, CreateOutcome.reported, getportEvents, Net.emit, hc, hport]
    | some p => simp [getRpcPort, CreateOutcome.reported, getportEvents, Net.emit, hc, hport]

/-- **A query that is reached.** -/
theorem queryPortmapper_eq (dst : SockaddrIn) (n : Net) (hr : o.ReachesPortmapper srcIp) :
    queryPortmapper o type prognum version srcIp dst n = (some o.reported,
      { next := n.next + 1, opened := n.next :: n.opened
        log := n.log ++ queryEvents o type prognum version srcIp dst n.next }) := by
  obtain ⟨h1, h2, h3⟩ := hr
  have hb : ¬ (srcIp ≠ .any ∧ (!o.pmBind) = true) := by
    rcases h2 with h2 | h2
    · simp [h2]
    · simp [h2]
  simp only [queryPortmapper, h1, h3, if_neg hb, Bool.not_true, Bool.false_eq_true, if_false]
  rw [destroyRpcClient_open fun c hc => by split_ifs at hc; simp at hc; rw [← hc],
    getRpcPort_eq type prognum version _ _ _ (by cases type <;> rfl)]
  by_cases hs : srcIp = .any
  · simp [queryEvents, Net.emit, Net.openSocket, hs]
  · simp [queryEvents, Net.emit, Net.openSocket, hs]

/-- The sockets after a query that is not reached. -/
theorem queryPortmapper_early_opened (dst : SockaddrIn) (n : Net) (hr : ¬ o.ReachesPortmapper srcIp) :
    (queryPortmapper o type prognum version srcIp dst n).1 = none ∧
      (queryPortmapper o type prognum version srcIp dst n).2.opened =
        if o.pmSocket then n.next :: n.opened else n.opened := by
  obtain ⟨-, hnone, -, -⟩ := queryPortmapper_early prognum version type hr dst n
  refine ⟨hnone, ?_⟩
  cases h1 : o.pmSocket with
  | false => simp [queryPortmapper, h1]
  | true =>
    by_cases hb : srcIp ≠ .any ∧ (!o.pmBind) = true
    · simp only [queryPortmapper, h1, if_pos hb, Bool.not_true, Bool.false_eq_true, if_false, if_true]
      rfl
    · have h3 : o.pmConnect = false := by
        by_contra h3
        refine hr ⟨h1, ?_, by simpa using h3⟩
        by_contra h2
        rw [not_or] at h2
        exact hb ⟨h2.1, by simpa using h2.2⟩
      simp only [queryPortmapper, h1, if_neg hb, h3, Bool.not_true, Bool.not_false, Bool.false_eq_true,
        if_false, if_true]
      split_ifs
      · rfl
      · rfl

variable {dst : SockaddrIn} (n : Net)

/-- **A connection that is made.** -/
theorem connectService_eq (hp : dst.sinPort ≠ 0) (hs : o.Serves) :
    connectService o prognum version srcIp dst n = (some ⟨n.next, prognum, version, true⟩,
      { next := n.next + 1, opened := n.next :: n.opened
        log := n.log ++ serviceEvents o prognum version srcIp dst n.next }) := by
  obtain ⟨h1, h2, h3, h4⟩ := hs
  cases hb : o.bindresvport with
  | ok => simp [connectService, serviceEvents, Net.emit, Net.openSocket, hp, h1, h3, h4, hb]
  | eacces => simp [connectService, serviceEvents, Net.emit, Net.openSocket, hp, h1, h3, h4, hb]
  | failed => exact absurd hb h2

/-- A connection that is not made. -/
theorem connectService_none (srcIp : InAddr) (h : dst.sinPort = 0 ∨ ¬ o.Serves) :
    (connectService o prognum version srcIp dst n).1 = none ∧
      (connectService o prognum version srcIp dst n).2.opened =
        if dst.sinPort ≠ 0 ∧ o.socket then n.next :: n.opened else n.opened := by
  by_cases hp : dst.sinPort = 0
  · simp [connectService, hp]
  · cases h1 : o.socket with
    | false => simp [connectService, hp, h1]
    | true =>
      have hs : o.bindresvport = .failed ∨ o.connect = false ∨ o.create = false := by
        by_contra hn
        simp only [not_or, Bool.not_eq_false] at hn
        exact h.elim hp fun hn' => hn' ⟨h1, hn.1, hn.2.1, hn.2.2⟩
      cases hb : o.bindresvport with
      | failed => simp [connectService, Net.openSocket, hp, h1, hb]
      | _ =>
        rcases hs with hs | hs | hs
        · simp [hb] at hs
        · simp [connectService, Net.emit, Net.openSocket, hp, h1, hb, hs]
        · cases h3 : o.connect with
          | false => simp [connectService, Net.emit, Net.openSocket, hp, h1, hb, h3]
          | true => simp [connectService, Net.emit, Net.openSocket, hp, h1, hb, hs, h3]

end

/-! ### A client that is returned -/

/-- The calls of `create_rpc_client` succeed, and the program is registered. -/
def CreateOutcome.Returns (o : CreateOutcome) (srcIp : InAddr) (clientSock : SockaddrIn) : Prop :=
  (clientSock.sinPort = 0 → o.ReachesPortmapper srcIp ∧ o.reported ≠ 0) ∧ o.Serves

instance (o : CreateOutcome) (srcIp : InAddr) (clientSock : SockaddrIn) :
    Decidable (o.Returns srcIp clientSock) :=
  inferInstanceAs (Decidable ((_ → _) ∧ _))

/-- The address the service is looked for at, if it gets so far. -/
def CreateOutcome.service (o : CreateOutcome) (clientSock : SockaddrIn) : SockaddrIn :=
  if clientSock.sinPort = 0 then { clientSock with sinPort := o.reported } else clientSock

/-- The socket of the service, if it gets so far. -/
def serviceFd (clientSock : SockaddrIn) (n : Net) : ℕ :=
  if clientSock.sinPort = 0 then n.next + 1 else n.next

/-- The calls that lead to a client. -/
def createEvents (o : CreateOutcome) (type : Socktype) (prognum version : ℕ) (srcIp : InAddr)
    (clientSock : SockaddrIn) (n : Net) : List RpcEvent :=
  (if clientSock.sinPort = 0 then
    queryEvents o type prognum version srcIp { clientSock with sinPort := htons PMAPPORT } n.next
  else []) ++ serviceEvents o prognum version srcIp (o.service clientSock) (serviceFd clientSock n)

section
variable (type : Socktype) (prognum version : ℕ) {o : CreateOutcome} {srcIp : InAddr}
  {clientSock : SockaddrIn} (n : Net)

/-- **A call that returns a client.** -/
theorem createRpcClient_returns (h : o.Returns srcIp clientSock) : ∃ n',
    createRpcClient o type prognum version srcIp clientSock n =
      (some ⟨serviceFd clientSock n, prognum, version, true⟩, o.service clientSock, n') ∧
    n'.log = n.log ++ createEvents o type prognum version srcIp clientSock n := by
  obtain ⟨hq, hs⟩ := h
  by_cases h0 : clientSock.sinPort = 0
  · obtain ⟨hr, hp⟩ := hq h0
    rw [createRpcClient_query prognum version type h0 (queryPortmapper_eq type prognum version _ n hr),
      connectService_eq prognum version _ hp hs]
    simp only [CreateOutcome.service, serviceFd, createEvents, if_pos h0]
    exact ⟨_, rfl, List.append_assoc ..⟩
  · rw [createRpcClient, if_neg h0, connectService_eq prognum version n h0 hs]
    simp only [CreateOutcome.service, serviceFd, createEvents, if_neg h0]
    exact ⟨_, rfl, rfl⟩

/-- A call that does not. -/
theorem createRpcClient_none (h : ¬ o.Returns srcIp clientSock) :
    (createRpcClient o type prognum version srcIp clientSock n).1 = none := by
  by_cases h0 : clientSock.sinPort = 0
  · by_cases hr : o.ReachesPortmapper srcIp
    · rw [createRpcClient_query prognum version type h0 (queryPortmapper_eq type prognum version _ n hr)]
      refine (connectService_none prognum version _ srcIp ?_).1
      by_contra hor
      rw [not_or, not_not] at hor
      exact h ⟨fun _ => ⟨hr, hor.1⟩, hor.2⟩
    · obtain ⟨hnone, -⟩ := queryPortmapper_early_opened type prognum version
        { clientSock with sinPort := htons PMAPPORT } n hr
      rw [createRpcClient_early prognum version type h0 (Prod.ext hnone rfl)]
  · rw [createRpcClient, if_neg h0]
    exact (connectService_none prognum version n srcIp (.inr fun hs => h ⟨fun h0' => absurd h0' h0, hs⟩)).1

theorem createRpcClient_some {type : Socktype} {prognum version : ℕ} {n : Net} {c : Client}
    (h : (createRpcClient o type prognum version srcIp clientSock n).1 = some c) :
    o.Returns srcIp clientSock ∧ c = ⟨serviceFd clientSock n, prognum, version, true⟩ := by
  have hr : o.Returns srcIp clientSock := by
    by_contra hn
    rw [createRpcClient_none type prognum version n hn] at h
    cases h
  obtain ⟨n', heq, -⟩ := createRpcClient_returns type prognum version n hr
  rw [heq] at h
  exact ⟨hr, (Option.some.inj h).symm⟩

end

/-! ## Which sockets stay open -/

/-- The call leaves no socket open but that of a client it returns: none is opened for the portmapper,
    and one that is opened for the service gets a client. -/
def CreateOutcome.Closes (o : CreateOutcome) (clientSock : SockaddrIn) : Prop :=
  if clientSock.sinPort = 0 then o.pmSocket = false else (o.socket = true → o.Serves)

instance (o : CreateOutcome) (clientSock : SockaddrIn) : Decidable (o.Closes clientSock) :=
  inferInstanceAs (Decidable (if clientSock.sinPort = 0 then o.pmSocket = false
    else (o.socket = true → o.Serves)))

/-- The sockets of clients. -/
def fds (clients : List Client) : List ℕ := clients.map (·.fd)

section
variable (type : Socktype) (prognum version : ℕ) (srcIp : InAddr)

theorem connectService_opened (o : CreateOutcome) (dst : SockaddrIn) (n : Net) :
    ∃ leaked, (connectService o prognum version srcIp dst n).2.opened =
        fds (connectService o prognum version srcIp dst n).1.toList ++ leaked ++ n.opened ∧
      (leaked = [] ↔ (dst.sinPort ≠ 0 → o.socket = true → o.Serves)) := by
  by_cases h : dst.sinPort ≠ 0 ∧ o.Serves
  · rw [connectService_eq prognum version n h.1 h.2]
    exact ⟨[], rfl, iff_of_true rfl fun _ _ => h.2⟩
  · have hor : dst.sinPort = 0 ∨ ¬ o.Serves := by
      rw [not_and_or, not_not] at h
      exact h
    obtain ⟨hnone, hopened⟩ := connectService_none prognum version n srcIp hor
    rw [hnone, hopened]
    split_ifs with hs
    · refine ⟨[n.next], rfl, iff_of_false (List.cons_ne_nil _ _) ?_⟩
      intro hall
      exact h ⟨hs.1, hall hs.1 hs.2⟩
    · exact ⟨[], rfl, iff_of_true rfl fun h1 h2 => absurd ⟨h1, h2⟩ hs⟩

/-- **The sockets after a call.** -/
theorem createRpcClient_opened (o : CreateOutcome) (clientSock : SockaddrIn) (n : Net) :
    ∃ leaked, (createRpcClient o type prognum version srcIp clientSock n).2.2.opened =
        fds (createRpcClient o type prognum version srcIp clientSock n).1.toList ++ leaked ++ n.opened ∧
      (leaked = [] ↔ o.Closes clientSock) := by
  by_cases h0 : clientSock.sinPort = 0
  · simp only [CreateOutcome.Closes, if_pos h0]
    by_cases hr : o.ReachesPortmapper srcIp
    · rw [createRpcClient_query prognum version type h0 (queryPortmapper_eq type prognum version _ n hr)]
      obtain ⟨leaked, hleaked, -⟩ := connectService_opened prognum version srcIp o
        { clientSock with sinPort := o.reported } ⟨n.next + 1, n.next :: n.opened,
          n.log ++ queryEvents o type prognum version srcIp
            { clientSock with sinPort := htons PMAPPORT } n.next⟩
      -- the socket of the query is still open
      refine ⟨leaked ++ [n.next], by rw [hleaked]; simp, iff_of_false (by simp) ?_⟩
      rw [hr.1]
      exact Bool.noConfusion
    · obtain ⟨hnone, hopened⟩ := queryPortmapper_early_opened type prognum version
        { clientSock with sinPort := htons PMAPPORT } n hr
      rw [createRpcClient_early prognum version type h0 (Prod.ext hnone rfl)]
      simp only [hopened]
      cases o.pmSocket with
      | false => exact ⟨[], rfl, by simp⟩
      | true => exact ⟨[n.next], rfl, by simp⟩
  · simp only [CreateOutcome.Closes, if_neg h0]
    rw [createRpcClient, if_neg h0]
    obtain ⟨leaked, hleaked, hiff⟩ := connectService_opened prognum version srcIp o clientSock n
    exact ⟨leaked, hleaked, by simpa [h0] using hiff⟩

end

/-! ## Any sequence of calls -/

/-- The sockets of the process, and the clients that were returned and not yet destroyed. -/
structure Ledger where
  net : Net := {}
  clients : List Client := []

/-- A call of one of the two functions; clients are destroyed by their place in the ledger, and where
    there is none, the pointer is NULL. -/
inductive RpcCall where
  | create (o : CreateOutcome) (type : Socktype) (prognum version : ℕ) (srcIp : InAddr)
      (clientSock : SockaddrIn)
  | destroy (k : ℕ)

def RpcCall.run (s : Ledger) : RpcCall → Ledger
  | .create o type prognum version srcIp clientSock =>
    let (client, _, net) := createRpcClient o type prognum version srcIp clientSock s.net
    { net, clients := client.toList ++ s.clients }
  | .destroy k => { net := destroyRpcClient s.clients[k]? s.net, clients := s.clients.eraseIdx k }

/-- The ledger after some calls. -/
def runCalls (calls : List RpcCall) : Ledger := calls.foldl RpcCall.run {}

/-- The sockets open are those of the clients. -/
def Ledger.Conserved (s : Ledger) : Prop := s.net.opened.Perm (fds s.clients)

/-- The call leaves no other socket open. -/
def RpcCall.Closes : RpcCall → Prop
  | .create o _ _ _ _ clientSock => o.Closes clientSock
  | .destroy _ => True

/-- The sockets open are those of the clients, which are set to close them, and others that have
    been lost. -/
structure Accounts (s : Ledger) (leaked : List ℕ) : Prop where
  opened : s.net.opened.Perm (fds s.clients ++ leaked)
  fdClose : ∀ c ∈ s.clients, c.fdClose = true

section
variable {s : Ledger} {leaked : List ℕ}

/-- **One call** accounts for its sockets. -/
theorem Accounts.run (h : Accounts s leaked) (call : RpcCall) :
    ∃ leaked', Accounts (call.run s) (leaked' ++ leaked) ∧ (leaked' = [] ↔ call.Closes) := by
  cases call with
  | create o type prognum version srcIp clientSock =>
    obtain ⟨leaked', hopened, hiff⟩ := createRpcClient_opened type prognum version srcIp o clientSock s.net
    refine ⟨leaked', ⟨?_, ?_⟩, hiff⟩
    · simp only [RpcCall.run, hopened, fds, List.map_append, List.append_assoc]
      refine List.Perm.append_left _ ?_
      calc (leaked' ++ s.net.opened).Perm (leaked' ++ (fds s.clients ++ leaked)) :=
            List.Perm.append_left _ h.opened
        _ = (leaked' ++ fds s.clients) ++ leaked := (List.append_assoc ..).symm
        _ |>.Perm ((fds s.clients ++ leaked') ++ leaked) := List.Perm.append_right _ List.perm_append_comm
        _ = fds s.clients ++ (leaked' ++ leaked) := List.append_assoc ..
    · intro c hc
      simp only [RpcCall.run, List.mem_append, Option.mem_toList] at hc
      rcases hc with hc | hc
      · rw [(createRpcClient_some hc).2]
      · exact h.fdClose c hc
  | destroy k =>
    refine ⟨[], ⟨?_, fun c hc => h.fdClose c (List.mem_of_mem_eraseIdx hc)⟩, iff_of_true rfl trivial⟩
    rcases hk : s.clients[k]? with _ | c
    · have hlen := List.getElem?_eq_none_iff.1 hk
      simpa [RpcCall.run, hk, destroyRpcClient, List.eraseIdx_of_length_le hlen] using h.opened
    · obtain ⟨hlt, rfl⟩ := List.getElem?_eq_some_iff.1 hk
      have hclose := h.fdClose _ (List.getElem_mem hlt)
      have hperm := (List.getElem_cons_eraseIdx_perm hlt).symm.map Client.fd
      simp only [RpcCall.run, hk, destroyRpcClient, hclose, if_true, Net.closeSocket, List.nil_append]
      have hall := h.opened.trans (List.Perm.append_right leaked hperm)
      simpa [fds] using hall.erase (s.clients[k]).fd

/-- **Any calls** account for their sockets. -/
theorem runCalls_accounts (calls : List RpcCall) :
    ∃ leaked, Accounts (runCalls calls) leaked ∧ (leaked = [] ↔ ∀ call ∈ calls, call.Closes) := by
  induction calls using List.reverseRecOn with
  | nil => exact ⟨[], ⟨List.Perm.refl _, by simp [runCalls]⟩, by simp⟩
  | append_singleton calls call ih =>
    obtain ⟨leaked, hacc, hiff⟩ := ih
    obtain ⟨leaked', hacc', hiff'⟩ := hacc.run call
    refine ⟨leaked' ++ leaked, ?_, ?_⟩
    · rwa [runCalls, List.foldl_concat]
    · rw [List.append_eq_nil_iff, hiff, hiff']
      simp only [List.mem_append, List.mem_singleton, or_imp, forall_and, forall_eq]
      exact and_comm

theorem Accounts.conserved_iff (h : Accounts s leaked) : s.Conserved ↔ leaked = [] := by
  constructor
  · intro hc
    have hlen := (hc.symm.trans h.opened).length_eq
    rw [List.length_append] at hlen
    exact List.length_eq_zero_iff.1 (by omega)
  · rintro rfl
    have hopened := h.opened
    rwa [List.append_nil] at hopened

end

/-- A call opens the socket of its client and no other, iff it opens none for the portmapper, and none
    for a service without making a client of it. -/
theorem createRpcClient_conserved_iff (o : CreateOutcome) (type : Socktype) (prognum version : ℕ)
    (srcIp : InAddr) (clientSock : SockaddrIn) (n : Net) :
    let r := createRpcClient o type prognum version srcIp clientSock n
    r.2.2.opened.Perm (fds r.1.toList ++ n.opened) ↔ o.Closes clientSock := by
  obtain ⟨leaked, hopened, hiff⟩ := createRpcClient_opened type prognum version srcIp o clientSock n
  simp only [hopened, ← hiff]
  constructor
  · intro hperm
    have hlen := hperm.length_eq
    simp only [List.length_append] at hlen
    exact List.length_eq_zero_iff.1 (by omega)
  · rintro rfl
    rw [List.append_nil]

/-- **Sockets are conserved**: after any calls the open sockets are those of the clients that were
    returned and not yet destroyed, iff each call closes what it should. -/
theorem sockets_conserved_iff (calls : List RpcCall) :
    (runCalls calls).Conserved ↔ ∀ call ∈ calls, call.Closes := by
  obtain ⟨leaked, hacc, hiff⟩ := runCalls_accounts calls
  rw [hacc.conserved_iff, hiff]

/-- After a call that goes well, through the portmapper, and the destruction of its client the socket
    of the query is open. -/
theorem sockets_portmapper_leaked :
    let calls : List RpcCall :=
      [.create { getport := some 635 } .dgram 100005 3 .any ⟨⟨10, 0, 0, 1⟩, 0⟩, .destroy 0]
    (runCalls calls).clients = [] ∧ (runCalls calls).net.opened = [0] ∧ ¬ (runCalls calls).Conserved := by
  refine ⟨by decide, by decide, ?_⟩
  unfold Ledger.Conserved
  decide

/-! ## The source address -/

/-- Every socket that is connected has been bound to `src` before, the sockets `bound` before the
    first event. -/
def BoundBefore (src : InAddr) : List ℕ → List RpcEvent → Prop
  | _, [] => True
  | bound, .bind fd addr :: evs => BoundBefore src (if addr = src then fd :: bound else bound) evs
  | bound, .connect fd _ :: evs => fd ∈ bound ∧ BoundBefore src bound evs
  | bound, .socket _ :: evs => BoundBefore src bound evs
  | bound, .create _ _ _ :: evs => BoundBefore src bound evs
  | bound, .getport _ _ _ _ :: evs => BoundBefore src bound evs
  | bound, .close _ :: evs => BoundBefore src bound evs

section
variable {o : CreateOutcome} {type : Socktype} {prognum version : ℕ} {srcIp : InAddr} {dst : SockaddrIn}
  {bound : List ℕ} {fd : ℕ} {evs : List RpcEvent}

/-- The socket of a query is bound. -/
theorem boundBefore_queryEvents (hsrc : srcIp ≠ .any) :
    BoundBefore srcIp bound (queryEvents o type prognum version srcIp dst fd ++ evs) ↔
      BoundBefore srcIp (fd :: bound) evs := by
  cases hc : o.pmCreate with
  | false => simp [queryEvents, getportEvents, BoundBefore, hsrc, hc]
  | true => cases hp : o.getport <;> simp [queryEvents, getportEvents, BoundBefore, hsrc, hc, hp]

/-- The socket of the service is bound if `bindresvport` succeeds. -/
theorem boundBefore_serviceEvents (hfd : fd ∉ bound) :
    BoundBefore srcIp bound (serviceEvents o prognum version srcIp dst fd) ↔ o.bindresvport = .ok := by
  cases hb : o.bindresvport <;> simp [serviceEvents, BoundBefore, hb, hfd]

theorem boundBefore_createEvents (clientSock : SockaddrIn) (n : Net) (hsrc : srcIp ≠ .any) :
    BoundBefore srcIp [] (createEvents o type prognum version srcIp clientSock n) ↔
      o.bindresvport = .ok := by
  unfold createEvents serviceFd
  split_ifs
  · rw [boundBefore_queryEvents hsrc, boundBefore_serviceEvents (by simp)]
  · rw [List.nil_append, boundBefore_serviceEvents (by simp)]

end

/-- **The source address is used** by every socket of a call that returns a client, iff it does not get
    the client after `bindresvport` was denied. -/
theorem createRpcClient_bound_iff (o : CreateOutcome) (type : Socktype) (prognum version : ℕ)
    (srcIp : InAddr) (clientSock : SockaddrIn) (n : Net) (hsrc : srcIp ≠ .any) :
    let r := createRpcClient o type prognum version srcIp clientSock n
    (r.1.isSome = true → BoundBefore srcIp [] (r.2.2.log.drop n.log.length)) ↔
      (o.bindresvport = .eacces → ¬ o.Returns srcIp clientSock) := by
  by_cases hr : o.Returns srcIp clientSock
  · obtain ⟨n', heq, hlog⟩ := createRpcClient_returns type prognum version n hr
    simp only [heq, hlog, List.drop_left, Option.isSome_some, forall_const, hr, not_true_eq_false,
      boundBefore_createEvents clientSock n hsrc]
    -- a failure of another kind has no client
    have hfailed := hr.2.2.1
    cases hb : o.bindresvport with
    | failed => exact absurd hb hfailed
    | _ => simp
  · simp [createRpcClient_none type prognum version n hr, hr]

/-- A source address. -/
def localAddr : InAddr := ⟨10, 0, 0, 2⟩

theorem createRpcClient_bound_iff_root :
    let r := createRpcClient { getport := some 635 } .dgram 100005 3 localAddr ⟨⟨10, 0, 0, 1⟩, 0⟩ {}
    (r.1.isSome = true → BoundBefore localAddr [] (r.2.2.log.drop 0)) ↔
      (BindResult.ok = .eacces → ¬ CreateOutcome.Returns { getport := some 635 } localAddr
        ⟨⟨10, 0, 0, 1⟩, 0⟩) :=
  createRpcClient_bound_iff _ _ _ _ _ _ _ (by decide)

/-- Without root, the socket of the service is connected from any address. -/
theorem createRpcClient_unbound :
    let r := createRpcClient { bindresvport := .eacces } .stream 100003 3 localAddr
      ⟨⟨10, 0, 0, 1⟩, htons 2049⟩ {}
    r.1 = some ⟨0, 100003, 3, true⟩ ∧
      r.2.2.log = [.socket 0, .connect 0 ⟨⟨10, 0, 0, 1⟩, htons 2049⟩, .create 0 100003 3] ∧
      ¬ BoundBefore localAddr [] r.2.2.log := by
  have hlog : (createRpcClient { bindresvport := .eacces } .stream 100003 3 localAddr
      ⟨⟨10, 0, 0, 1⟩, htons 2049⟩ {}).2.2.log =
      [.socket 0, .connect 0 ⟨⟨10, 0, 0, 1⟩, htons 2049⟩, .create 0 100003 3] := by decide
  refine ⟨by decide, hlog, ?_⟩
  rw [hlog]
  simp [BoundBefore]

end NFStash
