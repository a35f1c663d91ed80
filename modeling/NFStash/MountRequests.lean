/-
  The requests of `nfsmount`.

  A run sends a MNT request for every export of every target that has a client in a round
  (`mountRequests`).  `mountExport_ok` says what one request does: the server's reply decides
  whether it is lost or got.  `rounds_stand` is the rule for the invariants of an export over the
  rounds, `rounds_requests` the rule for those of the variables of `main`, which may speak about
  all requests made so far, and `MountReached.inv` the same for every state that a run gets to.
-/
import NFStash.MountPolling

namespace NFStash

open CLib Loops

variable (cfg : MountConfig) (env : MountEnv)

/-! ## One request -/

/-- The server's reply to a request: its status and the bytes of its filehandle. -/
def serverReply (q : ℕ × ℕ × ℕ) : Option (UInt32 × List UInt8) :=
  match cfg.version with
  | .v3 => (env.mountres3 q.1 q.2.1 q.2.2).map fun res => (res.fhsStatus, res.fhandle.data)
  | _ => (env.fhstatus q.1 q.2.1 q.2.2).map fun status => (status.fhsStatus, status.fhsFhandle.toList)

/-- The filehandle of a reply is in the buffer, or its error has been printed. -/
def Received (host path : CString) (run : MountRun) (res : Mountres3) (run' : MountRun) : Prop :=
  if res.fhsStatus = MNT3_OK then
    run' = { run with root :=
      { len := res.fhandle.data.length
        val := memcpy run.root.val res.fhandle.data res.fhandle.data.length } }
  else ∃ text, mountError env res.fhsStatus = .ok text ∧ run' = run.emit (.error host path text)

/-- The variables when the reply to a request comes. -/
def asked (r j k : ℕ) (run : MountRun) : MountRun :=
  { run.emit (.mnt r j k) with root := { run.root with len := 0 } }

/-- A request with a filehandle has been counted, and the server told. -/
def counted (r j k : ℕ) (run : MountRun) : MountRun :=
  let run := { run with exportsOk := wrap64 (run.exportsOk + 1) }
  if cfg.unmount then run.emit (.umnt r j k) else run

section
variable {cfg env} {r j k : ℕ} {target : Target} {e e' : MountExports} {run run' : MountRun}
  {res : Mountres3}

theorem serverReply_eq {q : ℕ × ℕ × ℕ} (h : mountReply cfg env q.1 q.2.1 q.2.2 = some res) :
    serverReply cfg env q = some (res.fhsStatus, res.fhandle.data) := by
  unfold mountReply at h
  unfold serverReply
  cases hv : cfg.version with
  | v3 =>
    simp only [hv, Option.map_eq_some_iff] at h
    obtain ⟨reply, hreply, rfl⟩ := h
    simp [hreply, copyMountres3]
  | _ =>
    simp only [hv, fhstatusToMountres3, Option.map_eq_some_iff] at h
    obtain ⟨status, hstatus, rfl⟩ := h
    simp [hstatus]

/-- A reply with a filehandle is `MNT3_OK`. -/
theorem Mountres3.handle_ne (h : res.handle ≠ []) :
    res.fhsStatus = MNT3_OK ∧ res.handle = res.fhandle.data := by
  unfold Mountres3.handle at h ⊢
  split_ifs at h ⊢ with hs
  · exact ⟨hs, rfl⟩
  · exact absurd rfl h

theorem getRootFilehandle_ok {host path : CString}
    (h : getRootFilehandle cfg env r j k host path run = .ok run') :
    ∃ res, mountReply cfg env r j k = some res ∧ Received env host path (asked r j k run) res run' := by
  simp only [getRootFilehandle, mountprocMntX_eq] at h
  cases hr : mountReply cfg env r j k with
  | none => simp [hr, bind, Except.bind] at h
  | some res =>
    refine ⟨res, rfl, ?_⟩
    simp only [hr, bind_eq_ok, Except.ok.injEq, exists_eq_left', rootResult] at h
    unfold Received asked
    split_ifs at h ⊢ with hs
    · exact (Except.ok.inj h).symm
    · obtain ⟨text, htext, h⟩ := bind_eq_ok.1 h
      exact ⟨text, htext, (Except.ok.inj h).symm⟩

/-- Without a filehandle nothing is in the buffer. -/
theorem Received.len {host path : CString} (h : Received env host path (asked r j k run) res run') :
    run'.root.len = res.handle.length := by
  unfold Received at h
  unfold Mountres3.handle
  split_ifs at h ⊢ with hs
  · rw [h]
  · obtain ⟨text, -, rfl⟩ := h
    rfl

/-- With one, the buffer starts with it. -/
theorem Received.handle {host path : CString} (h : Received env host path (asked r j k run) res run') :
    run'.root.val.take run'.root.len = res.handle := by
  rw [h.len]
  unfold Received at h
  unfold Mountres3.handle
  split_ifs at h ⊢ with hs
  · rw [h]
    simp [memcpy]
  · simp

/-- The trace has the request and at most one message after it. -/
theorem Received.trace {host path : CString} (h : Received env host path (asked r j k run) res run') :
    ∃ text, run'.trace = run.trace ++ .mnt r j k :: text ∧
      ∀ event ∈ text, ∃ host path message, event = .error host path message := by
  unfold Received at h
  split_ifs at h with hs
  · exact ⟨[], by simp [h, asked, MountRun.emit], by simp⟩
  · obtain ⟨text, -, rfl⟩ := h
    refine ⟨[.error host path text], by simp [asked, MountRun.emit], ?_⟩
    intro event hevent
    exact ⟨host, path, text, List.mem_singleton.1 hevent⟩

/-- The counters are not changed. -/
theorem Received.counters {host path : CString}
    (h : Received env host path (asked r j k run) res run') :
    run'.exportsSent = run.exportsSent ∧ run'.exportsOk = run.exportsOk := by
  unfold Received at h
  split_ifs at h with hs
  · rw [h]
    exact ⟨rfl, rfl⟩
  · obtain ⟨text, -, rfl⟩ := h
    exact ⟨rfl, rfl⟩

/-- **One request**: its reply is there, and the request is lost or got. -/
theorem mountExport_ok (h : mountExport cfg env r j target k e run = .ok (e', run')) :
    ∃ res run₁, mountReply cfg env r j k = some res ∧
      Received env target.name e.path (asked r j k run) res run₁ ∧
      (res.handle = [] ∧ e' = { e with sent := wrap64 (e.sent + 1) } ∧
          run' = { run₁ with exportsSent := wrap64 (run.exportsSent + 1) } ∨
        res.handle ≠ [] ∧ mountSuccess cfg env r j k target { e with sent := wrap64 (e.sent + 1) }
          { run₁ with exportsSent := wrap64 (run.exportsSent + 1) } = .ok (e', run')) := by
  simp only [mountExport, bind_eq_ok] at h
  obtain ⟨run₁, hroot, h⟩ := h
  obtain ⟨res, hr, hrec⟩ := getRootFilehandle_ok hroot
  refine ⟨res, run₁, hr, hrec, ?_⟩
  rw [← hrec.counters.1]
  rw [hrec.len] at h
  split_ifs at h with hlen
  · obtain ⟨rfl, rfl⟩ := Prod.mk.inj (Except.ok.inj h)
    exact .inl ⟨List.length_eq_zero_iff.1 hlen, rfl, rfl⟩
  · exact .inr ⟨by simpa using hlen, h⟩

theorem mountSuccess_ok {p : MountExports × MountRun} :
    mountSuccess cfg env r j k target e run = .ok p ↔
      ∃ e₁, mountRecord cfg (env.usec r j k) { e with received := wrap64 (e.received + 1) } = .ok e₁ ∧
        mountOutput cfg env r j k target e₁ (counted cfg r j k run) = .ok p :=
  bind_eq_ok

theorem counted_root : (counted cfg r j k run).root = run.root := by
  unfold counted
  split_ifs <;> rfl

theorem counted_exportsSent : (counted cfg r j k run).exportsSent = run.exportsSent := by
  unfold counted
  split_ifs <;> rfl

theorem counted_exportsOk : (counted cfg r j k run).exportsOk = wrap64 (run.exportsOk + 1) := by
  unfold counted
  split_ifs <;> rfl

theorem counted_trace (cfg : MountConfig) (r j k : ℕ) (run : MountRun) : (counted cfg r j k run).trace =
    run.trace ++ if cfg.unmount then [.umnt r j k] else [] := by
  unfold counted
  split_ifs <;> simp [MountRun.emit]

/-- What is printed does not touch the counters and times. -/
theorem printOutput_stats {root : Root} {clock : ℕ × ℕ} {usec : ℕ} {line : MountLine}
    (h : printOutput cfg env target e root clock usec = .ok (e', line)) :
    e'.toStats = e.toStats ∧ e'.path = e.path := by
  rcases printOutput_ok h with ⟨rfl, -⟩ | ⟨obj, -, rfl, -⟩
  · exact ⟨rfl, rfl⟩
  · exact ⟨rfl, rfl⟩

theorem mountOutput_stats (h : mountOutput cfg env r j k target e run = .ok (e', run')) :
    e'.toStats = e.toStats := by
  rcases mountOutput_ok h with ⟨rfl, -⟩ | ⟨line, hp, -⟩
  · rfl
  · exact (printOutput_stats hp).1

theorem mountOutput_counters (h : mountOutput cfg env r j k target e run = .ok (e', run')) :
    run'.exportsSent = run.exportsSent ∧ run'.exportsOk = run.exportsOk := by
  rcases mountOutput_ok h with ⟨-, rfl⟩ | ⟨line, -, rfl⟩
  · exact ⟨rfl, rfl⟩
  · exact ⟨rfl, rfl⟩

end

/-! ## Exports over the rounds -/

/-- Target `j` at the start of round `r`, with `Q` of its exports; it was `t₀` before the first
    round. -/
structure Stands (Q : ℕ → MountExports → Prop) (j : ℕ) (t₀ : Target) (r : ℕ) (t : Target) : Prop where
  client : t.client = clientBefore cfg env j t₀ r
  exports : t.exports.length = t₀.exports.length
  each : ∀ k e, t.exports[k]? = some e → Q k e

/-- All targets at the start of round `r`; they were `ts` before the first round. -/
def AllStand (Q : ℕ → ℕ → MountExports → Prop) (ts : List Target) (r : ℕ) (targets : List Target) :
    Prop :=
  Pointwise (fun j t₀ t => Stands cfg env (Q j) j t₀ r t) ts targets

/-- Round `r` leads from `Q` to `Q'`: a request does, and so does a round without a client. -/
structure Leads (ts : List Target) (r : ℕ) (Q Q' : ℕ → ℕ → MountExports → Prop) : Prop where
  sent : ∀ j t₀ k target e u e' u', ts[j]? = some t₀ → clientIn cfg env j t₀ r = true → Q j k e →
    mountExport cfg env r j target k e u = .ok (e', u') → Q' j k e'
  skipped : ∀ j t₀ k e, ts[j]? = some t₀ → clientIn cfg env j t₀ r = false → Q j k e → Q' j k e

section
variable {cfg env} {j r n : ℕ} {t₀ t t' : Target} {ts targets targets' : List Target}
  {run run' : MountRun} {s s' : MountState} {Q : ℕ → ℕ → MountExports → Prop}

theorem Stands.clientIn {Q : ℕ → MountExports → Prop} (h : Stands cfg env Q j t₀ r t) :
    (t.client || env.connect r j) = clientIn cfg env j t₀ r := by
  rw [h.client, NFStash.clientIn]

theorem mountTarget_stands {Q' : ℕ → ℕ → MountExports → Prop} (hround : Leads cfg env ts r Q Q')
    (h₀ : ts[j]? = some t₀) (ht : Stands cfg env (Q j) j t₀ r t)
    (h : mountTarget cfg env r j t run = .ok (t', run')) : Stands cfg env (Q' j) j t₀ (r + 1) t' := by
  obtain ⟨exports, hexp, rfl⟩ := mountTarget_ok.1 h
  rw [ht.clientIn] at hexp ⊢
  unfold mountTargetExports at hexp
  cases hc : clientIn cfg env j t₀ r with
  | true =>
    simp only [hc, if_true] at hexp
    refine ⟨by simp [clientBefore, ← hc, clientIn], (walk_length hexp).trans ht.exports, ?_⟩
    intro k e' he'
    obtain ⟨e, u, u', he, hstep⟩ := walk_get_before hexp he'
    rw [Nat.zero_add] at hstep
    exact hround.sent j t₀ k _ e u e' u' h₀ hc (ht.each k e he) hstep
  | false =>
    simp only [hc] at hexp
    obtain ⟨rfl, -⟩ := Prod.mk.inj (Except.ok.inj hexp)
    refine ⟨by simp [clientBefore, ← hc, clientIn], ht.exports, ?_⟩
    intro k e he
    exact hround.skipped j t₀ k e h₀ hc (ht.each k e he)

theorem mountRound_stand {Q' : ℕ → ℕ → MountExports → Prop} (hround : Leads cfg env ts r Q Q')
    (hs : AllStand cfg env Q ts r s.targets) (h : mountRound cfg env r s = .ok s') :
    AllStand cfg env Q' ts (r + 1) s'.targets :=
  hs.walk (mountRound_eq_ok.1 h).1 fun _ _ _ _ _ _ h₀ ht hstep => mountTarget_stands hround h₀ ht hstep

theorem allStand_zero (hQ : ∀ j t, ts[j]? = some t → ∀ k e, t.exports[k]? = some e → Q j k e) :
    AllStand cfg env Q ts 0 ts := by
  refine pointwise_self ?_
  intro j t ht
  exact ⟨rfl, rfl, hQ j t ht⟩

/-- **Invariants of an export**: `Q r` holds of the exports at the start of round `r`. -/
theorem rounds_stand {Q : ℕ → ℕ → ℕ → MountExports → Prop}
    (hstep : ∀ r, Leads cfg env s.targets r (Q r) (Q (r + 1)))
    (hQ : ∀ j t, s.targets[j]? = some t → ∀ k e, t.exports[k]? = some e → Q 0 j k e)
    (h : rounds (mountRound cfg env) n 0 s = .ok s') :
    AllStand cfg env (Q n) s.targets n s'.targets := by
  refine rounds_inv (P := fun k u => AllStand cfg env (Q k) s.targets k (MountState.targets u)) ?_
    (allStand_zero hQ) h
  intro k u u' _ hu hround
  rw [Nat.zero_add] at hround
  exact mountRound_stand (hstep k) hu hround

end

/-! ## The requests of a run -/

/-- The reply to a request brings a filehandle. -/
def Got (q : ℕ × ℕ × ℕ) : Prop := ∃ res, mountReply cfg env q.1 q.2.1 q.2.2 = some res ∧ res.handle ≠ []

instance (q : ℕ × ℕ × ℕ) : Decidable (Got cfg env q) := by
  unfold Got
  cases mountReply cfg env q.1 q.2.1 q.2.2 with
  | none => exact isFalse (by simp)
  | some res => exact decidable_of_iff (res.handle ≠ []) (by simp)

/-- The number of requests to a target in a round, if the targets were `ts` before the first. -/
def mountSends (ts : List Target) (r j : ℕ) : ℕ :=
  (ts[j]?).elim 0 fun t => if clientIn cfg env j t r then t.exports.length else 0

/-- The requests of `n` rounds: the round, the target and the export. -/
def mountRequests (ts : List Target) (n : ℕ) : List (ℕ × ℕ × ℕ) :=
  requestGrid (mountSends cfg env ts) ts.length n

/-- The variables of `main` with `P`, which may speak about the requests made so far: a new connection
    keeps it, and so does a request for an export with `Q`. -/
structure Keeps (P : List (ℕ × ℕ × ℕ) → MountRun → Prop) (Q : ℕ → ℕ → ℕ → MountExports → Prop) :
    Prop where
  connect : ∀ done u r j ok, P done u → P done (u.emit (.connect r j ok))
  mnt : ∀ done u r j k target e e' u', P done u → Q r j k e →
    mountExport cfg env r j target k e u = .ok (e', u') → P (done ++ [(r, j, k)]) u'

section
variable {cfg env} {r n : ℕ} {ts targets targets' : List Target} {run run' : MountRun}
  {s s' : MountState} {P : List (ℕ × ℕ × ℕ) → MountRun → Prop} {Q : ℕ → ℕ → ℕ → MountExports → Prop}

theorem mem_mountRequests {q : ℕ × ℕ × ℕ} : q ∈ mountRequests cfg env ts n ↔ q.1 < n ∧
    ∃ t, ts[q.2.1]? = some t ∧ clientIn cfg env q.2.1 t q.1 = true ∧ q.2.2 < t.exports.length := by
  rw [mountRequests, mem_requestGrid, mountSends]
  constructor
  · rintro ⟨hr, hj, hk⟩
    rw [List.getElem?_eq_getElem hj, Option.elim_some] at hk
    split_ifs at hk with hc
    · exact ⟨hr, _, List.getElem?_eq_getElem hj, hc, hk⟩
    · exact absurd hk (Nat.not_lt_zero _)
  · rintro ⟨hr, t, ht, hc, hk⟩
    refine ⟨hr, (List.getElem?_eq_some_iff.1 ht).1, ?_⟩
    rw [ht, Option.elim_some, if_pos hc]
    exact hk

theorem Keeps.mountConnect {j : ℕ} {t : Target} (hP : Keeps cfg env P Q) (done : List (ℕ × ℕ × ℕ))
    (h : P done run) : P done (mountConnect env r j t run).2 := by
  unfold NFStash.mountConnect
  split_ifs with hc
  · exact h
  · exact hP.connect done run r j _ h

/-- The requests for the exports of a target. -/
theorem Keeps.exports {j : ℕ} {target : Target} {es es' : List MountExports} (hP : Keeps cfg env P Q)
    (done : List (ℕ × ℕ × ℕ)) (hQ : ∀ k e, es[k]? = some e → Q r j k e) (h : P done run)
    (hw : walk (mountExport cfg env r j target) 0 es run = .ok (es', run')) :
    P (done ++ nodeRequests r j es.length) run' := by
  refine walk_nodeRequests ?_ h hw
  intro done k e u e' u' he hd hstep
  exact hP.mnt done u r j k target e e' u' hd (hQ k e he) hstep

theorem Keeps.target {j : ℕ} {t₀ t t' : Target} (hP : Keeps cfg env P Q)
    (done : List (ℕ × ℕ × ℕ)) (h₀ : ts[j]? = some t₀) (ht : Stands cfg env (Q r j) j t₀ r t)
    (h : P done run) (hw : mountTarget cfg env r j t run = .ok (t', run')) :
    P (done ++ nodeRequests r j (mountSends cfg env ts r j)) run' := by
  obtain ⟨exports, hexp, -⟩ := mountTarget_ok.1 hw
  have hconnect : P done (NFStash.mountConnect env r j t run).2 := hP.mountConnect done h
  rw [ht.clientIn] at hexp
  unfold mountTargetExports at hexp
  rw [mountSends, h₀, Option.elim_some]
  cases hc : clientIn cfg env j t₀ r with
  | true =>
    simp only [hc, if_true] at hexp
    rw [if_pos rfl, ← ht.exports]
    exact hP.exports done ht.each hconnect hexp
  | false =>
    simp only [hc] at hexp
    obtain ⟨-, rfl⟩ := Prod.mk.inj (Except.ok.inj hexp)
    simpa [nodeRequests] using hconnect

/-- The requests of one round. -/
theorem Keeps.round (hP : Keeps cfg env P Q) (done : List (ℕ × ℕ × ℕ))
    (hs : AllStand cfg env (Q r) ts r targets) (h : P done run)
    (hw : walk (mountTarget cfg env r) 0 targets run = .ok (targets', run')) :
    P (done ++ roundGrid (mountSends cfg env ts) ts.length r) run' := by
  refine walk_roundGrid hs.length ?_ h hw
  intro done j t u t' u' ht hd hstep
  obtain ⟨t₀, h₀, hstands⟩ := hs.get_before ht
  exact hP.target done h₀ hstands hd hstep

/-- **Invariants of the variables**, with all requests that have been made. -/
theorem rounds_requests (hP : Keeps cfg env P Q)
    (hstep : ∀ r, Leads cfg env s.targets r (Q r) (Q (r + 1)))
    (hQ : ∀ j t, s.targets[j]? = some t → ∀ k e, t.exports[k]? = some e → Q 0 j k e)
    (h₀ : P [] s.toMountRun) (h : rounds (mountRound cfg env) n 0 s = .ok s') :
    P (mountRequests cfg env s.targets n) s'.toMountRun := by
  refine rounds_done (P := fun done u => P done (MountState.toMountRun u))
    (roundGrid (mountSends cfg env s.targets) s.targets.length) ?_ h₀ h
  intro done k u u' _ hu hd hround
  exact hP.round done (rounds_stand hstep hQ hu) hd (mountRound_eq_ok.1 hround).1

end

/-! ## The states that a run gets to -/

/-- The run that starts in `s` gets to the request for export `k` of target `j` in round `r`. -/
inductive MountReaches (s : MountState) (r j k : ℕ) (target : Target) (e : MountExports)
    (run : MountRun) : Prop
  | intro {sr : MountState} {t : Target} {u : MountRun}
    (rounds : rounds (mountRound cfg env) r 0 s = .ok sr)
    (targets : Reaches (mountTarget cfg env r) 0 sr.targets sr.toMountRun j u)
    (get : sr.targets[j]? = some t)
    (connected : mountConnect env r j t u = (target, (mountConnect env r j t u).2))
    (client : target.client = true)
    (exports : Reaches (mountExport cfg env r j target) 0 target.exports (mountConnect env r j t u).2
      k run)
    (get' : target.exports[k]? = some e)

/-- The states at the end of a round, and at each request. -/
inductive MountReached (s : MountState) : MountRun → Prop
  | round {n : ℕ} {s' : MountState} (h : rounds (mountRound cfg env) n 0 s = .ok s') :
    MountReached s s'.toMountRun
  | request {r j k : ℕ} {target : Target} {e : MountExports} {run : MountRun}
    (h : MountReaches cfg env s r j k target e run) : MountReached s run

section
variable {cfg env} {r j k : ℕ} {target : Target} {e : MountExports} {run : MountRun} {s : MountState}
  {P : MountRun → Prop} {Q : ℕ → ℕ → ℕ → MountExports → Prop}

/-- **Invariants of every state that a run gets to.** -/
theorem MountReached.inv (hP : Keeps cfg env (fun _ => P) Q)
    (hstep : ∀ r, Leads cfg env s.targets r (Q r) (Q (r + 1)))
    (hQ : ∀ j t, s.targets[j]? = some t → ∀ k e, t.exports[k]? = some e → Q 0 j k e)
    (h₀ : P s.toMountRun) (h : MountReached cfg env s run) : P run := by
  cases h with
  | round h => exact rounds_requests hP hstep hQ h₀ h
  | @request r j k target e run h =>
    obtain @⟨sr, t, u, hrounds, ⟨ts', htargets⟩, hget, hconnected, -, ⟨es', hexports⟩, -⟩ := h
    have hs := rounds_stand hstep hQ hrounds
    have hr : P sr.toMountRun := rounds_requests hP hstep hQ h₀ hrounds
    have hu : P u := hP.round [] (hs.take j) hr htargets
    have hc : P (mountConnect env r j t u).2 := hP.mountConnect [] hu
    obtain ⟨t₀, -, ht⟩ := hs.get_before hget
    rw [mountConnect_eq] at hconnected
    obtain ⟨rfl, -⟩ := Prod.mk.inj hconnected
    refine hP.exports [] (fun k' e' he' => ?_) hc hexports
    rw [List.getElem?_take] at he'
    split_ifs at he'
    exact ht.each k' e' he'

end

end NFStash
