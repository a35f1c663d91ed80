/-
  The rounds of `nfsmount`.

  A round counts a request for every export of every target that has a client (`At`), so the
  counter of an export is the number of rounds in which its own target had one.  The loop
  looks at the counter of the first export of the first target: `mountLoop_counts_iff` says
  that it ends after `count` rounds iff this target has a client in each of them, and the
  replies do not stop the program.
-/
import NFStash.MakeTarget
import NFStash.Mount

namespace NFStash

open CLib Loops

variable (cfg : MountConfig) (env : MountEnv)

/-! ## One request -/

/-- The reply to a MNT request, as a reply of version 3. -/
def mountReply (r j k : ℕ) : Option Mountres3 :=
  match cfg.version with
  | .v3 => (env.mountres3 r j k).map copyMountres3
  | _ => fhstatusToMountres3 (env.fhstatus r j k)

/-- The bytes of the filehandle in a reply. -/
def Mountres3.handle (res : Mountres3) : List UInt8 :=
  if res.fhsStatus = MNT3_OK then res.fhandle.data else []

/-- The program survives the reply to a request: there is one, `mount_perror` has text for an
    error, and a filehandle is not to be printed as JSON (with a count there is no object). -/
structure Survives (r j k : ℕ) (res : Mountres3) : Prop where
  reply : mountReply cfg env r j k = some res
  text : res.fhsStatus ≠ MNT3_OK → ∃ text, mountError env res.fhsStatus = .ok text
  line : res.handle ≠ [] → cfg.quiet = true ∨ cfg.format ≠ .json ∨ env.printsNull .stdout = true

/-- The counters and the storage of an export after `m` requests. -/
structure Counted (m : ℕ) (e : MountExports) : Prop where
  sent : e.sent = m
  results : e.results.length = cfg.count
  jsonRoot : e.jsonRoot = none

section
variable {cfg env} {r j k m : ℕ} {target : Target} {e e' : MountExports} {run run' : MountRun}

theorem mountprocMntX_eq :
    mountprocMntX cfg env r j k = match mountReply cfg env r j k with
      | none => .error .nullDeref
      | some res => .ok (some res) := by
  unfold mountprocMntX mountReply
  cases cfg.version with
  | v3 => cases env.mountres3 r j k <;> rfl
  | v1 => cases env.fhstatus r j k <;> rfl
  | v2 => cases env.fhstatus r j k <;> rfl

/-- `get_root_filehandle` returns iff there is a reply, with text for an error. -/
theorem getRootFilehandle_ok_iff (cfg : MountConfig) (env : MountEnv) (host path : CString)
    (run : MountRun) :
    (∃ run', getRootFilehandle cfg env r j k host path run = .ok run') ↔
      ∃ res, mountReply cfg env r j k = some res ∧
        (res.fhsStatus ≠ MNT3_OK → ∃ text, mountError env res.fhsStatus = .ok text) := by
  simp only [getRootFilehandle, mountprocMntX_eq, bind_eq_ok]
  cases hr : mountReply cfg env r j k with
  | none => simp
  | some res =>
    by_cases hs : res.fhsStatus = MNT3_OK
    · simp [rootResult, hs]
    · simp [rootResult, hs, bind_eq_ok]

/-- What it leaves in the buffer. -/
theorem getRootFilehandle_len {host path : CString} {res : Mountres3}
    (h : getRootFilehandle cfg env r j k host path run = .ok run')
    (hr : mountReply cfg env r j k = some res) : run'.root.len = res.handle.length := by
  simp only [getRootFilehandle, mountprocMntX_eq, hr, bind_eq_ok] at h
  obtain ⟨_, hm, h⟩ := h
  obtain rfl := Except.ok.inj hm
  by_cases hs : res.fhsStatus = MNT3_OK
  · simp only [rootResult, if_pos hs, Except.ok.injEq] at h
    subst h
    simp [Mountres3.handle, hs]
  · simp only [rootResult, if_neg hs, bind_eq_ok] at h
    obtain ⟨text, -, h⟩ := h
    obtain rfl := Except.ok.inj h
    simp [Mountres3.handle, hs, MountRun.emit]

/-! ### Counters -/

/-- What is recorded of a reply: nothing in a single round, else its time. -/
theorem mountRecord_ok {usec : ℕ} (h : mountRecord cfg usec e = .ok e') :
    cfg.count = 0 ∧ (!cfg.loop) = true ∧ e' = e ∨
      ∃ results, e' = { e with toStats := { e.toStats.time usec with results } } ∧
        results.length = e.results.length := by
  unfold mountRecord at h
  split_ifs at h with hsingle
  · exact .inl ⟨hsingle.1, hsingle.2, (Except.ok.inj h).symm⟩
  · obtain ⟨stats, hstore, h⟩ := bind_eq_ok.1 h
    obtain ⟨-, rfl⟩ := Stats.store_ok hstore
    exact .inr ⟨_, (Except.ok.inj h).symm, List.length_set⟩
  · exact .inr ⟨_, (Except.ok.inj h).symm, rfl⟩

theorem mountRecord_counted {usec : ℕ} (he : Counted cfg m e) (h : mountRecord cfg usec e = .ok e') :
    Counted cfg m e' := by
  rcases mountRecord_ok h with ⟨-, -, rfl⟩ | ⟨results, rfl, hlength⟩
  · exact he
  · exact ⟨he.sent, hlength.trans he.results, he.jsonRoot⟩

/-- The results of the first `count` requests have a place in the array. -/
theorem mountRecord_total (usec : ℕ) (he : Counted cfg (m + 1) e) (hm : m < cfg.count)
    (hmax : cfg.count ≤ ULONG_MAX) : ∃ e', mountRecord cfg usec e = .ok e' := by
  unfold mountRecord
  split_ifs
  · exact ⟨_, rfl⟩
  · have hidx : wrap64 ((e.toStats.time usec).sent + ULONG_MAX) = m := by
      rw [Stats.time, he.sent, wrap64_pred (by omega)]
    have hlt : m < (e.toStats.time usec).results.length := by
      rw [Stats.time, he.results]
      exact hm
    rw [Stats.store, hidx, storeAt_ok hlt]
    exact ⟨_, rfl⟩
  · exact ⟨_, rfl⟩

/-- What is printed leaves an export as it is, unless it is an object, which gets the fields of the
    filehandle. -/
theorem printOutput_ok {root : Root} {clock : ℕ × ℕ} {usec : ℕ} {line : MountLine}
    (h : printOutput cfg env target e root clock usec = .ok (e', line)) :
    e' = e ∧ (cfg.format = .json → e.jsonRoot = none) ∨
      ∃ obj, e.jsonRoot = some obj ∧
        e' = { e with jsonRoot := some (printFhandle3 cfg root usec clock.1 obj) } ∧
        line = .json (some (printFhandle3 cfg root usec clock.1 obj)) := by
  simp only [printOutput, bind_eq_ok] at h
  obtain ⟨loss, -, h⟩ := h
  cases hf : cfg.format with
  | json =>
    simp only [hf] at h
    cases hobj : e.jsonRoot with
    | some obj =>
      simp only [hobj] at h
      obtain ⟨rfl, rfl⟩ := Prod.mk.inj (Except.ok.inj h)
      exact .inr ⟨obj, rfl, rfl, rfl⟩
    | none =>
      simp only [hobj] at h
      split_ifs at h
      exact .inl ⟨(Prod.mk.inj (Except.ok.inj h)).1.symm, fun _ => rfl⟩
  | showmount => simp [hf] at h
  | _ =>
    simp only [hf] at h
    exact .inl ⟨(Prod.mk.inj (Except.ok.inj h)).1.symm, by simp⟩

theorem printOutput_counted {root : Root} {clock : ℕ × ℕ} {usec : ℕ} {line : MountLine}
    (he : Counted cfg m e) (h : printOutput cfg env target e root clock usec = .ok (e', line)) :
    e' = e := by
  rcases printOutput_ok h with ⟨rfl, -⟩ | ⟨obj, hobj, -⟩
  · rfl
  · rw [he.jsonRoot] at hobj
    cases hobj

theorem printOutput_ok_iff (target : Target) (root : Root) (clock : ℕ × ℕ) (usec : ℕ)
    (he : Counted cfg (m + 1) e) (hf : cfg.format ≠ .showmount) :
    (∃ p, printOutput cfg env target e root clock usec = .ok p) ↔
      cfg.format ≠ .json ∨ env.printsNull .stdout = true := by
  have hsent : e.sent ≠ 0 := by rw [he.sent]; omega
  simp only [printOutput, mountLoss, if_neg hsent, bind_eq_ok]
  cases hfmt : cfg.format with
  | json =>
    simp only [he.jsonRoot]
    cases env.printsNull .stdout <;> simp
  | showmount => exact absurd hfmt hf
  | _ => simp

theorem mountOutput_ok (h : mountOutput cfg env r j k target e run = .ok (e', run')) :
    (e' = e ∧ run' = run) ∨ ∃ line,
      printOutput cfg env target e run.root (env.wallClock r j k) (env.usec r j k) = .ok (e', line) ∧
      run' = run.emit (.output line) := by
  unfold mountOutput at h
  split_ifs at h with hq
  · obtain ⟨rfl, rfl⟩ := Prod.mk.inj (Except.ok.inj h)
    exact .inl ⟨rfl, rfl⟩
  · obtain ⟨⟨e₁, line⟩, hp, h⟩ := bind_eq_ok.1 h
    obtain ⟨rfl, rfl⟩ := Prod.mk.inj (Except.ok.inj h)
    exact .inr ⟨line, hp, rfl⟩

theorem mountOutput_counted (he : Counted cfg m e)
    (h : mountOutput cfg env r j k target e run = .ok (e', run')) : e' = e := by
  rcases mountOutput_ok h with ⟨rfl, -⟩ | ⟨line, hprint, -⟩
  · rfl
  · exact printOutput_counted he hprint

theorem mountOutput_ok_iff (he : Counted cfg (m + 1) e) (hf : cfg.format ≠ .showmount) :
    (∃ p, mountOutput cfg env r j k target e run = .ok p) ↔
      cfg.quiet = true ∨ cfg.format ≠ .json ∨ env.printsNull .stdout = true := by
  unfold mountOutput
  cases hq : cfg.quiet with
  | true => simp
  | false =>
    rw [← printOutput_ok_iff target run.root (env.wallClock r j k) (env.usec r j k) he hf]
    simp [bind_eq_ok]

theorem mountSuccess_counted (he : Counted cfg m e)
    (h : mountSuccess cfg env r j k target e run = .ok (e', run')) : Counted cfg m e' := by
  simp only [mountSuccess, bind_eq_ok] at h
  obtain ⟨e₁, hrec, h⟩ := h
  have he₀ : Counted cfg m { e with received := wrap64 (e.received + 1) } :=
    ⟨he.sent, he.results, he.jsonRoot⟩
  have he₁ : Counted cfg m e₁ := mountRecord_counted he₀ hrec
  rwa [mountOutput_counted he₁ h]

theorem mountSuccess_ok_iff (he : Counted cfg (m + 1) e) (hm : m < cfg.count)
    (hmax : cfg.count ≤ ULONG_MAX) (hf : cfg.format ≠ .showmount) :
    (∃ p, mountSuccess cfg env r j k target e run = .ok p) ↔
      cfg.quiet = true ∨ cfg.format ≠ .json ∨ env.printsNull .stdout = true := by
  have he₀ : Counted cfg (m + 1) { e with received := wrap64 (e.received + 1) } :=
    ⟨he.sent, he.results, he.jsonRoot⟩
  obtain ⟨e₁, hrec⟩ := mountRecord_total (env.usec r j k) he₀ hm hmax
  simp only [mountSuccess, hrec, bind, Except.bind]
  exact mountOutput_ok_iff (mountRecord_counted he₀ hrec) hf

/-- **A request is counted**, whatever the reply. -/
theorem mountExport_counted (he : Counted cfg m e) (hm : m < ULONG_MAX)
    (h : mountExport cfg env r j target k e run = .ok (e', run')) : Counted cfg (m + 1) e' := by
  have hsent : wrap64 (e.sent + 1) = m + 1 := by rw [he.sent, wrap64_succ hm]
  have he₁ : Counted cfg (m + 1) { e with sent := wrap64 (e.sent + 1) } :=
    ⟨hsent, he.results, he.jsonRoot⟩
  simp only [mountExport, bind_eq_ok] at h
  obtain ⟨run₁, -, h⟩ := h
  split_ifs at h
  · obtain ⟨rfl, -⟩ := Prod.mk.inj (Except.ok.inj h)
    exact he₁
  · exact mountSuccess_counted he₁ h

/-- While there is place in the array, a request gets through iff its reply is survived. -/
theorem mountExport_ok_iff (he : Counted cfg m e) (hm : m < cfg.count) (hmax : cfg.count ≤ ULONG_MAX)
    (hf : cfg.format ≠ .showmount) :
    (∃ p, mountExport cfg env r j target k e run = .ok p) ↔ ∃ res, Survives cfg env r j k res := by
  have hsent : wrap64 (e.sent + 1) = m + 1 := by rw [he.sent, wrap64_succ (by omega)]
  have he₁ : Counted cfg (m + 1) { e with sent := wrap64 (e.sent + 1) } :=
    ⟨hsent, he.results, he.jsonRoot⟩
  constructor
  · rintro ⟨⟨e', run'⟩, h⟩
    simp only [mountExport, bind_eq_ok] at h
    obtain ⟨run₁, hroot, h⟩ := h
    obtain ⟨res, hr, htext⟩ := (getRootFilehandle_ok_iff cfg env _ _ run).1 ⟨run₁, hroot⟩
    refine ⟨res, hr, htext, ?_⟩
    intro hne
    rw [getRootFilehandle_len hroot hr, if_neg (by simpa using hne)] at h
    exact (mountSuccess_ok_iff he₁ hm hmax hf).1 ⟨_, h⟩
  · rintro ⟨res, hr, htext, hline⟩
    obtain ⟨run₁, hroot⟩ := (getRootFilehandle_ok_iff cfg env target.name e.path run).2
      ⟨res, hr, htext⟩
    simp only [mountExport, hroot, bind, Except.bind, getRootFilehandle_len hroot hr]
    by_cases hne : res.handle = []
    · simp [hne]
    · rw [if_neg (by simpa using hne)]
      exact (mountSuccess_ok_iff he₁ hm hmax hf).2 (hline hne)

end

/-! ## One round -/

/-- There is a client for target `j` at the start of round `r`; the target was `t` before the first
    round. -/
def clientBefore (j : ℕ) (t : Target) : ℕ → Bool
  | 0 => t.client
  | r + 1 => (clientBefore j t r || env.connect r j) && !cfg.reconnect

/-- There is one when the requests of the round are sent. -/
def clientIn (j : ℕ) (t : Target) (r : ℕ) : Bool := clientBefore cfg env j t r || env.connect r j

/-- The number of rounds before `r` with a client. -/
def roundsIn (j : ℕ) (t : Target) (r : ℕ) : ℕ := (List.range r).countP (clientIn cfg env j t)

/-- Target `j` at the start of round `r`: it was `t₀` before the first round. -/
structure At (j : ℕ) (t₀ : Target) (r : ℕ) (t : Target) : Prop where
  client : t.client = clientBefore cfg env j t₀ r
  exports : t.exports.length = t₀.exports.length
  counted : ∀ e ∈ t.exports, Counted cfg (roundsIn cfg env j t₀ r) e

/-- The program survives the replies to the requests for target `j` in round `r`. -/
def Answered (j : ℕ) (t : Target) (r : ℕ) : Prop :=
  clientIn cfg env j t r = true → ∀ k < t.exports.length, ∃ res, Survives cfg env r j k res

section
variable {cfg env} {j r : ℕ} {t₀ t t' : Target} {run run' : MountRun}

theorem roundsIn_succ : roundsIn cfg env j t (r + 1) =
    roundsIn cfg env j t r + if clientIn cfg env j t r then 1 else 0 := by
  simp [roundsIn, List.range_succ]

theorem roundsIn_le (j : ℕ) (t : Target) (r : ℕ) : roundsIn cfg env j t r ≤ r :=
  List.countP_le_length.trans (List.length_range).le

/-- A counter has the number of the round iff there was a client in every round before. -/
theorem roundsIn_eq_iff : roundsIn cfg env j t r = r ↔ ∀ i < r, clientIn cfg env j t i = true := by
  have h := List.countP_eq_length (l := List.range r) (p := clientIn cfg env j t)
  simp only [List.length_range, List.mem_range] at h
  exact h

theorem mountConnect_eq : mountConnect env r j t run =
    ({ t with client := t.client || env.connect r j }, (mountConnect env r j t run).2) := by
  rcases t with ⟨stats, client⟩
  cases client <;> rfl

theorem mountTarget_ok : mountTarget cfg env r j t run = .ok (t', run') ↔ ∃ exports,
    mountTargetExports cfg env r j { t with client := t.client || env.connect r j }
      (mountConnect env r j t run).2 = .ok (exports, run') ∧
    t' = { t with exports, client := (t.client || env.connect r j) && !cfg.reconnect } := by
  simp only [mountTarget]
  rw [mountConnect_eq]
  simp only [bind_eq_ok, Prod.exists, Except.ok.injEq, Prod.mk.injEq]
  constructor
  · rintro ⟨exports, run₁, h, rfl, rfl⟩
    exact ⟨exports, h, rfl⟩
  · rintro ⟨exports, h, rfl⟩
    exact ⟨exports, run', h, rfl, rfl⟩

/-- **One round of a target**: if it has a client, each of its exports is counted. -/
theorem mountTarget_at (ht : At cfg env j t₀ r t) (hr : r < ULONG_MAX)
    (h : mountTarget cfg env r j t run = .ok (t', run')) : At cfg env j t₀ (r + 1) t' := by
  obtain ⟨exports, hexp, rfl⟩ := mountTarget_ok.1 h
  have hclient : (t.client || env.connect r j) = clientIn cfg env j t₀ r := by rw [ht.client, clientIn]
  rw [hclient] at hexp ⊢
  unfold mountTargetExports at hexp
  cases hc : clientIn cfg env j t₀ r with
  | true =>
    simp only [hc, if_true] at hexp
    refine ⟨by simp [clientBefore, ← hc, clientIn], (walk_length hexp).trans ht.exports, ?_⟩
    intro e' he'
    obtain ⟨k, hk⟩ := List.mem_iff_getElem?.1 he'
    obtain ⟨e, u, u', he, hstep⟩ := walk_get_before hexp hk
    have hcounted := ht.counted e (List.mem_of_getElem? he)
    rw [roundsIn_succ, hc]
    exact mountExport_counted hcounted ((roundsIn_le ..).trans_lt hr) hstep
  | false =>
    simp only [hc] at hexp
    obtain ⟨rfl, -⟩ := Prod.mk.inj (Except.ok.inj hexp)
    refine ⟨by simp [clientBefore, ← hc, clientIn], ht.exports, ?_⟩
    intro e he
    rw [roundsIn_succ, hc]
    exact ht.counted e he

/-- It gets through iff the replies to its requests are survived. -/
theorem mountTarget_ok_iff (ht : At cfg env j t₀ r t) (hr : r < cfg.count)
    (hmax : cfg.count ≤ ULONG_MAX) (hf : cfg.format ≠ .showmount) :
    (∃ p, mountTarget cfg env r j t run = .ok p) ↔ Answered cfg env j t₀ r := by
  have hclient : (t.client || env.connect r j) = clientIn cfg env j t₀ r := by rw [ht.client, clientIn]
  have hexp : (∃ p, mountTarget cfg env r j t run = .ok p) ↔
      ∃ q, mountTargetExports cfg env r j { t with client := clientIn cfg env j t₀ r }
        (mountConnect env r j t run).2 = .ok q := by
    simp only [Prod.exists, mountTarget_ok, hclient]
    constructor
    · rintro ⟨-, run', exports, h, -⟩
      exact ⟨exports, run', h⟩
    · rintro ⟨exports, run', h⟩
      exact ⟨_, run', exports, h, rfl⟩
  rw [hexp, mountTargetExports, Answered, ← ht.exports]
  cases hc : clientIn cfg env j t₀ r with
  | false => simp
  | true =>
    simp only [if_true, forall_const]
    have hstep : ∀ k e (u : MountRun), t.exports[k]? = some e →
        ((∃ p, mountExport cfg env r j { t with client := true } (0 + k) e u = .ok p) ↔
          ∃ res, Survives cfg env r j (0 + k) res) := by
      intro k e u he
      have hcounted := ht.counted e (List.mem_of_getElem? he)
      exact mountExport_ok_iff hcounted ((roundsIn_le ..).trans_lt hr) hmax hf
    rw [walk_ok_iff (G := fun k _ => ∃ res, Survives cfg env r j k res) hstep]
    constructor
    · intro h k hk
      simpa using h k _ (List.getElem?_eq_getElem hk)
    · intro h k e he
      rw [Nat.zero_add]
      exact h k (List.getElem?_eq_some_iff.1 he).1

end

/-! ## All rounds -/

/-- The targets at the start of round `r`; they were `ts` before the first round. -/
def AllAt (ts : List Target) (r : ℕ) (targets : List Target) : Prop :=
  targets.length = ts.length ∧
    ∀ j t₀ t, ts[j]? = some t₀ → targets[j]? = some t → At cfg env j t₀ r t

/-- A run with a count, without `-l`, that is not interrupted.  The options reject `-e` with a
    count, and the counts 0 and `ULONG_MAX`. -/
structure Counting : Prop where
  count_pos : 0 < cfg.count
  count_lt : cfg.count < ULONG_MAX
  loop : cfg.loop = false
  format : cfg.format ≠ .showmount
  quitting : ∀ r, env.quitting r = false

/-- Every target has an export, and all exports are as `init_export` leaves them. -/
def Fresh (ts : List Target) : Prop := ∀ t ∈ ts, t.exports ≠ [] ∧ ∀ e ∈ t.exports, Counted cfg 0 e

section
variable {cfg env} {res : Resolver} {s : MountState}

theorem initExport_counted {target : Target} {path : CString} (hcount : cfg.count ≠ 0) :
    Counted cfg 0 (initExport target path cfg.count) :=
  ⟨rfl, List.length_replicate, by simp [initExport, hcount]⟩

/-- The exports of the arguments are made by `init_export`. -/
theorem mountArgs_exports {Q : MountExports → Prop} (hQ : ∀ t path, Q (initExport t path cfg.count))
    {args : List CString} {head ts : List Target} (hhead : Headed (fun t => ∀ e ∈ t.exports, Q e) head)
    (h : mountArgs cfg res head args = .ok ts) : Headed (fun t => ∀ e ∈ t.exports, Q e) ts := by
  induction args generalizing head with
  | nil =>
    obtain rfl := Except.ok.inj h
    exact hhead
  | cons arg args ih =>
    unfold mountArgs at h
    cases htok : tokens ':' arg with
    | nil => simp [htok] at h
    | cons host rest =>
      simp only [htok, bind_eq_ok] at h
      obtain ⟨-, -, r, hr, h⟩ := h
      refine ih ((makeTarget_touches hr).headed (fun ip e he => by simp [newTarget, initTarget] at he)
        ?_ hhead) h
      intro t t' hupd ht
      rw [hupd.exports]
      cases rest.head? with
      | none => exact ht
      | some path =>
        intro e he
        obtain rfl := List.mem_singleton.1 he
        exact hQ t path

theorem listExports_exports {Q : MountExports → Prop} (hQ : ∀ t path, Q (initExport t path cfg.count))
    {j : ℕ} {t t' : Target} {run run' : MountRun} (ht : ∀ e ∈ t.exports, Q e)
    (h : listExports cfg env j t run = .ok (t', run')) : ∀ e ∈ t'.exports, Q e := by
  unfold listExports at h
  split_ifs at h with hne hf
  · obtain ⟨rfl, -⟩ := Prod.mk.inj (Except.ok.inj h)
    exact ht
  · simp only [bind_eq_ok] at h
    obtain ⟨ex, -, h⟩ := h
    obtain ⟨rfl, -⟩ := Prod.mk.inj (Except.ok.inj h)
    exact ht
  · simp only [bind_eq_ok] at h
    obtain ⟨exports, hexp, h⟩ := h
    obtain ⟨rfl, -⟩ := Prod.mk.inj (Except.ok.inj h)
    unfold makeExports at hexp
    split_ifs at hexp
    · obtain ⟨ex, -, hex⟩ := bind_eq_ok.1 hexp
      obtain rfl := Except.ok.inj hex
      intro e he
      obtain ⟨node, -, rfl⟩ := List.mem_map.1 he
      exact hQ _ _
    · obtain rfl := Except.ok.inj hexp
      simp

/-- **All exports** of a run are made by `init_export`. -/
theorem mountTargets_exports {Q : MountExports → Prop} (hQ : ∀ t path, Q (initExport t path cfg.count))
    {args : List CString} (h : mountTargets cfg env res args = .ok s) :
    ∀ t ∈ s.targets, ∀ e ∈ t.exports, Q e := by
  simp only [mountTargets, bind_eq_ok] at h
  obtain ⟨ts, hargs, ⟨targets, run⟩, hw, h⟩ := h
  obtain rfl := Except.ok.inj h
  obtain ⟨d, rest, rfl, -, -, hrest⟩ := mountArgs_exports hQ (headed_dummyTargets _) hargs
  intro t' ht'
  split_ifs at ht' with hf
  · simp at ht'
  · obtain ⟨j, hj⟩ := List.mem_iff_getElem?.1 ht'
    obtain ⟨t, u, u', ht, hstep⟩ := walk_get_before hw hj
    exact listExports_exports hQ (hrest t (List.mem_of_getElem? ht)).2.2 hstep

/-- The targets of the command line are fresh, if each has an export. -/
theorem mountTargets_fresh (hcount : cfg.count ≠ 0) {args : List CString}
    (h : mountTargets cfg env res args = .ok s) (hne : ∀ t ∈ s.targets, t.exports ≠ []) :
    Fresh cfg s.targets :=
  fun t ht => ⟨hne t ht, mountTargets_exports (fun _ _ => initExport_counted hcount) h t ht⟩

end

section
variable {cfg env} {r n : ℕ} {t : Target} {ts targets targets' : List Target} {run run' : MountRun}
  {s s' : MountState}

theorem allAt_iff : AllAt cfg env ts r targets ↔
    Pointwise (fun j t₀ t => At cfg env j t₀ r t) ts targets :=
  ⟨fun h => ⟨h.1, h.2⟩, fun h => ⟨h.length, h.each⟩⟩

theorem allAt_zero (hts : Fresh cfg ts) : AllAt cfg env ts 0 ts := by
  refine allAt_iff.2 (pointwise_self ?_)
  intro j t ht
  exact ⟨rfl, rfl, (hts t (List.mem_of_getElem? ht)).2⟩

theorem AllAt.get {j : ℕ} {t₀ : Target} (h : AllAt cfg env ts r targets) (h₀ : ts[j]? = some t₀) :
    ∃ t, targets[j]? = some t ∧ At cfg env j t₀ r t := (allAt_iff.1 h).get h₀

theorem AllAt.get_before {j : ℕ} (h : AllAt cfg env ts r targets) (ht : targets[j]? = some t) :
    ∃ t₀, ts[j]? = some t₀ ∧ At cfg env j t₀ r t := (allAt_iff.1 h).get_before ht

/-- The test for another round compares the rounds of the first target with the count. -/
theorem mountMore_eq (hc : Counting cfg env) (hts : Fresh cfg (t :: ts))
    (h : AllAt cfg env (t :: ts) r targets) :
    mountMore cfg env n targets = .ok (decide (roundsIn cfg env 0 t r < cfg.count)) := by
  obtain ⟨t', ht', hat⟩ := h.get (j := 0) rfl
  obtain ⟨rest, rfl⟩ : ∃ rest, targets = t' :: rest := List.head?_eq_some_iff.1 (by
    rw [List.head?_eq_getElem?, ht'])
  obtain ⟨e, es, he⟩ : ∃ e es, t'.exports = e :: es := by
    refine List.exists_cons_of_ne_nil fun hnil => (hts t (List.mem_cons_self ..)).1 ?_
    rw [← List.length_eq_zero_iff, ← hat.exports, hnil, List.length_nil]
  have hsent := (hat.counted e (by rw [he]; exact List.mem_cons_self ..)).sent
  simp [mountMore, hc.quitting, hc.loop, hc.count_pos.ne', he, hsent]

theorem mountMore_nil (hc : Counting cfg env) : mountMore cfg env n [] = .error .nullDeref := by
  simp [mountMore, hc.quitting, hc.loop, hc.count_pos.ne']

/-- **One round** of all targets. -/
theorem walk_mountTarget_at (h : AllAt cfg env ts r targets) (hr : r < ULONG_MAX)
    (hw : walk (mountTarget cfg env r) 0 targets run = .ok (targets', run')) :
    AllAt cfg env ts (r + 1) targets' :=
  allAt_iff.2 ((allAt_iff.1 h).walk hw fun _ _ _ _ _ _ _ ht hstep => mountTarget_at ht hr hstep)

/-- It gets through iff the replies are survived. -/
theorem walk_mountTarget_ok_iff (run : MountRun) (hc : Counting cfg env) (h : AllAt cfg env ts r targets)
    (hr : r < cfg.count) : (∃ p, walk (mountTarget cfg env r) 0 targets run = .ok p) ↔
      ∀ j t, ts[j]? = some t → Answered cfg env j t r := by
  rw [walk_ok_iff (G := fun j _ => ∀ t, ts[j]? = some t → Answered cfg env j t r)]
  · constructor
    · intro hall j t ht
      obtain ⟨t', ht', -⟩ := h.get ht
      have hj := hall j t' ht'
      rw [Nat.zero_add] at hj
      exact hj t ht
    · intro hall j t' _
      rw [Nat.zero_add]
      exact hall j
  · intro j t' u ht'
    obtain ⟨t₀, h₀, hat⟩ := h.get_before ht'
    rw [Nat.zero_add, mountTarget_ok_iff hat hr hc.count_lt.le hc.format]
    constructor
    · intro hans t ht
      rwa [Option.some.inj (ht.symm.trans h₀)]
    · intro hans
      exact hans t₀ h₀

theorem mountRound_eq_ok : mountRound cfg env r s = .ok s' ↔
    walk (mountTarget cfg env r) 0 s.targets s.toMountRun = .ok (s'.targets, s'.toMountRun) ∧
      mountMore cfg env r s'.targets = .ok s'.more := by
  simp only [mountRound, bind_eq_ok, Prod.exists, Except.ok.injEq]
  constructor
  · rintro ⟨targets, run, hw, more, hm, rfl⟩
    exact ⟨hw, hm⟩
  · rintro ⟨hw, hm⟩
    exact ⟨s'.targets, s'.toMountRun, hw, s'.more, hm, rfl⟩

theorem mountRound_at (h : AllAt cfg env ts r s.targets) (hr : r < ULONG_MAX)
    (hround : mountRound cfg env r s = .ok s') : AllAt cfg env ts (r + 1) s'.targets :=
  walk_mountTarget_at h hr (mountRound_eq_ok.1 hround).1

theorem mountRound_more (hc : Counting cfg env) (hts : Fresh cfg (t :: ts))
    (h : AllAt cfg env (t :: ts) r s.targets) (hr : r < ULONG_MAX)
    (hround : mountRound cfg env r s = .ok s') :
    s'.more = decide (roundsIn cfg env 0 t (r + 1) < cfg.count) := by
  have hm := (mountRound_eq_ok.1 hround).2
  rw [mountMore_eq hc hts (mountRound_at h hr hround)] at hm
  exact (Except.ok.inj hm).symm

theorem mountRound_ok_iff (hc : Counting cfg env) (hts : Fresh cfg ts)
    (h : AllAt cfg env ts r s.targets) (hr : r < cfg.count) :
    (∃ s', mountRound cfg env r s = .ok s') ↔
      ts ≠ [] ∧ ∀ j t, ts[j]? = some t → Answered cfg env j t r := by
  rw [← walk_mountTarget_ok_iff s.toMountRun hc h hr]
  constructor
  · rintro ⟨s', hround⟩
    obtain ⟨hw, hm⟩ := mountRound_eq_ok.1 hround
    refine ⟨?_, _, hw⟩
    intro hnil
    obtain ⟨hlen, -⟩ := walk_mountTarget_at h (hr.trans hc.count_lt) hw
    have htargets : s'.targets = [] := List.length_eq_zero_iff.1 (by rw [hlen, hnil, List.length_nil])
    simp [htargets, mountMore_nil hc] at hm
  · rintro ⟨hne, ⟨targets', run'⟩, hw⟩
    obtain ⟨t, rest, rfl⟩ := List.exists_cons_of_ne_nil hne
    have hm := mountMore_eq (n := r) hc hts (walk_mountTarget_at h (hr.trans hc.count_lt) hw)
    exact ⟨{ run' with targets := targets', more := _ }, mountRound_eq_ok.2 ⟨hw, hm⟩⟩

/-- **All rounds** up to the count. -/
theorem rounds_at (hc : Counting cfg env) (hts : Fresh cfg s.targets) (hn : n ≤ cfg.count)
    (h : rounds (mountRound cfg env) n 0 s = .ok s') : AllAt cfg env s.targets n s'.targets := by
  refine rounds_inv (P := fun k u => AllAt cfg env s.targets k (MountState.targets u)) ?_
    (allAt_zero hts) h
  intro k u u' hk hu hround
  rw [Nat.zero_add] at hround
  exact mountRound_at hu ((hk.trans_le hn).trans hc.count_lt) hround

/-- They get through iff there is a target, and all replies are survived. -/
theorem rounds_ok_iff (hc : Counting cfg env) (hts : Fresh cfg s.targets) (hn : n + 1 ≤ cfg.count) :
    (∃ s', rounds (mountRound cfg env) (n + 1) 0 s = .ok s') ↔
      s.targets ≠ [] ∧ ∀ r ≤ n, ∀ j t, s.targets[j]? = some t → Answered cfg env j t r := by
  constructor
  · rintro ⟨s', h⟩
    have hround : ∀ r ≤ n, s.targets ≠ [] ∧
        ∀ j t, s.targets[j]? = some t → Answered cfg env j t r := by
      intro r hr
      obtain ⟨u', hu'⟩ := rounds_le h (Nat.succ_le_succ hr)
      obtain ⟨u, hu, hround⟩ := rounds_last.1 hu'
      rw [Nat.zero_add] at hround
      exact (mountRound_ok_iff hc hts (rounds_at hc hts (by omega) hu) (by omega)).1 ⟨u', hround⟩
    exact ⟨(hround 0 (Nat.zero_le n)).1, fun r hr => (hround r hr).2⟩
  · rintro ⟨hne, hall⟩
    have hlt := hc.count_lt
    have hstep : ∀ k u, k < n + 1 → AllAt cfg env s.targets k u.targets →
        ∃ u', mountRound cfg env (0 + k) u = .ok u' ∧ AllAt cfg env s.targets (k + 1) u'.targets := by
      intro k u hk hu
      obtain ⟨u', hround⟩ := (mountRound_ok_iff hc hts hu (by omega)).2 ⟨hne, hall k (by omega)⟩
      rw [Nat.zero_add]
      exact ⟨u', hround, mountRound_at hu (by omega) hround⟩
    obtain ⟨s', h, -⟩ := rounds_total hstep (allAt_zero hts)
    exact ⟨s', h⟩

end

/-! ## The loop -/

/-- The loop ends after `count` rounds, and with `-C` the results are only written where they have a
    place. -/
def CountsRounds (s : MountState) : Prop :=
  (∃ s', Ends (mountRound cfg env) (fun _ s => s.more) cfg.count s s') ∧
    (cfg.format = .fping →
      ∀ fuel, poll (mountRound cfg env) (fun _ s => s.more) fuel 0 s ≠ .error .outOfBounds)

/-- **The loop counts its rounds** iff there is a first target, with a client in each of them, and the
    replies to all requests are survived. -/
theorem mountLoop_counts_iff (s : MountState) (hc : Counting cfg env) (hts : Fresh cfg s.targets) :
    CountsRounds cfg env s ↔
      (∃ t, s.targets.head? = some t ∧ ∀ r < cfg.count, clientIn cfg env 0 t r = true) ∧
      ∀ r < cfg.count, ∀ j t, s.targets[j]? = some t → Answered cfg env j t r := by
  obtain ⟨n, hn⟩ : ∃ n, cfg.count = n + 1 := Nat.exists_eq_succ_of_ne_zero hc.count_pos.ne'
  have hmax := hc.count_lt
  -- another round is asked for while the first target has been counted in fewer than `count` rounds
  have hmore : ∀ k ≤ n, ∀ t, s.targets.head? = some t → ∀ u,
      rounds (mountRound cfg env) (k + 1) 0 s = .ok u →
      u.more = decide (roundsIn cfg env 0 t (k + 1) < n + 1) := by
    intro k hk t ht u hu
    obtain ⟨rest, hrest⟩ := List.head?_eq_some_iff.1 ht
    obtain ⟨v, hv, hround⟩ := rounds_last.1 hu
    have hat := rounds_at hc hts (by omega) hv
    rw [hrest] at hat hts
    rw [Nat.zero_add] at hround
    rw [mountRound_more hc hts hat (by omega) hround, hn]
  constructor
  · rintro ⟨⟨s', hends⟩, -⟩
    obtain ⟨k, hk, hrounds, hlast, -⟩ := ends_iff.1 hends
    obtain rfl : n = k := by omega
    obtain ⟨hne, hall⟩ := (rounds_ok_iff hc hts hn.ge).1 ⟨s', hrounds⟩
    obtain ⟨t, rest, hcons⟩ := List.exists_cons_of_ne_nil hne
    have hhead : s.targets.head? = some t := by rw [hcons, List.head?_cons]
    refine ⟨⟨t, hhead, ?_⟩, fun r hr => hall r (by omega)⟩
    have hdec := hmore n le_rfl t hhead s' hrounds
    rw [hlast] at hdec
    rw [hn]
    have hge := not_lt.1 (of_decide_eq_false hdec.symm)
    exact roundsIn_eq_iff.1 ((roundsIn_le 0 t (n + 1)).antisymm hge)
  · rintro ⟨⟨t, hhead, hclient⟩, hall⟩
    have hne : s.targets ≠ [] := fun hnil => by simp [hnil] at hhead
    obtain ⟨s', hrounds⟩ := (rounds_ok_iff hc hts hn.ge).2 ⟨hne, fun r hr => hall r (by omega)⟩
    have hends : Ends (mountRound cfg env) (fun _ s => s.more) cfg.count s s' := by
      refine ends_iff.2 ⟨n, hn, hrounds, ?_, ?_⟩
      · rw [hmore n le_rfl t hhead s' hrounds, roundsIn_eq_iff.2 (hn ▸ hclient)]
        simp
      · intro j u hj hu
        rw [hmore j hj.le t hhead u hu, decide_eq_true_iff]
        exact (roundsIn_le 0 t (j + 1)).trans_lt (by omega)
    exact ⟨⟨s', hends⟩, fun _ fuel => hends.poll_ne_error⟩

/-- `-C 1`. -/
def mountOnce : MountConfig where
  format := .fping
  count := 1

/-- The first target cannot be reached in the first round. -/
def firstLate : MountEnv where
  connect r j := r != 0 || j != 0
  mountres3 _ _ _ := some { fhandle := ⟨[1], by decide⟩ }

def twoPaths : List CString := ["10.0.0.1:/a".toList, "10.0.0.2:/b".toList]

theorem counting_mountOnce : Counting mountOnce firstLate :=
  ⟨by decide, by decide, rfl, by decide, fun _ => rfl⟩

theorem mountLoop_counts_iff_firstLate : ∃ s, mountTargets mountOnce firstLate noNames twoPaths = .ok s ∧
    (CountsRounds mountOnce firstLate s ↔
      (∃ t, s.targets.head? = some t ∧
        ∀ r < mountOnce.count, clientIn mountOnce firstLate 0 t r = true) ∧
      ∀ r < mountOnce.count, ∀ j t, s.targets[j]? = some t → Answered mountOnce firstLate j t r) := by
  obtain ⟨s, hs, hne⟩ : ∃ s, mountTargets mountOnce firstLate noNames twoPaths = .ok s ∧
      ∀ t ∈ s.targets, t.exports ≠ [] := ⟨_, rfl, by decide⟩
  exact ⟨s, hs, mountLoop_counts_iff _ _ s counting_mountOnce
    (mountTargets_fresh (by decide) hs hne)⟩

/-- The second target is asked twice, and the second time is stored after the end of its array. -/
theorem mountLoop_firstLate : ∃ s, mountTargets mountOnce firstLate noNames twoPaths = .ok s ∧
    poll (mountRound mountOnce firstLate) (fun _ s => s.more) 2 0 s = .error .outOfBounds ∧
    ¬ CountsRounds mountOnce firstLate s :=
  ⟨_, rfl, rfl, fun h => h.2 rfl 2 rfl⟩

end NFStash
