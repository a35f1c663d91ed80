/-
  The filehandles that `nfsmount` prints.

  All requests share one buffer.  A reply is copied to its start and its length is set, so what is
  printed is the filehandle of this reply, whatever was in the buffer before: `mountHandles_own` says
  that every line comes right after its own request, and has the bytes of the server's reply.
-/
import NFStash.MountRequests

namespace NFStash

open CLib Loops

/-! ## JSON objects -/

section
variable {name name' : String} {value : JsonValue}

theorem lookup_jsonSet (name : String) (value : JsonValue) (obj : JsonObject) :
    (jsonSet name value obj).lookup name = some value := by
  induction obj with
  | nil => simp [jsonSet]
  | cons field obj ih =>
    obtain ⟨name', value'⟩ := field
    rw [jsonSet]
    split_ifs with h
    · rw [List.lookup_cons_self]
    · have hne : (name == name') = false := by simpa using fun heq => h heq.symm
      rw [List.lookup_cons, hne, ih]

theorem lookup_jsonSet_ne (h : name' ≠ name) (obj : JsonObject) :
    (jsonSet name value obj).lookup name' = obj.lookup name' := by
  have hne : (name' == name) = false := by simpa using h
  induction obj with
  | nil => rw [jsonSet, List.lookup_cons, hne]
  | cons field obj ih =>
    obtain ⟨name'', value'⟩ := field
    rw [jsonSet]
    split_ifs with heq
    · rw [List.lookup_cons, heq, List.lookup_cons, hne]
    · rw [List.lookup_cons, List.lookup_cons, ih]

/-- The fields that an export has from the start. -/
def exportFields : List String := ["host", "ip", "path"]

variable {cfg : MountConfig} {root : Root} {usec timestamp : ℕ}

theorem lookup_printFhandle3_filehandle (obj : JsonObject) :
    (printFhandle3 cfg root usec timestamp obj).lookup "filehandle" =
      some (.string (nfsFh3ToString ⟨root.val.take root.len⟩)) := by
  rw [printFhandle3, lookup_jsonSet_ne (by decide), lookup_jsonSet]

theorem lookup_printFhandle3_field {name : String} (h : name ∈ exportFields) (obj : JsonObject) :
    (printFhandle3 cfg root usec timestamp obj).lookup name = obj.lookup name := by
  have hne : ∀ field ∈ exportFields,
      field ≠ "version" ∧ field ≠ "filehandle" ∧ field ≠ "timestamp" ∧ field ≠ "usec" := by decide
  obtain ⟨h1, h2, h3, h4⟩ := hne name h
  rw [printFhandle3, lookup_jsonSet_ne h1, lookup_jsonSet_ne h2, lookup_jsonSet_ne h3,
    lookup_jsonSet_ne h4]

end

/-! ## Lines and requests -/

/-- The request of an event. -/
def MountEvent.request? : MountEvent → Option (ℕ × ℕ × ℕ)
  | .mnt r j k => some (r, j, k)
  | _ => none

/-- The last request in a trace. -/
def lastRequest (trace : List MountEvent) : Option (ℕ × ℕ × ℕ) :=
  (trace.filterMap MountEvent.request?).getLast?

variable (cfg : MountConfig) (env : MountEnv)

/-- An object with the filehandle of the reply to a request, and with the fields of its own export; the
    targets were `ts` before the first round. -/
structure Carries (ts : List Target) (q : ℕ × ℕ × ℕ) (obj : JsonObject) : Prop where
  reply : ∃ handle, serverReply cfg env q = some (MNT3_OK, handle) ∧
    obj.lookup "filehandle" = some (.string (nfsFh3ToString ⟨handle⟩))
  fields : ∃ t e obj₀, ts[q.2.1]? = some t ∧ t.exports[q.2.2]? = some e ∧ e.jsonRoot = some obj₀ ∧
    ∀ name ∈ exportFields, obj.lookup name = obj₀.lookup name

/-- Every line belongs to the last request before it. -/
def OwnHandles (ts : List Target) (trace : List MountEvent) : Prop :=
  ∀ before line after, trace = before ++ .output line :: after →
    ∃ q obj, lastRequest before = some q ∧ line = .json (some obj) ∧ Carries cfg env ts q obj

section
variable {cfg env} {r j k : ℕ} {target : Target} {e e' : MountExports} {run run' : MountRun}
  {ts : List Target} {trace events : List MountEvent} {q : ℕ × ℕ × ℕ} {res : Mountres3}
  {obj : JsonObject}

theorem lastRequest_append (h : ∀ event ∈ events, event.request? = none) :
    lastRequest (trace ++ .mnt r j k :: events) = some (r, j, k) := by
  have hnone : events.filterMap MountEvent.request? = [] := List.filterMap_eq_nil_iff.2 h
  have hmnt : (MountEvent.mnt r j k).request? = some (r, j, k) := rfl
  rw [lastRequest, List.filterMap_append, List.filterMap_cons_some hmnt, hnone, List.getLast?_concat]

/-- Other events than lines. -/
theorem OwnHandles.append (h : OwnHandles cfg env ts trace)
    (hevents : ∀ event ∈ events, ∀ line, event ≠ .output line) :
    OwnHandles cfg env ts (trace ++ events) := by
  intro before line after heq
  rcases List.append_eq_append_iff.1 heq with ⟨new, rfl, hnew⟩ | ⟨rest, hbefore, hafter⟩
  · have hmem : MountEvent.output line ∈ events := by
      rw [hnew]
      exact List.mem_append_right _ (List.mem_cons_self ..)
    exact absurd rfl (hevents _ hmem line)
  · cases rest with
    | nil =>
      have hmem : MountEvent.output line ∈ events := by
        rw [← List.nil_append events, ← hafter]
        exact List.mem_cons_self ..
      exact absurd rfl (hevents _ hmem line)
    | cons event rest =>
      obtain ⟨rfl, -⟩ := List.cons.inj hafter
      exact h before line rest hbefore

/-- A line. -/
theorem OwnHandles.line (h : OwnHandles cfg env ts trace) (hlast : lastRequest trace = some q)
    (hobj : Carries cfg env ts q obj) :
    OwnHandles cfg env ts (trace ++ [.output (.json (some obj))]) := by
  intro before line after heq
  rcases List.eq_nil_or_concat after with rfl | ⟨after, event, rfl⟩
  · obtain ⟨rfl, hline⟩ := List.append_inj' heq rfl
    have hl : MountLine.json (some obj) = line := by simpa using hline
    exact ⟨q, obj, hlast, hl.symm, hobj⟩
  · rw [List.concat_eq_append, ← List.cons_append, ← List.append_assoc] at heq
    obtain ⟨htrace, -⟩ := List.append_inj' heq rfl
    exact h before line after htrace

/-! ### One request -/

theorem mountRecord_jsonRoot {usec sent received : ℕ}
    (h : mountRecord cfg usec { e with sent, received } = .ok e') : e'.jsonRoot = e.jsonRoot := by
  rcases mountRecord_ok h with ⟨-, -, rfl⟩ | ⟨results, rfl, -⟩
  · rfl
  · rfl

/-- The line of an export with an object. -/
theorem printOutput_json {root : Root} {clock : ℕ × ℕ} {usec : ℕ} {line : MountLine}
    (hf : cfg.format = .json) (hobj : e.jsonRoot = some obj)
    (h : printOutput cfg env target e root clock usec = .ok (e', line)) :
    e'.jsonRoot = some (printFhandle3 cfg root usec clock.1 obj) ∧
      line = .json (some (printFhandle3 cfg root usec clock.1 obj)) := by
  rcases printOutput_ok h with ⟨-, hnone⟩ | ⟨obj', hobj', rfl, rfl⟩
  · rw [hnone hf] at hobj
    cases hobj
  · obtain rfl := Option.some.inj (hobj.symm.trans hobj')
    exact ⟨rfl, rfl⟩

/-- An export has an object, with the fields from the start. -/
def KeepsFields (ts : List Target) (j k : ℕ) (e : MountExports) : Prop :=
  ∃ t e₀ obj₀ obj, ts[j]? = some t ∧ t.exports[k]? = some e₀ ∧ e₀.jsonRoot = some obj₀ ∧
    e.jsonRoot = some obj ∧ ∀ name ∈ exportFields, obj.lookup name = obj₀.lookup name

theorem KeepsFields.congr (h : KeepsFields ts j k e) (heq : e'.jsonRoot = e.jsonRoot) :
    KeepsFields ts j k e' := by
  obtain ⟨t, e₀, obj₀, obj, ht, he, h₀, hobj, hfields⟩ := h
  exact ⟨t, e₀, obj₀, obj, ht, he, h₀, heq.trans hobj, hfields⟩

/-- The object that is printed carries the filehandle, if it is in the buffer. -/
theorem KeepsFields.printed {root : Root} {usec timestamp : ℕ} (h : KeepsFields ts j k e)
    (hobj : e.jsonRoot = some obj) {handle : List UInt8}
    (hreply : serverReply cfg env (r, j, k) = some (MNT3_OK, handle))
    (hroot : root.val.take root.len = handle) :
    Carries cfg env ts (r, j, k) (printFhandle3 cfg root usec timestamp obj) := by
  obtain ⟨t, e₀, obj₀, obj', ht, he, h₀, hobj', hfields⟩ := h
  obtain rfl := Option.some.inj (hobj.symm.trans hobj')
  refine ⟨⟨handle, hreply, by rw [lookup_printFhandle3_filehandle, hroot]⟩, t, e₀, obj₀, ht, he, h₀, ?_⟩
  intro name hname
  rw [lookup_printFhandle3_field hname, hfields name hname]

theorem KeepsFields.after {root : Root} {usec timestamp : ℕ} (h : KeepsFields ts j k e)
    (hobj : e.jsonRoot = some obj)
    (he' : e'.jsonRoot = some (printFhandle3 cfg root usec timestamp obj)) :
    KeepsFields ts j k e' := by
  obtain ⟨t, e₀, obj₀, obj', ht, he, h₀, hobj', hfields⟩ := h
  obtain rfl := Option.some.inj (hobj.symm.trans hobj')
  refine ⟨t, e₀, obj₀, _, ht, he, h₀, he', ?_⟩
  intro name hname
  rw [lookup_printFhandle3_field hname, hfields name hname]

theorem mountExport_keepsFields (hf : cfg.format = .json) (he : KeepsFields ts j k e)
    (h : mountExport cfg env r j target k e run = .ok (e', run')) : KeepsFields ts j k e' := by
  obtain ⟨res, run₁, -, -, ⟨-, rfl, -⟩ | ⟨-, hsuccess⟩⟩ := mountExport_ok h
  · exact he.congr rfl
  · obtain ⟨e₁, hrecord, houtput⟩ := mountSuccess_ok.1 hsuccess
    have he₁ : KeepsFields ts j k e₁ := he.congr (mountRecord_jsonRoot hrecord)
    rcases mountOutput_ok houtput with ⟨rfl, -⟩ | ⟨line, hprint, -⟩
    · exact he₁
    · obtain ⟨-, -, -, obj, -, -, -, hobj, -⟩ := id he₁
      exact he₁.after hobj (printOutput_json hf hobj hprint).1

/-- **One request**: its line, if there is one, has the filehandle of its reply. -/
theorem mountExport_ownHandles (hf : cfg.format = .json) (he : KeepsFields ts j k e)
    (hown : OwnHandles cfg env ts run.trace)
    (h : mountExport cfg env r j target k e run = .ok (e', run')) :
    OwnHandles cfg env ts run'.trace := by
  obtain ⟨res, run₁, hr, hreceived, hcases⟩ := mountExport_ok h
  obtain ⟨text, htrace, htext⟩ := hreceived.trace
  -- the request, and the message if its reply is an error
  have hquiet : ∀ event ∈ MountEvent.mnt r j k :: text, ∀ line, event ≠ .output line := by
    rintro event hevent line rfl
    rcases List.mem_cons.1 hevent with heq | hmem
    · cases heq
    · obtain ⟨host, path, message, heq⟩ := htext _ hmem
      cases heq
  have hown₁ : OwnHandles cfg env ts run₁.trace := by
    rw [htrace]
    exact hown.append hquiet
  rcases hcases with ⟨-, -, rfl⟩ | ⟨hgot, hsuccess⟩
  · exact hown₁
  · obtain ⟨e₁, hrecord, houtput⟩ := mountSuccess_ok.1 hsuccess
    have hcounted := counted_trace cfg r j k
      { run₁ with exportsSent := wrap64 (run.exportsSent + 1) }
    have hown₂ : OwnHandles cfg env ts (counted cfg r j k
        { run₁ with exportsSent := wrap64 (run.exportsSent + 1) }).trace := by
      rw [hcounted]
      refine hown₁.append ?_
      intro event hevent line
      split_ifs at hevent
      · rw [List.mem_singleton.1 hevent]
        exact MountEvent.noConfusion
      · cases hevent
    rcases mountOutput_ok houtput with ⟨-, rfl⟩ | ⟨line, hprint, rfl⟩
    · exact hown₂
    · have he₁ : KeepsFields ts j k e₁ := he.congr (mountRecord_jsonRoot hrecord)
      obtain ⟨-, -, -, obj, -, -, -, hobj, -⟩ := id he₁
      obtain ⟨-, rfl⟩ := printOutput_json hf hobj hprint
      obtain ⟨hok, hdata⟩ := res.handle_ne hgot
      have hreply : serverReply cfg env (r, j, k) = some (MNT3_OK, res.handle) := by
        rw [serverReply_eq hr, hok, hdata]
      refine hown₂.line (q := (r, j, k)) ?_ (he₁.printed hobj hreply ?_)
      · rw [hcounted, htrace, List.append_assoc, List.cons_append]
        refine lastRequest_append ?_
        intro event hevent
        rcases List.mem_append.1 hevent with hmem | hmem
        · obtain ⟨host, path, message, rfl⟩ := htext _ hmem
          rfl
        · split_ifs at hmem
          · rw [List.mem_singleton.1 hmem]
            rfl
          · cases hmem
      · rw [counted_root]
        exact hreceived.handle

end

/-! ## Every run -/

section
variable {cfg env} {s : MountState} {res : Resolver}

/-- Nothing is printed before the first round, if the format is not `showmount`'s. -/
theorem mountTargets_lines {args : List CString} (hs : mountTargets cfg env res args = .ok s) :
    ∀ event ∈ s.trace, ∀ line, event ≠ .output line := by
  simp only [mountTargets, bind_eq_ok] at hs
  obtain ⟨ts, -, ⟨targets, run⟩, hw, hs⟩ := hs
  obtain rfl := Except.ok.inj hs
  refine (walk_spec (P := fun _ u => ∀ event ∈ MountRun.trace u, ∀ line, event ≠ .output line) ?_
    (by simp) hw).1
  intro k t u t' u' _ hu hstep
  have hconnect : ∀ event ∈ (u.emit (.connectList k (env.connectList k))).trace,
      ∀ line, event ≠ .output line := by
    intro event hevent line
    rcases List.mem_append.1 hevent with hmem | hmem
    · exact hu event hmem line
    · rw [List.mem_singleton.1 hmem]
      exact MountEvent.noConfusion
  rw [Nat.zero_add] at hstep
  unfold listExports at hstep
  split_ifs at hstep
  · obtain ⟨-, rfl⟩ := Prod.mk.inj (Except.ok.inj hstep)
    exact hu
  · obtain ⟨ex, -, hstep⟩ := bind_eq_ok.1 hstep
    obtain ⟨-, rfl⟩ := Prod.mk.inj (Except.ok.inj hstep)
    intro event hevent line
    rcases List.mem_append.1 hevent with hmem | hmem
    · exact hconnect event hmem line
    · rw [List.mem_singleton.1 hmem]
      exact MountEvent.noConfusion
  · obtain ⟨exports, -, hstep⟩ := bind_eq_ok.1 hstep
    obtain ⟨-, rfl⟩ := Prod.mk.inj (Except.ok.inj hstep)
    exact hconnect

end

/-- **Every line has the filehandle of its own request**: the last one before it, to which the server
    has replied with `MNT3_OK` and these bytes. -/
theorem mountHandles_own (res : Resolver) (args : List CString) (s : MountState)
    (hf : cfg.format = .json)
    (hcount : cfg.count = 0) (hs : mountTargets cfg env res args = .ok s) (run : MountRun)
    (h : MountReached cfg env s run) : OwnHandles cfg env s.targets run.trace := by
  have hstep : ∀ r, Leads cfg env s.targets r (KeepsFields s.targets) (KeepsFields s.targets) := fun r =>
    ⟨fun j t₀ k target e u e' u' _ _ he => mountExport_keepsFields hf he, fun j t₀ k e _ _ he => he⟩
  refine MountReached.inv (P := fun run => OwnHandles cfg env s.targets run.trace)
    (Q := fun _ => KeepsFields s.targets) ⟨?_, ?_⟩ hstep ?_ ?_ h
  · intro _ u r j ok hu
    refine hu.append ?_
    intro event hevent line
    rw [List.mem_singleton.1 hevent]
    exact MountEvent.noConfusion
  · intro _ u r j k target e e' u' hu he hexport
    exact mountExport_ownHandles hf he hu hexport
  · intro j t ht k e he
    have hobj := mountTargets_exports (Q := fun e => ∃ obj, e.jsonRoot = some obj)
      (fun t path => ⟨_, if_pos hcount⟩) hs t (List.mem_of_getElem? ht) e (List.mem_of_getElem? he)
    obtain ⟨obj, hobj⟩ := hobj
    exact ⟨t, e, obj, obj, ht, he, hobj, hobj, fun _ _ => rfl⟩
  · have hnone : OwnHandles cfg env s.targets [] := by
      intro before line after heq
      simp at heq
    rw [← List.nil_append s.trace]
    exact hnone.append (mountTargets_lines hs)

/-- Three bytes, an error and one byte. -/
def threeReplies : MountEnv where
  connect _ _ := true
  mountres3 _ j _ := some <| match j with
    | 0 => { fhandle := ⟨[1, 2, 3], by decide⟩ }
    | 1 => { fhsStatus := MNT3ERR_ACCES }
    | _ => { fhandle := ⟨[9], by decide⟩ }

def threePaths : List CString :=
  ["10.0.0.1:/a".toList, "10.0.0.2:/b".toList, "10.0.0.3:/c".toList]

theorem mountHandles_own_threePaths : ∃ s s', mountTargets {} threeReplies noNames threePaths = .ok s ∧
    rounds (mountRound {} threeReplies) 1 0 s = .ok s' ∧
    s'.trace.countP (· matches .output _) = 2 ∧ OwnHandles {} threeReplies s.targets s'.trace := by
  obtain ⟨s, s', hs, h, hlines⟩ : ∃ s s', mountTargets {} threeReplies noNames threePaths = .ok s ∧
      rounds (mountRound {} threeReplies) 1 0 s = .ok s' ∧
      s'.trace.countP (· matches .output _) = 2 := ⟨_, _, rfl, rfl, by decide⟩
  exact ⟨s, s', hs, h, hlines, mountHandles_own {} threeReplies noNames threePaths s rfl rfl hs _ (.round h)⟩

end NFStash
