/-
  The exit status of `nfsmount`.

  `exports_sent` counts the requests and `exports_ok` those with a filehandle, so a target without a
  client is not seen, and neither is a filehandle of length 0 that comes with `MNT3_OK`; with `-e` the
  first is the length of a list, and the second stays 0.  `mountStatus_tells_iff` says when the status
  is 0 iff all went well.
-/
import NFStash.Lib.Counters
import NFStash.MountRequests

namespace NFStash

open CLib Counters Loops

variable (cfg : MountConfig) (env : MountEnv)

/-- Every target has a client when its exports are listed, and in each of the `n` rounds.  The targets
    were `ts` before the listing, and `targets` before the first round. -/
structure AllReached (ts targets : List Target) (n : ℕ) : Prop where
  listed : ∀ j t, ts.tail[j]? = some t → t.exports = [] → env.connectList j = true
  connected : ∀ r < n, ∀ j t, targets[j]? = some t → clientIn cfg env j t r = true

/-- The reply to a request is an error. -/
def ErrorReply (q : ℕ × ℕ × ℕ) : Prop :=
  ∃ status handle, serverReply cfg env q = some (status, handle) ∧ status ≠ MNT3_OK

/-- All went well: every target was reached, every EXPORT request has a reply, and every MNT request one
    that is `MNT3_OK`. -/
structure AllServed (ts targets : List Target) (n : ℕ) : Prop where
  reached : AllReached cfg env ts targets n
  listed : ∀ j t, ts.tail[j]? = some t → t.exports = [] → env.exportList j ≠ none
  answered : ∀ q ∈ mountRequests cfg env targets n,
    ∃ handle, serverReply cfg env q = some (MNT3_OK, handle)

/-- The number of requests without a filehandle. -/
def lostRequests (targets : List Target) (n : ℕ) : ℕ :=
  (mountRequests cfg env targets n).countP fun q => !decide (Got cfg env q)

/-- When the counters tell what happened.  They are `unsigned long`: an error is hidden only if the
    number of lost requests is a multiple of `2 ^ 64`.  Without an error, requests must have been made
    and all have brought a filehandle iff all targets were reached. -/
structure StatusTells (ts targets : List Target) (n : ℕ) : Prop where
  format : cfg.format ≠ .showmount
  errors : (∃ q ∈ mountRequests cfg env targets n, ErrorReply cfg env q) →
    2 ^ 64 ∣ (mountRequests cfg env targets n).length ∨ ¬ 2 ^ 64 ∣ lostRequests cfg env targets n
  noErrors : (¬ ∃ q ∈ mountRequests cfg env targets n, ErrorReply cfg env q) →
    (¬ 2 ^ 64 ∣ (mountRequests cfg env targets n).length ∧ 2 ^ 64 ∣ lostRequests cfg env targets n ↔
      AllReached cfg env ts targets n)

/-- The requests made so far have replies, and are counted. -/
structure Tallied (done : List (ℕ × ℕ × ℕ)) (run : MountRun) : Prop where
  counts : CountsMod (2 ^ 64) (fun q => decide (Got cfg env q)) done run.exportsSent run.exportsOk
  replies : ∀ q ∈ done, ∃ res, mountReply cfg env q.1 q.2.1 q.2.2 = some res

section
variable {cfg env} {r j k n : ℕ} {target : Target} {e e' : MountExports} {run run' : MountRun}
  {ts targets : List Target} {s s' : MountState} {res : Resolver} {args : List CString}
  {done : List (ℕ × ℕ × ℕ)}

/-! ## The counters -/

/-- **A request is counted**, and its filehandle is. -/
theorem mountExport_tallied (h : Tallied cfg env done run)
    (hexport : mountExport cfg env r j target k e run = .ok (e', run')) :
    Tallied cfg env (done ++ [(r, j, k)]) run' := by
  obtain ⟨reply, run₁, hr, hreceived, hcases⟩ := mountExport_ok hexport
  have hcounts : CountsMod (2 ^ 64) (fun q => decide (Got cfg env q)) (done ++ [(r, j, k)])
      (wrap64 (run.exportsSent + 1))
      (if decide (Got cfg env (r, j, k)) then wrap64 (run.exportsOk + 1) else run.exportsOk) :=
    h.counts.concat (r, j, k)
  have hreplies : ∀ q ∈ done ++ [(r, j, k)], ∃ res, mountReply cfg env q.1 q.2.1 q.2.2 = some res := by
    intro q hq
    rcases List.mem_append.1 hq with hq | hq
    · exact h.replies q hq
    · rw [List.mem_singleton.1 hq]
      exact ⟨reply, hr⟩
  rcases hcases with ⟨hlost, -, rfl⟩ | ⟨hgot, hsuccess⟩
  · have hnot : ¬ Got cfg env (r, j, k) := by simp [Got, hr, hlost]
    refine ⟨?_, hreplies⟩
    simpa [hnot, hreceived.counters.2] using hcounts
  · have hyes : Got cfg env (r, j, k) := ⟨reply, hr, hgot⟩
    obtain ⟨e₁, -, houtput⟩ := mountSuccess_ok.1 hsuccess
    obtain ⟨hsent, hok⟩ := mountOutput_counters houtput
    refine ⟨?_, hreplies⟩
    rw [hsent, hok, counted_exportsSent, counted_exportsOk, hreceived.counters.2]
    simpa [hyes] using hcounts

/-- What the listing leaves in the counters. -/
theorem mountTargets_counters (hs : mountTargets cfg env res args = .ok s) :
    s.exportsOk = 0 ∧ (cfg.format ≠ .showmount → s.exportsSent = 0) ∧
      (cfg.format = .showmount → s.targets = []) := by
  simp only [mountTargets, bind_eq_ok] at hs
  obtain ⟨ts, -, ⟨targets, run⟩, hw, hs⟩ := hs
  obtain rfl := Except.ok.inj hs
  have hrun := (walk_spec (P := fun _ u => MountRun.exportsOk u = 0 ∧
    (cfg.format ≠ .showmount → MountRun.exportsSent u = 0)) ?_ ⟨rfl, fun _ => rfl⟩ hw).1
  · exact ⟨hrun.1, hrun.2, fun hf => if_pos hf⟩
  · rintro k t u t' u' - ⟨hok, hsent⟩ hstep
    rw [Nat.zero_add] at hstep
    unfold listExports at hstep
    split_ifs at hstep with _ hf
    · obtain ⟨-, rfl⟩ := Prod.mk.inj (Except.ok.inj hstep)
      exact ⟨hok, hsent⟩
    · obtain ⟨ex, -, hstep⟩ := bind_eq_ok.1 hstep
      obtain ⟨-, rfl⟩ := Prod.mk.inj (Except.ok.inj hstep)
      exact ⟨hok, fun hne => absurd hf hne⟩
    · obtain ⟨exports, -, hstep⟩ := bind_eq_ok.1 hstep
      obtain ⟨-, rfl⟩ := Prod.mk.inj (Except.ok.inj hstep)
      exact ⟨hok, hsent⟩

/-- A listing that completes has its reply; with `-e` it needs a client, too. -/
theorem mountTargets_listed (hargs : mountArgs cfg res dummyTargets args = .ok ts)
    (hs : mountTargets cfg env res args = .ok s) : ∀ j t, ts.tail[j]? = some t → t.exports = [] →
      (cfg.format = .showmount → env.connectList j = true) ∧
      (env.connectList j = true → env.exportList j ≠ none) := by
  simp only [mountTargets, hargs, bind_eq_ok] at hs
  obtain ⟨ts', hts, ⟨targets, run⟩, hw, -⟩ := hs
  obtain rfl := Except.ok.inj hts
  intro j t ht hnil
  obtain ⟨t', u, u', -, hstep⟩ := walk_get hw ht
  rw [Nat.zero_add] at hstep
  have hget : ∀ ex, getExports env j { t with client := env.connectList j } = .ok ex →
      env.connectList j = true ∧ env.exportList j ≠ none := by
    intro ex hex
    unfold getExports at hex
    split_ifs at hex with hc
    refine ⟨hc, ?_⟩
    intro hnone
    simp [hnone] at hex
  unfold listExports at hstep
  rw [if_neg (by simp [hnil])] at hstep
  split_ifs at hstep with hf
  · obtain ⟨ex, hex, -⟩ := bind_eq_ok.1 hstep
    exact ⟨fun _ => (hget ex hex).1, fun _ => (hget ex hex).2⟩
  · obtain ⟨exports, hexports, -⟩ := bind_eq_ok.1 hstep
    refine ⟨fun hshow => absurd hshow hf, ?_⟩
    intro hc
    unfold makeExports at hexports
    rw [if_pos hc] at hexports
    obtain ⟨ex, hex, -⟩ := bind_eq_ok.1 hexports
    exact (hget ex hex).2

/-- **The counters** after all rounds. -/
theorem rounds_tallied (hf : cfg.format ≠ .showmount) (hs : mountTargets cfg env res args = .ok s)
    (h : rounds (mountRound cfg env) n 0 s = .ok s') :
    Tallied cfg env (mountRequests cfg env s.targets n) s'.toMountRun := by
  obtain ⟨hok, hsent, -⟩ := mountTargets_counters hs
  refine rounds_requests (Q := fun _ _ _ _ => True) ⟨?_, ?_⟩ ?_ (fun _ _ _ _ _ _ => trivial)
    ⟨⟨hsent hf, hok⟩, by simp⟩ h
  · rintro done u r j ok ⟨hcounts, hreplies⟩
    exact ⟨hcounts, hreplies⟩
  · intro done u r j k target e e' u' hu _ hexport
    exact mountExport_tallied hu hexport
  · exact fun r => ⟨fun _ _ _ _ _ _ _ _ _ _ _ _ => trivial, fun _ _ _ _ _ _ _ => trivial⟩

/-- Without targets nothing changes. -/
theorem rounds_noTargets (hnil : s.targets = []) (h : rounds (mountRound cfg env) n 0 s = .ok s') :
    s'.toMountRun = s.toMountRun := by
  have hrun := rounds_inv (P := fun _ u => MountState.targets u = [] ∧ u.toMountRun = s.toMountRun) ?_
    ⟨hnil, rfl⟩ h
  · exact hrun.2
  · rintro k u u' - ⟨hu, hrun⟩ hround
    obtain ⟨hw, -⟩ := mountRound_eq_ok.1 hround
    rw [hu] at hw
    obtain ⟨htargets, hrun'⟩ := Prod.mk.inj (Except.ok.inj hw)
    exact ⟨htargets.symm, hrun'.symm.trans hrun⟩

/-! ## The status -/

theorem not_errorReply {q : ℕ × ℕ × ℕ} (h : ∃ res, mountReply cfg env q.1 q.2.1 q.2.2 = some res) :
    ¬ ErrorReply cfg env q ↔ ∃ handle, serverReply cfg env q = some (MNT3_OK, handle) := by
  obtain ⟨reply, hr⟩ := h
  have hserver := serverReply_eq hr
  constructor
  · intro hno
    refine ⟨reply.fhandle.data, ?_⟩
    rw [hserver]
    by_contra hne
    refine hno ⟨_, _, hserver, ?_⟩
    intro hok
    exact hne (by rw [hok])
  · rintro ⟨handle, hok⟩ ⟨status, handle', hstatus, hne⟩
    rw [hok] at hstatus
    exact hne (Prod.mk.inj (Option.some.inj hstatus)).1.symm

theorem mountFinish_status {result : MountResult}
    (h : mountFinish cfg (some (n, s')) = .ok (some result)) :
    result.status = 0 ↔ s'.exportsSent ≠ 0 ∧ s'.exportsSent = s'.exportsOk := by
  have hstatus : result.status =
      if s'.exportsSent ≠ 0 ∧ s'.exportsSent = s'.exportsOk then 0 else 1 := by
    unfold mountFinish at h
    split_ifs at h with hloop
    · obtain ⟨summary, -, h⟩ := bind_eq_ok.1 h
      rw [← Option.some.inj (Except.ok.inj h)]
    · obtain ⟨summary, -, h⟩ := bind_eq_ok.1 h
      rw [← Option.some.inj (Except.ok.inj h)]
  rw [hstatus]
  by_cases hcount : s'.exportsSent ≠ 0 ∧ s'.exportsSent = s'.exportsOk
  · rw [if_pos hcount]
    exact iff_of_true rfl hcount
  · rw [if_neg hcount]
    exact iff_of_false one_ne_zero hcount

/-- With `-e` the program ends only if all went well, but it does not return 0. -/
theorem showmount_served (hf : cfg.format = .showmount)
    (hargs : mountArgs cfg res dummyTargets args = .ok ts)
    (hs : mountTargets cfg env res args = .ok s) (h : rounds (mountRound cfg env) n 0 s = .ok s') :
    AllServed cfg env ts s.targets n ∧ ¬ (s'.exportsSent ≠ 0 ∧ s'.exportsSent = s'.exportsOk) := by
  obtain ⟨hok, -, hnil⟩ := mountTargets_counters hs
  have hlisted := mountTargets_listed hargs hs
  constructor
  · refine ⟨⟨fun j t ht hne => (hlisted j t ht hne).1 hf, ?_⟩, ?_, ?_⟩
    · intro r _ j t ht
      simp [hnil hf] at ht
    · intro j t ht hne
      exact (hlisted j t ht hne).2 ((hlisted j t ht hne).1 hf)
    · intro q hq
      obtain ⟨-, t, ht, -⟩ := mem_mountRequests.1 hq
      simp [hnil hf] at ht
  · rw [rounds_noTargets (hnil hf) h, hok]
    rintro ⟨hne, heq⟩
    exact hne heq

/-- Else it ends only if all requests have replies, so what is left are errors and missing clients. -/
theorem served_iff (hargs : mountArgs cfg res dummyTargets args = .ok ts)
    (hs : mountTargets cfg env res args = .ok s)
    (htallied : Tallied cfg env (mountRequests cfg env s.targets n) run) :
    AllServed cfg env ts s.targets n ↔ AllReached cfg env ts s.targets n ∧
      ¬ ∃ q ∈ mountRequests cfg env s.targets n, ErrorReply cfg env q := by
  constructor
  · rintro ⟨hreached, -, hall⟩
    refine ⟨hreached, ?_⟩
    rintro ⟨q, hq, herror⟩
    exact (not_errorReply (htallied.replies q hq)).2 (hall q hq) herror
  · rintro ⟨hreached, hno⟩
    refine ⟨hreached, ?_, ?_⟩
    · intro j t ht hne
      exact (mountTargets_listed hargs hs j t ht hne).2 (hreached.listed j t ht hne)
    · intro q hq
      exact (not_errorReply (htallied.replies q hq)).1 fun herror => hno ⟨q, hq, herror⟩

end

/-- **The status tells** whether all went well, iff not with `-e`, and unless a target that is not reached
    or a filehandle of length 0 is missed. -/
theorem mountStatus_tells_iff (res : Resolver) (args : List CString) (ts : List Target)
    (s s' : MountState)
    (n : ℕ) (result : MountResult) (hargs : mountArgs cfg res dummyTargets args = .ok ts)
    (hs : mountTargets cfg env res args = .ok s)
    (hends : Ends (mountRound cfg env) (fun _ s => s.more) n s s')
    (hfinish : mountFinish cfg (some (n, s')) = .ok (some result)) :
    (result.status = 0 ↔ AllServed cfg env ts s.targets n) ↔ StatusTells cfg env ts s.targets n := by
  obtain ⟨m, rfl, hrounds, -⟩ := ends_iff.1 hends
  rw [mountFinish_status hfinish]
  by_cases hf : cfg.format = .showmount
  · obtain ⟨hserved, hstatus⟩ := showmount_served hf hargs hs hrounds
    constructor
    · intro h
      exact absurd (h.2 hserved) hstatus
    · intro h
      exact absurd hf h.format
  · have htallied := rounds_tallied hf hs hrounds
    rw [htallied.counts.equal_iff, lost, ← lostRequests, served_iff hargs hs htallied]
    by_cases herror : ∃ q ∈ mountRequests cfg env s.targets (m + 1), ErrorReply cfg env q
    · constructor
      · intro h
        refine ⟨hf, fun _ => ?_, fun hno => absurd herror hno⟩
        rw [or_iff_not_and_not, not_not]
        intro hcount
        exact (h.1 hcount).2 herror
      · intro h
        have hor := h.errors herror
        constructor
        · rintro ⟨hsent, hlost⟩
          exact absurd hor (not_or_intro hsent (not_not_intro hlost))
        · rintro ⟨-, hno⟩
          exact absurd herror hno
    · rw [and_iff_left herror]
      constructor
      · intro h
        exact ⟨hf, fun hyes => absurd hyes herror, fun _ => h⟩
      · intro h
        exact h.noErrors herror

/-- The first target cannot be reached. -/
def firstDown : MountEnv where
  connect _ j := j != 0
  mountres3 _ _ _ := some { fhandle := ⟨[7], by decide⟩ }

/-- A server that lists one export. -/
def oneExport : MountEnv where
  connect _ _ := true
  exportList _ := some [{ exDir := "/a".toList }]

theorem mountStatus_tells_iff_firstDown : ∃ ts s n result,
    (MountResult.status result = 0 ↔ AllServed {} firstDown ts (MountState.targets s) n) ↔
      StatusTells {} firstDown ts (MountState.targets s) n := by
  obtain ⟨ts, s, s', result, hargs, hs, hpoll, hfinish⟩ : ∃ ts s s' result,
      mountArgs {} noNames dummyTargets twoPaths = .ok ts ∧
      mountTargets {} firstDown noNames twoPaths = .ok s ∧
      poll (mountRound {} firstDown) (fun _ s => s.more) 1 0 s = .ok (some (1, s')) ∧
      mountFinish {} (some (1, s')) = .ok (some result) := ⟨_, _, _, _, rfl, rfl, rfl, rfl⟩
  exact ⟨ts, s, 1, result,
    mountStatus_tells_iff {} firstDown noNames twoPaths ts s s' 1 result hargs hs ⟨1, hpoll⟩ hfinish⟩

/-- A target that cannot be reached is missed, and with `-e` the status is 1 although all went well. -/
theorem mountStatus_misses :
    (∃ ts s s' result, mountArgs {} noNames dummyTargets twoPaths = .ok ts ∧
      mountTargets {} firstDown noNames twoPaths = .ok s ∧
      Ends (mountRound {} firstDown) (fun _ s => s.more) 1 s s' ∧
      mountFinish {} (some (1, s')) = .ok (some result) ∧ MountResult.status result = 0 ∧
      ¬ AllServed {} firstDown ts s.targets 1) ∧
    ∃ ts s s' result,
      mountArgs { format := .showmount } noNames dummyTargets ["10.0.0.1".toList] = .ok ts ∧
      mountTargets { format := .showmount } oneExport noNames ["10.0.0.1".toList] = .ok s ∧
      Ends (mountRound { format := .showmount } oneExport) (fun _ s => s.more) 1 s s' ∧
      mountFinish { format := .showmount } (some (1, s')) = .ok (some result) ∧
      MountResult.status result = 1 ∧ AllServed { format := .showmount } oneExport ts s.targets 1 := by
  constructor
  · refine ⟨_, _, _, _, rfl, rfl, ⟨1, rfl⟩, rfl, rfl, ?_⟩
    intro h
    exact absurd (h.reached.connected 0 Nat.one_pos 0 _ rfl) (by decide)
  · obtain ⟨ts, s, s', result, hargs, hs, hpoll, hfinish, hone⟩ : ∃ ts s s' result,
        mountArgs { format := .showmount } noNames dummyTargets ["10.0.0.1".toList] = .ok ts ∧
        mountTargets { format := .showmount } oneExport noNames ["10.0.0.1".toList] = .ok s ∧
        poll (mountRound { format := .showmount } oneExport) (fun _ s => s.more) 1 0 s =
          .ok (some (1, s')) ∧
        mountFinish { format := .showmount } (some (1, s')) = .ok (some result) ∧
        MountResult.status result = 1 := ⟨_, _, _, _, rfl, rfl, rfl, rfl, rfl⟩
    have hends : Ends (mountRound { format := .showmount } oneExport) (fun _ s => s.more) 1 s s' :=
      ⟨1, hpoll⟩
    obtain ⟨m, hm, hrounds, -⟩ := ends_iff.1 hends
    rw [← hm] at hrounds
    exact ⟨ts, s, s', result, hargs, hs, hends, hfinish, hone,
      (showmount_served rfl hargs hs hrounds).1⟩

end NFStash
