/-
  The replies that `nfsmount` does not get.

  A stub returns NULL when its call fails.  `get_exports` and `get_root_filehandle` have a branch for
  this, which reports the error and goes on without exports or a filehandle.  It is never taken: the
  result of EXPORT is read before the test, and in every version the result of MNT is copied or freed
  first.  So the error is reported iff there is none (`mountReplies_reported_iff`).
-/
import NFStash.MountRequests

namespace NFStash

open CLib Loops

variable (cfg : MountConfig) (env : MountEnv)

/-- The stub for MNT returns NULL. -/
def MntNull (r j k : ℕ) : Prop :=
  match cfg.version with
  | .v3 => env.mountres3 r j k = none
  | _ => env.fhstatus r j k = none

/-- A request takes the branch for an error: it is reported, there is no filehandle, and the loop goes
    on with the next export. -/
structure MntReported (r j k : ℕ) (target : Target) (e : MountExports) (run : MountRun) : Prop where
  reported : ∃ run', getRootFilehandle cfg env r j k target.name e.path run = .ok run' ∧
    run'.root.len = 0 ∧ run'.trace =
      run.trace ++ [.mnt r j k, .error target.name e.path (some "mountproc_mnt_x")]
  goesOn : ∃ p, mountExport cfg env r j target k e run = .ok p

/-- A listing takes the branch for an error: there are no exports, and the loop goes on. -/
structure ExportReported (j : ℕ) (target : Target) (run : MountRun) : Prop where
  reported : getExports env j { target with client := true } = .ok []
  goesOn : ∃ p, listExports cfg env j target run = .ok p

/-- The loop over the arguments gets to the EXPORT request for target `j`. -/
structure ListReaches (res : Resolver) (args : List CString) (j : ℕ) (target : Target)
    (run : MountRun) :
    Prop where
  before : ∃ ts, mountArgs cfg res dummyTargets args = .ok ts ∧ ts.tail[j]? = some target ∧
    Reaches (listExports cfg env) 0 ts.tail {} j run
  exports : target.exports = []
  connected : env.connectList j = true

/-- The main loop gets to a MNT request: another round has been asked for after each before. -/
structure MntReaches (res : Resolver) (args : List CString) (r j k : ℕ) (target : Target)
    (e : MountExports)
    (run : MountRun) : Prop where
  request : ∃ s, mountTargets cfg env res args = .ok s ∧ MountReaches cfg env s r j k target e run ∧
    ∀ i < r, ∀ u, rounds (mountRound cfg env) (i + 1) 0 s = .ok u → u.more = true

/-- Every call that fails is reported, in a run with these arguments. -/
structure RepliesReported (res : Resolver) (args : List CString) : Prop where
  list : ∀ j target run, ListReaches cfg env res args j target run → env.exportList j = none →
    ExportReported cfg env j target run
  mnt : ∀ r j k target e run, MntReaches cfg env res args r j k target e run → MntNull cfg env r j k →
    MntReported cfg env r j k target e run

/-- No call fails. -/
structure RepliesCome (res : Resolver) (args : List CString) : Prop where
  list : ∀ j target run, ListReaches cfg env res args j target run → env.exportList j ≠ none
  mnt : ∀ r j k target e run, MntReaches cfg env res args r j k target e run → ¬ MntNull cfg env r j k

section
variable {cfg env} {r j k : ℕ} {target : Target} {e : MountExports} {run : MountRun}

/-- **A NULL result is used** before it is looked at, in every version. -/
theorem mntNull_fault (h : MntNull cfg env r j k) (host path : CString) :
    getRootFilehandle cfg env r j k host path run = .error .nullDeref := by
  have hreply : mountReply cfg env r j k = none := by
    unfold MntNull at h
    unfold mountReply
    cases hv : cfg.version <;> simp only [hv] at h ⊢ <;> rw [h] <;> rfl
  simp only [getRootFilehandle, mountprocMntX_eq, hreply]
  rfl

theorem exportNull_fault (h : env.exportList j = none) :
    getExports env j { target with client := true } = .error .nullDeref := by
  simp [getExports, h]

end

/-- **Failed calls are reported** iff there are none. -/
theorem mountReplies_reported_iff (res : Resolver) (args : List CString) :
    RepliesReported cfg env res args ↔ RepliesCome cfg env res args := by
  constructor
  · rintro ⟨hlist, hmnt⟩
    constructor
    · intro j target run hreaches hnull
      have hreported := (hlist j target run hreaches hnull).reported
      rw [exportNull_fault hnull] at hreported
      cases hreported
    · intro r j k target e run hreaches hnull
      obtain ⟨run', hreported, -⟩ := (hmnt r j k target e run hreaches hnull).reported
      rw [mntNull_fault hnull] at hreported
      cases hreported
  · rintro ⟨hlist, hmnt⟩
    constructor
    · intro j target run hreaches hnull
      exact absurd hnull (hlist j target run hreaches)
    · intro r j k target e run hreaches hnull
      exact absurd hnull (hmnt r j k target e run hreaches)

/-- Every call fails. -/
def noReplies : MountEnv where
  connect _ _ := true

/-- The run gets to the request for `10.0.0.1:/a`. -/
theorem noReplies_reaches (version : MountVersion) : ∃ target e run,
    MntReaches { version } noReplies noNames ["10.0.0.1:/a".toList] 0 0 0 target e run := by
  refine ⟨_, _, _, _, rfl, .intro rfl (reaches_zero.2 rfl) rfl rfl rfl (reaches_zero.2 rfl) rfl, ?_⟩
  intro i hi
  exact absurd hi (Nat.not_lt_zero i)

/-- This request is not reported, and stops the program; so does one for the exports of `10.0.0.1`. -/
theorem noReplies_fault (version : MountVersion) :
    ¬ RepliesReported { version } noReplies noNames ["10.0.0.1:/a".toList] ∧
    mountMain { version } noReplies noNames 1 ["10.0.0.1:/a".toList] = .error .nullDeref ∧
    mountMain { version } noReplies noNames 1 ["10.0.0.1".toList] = .error .nullDeref := by
  refine ⟨?_, by cases version <;> rfl, by cases version <;> rfl⟩
  rintro ⟨-, hmnt⟩
  obtain ⟨target, e, run, hreaches⟩ := noReplies_reaches version
  have hnull : MntNull { version } noReplies 0 0 0 := by cases version <;> rfl
  obtain ⟨run', hreported, -⟩ := (hmnt 0 0 0 target e run hreaches hnull).reported
  rw [mntNull_fault hnull] at hreported
  cases hreported

theorem mountReplies_null :
    ¬ RepliesReported { version := .v1 } noReplies noNames ["10.0.0.1:/a".toList] ∧
    ¬ RepliesReported { version := .v2 } noReplies noNames ["10.0.0.1:/a".toList] ∧
    ¬ RepliesReported { version := .v3 } noReplies noNames ["10.0.0.1:/a".toList] :=
  ⟨(noReplies_fault .v1).1, (noReplies_fault .v2).1, (noReplies_fault .v3).1⟩

end NFStash
