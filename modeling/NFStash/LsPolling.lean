/-
  Polling a file with `nfsls`.

  `do_getattr` returns the base name of the path and leaves its directory in the
  filehandle, so that the two make up the path again (`joinPath_split`).  The
  next round starts from the directory: `polling_iff` says that rounds agree
  iff there is one only, or the server does not answer GETATTR.
-/
import NFStash.Ls

namespace NFStash

open CLib Loops

/-! ## Paths -/

/-- Directory and base name make up the path. -/
theorem joinPath_file {q name : CString} (hq : q.getLast? ≠ some '/') (hne : name ≠ []) (hs : '/' ∉ name) :
    joinPath (dirname (q ++ '/' :: name)) (basename (q ++ '/' :: name)) = q ++ '/' :: name := by
  rw [basename_split hne hs]
  by_cases hq0 : q = []
  · subst hq0
    rw [List.nil_append, dirname_root hne hs]
    rfl
  · rw [dirname_dir hq0 hq hne hs, joinPath, if_neg hq]

theorem joinPath_split {p : CString} (hp : AbsPath p) : joinPath (dirname p) (basename p) = p := by
  obtain ⟨d, b, rfl, hb, hs, hd⟩ := hp.split
  refine joinPath_file ?_ hb hs
  rcases hd with rfl | hd
  · simp
  · exact hd.noTrailing

/-- The directory of a file: it is the root, or a path that is shorter. -/
theorem dirname_cases {p : CString} (hp : AbsPath p) :
    dirname p = ['/'] ∨ (AbsPath (dirname p) ∧ (dirname p).length < p.length) := by
  obtain ⟨d, b, rfl, hb, hs, hd⟩ := hp.split
  rcases hd with rfl | hd
  · exact .inl (by rw [List.nil_append, dirname_root hb hs])
  · rw [dirname_abs hd hb hs]
    exact .inr ⟨hd, by simp⟩

/-- Directory and base name of the directory do not make up the path. -/
theorem joinPath_dirname_ne {p : CString} (hp : AbsPath p) :
    joinPath (dirname (dirname p)) (basename (dirname p)) ≠ p := by
  rcases dirname_cases hp with h | ⟨ha, hl⟩
  · rw [h]
    intro he
    exact hp.noRepeat (by rw [← he]; decide)
  · rw [joinPath_split ha]
    intro he
    simp [he] at hl

/-! ## One round -/

variable (cfg : LsConfig) (env : LsEnv) (pages depth : ℕ)

/-- The filehandle `j` of target `i`. -/
def LsState.fhAt (s : LsState) (i j : ℕ) : Option NfsFhList := s.targets[i]?.bind (·.filehandles[j]?)

section
variable {cfg env pages depth} {fh fh' : NfsFhList} {n : ℕ}

/-- What a round leaves in a filehandle is what the listing of it does. -/
theorem lsTarget_get {t t' : Target} {run run' : LsRun}
    (h : lsTarget cfg env pages depth n t run = .ok (t', run')) {j : ℕ}
    (hfh : t.filehandles[j]? = some fh) : ∃ fh' k st st', t'.filehandles[j]? = some fh' ∧
      lsFilehandle cfg env pages depth k fh st = .ok (fh', st') := by
  obtain ⟨run₁, fhs, target, -, hw, rfl⟩ := lsTarget_ok h
  obtain ⟨fh', st, st', hfh', hst⟩ := walk_get hw hfh
  exact ⟨fh', _, st, st', hfh', hst⟩

theorem lsRound_get {s s' : LsState} (h : lsRound cfg env pages depth n s = .ok s') {i j : ℕ}
    (hfh : s.fhAt i j = some fh) : ∃ fh' k st st', s'.fhAt i j = some fh' ∧
      lsFilehandle cfg env pages depth k fh st = .ok (fh', st') := by
  obtain ⟨targets, run, more, hw, -, rfl⟩ := lsRound_ok h
  obtain ⟨t, ht, hfh⟩ := Option.bind_eq_some_iff.1 hfh
  obtain ⟨t', run, run', ht', hst⟩ := walk_get hw ht
  obtain ⟨fh', k, st, st', hfh', hst'⟩ := lsTarget_get hst hfh
  exact ⟨fh', k, st, st', Option.bind_eq_some_iff.2 ⟨t', ht', hfh'⟩, hst'⟩

/-! ## GETATTR for a file -/

/-- The reply is not `NFS3_OK`, or there is none. -/
def Refused (reply : Option Getattr3res) : Prop := ∀ res, reply = some res → res.status ≠ NFS3_OK

/-- The reply does not say that the handle is that of a directory. -/
def SaysFile (reply : Option Getattr3res) : Prop :=
  ∀ res, reply = some res → res.status = NFS3_OK → res.objAttributes.type ≠ NF3DIR

section
variable {host : CString} {reply : Option Getattr3res} {tr tr' : List LsEvent}
  {r : List Entrypluslink3 × NfsFhList}

/-- Without attributes there is no entry, and the filehandle stays as it is. -/
theorem call_refused (hg : ∀ k, env.getattr k fh.nfsFh = reply) (hr : Refused reply)
    (h : LsProc.getattr.call cfg env host pages depth fh tr = (.ok r, tr')) :
    r = ([], fh) := by
  cases depth with
  | zero => simp [LsProc.call, doGetattr] at h
  | succ depth =>
    simp only [LsProc.call, doGetattr, getattrBody, hg] at h
    cases reply with
    | none => exact (Except.ok.inj (congrArg Prod.fst h)).symm
    | some res =>
      simp only [if_neg (hr res rfl)] at h
      exact (Except.ok.inj (congrArg Prod.fst h)).symm

/-- With the attributes of a file there is one entry, called by the base name, and the directory
    is left in the filehandle. -/
theorem call_file (hg : ∀ k, env.getattr k fh.nfsFh = reply) (hf : SaysFile reply)
    (hr : ¬ Refused reply) (hl : fh.path.length < MNTPATHLEN)
    (h : LsProc.getattr.call cfg env host pages depth fh tr = (.ok r, tr')) :
    ∃ e, r.1 = [e] ∧ e.name = basename fh.path ∧ r.2.path = strncpy MNTPATHLEN (dirname fh.path) ∧
      r.2.nfsFh = fh.nfsFh := by
  unfold Refused at hr
  push Not at hr
  obtain ⟨res, rfl, hs⟩ := hr
  have hfile : res.objAttributes.type ≠ NF3DIR := hf res rfl hs
  cases depth with
  | zero => simp [LsProc.call, doGetattr] at h
  | succ depth =>
    simp only [LsProc.call, doGetattr, getattrBody, hg, if_pos hs, hfile, false_and, if_false] at h
    have hr := Except.ok.inj (congrArg Prod.fst h)
    subst hr
    refine ⟨_, rfl, ?_, rfl, rfl⟩
    simp only [getattrEntry, if_neg hfile, strncpy_of_lt hl.le]
    split_ifs
    · rfl
    · rfl

end

end

/-! ## All rounds -/

/-- A round that starts in `s` and ends in `s'` polls the file at `path`: it asks for what is asked
    for this path, and the entry returned has this path. -/
def PollsPath (path : CString) (i j : ℕ) (s s' : LsState) : Prop :=
  ∃ fh fh', s.fhAt i j = some fh ∧ s'.fhAt i j = some fh' ∧
    chooseProc cfg fh.path = chooseProc cfg path ∧
    ∀ e ∈ fh'.entries.head?, joinPath fh'.path e.name = path

section
variable {cfg env pages depth} {n : ℕ} {s s' : LsState} {i j : ℕ} {fh : NfsFhList} {path : CString}
  {reply : Option Getattr3res}

theorem chooseProc_file (hp : path.getLast? ≠ some '/') : chooseProc cfg path = .getattr := by
  simp [chooseProc, hp]

/-- A round in which the server refuses leaves the filehandle as it was. -/
theorem lsRound_refused (hg : ∀ k, env.getattr k fh.nfsFh = reply) (hr : Refused reply)
    (hfh : s.fhAt i j = some fh) (hp : AbsPath fh.path)
    (h : lsRound cfg env pages depth n s = .ok s') :
    ∃ fh', s'.fhAt i j = some fh' ∧ fh'.path = fh.path ∧ fh'.nfsFh = fh.nfsFh ∧ fh'.entries = [] := by
  obtain ⟨fh', k, st, st', hfh', hst⟩ := lsRound_get h hfh
  obtain ⟨es, fh'', tr, stats, hcall, -, rfl, -⟩ := lsFilehandle_ok hst
  rw [chooseProc_file hp.noTrailing] at hcall
  obtain ⟨rfl, rfl⟩ := Prod.mk.inj (call_refused hg hr hcall)
  exact ⟨_, hfh', rfl, rfl, rfl⟩

/-- A round that asks for the attributes of a file leaves its directory behind. -/
theorem lsRound_file (hg : ∀ k, env.getattr k fh.nfsFh = reply) (hf : SaysFile reply)
    (hr : ¬ Refused reply) (hl : fh.path.length < MNTPATHLEN) (hfh : s.fhAt i j = some fh)
    (hc : chooseProc cfg fh.path = .getattr) (h : lsRound cfg env pages depth n s = .ok s') :
    ∃ fh' e, s'.fhAt i j = some fh' ∧ fh'.path = strncpy MNTPATHLEN (dirname fh.path) ∧
      fh'.nfsFh = fh.nfsFh ∧ fh'.entries = [e] ∧ e.name = basename fh.path := by
  obtain ⟨fh', k, st, st', hfh', hst⟩ := lsRound_get h hfh
  obtain ⟨es, fh'', tr, stats, hcall, -, rfl, -⟩ := lsFilehandle_ok hst
  rw [hc] at hcall
  obtain ⟨e, hr1, hname, hr2, hr3⟩ := call_file hg hf hr hl hcall
  exact ⟨_, e, hfh', hr2, hr3, hr1, hname⟩

/-- The directory fits where the path did. -/
theorem dirname_fits (hp : AbsPath path) (hl : path.length < MNTPATHLEN) :
    strncpy MNTPATHLEN (dirname path) = dirname path ∧ (dirname path).length < MNTPATHLEN := by
  have h : (dirname path).length < MNTPATHLEN := by
    rcases dirname_cases hp with h | ⟨-, h⟩
    · rw [h]
      decide
    · omega
  exact ⟨strncpy_of_lt h.le, h⟩

end

/-- **When polling keeps what is polled.**  In a run of `R` rounds over any targets, every round asks
    for the same of a file and returns it under its path, iff there is one round at most or the
    server refuses GETATTR. -/
theorem polling_iff (s₀ sR : LsState) (R i j : ℕ) (fh : NfsFhList) (reply : Option Getattr3res)
    (hfh : s₀.fhAt i j = some fh) (hp : AbsPath fh.path) (hl : fh.path.length < MNTPATHLEN)
    (hg : ∀ k, env.getattr k fh.nfsFh = reply) (hf : SaysFile reply)
    (hrun : rounds (lsRound cfg env pages depth) R 0 s₀ = .ok sR) :
    (∀ k s s', k < R → rounds (lsRound cfg env pages depth) k 0 s₀ = .ok s →
        lsRound cfg env pages depth k s = .ok s' → PollsPath cfg fh.path i j s s') ↔
      R ≤ 1 ∨ Refused reply := by
  constructor
  · intro h
    by_contra hcon
    simp only [not_or, not_le] at hcon
    obtain ⟨hR, hr⟩ := hcon
    obtain ⟨s₂, hs₂⟩ := rounds_le hrun (m := 2) hR
    obtain ⟨s₁, hs₁, h₁₂⟩ := rounds_last.1 hs₂
    obtain ⟨s, hs, h₀₁⟩ := rounds_last.1 hs₁
    obtain rfl : s₀ = s := by simpa [rounds] using hs
    obtain ⟨fh₁, e₁, hfh₁, hpath₁, hnfs₁, -, -⟩ :=
      lsRound_file hg hf hr hl hfh (chooseProc_file hp.noTrailing) h₀₁
    rw [(dirname_fits hp hl).1] at hpath₁
    -- the second round starts from the directory
    obtain ⟨fh₁', fh₂', hfh₁', hfh₂', hc, hj⟩ := h 1 s₁ s₂ hR hs₁ h₁₂
    obtain rfl : fh₁ = fh₁' := Option.some.inj (hfh₁.symm.trans hfh₁')
    rw [chooseProc_file hp.noTrailing] at hc
    obtain ⟨fh₂, e₂, hfh₂, hpath₂, -, he₂, hname₂⟩ := lsRound_file (hnfs₁ ▸ hg) hf hr
      (by rw [hpath₁]; exact (dirname_fits hp hl).2) hfh₁ hc h₁₂
    obtain rfl : fh₂ = fh₂' := Option.some.inj (hfh₂.symm.trans hfh₂')
    have hj := hj e₂ (by simp [he₂])
    have hlen : (dirname (dirname fh.path)).length ≤ MNTPATHLEN := by
      rcases dirname_cases hp with h | ⟨ha, h⟩
      · rw [h]
        decide
      · exact (dirname_fits ha (by omega)).2.le
    rw [hpath₂, hname₂, hpath₁, strncpy_of_lt hlen] at hj
    exact joinPath_dirname_ne hp hj
  · intro h k s s' hk hs hround
    by_cases hr : Refused reply
    · have hinv : ∃ fh', s.fhAt i j = some fh' ∧ fh'.path = fh.path ∧ fh'.nfsFh = fh.nfsFh := by
        refine rounds_inv (P := fun _ s => ∃ fh', s.fhAt i j = some fh' ∧ fh'.path = fh.path ∧
          fh'.nfsFh = fh.nfsFh) ?_ ⟨fh, hfh, rfl, rfl⟩ hs
        intro m t t' _ ht hround
        obtain ⟨fh₁, h₁, hpath₁, hnfs₁⟩ := ht
        obtain ⟨fh₂, h₂, hpath₂, hnfs₂, -⟩ :=
          lsRound_refused (hnfs₁ ▸ hg) hr h₁ (hpath₁ ▸ hp) hround
        exact ⟨fh₂, h₂, hpath₂.trans hpath₁, hnfs₂.trans hnfs₁⟩
      obtain ⟨fh₁, h₁, hpath₁, hnfs₁⟩ := hinv
      obtain ⟨fh₂, h₂, -, -, he₂⟩ := lsRound_refused (hnfs₁ ▸ hg) hr h₁ (hpath₁ ▸ hp) hround
      exact ⟨fh₁, fh₂, h₁, h₂, by rw [hpath₁], by simp [he₂]⟩
    · have hR : R ≤ 1 := h.resolve_right hr
      obtain rfl : k = 0 := by omega
      obtain rfl : s₀ = s := by simpa [rounds] using hs
      obtain ⟨fh₁, e₁, h₁, hpath₁, -, he₁, hname₁⟩ :=
        lsRound_file hg hf hr hl hfh (chooseProc_file hp.noTrailing) hround
      refine ⟨fh, fh₁, hfh, h₁, rfl, ?_⟩
      intro e he
      obtain rfl : e₁ = e := by simpa [he₁] using he
      rw [hpath₁, hname₁, (dirname_fits hp hl).1, joinPath_split hp]

/-- A server of one file. -/
def fileEnv : LsEnv where
  getattr _ _ := some {}
  readdirplus _ _ := some { status := NFS3ERR_NOTDIR }
  readlink _ _ := none

/-- The file `/a/b`, on a target with a client. -/
def fileState : LsState where
  targets := [{ client := true, filehandles := [{ path := "/a/b".toList }] }]

theorem polling_iff_file : ∃ sR,
    rounds (lsRound { format := .ping, count := 2 } fileEnv 1 2) 2 0 fileState = .ok sR ∧
    ((∀ k s s', k < 2 →
        rounds (lsRound { format := .ping, count := 2 } fileEnv 1 2) k 0 fileState = .ok s →
        lsRound { format := .ping, count := 2 } fileEnv 1 2 k s = .ok s' →
        PollsPath { format := .ping, count := 2 } "/a/b".toList 0 0 s s') ↔
      2 ≤ 1 ∨ Refused (some {})) :=
  ⟨_, rfl, polling_iff _ _ _ _ fileState _ 2 0 0 { path := "/a/b".toList } (some {}) rfl
    ⟨by decide, by decide, by decide⟩ (by decide) (fun _ => rfl)
    (fun res h _ => by obtain rfl := Option.some.inj h; decide) rfl⟩

/-- In its second round `nfsls -c 2` polls `/a/b` as `/a`. -/
theorem polling_file_second : ∃ s₁ s₂,
    rounds (lsRound { format := .ping, count := 2 } fileEnv 1 2) 1 0 fileState = .ok s₁ ∧
    lsRound { format := .ping, count := 2 } fileEnv 1 2 1 s₁ = .ok s₂ ∧
    (s₂.fhAt 0 0).bind (fun fh => fh.entries.head?.map fun e => joinPath fh.path e.name) =
      some "/a".toList ∧
    ¬ PollsPath { format := .ping, count := 2 } "/a/b".toList 0 0 s₁ s₂ := by
  refine ⟨_, _, rfl, rfl, by decide, ?_⟩
  rintro ⟨fh, fh', -, h', -, hj⟩
  obtain rfl := Option.some.inj h'
  exact absurd (hj _ rfl) (by decide)

end NFStash
