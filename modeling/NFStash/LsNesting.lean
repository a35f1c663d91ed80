/-
  How deep `do_getattr` and `do_readdirplus` call each other.

  The server answers each request always in the same way.  If it says that a handle is
  a directory to GETATTR and that it is none to READDIRPLUS (`Contradictory`),
  the two procedures call each other for ever (`contradictory_depth`); with
  any other server each calls the other at most once
  (`nestsWithin_iff`).
-/
import NFStash.Ls

namespace NFStash

open CLib

/-! ## Servers without state -/

section
variable (getattr : NfsFh3 → Option Getattr3res)
  (readdirplus : Readdirplus3args → Option Readdirplus3res) (readlink : NfsFh3 → Option Readlink3res)

/-- A server that answers a request always in the same way. -/
def LsEnv.ofReplies : LsEnv where
  getattr _ := getattr
  readdirplus _ := readdirplus
  readlink _ := readlink

/-- The handle is that of a directory, whose entries are asked for. -/
def SaysDir (cfg : LsConfig) (fh : NfsFh3) : Prop :=
  cfg.listdir = false ∧
    ∃ res, getattr fh = some res ∧ res.status = NFS3_OK ∧ res.objAttributes.type = NF3DIR

/-- The cookie after the entries of a reply, and whether one of the cookies did not increase. -/
def scan (cfg : LsConfig) : List Entryplus3 → UInt64 → UInt64 × Bool
  | [], cookie => (cookie, false)
  | e :: es, cookie =>
    if hidden cfg e then scan cfg es cookie
    else if cookie < e.cookie then scan cfg es e.cookie
    else (cookie, true)

/-- The requests of a listing from `args` on are answered until the server says that this is not a
    directory. -/
inductive EndsNotdir (cfg : LsConfig) : Readdirplus3args → Prop where
  | notdir {args res} (hr : readdirplus args = some res) (hs : res.status = NFS3ERR_NOTDIR) :
      EndsNotdir cfg args
  | next {args res cookie} (hr : readdirplus args = some res) (hs : res.status = NFS3_OK)
      (he : res.eof = false) (hc : scan cfg res.entries args.cookie = (cookie, false))
      (h : EndsNotdir cfg { args with cookie, cookieverf := res.cookieverf }) : EndsNotdir cfg args

/-- A directory for GETATTR, and none for READDIRPLUS. -/
def Contradictory (cfg : LsConfig) (fh : NfsFhList) : Prop :=
  SaysDir getattr cfg fh.nfsFh ∧ EndsNotdir readdirplus cfg (firstArgs fh)

end

/-- From `proc` on, calls are nested at most `n` deep, however many pages listings have. -/
def NestsWithin (cfg : LsConfig) (env : LsEnv) (host : CString) (proc : LsProc) (fh : NfsFhList)
    (n : ℕ) : Prop :=
  ∀ pages tr, (proc.call cfg env host pages n fh tr).1 ≠ .error .depth

/-! ## One procedure -/

section
variable (cfg : LsConfig) (host : CString) {nested : NfsFhList → List LsEvent → LsResult}
  {fh : NfsFhList}

theorem readEntries_scan (env : LsEnv) (path : CString) (es : List Entryplus3) (page : Page)
    (hl : page.loop = false) :
    ((readEntries cfg env host path es page).cookie, (readEntries cfg env host path es page).loop) =
      scan cfg es page.cookie := by
  induction es generalizing page with
  | nil => simp [readEntries, scan, hl]
  | cons e es ih =>
    unfold readEntries scan
    split_ifs with hh hc
    · exact ih page hl
    · exact ih _ hl
    · rfl

variable {getattr : NfsFh3 → Option Getattr3res}
  {readdirplus : Readdirplus3args → Option Readdirplus3res} {readlink : NfsFh3 → Option Readlink3res}

/-- `do_getattr` calls the other procedure for a directory only. -/
theorem getattrBody_saysDir (readdirplus : Readdirplus3args → Option Readdirplus3res)
    (readlink : NfsFh3 → Option Readlink3res) (nested : NfsFhList → List LsEvent → LsResult)
    (h : SaysDir getattr cfg fh.nfsFh) (tr : List LsEvent) :
    ∃ tr', getattrBody cfg (.ofReplies getattr readdirplus readlink) host nested fh tr =
      nested fh tr' := by
  obtain ⟨hl, res, hr, hs, hd⟩ := h
  exact ⟨_, by simp only [getattrBody, LsEnv.ofReplies, hr, hs, hd, hl, and_self, if_true]; rfl⟩

theorem getattrBody_not_saysDir (h : ¬ SaysDir getattr cfg fh.nfsFh) (tr : List LsEvent) :
    (getattrBody cfg (.ofReplies getattr readdirplus readlink) host nested fh tr).1 ≠
      .error .depth := by
  unfold getattrBody
  cases hr : (LsEnv.ofReplies getattr readdirplus readlink).getattr tr.length fh.nfsFh with
  | none => simp
  | some res =>
    dsimp only
    split_ifs with hs hd
    · exact absurd ⟨hd.2, res, hr, hs, hd.1⟩ h
    · simp
    · simp

/-- `do_readdirplus` calls the other procedure when it is told that this is not a directory. -/
theorem readdirplusLoop_notdir (getattr : NfsFh3 → Option Getattr3res)
    (readlink : NfsFh3 → Option Readlink3res) (fh : NfsFhList) {args : Readdirplus3args}
    (h : EndsNotdir readdirplus cfg args) :
    ∃ pages, ∀ entries tr,
      ∃ tr', ∀ nested : NfsFhList → List LsEvent → LsResult, (nested fh tr').1 = .error .depth →
        (readdirplusLoop cfg (.ofReplies getattr readdirplus readlink) host nested fh pages args
          entries tr).1 = .error .depth := by
  induction h with
  | @notdir args res hr hs =>
    refine ⟨1, fun entries tr => ⟨tr ++ [.readdirplus args (some res)], ?_⟩⟩
    intro nested hn
    have hne : res.status ≠ NFS3_OK := by rw [hs]; decide
    rw [readdirplusLoop]
    simp only [LsEnv.ofReplies, hr, if_neg hne, if_pos hs]
    generalize nested fh _ = q at hn
    rcases q with ⟨f | ⟨es, fh'⟩, tr'⟩
    · exact hn
    · simp at hn
  | @next args res cookie hr hs he hc h ih =>
    obtain ⟨pages, ih⟩ := ih
    refine ⟨pages + 1, ?_⟩
    intro entries tr
    let page := readEntries cfg (.ofReplies getattr readdirplus readlink) host fh.path res.entries
      { cookie := args.cookie, entries
        trace := tr ++ [.readdirplus args (some res)] ++
          (checkCookieverf host fh.path args.cookieverf res.cookieverf).2 }
    have hscan : (page.cookie, page.loop) = (cookie, false) :=
      (readEntries_scan cfg host _ fh.path res.entries _ rfl).trans hc
    obtain ⟨tr', ht⟩ := ih page.entries page.trace
    refine ⟨tr', ?_⟩
    intro nested hn
    have hloop : page.loop = false := congrArg Prod.snd hscan
    have hcookie : page.cookie = cookie := congrArg Prod.fst hscan
    rw [readdirplusLoop]
    simp only [LsEnv.ofReplies, hr, if_pos hs]
    change (if (res.eof || page.loop) = true then _ else
      readdirplusLoop _ _ _ _ _ _ { args with cookie := page.cookie, cookieverf := res.cookieverf }
        page.entries page.trace : LsResult).1 = _
    rw [he, hloop, hcookie]
    exact ht nested hn

theorem readdirplusLoop_not_notdir {args : Readdirplus3args} (h : ¬ EndsNotdir readdirplus cfg args)
    (pages : ℕ) (entries : List Entrypluslink3) (tr : List LsEvent) :
    (readdirplusLoop cfg (.ofReplies getattr readdirplus readlink) host nested fh pages args entries
      tr).1 ≠ .error .depth := by
  induction pages generalizing args entries tr with
  | zero => simp [readdirplusLoop]
  | succ pages ih =>
    rw [readdirplusLoop]
    cases hr : (LsEnv.ofReplies getattr readdirplus readlink).readdirplus tr.length args with
    | none => simp
    | some res =>
      dsimp only
      split_ifs with hs he hn
      · simp
      · refine ih (fun hnext => h ?_) _ _
        simp only [Bool.or_eq_true, not_or, Bool.not_eq_true] at he
        refine .next hr hs he.1 ?_ hnext
        rw [← readEntries_scan cfg host (.ofReplies getattr readdirplus readlink) fh.path res.entries
          { cookie := args.cookie, entries
            trace := tr ++ [.readdirplus args (some res)] ++
              (checkCookieverf host fh.path args.cookieverf res.cookieverf).2 } rfl]
        exact Prod.ext rfl he.2
      · exact absurd (.notdir hr hn) h
      · simp

/-! ## Both procedures -/

/-- A contradictory server exceeds every depth, at both entry points. -/
theorem contradictory_depth (readlink : NfsFh3 → Option Readlink3res)
    (h : Contradictory getattr readdirplus cfg fh) :
    ∃ pages, ∀ depth proc tr, (LsProc.call cfg (.ofReplies getattr readdirplus readlink) host pages
      depth proc fh tr).1 = .error .depth := by
  obtain ⟨pages, hloop⟩ := readdirplusLoop_notdir cfg host getattr readlink fh h.2
  refine ⟨pages, ?_⟩
  intro depth
  induction depth with
  | zero => rintro (_ | _) tr <;> rfl
  | succ depth ih =>
    rintro (_ | _) tr
    · obtain ⟨tr', ht⟩ := getattrBody_saysDir cfg host readdirplus readlink
        (doReaddirplus cfg (.ofReplies getattr readdirplus readlink) host pages depth) h.1 tr
      exact (congrArg Prod.fst ht).trans (ih .readdirplus tr')
    · obtain ⟨tr', ht⟩ := hloop [] tr
      exact ht _ (ih .getattr tr')

/-- With any other server two procedures at most are active at a time. -/
theorem not_contradictory_depth (h : ¬ Contradictory getattr readdirplus cfg fh) (proc : LsProc)
    (depth : ℕ) :
    NestsWithin cfg (.ofReplies getattr readdirplus readlink) host proc fh (depth + 2) := by
  intro pages tr
  by_cases hd : SaysDir getattr cfg fh.nfsFh
  · have hn : ¬ EndsNotdir readdirplus cfg (firstArgs fh) := fun hn => h ⟨hd, hn⟩
    cases proc with
    | getattr =>
      exact getattrBody_ne_error cfg _ host
        (fun tr => readdirplusLoop_not_notdir cfg host hn pages [] tr) tr
    | readdirplus => exact readdirplusLoop_not_notdir cfg host hn pages [] tr
  · cases proc with
    | getattr => exact getattrBody_not_saysDir cfg host hd tr
    | readdirplus =>
      exact readdirplusLoop_ne_error cfg _ host (by decide) (fun tr => getattrBody_not_saysDir cfg host hd tr)
        pages (firstArgs fh) [] tr

end

/-- **When the nesting is bounded.**  At either entry point a call switches at most once in each
    direction, so that at most three procedures are active, iff the server does not contradict
    itself; if it does, there is no bound. -/
theorem nestsWithin_iff (cfg : LsConfig) (host : CString) (getattr : NfsFh3 → Option Getattr3res)
    (readdirplus : Readdirplus3args → Option Readdirplus3res)
    (readlink : NfsFh3 → Option Readlink3res) (proc : LsProc) (fh : NfsFhList) :
    (NestsWithin cfg (.ofReplies getattr readdirplus readlink) host proc fh 3 ↔
        ¬ Contradictory getattr readdirplus cfg fh) ∧
      ((∃ n, NestsWithin cfg (.ofReplies getattr readdirplus readlink) host proc fh n) ↔
        ¬ Contradictory getattr readdirplus cfg fh) := by
  have hbad : Contradictory getattr readdirplus cfg fh → ∀ n,
      ¬ NestsWithin cfg (.ofReplies getattr readdirplus readlink) host proc fh n := fun h n hn => by
    obtain ⟨pages, hp⟩ := contradictory_depth cfg host readlink h
    exact hn pages [] (hp n proc [])
  exact ⟨⟨fun hn h => hbad h 3 hn, fun h => not_contradictory_depth cfg host h proc 1⟩,
    ⟨fun ⟨n, hn⟩ h => hbad h n hn, fun h => ⟨3, not_contradictory_depth cfg host h proc 1⟩⟩⟩

/-- A server that calls everything a directory, and then denies it, exceeds every depth. -/
theorem nestsWithin_contradictory : ¬ ∃ n, NestsWithin {}
    (.ofReplies (fun _ => some { objAttributes := { type := NF3DIR } })
      (fun _ => some { status := NFS3ERR_NOTDIR }) fun _ => none) [] .getattr {} n := by
  have h : Contradictory (fun _ => some { objAttributes := { type := NF3DIR } })
      (fun _ => some { status := NFS3ERR_NOTDIR }) {} {} :=
    ⟨⟨rfl, _, rfl, rfl, rfl⟩, .notdir rfl rfl⟩
  obtain ⟨pages, hp⟩ := contradictory_depth {} [] (fun _ => none) h
  exact fun ⟨n, hn⟩ => hn pages [] (hp n .getattr [])

end NFStash
