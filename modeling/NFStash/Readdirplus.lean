/-
  `do_readdirplus` on a well-behaved server.

  `LoopReturns` and `GetattrReturns` say in which ways the two procedures return.

  A `RunServer` of a directory answers every request with a run of the entries after the
  cookie asked for.  `doReaddirplus_listing`: a listing that is returned is
  the directory without its hidden files, in order.  `doReaddirplus_progress_iff`:
  the requests advance and the listing is returned iff no reply other than the
  last consists of hidden files only; else the same request is sent for ever.
-/
import NFStash.Lib.Paging
import NFStash.Ls
import Mathlib.Data.List.Chain

namespace NFStash

open CLib Paging

/-! ## Directories and their servers -/

def cookieKey (e : Entryplus3) : ℕ := e.cookie.toNat

/-- A directory, in the order of its cookies. -/
structure Directory where
  entries : List Entryplus3
  sorted : entries.Pairwise (cookieKey · < cookieKey ·)
  nonzero : ∀ e ∈ entries, e.cookie ≠ 0

/-- A server that answers READDIRPLUS with a run of the entries after the cookie. -/
structure RunServer (dir : Directory) extends LsEnv where
  run : ∀ k args, ∃ res, readdirplus k args = some res ∧ res.status = NFS3_OK ∧
    IsRun (after cookieKey args.cookie.toNat dir.entries) res.entries res.eof

/-- Such a server whose runs are empty only at the end. -/
structure PageServer (dir : Directory) extends RunServer dir where
  ne_nil : ∀ k args res, readdirplus k args = some res →
    after cookieKey args.cookie.toNat dir.entries ≠ [] → res.entries ≠ []

/-- An entry is shown if it is not hidden. -/
def shown (cfg : LsConfig) (e : Entryplus3) : Bool := !hidden cfg e

/-- An entry as it is listed: the attributes returned with it may say that it is a directory. -/
def listed (e : Entryplus3) : Entryplus3 :=
  { e with name := if e.nameAttributes.any (·.type = NF3DIR) then e.name ++ ['/'] else e.name }

/-- The cookie of a READDIRPLUS request. -/
def LsEvent.cookie? : LsEvent → Option UInt64
  | .readdirplus args _ => some args.cookie
  | _ => none

/-- The cookies of the READDIRPLUS requests of a trace. -/
def requests (tr : List LsEvent) : List UInt64 := tr.filterMap LsEvent.cookie?

theorem requests_append (tr tr' : List LsEvent) : requests (tr ++ tr') = requests tr ++ requests tr' :=
  List.filterMap_append

/-- No READDIRPLUS request is among the events. -/
def Quiet (tr : List LsEvent) : Prop := ∀ ev ∈ tr, ev.cookie? = none

theorem Quiet.requests_eq {tr : List LsEvent} (h : Quiet tr) : requests tr = [] :=
  List.filterMap_eq_nil_iff.2 h

theorem Quiet.append {tr tr' : List LsEvent} (h : Quiet tr) (h' : Quiet tr') : Quiet (tr ++ tr') :=
  fun ev hev => (List.mem_append.1 hev).elim (h ev) (h' ev)

/-- What listing an entry can add to the trace. -/
def LsEvent.ofEntry : LsEvent → Bool
  | .readlink .. | .clntPerror .. | .nfsPerror .. | .readdirplusLoop .. => true
  | _ => false

/-- These events come from entries. -/
def OfEntries (tr : List LsEvent) : Prop := ∀ ev ∈ tr, ev.ofEntry = true

theorem OfEntries.append {tr tr' : List LsEvent} (h : OfEntries tr) (h' : OfEntries tr') :
    OfEntries (tr ++ tr') :=
  fun ev hev => (List.mem_append.1 hev).elim (h ev) (h' ev)

theorem OfEntries.quiet {tr : List LsEvent} (h : OfEntries tr) : Quiet tr := by
  intro ev hev
  have hev := h ev hev
  cases ev with
  | readdirplus args res => cases hev
  | _ => rfl

/-! ## One reply -/

section
variable (cfg : LsConfig) (env : LsEnv) (host path : CString)

theorem doReadlink_trace (fh : NfsFh3) (tr : List LsEvent) :
    ∃ tr', (doReadlink env host path fh tr).2 = tr ++ tr' ∧ OfEntries tr' := by
  unfold doReadlink
  cases env.readlink tr.length fh with
  | none => exact ⟨_, List.append_assoc .., by simp [OfEntries, LsEvent.ofEntry]⟩
  | some res =>
    dsimp only
    split_ifs
    · exact ⟨_, rfl, by simp [OfEntries, LsEvent.ofEntry]⟩
    · exact ⟨_, List.append_assoc .., by simp [OfEntries, LsEvent.ofEntry]⟩

theorem getattrEntry_trace (fh : NfsFhList) (attributes : Fattr3) (tr : List LsEvent) :
    ∃ tr', (getattrEntry env host fh attributes tr).2 = tr ++ tr' ∧ OfEntries tr' := by
  unfold getattrEntry
  split_ifs
  · exact ⟨[], by simp, by simp [OfEntries]⟩
  · exact doReadlink_trace env host fh.path fh.nfsFh tr
  · exact ⟨[], by simp, by simp [OfEntries]⟩

/-- An attribute that is not returned reads as zero, which is not the type of a directory. -/
theorem attributes_dir_iff (e : Entryplus3) :
    e.attributes.type = NF3DIR ↔ e.nameAttributes.any (·.type = NF3DIR) = true := by
  unfold Entryplus3.attributes
  cases e.nameAttributes with
  | none => simp [NF3DIR]
  | some a => simp

theorem copyEntry_listed (e : Entryplus3) (tr : List LsEvent) :
    (copyEntry env host path e tr).1.toEntryplus3 = listed e ∧
      ∃ tr', (copyEntry env host path e tr).2 = tr ++ tr' ∧ OfEntries tr' := by
  unfold copyEntry listed
  split_ifs with hd hd' hl hd' hd'
  · exact ⟨rfl, [], by simp, by simp [OfEntries]⟩
  · exact absurd ((attributes_dir_iff e).1 hd) hd'
  · exact absurd ((attributes_dir_iff e).2 hd') hd
  · exact ⟨rfl, doReadlink_trace env host path e.handle tr⟩
  · exact absurd ((attributes_dir_iff e).2 hd') hd
  · exact ⟨rfl, [], by simp, by simp [OfEntries]⟩

/-- The loop over the entries after one more entry has been listed. -/
def Page.add (page : Page) (e : Entryplus3) : Page :=
  { page with
    cookie := e.cookie
    entries := page.entries ++ [(copyEntry env host path e page.trace).1]
    trace := (copyEntry env host path e page.trace).2 }

section
variable {cfg} {e : Entryplus3} {es : List Entryplus3} {page : Page}

theorem readEntries_hidden (h : hidden cfg e = true) :
    readEntries cfg env host path (e :: es) page = readEntries cfg env host path es page := by
  simp [readEntries, h]

theorem readEntries_add (h : hidden cfg e = false) (hc : page.cookie < e.cookie) :
    readEntries cfg env host path (e :: es) page =
      readEntries cfg env host path es (page.add env host path e) := by
  simp [readEntries, h, hc, Page.add]

theorem readEntries_loop (h : hidden cfg e = false) (hc : ¬ page.cookie < e.cookie) :
    readEntries cfg env host path (e :: es) page =
      { page.add env host path e with
        cookie := page.cookie
        loop := true
        trace := (page.add env host path e).trace ++ [.readdirplusLoop host path e.cookie] } := by
  simp [readEntries, h, hc, Page.add]

end

/-- What the loop over the entries adds to the trace. -/
theorem readEntries_trace (es : List Entryplus3) (page : Page) :
    ∃ tr', (readEntries cfg env host path es page).trace = page.trace ++ tr' ∧ OfEntries tr' := by
  induction es generalizing page with
  | nil => exact ⟨[], by simp [readEntries], by simp [OfEntries]⟩
  | cons e es ih =>
    obtain ⟨-, tr, htr, hq⟩ := copyEntry_listed env host path e page.trace
    cases hh : hidden cfg e with
    | true =>
      rw [readEntries_hidden env host path hh]
      exact ih page
    | false =>
      by_cases hc : page.cookie < e.cookie
      · rw [readEntries_add env host path hh hc]
        obtain ⟨tr', htr', hq'⟩ := ih (page.add env host path e)
        exact ⟨tr ++ tr', by rw [htr', ← List.append_assoc, ← htr]; rfl, hq.append hq'⟩
      · rw [readEntries_loop env host path hh hc]
        exact ⟨tr ++ [_], by rw [← List.append_assoc, ← htr]; rfl,
          hq.append (by simp [OfEntries, LsEvent.ofEntry])⟩

/-- **A reply** is listed up to the first entry that is shown and whose cookie does not increase; if
    there is none, the next request is for what comes after the last entry shown. -/
theorem readEntries_climb (es : List Entryplus3) (page : Page) (hl : page.loop = false) :
    let r := readEntries cfg env host path es page
    r.entries.map (·.toEntryplus3) = page.entries.map (·.toEntryplus3) ++
        (climb cookieKey page.cookie.toNat (es.filter (shown cfg))).map listed ∧
      (r.loop = false ↔ Rising cookieKey page.cookie.toNat (es.filter (shown cfg))) ∧
      (r.loop = false → r.cookie.toNat = cursor cookieKey (shown cfg) page.cookie.toNat es) := by
  induction es generalizing page with
  | nil => exact ⟨by simp [readEntries, climb], iff_of_true hl rising_nil, fun _ => rfl⟩
  | cons e es ih =>
    rw [cursor_cons, List.filter_cons]
    cases hh : hidden cfg e with
    | true =>
      have hsh : shown cfg e = false := by simp [shown, hh]
      rw [readEntries_hidden env host path hh]
      simpa [hsh] using ih page hl
    | false =>
      have hsh : shown cfg e = true := by simp [shown, hh]
      have hcopy := (copyEntry_listed env host path e page.trace).1
      rw [if_pos hsh, if_pos hsh, climb, rising_cons]
      by_cases hlt : page.cookie < e.cookie
      · have hlt' : page.cookie.toNat < cookieKey e := UInt64.lt_iff_toNat_lt.1 hlt
        rw [readEntries_add env host path hh hlt, if_pos hlt']
        obtain ⟨h1, h2, h3⟩ := ih (page.add env host path e) hl
        refine ⟨?_, h2.trans (and_iff_right hlt').symm, h3⟩
        rw [h1]
        simp [Page.add, hcopy, cookieKey]
      · have hlt' : ¬ page.cookie.toNat < cookieKey e := fun h => hlt (UInt64.lt_iff_toNat_lt.2 h)
        rw [readEntries_loop env host path hh hlt, if_neg hlt']
        exact ⟨by simp [Page.add, hcopy], by simp [hlt'], by simp⟩

end

/-! ## How the procedures return -/

section
variable (cfg : LsConfig) (env : LsEnv) (host : CString) (nested : NfsFhList → List LsEvent → LsResult)
  (fh : NfsFhList)

/-- The entries after a successful reply, where the loop stands. -/
def replyPage (args : Readdirplus3args) (entries : List Entrypluslink3) (tr : List LsEvent)
    (res : Readdirplus3res) : Page :=
  readEntries cfg env host fh.path res.entries
    { cookie := args.cookie, entries
      trace := tr ++ [.readdirplus args (some res)] ++
        (checkCookieverf host fh.path args.cookieverf res.cookieverf).2 }

/-- The loop over the replies, from a request with these entries and this trace on, returns these
    entries and this filehandle. -/
inductive LoopReturns : Readdirplus3args → List Entrypluslink3 → List LsEvent →
    List Entrypluslink3 → NfsFhList → List LsEvent → Prop where
  | noReply {args entries tr} (hr : env.readdirplus tr.length args = none) :
    LoopReturns args entries tr entries fh
      (tr ++ [.readdirplus args none] ++ [.clntPerror "nfsproc3_readdirplus_3"])
  | last {args entries tr res} (hr : env.readdirplus tr.length args = some res)
    (hok : res.status = NFS3_OK) :
    LoopReturns args entries tr (replyPage cfg env host fh args entries tr res).entries fh
      (replyPage cfg env host fh args entries tr res).trace
  | next {args entries tr res es fh' tr'} (hr : env.readdirplus tr.length args = some res)
    (hok : res.status = NFS3_OK)
    (h : let page := replyPage cfg env host fh args entries tr res
      LoopReturns { args with cookie := page.cookie, cookieverf := res.cookieverf } page.entries
        page.trace es fh' tr') :
    LoopReturns args entries tr es fh' tr'
  | notdir {args entries tr res es fh' tr'} (hr : env.readdirplus tr.length args = some res)
    (hok : res.status ≠ NFS3_OK)
    (hn : nested fh (tr ++ [.readdirplus args (some res)]) = (.ok (es, fh'), tr')) :
    LoopReturns args entries tr (entries ++ es) fh' tr'
  | refused {args entries tr res} (hr : env.readdirplus tr.length args = some res)
    (hok : res.status ≠ NFS3_OK) :
    LoopReturns args entries tr entries fh (tr ++ [.readdirplus args (some res)] ++
      [.nfsPerror host fh.path res.status "nfsproc3_readdirplus_3"])

/-- `do_getattr` returns these entries and this filehandle. -/
inductive GetattrReturns (tr : List LsEvent) : List Entrypluslink3 → NfsFhList → List LsEvent → Prop where
  | noReply (hr : env.getattr tr.length fh.nfsFh = none) :
    GetattrReturns tr [] fh (tr ++ [.getattr fh.nfsFh none] ++ [.clntPerror "nfsproc3_getattr_3"])
  | dir {res es fh' tr'} (hr : env.getattr tr.length fh.nfsFh = some res) (hok : res.status = NFS3_OK)
    (hdir : res.objAttributes.type = NF3DIR ∧ cfg.listdir = false)
    (hn : nested fh (tr ++ [.getattr fh.nfsFh (some res)]) = (.ok (es, fh'), tr')) :
    GetattrReturns tr es fh' tr'
  | object {res entry tr'} (hr : env.getattr tr.length fh.nfsFh = some res)
    (hok : res.status = NFS3_OK) (hdir : ¬ (res.objAttributes.type = NF3DIR ∧ cfg.listdir = false))
    (he : getattrEntry env host fh res.objAttributes (tr ++ [.getattr fh.nfsFh (some res)]) =
      (entry, tr')) :
    GetattrReturns tr [entry] { fh with path := strncpy MNTPATHLEN (dirname fh.path) } tr'
  | refused {res} (hr : env.getattr tr.length fh.nfsFh = some res) (hok : res.status ≠ NFS3_OK) :
    GetattrReturns tr [] fh (tr ++ [.getattr fh.nfsFh (some res)] ++
      [.nfsPerror host fh.path res.status "nfsproc3_getattr_3"])

variable {cfg env host nested fh} {es : List Entrypluslink3} {fh' : NfsFhList} {tr : List LsEvent}

/-- **A loop that returns** does so in one of these ways. -/
theorem readdirplusLoop_returns_ok {pages : ℕ} {args : Readdirplus3args} {entries : List Entrypluslink3}
    (h : (readdirplusLoop cfg env host nested fh pages args entries tr).1 = .ok (es, fh')) :
    ∃ tr', (readdirplusLoop cfg env host nested fh pages args entries tr).2 = tr' ∧
      LoopReturns cfg env host nested fh args entries tr es fh' tr' := by
  induction pages generalizing args entries tr with
  | zero => cases h
  | succ pages ih =>
    rw [readdirplusLoop] at h ⊢
    cases hr : env.readdirplus tr.length args with
    | none =>
      rw [hr] at h
      cases h
      exact ⟨_, rfl, .noReply hr⟩
    | some res =>
      simp only [hr] at h ⊢
      split_ifs at h ⊢ with hok hend hnot
      · cases h
        exact ⟨_, rfl, .last hr hok⟩
      · obtain ⟨tr', htr', hnext⟩ := ih h
        exact ⟨tr', htr', .next hr hok hnext⟩
      · generalize hn : nested fh (tr ++ [.readdirplus args (some res)]) = q at h ⊢
        rcases q with ⟨f | ⟨es', fh''⟩, tr''⟩
        · cases h
        · cases h
          exact ⟨_, rfl, .notdir hr hok hn⟩
      · cases h
        exact ⟨_, rfl, .refused hr hok⟩

theorem getattrBody_returns_ok (h : (getattrBody cfg env host nested fh tr).1 = .ok (es, fh')) :
    ∃ tr', (getattrBody cfg env host nested fh tr).2 = tr' ∧
      GetattrReturns cfg env host nested fh tr es fh' tr' := by
  unfold getattrBody at h ⊢
  cases hr : env.getattr tr.length fh.nfsFh with
  | none =>
    rw [hr] at h
    cases h
    exact ⟨_, rfl, .noReply hr⟩
  | some res =>
    simp only [hr] at h ⊢
    split_ifs at h ⊢ with hok hdir
    · exact ⟨_, rfl, .dir hr hok hdir (Prod.ext h rfl)⟩
    · cases h
      exact ⟨_, rfl, .object hr hok hdir rfl⟩
    · cases h
      exact ⟨_, rfl, .refused hr hok⟩

end

/-! ## The loop over the replies -/

/-- A server whose replies to READDIRPLUS are successful. -/
structure ReplyServer extends LsEnv where
  succeeds : ∀ k args, ∃ res, readdirplus k args = some res ∧ res.status = NFS3_OK

/-- The request for what comes after a reply. -/
def nextArgs (args : Readdirplus3args) (res : Readdirplus3res) (page : Page) : Readdirplus3args :=
  { args with cookie := page.cookie, cookieverf := res.cookieverf }

/-- What a successful reply does to the loop. -/
structure PageStep (cfg : LsConfig) (env : LsEnv) (host path : CString) (args : Readdirplus3args)
    (entries : List Entrypluslink3) (tr : List LsEvent) (res : Readdirplus3res) (page : Page) :
    Prop where
  reply : env.readdirplus tr.length args = some res
  entries : page.entries.map (·.toEntryplus3) = entries.map (·.toEntryplus3) ++
    (climb cookieKey args.cookie.toNat (res.entries.filter (shown cfg))).map listed
  loop_iff : page.loop = false ↔ Rising cookieKey args.cookie.toNat (res.entries.filter (shown cfg))
  cookie : page.loop = false →
    page.cookie.toNat = cursor cookieKey (shown cfg) args.cookie.toNat res.entries
  trace : ∃ tr', page.trace = tr ++ .readdirplus args (some res) ::
    (checkCookieverf host path args.cookieverf res.cookieverf).2 ++ tr' ∧ OfEntries tr'

/-- **One successful reply**: the loop ends iff it says that it is the last one, or a cookie did not
    increase. -/
theorem readdirplusLoop_reply (cfg : LsConfig) (srv : ReplyServer) (host : CString) (fh : NfsFhList)
    (args : Readdirplus3args) (entries : List Entrypluslink3) (tr : List LsEvent) :
    ∃ res page, PageStep cfg srv.toLsEnv host fh.path args entries tr res page ∧ ∀ nested pages,
      readdirplusLoop cfg srv.toLsEnv host nested fh (pages + 1) args entries tr =
        if res.eof || page.loop then (.ok (page.entries, fh), page.trace)
        else readdirplusLoop cfg srv.toLsEnv host nested fh pages (nextArgs args res page)
          page.entries page.trace := by
  obtain ⟨res, hres, hok⟩ := srv.succeeds tr.length args
  let start : Page :=
    { cookie := args.cookie, entries
      trace := tr ++ [.readdirplus args (some res)] ++
        (checkCookieverf host fh.path args.cookieverf res.cookieverf).2 }
  obtain ⟨hentries, hloop, hcookie⟩ :=
    readEntries_climb cfg srv.toLsEnv host fh.path res.entries start rfl
  obtain ⟨tr', htr', hq⟩ := readEntries_trace cfg srv.toLsEnv host fh.path res.entries start
  refine ⟨res, readEntries cfg srv.toLsEnv host fh.path res.entries start,
    ⟨hres, hentries, hloop, hcookie, tr', ?_, hq⟩, fun nested pages => ?_⟩
  · rw [htr']
    simp [start]
  · rw [readdirplusLoop]
    simp only [hres, hok, if_true]
    rfl

section
variable (cfg : LsConfig) {dir : Directory} (srv : RunServer dir) (host : CString) (fh : NfsFhList)

/-- What one reply does to the loop. -/
structure ReplyStep (args : Readdirplus3args) (entries : List Entrypluslink3) (tr : List LsEvent)
    (res : Readdirplus3res) (page : Page) : Prop where
  reply : srv.readdirplus tr.length args = some res
  run : IsRun (after cookieKey args.cookie.toNat dir.entries) res.entries res.eof
  cookie : page.cookie.toNat = cursor cookieKey (shown cfg) args.cookie.toNat res.entries
  entries : page.entries.map (·.toEntryplus3) =
    entries.map (·.toEntryplus3) ++ (res.entries.filter (shown cfg)).map listed
  trace : ∃ tr', page.trace = tr ++ .readdirplus args (some res) :: tr' ∧ Quiet tr'

theorem checkCookieverf_quiet (path : CString) (kept sent : CookieVerf) :
    Quiet (checkCookieverf host path kept sent).2 := by
  unfold checkCookieverf
  split_ifs
  all_goals simp [Quiet, LsEvent.cookie?]

/-- A server of a directory replies with success. -/
def RunServer.toReplyServer : ReplyServer where
  toLsEnv := srv.toLsEnv
  succeeds k args := by
    obtain ⟨res, hres, hok, -⟩ := srv.run k args
    exact ⟨res, hres, hok⟩

/-- **One reply**: the loop ends iff it reaches the end of the directory. -/
theorem readdirplusLoop_succ (args : Readdirplus3args) (entries : List Entrypluslink3)
    (tr : List LsEvent) : ∃ res page, ReplyStep cfg srv args entries tr res page ∧ ∀ nested pages,
      readdirplusLoop cfg srv.toLsEnv host nested fh (pages + 1) args entries tr =
        if res.eof then (.ok (page.entries, fh), page.trace)
        else readdirplusLoop cfg srv.toLsEnv host nested fh pages (nextArgs args res page)
          page.entries page.trace := by
  obtain ⟨res, page, hp, hstep⟩ := readdirplusLoop_reply cfg srv.toReplyServer host fh args entries tr
  obtain ⟨res', hres', -, hrun⟩ := srv.run tr.length args
  obtain rfl : res' = res := Option.some.inj (hres'.symm.trans hp.reply)
  -- the cookies of a run increase
  have hsub : ∀ e ∈ res'.entries, args.cookie.toNat < cookieKey e := fun e he => by
    simpa using (List.mem_filter.1 (hrun.isPrefix.subset he)).2
  have hsort : res'.entries.Pairwise (cookieKey · < cookieKey ·) :=
    (after_sorted dir.sorted).sublist hrun.isPrefix.sublist
  have hrise : Rising cookieKey args.cookie.toNat (res'.entries.filter (shown cfg)) :=
    rising_of_pairwise (hsort.filter _) fun e he => hsub e (List.mem_filter.1 he).1
  have hloop := hp.loop_iff.2 hrise
  obtain ⟨tr', htr', hq⟩ := hp.trace
  refine ⟨res', page, ⟨hp.reply, hrun, hp.cookie hloop, ?_,
    (checkCookieverf host fh.path args.cookieverf res'.cookieverf).2 ++ tr', ?_,
    (checkCookieverf_quiet host fh.path _ _).append hq.quiet⟩, fun nested pages => ?_⟩
  · rw [hp.entries, climb_eq hrise]
  · rw [htr']
    simp
  · have hstep := hstep nested pages
    rw [hloop, Bool.or_false] at hstep
    exact hstep

variable {cfg srv host fh} {nested : NfsFhList → List LsEvent → LsResult}
variable {args : Readdirplus3args} {entries es : List Entrypluslink3} {tr : List LsEvent} {pages : ℕ}

/-- This server never says that the directory is a file, so the other procedure does not matter. -/
theorem readdirplusLoop_nested (nested nested' : NfsFhList → List LsEvent → LsResult) :
    readdirplusLoop cfg srv.toLsEnv host nested fh pages args entries tr =
      readdirplusLoop cfg srv.toLsEnv host nested' fh pages args entries tr := by
  induction pages generalizing args entries tr with
  | zero => rfl
  | succ pages ih =>
    obtain ⟨res, page, -, hstep⟩ := readdirplusLoop_succ cfg srv host fh args entries tr
    rw [hstep, hstep, ih]

/-- The shown entries of the directory are those listed so far and those still to come. -/
def Collected (cfg : LsConfig) (dir : Directory) (cookie : UInt64) (entries : List Entrypluslink3) :
    Prop :=
  entries.map (·.toEntryplus3) ++
      ((after cookieKey cookie.toNat dir.entries).filter (shown cfg)).map listed =
    (dir.entries.filter (shown cfg)).map listed

theorem ReplyStep.collected {res : Readdirplus3res} {page : Page}
    (hs : ReplyStep cfg srv args entries tr res page) (hc : Collected cfg dir args.cookie entries) :
    Collected cfg dir page.cookie page.entries := by
  obtain ⟨rest, hrest⟩ := hs.run.isPrefix
  unfold Collected
  rw [hs.entries, hs.cookie, after_cursor_filter dir.sorted hrest.symm, List.append_assoc,
    ← List.map_append, ← List.filter_append, hrest]
  exact hc

/-- Nothing is still to come after the last reply. -/
theorem ReplyStep.collected_last {res : Readdirplus3res} {page : Page}
    (hs : ReplyStep cfg srv args entries tr res page) (hc : Collected cfg dir args.cookie entries)
    (he : res.eof = true) :
    page.entries.map (·.toEntryplus3) = (dir.entries.filter (shown cfg)).map listed := by
  have hr : res.entries = after cookieKey args.cookie.toNat dir.entries := hs.run.eof_iff.1 he
  rw [hs.entries, hr]
  exact hc

/-- A loop that returns has collected the directory. -/
theorem readdirplusLoop_collects {fh' : NfsFhList} (hc : Collected cfg dir args.cookie entries)
    (h : (readdirplusLoop cfg srv.toLsEnv host nested fh pages args entries tr).1 = .ok (es, fh')) :
    es.map (·.toEntryplus3) = (dir.entries.filter (shown cfg)).map listed := by
  induction pages generalizing args entries tr with
  | zero => simp [readdirplusLoop] at h
  | succ pages ih =>
    obtain ⟨res, page, hs, hstep⟩ := readdirplusLoop_succ cfg srv host fh args entries tr
    rw [hstep] at h
    split_ifs at h with he
    · simp only [Except.ok.injEq, Prod.mk.injEq] at h
      obtain ⟨rfl, rfl⟩ := h
      exact hs.collected_last hc he
    · exact @ih (nextArgs args res page) _ _ (hs.collected hc) h

/-- The requests after a reply. -/
theorem ReplyStep.requests {res : Readdirplus3res} {page : Page}
    (hs : ReplyStep cfg srv args entries tr res page) :
    requests page.trace = requests tr ++ [args.cookie] := by
  obtain ⟨tr', htr', hq⟩ := hs.trace
  rw [htr', requests_append]
  simpa [NFStash.requests, LsEvent.cookie?] using hq.requests_eq

/-- A reply with an entry that is shown moves the cookie on. -/
theorem ReplyStep.advance {res : Readdirplus3res} {page : Page}
    (hs : ReplyStep cfg srv args entries tr res page) (he : ∃ e ∈ res.entries, hidden cfg e = false) :
    args.cookie < page.cookie ∧ (after cookieKey page.cookie.toNat dir.entries).length <
      (after cookieKey args.cookie.toNat dir.entries).length := by
  obtain ⟨rest, hrest⟩ := hs.run.isPrefix
  have hf : res.entries.filter (shown cfg) ≠ [] := by
    obtain ⟨e, hm, hh⟩ := he
    exact List.ne_nil_of_mem (List.mem_filter.2 ⟨hm, by simp [shown, hh]⟩)
  refine ⟨UInt64.lt_iff_toNat_lt.2 ?_, ?_⟩
  · rw [hs.cookie]
    exact (le_cursor hrest.symm).2 hf
  · rw [hs.cookie]
    exact (after_cursor_length dir.sorted hrest.symm).2 hf

/-- A reply of hidden files only leaves the cookie where it was. -/
theorem ReplyStep.stuck {res : Readdirplus3res} {page : Page}
    (hs : ReplyStep cfg srv args entries tr res page)
    (he : ¬ ∃ e ∈ res.entries, hidden cfg e = false) : page.cookie = args.cookie := by
  have hf : res.entries.filter (shown cfg) = [] := List.filter_eq_nil_iff.2 fun e hm => by
    simpa [shown] using fun hh => he ⟨e, hm, hh⟩
  have hc := hs.cookie
  rw [cursor, hf] at hc
  exact UInt64.toNat_inj.1 hc

/-- Every reply but the last has an entry that is shown. -/
def RepliesShow (cfg : LsConfig) (tr : List LsEvent) : Prop :=
  ∀ args res, .readdirplus args (some res) ∈ tr → res.eof = false →
    ∃ e ∈ res.entries, hidden cfg e = false

/-- What has been sent is not forgotten. -/
theorem readdirplusLoop_prefix :
    tr <+: (readdirplusLoop cfg srv.toLsEnv host nested fh pages args entries tr).2 := by
  induction pages generalizing args entries tr with
  | zero => exact List.prefix_rfl
  | succ pages ih =>
    obtain ⟨res, page, hs, hstep⟩ := readdirplusLoop_succ cfg srv host fh args entries tr
    obtain ⟨tr', htr', -⟩ := hs.trace
    have hp : tr <+: page.trace := ⟨_, htr'.symm⟩
    rw [hstep]
    split_ifs
    · exact hp
    · exact hp.trans ih

/-- The reply to a request is in the trace of the loop. -/
theorem ReplyStep.mem {res : Readdirplus3res} {page : Page}
    (hs : ReplyStep cfg srv args entries tr res page)
    (hstep : ∀ pages, readdirplusLoop cfg srv.toLsEnv host nested fh (pages + 1) args entries tr =
      if res.eof then (.ok (page.entries, fh), page.trace)
      else readdirplusLoop cfg srv.toLsEnv host nested fh pages (nextArgs args res page)
        page.entries page.trace) :
    .readdirplus args (some res) ∈
      (readdirplusLoop cfg srv.toLsEnv host nested fh 1 args entries tr).2 := by
  obtain ⟨tr', htr', -⟩ := hs.trace
  have hm : LsEvent.readdirplus args (some res) ∈ page.trace := by simp [htr']
  rw [hstep]
  split_ifs
  · exact hm
  · exact readdirplusLoop_prefix.subset hm

/-- A reply in the trace is an earlier one or this one. -/
theorem ReplyStep.mem_trace {res res' : Readdirplus3res} {page : Page} {args' : Readdirplus3args}
    (hs : ReplyStep cfg srv args entries tr res page)
    (hm : .readdirplus args' (some res') ∈ page.trace) :
    .readdirplus args' (some res') ∈ tr ∨ (args = args' ∧ res = res') := by
  obtain ⟨tr', htr', hq⟩ := hs.trace
  rw [htr', List.mem_append, List.mem_cons] at hm
  rcases hm with hm | hm | hm
  · exact .inl hm
  · simp only [LsEvent.readdirplus.injEq, Option.some.injEq] at hm
    exact .inr ⟨hm.1.symm, hm.2.symm⟩
  · simpa [LsEvent.cookie?] using hq _ hm

/-- The replies in the trace are those of the server. -/
theorem readdirplusLoop_replies {args' : Readdirplus3args} {res' : Readdirplus3res}
    (hm : .readdirplus args' (some res') ∈
      (readdirplusLoop cfg srv.toLsEnv host nested fh pages args entries tr).2) :
    .readdirplus args' (some res') ∈ tr ∨ ∃ k, srv.readdirplus k args' = some res' := by
  induction pages generalizing args entries tr with
  | zero => exact .inl hm
  | succ pages ih =>
    obtain ⟨res, page, hs, hstep⟩ := readdirplusLoop_succ cfg srv host fh args entries tr
    have hpage : .readdirplus args' (some res') ∈ page.trace →
        .readdirplus args' (some res') ∈ tr ∨ ∃ k, srv.readdirplus k args' = some res' := fun h => by
      rcases hs.mem_trace h with h | ⟨rfl, rfl⟩
      · exact .inl h
      · exact .inr ⟨tr.length, hs.reply⟩
    rw [hstep] at hm
    split_ifs at hm
    · exact hpage hm
    · exact (ih hm).elim hpage .inr

theorem isChain_of_isPrefix {R : UInt64 → UInt64 → Prop} {l l' : List UInt64} (h : l' <+: l)
    (hc : l.IsChain R) : l'.IsChain R := by
  obtain ⟨t, rfl⟩ := h
  exact (List.isChain_append.1 hc).1

/-- When every reply shows an entry, the requests advance. -/
theorem readdirplusLoop_advances
    (hshow : ∀ pages, RepliesShow cfg
      (readdirplusLoop cfg srv.toLsEnv host nested fh pages args entries tr).2)
    (hch : (requests tr ++ [args.cookie]).IsChain (· < ·)) :
    (requests (readdirplusLoop cfg srv.toLsEnv host nested fh pages args entries tr).2).IsChain
      (· < ·) := by
  induction pages generalizing args entries tr with
  | zero => exact isChain_of_isPrefix (List.prefix_append ..) hch
  | succ pages ih =>
    obtain ⟨res, page, hs, hstep⟩ := readdirplusLoop_succ cfg srv host fh args entries tr
    rw [hstep]
    split_ifs with he
    · rwa [hs.requests]
    · have hlt := (hs.advance (hshow 1 args res (hs.mem (hstep nested)) (by simpa using he))).1
      refine ih ?_ ?_
      · intro n
        simpa [hstep, he] using hshow (n + 1)
      · rw [hs.requests, List.append_assoc]
        exact List.isChain_append_cons_cons.2 ⟨hch, hlt, List.isChain_singleton _⟩

/-- When every reply shows an entry, the loop ends. -/
theorem readdirplusLoop_returns
    (hshow : ∀ pages, RepliesShow cfg
      (readdirplusLoop cfg srv.toLsEnv host nested fh pages args entries tr).2) :
    ∃ pages r, (readdirplusLoop cfg srv.toLsEnv host nested fh pages args entries tr).1 = .ok r := by
  induction hn : (after cookieKey args.cookie.toNat dir.entries).length using Nat.strong_induction_on
    generalizing args entries tr with
  | _ n ih =>
    obtain ⟨res, page, hs, hstep⟩ := readdirplusLoop_succ cfg srv host fh args entries tr
    cases he : res.eof with
    | true => exact ⟨1, (page.entries, fh), by simp [hstep, he]⟩
    | false =>
      have hlt := (hs.advance (hshow 1 args res (hs.mem (hstep nested)) he)).2
      obtain ⟨pages, r, hr⟩ := @ih _ (hn ▸ hlt) (nextArgs args res page)
        page.entries page.trace
        (fun n => by simpa [hstep, he] using hshow (n + 1)) rfl
      exact ⟨pages + 1, r, by simpa [hstep, he] using hr⟩

/-- After a reply that shows no entry the same request is sent again. -/
theorem readdirplusLoop_stuck {args' : Readdirplus3args} {res' : Readdirplus3res}
    (hm : .readdirplus args' (some res') ∈
      (readdirplusLoop cfg srv.toLsEnv host nested fh pages args entries tr).2)
    (he : res'.eof = false) (hh : ¬ ∃ e ∈ res'.entries, hidden cfg e = false) :
    .readdirplus args' (some res') ∈ tr ∨ ∃ pages,
      ¬ (requests (readdirplusLoop cfg srv.toLsEnv host nested fh pages args entries tr).2).IsChain
        (· < ·) := by
  induction pages generalizing args entries tr with
  | zero => exact .inl hm
  | succ pages ih =>
    obtain ⟨res, page, hs, hstep⟩ := readdirplusLoop_succ cfg srv host fh args entries tr
    have hthis : args = args' ∧ res = res' → ∃ pages, ¬ (requests (readdirplusLoop cfg srv.toLsEnv host
        nested fh pages args entries tr).2).IsChain (· < ·) := by
      rintro ⟨rfl, rfl⟩
      obtain ⟨res₂, page₂, hs₂, hstep₂⟩ := readdirplusLoop_succ cfg srv host fh
        (nextArgs args res page) page.entries page.trace
      refine ⟨2, ?_⟩
      intro hch
      have hpre : page₂.trace <+:
          (readdirplusLoop cfg srv.toLsEnv host nested fh 2 args entries tr).2 := by
        rw [hstep, if_neg (by simp [he]), hstep₂]
        split_ifs
        · exact List.prefix_rfl
        · exact readdirplusLoop_prefix
      have hch₂ := isChain_of_isPrefix (hpre.filterMap LsEvent.cookie?) hch
      rw [show page₂.trace.filterMap LsEvent.cookie? = requests page₂.trace from rfl, hs₂.requests,
        hs.requests, show (nextArgs args res page).cookie = page.cookie from rfl, hs.stuck hh,
        List.append_assoc] at hch₂
      obtain ⟨-, hlt, -⟩ := List.isChain_append_cons_cons.1 hch₂
      exact UInt64.lt_irrefl _ hlt
    rw [hstep] at hm
    split_ifs at hm with he'
    · exact (hs.mem_trace hm).imp_right hthis
    · rcases ih hm with hp | ⟨n, hn⟩
      · exact (hs.mem_trace hp).imp_right hthis
      · exact .inr ⟨n + 1, by rwa [hstep, if_neg he']⟩

end

/-! ## What is listed -/

/-- **What is listed.**  Whenever a listing is returned, it is the directory in its order, without
    the hidden files: every field is the server's, and a name has a slash appended iff the attributes
    returned say that it is a directory. -/
theorem doReaddirplus_listing (cfg : LsConfig) {dir : Directory} (srv : RunServer dir)
    (host : CString) (pages depth : ℕ) (fh fh' : NfsFhList) (es : List Entrypluslink3)
    (h : (doReaddirplus cfg srv.toLsEnv host pages (depth + 1) fh []).1 = .ok (es, fh')) :
    es.map (·.toEntryplus3) = (dir.entries.filter (shown cfg)).map listed := by
  refine readdirplusLoop_collects ?_ h
  have hall : after cookieKey (0 : UInt64).toNat dir.entries = dir.entries :=
    after_of_lt fun e he => Nat.pos_of_ne_zero fun h0 =>
      dir.nonzero e he (UInt64.toNat_inj.1 h0)
  unfold Collected
  rw [firstArgs, hall]
  rfl

/-- A server that returns one entry at a time. -/
def onePerReply (dir : Directory) : PageServer dir where
  getattr _ _ := none
  readlink _ _ := none
  readdirplus _ args :=
    let rest := after cookieKey args.cookie.toNat dir.entries
    some { entries := rest.take 1, eof := rest.length ≤ 1 }
  run _ _ := ⟨_, rfl, rfl, List.take_prefix .., by simp [List.take_eq_self_iff]⟩
  ne_nil _ _ res h hne := by
    obtain rfl := Option.some.inj h
    simpa [List.take_eq_nil_iff] using hne

/-- A hidden file, and a file after it. -/
def hiddenFirst : Directory where
  entries := [{ fileid := 1, name := ".a".toList, cookie := 1 }, { fileid := 2, name := "b".toList, cookie := 2 }]
  sorted := by decide
  nonzero := by decide

theorem doReaddirplus_listing_hiddenFirst : ∃ es fh',
    (doReaddirplus { listdot := true } (onePerReply hiddenFirst).toLsEnv [] 2 1 {} []).1 = .ok (es, fh') ∧
      es.map (·.toEntryplus3) =
        (hiddenFirst.entries.filter (shown { listdot := true })).map listed :=
  ⟨_, _, rfl, doReaddirplus_listing _ (onePerReply hiddenFirst).toRunServer [] 2 0 {} _ _ rfl⟩

/-! ## Progress -/

/-- The listing as a loop that does not need the other procedure. -/
theorem doReaddirplus_eq_loop (cfg : LsConfig) {dir : Directory} (srv : RunServer dir)
    (host : CString) (pages depth : ℕ) (fh : NfsFhList) :
    doReaddirplus cfg srv.toLsEnv host pages (depth + 1) fh [] =
      readdirplusLoop cfg srv.toLsEnv host (fun _ tr => (.error .depth, tr)) fh pages (firstArgs fh)
        [] [] :=
  readdirplusLoop_nested _ _

/-- With hidden files listed, every page but an empty last one shows an entry. -/
theorem PageServer.repliesShow {cfg : LsConfig} {dir : Directory} (srv : PageServer dir)
    {host : CString} {depth pages : ℕ} {fh : NfsFhList} (hl : cfg.listdot = true) :
    RepliesShow cfg (doReaddirplus cfg srv.toLsEnv host pages (depth + 1) fh []).2 := by
  intro args res hm he
  rcases readdirplusLoop_replies hm with h | ⟨k, hk⟩
  · cases h
  obtain ⟨res', hres', -, hrun⟩ := srv.run k args
  obtain rfl : res' = res := Option.some.inj (hres'.symm.trans hk)
  rw [he] at hrun
  have hpage : IsPage _ res'.entries false := ⟨hrun, srv.ne_nil k args res' hk⟩
  obtain ⟨e, hmem⟩ := List.exists_mem_of_ne_nil _ hpage.ne_nil_of_more
  exact ⟨e, hmem, by simp [hidden, hl]⟩

/-- **When a listing makes progress.**  Every further request asks for more than the one before and
    the listing is returned in the end, iff hidden files are listed or every reply but the last
    has an entry that is not one. -/
theorem doReaddirplus_progress_iff (cfg : LsConfig) {dir : Directory} (srv : PageServer dir)
    (host : CString) (depth : ℕ) (fh : NfsFhList) :
    (∀ pages, (requests (doReaddirplus cfg srv.toLsEnv host pages (depth + 1) fh []).2).IsChain
        (· < ·)) ∧
      (∃ pages r, (doReaddirplus cfg srv.toLsEnv host pages (depth + 1) fh []).1 = .ok r) ↔
    cfg.listdot = true ∨
      ∀ pages, RepliesShow cfg (doReaddirplus cfg srv.toLsEnv host pages (depth + 1) fh []).2 := by
  simp only [doReaddirplus_eq_loop]
  constructor
  · rintro ⟨hch, -⟩
    by_contra hcon
    simp only [not_or, not_forall] at hcon
    obtain ⟨-, pages, hshow⟩ := hcon
    unfold RepliesShow at hshow
    push Not at hshow
    obtain ⟨args, res, hm, he, hh⟩ := hshow
    rcases readdirplusLoop_stuck hm he (by simpa using hh) with h | ⟨n, hn⟩
    · cases h
    · exact hn (hch n)
  · intro h
    have hshow := fun pages => h.elim
      (fun hl => doReaddirplus_eq_loop cfg srv.toRunServer host pages depth fh ▸ srv.repliesShow hl)
      fun h => h pages
    exact ⟨fun pages => readdirplusLoop_advances hshow (List.isChain_singleton _),
      readdirplusLoop_returns hshow⟩

/-- The request for what follows a page with the hidden file is the one for that page. -/
theorem doReaddirplus_hiddenFirst_stuck :
    requests (doReaddirplus {} (onePerReply hiddenFirst).toLsEnv [] 3 1 {} []).2 = [0, 0, 0] ∧
      ¬ ∀ pages, (requests (doReaddirplus {} (onePerReply hiddenFirst).toLsEnv [] pages 1 {} []).2).IsChain
        (· < ·) :=
  ⟨by decide, fun h => absurd (h 3) (by decide)⟩

end NFStash
