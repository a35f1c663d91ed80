/-
  `do_readdirplus` on a server that answers every READDIRPLUS request with success,
  and says in the replies what it likes.

  `doReaddirplus_climb` gives what is listed: the entries up to the first whose cookie does
  not increase.  `doReaddirplus_cookies_iff`: their cookies increase iff those of the
  server do.  `doReaddirplus_verf_iff`: the cookie verifiers are sent back as they
  should be, and the warning about them is right iff none is ever set.
-/
import NFStash.Readdirplus

namespace NFStash

open CLib Paging

/-! ## Replies -/

/-- The reply to a READDIRPLUS request. -/
def LsEvent.reply? : LsEvent → Option Readdirplus3res
  | .readdirplus _ res => res
  | _ => none

/-- The READDIRPLUS replies of a trace. -/
def replies (tr : List LsEvent) : List Readdirplus3res := tr.filterMap LsEvent.reply?

/-- The entries of these replies that are not hidden. -/
def shownEntries (cfg : LsConfig) (rs : List Readdirplus3res) : List Entryplus3 :=
  (rs.flatMap (·.entries)).filter (shown cfg)

theorem replies_append (tr tr' : List LsEvent) : replies (tr ++ tr') = replies tr ++ replies tr' :=
  List.filterMap_append

theorem Quiet.replies_eq {tr : List LsEvent} (h : Quiet tr) : replies tr = [] := by
  refine List.filterMap_eq_nil_iff.2 ?_
  intro ev hev
  have hev := h ev hev
  cases ev with
  | readdirplus args res => cases hev
  | _ => rfl

theorem shownEntries_cons (cfg : LsConfig) (res : Readdirplus3res) (rs : List Readdirplus3res) :
    shownEntries cfg (res :: rs) = res.entries.filter (shown cfg) ++ shownEntries cfg rs := by
  simp [shownEntries]

section
variable {cfg : LsConfig} {srv : ReplyServer} {host : CString} {fh : NfsFhList}
  {args : Readdirplus3args} {entries es : List Entrypluslink3} {tr : List LsEvent}
  {res : Readdirplus3res} {page : Page} {nested : NfsFhList → List LsEvent → LsResult} {pages : ℕ}

theorem PageStep.replies (hs : PageStep cfg srv.toLsEnv host fh.path args entries tr res page) :
    NFStash.replies page.trace = NFStash.replies tr ++ [res] := by
  obtain ⟨tr', htr', hq⟩ := hs.trace
  have hw := (checkCookieverf_quiet host fh.path args.cookieverf res.cookieverf).append hq.quiet
  rw [htr', List.append_assoc, List.cons_append, replies_append]
  exact congrArg (NFStash.replies tr ++ res :: ·) hw.replies_eq

/-- **What is listed**: after the entries so far, those of the replies up to the first whose cookie
    does not increase. -/
theorem readdirplusLoop_climb {fh' : NfsFhList}
    (h : (readdirplusLoop cfg srv.toLsEnv host nested fh pages args entries tr).1 = .ok (es, fh')) :
    ∃ rs, replies (readdirplusLoop cfg srv.toLsEnv host nested fh pages args entries tr).2 =
        replies tr ++ rs ∧
      es.map (·.toEntryplus3) = entries.map (·.toEntryplus3) ++
        (climb cookieKey args.cookie.toNat (shownEntries cfg rs)).map listed := by
  induction pages generalizing args entries tr with
  | zero => simp [readdirplusLoop] at h
  | succ pages ih =>
    obtain ⟨res, page, hs, hstep⟩ := readdirplusLoop_reply cfg srv host fh args entries tr
    rw [hstep] at h ⊢
    split_ifs at h ⊢ with hend
    · simp only [Except.ok.injEq, Prod.mk.injEq] at h
      obtain ⟨rfl, rfl⟩ := h
      refine ⟨[res], hs.replies, ?_⟩
      rw [hs.entries, shownEntries_cons]
      simp [shownEntries]
    · simp only [Bool.or_eq_true, not_or, Bool.not_eq_true] at hend
      obtain ⟨rs, hrs, hes⟩ := ih h
      refine ⟨res :: rs, ?_, ?_⟩
      · rw [hrs, hs.replies, List.append_assoc]
        rfl
      · have hrise := hs.loop_iff.1 hend.2
        rw [hes, hs.entries, shownEntries_cons, climb_append hrise, climb_eq hrise, cursor_filter,
          ← hs.cookie hend.2, List.map_append, List.append_assoc]
        rfl

end

/-! ## Cookies -/

/-- The listing is made of the replies of the call, up to the first entry whose cookie does not
    increase. -/
theorem doReaddirplus_climb {cfg : LsConfig} {srv : ReplyServer} {host : CString} {pages depth : ℕ}
    {fh fh' : NfsFhList} {es : List Entrypluslink3}
    (h : (doReaddirplus cfg srv.toLsEnv host pages (depth + 1) fh []).1 = .ok (es, fh')) :
    es.map (·.toEntryplus3) = (climb cookieKey 0 (shownEntries cfg
      (replies (doReaddirplus cfg srv.toLsEnv host pages (depth + 1) fh []).2))).map listed := by
  obtain ⟨rs, hrs, hes⟩ := readdirplusLoop_climb h
  have hrs : replies (doReaddirplus cfg srv.toLsEnv host pages (depth + 1) fh []).2 = rs := hrs
  rw [hrs]
  exact hes

/-- Cookies increase iff their values do. -/
theorem pairwise_cookie (l : List Entryplus3) :
    (l.map (·.cookie)).Pairwise (· < ·) ↔ (l.map cookieKey).Pairwise (· < ·) := by
  rw [List.pairwise_map, List.pairwise_map]
  rfl

/-- **When the cookies of a listing increase.**  On any successful replies, the cookies of what is
    listed increase iff those of the entries in the replies that are not hidden do, or the first
    of these is 0. -/
theorem doReaddirplus_cookies_iff (cfg : LsConfig) (srv : ReplyServer) (host : CString)
    (pages depth : ℕ) (fh fh' : NfsFhList) (es : List Entrypluslink3)
    (h : (doReaddirplus cfg srv.toLsEnv host pages (depth + 1) fh []).1 = .ok (es, fh')) :
    (es.map (·.cookie)).Pairwise (· < ·) ↔
      ((shownEntries cfg (replies (doReaddirplus cfg srv.toLsEnv host pages (depth + 1) fh []).2)).map
          (·.cookie)).Pairwise (· < ·) ∨
        (shownEntries cfg (replies (doReaddirplus cfg srv.toLsEnv host pages (depth + 1) fh []).2)
          ).head?.map (·.cookie) = some 0 := by
  generalize hl : shownEntries cfg _ = l
  have hes := doReaddirplus_climb h
  rw [hl] at hes
  -- the cookies are listed as they are
  have hcookies := congrArg (List.map (·.cookie)) hes
  rw [List.map_map, List.map_map] at hcookies
  have hcookies : es.map (·.cookie) = (climb cookieKey 0 l).map (·.cookie) := hcookies
  have hzero : (∃ e, l.head? = some e ∧ ¬ 0 < cookieKey e) ↔ l.head?.map (·.cookie) = some 0 := by
    rw [Option.map_eq_some_iff]
    refine exists_congr fun e => and_congr_right fun _ => ?_
    rw [Nat.pos_iff_ne_zero, not_not, cookieKey, ← UInt64.toNat_inj]
    rfl
  rw [hcookies, pairwise_cookie, pairwise_cookie, climb_pairwise_iff, hzero]
  exact or_comm

/-- A server that always gives the same reply. -/
def sameReply (res : Readdirplus3res) (h : res.status = NFS3_OK) : ReplyServer where
  getattr _ _ := none
  readdirplus _ _ := some res
  readlink _ _ := none
  succeeds _ _ := ⟨res, rfl, h⟩

/-- A directory with a cookie that does not increase. -/
def loopReply : Readdirplus3res where
  entries := [{ name := "b".toList, cookie := 1 }, { name := "c".toList, cookie := 1 }]
  eof := true

theorem doReaddirplus_cookies_iff_loop : ∃ es fh',
    (doReaddirplus {} (sameReply loopReply rfl).toLsEnv [] 1 1 {} []).1 = .ok (es, fh') ∧
    ((es.map (·.cookie)).Pairwise (· < ·) ↔
      ((shownEntries {} (replies (doReaddirplus {} (sameReply loopReply rfl).toLsEnv [] 1 1 {} []).2)).map
          (·.cookie)).Pairwise (· < ·) ∨
        (shownEntries {} (replies (doReaddirplus {} (sameReply loopReply rfl).toLsEnv [] 1 1 {} []).2)
          ).head?.map (·.cookie) = some 0) :=
  ⟨_, _, rfl, doReaddirplus_cookies_iff {} (sameReply loopReply rfl) [] 1 0 {} _ _ rfl⟩

/-- The entry with the offending cookie is listed. -/
theorem doReaddirplus_loop_cookies : ∃ es fh',
    (doReaddirplus {} (sameReply loopReply rfl).toLsEnv [] 1 1 {} []).1 = .ok (es, fh') ∧
      es.map (·.cookie) = [1, 1] ∧ ¬ (es.map (·.cookie)).Pairwise (· < ·) :=
  ⟨_, _, rfl, by decide, by decide⟩

/-! ## Cookie verifiers -/

/-- What is seen of the verifiers: a reply with the verifier of its request and its own, and the
    warning. -/
inductive VerfEvent where
  | reply (sent received : CookieVerf)
  | warning
deriving DecidableEq

def LsEvent.verf? : LsEvent → Option VerfEvent
  | .readdirplus args (some res) => some (.reply args.cookieverf res.cookieverf)
  | .cookieverfChanged .. => some .warning
  | _ => none

/-- The replies and warnings of a trace, in order. -/
def verfEvents (tr : List LsEvent) : List VerfEvent := tr.filterMap LsEvent.verf?

/-- The verifiers of the replies of a trace. -/
def verfs (tr : List LsEvent) : List CookieVerf := (replies tr).map (·.cookieverf)

/-- The exchange in which the verifiers `vs` come back, the first request carries `sent`, every later
    one the verifier of the reply before it, and a warning follows the replies where `warn` says
    so. -/
def verfExchange (warn : CookieVerf → CookieVerf → Bool) : CookieVerf → List CookieVerf → List VerfEvent
  | _, [] => []
  | sent, v :: vs => .reply sent v :: (if warn sent v then [.warning] else []) ++ verfExchange warn v vs

/-- The warning is for a verifier that was set, and is not what was sent. -/
def verfChanged (sent received : CookieVerf) : Bool := sent ≠ emptyverf ∧ sent ≠ received

theorem verfEvents_append (tr tr' : List LsEvent) :
    verfEvents (tr ++ tr') = verfEvents tr ++ verfEvents tr' := List.filterMap_append

theorem OfEntries.verfEvents_eq {tr : List LsEvent} (h : OfEntries tr) : verfEvents tr = [] := by
  refine List.filterMap_eq_nil_iff.2 ?_
  intro ev hev
  have hev := h ev hev
  cases ev with
  | readdirplus args res => cases hev
  | cookieverfChanged host path => cases hev
  | _ => rfl

/-- The check warns of every verifier that is not what was sent. -/
theorem checkCookieverf_events (host path : CString) (sent received : CookieVerf) :
    verfEvents (checkCookieverf host path sent received).2 =
      if sent ≠ received then [.warning] else [] := by
  have htake : ∀ v : CookieVerf, v.val.take NFS3_COOKIEVERFSIZE = v.val := fun v =>
    List.take_of_length_le v.property.le
  have hsize : ¬ NFS3_COOKIEVERFSIZE = 0 := by decide
  simp only [checkCookieverf, memcmpNe, htake, if_neg hsize, List.take_zero, bne_self_eq_false,
    Bool.false_eq_true, if_false, bne_iff_ne, ne_eq, Subtype.val_inj]
  split_ifs
  · rfl
  · rfl

section
variable {cfg : LsConfig} {srv : ReplyServer} {host : CString} {fh : NfsFhList}
  {args : Readdirplus3args} {entries : List Entrypluslink3} {tr : List LsEvent}
  {res : Readdirplus3res} {page : Page} {nested : NfsFhList → List LsEvent → LsResult} {pages : ℕ}

theorem PageStep.verfEvents (hs : PageStep cfg srv.toLsEnv host fh.path args entries tr res page) :
    NFStash.verfEvents page.trace = NFStash.verfEvents tr ++
      .reply args.cookieverf res.cookieverf ::
        if args.cookieverf ≠ res.cookieverf then [.warning] else [] := by
  obtain ⟨tr', htr', hq⟩ := hs.trace
  rw [htr', NFStash.verfEvents_append, NFStash.verfEvents_append, hq.verfEvents_eq, List.append_nil]
  exact congrArg (NFStash.verfEvents tr ++ .reply args.cookieverf res.cookieverf :: ·)
    (checkCookieverf_events host fh.path _ _)

/-- **The exchange of a listing**: verifiers are sent back, and every change is warned of. -/
theorem readdirplusLoop_verfEvents : ∃ vs,
    verfs (readdirplusLoop cfg srv.toLsEnv host nested fh pages args entries tr).2 = verfs tr ++ vs ∧
    verfEvents (readdirplusLoop cfg srv.toLsEnv host nested fh pages args entries tr).2 =
      verfEvents tr ++ verfExchange (· ≠ ·) args.cookieverf vs := by
  induction pages generalizing args entries tr with
  | zero => exact ⟨[], by simp [readdirplusLoop], by simp [readdirplusLoop, verfExchange]⟩
  | succ pages ih =>
    obtain ⟨res, page, hs, hstep⟩ := readdirplusLoop_reply cfg srv host fh args entries tr
    have hverfs : verfs page.trace = verfs tr ++ [res.cookieverf] := by
      rw [verfs, hs.replies, List.map_append]
      rfl
    rw [hstep]
    split_ifs
    · refine ⟨[res.cookieverf], hverfs, ?_⟩
      rw [hs.verfEvents]
      simp [verfExchange]
    · obtain ⟨vs, hvs, hev⟩ := @ih (nextArgs args res page) page.entries page.trace
      refine ⟨res.cookieverf :: vs, ?_, ?_⟩
      · rw [hvs, hverfs, List.append_assoc]
        rfl
      · rw [hev, hs.verfEvents, verfExchange, List.append_assoc, List.cons_append]
        simp [nextArgs]

end

/-- Warning of every change is right only if there is none. -/
theorem verfExchange_eq_iff (vs : List CookieVerf) :
    verfExchange (· ≠ ·) emptyverf vs = verfExchange verfChanged emptyverf vs ↔
      ∀ v ∈ vs, v = emptyverf := by
  induction vs with
  | nil => simp [verfExchange]
  | cons v vs ih =>
    rw [List.forall_mem_cons, ← ih]
    by_cases hv : v = emptyverf
    · subst hv
      simp [verfExchange, verfChanged]
    · have hne : emptyverf ≠ v := Ne.symm hv
      cases vs with
      | nil => simp [verfExchange, verfChanged, hne, hv]
      | cons v' vs => simp [verfExchange, verfChanged, hne, hv]

/-- **When the verifiers are handled right.**  On any successful replies, the first request carries
    the empty verifier, every later one that of the reply before it, and the warning is printed
    exactly for the replies whose verifier differs from the one sent, if that was set, iff every
    reply carries the empty verifier. -/
theorem doReaddirplus_verf_iff (cfg : LsConfig) (srv : ReplyServer) (host : CString)
    (pages depth : ℕ) (fh : NfsFhList) :
    verfEvents (doReaddirplus cfg srv.toLsEnv host pages (depth + 1) fh []).2 =
        verfExchange verfChanged emptyverf
          (verfs (doReaddirplus cfg srv.toLsEnv host pages (depth + 1) fh []).2) ↔
      ∀ v ∈ verfs (doReaddirplus cfg srv.toLsEnv host pages (depth + 1) fh []).2, v = emptyverf := by
  obtain ⟨vs, hvs, hev⟩ := @readdirplusLoop_verfEvents cfg srv host fh (firstArgs fh) [] []
    (doGetattr cfg srv.toLsEnv host pages depth) pages
  have hvs : verfs (doReaddirplus cfg srv.toLsEnv host pages (depth + 1) fh []).2 = vs := hvs
  have hev : verfEvents (doReaddirplus cfg srv.toLsEnv host pages (depth + 1) fh []).2 =
    verfExchange (· ≠ ·) emptyverf vs := hev
  rw [hvs, hev, verfExchange_eq_iff]

/-- A reply with a verifier that is set. -/
def verfReply : Readdirplus3res where
  cookieverf := ⟨[1, 0, 0, 0, 0, 0, 0, 0], rfl⟩
  eof := true

/-- The verifier of the first reply is said to have changed. -/
theorem doReaddirplus_verf_first :
    verfEvents (doReaddirplus {} (sameReply verfReply rfl).toLsEnv [] 1 1 {} []).2 =
        [.reply emptyverf verfReply.cookieverf, .warning] ∧
      verfEvents (doReaddirplus {} (sameReply verfReply rfl).toLsEnv [] 1 1 {} []).2 ≠
        verfExchange verfChanged emptyverf
          (verfs (doReaddirplus {} (sameReply verfReply rfl).toLsEnv [] 1 1 {} []).2) :=
  ⟨by decide, by decide⟩

end NFStash
