/-
  `cat.c`: the READ requests for a file.

  Without `-c` the requests for a file follow one another from the offset they start at, and what
  is written is what was read (`catFile_reads`).  With `-c` the requests are counted over all
  files of a target: a file after the first gets what the others have left (`catFile_count_iff`).
-/
import NFStash.Cat

namespace NFStash

open CLib Loops Paging

/-! ## One request -/

/-- The requests and replies in a trace. -/
def catReads (tr : List CatEvent) : List (Read3args × Option Read3res) :=
  tr.filterMap fun | .read args res => some (args, res) | _ => none

/-- The replies in these events, of which the first is number `k` of the run, are the server's. -/
def RepliesFrom (env : CatEnv) (k : ℕ) (ev : List CatEvent) : Prop :=
  ∀ i args res, ev[i]? = some (.read args res) → res = env.read (k + i) args

/-- There is no reply, or one with an error. -/
def ReadFails (res : Option Read3res) : Prop := ∀ r, res = some r → r.status ≠ NFS3_OK

/-- The arguments of `do_read`. -/
def readArgs (cfg : CatConfig) (fh : NfsFhList) (offset : UInt64) : Read3args :=
  { file := fh.nfsFh, offset, count := .ofNat cfg.blocksize }

/-- What one request does: the events it adds, and the variables after it. -/
structure ReadStep (cfg : CatConfig) (env : CatEnv) (fh : NfsFhList) (s s' : CatState)
    (ev : List CatEvent) : Prop where
  trace : s'.trace = s.trace ++ ev
  reads : catReads ev = [(readArgs cfg fh s.offset, env.read s.trace.length (readArgs cfg fh s.offset))]
  replies : RepliesFrom env s.trace.length ev
  sent : s'.sent = wrap64 (s.sent + 1)
  fails : ReadFails (env.read s.trace.length (readArgs cfg fh s.offset)) →
    s'.more = false ∧ stdout ev = []
  page : ∀ res, env.read s.trace.length (readArgs cfg fh s.offset) = some res → res.status = NFS3_OK →
    s'.more = (!(cfg.count ≠ 0 && cfg.count ≤ s'.sent) && !res.eof) ∧ ev.length = 2 ∧
      s'.offset = s.offset + res.count.toUInt64 ∧ stdout ev = if cfg.count = 0 then res.data else []

section
variable {cfg : CatConfig} {env : CatEnv} {name : CString} {fh : NfsFhList} {k : ℕ} {ev ev' : List CatEvent}

theorem RepliesFrom.append (h : RepliesFrom env k ev) (h' : RepliesFrom env (k + ev.length) ev') :
    RepliesFrom env k (ev ++ ev') := by
  intro i args res hi
  rw [List.getElem?_append] at hi
  split_ifs at hi with hlt
  · exact h i args res hi
  · have hplace : k + ev.length + (i - ev.length) = k + i := by omega
    rw [← hplace]
    exact h' _ args res hi

/-- A request and what else it adds. -/
theorem repliesFrom_cons (args : Read3args) (hno : catReads ev = []) :
    RepliesFrom env k (.read args (env.read k args) :: ev) := by
  intro i args' res hi
  cases i with
  | zero =>
    obtain ⟨rfl, rfl⟩ := CatEvent.read.inj (Option.some.inj hi)
    rfl
  | succ i =>
    have hmem : (args', res) ∈ catReads ev :=
      List.mem_filterMap.2 ⟨_, List.mem_of_getElem? (by simpa using hi), rfl⟩
    rw [hno] at hmem
    exact absurd hmem List.not_mem_nil

variable (cfg env name fh) in
/-- **One request.** -/
theorem catRead_step (r : ℕ) (s : CatState) :
    ∃ s' ev, catRead cfg env name fh r s = .ok s' ∧ ReadStep cfg env fh s s' ev := by
  cases hres : env.read s.trace.length (readArgs cfg fh s.offset) with
  | none =>
    have hread := hres
    simp only [readArgs] at hread
    refine ⟨_, [.read (readArgs cfg fh s.offset) none, .clntPerror "nfsproc3_read_3"],
      by simp only [catRead, doRead, hread]; rfl, rfl, by rw [hres]; rfl, ?_, ?_, fun _ => ⟨?_, rfl⟩, ?_⟩
    · rw [← hres]
      exact repliesFrom_cons _ rfl
    · rfl
    · rfl
    · intro res h
      rw [hres] at h
      cases h
  | some res =>
    have hread := hres
    simp only [readArgs] at hread
    by_cases hok : res.status = NFS3_OK
    · obtain ⟨s', hs'⟩ : ∃ s', catRead cfg env name fh r s = .ok s' :=
        ⟨_, by simp only [catRead, doRead, hread, hok, if_true]; rfl⟩
      have hpage := hs'
      simp only [catRead, doRead, hread, hok, if_true, Except.ok.injEq] at hpage
      -- the second event is the output of the data
      obtain ⟨event, htrace, hevent⟩ : ∃ event, s'.trace = s.trace ++
          [.read (readArgs cfg fh s.offset) (some res), event] ∧
          catReads [event] = [] ∧ stdout [event] = if cfg.count = 0 then res.data else [] := by
        rw [← hpage]
        refine ⟨_, List.append_assoc _ _ _, ?_, ?_⟩
        · split_ifs <;> rfl
        · split_ifs <;> simp [stdout]
      refine ⟨s', [.read (readArgs cfg fh s.offset) (some res), event], hs', htrace, ?_, ?_, ?_, ?_, ?_⟩
      · rw [hres]
        exact congrArg ((readArgs cfg fh s.offset, some res) :: ·) hevent.1
      · rw [← hres]
        exact repliesFrom_cons _ hevent.1
      · rw [← hpage]
      · exact fun h => absurd hok (h res hres)
      · intro res' h _
        obtain rfl : res = res' := Option.some.inj (hres.symm.trans h)
        rw [← hpage]
        exact ⟨rfl, rfl, rfl, hevent.2⟩
    · refine ⟨_, [.read (readArgs cfg fh s.offset) (some res), .nfsPerror res.status "nfsproc3_read_3"],
        by simp only [catRead, doRead, hread, if_neg hok]; rfl, rfl, by rw [hres]; rfl, ?_, ?_,
        fun _ => ⟨?_, rfl⟩, ?_⟩
      · rw [← hres]
        exact repliesFrom_cons _ rfl
      · rfl
      · rfl
      · intro res' h hok'
        rw [hres] at h
        exact absurd (Option.some.inj h ▸ hok') hok

end

theorem catReads_append (tr tr' : List CatEvent) : catReads (tr ++ tr') = catReads tr ++ catReads tr' :=
  List.filterMap_append

theorem stdout_append (tr tr' : List CatEvent) : stdout (tr ++ tr') = stdout tr ++ stdout tr' :=
  List.flatMap_append

/-! ## Short reads -/

/-- A server that answers a READ of a file with some of the bytes asked for, or fails. -/
def ReadsFrom (content : List UInt8) (file : NfsFh3) (env : CatEnv) : Prop :=
  ∀ k (args : Read3args), args.file = file → args.count ≠ 0 → args.offset.toNat ≤ content.length →
    ReadFails (env.read k args) ∨ ∃ res, env.read k args = some res ∧ res.status = NFS3_OK ∧
      res.count.toNat = res.data.length ∧ res.data.length ≤ args.count.toNat ∧
      IsPage (content.drop args.offset.toNat) res.data res.eof

/-- Each request starts where the data of the one before ended. -/
def Contiguous : ℕ → List (Read3args × Option Read3res) → Prop
  | _, [] => True
  | off, (args, res) :: reads => args.offset.toNat = off ∧ (reads ≠ [] →
      ∃ r, res = some r ∧ r.status = NFS3_OK ∧ Contiguous (off + r.data.length) reads)

/-- What the requests for a file do that start at an offset, after `k` events of the run. -/
structure FileRead (content : List UInt8) (cfg : CatConfig) (env : CatEnv) (fh : NfsFhList) (k off : ℕ)
    (ev : List CatEvent) : Prop where
  ne_nil : catReads ev ≠ []
  replies : RepliesFrom env k ev
  args : ∀ read ∈ catReads ev, read.1.file = fh.nfsFh ∧ read.1.count = .ofNat cfg.blocksize
  contiguous : Contiguous off (catReads ev)
  complete : (∀ read ∈ catReads ev, ¬ ReadFails read.2) → stdout ev = content.drop off
  failed : ∀ read ∈ catReads ev, ReadFails read.2 → off ≤ read.1.offset.toNat ∧
    stdout ev = (content.drop off).take (read.1.offset.toNat - off)

section
variable {cfg : CatConfig} {env : CatEnv} {name : CString} {fh : NfsFhList} {content : List UInt8}

/-- The last request. -/
theorem ReadStep.fileRead {s s' : CatState} {ev : List CatEvent} (h : ReadStep cfg env fh s s' ev)
    (hdata : ¬ ReadFails (env.read s.trace.length (readArgs cfg fh s.offset)) →
      stdout ev = content.drop s.offset.toNat) :
    FileRead content cfg env fh s.trace.length s.offset.toNat ev where
  ne_nil := by simp [h.reads]
  replies := h.replies
  args := by simp [h.reads, readArgs]
  contiguous := by
    rw [h.reads]
    exact ⟨rfl, fun hne => absurd rfl hne⟩
  complete hall := hdata (hall (readArgs cfg fh s.offset,
    env.read s.trace.length (readArgs cfg fh s.offset)) (by simp [h.reads]))
  failed read hread hfail := by
    rw [h.reads, List.mem_singleton] at hread
    subst hread
    rw [(h.fails hfail).2]
    simp [readArgs]

/-- A request before others. -/
theorem FileRead.cons {s s' : CatState} {ev ev' : List CatEvent} {res : Read3res}
    (h : ReadStep cfg env fh s s' ev)
    (hres : env.read s.trace.length (readArgs cfg fh s.offset) = some res) (hok : res.status = NFS3_OK)
    (hout : stdout ev = res.data) (hpage : IsPage (content.drop s.offset.toNat) res.data false)
    (h' : FileRead content cfg env fh s'.trace.length (s.offset.toNat + res.data.length) ev') :
    FileRead content cfg env fh s.trace.length s.offset.toNat (ev ++ ev') := by
  have hreads : catReads (ev ++ ev') = (readArgs cfg fh s.offset, some res) :: catReads ev' := by
    rw [catReads_append, h.reads, hres]
    rfl
  have hno : ¬ ReadFails (some res) := fun hf => hf res rfl hok
  have hdata := hpage.append_drop
  have hreplies := h'.replies
  rw [h.trace, List.length_append] at hreplies
  refine ⟨by simp [hreads], h.replies.append hreplies, ?_, ?_, ?_, ?_⟩
  · rw [hreads]
    exact List.forall_mem_cons.2 ⟨⟨rfl, rfl⟩, h'.args⟩
  · rw [hreads]
    exact ⟨rfl, fun _ => ⟨res, rfl, hok, h'.contiguous⟩⟩
  · intro hall
    rw [hreads] at hall
    rw [stdout_append, hout, h'.complete (List.forall_mem_cons.1 hall).2, hdata]
  · intro read hread hfail
    rw [hreads] at hread
    rcases List.mem_cons.1 hread with rfl | hread
    · exact absurd hfail hno
    · obtain ⟨hle, htake⟩ := h'.failed read hread hfail
      obtain ⟨k, hk⟩ := Nat.exists_eq_add_of_le hle
      refine ⟨by omega, ?_⟩
      have hsub : s.offset.toNat + res.data.length + k - s.offset.toNat = res.data.length + k := by omega
      rw [stdout_append, hout, htake, ← hdata, hk, Nat.add_sub_cancel_left, hsub,
        List.take_length_add_append]

variable (name) in
/-- **All requests for a file**, from where it is read on. -/
theorem poll_reads (hc : cfg.count = 0) (hb : UInt32.ofNat cfg.blocksize ≠ 0)
    (hsize : content.length < 2 ^ 64) (hsrv : ReadsFrom content fh.nfsFh env) {fuel : ℕ} (r : ℕ)
    {s : CatState} (ho : s.offset.toNat ≤ content.length)
    (hf : content.length - s.offset.toNat < fuel) :
    ∃ m s' ev, poll (catRead cfg env name fh) (fun _ s => s.more) fuel r s = .ok (some (m, s')) ∧
      s'.trace = s.trace ++ ev ∧ FileRead content cfg env fh s.trace.length s.offset.toNat ev := by
  induction fuel generalizing r s with
  | zero => omega
  | succ fuel ih =>
    obtain ⟨s₁, ev, hread, hstep⟩ := catRead_step cfg env name fh r s
    rcases hsrv s.trace.length (readArgs cfg fh s.offset) rfl hb ho with
      hfail | ⟨res, hres, hok, hcount, -, hpage⟩
    · refine ⟨r + 1, s₁, ev, ?_, hstep.trace, hstep.fileRead fun hno => absurd hfail hno⟩
      simp [poll_succ hread, (hstep.fails hfail).1]
    · obtain ⟨hmore, -, hoff, hout⟩ := hstep.page res hres hok
      rw [if_pos hc] at hout
      simp only [hc, ne_eq, not_true_eq_false, decide_false, Bool.false_and, Bool.not_false,
        Bool.true_and] at hmore
      cases heof : res.eof with
      | true =>
        rw [heof] at hpage hmore
        refine ⟨r + 1, s₁, ev, ?_, hstep.trace, hstep.fileRead fun _ => by rw [hout, hpage.last]; rfl⟩
        simp [poll_succ hread, hmore]
      | false =>
        rw [heof] at hpage hmore
        have hle := hpage.off_le
        rw [show (readArgs cfg fh s.offset).offset = s.offset from rfl, Nat.max_eq_right ho] at hle
        have hoff' : s₁.offset.toNat = s.offset.toNat + res.data.length := by
          rw [hoff, UInt64.toNat_add, UInt32.toNat_toUInt64, hcount]
          exact Nat.mod_eq_of_lt (hle.trans_lt hsize)
        have hpos := List.length_pos_iff.2 hpage.ne_nil_of_more
        obtain ⟨m, s', ev', hpoll, htrace, hrest⟩ := ih (r + 1) (s := s₁) (by omega) (by omega)
        rw [hoff'] at hrest
        refine ⟨m, s', ev ++ ev', ?_, by rw [htrace, hstep.trace, List.append_assoc],
          hrest.cons hstep hres hok hout hpage⟩
        simpa [poll_succ hread, hmore] using hpoll

end

/-- If no request fails, the rest of the file is written. -/
theorem FileRead.whole {cfg : CatConfig} {env : CatEnv} {fh : NfsFhList} {content : List UInt8} {k off : ℕ}
    {ev : List CatEvent} (h : FileRead content cfg env fh k off ev)
    (hall : ∀ k args, ¬ ReadFails (env.read k args)) : stdout ev = content.drop off := by
  refine h.complete fun read hread => ?_
  obtain ⟨event, hev, hsome⟩ := List.mem_filterMap.1 hread
  obtain ⟨i, hi⟩ := List.mem_iff_getElem?.1 hev
  cases event with
  | read args res =>
    obtain rfl := Option.some.inj hsome
    rw [h.replies i args res hi]
    exact hall (k + i) args
  | _ => cases hsome

/-- **The requests for a file** without `-c`, from any offset in it: they follow one another, they end,
    and what is written is the rest of the file, or what comes before the request that fails.  Every
    reply is the one that the server gives at that place of the run. -/
theorem catFile_reads (cfg : CatConfig) (env : CatEnv) (name : CString) (fh : NfsFhList)
    (content : List UInt8) (i : ℕ) (s : CatState) (hc : cfg.count = 0) (hb : 1 ≤ cfg.blocksize)
    (hb' : cfg.blocksize < 2 ^ 32) (hsize : content.length < 2 ^ 64)
    (hsrv : ReadsFrom content fh.nfsFh env) (ho : s.offset.toNat ≤ content.length) :
    ∀ fuel, content.length - s.offset.toNat < fuel → ∃ s' ev,
      catFile cfg env fuel name i fh s = .ok (fh, s') ∧ s'.trace = s.trace ++ ev ∧
        FileRead content cfg env fh s.trace.length s.offset.toNat ev := by
  intro fuel hf
  have hne : UInt32.ofNat cfg.blocksize ≠ 0 := by
    intro h0
    have hto := congrArg UInt32.toNat h0
    rw [UInt32.toNat_ofNat', UInt32.toNat_zero] at hto
    omega
  obtain ⟨m, s', ev, hpoll, htrace, hread⟩ := poll_reads name hc hne hsize hsrv 0 ho hf
  exact ⟨s', ev, by simp [catFile, hpoll, bind, Except.bind], htrace, hread⟩

/-- A server that returns one byte at a time, and none at one offset. -/
def byteServer (content : List UInt8) (bad : ℕ) : CatEnv where
  read _ args :=
    let rest := content.drop args.offset.toNat
    if args.offset.toNat = bad then none
    else some { count := .ofNat (rest.take 1).length, eof := rest.length ≤ 1, data := rest.take 1 }

theorem byteServer_reads (content : List UInt8) (bad : ℕ) (file : NfsFh3) :
    ReadsFrom content file (byteServer content bad) := by
  intro k args _ hne _
  have hpos : 1 ≤ args.count.toNat := by
    refine Nat.one_le_iff_ne_zero.2 fun h0 => hne (UInt32.toNat_inj.1 h0)
  simp only [byteServer]
  by_cases hbad : args.offset.toNat = bad
  · rw [if_pos hbad]
    exact .inl fun r hr => by cases hr
  · rw [if_neg hbad]
    generalize content.drop args.offset.toNat = rest
    have hle : (rest.take 1).length ≤ 1 := List.length_take_le ..
    refine .inr ⟨_, rfl, rfl, ?_, hle.trans hpos,
      ⟨List.take_prefix .., by simp [List.take_eq_self_iff]⟩, ?_⟩
    · rw [UInt32.toNat_ofNat']
      exact Nat.mod_eq_of_lt (hle.trans_lt (by decide))
    · simp [List.take_eq_nil_iff]

/-- Three bytes, read from the second on; the request for the third fails. -/
theorem catFile_reads_failing : ∃ s' ev,
    catFile {} (byteServer [1, 2, 3] 2) 3 [] 0 {} { offset := 1 } = .ok ({}, s') ∧
      s'.trace = [] ++ ev ∧ FileRead [1, 2, 3] {} (byteServer [1, 2, 3] 2) {} 0 1 ev :=
  catFile_reads {} (byteServer [1, 2, 3] 2) [] {} [1, 2, 3] 0 { offset := 1 } rfl (by decide) (by decide)
    (by decide) (byteServer_reads [1, 2, 3] 2 _) (by decide) 3 (by decide)

/-! ## Counted requests -/

/-- A reply after which there is no other request: an error, or the end of the file. -/
def EndsFile (res : Option Read3res) : Prop := ∀ r, res = some r → r.status = NFS3_OK → r.eof = true

/-- At most `n` requests, and fewer only if the file has ended. -/
def GetsRequests (n : ℕ) (reads : List (Read3args × Option Read3res)) : Prop :=
  reads.length ≤ n ∧ (reads.length = n ∨ ∃ read, reads.getLast? = some read ∧ EndsFile read.2)

/-- One of the next `m` replies of the server ends the file, where the requests start at `off` and
    there have been `k` events before. -/
def EndsWithin (cfg : CatConfig) (env : CatEnv) (fh : NfsFhList) : ℕ → ℕ → UInt64 → Prop
  | 0, _, _ => False
  | m + 1, k, off => EndsFile (env.read k (readArgs cfg fh off)) ∨
      ∃ r, env.read k (readArgs cfg fh off) = some r ∧
        EndsWithin cfg env fh m (k + 2) (off + r.count.toUInt64)

/-- The requests there are for a file, if `sent` have been counted before: one at least. -/
def requestsLeft (n sent : ℕ) : ℕ := 1 + (n - wrap64 (sent + 1))

/-- The requests for a file, where `left` are left. -/
structure CountedReads (cfg : CatConfig) (env : CatEnv) (fh : NfsFhList) (left : ℕ) (s s' : CatState)
    (ev : List CatEvent) : Prop where
  trace : s'.trace = s.trace ++ ev
  sent : s'.sent = wrap64 (s.sent + (catReads ev).length)
  files : ∀ read ∈ catReads ev, read.1.file = fh.nfsFh
  le : (catReads ev).length ≤ left
  last : ∃ read, (catReads ev).getLast? = some read ∧ (EndsFile read.2 ∨ (catReads ev).length = left) ∧
    ∀ m ≤ left, EndsWithin cfg env fh m s.trace.length s.offset ↔
      (catReads ev).length ≤ m ∧ EndsFile read.2

section
variable {cfg : CatConfig} {env : CatEnv} {name : CString} {fh : NfsFhList} {left n : ℕ}

/-- When there is another request. -/
theorem ReadStep.more_cases {s s' : CatState} {ev : List CatEvent} (h : ReadStep cfg env fh s s' ev)
    (hn : 1 ≤ cfg.count) :
    (s'.more = false ∧ (EndsFile (env.read s.trace.length (readArgs cfg fh s.offset)) ∨
      cfg.count ≤ s'.sent)) ∨
    (s'.more = true ∧ s'.sent < cfg.count ∧
      ∃ res, env.read s.trace.length (readArgs cfg fh s.offset) = some res ∧ res.status = NFS3_OK ∧
        res.eof = false) := by
  by_cases hfail : ReadFails (env.read s.trace.length (readArgs cfg fh s.offset))
  · exact .inl ⟨(h.fails hfail).1, .inl fun r hr hok => absurd hok (hfail r hr)⟩
  · obtain ⟨res, hres, hok⟩ : ∃ res, env.read s.trace.length (readArgs cfg fh s.offset) = some res ∧
        res.status = NFS3_OK := by
      simpa [ReadFails] using hfail
    obtain ⟨hmore, -⟩ := h.page res hres hok
    have hne : cfg.count ≠ 0 := by omega
    rw [decide_eq_true hne, Bool.true_and] at hmore
    by_cases hle : cfg.count ≤ s'.sent
    · exact .inl ⟨by simp [hmore, hle], .inr hle⟩
    · cases heof : res.eof with
      | true =>
        refine .inl ⟨by simp [hmore, heof], .inl ?_⟩
        intro r hr _
        rwa [Option.some.inj (hr.symm.trans hres)]
      | false => exact .inr ⟨by simp [hmore, heof, hle], by omega, res, hres, hok, heof⟩

/-- The last request. -/
theorem ReadStep.counted {s s' : CatState} {ev : List CatEvent} (h : ReadStep cfg env fh s s' ev)
    (hleft : 1 ≤ left)
    (hlast : EndsFile (env.read s.trace.length (readArgs cfg fh s.offset)) ∨ left = 1) :
    CountedReads cfg env fh left s s' ev := by
  refine ⟨h.trace, by rw [h.sent, h.reads]; rfl, by simp [h.reads, readArgs],
    by simpa [h.reads] using hleft,
    (readArgs cfg fh s.offset, env.read s.trace.length (readArgs cfg fh s.offset)),
    by simp [h.reads], ?_, ?_⟩
  · rw [h.reads, List.length_singleton]
    exact hlast.imp_right Eq.symm
  · intro m hm
    rw [h.reads, List.length_singleton]
    cases m with
    | zero => simp [EndsWithin]
    | succ m =>
      constructor
      · rintro (hend | ⟨res, -, hmore⟩)
        · exact ⟨Nat.succ_pos m, hend⟩
        · rcases hlast with hend | rfl
          · exact ⟨Nat.succ_pos m, hend⟩
          · obtain rfl : m = 0 := by omega
            exact hmore.elim
      · exact fun h => .inl h.2

/-- A request before others. -/
theorem CountedReads.cons {s s₁ s' : CatState} {ev ev' : List CatEvent} {res : Read3res}
    (h : ReadStep cfg env fh s s₁ ev)
    (hres : env.read s.trace.length (readArgs cfg fh s.offset) = some res) (hok : res.status = NFS3_OK)
    (heof : res.eof = false) (h' : CountedReads cfg env fh left s₁ s' ev') :
    CountedReads cfg env fh (left + 1) s s' (ev ++ ev') := by
  have hreads : catReads (ev ++ ev') = (readArgs cfg fh s.offset, some res) :: catReads ev' := by
    rw [catReads_append, h.reads, hres]
    rfl
  have hlen : (catReads (ev ++ ev')).length = (catReads ev').length + 1 := by
    rw [hreads, List.length_cons]
  obtain ⟨-, hev, hoff, -⟩ := h.page res hres hok
  obtain ⟨read, hread, hlast, hwithin⟩ := h'.last
  have hne : catReads ev' ≠ [] := by
    intro hnil
    rw [hnil] at hread
    cases hread
  refine ⟨by rw [h'.trace, h.trace, List.append_assoc], ?_, ?_, ?_, read, ?_, ?_, ?_⟩
  · rw [h'.sent, h.sent, hlen]
    simp only [wrap64]
    omega
  · rw [hreads]
    exact List.forall_mem_cons.2 ⟨rfl, h'.files⟩
  · rw [hlen]
    exact Nat.succ_le_succ h'.le
  · rw [hreads, List.getLast?_cons_of_ne_nil hne, hread]
  · rw [hlen]
    exact hlast.imp_right (congrArg (· + 1))
  · intro m hm
    rw [hlen]
    cases m with
    | zero => simp [EndsWithin]
    | succ m =>
      have hrest := hwithin m (by omega)
      rw [h.trace, List.length_append, hev, hoff] at hrest
      rw [EndsWithin, hres, Nat.add_le_add_iff_right, ← hrest]
      constructor
      · rintro (hend | ⟨r, hr, hmore⟩)
        · rw [hend res rfl hok] at heof
          cases heof
        · exact Option.some.inj hr ▸ hmore
      · exact fun hmore => .inr ⟨res, rfl, hmore⟩

variable (env name fh) in
/-- **All requests for a file.** -/
theorem poll_counted (hn : 1 ≤ cfg.count) (hn' : cfg.count < 2 ^ 64) {fuel : ℕ} (r : ℕ) {s : CatState}
    (hleft : requestsLeft cfg.count s.sent = left) (hf : left ≤ fuel) :
    ∃ m s' ev, poll (catRead cfg env name fh) (fun _ s => s.more) fuel r s = .ok (some (m, s')) ∧
      CountedReads cfg env fh left s s' ev := by
  induction fuel generalizing left r s with
  | zero =>
    simp only [requestsLeft] at hleft
    omega
  | succ fuel ih =>
    obtain ⟨s₁, ev, hread, hstep⟩ := catRead_step cfg env name fh r s
    simp only [requestsLeft, ← hstep.sent] at hleft
    rcases hstep.more_cases hn with ⟨hmore, hlast⟩ | ⟨hmore, hlt, res, hres, hok, heof⟩
    · refine ⟨r + 1, s₁, ev, ?_, hstep.counted (by omega) (hlast.imp_right fun hle => by omega)⟩
      simp [poll_succ hread, hmore]
    · have hleft' : requestsLeft cfg.count s₁.sent = left - 1 := by
        simp only [requestsLeft, wrap64]
        omega
      obtain ⟨m, s', ev', hpoll, hcounted⟩ := ih (r + 1) hleft' (by omega)
      have hcons := hcounted.cons hstep hres hok heof
      rw [Nat.sub_add_cancel (by omega)] at hcons
      refine ⟨m, s', ev ++ ev', ?_, hcons⟩
      simpa [poll_succ hread, hmore] using hpoll

/-- **What a file gets**: its requests, iff there are as many left as it should get or it ends
    within these. -/
theorem CountedReads.gets_iff {s s' : CatState} {ev : List CatEvent}
    (h : CountedReads cfg env fh left s s' ev) : GetsRequests n (catReads ev) ↔
      left = n ∨ EndsWithin cfg env fh (min left n) s.trace.length s.offset := by
  obtain ⟨read, hread, hlast, hwithin⟩ := h.last
  have hle := h.le
  rw [hwithin _ (Nat.min_le_left ..), GetsRequests, hread]
  simp only [Option.some.injEq, exists_eq_left']
  constructor
  · rintro ⟨hn, hall | hend⟩
    · rcases hlast with hend | hall'
      · exact .inr ⟨Nat.le_min.2 ⟨hle, hn⟩, hend⟩
      · exact .inl (hall'.symm.trans hall)
    · exact .inr ⟨Nat.le_min.2 ⟨hle, hn⟩, hend⟩
  · rintro (rfl | ⟨hmin, hend⟩)
    · exact ⟨hle, hlast.symm⟩
    · exact ⟨hmin.trans (Nat.min_le_right ..), .inr hend⟩

end

/-- The loop for file `k` of target `j` starts in state `s`; that for the first file of the target
    starts in `s₀`. -/
structure FileStarts (cfg : CatConfig) (env : CatEnv) (fuel : ℕ) (targets : List Target) (j k : ℕ)
    (target : Target) (fh : NfsFhList) (s₀ s : CatState) : Prop where
  isTarget : targets[j]? = some target
  isFile : target.filehandles[k]? = some fh
  start : ∃ t t', Reaches (catTarget cfg env fuel) 0 targets {} j t ∧ target.freed = false ∧
    catConnect env target t = .ok t' ∧ s₀ = { t' with offset := 0, sent := 0, received := 0 }
  reaches : Reaches (catFile cfg env fuel target.name) 0 target.filehandles s₀ k s

section
variable {cfg : CatConfig} {env : CatEnv} {fuel : ℕ} {name : CString} {fh : NfsFhList}

theorem requestsLeft_le (n sent : ℕ) : requestsLeft n sent ≤ n + 1 := by
  simp only [requestsLeft]
  omega

variable (env name fh) in
/-- The loop for a file. -/
theorem catFile_counted (hn : 1 ≤ cfg.count) (hn' : cfg.count < 2 ^ 64) (hf : cfg.count < fuel) (i : ℕ)
    (s : CatState) : ∃ s' ev, catFile cfg env fuel name i fh s = .ok (fh, s') ∧
      CountedReads cfg env fh (requestsLeft cfg.count s.sent) s s' ev := by
  obtain ⟨m, s', ev, hpoll, h⟩ := poll_counted env name fh hn hn' 0 (s := s) rfl
    ((requestsLeft_le ..).trans hf)
  exact ⟨s', ev, by simp [catFile, hpoll, bind, Except.bind], h⟩

/-- All requests to a target are counted. -/
theorem FileStarts.sent {targets : List Target} {j k : ℕ} {target : Target} {s₀ s : CatState}
    (hn : 1 ≤ cfg.count) (hn' : cfg.count < 2 ^ 64) (hf : cfg.count < fuel)
    (h : FileStarts cfg env fuel targets j k target fh s₀ s) :
    ∃ ev, s.trace = s₀.trace ++ ev ∧ s.sent = wrap64 (catReads ev).length := by
  obtain ⟨t, t', -, -, -, rfl⟩ := h.start
  obtain ⟨fhs, hw⟩ := h.reaches
  refine (walk_spec
    (P := fun _ u => ∃ ev, u.trace = t'.trace ++ ev ∧ u.sent = wrap64 (catReads ev).length)
    ?_ ⟨[], by simp, rfl⟩ hw).1
  rintro k fh u fh' u' - ⟨ev, htrace, hsent⟩ hstep
  obtain ⟨s', ev', hrun, hcounted⟩ := catFile_counted env target.name fh hn hn' hf (0 + k) u
  obtain ⟨-, rfl⟩ := Prod.mk.inj (Except.ok.inj (hstep.symm.trans hrun))
  refine ⟨ev ++ ev', by rw [hcounted.trace, htrace, List.append_assoc], ?_⟩
  rw [hcounted.sent, hsent, catReads_append, List.length_append]
  simp only [wrap64]
  omega

end

/-- **What the files get** with `-c`.  In every run, the requests for a file are all for it, and it gets
    the count, or fewer if it ends, iff no request has been counted before on its target (or one
    is all it should get), or it ends within the requests that are left. -/
theorem catFile_count_iff (cfg : CatConfig) (env : CatEnv) (fuel : ℕ) (targets : List Target) (j k : ℕ)
    (target : Target) (fh : NfsFhList) (s₀ s : CatState) (hn : 1 ≤ cfg.count) (hn' : cfg.count < 2 ^ 64)
    (hf : cfg.count < fuel) (h : FileStarts cfg env fuel targets j k target fh s₀ s) :
    ∃ s' before ev, s.trace = s₀.trace ++ before ∧ s.sent = wrap64 (catReads before).length ∧
      catFile cfg env fuel target.name k fh s = .ok (fh, s') ∧ s'.trace = s.trace ++ ev ∧
      (∀ read ∈ catReads ev, read.1.file = fh.nfsFh) ∧
      (GetsRequests cfg.count (catReads ev) ↔ requestsLeft cfg.count s.sent = cfg.count ∨
        EndsWithin cfg env fh (min (requestsLeft cfg.count s.sent) cfg.count) s.trace.length
          s.offset) := by
  obtain ⟨before, hbefore, hsent⟩ := h.sent hn hn' hf
  obtain ⟨s', ev, hrun, hcounted⟩ := catFile_counted env target.name fh hn hn' hf k s
  exact ⟨s', before, ev, hbefore, hsent, hrun, hcounted.trace, hcounted.files, hcounted.gets_iff⟩

/-- A server whose files have no end. -/
def endlessServer : CatEnv where
  read _ _ := some { count := 1, data := [0] }

/-- A target with two files. -/
def twoFileTarget : Target := { filehandles := [{ nfsFh := ⟨[0x0a]⟩ }, { nfsFh := ⟨[0x0b]⟩ }] }

theorem catFile_count_iff_first : ∃ s' before ev,
    [CatEvent.connect none true] = [.connect none true] ++ before ∧ 0 = wrap64 (catReads before).length ∧
      catFile { count := 2 } endlessServer 3 [] 0 { nfsFh := ⟨[0x0a]⟩ }
        { trace := [.connect none true] } = .ok ({ nfsFh := ⟨[0x0a]⟩ }, s') ∧
      s'.trace = [.connect none true] ++ ev ∧
      (∀ read ∈ catReads ev, read.1.file = ⟨[0x0a]⟩) ∧
      (GetsRequests 2 (catReads ev) ↔ requestsLeft 2 0 = 2 ∨
        EndsWithin { count := 2 } endlessServer { nfsFh := ⟨[0x0a]⟩ } (min (requestsLeft 2 0) 2) 1 0) :=
  catFile_count_iff { count := 2 } endlessServer 3 [twoFileTarget] 0 0 twoFileTarget { nfsFh := ⟨[0x0a]⟩ }
    { trace := [.connect none true] } { trace := [.connect none true] } (by decide) (by decide)
    (by decide)
    ⟨rfl, rfl, ⟨{}, _, reaches_zero.2 rfl, rfl, rfl, rfl⟩, reaches_zero.2 rfl⟩

/-- The second file of a target gets one request where it should get two. -/
theorem catFile_second : ∃ s₀ s s',
    FileStarts { count := 2 } endlessServer 3 [twoFileTarget] 0 1 twoFileTarget { nfsFh := ⟨[0x0b]⟩ }
      s₀ s ∧
      catFile { count := 2 } endlessServer 3 [] 1 { nfsFh := ⟨[0x0b]⟩ } s =
        .ok ({ nfsFh := ⟨[0x0b]⟩ }, s') ∧
      (catReads (s'.trace.drop s.trace.length)).length = 1 ∧
      ¬ GetsRequests 2 (catReads (s'.trace.drop s.trace.length)) := by
  refine ⟨_, _, _, ⟨rfl, rfl, ⟨{}, _, reaches_zero.2 rfl, rfl, rfl, rfl⟩, ⟨_, rfl⟩⟩, rfl, by decide, ?_⟩
  rintro ⟨-, hlen | ⟨read, hread, hend⟩⟩
  · exact absurd hlen (by decide)
  · obtain rfl := Option.some.inj hread
    exact absurd (hend _ rfl rfl) (by decide)

end NFStash
