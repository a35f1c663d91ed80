/-
  `cat.c`: reading files.

  `catMain` reads the filehandles of each target in turn.  The offset is set to 0 for each
  target, not for each file, so a file is read from the end of the longest one before it
  (`readFrom`).  `catMain_concat_iff`: the output is the concatenation of the
  files iff at most one file of each target is not empty.
-/
import NFStash.Lib.Loops
import NFStash.Lib.Paging
import NFStash.ParseFh
import Mathlib.Algebra.Order.BigOperators.Group.List

namespace NFStash

open CLib Loops Paging

/-! ## Model -/

structure Read3args where
  file : NfsFh3
  offset : UInt64
  count : UInt32
deriving DecidableEq

/-- All but the status is there only if that is `NFS3_OK`. -/
structure Read3res where
  status : Nfsstat3 := NFS3_OK
  count : UInt32 := 0
  eof : Bool := false
  data : List UInt8 := []
deriving DecidableEq

inductive CatFormat where
  | ping
  | graphite
  | statsd
deriving DecidableEq

/-- The options of `main`. -/
structure CatConfig where
  blocksize : ℕ := 8192
  count : ℕ := 0
  format : CatFormat := .ping
  metricPrefix : CString := "nfscat".toList
deriving DecidableEq

inductive CatEvent where
  | connect (clientSock : Option SockaddrIn) (ok : Bool)
  | read (args : Read3args) (res : Option Read3res)
  /-- `clnt_perror(client, proc)` -/
  | clntPerror (proc : String)
  /-- `nfs_perror(status, proc)` -/
  | nfsPerror (status : Nfsstat3) (proc : String)
  /-- `fwrite` to stdout -/
  | write (data : List UInt8)
  /-- `print_output` -/
  | output (format : CatFormat) (metricPrefix host path : CString) (count : UInt32) (min max : ℕ)
      (avg : Option ℚ) (sent received us : ℕ)
deriving DecidableEq

/-- What a run gets from outside.  The first argument counts the events of the run so far. -/
structure CatEnv where
  read : ℕ → Read3args → Option Read3res
  /-- `create_rpc_client` returns a client -/
  connect : ℕ → Bool := fun _ => true
  /-- the microseconds a READ took -/
  us : ℕ → ℕ := fun _ => 0

/-- The variables of `main`; `more` is the condition of the innermost loop. -/
structure CatState where
  trace : List CatEvent := []
  offset : UInt64 := 0
  sent : ℕ := 0
  received : ℕ := 0
  min : ℕ := ULONG_MAX
  max : ℕ := 0
  avg : Option ℚ := some 0
  more : Bool := true

section
variable (cfg : CatConfig) (env : CatEnv)

/-- `do_read`: the reply, and what it adds to the trace. -/
def doRead (dir : NfsFhList) (offset : UInt64) (tr : List CatEvent) :
    Option Read3res × List CatEvent :=
  let args : Read3args := { file := dir.nfsFh, offset, count := .ofNat cfg.blocksize }
  let res := env.read tr.length args
  match res with
  | none => (none, tr ++ [.read args none, .clntPerror "nfsproc3_read_3"])
  | some res =>
    if res.status = NFS3_OK then (some res, tr ++ [.read args (some res)])
    else (some res, tr ++ [.read args (some res), .nfsPerror res.status "nfsproc3_read_3"])

/-- The body of the do-while loop. -/
def catRead (name : CString) (filehandle : NfsFhList) (_ : ℕ) (s : CatState) : Except Fault CatState :=
  let (res, trace) := doRead cfg env filehandle s.offset s.trace
  let sent := wrap64 (s.sent + 1)
  match res with
  | none => .ok { s with trace, sent, more := false }
  | some res =>
    if res.status = NFS3_OK then
      let us := env.us trace.length
      let received := wrap64 (s.received + 1)
      let min := if us < s.min then us else s.min
      let max := if us > s.max then us else s.max
      let avg := runningAvg 64 s.avg received us
      let event := if cfg.count = 0 then CatEvent.write res.data
        else .output cfg.format cfg.metricPrefix name filehandle.path res.count min max avg sent received us
      .ok { trace := trace ++ [event], offset := s.offset + res.count.toUInt64, sent, received, min
            max, avg, more := !(cfg.count ≠ 0 && cfg.count ≤ sent) && !res.eof }
    else .ok { s with trace, sent, more := false }

variable (fuel : ℕ)

/-- The do-while loop for a filehandle. -/
def catFile (name : CString) (_ : ℕ) (filehandle : NfsFhList) (s : CatState) :
    Except Fault (NfsFhList × CatState) := do
  match ← poll (catRead cfg env name filehandle) (fun _ s => s.more) fuel 0 s with
  | none => .error .fuel
  | some (_, s) => .ok (filehandle, s)

/-- The client of a target; a new one is used before it is checked. -/
def catConnect (target : Target) (s : CatState) : Except Fault CatState :=
  if target.client then .ok s
  else if env.connect s.trace.length then
    .ok { s with trace := s.trace ++ [.connect target.clientSock true] }
  else .error .nullDeref

/-- The body of the loop over the targets. -/
def catTarget (_ : ℕ) (target : Target) (s : CatState) : Except Fault (Target × CatState) :=
  if target.freed then .error .useAfterFree
  else do
    let s ← catConnect env target s
    let (filehandles, s) ← walk (catFile cfg env fuel target.name) 0 target.filehandles
      { s with offset := 0, sent := 0, received := 0 }
    .ok ({ target with client := true, filehandles }, s)

/-- `main`, after the options; `fuel` bounds the requests for each file. -/
def catMain (lookup : CString → String → Option CString) (junk : ℕ → UInt8) (inputs : List CString) :
    Except Fault CatState := do
  let targets ← parseLines lookup junk 0 0 dummyTargets inputs
  let (_, s) ← walk (catTarget cfg env fuel) 0 targets.tail {}
  .ok s

end

/-- What has been written to stdout. -/
def stdout (tr : List CatEvent) : List UInt8 :=
  tr.flatMap fun | .write data => data | _ => []

/-! ## Files and their servers -/

/-- The contents of the files, which have a 64-bit size. -/
structure Files where
  content : NfsFh3 → List UInt8
  size : ∀ fh, (content fh).length < 2 ^ 64

/-- A server that can be reached and answers READ with some of the bytes asked for. -/
structure FileServer (files : Files) extends CatEnv where
  reachable : ∀ k, connect k = true
  answers : ∀ k args, args.count ≠ 0 → ∃ res, read k args = some res ∧ res.status = NFS3_OK ∧
    res.count.toNat = res.data.length ∧ res.data.length ≤ args.count.toNat ∧
    IsPage ((files.content args.file).drop args.offset.toNat) res.data res.eof

/-- The contents of files that are read one after the other without going back to the start. -/
def readFrom : ℕ → List (List UInt8) → List UInt8
  | _, [] => []
  | off, c :: cs => c.drop off ++ readFrom (max off c.length) cs

/-- The contents of the files of a target. -/
def Target.contents (files : Files) (t : Target) : List (List UInt8) :=
  t.filehandles.map fun fh => files.content fh.nfsFh

/-! ### Reading without going back -/

theorem readFrom_length_le (off : ℕ) (cs : List (List UInt8)) :
    (readFrom off cs).length ≤ cs.flatten.length := by
  induction cs generalizing off with
  | nil => simp [readFrom]
  | cons c cs ih =>
    have h := ih (max off c.length)
    simp only [readFrom, List.flatten_cons, List.length_append, List.length_drop]
    omega

/-- From a positive offset only empty files are read in full. -/
theorem readFrom_pos_eq_iff {off : ℕ} (h0 : 0 < off) {cs : List (List UInt8)} :
    readFrom off cs = cs.flatten ↔ ∀ c ∈ cs, c = [] := by
  induction cs generalizing off with
  | nil => simp [readFrom]
  | cons c cs ih =>
    constructor
    · intro h
      have hc : c = [] := by
        by_contra hc
        have hl := congrArg List.length h
        have hpos := List.length_pos_iff.2 hc
        have hle := readFrom_length_le (max off c.length) cs
        simp only [readFrom, List.flatten_cons, List.length_append, List.length_drop] at hl
        omega
      subst hc
      simpa using (@ih (max off 0) (by omega)).1 (by simpa [readFrom] using h)
    · intro h
      obtain ⟨rfl, hcs⟩ := List.forall_mem_cons.1 h
      simpa [readFrom] using (@ih (max off 0) (by omega)).2 hcs

/-- **From the start** all files are read in full iff at most one of them is not empty. -/
theorem readFrom_zero_eq_iff {cs : List (List UInt8)} :
    readFrom 0 cs = cs.flatten ↔ (cs.filter (· ≠ [])).length ≤ 1 := by
  induction cs with
  | nil => simp [readFrom]
  | cons c cs ih =>
    rcases eq_or_ne c [] with rfl | hc
    · simpa [readFrom] using ih
    · have hpos := List.length_pos_iff.2 hc
      have hf : (c :: cs).filter (· ≠ []) = c :: cs.filter (· ≠ []) :=
        List.filter_cons_of_pos (by simpa using hc)
      rw [hf, readFrom, List.drop_zero, List.flatten_cons, List.append_cancel_left_eq, Nat.zero_max,
        readFrom_pos_eq_iff hpos, List.length_cons, Nat.le_one_iff_eq_zero_or_eq_one]
      simp [List.filter_eq_nil_iff]

/-- All targets are read in full iff each is. -/
theorem flatMap_readFrom_eq_iff {tss : List (List (List UInt8))} :
    tss.flatMap (readFrom 0) = tss.flatMap List.flatten ↔
      ∀ cs ∈ tss, (cs.filter (· ≠ [])).length ≤ 1 := by
  induction tss with
  | nil => simp
  | cons cs tss ih =>
    have hle : (tss.flatMap (readFrom 0)).length ≤ (tss.flatMap List.flatten).length := by
      simp only [List.length_flatMap]
      exact List.sum_le_sum fun cs _ => readFrom_length_le 0 cs
    rw [List.flatMap_cons, List.flatMap_cons, List.forall_mem_cons, ← ih, ← readFrom_zero_eq_iff]
    constructor
    · intro h
      have hl := congrArg List.length h
      have hcs := readFrom_length_le 0 cs
      simp only [List.length_append] at hl
      exact List.append_inj h (by omega)
    · rintro ⟨h, h'⟩
      rw [h, h']

/-! ### Runs -/

section
variable {cfg : CatConfig} {files : Files} (srv : FileServer files) (name : CString) (fh : NfsFhList)

/-- **One request**: the bytes of the reply are written, and the offset moves past them. -/
theorem catRead_ok (hc : cfg.count = 0) (hb : UInt32.ofNat cfg.blocksize ≠ 0) (r : ℕ) (s : CatState) :
    ∃ s' data eof, catRead cfg srv.toCatEnv name fh r s = .ok s' ∧
      IsPage ((files.content fh.nfsFh).drop s.offset.toNat) data eof ∧
      s'.offset.toNat = s.offset.toNat + data.length ∧
      stdout s'.trace = stdout s.trace ++ data ∧ s'.more = !eof := by
  obtain ⟨res, hres, hok, hcount, -, hpage⟩ := srv.answers s.trace.length
    { file := fh.nfsFh, offset := s.offset, count := .ofNat cfg.blocksize } hb
  refine ⟨_, res.data, res.eof, by simp only [catRead, doRead, hres, hok, if_true]; rfl, hpage, ?_, ?_, ?_⟩
  · have hle := hpage.off_le
    have hsize := files.size fh.nfsFh
    have hoff := s.offset.toNat_lt
    have hlt : s.offset.toNat + res.data.length < 2 ^ 64 := by
      simp only at hle
      omega
    simp only [UInt64.toNat_add, UInt32.toNat_toUInt64, hcount]
    exact Nat.mod_eq_of_lt hlt
  · simp [stdout, hc]
  · simp [hc]

/-- The rest of a file is read within as many requests as it has bytes, and one more. -/
theorem poll_catRead_ok (hc : cfg.count = 0) (hb : UInt32.ofNat cfg.blocksize ≠ 0) {fuel : ℕ} (r : ℕ)
    {s : CatState} (hf : ((files.content fh.nfsFh).drop s.offset.toNat).length < fuel) :
    ∃ n s', poll (catRead cfg srv.toCatEnv name fh) (fun _ s => s.more) fuel r s = .ok (some (n, s')) ∧
      stdout s'.trace = stdout s.trace ++ (files.content fh.nfsFh).drop s.offset.toNat ∧
      s'.offset.toNat = max s.offset.toNat (files.content fh.nfsFh).length := by
  induction fuel generalizing r s with
  | zero => omega
  | succ fuel ih =>
    obtain ⟨s₁, data, eof, hread, hpage, hoff, hout, hmore⟩ :=
      catRead_ok srv name fh hc hb r s
    cases eof with
    | true =>
      refine ⟨r + 1, s₁, ?_, by rw [hout, hpage.last], by rw [hoff, hpage.off_last]⟩
      simp [poll_succ hread, hmore]
    | false =>
      have hpos := List.length_pos_iff.2 hpage.ne_nil_of_more
      have hsplit := congrArg List.length hpage.append_drop
      rw [List.length_append, ← hoff] at hsplit
      obtain ⟨n, s', hpoll, hout', hoff'⟩ := ih (r + 1) (s := s₁) (by omega)
      refine ⟨n, s', ?_, ?_, ?_⟩
      · simpa [poll_succ hread, hmore] using hpoll
      · rw [hout', hout, List.append_assoc, hoff, hpage.append_drop]
      · have hle := hpage.off_le
        rw [hoff', hoff]
        omega

/-- The files of a target are read one after the other, from where the longest one ended. -/
theorem walk_catFile_ok (hc : cfg.count = 0) (hb : UInt32.ofNat cfg.blocksize ≠ 0) {fuel : ℕ} (i : ℕ)
    {fhs : List NfsFhList} {s : CatState}
    (hf : ∀ fh ∈ fhs, (files.content fh.nfsFh).length < fuel) :
    ∃ fhs' s', walk (catFile cfg srv.toCatEnv fuel name) i fhs s = .ok (fhs', s') ∧
      stdout s'.trace = stdout s.trace ++
        readFrom s.offset.toNat (fhs.map fun fh => files.content fh.nfsFh) := by
  induction fhs generalizing i s with
  | nil => exact ⟨[], s, rfl, by simp [readFrom]⟩
  | cons fh fhs ih =>
    obtain ⟨hfh, hfhs⟩ := List.forall_mem_cons.1 hf
    obtain ⟨n, s₁, hpoll, hout, hoff⟩ := poll_catRead_ok srv name fh hc hb 0
      (s := s) ((List.length_drop.trans_le (Nat.sub_le ..)).trans_lt hfh)
    obtain ⟨fhs', s', hw, hout'⟩ := ih (i + 1) (s := s₁) hfhs
    refine ⟨fh :: fhs', s', walk_cons.2 ⟨fh, s₁, fhs', ?_, hw, rfl⟩, ?_⟩
    · simp [catFile, hpoll, bind, Except.bind]
    · rw [hout', hout, hoff, List.append_assoc]
      rfl

theorem catConnect_ok (t : Target) (s : CatState) :
    ∃ s', catConnect srv.toCatEnv t s = .ok s' ∧ stdout s'.trace = stdout s.trace := by
  unfold catConnect
  split_ifs with h h'
  · exact ⟨s, rfl, rfl⟩
  · exact ⟨_, rfl, by simp [stdout]⟩
  · exact absurd (srv.reachable _) h'

/-- Each target is read from offset 0. -/
theorem walk_catTarget_ok (hc : cfg.count = 0) (hb : UInt32.ofNat cfg.blocksize ≠ 0) {fuel : ℕ} (i : ℕ)
    {ts : List Target} {s : CatState} (ha : Allocated ts)
    (hf : ∀ t ∈ ts, ∀ fh ∈ t.filehandles, (files.content fh.nfsFh).length < fuel) :
    ∃ ts' s', walk (catTarget cfg srv.toCatEnv fuel) i ts s = .ok (ts', s') ∧
      stdout s'.trace = stdout s.trace ++ (ts.map (·.contents files)).flatMap (readFrom 0) := by
  induction ts generalizing i s with
  | nil => exact ⟨[], s, rfl, by simp⟩
  | cons t ts ih =>
    obtain ⟨ht, hts⟩ := List.forall_mem_cons.1 hf
    obtain ⟨hat, hats⟩ := List.forall_mem_cons.1 ha
    obtain ⟨s₁, hconn, hout₁⟩ := catConnect_ok srv t s
    obtain ⟨fhs', s₂, hw, hout₂⟩ := walk_catFile_ok srv t.name hc hb 0
      (s := { s₁ with offset := 0, sent := 0, received := 0 }) ht
    obtain ⟨ts', s', hw', hout'⟩ := ih (i + 1) (s := s₂) hats hts
    refine ⟨_, s', walk_cons.2 ⟨{ t with client := true, filehandles := fhs' }, s₂, ts', ?_, hw', rfl⟩, ?_⟩
    · simp [catTarget, hat, hconn, hw, bind, Except.bind]
    · rw [hout', hout₂, hout₁, List.append_assoc]
      rfl

end

/-- The run writes `out` to stdout and ends. -/
def Writes (cfg : CatConfig) (env : CatEnv) (lookup : CString → String → Option CString)
    (junk : ℕ → UInt8) (inputs : List CString) (out : List UInt8) : Prop :=
  ∃ N, ∀ fuel, N ≤ fuel → ∃ s, catMain cfg env fuel lookup junk inputs = .ok s ∧ stdout s.trace = out

/-- Some number of requests is enough for every file. -/
theorem exists_fuel (files : Files) (ts : List Target) :
    ∃ N, ∀ t ∈ ts, ∀ fh ∈ t.filehandles, (files.content fh.nfsFh).length < N := by
  refine ⟨((ts.flatMap (·.filehandles)).map fun fh => (files.content fh.nfsFh).length).sum + 1,
    fun t ht fh hfh => Nat.lt_succ_of_le ?_⟩
  exact List.single_le_sum (fun _ _ => Nat.zero_le _) _
    (List.mem_map_of_mem (List.mem_flatMap.2 ⟨t, ht, hfh⟩))

section
variable {cfg : CatConfig} {files : Files} (srv : FileServer files)
  {lookup : CString → String → Option CString} {junk : ℕ → UInt8} {inputs : List CString}

/-- What is written: the files of each target, read without going back. -/
theorem writes_iff (hc : cfg.count = 0) (hb : UInt32.ofNat cfg.blocksize ≠ 0) {ts : List Target}
    (hts : parseLines lookup junk 0 0 dummyTargets inputs = .ok ts) (ha : Allocated ts)
    {out : List UInt8} : Writes cfg srv.toCatEnv lookup junk inputs out ↔
      (ts.tail.map (·.contents files)).flatMap (readFrom 0) = out := by
  obtain ⟨N, hN⟩ := exists_fuel files ts.tail
  have hat : Allocated ts.tail := fun t ht => ha t (List.mem_of_mem_tail ht)
  have hrun : ∀ fuel, N ≤ fuel → ∃ s, catMain cfg srv.toCatEnv fuel lookup junk inputs = .ok s ∧
      stdout s.trace = (ts.tail.map (·.contents files)).flatMap (readFrom 0) := fun fuel hf => by
    obtain ⟨ts', s, hw, hout⟩ := walk_catTarget_ok srv hc hb 0 (s := {}) hat
      fun t ht fh hfh => (hN t ht fh hfh).trans_le hf
    exact ⟨s, by simp [catMain, hts, hw, bind, Except.bind], by simpa [stdout] using hout⟩
  constructor
  · rintro ⟨M, hM⟩
    obtain ⟨s, hs, hout⟩ := hM (max N M) (Nat.le_max_right ..)
    obtain ⟨s', hs', hout'⟩ := hrun (max N M) (Nat.le_max_left ..)
    obtain rfl : s = s' := Except.ok.inj (hs.symm.trans hs')
    exact hout'.symm.trans hout
  · rintro rfl
    exact ⟨N, hrun⟩

end

/-- **When `nfscat` writes all files.**  For lines that are all accepted, the output is the
    concatenation of the files over the targets, iff at most one file of each target is not
    empty. -/
theorem catMain_concat_iff (cfg : CatConfig) (files : Files) (srv : FileServer files)
    (lookup : CString → String → Option CString) (junk : ℕ → UInt8) (inputs : List CString)
    (hc : cfg.count = 0) (hb : UInt32.ofNat cfg.blocksize ≠ 0)
    (hacc : ∀ input ∈ inputs, ¬ NoAddress lookup input ∧ HasFields lookup input) :
    ∃ ts, parseLines lookup junk 0 0 dummyTargets inputs = .ok ts ∧
      (Writes cfg srv.toCatEnv lookup junk inputs
          (ts.tail.flatMap fun t => t.filehandles.flatMap fun fh => files.content fh.nfsFh) ↔
        ∀ t ∈ ts.tail, ((t.contents files).filter (· ≠ [])).length ≤ 1) := by
  obtain ⟨ts, hts, ha⟩ := parseLines_allocated lookup junk 0 0 dummyTargets_allocated
    fun input h => .inr (hacc input h).2
  have hconcat : (ts.tail.flatMap fun t => t.filehandles.flatMap fun fh => files.content fh.nfsFh) =
      (ts.tail.map (·.contents files)).flatMap List.flatten := by
    simp [Target.contents, List.flatMap_def, Function.comp_def]
  refine ⟨ts, hts, ?_⟩
  rw [writes_iff srv hc hb hts ha, hconcat, flatMap_readFrom_eq_iff, List.forall_mem_map]

/-- A server that returns as much as it is asked for. -/
def fullReads (files : Files) : FileServer files where
  read _ args :=
    let rest := (files.content args.file).drop args.offset.toNat
    let data := rest.take args.count.toNat
    some { count := .ofNat data.length, eof := rest.length ≤ args.count.toNat, data }
  reachable _ := rfl
  answers k args h := by
    have hpos : args.count.toNat ≠ 0 := fun h0 => h (UInt32.toNat_inj.1 h0)
    have hle := List.length_take_le args.count.toNat ((files.content args.file).drop args.offset.toNat)
    refine ⟨_, rfl, rfl, ?_, hle, ⟨List.take_prefix .., by simp [List.take_eq_self_iff]⟩, ?_⟩
    · rw [UInt32.toNat_ofNat']
      exact Nat.mod_eq_of_lt (hle.trans_lt args.count.toNat_lt)
    · simp [List.take_eq_nil_iff, hpos]

/-- Two files, with the handles of `fullLine` and `secondLine`. -/
def twoFiles : Files where
  content fh := if fh.data = [0x0a] then [1, 2] else if fh.data = [0x0b] then [3, 4] else []
  size fh := by split_ifs <;> decide

theorem catMain_concat_iff_twoFiles : ∃ ts,
    parseLines sampleLookup (fun _ => 0) 0 0 dummyTargets [fullLine, secondLine] = .ok ts ∧
      (Writes {} (fullReads twoFiles).toCatEnv sampleLookup (fun _ => 0) [fullLine, secondLine]
          (ts.tail.flatMap fun t => t.filehandles.flatMap fun fh => twoFiles.content fh.nfsFh) ↔
        ∀ t ∈ ts.tail, ((t.contents twoFiles).filter (· ≠ [])).length ≤ 1) :=
  catMain_concat_iff {} twoFiles (fullReads twoFiles) sampleLookup (fun _ => 0) [fullLine, secondLine]
    rfl (by decide) (by
      unfold NoAddress HasFields
      decide)

/-- The second of two files of a target is not read from its start. -/
theorem catMain_twoFiles :
    (∃ s, catMain {} (fullReads twoFiles).toCatEnv 3 sampleLookup (fun _ => 0) [fullLine, secondLine] =
      .ok s ∧ stdout s.trace = [1, 2]) ∧
    ¬ Writes {} (fullReads twoFiles).toCatEnv sampleLookup (fun _ => 0) [fullLine, secondLine]
      [1, 2, 3, 4] := by
  refine ⟨⟨_, rfl, by decide⟩, ?_⟩
  intro h
  rw [writes_iff _ rfl (by decide) rfl (by unfold Allocated; decide)] at h
  exact absurd h (by decide)

end NFStash
