/-
  The options of `nfsls`, and the results it stores.

  With `-C` or `-l` the time of every listing is stored, at the number of listings of its filehandle so
  far (`LsRequest.write`, and `lsFilehandle_write` for its use); the array has as many places as `-c` or
  `-C` says (`lsCount`), and none without them.  `lsWrite_iff`: a write is inside the array iff there
  is a count, or no `-l`.
-/
import NFStash.LsTimes
import NFStash.Options

namespace NFStash

open CLib Loops

/-! ## Model -/

/-- The options, with their arguments. -/
inductive LsOption where
  | a
  | A
  | b
  | c (optarg : CString)
  | C (optarg : CString)
  | d
  | g
  | h
  | H (optarg : CString)
  | k
  | l
  | L
  | m
  | M
  | q
  | S (optarg : CString)
  | t
  | T
  | v
  /-- an option that `getopt` does not know, or without its argument -/
  | unknown
deriving DecidableEq

/-- What the options set; a format of `none` is `ls_unset`, a prefix of `none` is `NONE`. -/
structure LsSettings where
  port : UInt16 := 2049
  format : Option LsFormat := none
  bytePrefix : Option BytePrefix := none
  listdir : Bool := false
  listdot : Bool := false
  displayIps : Bool := false
  loop : Bool := false
  count : ℕ := 0
  quiet : Bool := false
  hertz : ℕ := 10
  srcIp : InAddr := .any
  tcp : Bool := false
  verbose : Bool := false
deriving DecidableEq

/-- A unit for sizes. -/
def unitOption (bytePrefix : BytePrefix) (s : LsSettings) : Except OptionError LsSettings :=
  if s.bytePrefix = none then .ok { s with bytePrefix := some bytePrefix }
  else .error (.fatal "Can't specify multiple units!\n")

/-- `-c` and `-C`, each with its own name and format. -/
def lsCountOption (name : String) (format : LsFormat) (optarg : CString) (s : LsSettings) :
    Except OptionError LsSettings :=
  if s.loop then .error (bothOptions "L" name)
  else do
    let count ← countArg optarg
    .ok { s with count, format := s.format.or (some format) }

/-- The body of the loop over the options. -/
def lsOption : LsOption → LsSettings → Except OptionError LsSettings
  | .a, s => .ok { s with listdot := true }
  | .A, s => .ok { s with displayIps := true }
  | .b, s => unitOption .byte s
  | .c optarg, s => lsCountOption "c" .ping optarg s
  | .C optarg, s => lsCountOption "C" .fping optarg s
  | .d, s => .ok { s with listdir := true }
  | .g, s => unitOption .giga s
  | .h, s => unitOption .human s
  | .H optarg, s => .ok { s with hertz := strtoul optarg }
  | .k, s => unitOption .kilo s
  | .l, s => .ok { s with format := some .longform }
  | .L, s =>
    if s.count ≠ 0 then
      if s.format = some .fping then .error (bothOptions "C" "L") else .error (bothOptions "c" "L")
    else .ok { s with loop := true, format := s.format.or (some .ping) }
  | .m, s => unitOption .mega s
  | .M, s => .ok { s with port := 0 }
  | .q, s => .ok { s with quiet := true }
  | .S optarg, s =>
    match inetPton optarg with
    | some srcIp => .ok { s with srcIp }
    | none => .error (.fatal "Invalid source IP address!\n")
  | .t, s => unitOption .tera s
  | .T, s => .ok { s with tcp := true }
  | .v, s => .ok { s with verbose := true }
  | .unknown, _ => .error .usage

/-- The defaults after the options. -/
def LsSettings.defaults (s : LsSettings) : LsSettings :=
  { s with
    format := s.format.or (some .json)
    bytePrefix := s.bytePrefix.or (some .human) }

/-- What the main loop reads of the settings. -/
def LsSettings.config (s : LsSettings) : LsConfig where
  port := s.port
  format := s.format.getD .json
  listdir := s.listdir
  listdot := s.listdot
  loop := s.loop
  count := s.count
  quiet := s.quiet

/-- The configuration for a list of options. -/
def lsOptions (opts : List LsOption) : Except OptionError LsConfig := do
  let settings ← readOptions lsOption opts {}
  .ok settings.defaults.config

/-- The number of results `main` has room made for. -/
def lsCount (cfg : LsConfig) : ℕ := if cfg.format = .fping ∨ cfg.format = .longform then cfg.count else 0

/-- The place the time of a request is stored at, if it is. -/
def LsRequest.write (cfg : LsConfig) (env : LsEnv) (pages depth : ℕ) (q : LsRequest) : Option ℕ :=
  if cfg.format = .fping ∨ cfg.format = .longform then
    (q.listing cfg env pages depth).map fun _ => wrap64 (wrap64 (q.fh.sent + 1) + ULONG_MAX)
  else none

/-! ## What the options have set -/

/-- The settings after these options. -/
structure LsSet (opts : List LsOption) (s : LsSettings) : Prop where
  longform : s.format = some .longform ↔ .l ∈ opts
  count : s.count ≠ 0 ↔ ∃ n, .c n ∈ opts ∨ .C n ∈ opts
  countLt : s.count < ULONG_MAX
  loop : s.loop = true → s.count = 0
  fping : s.format = some .fping → s.count ≠ 0

section
variable {o : LsOption} {opts : List LsOption} {s s' : LsSettings} {cfg : LsConfig}

/-- An option that leaves the format, the count and the loop as they are. -/
theorem LsSet.other (h : LsSet opts s) (ho : o ≠ .l ∧ ∀ n, o ≠ .c n ∧ o ≠ .C n)
    (hformat : s'.format = s.format) (hcount : s'.count = s.count) (hloop : s'.loop = s.loop) :
    LsSet (opts ++ [o]) s' := by
  obtain ⟨hl, hn⟩ := ho
  refine ⟨?_, ?_, hcount ▸ h.countLt, ?_, ?_⟩
  · rw [hformat, h.longform, mem_concat_of_ne hl]
  · rw [hcount, h.count]
    exact exists_congr fun n => by rw [mem_concat_of_ne (hn n).1, mem_concat_of_ne (hn n).2]
  · rw [hloop, hcount]
    exact h.loop
  · rw [hformat, hcount]
    exact h.fping

theorem LsSet.unit {bytePrefix : BytePrefix} (h : LsSet opts s)
    (ho : o ≠ .l ∧ ∀ n, o ≠ .c n ∧ o ≠ .C n) (hs : unitOption bytePrefix s = .ok s') :
    LsSet (opts ++ [o]) s' := by
  unfold unitOption at hs
  split_ifs at hs
  obtain rfl := Except.ok.inj hs
  exact h.other ho rfl rfl rfl

theorem LsSet.counted {name : String} {format : LsFormat} {optarg : CString} (h : LsSet opts s)
    (ho : o = .c optarg ∨ o = .C optarg) (hformat : format ≠ .longform)
    (hs : lsCountOption name format optarg s = .ok s') : LsSet (opts ++ [o]) s' := by
  simp only [lsCountOption] at hs
  split_ifs at hs with hloop
  obtain ⟨count, hcount, hs⟩ := bind_eq_ok.1 hs
  obtain rfl := Except.ok.inj hs
  obtain ⟨hne, hlt⟩ := countArg_ok hcount
  have hl : o ≠ .l := by
    rcases ho with rfl | rfl
    · simp
    · simp
  refine ⟨?_, ?_, hlt, ?_, fun _ => hne⟩
  · rw [mem_concat_of_ne hl, ← h.longform]
    cases hf : s.format with
    | none => simp [hformat]
    | some f => simp
  · refine iff_of_true hne ⟨optarg, ?_⟩
    rcases ho with rfl | rfl
    · exact .inl (by simp)
    · exact .inr (by simp)
  · intro hl
    exact absurd hl hloop

/-- **One option.** -/
theorem LsSet.option (h : LsSet opts s) (hs : lsOption o s = .ok s') : LsSet (opts ++ [o]) s' := by
  cases o with
  | b | g | h | k | m | t => exact h.unit (by simp) hs
  | c optarg => exact h.counted (.inl rfl) (by simp) hs
  | C optarg => exact h.counted (.inr rfl) (by simp) hs
  | l =>
    obtain rfl := Except.ok.inj hs
    refine ⟨by simp, ?_, h.countLt, h.loop, by simp⟩
    rw [h.count]
    simp
  | L =>
    simp only [lsOption] at hs
    split_ifs at hs with hcount
    · obtain rfl := Except.ok.inj hs
      have hzero : s.count = 0 := not_not.1 hcount
      refine ⟨?_, ?_, h.countLt, fun _ => hzero, ?_⟩
      · rw [mem_concat_of_ne (by simp), ← h.longform]
        cases s.format with
        | none => simp
        | some f => simp
      · rw [h.count]
        simp
      · cases hf : s.format with
        | none => simp
        | some f =>
          intro hfping
          exact h.fping (hf.trans hfping)
  | S optarg =>
    simp only [lsOption] at hs
    cases hip : inetPton optarg with
    | none => simp [hip] at hs
    | some srcIp =>
      simp only [hip] at hs
      obtain rfl := Except.ok.inj hs
      exact h.other (by simp) rfl rfl rfl
  | unknown => cases hs
  | _ =>
    obtain rfl := Except.ok.inj hs
    exact h.other (by simp) rfl rfl rfl

theorem lsOptions_set (h : lsOptions opts = .ok cfg) : ∃ s, LsSet opts s ∧ cfg = s.defaults.config := by
  obtain ⟨s, hs, h⟩ := bind_eq_ok.1 h
  have hset : LsSet opts s := by
    refine readOptions_inv (P := LsSet) (fun done o s s' hd ho => hd.option ho) ?_ hs
    exact ⟨by simp, by simp, by decide, by simp, by simp⟩
  exact ⟨s, hset, (Except.ok.inj h).symm⟩

/-- `-l` wins over every other format. -/
theorem lsOptions_longform (h : lsOptions opts = .ok cfg) : cfg.format = .longform ↔ .l ∈ opts := by
  obtain ⟨s, hs, rfl⟩ := lsOptions_set h
  rw [← hs.longform]
  cases hf : s.format with
  | none => simp [LsSettings.defaults, LsSettings.config, hf]
  | some f => simp [LsSettings.defaults, LsSettings.config, hf]

theorem lsOptions_count (h : lsOptions opts = .ok cfg) :
    (cfg.count ≠ 0 ↔ ∃ n, .c n ∈ opts ∨ .C n ∈ opts) ∧ cfg.count < ULONG_MAX ∧
      (cfg.loop = true → cfg.count = 0) := by
  obtain ⟨s, hs, rfl⟩ := lsOptions_set h
  exact ⟨hs.count, hs.countLt, hs.loop⟩

theorem lsOptions_fping (h : lsOptions opts = .ok cfg) (hf : cfg.format = .fping) : cfg.count ≠ 0 := by
  obtain ⟨s, hs, rfl⟩ := lsOptions_set h
  refine hs.fping ?_
  cases hformat : s.format with
  | none => simp [LsSettings.defaults, LsSettings.config, hformat] at hf
  | some f => simpa [LsSettings.defaults, LsSettings.config, hformat] using hf

end

/-! ## What the rounds write -/

section
variable {cfg : LsConfig} {env : LsEnv} {pages depth n i j : ℕ} {q : LsRequest} {s s' s₀ : LsState}

theorem lsStore_ok_iff {st : Stats} {usec : ℕ} : (∃ st', lsStore cfg st usec = .ok st') ↔
    (cfg.format = .fping ∨ cfg.format = .longform →
      wrap64 (st.sent + ULONG_MAX) < st.results.length) := by
  unfold lsStore
  by_cases hf : cfg.format = .fping ∨ cfg.format = .longform
  · rw [if_pos hf, Stats.store, exists_bind_eq_ok]
    simp only [hf, true_implies, storeAt]
    split_ifs with hlt
    · exact iff_of_true ⟨_, rfl, _, rfl⟩ hlt
    · exact iff_of_false (by simp) hlt
  · rw [if_neg hf]
    exact iff_of_true ⟨st, rfl⟩ fun h => absurd h hf

/-- **A write outside the array** is what a listing that returns can fault at. -/
theorem lsFilehandle_write {l : Listing} (hpath : cfg.listdir = true ∨ q.fh.path ≠ [])
    (hlt : q.fh.path.length < MNTPATHLEN) (hl : q.listing cfg env pages depth = some l) :
    (∃ r, lsFilehandle cfg env pages depth q.index q.fh (q.target, q.run) = .ok r) ↔
      ∀ k ∈ q.write cfg env pages depth, k < q.fh.results.length := by
  have hin : ¬ (cfg.listdir = false ∧ q.fh.path = []) := by
    rintro ⟨hdir, hnil⟩
    rcases hpath with h | h
    · rw [hdir] at h
      cases h
    · exact h hnil
  have hproc : KeepsStats ((chooseProc cfg q.fh.path).call cfg env q.target.name pages depth) :=
    call_keepsStats _
  have hkeeps := hproc q.fh q.run.trace
  rw [LsRequest.write, hl]
  simp only [LsRequest.listing, LsRequest.result] at hl
  unfold lsFilehandle
  rw [if_neg hin, if_neg (ne_true_of_eq_false (pathOverrun_of_lt hlt))]
  generalize LsProc.call _ _ _ _ _ _ _ _ = r at hl hkeeps ⊢
  rcases r with ⟨f | ⟨es, fh⟩, tr⟩
  · cases hl
  · have hstats : fh.toStats = q.fh.toStats := hkeeps es fh rfl
    have hstore : (∃ r, lsRecord cfg env es fh q.target { q.run with trace := tr } = .ok r) ↔
        ∃ st, lsStore cfg ((fh.toStats.count !es.isEmpty).time (env.usec tr.length))
          (env.usec tr.length) = .ok st := by
      simp only [lsRecord, exists_bind_eq_ok]
      exact exists_congr fun st => ⟨fun h => h.1, fun h => ⟨h, _, rfl⟩⟩
    refine hstore.trans (lsStore_ok_iff.trans ?_)
    rw [hstats]
    by_cases hf : cfg.format = .fping ∨ cfg.format = .longform
    · simp [hf, Stats.time, Stats.count]
    · simp [hf]

/-- The filehandle of a request is that of the state its round starts from. -/
theorem mem_roundRequests (h : q ∈ roundRequests cfg env pages depth s) :
    ∃ i j, s.fhAt i j = some q.fh := by
  obtain ⟨⟨i, t, run⟩, hstep, hq⟩ := List.mem_flatMap.1 h
  obtain ⟨k, -, ht⟩ := mem_steps hstep
  simp only [targetRequests] at hq
  split at hq
  · obtain ⟨⟨j, fh, target, run'⟩, hstep', rfl⟩ := List.mem_map.1 hq
    obtain ⟨m, -, hfh⟩ := mem_steps hstep'
    exact ⟨k, m, Option.bind_eq_some_iff.2 ⟨t, ht, hfh⟩⟩
  · cases hq

/-- The number of listings, and the room for their times. -/
structure Stored (count m : ℕ) (s : Stats) : Prop where
  sent : s.sent = wrap64 m
  length : s.results.length = count

theorem Stored.list {count m : ℕ} {l : Listing} {st st' : Stats} (h : Stored count m st)
    (hl : st.list cfg l = .ok st') : Stored count (m + 1) st' := by
  have hsent : wrap64 (st.sent + 1) = wrap64 (m + 1) := by simp [h.sent, wrap64]
  obtain ⟨results, rfl, hlength⟩ := list_ok hl
  exact ⟨hsent, hlength.trans h.length⟩

/-- **After any number of rounds** every filehandle of the input has been listed as often. -/
theorem rounds_stored {lookup : CString → String → Option CString} {junk : ℕ → UInt8}
    {inputs : List CString} {count : ℕ} {ts : List Target} {fh : NfsFhList}
    (hparse : parseLines lookup junk cfg.port count dummyTargets inputs = .ok ts)
    (h : rounds (lsRound cfg env pages depth) n 0 { targets := ts.tail } = .ok s)
    (hfh : s.fhAt i j = some fh) : Stored count n fh.toStats := by
  obtain ⟨fh₀, hfh₀⟩ := rounds_fhAt_before h hfh
  have hlength := listings_length hfh₀ h
  obtain ⟨fh', hfh', hstored⟩ := rounds_listed (P := fun hs st => Stored count hs.length st)
    (fun hs l st st' hst hl => by
      rw [List.length_append, List.length_singleton]
      exact hst.list hl) hfh₀
    (by
      rw [parseLines_fhAt hparse hfh₀]
      exact ⟨rfl, by simp [nfsFhListNew]⟩) h
  obtain rfl := Option.some.inj (hfh'.symm.trans hfh)
  rwa [hlength] at hstored

/-- Another round is asked for below the count only. -/
theorem lsMore_true {ts : List Target} {events : ℕ} (h : lsMore cfg env ts events = .ok true)
    (hloop : cfg.loop = false) :
    ∃ t rest fh fhs, ts = t :: rest ∧ t.filehandles = fh :: fhs ∧ fh.sent < cfg.count := by
  simp only [lsMore, hloop, Bool.false_eq_true, if_false] at h
  split_ifs at h
  · cases h
  · cases h
  · rcases ts with _ | ⟨t, rest⟩
    · cases h
    · rcases hfhs : t.filehandles with _ | ⟨fh, fhs⟩
      · simp [hfhs] at h
      · simp only [hfhs, Except.ok.injEq, decide_eq_true_eq] at h
        exact ⟨t, rest, fh, fhs, rfl, hfhs, h⟩

theorem lsRound_more (h : lsRound cfg env pages depth n s = .ok s') (hmore : s'.more = true)
    (hloop : cfg.loop = false) : ∃ fh, s'.fhAt 0 0 = some fh ∧ fh.sent < cfg.count := by
  obtain ⟨targets, run, more, -, htest, rfl⟩ := lsRound_ok h
  obtain rfl : more = true := hmore
  obtain ⟨t, rest, fh, fhs, rfl, hfhs, hlt⟩ := lsMore_true htest hloop
  exact ⟨fh, by simp [LsState.fhAt, hfhs], hlt⟩

end

/-- **When the results are inside their array.**  In every run, any time that is stored for a request
    goes to a place inside the array of its filehandle, iff there is a `-c` or `-C` with every `-l`. -/
theorem lsWrite_iff (opts : List LsOption) (cfg : LsConfig) (hopts : lsOptions opts = .ok cfg)
    (env : LsEnv) (pages depth : ℕ) (lookup : CString → String → Option CString) (junk : ℕ → UInt8)
    (inputs : List CString) (ts : List Target)
    (hparse : parseLines lookup junk cfg.port (lsCount cfg) dummyTargets inputs = .ok ts) (n : ℕ)
    (s : LsState) (hpolls : Polls (lsRound cfg env pages depth) (fun _ s => s.more) n
      { targets := ts.tail } s) (q : LsRequest) (hq : q ∈ roundRequests cfg env pages depth s) (k : ℕ)
    (hk : q.write cfg env pages depth = some k) :
    k < q.fh.results.length ↔ (.l ∈ opts → ∃ optarg, .c optarg ∈ opts ∨ .C optarg ∈ opts) := by
  obtain ⟨hcount, hlt, hloop⟩ := lsOptions_count hopts
  rw [← lsOptions_longform hopts, ← hcount]
  obtain ⟨i, j, hfh⟩ := mem_roundRequests hq
  have hstored := rounds_stored hparse hpolls.1 hfh
  unfold LsRequest.write at hk
  split_ifs at hk with hf
  obtain ⟨l, -, rfl⟩ := Option.map_eq_some_iff.1 hk
  have hindex : wrap64 (wrap64 (q.fh.sent + 1) + ULONG_MAX) = wrap64 n := by
    rw [hstored.sent]
    simp only [wrap64, ULONG_MAX]
    omega
  rw [hindex, hstored.length, lsCount, if_pos hf]
  constructor
  · intro hn _ hzero
    rw [hzero] at hn
    exact Nat.not_lt_zero _ hn
  · intro h
    have hne : cfg.count ≠ 0 := hf.elim (lsOptions_fping hopts) h
    have hnoloop : cfg.loop = false := Bool.eq_false_iff.2 fun hl => hne (hloop hl)
    cases n with
    | zero => exact Nat.pos_of_ne_zero hne
    | succ n =>
      obtain ⟨u, -, hround, hmore⟩ := polls_succ.1 hpolls
      obtain ⟨fh, hfh₀, hsent⟩ := lsRound_more hround hmore hnoloop
      rwa [(rounds_stored hparse hpolls.1 hfh₀).sent] at hsent

/-- `-l -c 1`. -/
def listOnce : List LsOption := [.l, .c ['1']]

def listOnceConfig : LsConfig where
  format := .longform
  count := 1

theorem lsWrite_iff_listOnce : ∃ ts q, lsOptions listOnce = .ok listOnceConfig ∧
    parseLines sampleLookup (fun _ => 0) 2049 (lsCount listOnceConfig) dummyTargets [fullLine] = .ok ts ∧
    q ∈ roundRequests listOnceConfig oneFile 1 2 { targets := ts.tail } ∧
    (0 < q.fh.results.length ↔
      (.l ∈ listOnce → ∃ optarg, .c optarg ∈ listOnce ∨ .C optarg ∈ listOnce)) :=
  ⟨[{}, fullTarget 1], _, rfl, parse_fullLine 1, List.mem_singleton_self _,
    lsWrite_iff listOnce listOnceConfig rfl oneFile 1 2 sampleLookup (fun _ => 0) [fullLine] _
      (parse_fullLine 1) 0 { targets := [fullTarget 1] } (polls_zero.2 rfl) _
      (List.mem_singleton_self _) 0 rfl⟩

/-- `nfsls -l` stores its first time in an array without any places. -/
theorem lsWrite_longform : ∃ cfg ts q, lsOptions [.l] = .ok cfg ∧
    parseLines sampleLookup (fun _ => 0) 2049 (lsCount cfg) dummyTargets [fullLine] = .ok ts ∧
    q ∈ roundRequests cfg oneFile 1 2 { targets := ts.tail } ∧
    q.write cfg oneFile 1 2 = some 0 ∧ q.fh.results.length = 0 ∧
    lsRound cfg oneFile 1 2 0 { targets := ts.tail } = .error .outOfBounds :=
  ⟨{ format := .longform }, [{}, fullTarget 0], _, rfl, parse_fullLine 0, List.mem_singleton_self _,
    rfl, rfl, rfl⟩

end NFStash
