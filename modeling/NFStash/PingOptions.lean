/-
  The options of `nfsping`, and its dispatch table.

  The null procedure is looked up in `null_dispatch`, by the number of the program and by the version,
  which `-V` takes as it is.  The table has rows of five elements one after the other, so a version
  from 5 on leads into another row, or out of the table (`nullDispatchAt`).
  `pingDispatch_iff` says which versions do no harm.
-/
import NFStash.Options
import NFStash.Ping
import NFStash.Rpc

namespace NFStash

open CLib Loops

/-! ## `null_dispatch` -/

/-- The null procedures. -/
inductive NullProc where
  | mountprocNull1
  | mountprocNull3
  | pmapprocNull2
  | klmNull1
  | nlmNull3
  | nlm4Null4
  | nfsprocNull2
  | nfsproc3Null3
  | nfsproc4Null4
  | aclproc2Null2
  | aclproc3Null3
  | smNull1
  | rquotaprocNull1
deriving DecidableEq

/-- `struct null_procs`. -/
structure NullProcs where
  proc : NullProc
  name : String
  protocol : String
  version : ℕ
deriving DecidableEq

/-- A designated initializer: the value of the columns from `first` to `last` of a row. -/
structure Designated where
  row : ℕ
  first : ℕ
  last : ℕ
  value : NullProcs

def nullDispatch : List Designated := [
  ⟨MOUNTPROG - 100000, 2, 2, ⟨.mountprocNull1, "mountproc_null_1", "mountv1", 1⟩⟩,
  ⟨MOUNTPROG - 100000, 3, 3, ⟨.mountprocNull3, "mountproc_null_3", "mountv3", 3⟩⟩,
  ⟨PMAPPROG - 100000, 2, 4, ⟨.pmapprocNull2, "pmapproc_null_2", "portmap", 2⟩⟩,
  ⟨KLM_PROG - 100000, 2, 3, ⟨.klmNull1, "klm_null_1", "klm", 1⟩⟩,
  ⟨NLM_PROG - 100000, 2, 2, ⟨.nlmNull3, "nlm_null_3", "nlmv3", 3⟩⟩,
  ⟨NLM_PROG - 100000, 3, 3, ⟨.nlm4Null4, "nlm4_null_4", "nlmv4", 4⟩⟩,
  ⟨NFS_PROGRAM - 100000, 2, 2, ⟨.nfsprocNull2, "nfsproc_null_2", "nfsv2", 2⟩⟩,
  ⟨NFS_PROGRAM - 100000, 3, 3, ⟨.nfsproc3Null3, "nfsproc3_null_3", "nfsv3", 3⟩⟩,
  ⟨NFS_PROGRAM - 100000, 4, 4, ⟨.nfsproc4Null4, "nfsproc4_null_4", "nfsv4", 4⟩⟩,
  ⟨NFS_ACL_PROGRAM - 100000, 2, 2, ⟨.aclproc2Null2, "aclproc2_null_2", "nfs_aclv2", 2⟩⟩,
  ⟨NFS_ACL_PROGRAM - 100000, 3, 3, ⟨.aclproc3Null3, "aclproc3_null_3", "nfs_aclv3", 3⟩⟩,
  ⟨SM_PROG - 100000, 2, 2, ⟨.smNull1, "sm_null_1", "status", 1⟩⟩,
  ⟨SM_PROG - 100000, 3, 3, ⟨.smNull1, "sm_null_1", "status", 1⟩⟩,
  ⟨RQUOTAPROG - 100000, 2, 4, ⟨.rquotaprocNull1, "rquotaproc_null_1", "rquotaproc_null_1", 1⟩⟩]

/-- The length of the array: up to its last row. -/
def nullDispatchRows : ℕ := (nullDispatch.map (·.row)).foldl max 0 + 1

/-- The element in a row and a column; the others are zero. -/
def nullDispatchGet (row col : ℕ) : Option NullProcs :=
  (nullDispatch.find? fun d => d.row = row ∧ d.first ≤ col ∧ col ≤ d.last).map (·.value)

/-- `null_dispatch[row][col]`: the rows have five elements each, one after the other, and the column is
    not checked. -/
def nullDispatchAt (row col : ℕ) : Except Fault (Option NullProcs) :=
  let place := 5 * row + col
  if place < 5 * nullDispatchRows then .ok (nullDispatchGet (place / 5) (place % 5))
  else .error .outOfBounds

/-- A place of the array that an initializer is for. -/
def Designated.Covers (d : Designated) (place : ℕ) : Prop :=
  5 * d.row + d.first ≤ place ∧ place ≤ 5 * d.row + d.last

instance (d : Designated) (place : ℕ) : Decidable (d.Covers place) := inferInstanceAs (Decidable (_ ∧ _))

/-! ## Options -/

/-- The options, with their arguments. -/
inductive PingOption where
  | a
  | A
  | c (optarg : CString)
  | C (optarg : CString)
  | d
  | D
  | E
  | g (optarg : CString)
  | G
  | h
  | H (optarg : CString)
  | i (optarg : CString)
  | K
  | l
  | L
  | m
  | M
  | n
  | N
  | P (optarg : CString)
  | q
  | Q (optarg : CString)
  | R
  | s
  | S (optarg : CString)
  | t (optarg : CString)
  | T
  | u
  | v
  | V (optarg : CString)
  /-- an option that `getopt` does not know, or without its argument -/
  | unknown
deriving DecidableEq

def NFS_PORT : UInt16 := 2049

/-- What the options set; a format of `none` is `ping_unset`, the times are in milliseconds. -/
structure PingSettings where
  prognum : ℕ := NFS_PROGRAM
  version : ℕ := 3
  format : Option PingFormat := none
  namePrefix : CString := "nfsping".toList
  port : UInt16 := NFS_PORT
  count : ℕ := 0
  loop : Bool := false
  quiet : Bool := false
  multiple : Bool := false
  reverseDns : Bool := false
  displayIps : Bool := false
  summaryInterval : ℕ := 0
  hertz : ℕ := 10
  waitTime : ℕ := 1
  timeout : ℕ := 1000
  reconnect : Bool := true
  srcIp : InAddr := .any
  tcp : Bool := false
  verbose : Bool := false
deriving DecidableEq

/-- The option for a format. -/
def PingFormat.option : PingFormat → String
  | .ping => "c"
  | .fping => "C"
  | .unixtime => "D"
  | .statsd => "E"
  | .graphite => "G"

/-- An option for a protocol. -/
def protocolOption (prognum : ℕ) (s : PingSettings) : Except OptionError PingSettings :=
  if s.prognum = NFS_PROGRAM then .ok { s with prognum } else .error (.fatal "Only one protocol!\n")

/-- `-D`, `-E` and `-G`. -/
def formatOption (format : PingFormat) (s : PingSettings) : Except OptionError PingSettings :=
  match s.format with
  | none | some .ping => .ok { s with format := some format }
  | some f => if f = format then .ok s else .error (bothOptions f.option format.option)

/-- `-c` and `-C`. -/
def pingCount (optarg : CString) (s : PingSettings) : Except OptionError PingSettings := do
  let count ← countArg optarg
  .ok { s with count }

/-- The body of the loop over the options. -/
def pingOption : PingOption → PingSettings → Except OptionError PingSettings
  | .a, s => protocolOption NFS_ACL_PROGRAM s
  | .A, s =>
    if s.reverseDns then
      if s.multiple then .ok { s with displayIps := false } else .error (bothOptions "d" "A")
    else .ok { s with displayIps := true }
  | .C optarg, s =>
    if s.loop then .error (bothOptions "l" "C")
    else match s.format with
      | none | some .fping => pingCount optarg { s with format := some .fping }
      | some f => .error (bothOptions f.option "C")
  | .c optarg, s =>
    if s.loop then .error (bothOptions "l" "c")
    else match s.format with
      | none => pingCount optarg { s with format := some .ping }
      | some .fping => .error (bothOptions "C" "c")
      | some _ => pingCount optarg s
  | .d, s =>
    if s.displayIps then
      if s.multiple then .ok { s with displayIps := false, reverseDns := true }
      else .error (bothOptions "A" "d")
    else .ok { s with reverseDns := true }
  | .D, s => formatOption .unixtime s
  | .E, s => formatOption .statsd s
  | .g optarg, s => .ok { s with namePrefix := strncpy 255 optarg }
  | .G, s => formatOption .graphite s
  | .H optarg, s =>
    let hertz := strtoul optarg
    if hertz = 0 then .error (.fatal "Invalid frequency for -H!\n") else .ok { s with hertz }
  | .i optarg, s => .ok { s with waitTime := strtoul optarg }
  | .K, s => protocolOption KLM_PROG s
  | .l, s =>
    if s.count ≠ 0 then match s.format with
      | some .ping | some .unixtime => .error (bothOptions "c" "l")
      | some .fping => .error (bothOptions "C" "l")
      | _ => .error (.fatal "Can't loop and count!\n")
    else .ok { s with loop := true }
  | .L, s => protocolOption NLM_PROG s
  | .m, s => .ok { s with multiple := true, displayIps := if s.reverseDns then s.displayIps else true }
  | .M, s =>
    if s.prognum = PMAPPROG then .error (.fatal "Portmap can't use portmapper!\n")
    else if s.port = NFS_PORT then .ok { s with port := 0 }
    else .error (.fatal "Can't specify both port and portmapper!\n")
  | .n, s => protocolOption MOUNTPROG s
  | .N, s =>
    if s.port = 0 then .error (.fatal "Portmap can't use portmapper!\n")
    else protocolOption PMAPPROG { s with port := PMAPPORT }
  | .P optarg, s =>
    if s.port = 0 then .error (.fatal "Can't specify both port and portmapper!\n")
    else .ok { s with port := .ofNat (strtoul optarg) }
  | .q, s => .ok { s with quiet := true }
  | .Q optarg, s =>
    -- the interval is an `unsigned int`
    let summaryInterval := wrap32 (strtoul optarg)
    if summaryInterval = 0 then .error (.fatal "Invalid interval for -Q!\n")
    else .ok { s with quiet := true, summaryInterval }
  | .R, s => .ok { s with reconnect := false }
  | .s, s => protocolOption SM_PROG s
  | .S optarg, s =>
    match inetPton optarg with
    | some srcIp => .ok { s with srcIp }
    | none => .error (.fatal "Invalid source IP address!\n")
  | .t optarg, s =>
    let timeout := strtoul optarg
    if timeout = 0 then .error (.fatal "Zero timeout!\n") else .ok { s with timeout }
  | .T, s => .ok { s with tcp := true }
  | .u, s => protocolOption RQUOTAPROG s
  | .v, s => .ok { s with verbose := true }
  | .V optarg, s =>
    let version := strtoul optarg
    if version = 0 ∨ version = ULONG_MAX then
      .error (.fatal ("Illegal version " ++ toString version ++ "\n"))
    else .ok { s with version }
  | .h, _ | .unknown, _ => .error .usage

/-- The defaults after the options. -/
def PingSettings.defaults (s : PingSettings) : PingSettings :=
  { s with
    format := s.format.or (some .ping)
    loop := s.loop || s.count = 0 }

/-- The settings for a list of options, with an interval that a summary comes in. -/
def pingOptions (opts : List PingOption) : Except OptionError PingSettings := do
  let s ← readOptions pingOption opts {}
  let s := s.defaults
  if s.count ≠ 0 ∧ s.count ≤ wrap64 (s.hertz * s.summaryInterval) then
    .error (.fatal "Interval (-Q) too small for count!\n")
  else .ok s

/-- The null procedure of the program, if there is one for the version. -/
def PingSettings.dispatch (s : PingSettings) : Except Fault (Except OptionError NullProcs) := do
  match ← nullDispatchAt (s.prognum - 100000) s.version with
  | some procs => .ok (.ok procs)
  | none => .ok (.error (.fatal ("Illegal version " ++ toString s.version ++ "\n")))

/-- The port, if it has not been set: that of the portmapper, or the one it gives. -/
def PingSettings.defaultPort (s : PingSettings) : UInt16 :=
  if s.port ≠ NFS_PORT then s.port
  else if s.prognum = NFS_PROGRAM ∨ s.prognum = NFS_ACL_PROGRAM then s.port
  else if s.prognum = PMAPPROG then PMAPPORT
  else 0

/-- What the main loop reads of the settings. -/
def PingSettings.config (s : PingSettings) : PingConfig where
  port := s.defaultPort
  format := s.format.getD .ping
  count := s.count
  loop := s.loop
  quiet := s.quiet
  hertz := s.hertz
  waitTime := s.waitTime
  summaryInterval := s.summaryInterval
  reconnect := s.reconnect
  multiple := s.multiple
  reverseDns := s.reverseDns
  displayIps := s.displayIps

/-- The version is illegal, or there is a procedure for it in the row of the program. -/
def DispatchRight (s : PingSettings) : Prop :=
  s.dispatch = .ok (.error (.fatal ("Illegal version " ++ toString s.version ++ "\n"))) ∨
    ∃ procs, s.dispatch = .ok (.ok procs) ∧ s.version < 5 ∧
      nullDispatchGet (s.prognum - 100000) s.version = some procs

/-! ## Places -/

section
variable {row col place : ℕ}

example : nullDispatchRows = 228 := by decide

/-- A column of the row. -/
theorem nullDispatchAt_col (hrow : row < nullDispatchRows) (hcol : col < 5) :
    nullDispatchAt row col = .ok (nullDispatchGet row col) := by
  have hplace : 5 * row + col < 5 * nullDispatchRows := by omega
  have hdiv : (5 * row + col) / 5 = row := by omega
  have hmod : (5 * row + col) % 5 = col := by omega
  simp only [nullDispatchAt, if_pos hplace, hdiv, hmod]

theorem designated_last : ∀ d ∈ nullDispatch, d.last < 5 := by decide

/-- A place that no initializer is for. -/
theorem nullDispatchGet_eq_none : nullDispatchGet (place / 5) (place % 5) = none ↔
    ∀ d ∈ nullDispatch, ¬ d.Covers place := by
  rw [nullDispatchGet, Option.map_eq_none_iff, List.find?_eq_none]
  refine forall₂_congr fun d hd => not_congr ?_
  have hlast := designated_last d hd
  rw [decide_eq_true_iff, Designated.Covers]
  omega

/-! ## Programs -/

variable {o : PingOption} {opts : List PingOption} {s s' : PingSettings}

/-- The program is one of those in the table. -/
def PingSettings.Tabled (s : PingSettings) : Prop := ∃ d ∈ nullDispatch, s.prognum = 100000 + d.row

/-- **What an option may set**: the program to one of the table, the count to one that is accepted, the
    frequency to one that is not 0, and the interval to an `unsigned int`. -/
structure PingOptionSets (s s' : PingSettings) : Prop where
  prognum : s'.prognum = s.prognum ∨ ∃ d ∈ nullDispatch, s'.prognum = 100000 + d.row
  count : s'.count = s.count ∨ ∃ optarg, countArg optarg = .ok s'.count
  hertz : s'.hertz = s.hertz ∨ s'.hertz ≠ 0
  interval : s'.summaryInterval = s.summaryInterval ∨ s'.summaryInterval < 2 ^ 32

theorem protocolOption_sets {prognum : ℕ} (hprog : ∃ d ∈ nullDispatch, prognum = 100000 + d.row)
    (h : protocolOption prognum s = .ok s') : PingOptionSets s s' := by
  unfold protocolOption at h
  split_ifs at h
  obtain rfl := Except.ok.inj h
  exact ⟨.inr hprog, .inl rfl, .inl rfl, .inl rfl⟩

theorem formatOption_sets {format : PingFormat} (h : formatOption format s = .ok s') :
    PingOptionSets s s' := by
  unfold formatOption at h
  split at h
  · obtain rfl := Except.ok.inj h
    exact ⟨.inl rfl, .inl rfl, .inl rfl, .inl rfl⟩
  · obtain rfl := Except.ok.inj h
    exact ⟨.inl rfl, .inl rfl, .inl rfl, .inl rfl⟩
  · split_ifs at h
    obtain rfl := Except.ok.inj h
    exact ⟨.inl rfl, .inl rfl, .inl rfl, .inl rfl⟩

theorem pingCount_sets {optarg : CString} {t : PingSettings} (h : pingCount optarg t = .ok s')
    (hprog : t.prognum = s.prognum) (hhertz : t.hertz = s.hertz)
    (hinterval : t.summaryInterval = s.summaryInterval) : PingOptionSets s s' := by
  obtain ⟨count, hcount, h⟩ := bind_eq_ok.1 h
  obtain rfl := Except.ok.inj h
  exact ⟨.inl hprog, .inr ⟨optarg, hcount⟩, .inl hhertz, .inl hinterval⟩

/-- **One option.** -/
theorem pingOption_sets (h : pingOption o s = .ok s') : PingOptionSets s s' := by
  cases o with
  | a | K | L | n | s | u => exact protocolOption_sets (by decide) h
  | N =>
    simp only [pingOption] at h
    split_ifs at h
    obtain ⟨hprog, hcount, hhertz, hinterval⟩ :=
      protocolOption_sets (by decide : ∃ d ∈ nullDispatch, PMAPPROG = 100000 + d.row) h
    exact ⟨hprog, hcount, hhertz, hinterval⟩
  | D | E | G => exact formatOption_sets h
  | C optarg =>
    simp only [pingOption] at h
    split_ifs at h
    split at h
    · exact pingCount_sets h rfl rfl rfl
    · exact pingCount_sets h rfl rfl rfl
    · cases h
  | c optarg =>
    simp only [pingOption] at h
    split_ifs at h
    split at h
    · exact pingCount_sets h rfl rfl rfl
    · cases h
    · exact pingCount_sets h rfl rfl rfl
  | l =>
    simp only [pingOption] at h
    split_ifs at h
    · split at h
      · cases h
      · cases h
      · cases h
      · cases h
    · obtain rfl := Except.ok.inj h
      exact ⟨.inl rfl, .inl rfl, .inl rfl, .inl rfl⟩
  | S optarg =>
    simp only [pingOption] at h
    split at h
    · obtain rfl := Except.ok.inj h
      exact ⟨.inl rfl, .inl rfl, .inl rfl, .inl rfl⟩
    · cases h
  | h => cases h
  | unknown => cases h
  | H optarg =>
    simp only [pingOption] at h
    split_ifs at h with hzero
    obtain rfl := Except.ok.inj h
    exact ⟨.inl rfl, .inl rfl, .inr hzero, .inl rfl⟩
  | Q optarg =>
    simp only [pingOption] at h
    split_ifs at h
    obtain rfl := Except.ok.inj h
    exact ⟨.inl rfl, .inl rfl, .inl rfl, .inr (Nat.mod_lt _ (by decide))⟩
  | A | d | M | P | t | V =>
    simp only [pingOption] at h
    split_ifs at h
    all_goals
      obtain rfl := Except.ok.inj h
      exact ⟨.inl rfl, .inl rfl, .inl rfl, .inl rfl⟩
  | g | i | m | q | R | T | v =>
    obtain rfl := Except.ok.inj h
    exact ⟨.inl rfl, .inl rfl, .inl rfl, .inl rfl⟩

theorem pingOption_tabled (hs : s.Tabled) (h : pingOption o s = .ok s') : s'.Tabled := by
  rcases (pingOption_sets h).prognum with heq | htabled
  · obtain ⟨d, hd, hprog⟩ := hs
    exact ⟨d, hd, heq.trans hprog⟩
  · exact htabled

/-- The count of the settings is that of an option, or none. -/
theorem readOptions_count (h : readOptions pingOption opts {} = .ok s) : s.count < ULONG_MAX :=
  readOptions_inv (P := fun _ s => s.count < ULONG_MAX) (fun _ _ _ _ hs hstep => by
    rcases (pingOption_sets hstep).count with heq | ⟨optarg, hcount⟩
    · rw [heq]
      exact hs
    · exact (countArg_ok hcount).2) (by decide) h

theorem readOptions_hertz (h : readOptions pingOption opts {} = .ok s) : s.hertz ≠ 0 :=
  readOptions_inv (P := fun _ s => s.hertz ≠ 0) (fun _ _ _ _ hs hstep => by
    rcases (pingOption_sets hstep).hertz with heq | hne
    · rw [heq]
      exact hs
    · exact hne) (by decide) h

theorem readOptions_interval (h : readOptions pingOption opts {} = .ok s) : s.summaryInterval < 2 ^ 32 :=
  readOptions_inv (P := fun _ s => s.summaryInterval < 2 ^ 32) (fun _ _ _ _ hs hstep => by
    rcases (pingOption_sets hstep).interval with heq | hlt
    · rw [heq]
      exact hs
    · exact hlt) (by decide) h

theorem pingOptions_tabled (h : pingOptions opts = .ok s) : s.Tabled := by
  unfold pingOptions at h
  obtain ⟨s₁, h₁, h⟩ := bind_eq_ok.1 h
  dsimp only at h
  split_ifs at h
  obtain rfl := Except.ok.inj h
  exact readOptions_inv (P := fun _ s => s.Tabled) (fun _ _ _ _ hs hstep => pingOption_tabled hs hstep)
    (by decide : ∃ d ∈ nullDispatch, NFS_PROGRAM = 100000 + d.row) h₁

theorem PingSettings.Tabled.row_lt (h : s.Tabled) : s.prognum - 100000 < nullDispatchRows := by
  obtain ⟨d, hd, hprog⟩ := h
  rw [hprog, Nat.add_sub_cancel_left]
  exact (by decide : ∀ d ∈ nullDispatch, d.row < nullDispatchRows) d hd

end

/-- **Which versions do no harm**: those below 5, and those that lead to a place of the table that is
    empty. -/
theorem pingDispatch_iff (opts : List PingOption) (s : PingSettings) (h : pingOptions opts = .ok s) :
    DispatchRight s ↔ s.version < 5 ∨
      5 * (s.prognum - 100000) + s.version < 5 * nullDispatchRows ∧
        ∀ d ∈ nullDispatch, ¬ d.Covers (5 * (s.prognum - 100000) + s.version) := by
  have hrow := (pingOptions_tabled h).row_lt
  generalize hprog : s.prognum - 100000 = row at hrow ⊢
  by_cases hlt : s.version < 5
  · refine iff_of_true ?_ (.inl hlt)
    unfold DispatchRight PingSettings.dispatch
    rw [hprog, nullDispatchAt_col hrow hlt]
    cases hget : nullDispatchGet row s.version with
    | none => exact .inl rfl
    | some procs => exact .inr ⟨procs, rfl, hlt, rfl⟩
  rw [or_iff_right hlt]
  unfold DispatchRight PingSettings.dispatch nullDispatchAt
  rw [hprog]
  dsimp only
  by_cases hin : 5 * row + s.version < 5 * nullDispatchRows
  · rw [if_pos hin, and_iff_right hin, ← nullDispatchGet_eq_none]
    cases hget : nullDispatchGet ((5 * row + s.version) / 5) ((5 * row + s.version) % 5) with
    | none => exact iff_of_true (.inl rfl) rfl
    | some procs =>
      refine iff_of_false ?_ (by simp)
      rintro (hill | ⟨procs', -, hlt', -⟩)
      · cases hill
      · exact hlt hlt'
  · rw [if_neg hin]
    refine iff_of_false ?_ fun hand => hin hand.1
    rintro (hill | ⟨procs', -, hlt', -⟩)
    · cases hill
    · exact hlt hlt'

theorem pingDispatch_iff_nfsv4 : ∃ s, pingOptions [.V "4".toList] = .ok s ∧ DispatchRight s := by
  have hopts : ∃ s, pingOptions [.V "4".toList] = .ok s ∧ s.version = 4 := ⟨_, rfl, rfl⟩
  obtain ⟨s, h, hversion⟩ := hopts
  exact ⟨s, h, (pingDispatch_iff _ s h).2 (.inl (by rw [hversion]; decide))⟩

/-- `-V 42` pings the quota server, and `-a -V 5` is outside of the table. -/
theorem pingDispatch_rquota :
    (∃ s procs, pingOptions [.V "42".toList] = .ok s ∧ s.prognum = NFS_PROGRAM ∧
      s.dispatch = .ok (.ok procs) ∧ procs.proc = .rquotaprocNull1 ∧ ¬ DispatchRight s) ∧
    ∃ s, pingOptions [.a, .V "5".toList] = .ok s ∧ s.dispatch = .error .outOfBounds ∧
      ¬ DispatchRight s := by
  have hquota : (PingSettings.defaults { version := 42 }).dispatch =
      .ok (.ok ⟨.rquotaprocNull1, "rquotaproc_null_1", "rquotaproc_null_1", 1⟩) := by
    have hrow : (PingSettings.defaults { version := 42 }).prognum - 100000 = 3 := Nat.sub_eq_of_eq_add rfl
    rw [PingSettings.dispatch, hrow]
    rfl
  have hacl : (PingSettings.defaults { prognum := NFS_ACL_PROGRAM, version := 5 }).dispatch =
      .error .outOfBounds := by
    have hrow : (PingSettings.defaults { prognum := NFS_ACL_PROGRAM, version := 5 }).prognum - 100000 =
        227 :=
      Nat.sub_eq_of_eq_add rfl
    rw [PingSettings.dispatch, hrow]
    rfl
  refine ⟨⟨PingSettings.defaults { version := 42 }, _, rfl, rfl, hquota, rfl, ?_⟩,
    ⟨PingSettings.defaults { prognum := NFS_ACL_PROGRAM, version := 5 }, rfl, hacl, ?_⟩⟩
  · rintro (hill | ⟨procs, -, hlt, -⟩)
    · rw [hquota] at hill
      cases hill
    · exact absurd hlt (by decide)
  · rintro (hill | ⟨procs, -, hlt, -⟩)
    · rw [hacl] at hill
      cases hill
    · exact absurd hlt (by decide)

end NFStash
