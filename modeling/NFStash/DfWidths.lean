/-
  `df.c`: the columns for host and path.

  Their widths are found while the input is read.  After each line that is accepted the path of
  the first filehandle of its target is measured, although the new one is the last, and the host name
  of the line, although a later line can replace it.  `dfWidths_iff` says for which
  lines these are the widths of what is printed.
-/
import NFStash.Lib.Maxima
import NFStash.Df
import NFStash.ParseFhGroup

namespace NFStash

open CLib Grouping Maxima Loops

/-! ## Right widths -/

/-- The first line with the address of `l`. -/
def firstLine (ls : List FhLine) (l : FhLine) : FhLine := (group FhLine.addr l.addr ls).head?.getD l

/-- The last line with the address of `l`. -/
def lastLine (ls : List FhLine) (l : FhLine) : FhLine := (group FhLine.addr l.addr ls).getLast?.getD l

/-- The fields that are printed are terminated, and the widths are the lengths of the longest of
    them. -/
structure DfWidthsRight (cfg : DfConfig) (s : DfState) : Prop where
  paths : ∀ t ∈ s.targets, ∀ fh ∈ t.filehandles, fh.path.length < MNTPATHLEN
  names : cfg.displayIps = false → ∀ t ∈ s.targets, t.name.length < NI_MAXHOST
  maxpath : s.maxpath = most 0 (·.path.length) (s.targets.flatMap (·.filehandles))
  maxhost : s.maxhost = most 0 (fun t => (dfHost cfg t).length) s.targets
  fits : ∀ t ∈ s.targets, ∀ fh ∈ t.filehandles, fh.path.length ≤ s.maxpath

/-- Paths and host names fit; no path is longer than all that are the first of their address, and, if
    they are printed, no host name than all that are the last. -/
structure LinesMeasured (cfg : DfConfig) (ls : List FhLine) : Prop where
  paths : ∀ l ∈ ls, l.path.length < MNTPATHLEN
  first : ∀ l ∈ ls, ∃ c ∈ ls, l.path.length ≤ (firstLine ls c).path.length
  hosts : cfg.displayIps = false → ∀ l ∈ ls, l.host.length < NI_MAXHOST
  last : cfg.displayIps = false → ∀ l ∈ ls, ∃ c ∈ ls, l.host.length ≤ (lastLine ls c).host.length

/-! ## The lines of an address -/

section
variable {ls : List FhLine} {l c : FhLine}

theorem mem_group_self (h : l ∈ ls) : l ∈ group FhLine.addr l.addr ls :=
  List.mem_filter.2 ⟨h, by simp⟩

theorem mem_group (h : c ∈ group FhLine.addr l.addr ls) : c ∈ ls ∧ c.addr = l.addr := by
  simpa [group] using h

theorem firstLine_head (h : l ∈ ls) :
    (group FhLine.addr l.addr ls).head? = some (firstLine ls l) := by
  have hne := List.ne_nil_of_mem (mem_group_self h)
  rw [firstLine, List.head?_eq_some_head hne, Option.getD_some]

theorem lastLine_getLast (h : l ∈ ls) :
    (group FhLine.addr l.addr ls).getLast? = some (lastLine ls l) := by
  have hne := List.ne_nil_of_mem (mem_group_self h)
  rw [lastLine, List.getLast?_eq_some_getLast hne, Option.getD_some]

theorem firstLine_mem (h : l ∈ ls) : firstLine ls l ∈ ls :=
  (mem_group (List.mem_of_mem_head? (firstLine_head h))).1

theorem lastLine_mem (h : l ∈ ls) : lastLine ls l ∈ ls ∧ (lastLine ls l).addr = l.addr :=
  mem_group (List.mem_of_getLast? (lastLine_getLast h))

/-- Later lines do not change which line was the first. -/
theorem firstLine_concat (h : l ∈ ls) : firstLine (ls ++ [c]) l = firstLine ls l := by
  rw [firstLine, group, List.filter_append, List.head?_append]
  change ((group FhLine.addr l.addr ls).head?.or _).getD l = _
  rw [firstLine_head h]
  rfl

/-! ## Targets -/

variable {port : UInt16} {count : ℕ} {addr : InAddr}

theorem groupTarget_filehandles : (groupTarget port count addr ls).filehandles = ls.map fun l =>
    { nfsFhListNew count with path := strncpy MNTPATHLEN l.path, nfsFh := l.handle } :=
  (foldl_addLine ls (newTarget addr port count)).2.2.1

theorem groupTarget_name : (groupTarget port count addr ls).name =
    (ls.getLast?.map fun l => strncpy NI_MAXHOST l.host).getD [] :=
  (foldl_addLine ls (newTarget addr port count)).2.2.2

theorem mem_table {t : Target} : t ∈ table FhLine.addr (groupTarget port count) ls ↔
    ∃ l ∈ ls, t = groupTarget port count l.addr (group FhLine.addr l.addr ls) := by
  rw [table, List.mem_map]
  constructor
  · rintro ⟨k, hk, rfl⟩
    obtain ⟨l, hl, rfl⟩ := mem_keys.1 hk
    exact ⟨l, hl, rfl⟩
  · rintro ⟨l, hl, rfl⟩
    exact ⟨l.addr, mem_keys.2 ⟨l, hl, rfl⟩, rfl⟩

end

/-! ## Reading the input -/

/-- A line with a text of the handle that is stored for it. -/
def FhLine.read (junk : ℕ → UInt8) (l : FhLine) : FhLine :=
  { l with filehandle := nfsFh3ToString ⟨stored junk l.filehandle⟩ }

/-- The length of a path in its field. -/
def pathLength (l : FhLine) : ℕ := (strncpy MNTPATHLEN l.path).length

/-- The length of the host that is printed for a target after this line. -/
def hostLength (cfg : DfConfig) (l : FhLine) : ℕ :=
  if cfg.displayIps then (inetNtop l.addr).length else (strncpy NI_MAXHOST l.host).length

section
variable {cfg : DfConfig} {lookup : CString → String → Option CString} {junk : ℕ → UInt8}
  {ls : List FhLine} {l : FhLine}

theorem read_handle (h : LengthOk l.filehandle) : (l.read junk).handle = ⟨stored junk l.filehandle⟩ := by
  have hlen : (stored junk l.filehandle).length ≤ FHSIZE3 := by
    rw [stored, List.length_map, List.length_range]
    exact h.2.1
  exact congrArg NfsFh3.mk (hexBytes_take_toString hlen)

/-- The target for an address after these lines. -/
def readTarget (cfg : DfConfig) (junk : ℕ → UInt8) (addr : InAddr) (ls : List FhLine) : Target :=
  groupTarget cfg.port 0 addr ((group FhLine.addr addr ls).map (·.read junk))

theorem group_read (addr : InAddr) : group FhLine.addr addr (ls.map (·.read junk)) =
    (group FhLine.addr addr ls).map (·.read junk) :=
  group_map fun _ => rfl

theorem readTarget_paths (addr : InAddr) : (readTarget cfg junk addr ls).filehandles.map (·.path.length) =
    (group FhLine.addr addr ls).map pathLength := by
  rw [readTarget, groupTarget_filehandles, List.map_map, List.map_map]
  rfl

/-- The host of a target is that of its last line. -/
theorem readTarget_host (h : l ∈ ls) : (dfHost cfg (readTarget cfg junk l.addr ls)).length =
    hostLength cfg (lastLine ls l) := by
  unfold dfHost hostLength
  split_ifs
  · rw [readTarget, groupTarget_ipAddress, (lastLine_mem h).2]
  · rw [readTarget, groupTarget_name, List.getLast?_map, lastLine_getLast h]
    rfl

theorem readTarget_name (h : l ∈ ls) : (readTarget cfg junk l.addr ls).name =
    strncpy NI_MAXHOST (lastLine ls l).host := by
  rw [readTarget, groupTarget_name, List.getLast?_map, lastLine_getLast h]
  rfl

/-- What has been measured after these lines. -/
structure Measured (cfg : DfConfig) (ls : List FhLine) (run : DfRun) : Prop where
  maxpath : run.maxpath = most 0 (pathLength ∘ firstLine ls) ls
  maxhost : run.maxhost = most 0 (hostLength cfg) ls

/-- **One line.** -/
theorem Measured.line {run : DfRun} (h : Measured cfg ls run) (junk : ℕ → UInt8) (l : FhLine) : ∃ run',
    dfWidths cfg (readTarget cfg junk l.addr (ls ++ [l])) run = .ok run' ∧
      Measured cfg (ls ++ [l]) run' := by
  have hmem : l ∈ ls ++ [l] := List.mem_append_right _ (List.mem_singleton_self l)
  have hpaths : (readTarget cfg junk l.addr (ls ++ [l])).filehandles.map (·.path.length) = _ :=
    readTarget_paths l.addr
  have hfirst := firstLine_head hmem
  have hhost : (dfHost cfg (readTarget cfg junk l.addr (ls ++ [l]))).length = _ := readTarget_host hmem
  have hlast : lastLine (ls ++ [l]) l = l := by
    rw [lastLine, group_concat_self, List.getLast?_concat]
    rfl
  unfold dfWidths
  cases hfh : (readTarget cfg junk l.addr (ls ++ [l])).filehandles with
  | nil =>
    rw [hfh, List.map_nil, eq_comm, List.map_eq_nil_iff] at hpaths
    rw [hpaths] at hfirst
    cases hfirst
  | cons fh fhs =>
    have hlen : fh.path.length = pathLength (firstLine (ls ++ [l]) l) := by
      have hhead := congrArg List.head? hpaths
      rw [hfh, List.head?_map, List.head?_map, hfirst] at hhead
      exact Option.some.inj hhead
    refine ⟨_, rfl, ?_, ?_⟩
    · rw [most_concat, Function.comp_apply, ← hlen]
      refine congrArg (max · _) (h.maxpath.trans (most_congr fun a ha => ?_))
      rw [Function.comp_apply, Function.comp_apply, firstLine_concat ha]
    · rw [most_concat]
      change max run.maxhost _ = _
      rw [hhost, hlast, h.maxhost]

/-- The lines after those that made the list. -/
theorem dfInput_measured (junk : ℕ → UInt8) {inputs : List CString} {run : DfRun}
    (h : Measured cfg ls run)
    (hacc : AllAccepted lookup junk cfg.port 0 (groupedTargets cfg.port 0 (ls.map (·.read junk))) inputs) :
    ∃ run', dfInput cfg lookup junk (groupedTargets cfg.port 0 (ls.map (·.read junk))) run inputs =
        .ok (groupedTargets cfg.port 0 ((ls ++ inputs.map (fhLine lookup)).map (·.read junk)), run') ∧
      Measured cfg (ls ++ inputs.map (fhLine lookup)) run' := by
  induction inputs generalizing ls run with
  | nil =>
    rw [List.map_nil, List.append_nil]
    exact ⟨run, rfl, h⟩
  | cons input inputs ih =>
    obtain ⟨i, ts, hline, hrest⟩ := hacc
    have hmap : ∀ l : FhLine, ls.map (·.read junk) ++ [l.read junk] = (ls ++ [l]).map (·.read junk) :=
      fun l => by rw [List.map_append, List.map_singleton]
    obtain ⟨j, hj, htarget⟩ := parseFh_line (l := (fhLine lookup input).read junk) rfl ⟨i, ts, hline⟩
      read_handle
    rw [hmap] at hj htarget
    obtain ⟨run', hrun, h'⟩ := h.line junk (fhLine lookup input)
    obtain ⟨run'', hinput, hlast⟩ := ih h' (by
      rw [hline] at hj
      rwa [(Prod.mk.inj (Except.ok.inj hj)).2] at hrest)
    rw [List.append_assoc] at hinput hlast
    refine ⟨run'', ?_, hlast⟩
    have hread : (groupedTargets cfg.port 0 ((ls ++ [fhLine lookup input]).map (·.read junk)))[j]? =
        some (readTarget cfg junk (fhLine lookup input).addr (ls ++ [fhLine lookup input])) := by
      rw [htarget, group_read]
      rfl
    simp only [dfInput, hj, dfCurrent, hread, hrun, bind, Except.bind]
    exact hinput

/-! ## The printed columns -/

/-- The targets after these lines. -/
def readTargets (cfg : DfConfig) (junk : ℕ → UInt8) (ls : List FhLine) : List Target :=
  table FhLine.addr (groupTarget cfg.port 0) (ls.map (·.read junk))

theorem mem_readTargets {t : Target} : t ∈ readTargets cfg junk ls ↔
    ∃ l ∈ ls, t = readTarget cfg junk l.addr ls := by
  rw [readTargets, mem_table]
  simp only [List.mem_map, exists_exists_and_eq_and, group_read]
  rfl

variable (cfg junk) in
theorem mem_readPaths {n : ℕ} :
    (∃ fh ∈ (readTarget cfg junk l.addr ls).filehandles, fh.path.length = n) ↔
      ∃ c ∈ group FhLine.addr l.addr ls, pathLength c = n := by
  rw [← List.mem_map, readTarget_paths, List.mem_map]

theorem most_paths : most 0 (·.path.length) ((readTargets cfg junk ls).flatMap (·.filehandles)) =
    most 0 pathLength ls := by
  refine le_antisymm (most_le_most fun fh hfh => ?_) (most_le_most fun l hl => ?_)
  · obtain ⟨t, ht, hfh⟩ := List.mem_flatMap.1 hfh
    obtain ⟨l, hl, rfl⟩ := mem_readTargets.1 ht
    obtain ⟨c, hc, hlen⟩ := (mem_readPaths cfg junk).1 ⟨fh, hfh, rfl⟩
    exact ⟨c, (mem_group hc).1, hlen.ge⟩
  · obtain ⟨fh, hfh, hlen⟩ := (mem_readPaths cfg junk).2 ⟨l, mem_group_self hl, rfl⟩
    exact ⟨fh, List.mem_flatMap.2 ⟨_, mem_readTargets.2 ⟨l, hl, rfl⟩, hfh⟩, hlen.ge⟩

theorem most_hosts : most 0 (fun t => (dfHost cfg t).length) (readTargets cfg junk ls) =
    most 0 (hostLength cfg ∘ lastLine ls) ls := by
  refine le_antisymm (most_le_most fun t ht => ?_) (most_le_most fun l hl => ?_)
  · obtain ⟨l, hl, rfl⟩ := mem_readTargets.1 ht
    exact ⟨l, hl, (readTarget_host hl).le⟩
  · exact ⟨_, mem_readTargets.2 ⟨l, hl, rfl⟩, (readTarget_host hl).ge⟩

theorem pathLength_eq (l : FhLine) : pathLength l = min MNTPATHLEN l.path.length := strncpy_length _ _

theorem hostLength_eq (hips : cfg.displayIps = false) (l : FhLine) :
    hostLength cfg l = min NI_MAXHOST l.host.length := by
  rw [hostLength, if_neg (by simp [hips]), strncpy_length]

/-- The greatest length that has been measured is that of all paths. -/
theorem maxpath_iff : most 0 (pathLength ∘ firstLine ls) ls = most 0 pathLength ls ↔
    ∀ l ∈ ls, ∃ c ∈ ls, pathLength l ≤ pathLength (firstLine ls c) :=
  most_comp_eq_iff (fun _ => firstLine_mem) fun _ => Nat.zero_le _

/-- The greatest length that has been measured is that of the hosts that are left. -/
theorem maxhost_iff : most 0 (hostLength cfg) ls = most 0 (hostLength cfg ∘ lastLine ls) ls ↔
    ∀ l ∈ ls, ∃ c ∈ ls, hostLength cfg l ≤ hostLength cfg (lastLine ls c) := by
  rw [eq_comm]
  exact most_comp_eq_iff (fun _ hl => (lastLine_mem hl).1) fun _ => Nat.zero_le _

variable {s : DfState}

/-- What right widths say of the lines. -/
theorem DfWidthsRight.measured (hs : s.targets = readTargets cfg junk ls)
    (h : Measured cfg ls s.toDfRun) (hr : DfWidthsRight cfg s) : LinesMeasured cfg ls := by
  obtain ⟨hpaths, hnames, hmaxpath, hmaxhost, -⟩ := hr
  rw [hs] at hpaths hnames hmaxpath hmaxhost
  rw [h.maxpath, most_paths, maxpath_iff] at hmaxpath
  rw [h.maxhost, most_hosts, maxhost_iff] at hmaxhost
  have hfit : ∀ l ∈ ls, l.path.length < MNTPATHLEN := by
    intro l hl
    obtain ⟨fh, hfh, hlen⟩ := (mem_readPaths cfg junk).2 ⟨l, mem_group_self hl, rfl⟩
    have hlt := hpaths _ (mem_readTargets.2 ⟨l, hl, rfl⟩) fh hfh
    rw [hlen, pathLength_eq] at hlt
    exact (min_lt_iff.1 hlt).resolve_left (lt_irrefl _)
  have hlast : cfg.displayIps = false → ∀ l ∈ ls, (lastLine ls l).host.length < NI_MAXHOST := by
    intro hips l hl
    have hlt := hnames hips _ (mem_readTargets.2 ⟨l, hl, rfl⟩)
    rw [readTarget_name hl, strncpy_length] at hlt
    exact (min_lt_iff.1 hlt).resolve_left (lt_irrefl _)
  have hlonger : cfg.displayIps = false → ∀ l ∈ ls, ∃ c ∈ ls,
      l.host.length ≤ (lastLine ls c).host.length := by
    intro hips l hl
    obtain ⟨c, hc, hle⟩ := hmaxhost l hl
    have hlt := hlast hips c hc
    rw [hostLength_eq hips, hostLength_eq hips] at hle
    exact ⟨c, hc, by omega⟩
  refine ⟨hfit, ?_, ?_, hlonger⟩
  · intro l hl
    obtain ⟨c, hc, hle⟩ := hmaxpath l hl
    have hlt := hfit l hl
    rw [pathLength_eq, pathLength_eq] at hle
    exact ⟨c, hc, by omega⟩
  · intro hips l hl
    obtain ⟨c, hc, hle⟩ := hlonger hips l hl
    exact hle.trans_lt (hlast hips c hc)

/-- The fields are terminated if the lines fit in them. -/
theorem LinesMeasured.fields (hs : s.targets = readTargets cfg junk ls) (hm : LinesMeasured cfg ls) :
    (∀ t ∈ s.targets, ∀ fh ∈ t.filehandles, fh.path.length < MNTPATHLEN) ∧
      (cfg.displayIps = false → ∀ t ∈ s.targets, t.name.length < NI_MAXHOST) := by
  rw [hs]
  constructor
  · intro t ht fh hfh
    obtain ⟨l, -, rfl⟩ := mem_readTargets.1 ht
    obtain ⟨c, hc, hlen⟩ := (mem_readPaths cfg junk).1 ⟨fh, hfh, rfl⟩
    rw [← hlen, pathLength_eq]
    exact (min_le_right _ _).trans_lt (hm.paths c (mem_group hc).1)
  · intro hips t ht
    obtain ⟨l, hl, rfl⟩ := mem_readTargets.1 ht
    rw [readTarget_name hl, strncpy_length]
    exact (min_le_right _ _).trans_lt (hm.hosts hips _ (lastLine_mem hl).1)

theorem LinesMeasured.widths (hs : s.targets = readTargets cfg junk ls)
    (h : Measured cfg ls s.toDfRun) (hm : LinesMeasured cfg ls) : DfWidthsRight cfg s := by
  have hmaxpath : s.maxpath = most 0 (·.path.length) (s.targets.flatMap (·.filehandles)) := by
    rw [hs, h.maxpath, most_paths, maxpath_iff]
    intro l hl
    obtain ⟨c, hc, hle⟩ := hm.first l hl
    refine ⟨c, hc, ?_⟩
    rw [pathLength_eq, pathLength_eq]
    exact min_le_min_left _ hle
  refine ⟨(hm.fields hs).1, (hm.fields hs).2, hmaxpath, ?_, ?_⟩
  · rw [hs, h.maxhost, most_hosts, maxhost_iff]
    intro l hl
    by_cases hips : cfg.displayIps = false
    · obtain ⟨c, hc, hle⟩ := hm.last hips l hl
      refine ⟨c, hc, ?_⟩
      rw [hostLength_eq hips, hostLength_eq hips]
      exact min_le_min_left _ hle
    · -- all lines of a target have its address
      refine ⟨l, hl, ?_⟩
      rw [hostLength, hostLength, if_pos (by simpa using hips), if_pos (by simpa using hips),
        (lastLine_mem hl).2]
  · intro t ht fh hfh
    rw [hmaxpath]
    exact most_mem_le (f := fun fh : NfsFhList => fh.path.length) (List.mem_flatMap.2 ⟨t, ht, hfh⟩)

end

/-- **The widths of host and path.**  After lines that are all accepted they are right iff all strings
    fit in their fields and no path is longer than all that are the first of their address, nor any
    printed host name than all that are the last. -/
theorem dfWidths_iff (cfg : DfConfig) (lookup : CString → String → Option CString) (junk : ℕ → UInt8)
    (inputs : List CString) (hacc : AllAccepted lookup junk cfg.port 0 dummyTargets inputs) :
    ∃ s, dfStart cfg lookup junk inputs = .ok s ∧
      (DfWidthsRight cfg s ↔ LinesMeasured cfg (inputs.map (fhLine lookup))) := by
  have hnone : Measured cfg [] {} := ⟨rfl, rfl⟩
  obtain ⟨run, hrun, h⟩ := dfInput_measured junk hnone hacc
  obtain ⟨s, hs⟩ : ∃ s : DfState, s = { printHeader cfg run with
    targets := readTargets cfg junk (inputs.map (fhLine lookup)) } := ⟨_, rfl⟩
  have htargets : s.targets = readTargets cfg junk (inputs.map (fhLine lookup)) :=
    congrArg DfState.targets hs
  have hheader : (printHeader cfg run).maxpath = run.maxpath ∧
      (printHeader cfg run).maxhost = run.maxhost := by
    unfold printHeader
    split_ifs
    · exact ⟨rfl, rfl⟩
    · exact ⟨rfl, rfl⟩
  have hmeasured : Measured cfg (inputs.map (fhLine lookup)) s.toDfRun := by
    rw [hs]
    exact ⟨hheader.1.trans h.maxpath, hheader.2.trans h.maxhost⟩
  refine ⟨s, ?_, fun hr => hr.measured htargets hmeasured, fun hm => hm.widths htargets hmeasured⟩
  rw [dfStart, hs]
  exact congrArg (· >>= _) hrun

/-- The paths of three lines for two addresses are equally long. -/
theorem dfWidths_iff_three : ∃ s,
    dfStart {} (tableLookup threeLines) (fun _ => 0) (threeLines.map (·.1)) = .ok s ∧
      (DfWidthsRight {} s ↔ LinesMeasured {} (threeLines.map fun line =>
        fhLine (tableLookup threeLines) line.1)) :=
  dfWidths_iff {} (tableLookup threeLines) (fun _ => 0) (threeLines.map (·.1))
    ⟨_, _, rfl, _, _, rfl, _, _, rfl, trivial⟩

/-- Two lines for one address, the second with a longer path and a shorter host name. -/
def longerPath : List (CString × List (String × String)) :=
  [("\x7b\"ip\": \"10.0.0.1\", \"host\": \"server\", \"path\": \"/x\", \"filehandle\": \"0a\"\x7d".toList,
      [("ip", "10.0.0.1"), ("host", "server"), ("path", "/x"), ("filehandle", "0a")]),
    ("\x7b\"ip\": \"10.0.0.1\", \"host\": \"s\", \"path\": \"/longer\", \"filehandle\": \"0b\"\x7d".toList,
      [("ip", "10.0.0.1"), ("host", "s"), ("path", "/longer"), ("filehandle", "0b")])]

theorem dfWidths_longerPath : ∃ s,
    dfStart {} (tableLookup longerPath) (fun _ => 0) (longerPath.map (·.1)) = .ok s ∧
      s.maxpath = 2 ∧ s.maxhost = 6 ∧
      s.targets.map (fun t => (t.name, t.filehandles.map (·.path))) =
        [("s".toList, ["/x".toList, "/longer".toList])] ∧ ¬ DfWidthsRight {} s := by
  refine ⟨_, rfl, rfl, rfl, rfl, ?_⟩
  intro h
  exact absurd (h.fits _ List.mem_cons_self _ (List.mem_cons_of_mem _ List.mem_cons_self)) (by decide)

end NFStash
