/-
  The targets that a sequence of lines makes.

  The lines are grouped by their IP address: `parseLines_table` gives the target list of
  accepted lines as a table with an entry for each address, `parseLines_grouped`
  says what is in the entries.
-/
import NFStash.Lib.Grouping
import NFStash.FilehandleHex
import NFStash.MakeTarget

namespace NFStash

open CLib Grouping

variable (lookup : CString → String → Option CString) (junk : ℕ → UInt8) (port : UInt16) (count : ℕ)

/-- What a line says. -/
structure FhLine where
  addr : InAddr
  host : CString
  path : CString
  filehandle : CString
deriving DecidableEq

/-- The fields of a line, if they are there. -/
def fhLine (input : CString) : FhLine where
  addr := ((lookup input "ip").bind inetPton).getD .any
  host := (lookup input "host").getD []
  path := (lookup input "path").getD []
  filehandle := (lookup input "filehandle").getD []

/-- The handle of a line, of as many bytes as its text is taken to have. -/
def FhLine.handle (l : FhLine) : NfsFh3 := ⟨hexBytes (l.filehandle.take (2 * fhLen l.filehandle))⟩

/-- Host and path are shorter than their fields, and the handle is hexadecimal. -/
structure FhLine.Fits (l : FhLine) : Prop where
  host : l.host.length < NI_MAXHOST
  path : l.path.length < MNTPATHLEN
  hex : HexText l.filehandle

/-- The lines are accepted, one after the other. -/
def AllAccepted : List Target → List CString → Prop
  | _, [] => True
  | head, input :: inputs =>
    ∃ i ts, parseFh lookup junk head input port count = .ok (.ok i, ts) ∧ AllAccepted ts inputs

/-- The target for an address after the lines with it. -/
def groupTarget (addr : InAddr) (ls : List FhLine) : Target :=
  ls.foldl (fun t l => addLine count l.host l.path l.handle t) (newTarget addr port count)

/-- The target list after these lines. -/
def groupedTargets (ls : List FhLine) : List Target :=
  dummyTargets ++ table FhLine.addr (groupTarget port count) ls

section
variable {lookup junk port count}

/-! ## One target -/

theorem foldl_addLine (ls : List FhLine) (t : Target) :
    let t' := ls.foldl (fun t l => addLine count l.host l.path l.handle t) t
    t'.addr = t.addr ∧ t'.freed = t.freed ∧
      t'.filehandles = t.filehandles ++ ls.map (fun l =>
        { nfsFhListNew count with path := strncpy MNTPATHLEN l.path, nfsFh := l.handle }) ∧
      t'.name = (ls.getLast?.map fun l => strncpy NI_MAXHOST l.host).getD t.name := by
  induction ls using List.reverseRecOn with
  | nil => exact ⟨rfl, rfl, by simp, rfl⟩
  | append_singleton ls l ih =>
    obtain ⟨h1, h2, h3, -⟩ := ih
    rw [List.foldl_concat]
    refine ⟨h1, h2, ?_, ?_⟩
    · rw [addLine, h3, List.map_append, List.append_assoc]
      rfl
    · rw [List.getLast?_concat]
      rfl

theorem groupTarget_addr (addr : InAddr) (ls : List FhLine) :
    (groupTarget port count addr ls).addr = some addr := (foldl_addLine ls _).1

theorem groupTarget_freed (addr : InAddr) (ls : List FhLine) :
    (groupTarget port count addr ls).freed = false := (foldl_addLine ls _).2.1

theorem groupTarget_concat (addr : InAddr) (ls : List FhLine) (l : FhLine) :
    groupTarget port count addr (ls ++ [l]) =
      addLine count l.host l.path l.handle (groupTarget port count addr ls) :=
  List.foldl_concat ..

theorem groupTarget_ipAddress (addr : InAddr) (ls : List FhLine) :
    (groupTarget port count addr ls).ipAddress = inetNtop addr := by
  induction ls using List.reverseRecOn with
  | nil => rfl
  | append_singleton ls l ih =>
    rw [groupTarget_concat]
    exact ih

/-- A line with a new address. -/
theorem groupedTargets_new {ls : List FhLine} {l : FhLine} (h : l.addr ∉ keys FhLine.addr ls) :
    groupedTargets port count (ls ++ [l]) = groupedTargets port count ls ++
      [addLine count l.host l.path l.handle (newTarget l.addr port count)] := by
  rw [groupedTargets, table_concat_new _ h, ← List.append_assoc]
  rfl

/-- A line with the address of an entry. -/
theorem groupedTargets_old {ls : List FhLine} {l : FhLine} {i : ℕ}
    (h : (keys FhLine.addr ls)[i]? = some l.addr) :
    groupedTargets port count (ls ++ [l]) = (groupedTargets port count ls).set (i + 1)
      (addLine count l.host l.path l.handle
        (groupTarget port count l.addr (group FhLine.addr l.addr ls))) := by
  rw [groupedTargets, table_concat_old _ h, groupTarget_concat]
  rfl

/-! ## The search for a target -/

theorem groupedTargets_allocated (port : UInt16) (count : ℕ) (ls : List FhLine) :
    Allocated (groupedTargets port count ls) := by
  intro t ht
  rcases List.mem_append.1 ht with ht | ht
  · exact dummyTargets_allocated t ht
  · obtain ⟨k, -, rfl⟩ := List.mem_map.1 ht
    exact groupTarget_freed k _

/-- The target for an address is the entry for it in the table, or a new one after the table. -/
theorem findOrMakeTarget_grouped (port : UInt16) (count : ℕ) (ls : List FhLine) (addr : InAddr) :
    (addr ∉ keys FhLine.addr ls ∧ findOrMakeTarget (groupedTargets port count ls) addr port count =
        .ok ((groupedTargets port count ls).length,
          groupedTargets port count ls ++ [newTarget addr port count])) ∨
      ∃ i, (keys FhLine.addr ls)[i]? = some addr ∧
        findOrMakeTarget (groupedTargets port count ls) addr port count =
          .ok (i + 1, groupedTargets port count ls) := by
  obtain ⟨r, hr⟩ := findTargetByIp_total addr (groupedTargets_allocated port count ls)
  cases r with
  | none =>
    refine .inl ⟨?_, by simp [findOrMakeTarget, hr, bind, Except.bind]⟩
    intro hk
    have hmem : groupTarget port count addr (group FhLine.addr addr ls) ∈ groupedTargets port count ls :=
      List.mem_append_right _ (List.mem_map.2 ⟨addr, hk, rfl⟩)
    have hne := List.find?_eq_none.1 (findTargetByIp_none hr) _ hmem
    exact hne (by simp [groupTarget_addr])
  | some j =>
    obtain ⟨t, ht, -, ha⟩ := findTargetByIp_some hr
    cases j with
    | zero =>
      obtain rfl := Option.some.inj ht
      cases ha
    | succ i =>
      refine .inr ⟨i, ?_, by simp [findOrMakeTarget, hr, bind, Except.bind]⟩
      have ht' : (table FhLine.addr (groupTarget port count) ls)[i]? = some t := ht
      rw [table, List.getElem?_map, Option.map_eq_some_iff] at ht'
      obtain ⟨k, hk, rfl⟩ := ht'
      rw [groupTarget_addr] at ha
      rw [hk, ha]

/-! ## A line -/

/-- **An accepted line** goes to the group of its address; `text` is a text of the handle that is
    stored. -/
theorem parseFh_line {ls : List FhLine} {input text : CString} {l : FhLine}
    (hl : l = { fhLine lookup input with filehandle := text })
    (hacc : ∃ i ts, parseFh lookup junk (groupedTargets port count ls) input port count =
      .ok (.ok i, ts))
    (hstored : LengthOk (fhLine lookup input).filehandle →
      l.handle = ⟨stored junk (fhLine lookup input).filehandle⟩) :
    ∃ i, parseFh lookup junk (groupedTargets port count ls) input port count =
        .ok (.ok i, groupedTargets port count (ls ++ [l])) ∧
      (groupedTargets port count (ls ++ [l]))[i]? =
        some (groupTarget port count l.addr (group FhLine.addr l.addr (ls ++ [l]))) := by
  obtain ⟨i, ts, h⟩ := hacc
  have hn : ¬ NoAddress lookup input := fun hn => by
    obtain ⟨e, he⟩ := parseFh_noAddress lookup junk port count (groupedTargets port count ls) hn
    rw [h] at he
    cases he
  obtain ⟨-, -, -, -, -, -, ⟨-, hfields, -⟩ | ⟨e, -, he, -⟩⟩ := parseFh_cases lookup junk port count hn h
  · obtain ⟨hhost, hpath, tmp, htmp, hlen⟩ := hfields
    obtain ⟨host, hhost⟩ := Option.isSome_iff_exists.1 hhost
    obtain ⟨path, hpath⟩ := Option.isSome_iff_exists.1 hpath
    simp only [NoAddress, not_or, Option.ne_none_iff_exists'] at hn
    obtain ⟨hne, addr, ha⟩ := hn
    have hline : fhLine lookup input = ⟨addr, host, path, tmp⟩ := by
      simp [fhLine, ha, hhost, hpath, htmp]
    rw [hline] at hl hstored
    have hhandle := hstored hlen
    subst hl
    rw [group_concat_self, groupTarget_concat, hhandle]
    rcases findOrMakeTarget_grouped port count ls addr with
      ⟨hk, hfind⟩ | ⟨j, hk, hfind⟩
    · have ht : (groupedTargets port count ls ++ [newTarget addr port count])[
          (groupedTargets port count ls).length]? = some (newTarget addr port count) := by simp
      refine ⟨(groupedTargets port count ls).length, ?_, ?_⟩
      · rw [parseFh_accepted hne ha hhost hpath htmp hlen hfind ht,
          List.set_append_right _ _ le_rfl, Nat.sub_self, List.set_cons_zero, groupedTargets_new hk,
          hhandle]
      · rw [groupedTargets_new hk, group_eq_nil hk, hhandle]
        simp [groupTarget]
    · have ht : (groupedTargets port count ls)[j + 1]? =
          some (groupTarget port count addr (group FhLine.addr addr ls)) := by
        change (table FhLine.addr (groupTarget port count) ls)[j]? = _
        rw [table, List.getElem?_map, hk]
        rfl
      refine ⟨j + 1, ?_, ?_⟩
      · rw [parseFh_accepted hne ha hhost hpath htmp hlen hfind ht, groupedTargets_old hk, hhandle]
      · rw [groupedTargets_old hk, hhandle]
        exact List.getElem?_set_self (List.getElem?_eq_some_iff.1 ht).1
  · cases he

theorem parseFh_grouped {ls : List FhLine} {input : CString}
    (hacc : ∃ i ts, parseFh lookup junk (groupedTargets port count ls) input port count =
      .ok (.ok i, ts)) (hx : HexText (fhLine lookup input).filehandle) :
    ∃ i, parseFh lookup junk (groupedTargets port count ls) input port count =
      .ok (.ok i, groupedTargets port count (ls ++ [fhLine lookup input])) := by
  obtain ⟨i, hi, -⟩ := parseFh_line rfl hacc fun _ => by
    rw [stored_hexText junk hx]
    rfl
  exact ⟨i, hi⟩

/-! ## All lines -/

/-- Lines with valid fields are accepted one after the other. -/
theorem allAccepted_of_handleLine {head : List Target} {inputs : List CString} (hh : Allocated head)
    (h : ∀ input ∈ inputs, ∃ tmp, HandleLine lookup input tmp ∧ LengthOk tmp) :
    AllAccepted lookup junk port count head inputs := by
  induction inputs generalizing head with
  | nil => trivial
  | cons input inputs ih =>
    obtain ⟨tmp, hl, hlen⟩ := h input List.mem_cons_self
    obtain ⟨r, ts, hp, hts⟩ := parseFh_allocated lookup junk port count hh (.inr (hl.hasFields_iff.2 hlen))
    obtain ⟨i, ts', hacc⟩ := (hl.accepts_iff hh).2 hlen
    obtain rfl : ts = ts' := (Prod.mk.inj (Except.ok.inj (hp.symm.trans hacc))).2
    exact ⟨i, ts, hacc, ih hts fun input' hi => h input' (List.mem_cons_of_mem _ hi)⟩

/-- The lines after those that made the list. -/
theorem parseLines_from {done : List FhLine} {inputs : List CString}
    (hacc : AllAccepted lookup junk port count (groupedTargets port count done) inputs)
    (hx : ∀ input ∈ inputs, HexText (fhLine lookup input).filehandle) :
    parseLines lookup junk port count (groupedTargets port count done) inputs =
      .ok (groupedTargets port count (done ++ inputs.map (fhLine lookup))) := by
  induction inputs generalizing done with
  | nil => rw [List.map_nil, List.append_nil, parseLines]
  | cons input inputs ih =>
    obtain ⟨i, ts, h, hrest⟩ := hacc
    obtain ⟨j, hj⟩ := parseFh_grouped ⟨i, ts, h⟩ (hx input List.mem_cons_self)
    obtain rfl : ts = groupedTargets port count (done ++ [fhLine lookup input]) := by
      rw [h] at hj
      exact (Prod.mk.inj (Except.ok.inj hj)).2
    have hlast := ih hrest fun input' hi => hx input' (List.mem_cons_of_mem _ hi)
    rw [List.append_assoc] at hlast
    exact (parseLines_cons lookup junk port count).2 ⟨_, _, h, hlast⟩

/-- **The target list of accepted lines** is the table of their groups. -/
theorem parseLines_table {inputs : List CString}
    (hacc : AllAccepted lookup junk port count dummyTargets inputs)
    (hx : ∀ input ∈ inputs, HexText (fhLine lookup input).filehandle) :
    parseLines lookup junk port count dummyTargets inputs =
      .ok (groupedTargets port count (inputs.map (fhLine lookup))) :=
  @parseLines_from lookup junk port count [] inputs hacc hx

end

/-- **The lines are grouped by their address.**  After lines that are all accepted, with hosts and
    paths that fit and hexadecimal handles, there is one target for each address, in the order
    of first appearance; its filehandles are the paths and handles of its lines in order, and
    its name is the host of the last one. -/
theorem parseLines_grouped (inputs : List CString)
    (hacc : AllAccepted lookup junk port count dummyTargets inputs)
    (hfit : ∀ input ∈ inputs, (fhLine lookup input).Fits) :
    ∃ ts, parseLines lookup junk port count dummyTargets inputs = .ok (dummyTargets ++ ts) ∧
      ts.map Target.addr = ((inputs.map fun input => (fhLine lookup input).addr).eraseDups).map some ∧
      (ts.map Target.addr).Nodup ∧
      ∀ t ∈ ts, ∃ addr, t.addr = some addr ∧
        (t.filehandles.map fun fh => (fh.path, fh.nfsFh)) =
          ((inputs.map (fhLine lookup)).filter (·.addr = addr)).map (fun l => (l.path, l.handle)) ∧
        (((inputs.map (fhLine lookup)).filter (·.addr = addr)).getLast?.map fun l => l.host) =
          some t.name := by
  let ls := inputs.map (fhLine lookup)
  have hkeys : (table FhLine.addr (groupTarget port count) ls).map Target.addr =
      (keys FhLine.addr ls).map some := by
    rw [table, List.map_map]
    exact List.map_congr_left fun k _ => groupTarget_addr k _
  refine ⟨_, parseLines_table hacc fun input hi => (hfit input hi).hex, ?_, ?_, ?_⟩
  · rw [hkeys, keys, List.map_map]
    rfl
  · rw [hkeys]
    exact (keys_nodup ls).map (Option.some_injective _)
  · intro t ht
    obtain ⟨addr, haddr, rfl⟩ := List.mem_map.1 ht
    obtain ⟨-, -, hfhs, hname⟩ := foldl_addLine (group FhLine.addr addr ls) (newTarget addr port count)
    have hls : ∀ l ∈ group FhLine.addr addr ls, l.Fits := fun l hl => by
      obtain ⟨input, hi, rfl⟩ := List.mem_map.1 (List.mem_filter.1 hl).1
      exact hfit input hi
    refine ⟨addr, groupTarget_addr addr _, ?_, ?_⟩
    · change List.map _ (groupTarget port count addr (group FhLine.addr addr ls)).filehandles = _
      rw [show (groupTarget port count addr (group FhLine.addr addr ls)).filehandles = _ from hfhs,
        List.map_append, List.map_map]
      refine List.map_congr_left fun l hl => ?_
      simp only [Function.comp_apply, strncpy_of_lt (hls l hl).path.le]
    · rw [show (groupTarget port count addr (group FhLine.addr addr ls)).name = _ from hname]
      -- an address has an entry because there is a line with it
      obtain ⟨l, hl, hla⟩ := mem_keys.1 haddr
      have hne : group FhLine.addr addr ls ≠ [] :=
        List.ne_nil_of_mem (List.mem_filter.2 ⟨hl, by simpa using hla⟩)
      have hlast := List.getLast?_eq_some_getLast hne
      have hmem := List.getLast_mem hne
      change (group FhLine.addr addr ls).getLast?.map _ = _
      rw [hlast, Option.map_some, Option.map_some, Option.getD_some,
        strncpy_of_lt (hls _ hmem).host.le]

/-- Three lines for two addresses. -/
def threeLines : List (CString × List (String × String)) :=
  [("\x7b\"ip\": \"10.0.0.1\", \"host\": \"a\", \"path\": \"/x\", \"filehandle\": \"0a\"\x7d".toList,
      [("ip", "10.0.0.1"), ("host", "a"), ("path", "/x"), ("filehandle", "0a")]),
    ("\x7b\"ip\": \"10.0.0.2\", \"host\": \"b\", \"path\": \"/y\", \"filehandle\": \"0b\"\x7d".toList,
      [("ip", "10.0.0.2"), ("host", "b"), ("path", "/y"), ("filehandle", "0b")]),
    ("\x7b\"ip\": \"10.0.0.1\", \"host\": \"c\", \"path\": \"/z\", \"filehandle\": \"0c\"\x7d".toList,
      [("ip", "10.0.0.1"), ("host", "c"), ("path", "/z"), ("filehandle", "0c")])]

theorem parseLines_grouped_three : ∃ ts,
    parseLines (tableLookup threeLines) (fun _ => 0) 2049 0 dummyTargets (threeLines.map (·.1)) =
      .ok (dummyTargets ++ ts) ∧
    ts.map Target.addr = [some ⟨10, 0, 0, 1⟩, some ⟨10, 0, 0, 2⟩] ∧
    ∃ t ∈ ts, t.name = "c".toList ∧ t.filehandles.map (·.path) = ["/x".toList, "/z".toList] := by
  obtain ⟨ts, h, ha, -, hts⟩ := parseLines_grouped (tableLookup threeLines) (fun _ => 0) 2049 0
    (threeLines.map (·.1)) ⟨_, _, rfl, _, _, rfl, _, _, rfl, trivial⟩ (fun input hi => by
      simp only [threeLines, List.map_cons, List.map_nil, List.mem_cons, List.not_mem_nil, or_false] at hi
      rcases hi with rfl | rfl | rfl
      all_goals exact ⟨by decide, by decide, by decide⟩)
  have ha' : ts.map Target.addr = [some ⟨10, 0, 0, 1⟩, some ⟨10, 0, 0, 2⟩] := ha.trans (by decide)
  obtain ⟨t, ht, hta⟩ := List.mem_map.1 (show some ⟨10, 0, 0, 1⟩ ∈ ts.map Target.addr by simp [ha'])
  obtain ⟨addr, haddr, hfhs, hname⟩ := hts t ht
  obtain rfl : (⟨10, 0, 0, 1⟩ : InAddr) = addr := Option.some.inj (hta.symm.trans haddr)
  refine ⟨ts, h, ha', t, ht, (Option.some.inj hname).symm.trans (by decide), ?_⟩
  have hpaths := congrArg (List.map Prod.fst) hfhs
  rw [List.map_map] at hpaths
  exact hpaths.trans (by decide)

end NFStash
