/-
  A pipeline of `nfsls` runs with `parson.c`.

  The commands print and read their lines with the library itself, not with one that gives every string
  back.  On file systems of which the names are UTF-8 and printable this makes no difference
  (`parsonOf`): every run of the pipeline prints what it lists, with the right paths and handles
  (`lsMain_pipeline_parson`).
-/
import NFStash.LsPipeline

namespace NFStash.JSON

open CLib Buffers Loops

/-! ## Hosts -/

/-- What `print_entrypluslink3` prints for a host. -/
def PrintedFor (host : CString) (obj : JsonObject) : Prop :=
  ∃ e ip path usec, obj = NFStash.printEntrypluslink3 host e ip path usec

section
variable {cfg : LsConfig} {env : LsEnv} {pages depth i : ℕ} {host : CString}

theorem lsTarget_printedFor (hj : cfg.format = .json) {t t' : Target} {run run' : LsRun} (ht : t.name = host)
    (hrun : ∀ obj ∈ jsonObjects run.trace, PrintedFor host obj)
    (h : lsTarget cfg env pages depth i t run = .ok (t', run')) :
    ∀ obj ∈ jsonObjects run'.trace, PrintedFor host obj := by
  obtain ⟨run₁, fhs, target, hconn, hw, rfl⟩ := lsTarget_ok h
  have hrun₁ : jsonObjects run₁.trace = jsonObjects run.trace := by
    rcases lsConnect_ok hconn with rfl | rfl
    · rfl
    · rw [jsonObjects_append]
      exact List.append_nil _
  have hstep : ∀ k fh st fh' st', t.filehandles[k]? = some fh →
      (st.1.name = host ∧ ∀ obj ∈ jsonObjects st.2.trace, PrintedFor host obj) →
      lsFilehandle cfg env pages depth (0 + k) fh st = .ok (fh', st') →
      st'.1.name = host ∧ ∀ obj ∈ jsonObjects st'.2.trace, PrintedFor host obj := by
    intro k fh st fh' st' _ hst hf
    obtain ⟨es, fh'', usec, -, -, -, hname, -, hout⟩ := lsFilehandle_json hj hf
    refine ⟨hname.trans hst.1, fun obj hobj => ?_⟩
    rw [hout] at hobj
    rcases List.mem_append.1 hobj with hobj | hobj
    · exact hst.2 obj hobj
    · obtain ⟨e, -, rfl⟩ := List.mem_map.1 hobj
      exact ⟨e, st.1.ipAddress, fh''.path, usec, by rw [hst.1]⟩
  obtain ⟨⟨-, hall⟩, -, -⟩ := walk_spec
    (P := fun _ st => st.1.name = host ∧ ∀ obj ∈ jsonObjects st.2.trace, PrintedFor host obj) hstep
    ⟨ht, by rwa [hrun₁]⟩ hw
  exact hall

theorem lsRound_printedFor (hj : cfg.format = .json) {s s' : LsState} (hts : ∀ t ∈ s.targets, t.name = host)
    (htr : s.trace = []) (h : lsRound cfg env pages depth i s = .ok s') :
    ∀ obj ∈ jsonObjects s'.trace, PrintedFor host obj := by
  obtain ⟨targets, run, more, hw, -, rfl⟩ := lsRound_ok h
  obtain ⟨hall, -, -⟩ := walk_spec
    (P := fun _ (run : LsRun) => ∀ obj ∈ jsonObjects run.trace, PrintedFor host obj)
    (fun k t run t' run' hk hrun hf => lsTarget_printedFor hj (hts t (List.mem_of_getElem? hk)) hrun hf)
    (by rw [htr]; exact nofun) hw
  simpa only [hj, reduceCtorEq, if_false, List.append_nil] using hall

end

section
variable {R : CString → NfsFh3 → Prop} {parson : Parson} {host : CString}

/-- The targets of lines for one host. -/
theorem parseLines_named (hvalid : ∀ path obj, R path obj → obj.Valid) {objs : List JsonObject}
    (h : ∀ obj ∈ objs, Describes R obj) (hhost : ∀ obj ∈ objs, obj.lookup "host" = some (.string host))
    (hlt : host.length < NI_MAXHOST) (junk : ℕ → UInt8) (port : UInt16) (count : ℕ) :
    ∃ ts, parseLines parson.getString junk port count dummyTargets (objs.map parson.line) =
      .ok (dummyTargets ++ ts) ∧ ∀ t ∈ ts, t.name = host := by
  have hlines : ∀ input ∈ objs.map parson.line, ∃ obj ∈ objs, parson.line obj = input :=
    fun input hi => List.mem_map.1 hi
  have hacc : AllAccepted parson.getString junk port count dummyTargets (objs.map parson.line) := by
    refine allAccepted_of_handleLine dummyTargets_allocated fun input hi => ?_
    obtain ⟨obj, hobj, rfl⟩ := hlines input hi
    exact (h obj hobj).handleLine parson hvalid
  have hx : ∀ input ∈ objs.map parson.line, HexText (fhLine parson.getString input).filehandle := by
    intro input hi
    obtain ⟨obj, hobj, rfl⟩ := hlines input hi
    obtain ⟨-, -, path, fh, hR, hpath, hfh⟩ := h obj hobj
    rw [(fhLine_line parson (hvalid path fh hR) hpath hfh).2.1]
    exact hexText_toString fh.data
  refine ⟨_, parseLines_table hacc hx, fun t ht => ?_⟩
  obtain ⟨addr, haddr, rfl⟩ := List.mem_map.1 ht
  obtain ⟨l, hl, hla⟩ := Grouping.mem_keys.1 haddr
  have hne : Grouping.group FhLine.addr addr ((objs.map parson.line).map (fhLine parson.getString)) ≠ [] :=
    List.ne_nil_of_mem (List.mem_filter.2 ⟨hl, by simpa using hla⟩)
  obtain ⟨-, -, -, hname⟩ := @foldl_addLine count
    (Grouping.group FhLine.addr addr ((objs.map parson.line).map (fhLine parson.getString)))
    (newTarget addr port count)
  obtain ⟨input, hi, hlast⟩ := List.mem_map.1 (List.mem_filter.1 (List.getLast_mem hne)).1
  obtain ⟨obj, hobj, rfl⟩ := hlines input hi
  have hread : (fhLine parson.getString (parson.line obj)).host = host := by
    simp [fhLine, parson.getString_line obj "host" host (hhost obj hobj)]
  rw [show (groupTarget port count addr _).name = _ from hname, List.getLast?_eq_some_getLast hne, ← hlast,
    Option.map_some, Option.getD_some, hread, strncpy_of_lt hlt.le]

end

/-! ## Pipelines -/

section
variable (num : Numbers) {fs : FileSystem}

/-- A run with the library, on such a server. -/
def ListsWith (fs : FileSystem) (cfg : LsConfig) (lines : List CString) (s : LsState) : Prop :=
  ∃ env pages depth junk fuel n, fs.Serves env ∧
    lsMain cfg env pages depth (jsonObjectGetString num.toDoubles) junk lines fuel = .ok (some (n, s))

/-- The objects printed at the end of a pipeline. -/
inductive PipedWith (m : Mounted fs) : ℕ → List JsonObject → Prop
  | mount : PipedWith m 0 [m.json]
  | ls {d : ℕ} {objs : List JsonObject} {lines : List CString} {cfg : LsConfig} {s : LsState} :
    PipedWith m d objs → cfg.Listing → objs.mapM (commandLine num) = .ok (lines.map some) →
      ListsWith num fs cfg lines s → PipedWith m (d + 1) (jsonObjects s.trace)

/-- Names, the export path and the name of the server are legible. -/
structure LegibleNames (m : Mounted fs) : Prop where
  entries : ∀ dir name obj, fs.entry dir name obj → name ≠ [] ∧ Legible name
  path : Legible m.path
  host : Legible m.target.name
  host_lt : m.target.name.length < NI_MAXHOST

/-- The line of `nfsmount` is the one for its fields. -/
theorem commandLine_mount (m : Mounted fs) : commandLine num m.json =
    (Printed.mount m.cfg m.target m.path [] m.root m.usec m.timestamp).line num := by
  have hjson : m.json = startFields m.target m.path ++ replyFields m.cfg m.root m.usec m.timestamp := rfl
  have hobject : (Printed.mount m.cfg m.target m.path [] m.root m.usec m.timestamp).object num =
      m.json.foldlM (setField num) {} := by
    rw [hjson, List.foldlM_append, ← initExport_eq, Printed.object, exportObject]
    cases initExport num m.target m.path with
    | error => rfl
    | ok object =>
      rw [ok_bind, ok_bind, List.nil_append, List.foldlM_cons]
      exact bind_pure _
  rw [Printed.line, hobject]
  rfl

/-- The line of `nfsls` is the one for its fields. -/
theorem commandLine_ls (target : Target) (path : CString) (e : Entrypluslink3) (usec : ℕ) :
    commandLine num (NFStash.printEntrypluslink3 target.name e target.ipAddress path usec) =
      (Printed.ls target path e usec).line num := by
  rw [Printed.line, Printed.object, printEntrypluslink3_eq]
  rfl

variable {num} {m : Mounted fs} {d : ℕ} {objs : List JsonObject} {obj : JsonObject}

theorem Mounted.json_legible (h : LegibleNames m) : LegibleObject m.json := by
  have hip : Legible m.target.ipAddress := m.target_ip ▸ (inetNtop_ascii m.ip).legible
  exact legible_given (p := .mount m.cfg m.target m.path [] m.root m.usec m.timestamp) h.host hip h.path

/-- The paths below the export. -/
theorem objectPath_legible (h : LegibleNames m) {names : List CString} {fh : NfsFh3}
    (hwalk : fs.Walk m.handle names fh) : Legible (fs.objectPath m.path names fh) := by
  have hnames : Legible (names.flatMap ('/' :: ·)) := by
    induction hwalk with
    | root => exact Ascii.legible nofun
    | @entry names dir obj name _ _ hentry ih =>
      rw [List.flatMap_append, List.flatMap_singleton]
      have hslash : Legible ['/'] := Ascii.legible (by decide)
      exact ih.append (hslash.append (h.entries dir name obj hentry).2)
  have hjoin : Legible (joinNames m.path names) := by
    unfold joinNames
    split_ifs
    · exact hnames
    · exact h.path.append hnames
  unfold FileSystem.objectPath
  split_ifs
  · exact hjoin.append (Ascii.legible (by decide))
  · rw [List.append_nil]
    exact hjoin

/-- Objects below the export are legible. -/
theorem printedFor_legible (h : LegibleNames m) (hobj : PrintedFor m.target.name obj)
    (hdesc : Describes (m.Below d) obj) : LegibleObject obj := by
  obtain ⟨e, ip, path, usec, rfl⟩ := hobj
  obtain ⟨-, ⟨addr, haddr⟩, p, fh, ⟨names, hwalk, -, -, rfl⟩, hpath, -⟩ := hdesc
  have hip : Legible ip := by
    have heq : ip = inetNtop addr := JsonValue.string.inj (Option.some.inj haddr)
    exact heq ▸ (inetNtop_ascii addr).legible
  have hjoin : Legible (joinPath path e.name) := by
    have heq : joinPath path e.name = fs.objectPath m.path names fh :=
      JsonValue.string.inj (Option.some.inj hpath)
    exact heq ▸ objectPath_legible h hwalk
  rw [printEntrypluslink3_given]
  exact legible_given h.host hip hjoin

/-- The lines of legible objects are the ones of the other library. -/
theorem commandLines (h : ∀ obj ∈ objs, LegibleObject obj) :
    objs.mapM (commandLine num) = .ok ((objs.map (parsonOf num).line).map some) := by
  induction objs with
  | nil => rfl
  | cons obj objs ih =>
    rw [List.forall_mem_cons] at h
    rw [List.mapM_cons, (h.1.line num).1, ok_bind, ih h.2, ok_bind, List.map_cons, List.map_cons,
      parsonOf_line h.1]
    rfl

/-- And so is what is read of them. -/
theorem ListsWith.lists {cfg : LsConfig} {s : LsState} (hobjs : ∀ obj ∈ objs, LegibleObject obj)
    (h : ListsWith num fs cfg (objs.map (parsonOf num).line) s) :
    Lists fs (parsonOf num) cfg (objs.map (parsonOf num).line) s := by
  obtain ⟨env, pages, depth, junk, fuel, n, hserves, hmain⟩ := h
  refine ⟨env, pages, depth, junk, fuel, n, hserves, ?_⟩
  rw [lsMain_parsonOf hobjs, ← parsonOf_lines hobjs, hmain]

/-- A run prints one host if its lines are for one. -/
theorem Lists.printedFor {parson : Parson} {cfg : LsConfig} {s : LsState} {R : CString → NfsFh3 → Prop}
    {host : CString} (hs : Lists fs parson cfg (objs.map parson.line) s) (hcfg : cfg.Listing)
    (hvalid : ∀ path obj, R path obj → obj.Valid) (hobjs : ∀ obj ∈ objs, Describes R obj)
    (hhost : ∀ obj ∈ objs, obj.lookup "host" = some (.string host)) (hlt : host.length < NI_MAXHOST) :
    ∀ obj ∈ jsonObjects s.trace, PrintedFor host obj := by
  obtain ⟨env, pages, depth, junk, fuel, n, -, hmain⟩ := hs
  unfold lsMain at hmain
  simp only [bind_eq_ok] at hmain
  obtain ⟨targets, hparse, hpoll⟩ := hmain
  obtain ⟨ts, hts, hnamed⟩ := parseLines_named hvalid hobjs hhost hlt junk cfg.port
    (if cfg.format = .fping ∨ cfg.format = .longform then cfg.count else 0)
  obtain rfl := Except.ok.inj (hts.symm.trans hparse)
  obtain ⟨k, -, -, hrounds, -, hmore⟩ := poll_eq_some.1 hpoll
  obtain ⟨s₁, hround, hrest⟩ := rounds_succ_eq_ok.1 hrounds
  cases k with
  | zero =>
    obtain rfl := Except.ok.inj hrest
    exact lsRound_printedFor hcfg.json hnamed rfl hround
  | succ k =>
    have hagain := hmore 0 s₁ k.succ_pos (rounds_succ_eq_ok.2 ⟨s₁, hround, rfl⟩)
    rw [lsRound_last hcfg hround] at hagain
    cases hagain

theorem PrintedFor.host {host : CString} (h : PrintedFor host obj) :
    obj.lookup "host" = some (.string host) := by
  obtain ⟨e, ip, path, usec, rfl⟩ := h
  rfl

/-- **The simulation**: a pipeline with `parson.c` is one with the other library. -/
structure Simulated (num : Numbers) (m : Mounted fs) (d : ℕ) (objs : List JsonObject) : Prop where
  piped : Piped m (parsonOf num) d objs
  legible : ∀ obj ∈ objs, LegibleObject obj
  host : ∀ obj ∈ objs, obj.lookup "host" = some (.string m.target.name)

/-- What the next run lists. -/
theorem Simulated.lists (h : Simulated num m d objs) {lines : List CString} {cfg : LsConfig} {s : LsState}
    (hlines : objs.mapM (commandLine num) = .ok (lines.map some)) (hs : ListsWith num fs cfg lines s) :
    lines = objs.map (parsonOf num).line ∧ Lists fs (parsonOf num) cfg (objs.map (parsonOf num).line) s := by
  have heq : lines = objs.map (parsonOf num).line := by
    rw [commandLines h.legible] at hlines
    exact (List.map_injective_iff.2 (Option.some_injective _) (Except.ok.inj hlines)).symm
  subst heq
  exact ⟨rfl, hs.lists h.legible⟩

/-- **Every step** keeps it. -/
theorem Simulated.ls (h : Simulated num m d objs) (hnames : LegibleNames m) (hfits : m.Fits (d + 1))
    {lines : List CString} {cfg : LsConfig} {s : LsState} (hcfg : cfg.Listing)
    (hlines : objs.mapM (commandLine num) = .ok (lines.map some)) (hs : ListsWith num fs cfg lines s) :
    Simulated num m (d + 1) (jsonObjects s.trace) := by
  have hname : ∀ dir name obj, fs.entry dir name obj → name ≠ [] :=
    fun dir name obj hentry => (hnames.entries dir name obj hentry).1
  obtain ⟨-, hlists⟩ := h.lists hlines hs
  have hdesc := h.piped.describes hname hfits.of_succ
  have hfor := Lists.printedFor hlists hcfg (fun _ _ hR => hR.valid) hdesc h.host hnames.host_lt
  have hbelow := (hlists.printed hname hcfg hfits.of_succ hdesc).1
  exact ⟨.ls h.piped hcfg hlists, fun obj hobj => printedFor_legible hnames (hfor obj hobj) (hbelow obj hobj),
    fun obj hobj => (hfor obj hobj).host⟩

/-- **Every pipeline** is simulated. -/
theorem PipedWith.simulated (h : PipedWith num m d objs) (hnames : LegibleNames m) (hfits : m.Fits d) :
    Simulated num m d objs := by
  induction h with
  | mount =>
    refine ⟨.mount, fun obj hobj => ?_, fun obj hobj => ?_⟩
    · obtain rfl := List.mem_singleton.1 hobj
      exact Mounted.json_legible hnames
    · obtain rfl := List.mem_singleton.1 hobj
      rfl
  | ls _ hcfg hlines hs ih => exact (ih hfits.of_succ).ls hnames hfits hcfg hlines hs

end

/-- **Recursive listing composes with `parson.c`.**  On every file system of which the names are
    printable UTF-8, every run of a pipeline is given a line for every object that the run before it printed,
    prints every object that it lists, and what the library reads of its lines are the paths
    and the handles of objects below the export. -/
theorem lsMain_pipeline_parson (num : Numbers) (fs : FileSystem) (m : Mounted fs) (hnames : LegibleNames m)
    (d : ℕ) (hfits : m.Fits (d + 1)) (objs : List JsonObject) (hpiped : PipedWith num m d objs) :
    ∃ lines, objs.mapM (commandLine num) = .ok (lines.map some) ∧
      ∀ cfg s, LsConfig.Listing cfg → ListsWith num fs cfg lines s →
        (∀ t ∈ s.targets, ∀ fh ∈ t.filehandles, ∀ e ∈ fh.entries, ∃ usec,
          NFStash.printEntrypluslink3 t.name e t.ipAddress fh.path usec ∈ jsonObjects s.trace) ∧
        ∀ json ∈ jsonObjects s.trace, ∃ names obj line,
          fs.Walk m.handle names obj ∧ names ≠ [] ∧ names.length ≤ d + 1 ∧
          commandLine num json = .ok (some line) ∧
          (fhLine (jsonObjectGetString num.toDoubles) line).host = m.target.name ∧
          (fhLine (jsonObjectGetString num.toDoubles) line).path = fs.objectPath m.path names obj ∧
          (fhLine (jsonObjectGetString num.toDoubles) line).handle = obj := by
  have hname : ∀ dir name obj, fs.entry dir name obj → name ≠ [] :=
    fun dir name obj hentry => (hnames.entries dir name obj hentry).1
  have hsim := hpiped.simulated hnames hfits.of_succ
  refine ⟨_, commandLines hsim.legible, fun cfg s hcfg hs => ?_⟩
  have hlists := (hsim.lists (commandLines hsim.legible) hs).2
  obtain ⟨hdesc, hprinted⟩ := hlists.printed hname hcfg hfits.of_succ
    (hsim.piped.describes hname hfits.of_succ)
  refine ⟨hprinted, fun json hjson => ?_⟩
  have hnext := hsim.ls hnames hfits hcfg (commandLines hsim.legible) hs
  have hlegible := hnext.legible json hjson
  obtain ⟨-, -, path, obj, hbelow, hpath, hfh⟩ := hdesc json hjson
  have hread : jsonObjectGetString num.toDoubles (textLine num json) =
      (parsonOf num).getString ((parsonOf num).line json) := by
    rw [parsonOf_line hlegible]
    exact funext fun key => (parsonOf_getString hlegible key).symm
  obtain ⟨hline, -, hhandle⟩ := fhLine_line (parsonOf num) hbelow.valid hpath hfh
  have hhost := (parsonOf num).getString_line json "host" m.target.name (hnext.host json hjson)
  obtain ⟨names, hwalk, hne, hlen, rfl⟩ := hbelow
  refine ⟨names, obj, textLine num json, hwalk, hne, hlen, (hlegible.line num).1, ?_, ?_, ?_⟩
  · rw [fhLine, hread, hhost]
    rfl
  · rw [fhLine, hread]
    exact hline
  · rw [FhLine.handle, fhLine, hread]
    exact hhandle

/-! ## A small tree -/

theorem listsWith_of_printed {tree : Tree} {cfg : LsConfig} {lines : List CString} {objs : List JsonObject}
    (h : tree.printed cfg lines = some objs) :
    ∃ s, ListsWith .naturals tree.fileSystem cfg lines s ∧ jsonObjects s.trace = objs := by
  unfold Tree.printed at h
  split at h
  · rename_i n s hmain
    exact ⟨s, ⟨tree.env, 1, 2, fun _ => 0, 1, n, tree.serves, hmain⟩, Option.some.inj h⟩
  · cases h

/-- A further run of a pipeline. -/
theorem PipedWith.printedFrom {tree : Tree} {m : Mounted tree.fileSystem} {d : ℕ} {objs objs' : List JsonObject}
    {lines : List CString} (hpiped : PipedWith .naturals m d objs)
    (hlines : objs.mapM (commandLine .naturals) = .ok (lines.map some))
    (h : tree.printed {} lines = some objs') : PipedWith .naturals m (d + 1) objs' := by
  obtain ⟨s, hs, htr⟩ := listsWith_of_printed h
  rw [← htr]
  exact .ls hpiped ⟨rfl, rfl, rfl, rfl⟩ hlines hs

theorem twoLevels_legible : LegibleNames twoLevelsAt where
  entries dir name obj hentry := by
    have hentries : ∀ e ∈ twoLevels.entries, e.2.1 ≠ [] ∧ Ascii e.2.1 := by decide
    obtain ⟨hne, hascii⟩ := hentries (dir, name, obj) hentry
    exact ⟨hne, hascii.legible⟩
  path := Ascii.legible (s := "/x".toList) (by decide)
  host := Ascii.legible (s := "s".toList) (by decide)
  host_lt := by decide

theorem directoryJson_line : [directoryJson].mapM (commandLine .naturals) =
    .ok ([textLine .naturals directoryJson].map some) := by
  decide +kernel

theorem directoryJson_printed :
    twoLevels.printed {} [textLine .naturals directoryJson] = some [fileJson] := by
  decide +kernel

theorem twoLevels_directory : PipedWith .naturals twoLevelsAt 1 [directoryJson] := by
  have hline : [twoLevelsAt.json].mapM (commandLine .naturals) =
      .ok ([textLine .naturals twoLevelsAt.json].map some) := by decide +kernel
  exact PipedWith.mount.printedFrom hline (by decide +kernel)

theorem lsMain_pipeline_parson_twoLevels : ∃ objs lines s, PipedWith .naturals twoLevelsAt 1 objs ∧
    objs.mapM (commandLine .naturals) = .ok (lines.map some) ∧
    ListsWith .naturals twoLevels.fileSystem {} lines s ∧
    jsonPaths s.trace = [.string "/x/d/f".toList] ∧
    ∀ json ∈ jsonObjects s.trace, ∃ names obj line, twoLevels.fileSystem.Walk twoLevelsAt.handle names obj ∧
      commandLine .naturals json = .ok (some line) ∧
      (fhLine (jsonObjectGetString .naturals) line).path =
        twoLevels.fileSystem.objectPath "/x".toList names obj ∧
      (fhLine (jsonObjectGetString .naturals) line).handle = obj := by
  obtain ⟨lines, hlines, hall⟩ := lsMain_pipeline_parson .naturals twoLevels.fileSystem twoLevelsAt
    twoLevels_legible 1 twoLevels_fits _ twoLevels_directory
  obtain rfl := List.map_injective_iff.2 (Option.some_injective _)
    (Except.ok.inj (hlines.symm.trans directoryJson_line))
  obtain ⟨s, hs, htr⟩ := listsWith_of_printed directoryJson_printed
  refine ⟨_, _, s, twoLevels_directory, hlines, hs, ?_, fun json hjson => ?_⟩
  · rw [jsonPaths, htr]
    decide +kernel
  · obtain ⟨names, obj, line, hwalk, -, -, hprint, -, hpath, hhandle⟩ := (hall {} s ⟨rfl, rfl, rfl, rfl⟩ hs).2 json hjson
    exact ⟨names, obj, line, hwalk, hprint, hpath, hhandle⟩

end NFStash.JSON
