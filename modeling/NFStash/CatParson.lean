/-
  `nfsmount`, any number of `nfsls` and at last `nfscat`, with `parson.c`.

  `nfscat` reads the lines of `nfsls` with the same parser, and finds the handles that they were printed
  for.  The files of a target are read without going back to the start, so a selection of lines is read
  in full if at most one of its files is not empty (`writes_lines`).
  `catMain_pipeline` is the whole way from an export to the contents of a file below it.
-/
import NFStash.Cat
import NFStash.LsParson

namespace NFStash.JSON

open CLib Loops Grouping

/-! ## Selections of files -/

section
variable {α : Type} {cs cs' : List (List α)}

/-- When at most one of them is not empty, the order of lists does not matter. -/
theorem flatten_perm (h : cs.Perm cs') (h1 : (cs.filter (· ≠ [])).length ≤ 1) : cs.flatten = cs'.flatten := by
  have hfilter : cs.filter (· ≠ []) = cs'.filter (· ≠ []) := by
    have hperm := h.filter (· ≠ [])
    rcases hcs : cs.filter (· ≠ []) with _ | ⟨c, _ | ⟨d, rest⟩⟩
    · rw [hcs] at hperm
      exact hperm.nil_eq
    · rw [hcs] at hperm
      exact List.singleton_perm.1 hperm
    · rw [hcs] at h1
      simp at h1
  rw [← List.flatten_filter_ne_nil (L := cs), ← List.flatten_filter_ne_nil (L := cs'), hfilter]

/-- So they are read in full in any groups. -/
theorem readFrom_groups {β κ : Type} [DecidableEq κ] (key : β → κ) (content : β → List UInt8) {l : List β}
    (h1 : ((l.map content).filter (· ≠ [])).length ≤ 1) :
    ((keys key l).flatMap fun k => readFrom 0 ((group key k l).map content)) = (l.map content).flatten := by
  have hgroup : ∀ k, readFrom 0 ((group key k l).map content) = ((group key k l).map content).flatten := by
    intro k
    refine readFrom_zero_eq_iff.2 (le_trans ?_ h1)
    exact (((List.filter_sublist : (group key k l).Sublist l).map content).filter _).length_le
  have hflat : ((keys key l).flatMap fun k => ((group key k l).map content).flatten) =
      (((keys key l).flatMap fun k => group key k l).map content).flatten := by
    rw [List.map_flatMap, ← List.flatMap_id, List.flatMap_assoc]
    simp only [List.flatMap_id]
  rw [List.flatMap_congr fun k _ => hgroup k, hflat]
  have hperm : (((keys key l).flatMap fun k => group key k l).map content).Perm (l.map content) :=
    (groups_perm l).map content
  exact (flatten_perm hperm.symm h1).symm

end

section
variable {lookup lookup' : CString → String → Option CString} {junk : ℕ → UInt8} {inputs : List CString}
  {cfg : CatConfig} {files : Files}

/-- **Accepted lines** of which at most one is for a file that is not empty: all files are written, in the
    order of the lines. -/
theorem writes_lines (srv : FileServer files) (hcount : cfg.count = 0)
    (hblock : UInt32.ofNat cfg.blocksize ≠ 0) (hacc : AllAccepted lookup junk 0 0 dummyTargets inputs)
    (hx : ∀ input ∈ inputs, HexText (fhLine lookup input).filehandle)
    (h1 : ((inputs.map fun input => files.content (fhLine lookup input).handle).filter (· ≠ [])).length ≤ 1) :
    NFStash.Writes cfg srv.toCatEnv lookup junk inputs
      (inputs.map fun input => files.content (fhLine lookup input).handle).flatten := by
  have hts : parseLines lookup junk 0 0 dummyTargets inputs =
      .ok (groupedTargets 0 0 (inputs.map (fhLine lookup))) := parseLines_table hacc hx
  refine (writes_iff srv hcount hblock hts (groupedTargets_allocated 0 0 _)).2 ?_
  have hcontents : ∀ addr ls, (groupTarget 0 0 addr ls).contents files =
      ls.map fun l => files.content l.handle := by
    intro addr ls
    obtain ⟨-, -, hfhs, -⟩ := @foldl_addLine 0 ls (newTarget addr 0 0)
    rw [Target.contents, groupTarget, hfhs, List.map_append, List.map_map]
    rfl
  have htail : (groupedTargets 0 0 (inputs.map (fhLine lookup))).tail =
      table FhLine.addr (groupTarget 0 0) (inputs.map (fhLine lookup)) := rfl
  have hmap : (inputs.map fun input => files.content (fhLine lookup input).handle) =
      (inputs.map (fhLine lookup)).map fun l => files.content l.handle := by
    rw [List.map_map]
    rfl
  rw [hmap] at h1 ⊢
  rw [htail, table, List.map_map, List.flatMap_map]
  simp only [Function.comp_def, hcontents]
  exact readFrom_groups FhLine.addr _ h1

end

/-! ## The end of a pipeline -/

section
variable {num : Numbers} {fs : FileSystem} {m : Mounted fs} {d : ℕ} {objs : List JsonObject} {obj : JsonObject}

/-- What the library reads of the line of an object is what it was printed for. -/
theorem Simulated.fhLine (h : Simulated num m d objs) (hnames : LegibleNames m) (hfits : m.Fits d)
    (hobj : obj ∈ objs) :
    let l := NFStash.fhLine (jsonObjectGetString num.toDoubles) (textLine num obj)
    obj.lookup "path" = some (.string l.path) ∧ m.Located d l.path l.handle ∧ HexText l.filehandle ∧
      ∃ tmp, HandleLine (jsonObjectGetString num.toDoubles) (textLine num obj) tmp ∧ LengthOk tmp := by
  have hname : ∀ dir name obj, fs.entry dir name obj → name ≠ [] :=
    fun dir name obj hentry => (hnames.entries dir name obj hentry).1
  have hdesc := h.piped.describes hname hfits obj hobj
  have hlegible := h.legible obj hobj
  have hread : jsonObjectGetString num.toDoubles (textLine num obj) =
      (parsonOf num).getString ((parsonOf num).line obj) := by
    funext key
    rw [parsonOf_line hlegible, parsonOf_getString hlegible]
  obtain ⟨tmp, htmp, hlen⟩ := hdesc.handleLine (parsonOf num) fun _ _ hR => hR.valid
  obtain ⟨-, -, path, fh, hlocated, hpath, hfh⟩ := hdesc
  obtain ⟨hlinePath, hhex, hhandle⟩ := fhLine_line (parsonOf num) hlocated.valid hpath hfh
  have heq : NFStash.fhLine (jsonObjectGetString num.toDoubles) (textLine num obj) =
      NFStash.fhLine (parsonOf num).getString ((parsonOf num).line obj) := by
    unfold NFStash.fhLine
    rw [hread]
  have htext : HexText (nfsFh3ToString fh) := hexText_toString fh.data
  obtain ⟨h1, h2, h3, h4⟩ := htmp
  rw [← parsonOf_line hlegible] at heq hread ⊢
  rw [heq]
  refine ⟨by rw [hlinePath]; exact hpath, ?_, by rw [hhex]; exact htext, tmp, ⟨?_, ?_, ?_, ?_⟩, hlen⟩
  · rw [hlinePath, hhandle]
    exact hlocated
  · unfold NoAddress at h1 ⊢
    rwa [hread]
  · rwa [hread]
  · rwa [hread]
  · rwa [hread]

end

/-- **From an export to the contents of its files.**  For any lines that come out of a pipeline of `nfsmount`
    and `nfsls` runs, on a file system of which the names are printable UTF-8, what `nfscat` finds in them are
    paths below the export with the handles that these lead to.  If at most one of the files
    is not empty, their contents are written in the order of the lines, by every server and in whatever
    pieces it returns them. -/
theorem catMain_pipeline (num : Numbers) (fs : FileSystem) (m : Mounted fs) (hnames : LegibleNames m) (d : ℕ)
    (hfits : m.Fits d) (objs : List JsonObject) (hpiped : PipedWith num m d objs) (sel : List JsonObject)
    (hsel : ∀ obj ∈ sel, obj ∈ objs) (files : Files) (srv : FileServer files) (cfg : CatConfig)
    (hcount : cfg.count = 0) (hblock : UInt32.ofNat cfg.blocksize ≠ 0) (junk : ℕ → UInt8) :
    ∃ lines : List CString, sel.mapM (commandLine num) = .ok (lines.map some) ∧
      let found := lines.map (fhLine (jsonObjectGetString num.toDoubles))
      sel.map (·.lookup "path") = found.map (fun file => some (.string file.path)) ∧
      (∀ file ∈ found, m.Located d file.path file.handle) ∧
      (((found.map fun file => files.content file.handle).filter (· ≠ [])).length ≤ 1 →
        NFStash.Writes cfg srv.toCatEnv (jsonObjectGetString num.toDoubles) junk lines
          (found.map fun file => files.content file.handle).flatten) := by
  have hsim := hpiped.simulated hnames hfits
  have hread : ∀ obj ∈ sel, _ := fun obj hobj => hsim.fhLine hnames hfits (hsel obj hobj)
  refine ⟨sel.map (textLine num), ?_, ?_, ?_, fun h1 => ?_⟩
  · rw [commandLines fun obj hobj => hsim.legible obj (hsel obj hobj)]
    rw [List.map_congr_left fun obj hobj => parsonOf_line (hsim.legible obj (hsel obj hobj))]
  · rw [List.map_map, List.map_map]
    exact List.map_congr_left fun obj hobj => (hread obj hobj).1
  · rw [List.map_map, List.forall_mem_map]
    exact fun obj hobj => (hread obj hobj).2.1
  · rw [List.map_map] at h1 ⊢
    refine writes_lines srv hcount hblock ?_ ?_ h1
    · refine allAccepted_of_handleLine dummyTargets_allocated ?_
      rw [List.forall_mem_map]
      exact fun obj hobj => (hread obj hobj).2.2.2
    · rw [List.forall_mem_map]
      exact fun obj hobj => (hread obj hobj).2.2.1

/-! ## A small tree -/

/-- The file of the tree. -/
def oneFile : Files where
  content fh := if fh = ⟨[3]⟩ then [104, 105] else []
  size fh := by split_ifs <;> decide

theorem catMain_pipeline_twoLevels : ∃ objs line, PipedWith .naturals twoLevelsAt 2 objs ∧
    objs.mapM (commandLine .naturals) = .ok [some line] ∧
    NFStash.Writes {} (fullReads oneFile).toCatEnv (jsonObjectGetString .naturals) (fun _ => 0) [line]
      [104, 105] := by
  have hpiped : PipedWith .naturals twoLevelsAt 2 [fileJson] :=
    twoLevels_directory.printedFrom directoryJson_line directoryJson_printed
  obtain ⟨lines, hlines, -, -, hwrites⟩ := catMain_pipeline .naturals twoLevels.fileSystem
    twoLevelsAt twoLevels_legible 2 twoLevels_fits _ hpiped [fileJson] (fun _ h => h) oneFile
    (fullReads oneFile) {} rfl (by decide) fun _ => 0
  have hline : [fileJson].mapM (commandLine .naturals) = .ok ([textLine .naturals fileJson].map some) := by
    decide +kernel
  obtain rfl := List.map_injective_iff.2 (Option.some_injective _) (Except.ok.inj (hlines.symm.trans hline))
  refine ⟨[fileJson], textLine .naturals fileJson, hpiped, hlines, ?_⟩
  have hcontents : (([textLine .naturals fileJson].map
      (fhLine (jsonObjectGetString Numbers.naturals.toDoubles))).map fun l => oneFile.content l.handle) =
      [[104, 105]] := by
    decide +kernel
  rw [hcontents] at hwrites
  exact hwrites (by decide)

end NFStash.JSON
