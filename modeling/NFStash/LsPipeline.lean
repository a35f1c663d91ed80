/-
  Listing a directory tree with a pipeline of `nfsls` runs.

  `main` takes a path with a slash at its end for that of a directory, `do_getattr` and
  `do_readdirplus` make the names, `print_entrypluslink3` joins them to the path, and `parse_fh`
  reads the line in the next run.  `lsMain_pipeline`: from the line that `nfsmount`
  prints for an export on, the objects listed by every run of a pipeline are printed with
  their own handles and paths, whatever the depth, and these end in a slash iff
  they are those of directories.
-/
import NFStash.JsonText
import NFStash.LsPolling
import NFStash.LsSlash
import NFStash.ParseFhGroup

namespace NFStash

open CLib Loops Paging JSON

/-! ## File systems -/

/-- A handle of 1 to 64 bytes. -/
def NfsFh3.Valid (fh : NfsFh3) : Prop := fh.data ≠ [] ∧ fh.data.length ≤ FHSIZE3

instance (fh : NfsFh3) : Decidable fh.Valid := inferInstanceAs (Decidable (_ ∧ _))

/-- What a server has: the types of the objects, and the entries of the directories. -/
structure FileSystem where
  type : NfsFh3 → Ftype3
  entry : NfsFh3 → CString → NfsFh3 → Prop
  noSlash : ∀ dir name obj, entry dir name obj → '/' ∉ name
  valid : ∀ dir name obj, entry dir name obj → obj.Valid

/-- These names lead from a directory to an object. -/
inductive FileSystem.Walk (fs : FileSystem) (root : NfsFh3) : List CString → NfsFh3 → Prop
  | root : fs.Walk root [] root
  | entry {names : List CString} {dir obj : NfsFh3} {name : CString} :
    fs.Walk root names dir → fs.type dir = NF3DIR → fs.entry dir name obj →
      fs.Walk root (names ++ [name]) obj

/-- What the server says about the file system is right, and READDIRPLUS returns the attributes and
    the handle of every entry. -/
structure FileSystem.Serves (fs : FileSystem) (env : LsEnv) : Prop where
  getattr : ∀ k fh res, env.getattr k fh = some res → res.status = NFS3_OK →
    res.objAttributes.type = fs.type fh
  readdirplus : ∀ k args res, env.readdirplus k args = some res → res.status = NFS3_OK →
    ∀ e ∈ res.entries, ∃ obj attributes, fs.entry args.dir e.name obj ∧ e.nameHandle = some obj ∧
      e.nameAttributes = some attributes ∧ attributes.type = fs.type obj

/-! ## Paths -/

/-- The export path and these names, joined by single slashes. -/
def joinNames (path : CString) (names : List CString) : CString :=
  (if path = ['/'] then [] else path) ++ names.flatMap ('/' :: ·)

/-- The path of the object these names lead to: it has a slash at the end iff this is a directory. -/
def FileSystem.objectPath (fs : FileSystem) (path : CString) (names : List CString) (obj : NfsFh3) :
    CString :=
  joinNames path names ++ if fs.type obj = NF3DIR then ['/'] else []

/-! ## Runs -/

/-- A configuration for one round in JSON mode, without `-d`. -/
structure LsConfig.Listing (cfg : LsConfig) : Prop where
  json : cfg.format = .json
  listdir : cfg.listdir = false
  loop : cfg.loop = false
  count : cfg.count = 0

/-- A run of `nfsls` on such a server with these lines as its input ends in a state. -/
def Lists (fs : FileSystem) (parson : Parson) (cfg : LsConfig) (lines : List CString) (s : LsState) :
    Prop :=
  ∃ env pages depth junk fuel n, fs.Serves env ∧
    lsMain cfg env pages depth parson.getString junk lines fuel = .ok (some (n, s))

/-- What `nfsmount` has mounted, and the values that it prints. -/
structure Mounted (fs : FileSystem) where
  cfg : MountConfig
  target : Target
  path : CString
  root : Root
  usec : ℕ
  timestamp : ℕ
  ip : InAddr
  target_ip : target.ipAddress = inetNtop ip
  path_slash : path = ['/'] ∨ path.getLast? ≠ some '/'
  root_valid : NfsFh3.Valid ⟨root.val.take root.len⟩
  root_dir : fs.type ⟨root.val.take root.len⟩ = NF3DIR

section
variable {fs : FileSystem} (m : Mounted fs)

def Mounted.handle : NfsFh3 := ⟨m.root.val.take m.root.len⟩

/-- The object `nfsmount` prints. -/
def Mounted.json : JsonObject :=
  printFhandle3 m.cfg m.root m.usec m.timestamp ((initExport m.target m.path 0).jsonRoot.getD [])

/-- The objects printed at the end of a pipeline of runs. -/
inductive Piped (parson : Parson) : ℕ → List JsonObject → Prop
  | mount : Piped parson 0 [m.json]
  | ls {d : ℕ} {objs : List JsonObject} {cfg : LsConfig} {s : LsState} :
    Piped parson d objs → cfg.Listing → Lists fs parson cfg (objs.map parson.line) s →
      Piped parson (d + 1) (jsonObjects s.trace)

/-- All paths of at most `d` names fit. -/
def Mounted.Fits (d : ℕ) : Prop :=
  m.path.length < MNTPATHLEN ∧ ∀ names obj, fs.Walk m.handle names obj → names ≠ [] →
    names.length ≤ d → (fs.objectPath m.path names obj).length < MNTPATHLEN

/-- The path and the handle of an object below the export. -/
def Mounted.Below (d : ℕ) (path : CString) (obj : NfsFh3) : Prop :=
  ∃ names, fs.Walk m.handle names obj ∧ names ≠ [] ∧ names.length ≤ d ∧
    path = fs.objectPath m.path names obj

/-- Or those of the export. -/
def Mounted.Located (d : ℕ) (path : CString) (obj : NfsFh3) : Prop :=
  (path = m.path ∧ obj = m.handle) ∨ m.Below d path obj

end

/-- A line for an object: the fields of it that the next run reads. -/
structure Describes (R : CString → NfsFh3 → Prop) (json : JsonObject) : Prop where
  host : ∃ host, json.lookup "host" = some (.string host)
  ip : ∃ ip, json.lookup "ip" = some (.string (inetNtop ip))
  object : ∃ path obj, R path obj ∧ json.lookup "path" = some (.string path) ∧
    json.lookup "filehandle" = some (.string (nfsFh3ToString obj))

/-! ## Names and paths -/

section
variable {q path name : CString}

/-- The path of an entry, from that of its directory. -/
theorem joinPath_dir (hq : q.getLast? ≠ some '/') (hpath : path = q ∨ path = q ++ ['/'])
    (name : CString) : joinPath path name = q ++ '/' :: name := by
  rcases hpath with rfl | rfl
  · rw [joinPath, if_neg hq]
  · rw [joinPath, if_pos (by simp), List.append_assoc]
    rfl

theorem joinNames_concat (path : CString) (names : List CString) (name : CString) :
    joinNames path (names ++ [name]) = joinNames path names ++ '/' :: name := by
  simp [joinNames]

/-- Joined names do not end in a slash. -/
theorem joinNames_last (hpath : path = ['/'] ∨ path.getLast? ≠ some '/') {names : List CString}
    (hnames : ∀ name ∈ names, name ≠ [] ∧ '/' ∉ name) :
    (joinNames path names).getLast? ≠ some '/' := by
  rcases List.eq_nil_or_concat' names with rfl | ⟨names, name, rfl⟩
  · unfold joinNames
    split_ifs with hp
    · simp
    · simpa using hpath.resolve_left hp
  · obtain ⟨hne, hs⟩ := hnames name (by simp)
    obtain ⟨name', c, rfl⟩ := (List.eq_nil_or_concat' name).resolve_left hne
    rw [joinNames_concat, ← List.cons_append, ← List.append_assoc, List.getLast?_concat]
    intro hc
    exact hs (by simp [Option.some.inj hc])

end

section
variable {fs : FileSystem} (hname : ∀ dir name obj, fs.entry dir name obj → name ≠ [])
include hname

theorem FileSystem.Walk.names {root obj : NfsFh3} {names : List CString} (h : fs.Walk root names obj) :
    ∀ name ∈ names, name ≠ [] ∧ '/' ∉ name := by
  induction h with
  | root => simp
  | entry hwalk htype hentry ih =>
    intro name hmem
    rcases List.mem_append.1 hmem with hmem | hmem
    · exact ih name hmem
    · obtain rfl := List.mem_singleton.1 hmem
      exact ⟨hname _ _ _ hentry, fs.noSlash _ _ _ hentry⟩

/-- The path of an object below the export ends in a slash iff it is a directory. -/
theorem Mounted.objectPath_last (m : Mounted fs) {names : List CString} {obj : NfsFh3}
    (h : fs.Walk m.handle names obj) :
    (fs.objectPath m.path names obj).getLast? = some '/' ↔ fs.type obj = NF3DIR := by
  have hlast := joinNames_last m.path_slash (h.names hname)
  unfold FileSystem.objectPath
  split_ifs with htype
  · simp [htype]
  · rw [List.append_nil]
    exact iff_of_false hlast htype

end

/-! ## Listings -/

/-- An entry of this directory, as it is listed. -/
def FileSystem.EntryOf (fs : FileSystem) (dir : NfsFh3) (e : Entryplus3) : Prop :=
  ∃ name obj, fs.entry dir name obj ∧ e.nameHandle = some obj ∧
    e.name = name ++ if fs.type obj = NF3DIR then ['/'] else []

/-- The procedure lists entries of a directory, and leaves its filehandle alone. -/
def FileSystem.ListsDir (fs : FileSystem) (proc : NfsFhList → List LsEvent → LsResult) : Prop :=
  ∀ fh tr es fh', fs.type fh.nfsFh = NF3DIR → (proc fh tr).1 = .ok (es, fh') →
    fh' = fh ∧ ∀ e ∈ es, fs.EntryOf fh.nfsFh e.toEntryplus3

section
variable {fs : FileSystem} {cfg : LsConfig} {env : LsEnv} {host : CString}
  {nested : NfsFhList → List LsEvent → LsResult} {pages depth : ℕ}

/-- What is added to a listing are entries of the reply. -/
theorem mem_readEntries (es : List Entryplus3) {page : Page} (hl : page.loop = false) (path : CString)
    {e : Entrypluslink3} (he : e ∈ (readEntries cfg env host path es page).entries) :
    (∃ e' ∈ page.entries, e.toEntryplus3 = e'.toEntryplus3) ∨ ∃ e' ∈ es, e.toEntryplus3 = listed e' := by
  have hmap := List.mem_map_of_mem (f := fun e : Entrypluslink3 => e.toEntryplus3) he
  rw [(readEntries_climb cfg env host path es page hl).1, List.mem_append] at hmap
  rcases hmap with hmap | hmap
  · obtain ⟨e', he', heq⟩ := List.mem_map.1 hmap
    exact .inl ⟨e', he', heq.symm⟩
  · obtain ⟨e', he', heq⟩ := List.mem_map.1 hmap
    have hmem := climb_subset _ _ _ he'
    exact .inr ⟨e', (List.mem_filter.1 hmem).1, heq.symm⟩

/-- An entry that a server returns is listed as what it is. -/
theorem FileSystem.Serves.entryOf (hserves : fs.Serves env) {k : ℕ} {args : Readdirplus3args}
    {res : Readdirplus3res} (hres : env.readdirplus k args = some res) (hok : res.status = NFS3_OK)
    {e : Entryplus3} (he : e ∈ res.entries) : fs.EntryOf args.dir (listed e) := by
  obtain ⟨obj, attributes, hentry, hhandle, hattr, htype⟩ :=
    hserves.readdirplus k args res hres hok e he
  refine ⟨e.name, obj, hentry, hhandle, ?_⟩
  simp only [listed, hattr, Option.any_some, htype, decide_eq_true_eq]
  split_ifs
  · rfl
  · rw [List.append_nil]

theorem getattrBody_listsDir (hserves : fs.Serves env) (hl : cfg.listdir = false)
    (hn : fs.ListsDir nested) : fs.ListsDir (getattrBody cfg env host nested) := by
  intro fh tr es fh' hdir h
  obtain ⟨tr', -, hret⟩ := getattrBody_returns_ok h
  cases hret with
  | noReply hr => exact ⟨rfl, by simp⟩
  | dir hr hok htype hq => exact hn fh _ es fh' hdir (congrArg Prod.fst hq)
  | object hr hok htype he => exact absurd ⟨(hserves.getattr _ _ _ hr hok).trans hdir, hl⟩ htype
  | refused hr hok => exact ⟨rfl, by simp⟩

theorem LoopReturns.listsDir (hserves : fs.Serves env) (hn : fs.ListsDir nested)
    {args : Readdirplus3args} {entries es : List Entrypluslink3} {fh fh' : NfsFhList}
    {tr tr' : List LsEvent} (hdir : fs.type fh.nfsFh = NF3DIR)
    (h : LoopReturns cfg env host nested fh args entries tr es fh' tr')
    (hargs : args.dir = fh.nfsFh) (hentries : ∀ e ∈ entries, fs.EntryOf fh.nfsFh e.toEntryplus3) :
    fh' = fh ∧ ∀ e ∈ es, fs.EntryOf fh.nfsFh e.toEntryplus3 := by
  -- a reply adds entries of the directory to those there are
  have hpage : ∀ {args entries tr res}, args.dir = fh.nfsFh →
      (∀ e ∈ entries, fs.EntryOf fh.nfsFh e.toEntryplus3) →
      env.readdirplus tr.length args = some res → res.status = NFS3_OK →
      ∀ e ∈ (replyPage cfg env host fh args entries tr res).entries,
        fs.EntryOf fh.nfsFh e.toEntryplus3 := by
    intro args entries tr res hargs hentries hr hok e he
    rcases mem_readEntries _ rfl _ he with ⟨e', he', heq⟩ | ⟨e', he', heq⟩
    · exact heq ▸ hentries e' he'
    · exact heq ▸ hargs ▸ hserves.entryOf hr hok he'
  induction h with
  | noReply hr => exact ⟨rfl, hentries⟩
  | last hr hok => exact ⟨rfl, hpage hargs hentries hr hok⟩
  | next hr hok _ ih => exact ih hargs (hpage hargs hentries hr hok)
  | @notdir _ _ _ _ es fh' _ hr hok hq =>
    obtain ⟨hfh, hes⟩ := hn fh _ es fh' hdir (congrArg Prod.fst hq)
    refine ⟨hfh, fun e he => ?_⟩
    rcases List.mem_append.1 he with he | he
    · exact hentries e he
    · exact hes e he
  | refused hr hok => exact ⟨rfl, hentries⟩

/-- **A directory** is listed by both procedures as its entries. -/
theorem call_listsDir (hserves : fs.Serves env) (hl : cfg.listdir = false) (proc : LsProc) :
    fs.ListsDir (proc.call cfg env host pages depth) := by
  suffices h : fs.ListsDir (doGetattr cfg env host pages depth) ∧
      fs.ListsDir (doReaddirplus cfg env host pages depth) by
    cases proc with
    | getattr => exact h.1
    | readdirplus => exact h.2
  induction depth with
  | zero =>
    constructor
    · intro fh tr es fh' hdir h
      simp [doGetattr] at h
    · intro fh tr es fh' hdir h
      simp [doReaddirplus] at h
  | succ depth ih =>
    constructor
    · exact getattrBody_listsDir hserves hl ih.2
    · intro fh tr es fh' hdir h
      obtain ⟨tr', -, hret⟩ := readdirplusLoop_returns_ok h
      exact hret.listsDir hserves ih.1 hdir rfl (by simp)

/-- **Anything else** is listed by `do_getattr` as itself, under the name and the directory that its
    path is made of. -/
theorem doGetattr_file (hserves : fs.Serves env) {fh fh' : NfsFhList} {es : List Entrypluslink3}
    {tr : List LsEvent} (hfile : fs.type fh.nfsFh ≠ NF3DIR)
    (h : (doGetattr cfg env host pages depth fh tr).1 = .ok (es, fh')) :
    ∀ e ∈ es, e.nameHandle = some fh.nfsFh ∧ e.name = basename (strncpy MNTPATHLEN fh.path) ∧
      fh'.path = strncpy MNTPATHLEN (dirname fh.path) := by
  cases depth with
  | zero => simp [doGetattr] at h
  | succ depth =>
    obtain ⟨tr', -, hret⟩ := getattrBody_returns_ok h
    cases hret with
    | noReply hr => simp
    | dir hr hok hdir hq => exact absurd ((hserves.getattr _ _ _ hr hok).symm.trans hdir.1) hfile
    | @object res entry _ hr hok hdir he =>
      have hne : res.objAttributes.type ≠ NF3DIR := fun hd =>
        hfile ((hserves.getattr _ _ _ hr hok).symm.trans hd)
      intro e hmem
      obtain rfl := List.mem_singleton.1 hmem
      simp only [getattrEntry, hne, if_false] at he
      split_ifs at he
      · obtain rfl := (Prod.mk.inj he).1
        exact ⟨rfl, rfl, rfl⟩
      · obtain rfl := (Prod.mk.inj he).1
        exact ⟨rfl, rfl, rfl⟩
    | refused hr hok => simp

end

/-! ## Objects below the export -/

section
variable {fs : FileSystem} {m : Mounted fs} {d : ℕ} {path : CString} {obj : NfsFh3}

theorem Mounted.Below.succ (h : m.Below d path obj) : m.Below (d + 1) path obj := by
  obtain ⟨names, hwalk, hne, hlen, hpath⟩ := h
  exact ⟨names, hwalk, hne, by omega, hpath⟩

theorem Mounted.Below.valid (h : m.Below d path obj) : obj.Valid := by
  obtain ⟨names, hwalk, hne, -⟩ := h
  cases hwalk with
  | root => exact absurd rfl hne
  | entry _ _ hentry => exact fs.valid _ _ _ hentry

theorem Mounted.Located.valid (h : m.Located d path obj) : obj.Valid := by
  rcases h with ⟨-, rfl⟩ | h
  · exact m.root_valid
  · exact h.valid

theorem Mounted.Located.fits (h : m.Located d path obj) (hfits : m.Fits d) :
    path.length < MNTPATHLEN := by
  rcases h with ⟨rfl, -⟩ | ⟨names, hwalk, hne, hlen, rfl⟩
  · exact hfits.1
  · exact hfits.2 names obj hwalk hne hlen

theorem Mounted.Fits.of_succ (h : m.Fits (d + 1)) : m.Fits d :=
  ⟨h.1, fun names obj hwalk hne hlen => h.2 names obj hwalk hne (by omega)⟩

/-- A path that is stored is that of a directory, with a slash at its end or not, or that of
    something else, without. -/
theorem Mounted.Located.cases (h : m.Located d path obj) :
    ∃ names, fs.Walk m.handle names obj ∧ names.length ≤ d ∧
      ((fs.type obj = NF3DIR ∧
          (path = joinNames m.path names ∨ path = joinNames m.path names ++ ['/'])) ∨
        (fs.type obj ≠ NF3DIR ∧ names ≠ [] ∧ path = joinNames m.path names)) := by
  rcases h with ⟨rfl, rfl⟩ | ⟨names, hwalk, hne, hlen, rfl⟩
  · refine ⟨[], .root, Nat.zero_le d, .inl ⟨m.root_dir, ?_⟩⟩
    by_cases hp : m.path = ['/']
    · exact .inr (by simp [joinNames, hp])
    · exact .inl (by simp [joinNames, hp])
  · refine ⟨names, hwalk, hlen, ?_⟩
    unfold FileSystem.objectPath
    split_ifs with htype
    · exact .inl ⟨htype, .inr rfl⟩
    · exact .inr ⟨htype, hne, List.append_nil _⟩

variable (hname : ∀ dir name obj, fs.entry dir name obj → name ≠ [])
include hname

/-- **The objects that are listed** from a path below the export are below it, and their names lead
    back to their paths. -/
theorem Mounted.Located.listed {cfg : LsConfig} {env : LsEnv} {host : CString} {pages depth : ℕ}
    {fh fh' : NfsFhList} {es : List Entrypluslink3} {tr : List LsEvent}
    (hserves : fs.Serves env) (hl : cfg.listdir = false) (hfits : m.Fits d)
    (hloc : m.Located d path fh.nfsFh) (hpath : fh.path = strncpy MNTPATHLEN path)
    (h : ((chooseProc cfg fh.path).call cfg env host pages depth fh tr).1 = .ok (es, fh')) :
    ∀ e ∈ es, ∃ obj, e.nameHandle = some obj ∧ m.Below (d + 1) (joinPath fh'.path e.name) obj := by
  intro e he
  have hlt := hloc.fits hfits
  rw [strncpy_of_lt hlt.le] at hpath
  obtain ⟨names, hwalk, hlen, ⟨htype, hcases⟩ | ⟨htype, hne, hcases⟩⟩ := hloc.cases
  · -- an entry of a directory
    obtain ⟨rfl, hes⟩ := call_listsDir hserves hl _ fh tr es fh' htype h
    obtain ⟨name, obj, hentry, hhandle, hshown⟩ := hes e he
    have hlast := joinNames_last m.path_slash (hwalk.names hname)
    refine ⟨obj, hhandle, names ++ [name], hwalk.entry htype hentry, by simp, by simp [hlen], ?_⟩
    rw [show e.name = _ from hshown, hpath, joinPath_dir hlast hcases, FileSystem.objectPath,
      joinNames_concat, List.append_assoc]
    rfl
  · -- the file itself
    have hlast := joinNames_last m.path_slash (hwalk.names hname)
    have hproc : chooseProc cfg fh.path = .getattr := by
      rw [hpath, hcases]
      exact if_pos (.inr hlast)
    rw [hproc] at h
    obtain ⟨hhandle, hbase, hdirname⟩ := doGetattr_file hserves htype h e he
    refine ⟨fh.nfsFh, hhandle, names, hwalk, hne, by omega, ?_⟩
    obtain ⟨names, name, rfl⟩ := (List.eq_nil_or_concat' names).resolve_left hne
    obtain ⟨hname0, hs⟩ := hwalk.names hname name (by simp)
    have hlast' := joinNames_last m.path_slash fun n hn => hwalk.names hname n (List.mem_append_left _ hn)
    rw [joinNames_concat] at hcases
    have hdir : (dirname path).length ≤ path.length := by
      rw [hcases]
      by_cases hq : joinNames m.path names = []
      · rw [hq, List.nil_append, dirname_root hname0 hs]
        simp
      · rw [dirname_dir hq hlast' hname0 hs]
        simp
    rw [hbase, hdirname, hpath, strncpy_of_lt hlt.le, strncpy_of_lt (hdir.trans hlt.le), hcases,
      joinPath_file hlast' hname0 hs, FileSystem.objectPath, if_neg htype, joinNames_concat,
      List.append_nil]

end

/-! ## One run -/

/-- The entries of a filehandle of this target are printed in this trace. -/
def EntriesPrinted (t : Target) (fh : NfsFhList) (tr : List LsEvent) : Prop :=
  ∀ e ∈ fh.entries, ∃ usec, printEntrypluslink3 t.name e t.ipAddress fh.path usec ∈ jsonObjects tr

theorem EntriesPrinted.mono {t : Target} {fh : NfsFhList} {tr tr' : List LsEvent}
    (h : EntriesPrinted t fh tr) (hsub : jsonObjects tr ⊆ jsonObjects tr') :
    EntriesPrinted t fh tr' := by
  intro e he
  obtain ⟨usec, hmem⟩ := h e he
  exact ⟨usec, hsub hmem⟩

/-- A target whose filehandles have such paths and handles. -/
structure TargetOf (R : CString → NfsFh3 → Prop) (t : Target) : Prop where
  ip : ∃ ip, t.ipAddress = inetNtop ip
  filehandles : ∀ fh ∈ t.filehandles, ∃ path, R path fh.nfsFh ∧ fh.path = strncpy MNTPATHLEN path

/-- The state of the loop over the filehandles of a target, if what is printed describes such
    objects. -/
structure OutputOf (R : CString → NfsFh3 → Prop) (t : Target) (st : Target × LsRun) : Prop where
  name : st.1.name = t.name
  ip : st.1.ipAddress = t.ipAddress
  describes : ∀ json ∈ jsonObjects st.2.trace, Describes R json

/-- What is printed for an entry. -/
theorem printEntrypluslink3_describes {R : CString → NfsFh3 → Prop} {e : Entrypluslink3} {obj : NfsFh3}
    {path : CString} (hhandle : e.nameHandle = some obj) (hR : R (joinPath path e.name) obj)
    (host : CString) (ip : InAddr) (usec : ℕ) :
    Describes R (printEntrypluslink3 host e (inetNtop ip) path usec) where
  host := ⟨host, rfl⟩
  ip := ⟨ip, rfl⟩
  object := by
    have hobj : e.handle = obj := by rw [Entryplus3.handle, hhandle, Option.getD_some]
    refine ⟨_, obj, hR, rfl, ?_⟩
    rw [← hobj]
    rfl

section
variable {cfg : LsConfig} {env : LsEnv} {pages depth i : ℕ} {fh fh' : NfsFhList}

/-- What a listing adds to the output. -/
theorem lsFilehandle_json (hj : cfg.format = .json) {st st' : Target × LsRun}
    (h : lsFilehandle cfg env pages depth i fh st = .ok (fh', st')) : ∃ es fh'' usec,
      ((chooseProc cfg fh.path).call cfg env st.1.name pages depth fh st.2.trace).1 = .ok (es, fh'') ∧
      fh'.entries = es ∧ fh'.path = fh''.path ∧ st'.1.name = st.1.name ∧
      st'.1.ipAddress = st.1.ipAddress ∧
      jsonObjects st'.2.trace = jsonObjects st.2.trace ++
        (es.filter fun e => e.handle.data ≠ []).map fun e =>
          printEntrypluslink3 st.1.name e st.1.ipAddress fh''.path usec := by
  have hno := call_noOutput cfg env st.1.name pages depth (chooseProc cfg fh.path) fh st.2.trace
  obtain ⟨es, fh'', tr, stats, hcall, -, rfl, htarget, htrace, -⟩ := lsFilehandle_ok h
  rw [hcall] at hno ⊢
  refine ⟨es, fh'', env.usec tr.length, rfl, rfl, rfl, by rw [htarget]; rfl, by rw [htarget]; rfl, ?_⟩
  rw [htrace, jsonObjects_append, jsonObjects_output, if_pos hj]
  exact congrArg (· ++ _) hno

variable {fs : FileSystem} {m : Mounted fs} {d : ℕ}
  (hname : ∀ dir name obj, fs.entry dir name obj → name ≠ []) (hserves : fs.Serves env)
  (hcfg : cfg.Listing) (hfits : m.Fits d)
include hname hserves hcfg hfits

/-- One listing: all that is printed describes objects below the export, and all that is listed is
    printed. -/
theorem lsFilehandle_printed {t : Target} (ht : TargetOf (m.Located d) t) {st st' : Target × LsRun}
    (hfh : fh ∈ t.filehandles) (hst : OutputOf (m.Below (d + 1)) t st)
    (h : lsFilehandle cfg env pages depth i fh st = .ok (fh', st')) :
    OutputOf (m.Below (d + 1)) t st' ∧ EntriesPrinted t fh' st'.2.trace ∧
      jsonObjects st.2.trace ⊆ jsonObjects st'.2.trace := by
  obtain ⟨⟨ip, hip⟩, hfhs⟩ := ht
  obtain ⟨hn, hi, hd⟩ := hst
  obtain ⟨path, hloc, hpath⟩ := hfhs fh hfh
  obtain ⟨es, fh'', usec, hcall, hes, hpath', hn', hi', hout⟩ := lsFilehandle_json hcfg.json h
  have hbelow := hloc.listed hname hserves hcfg.listdir hfits hpath hcall
  refine ⟨⟨hn'.trans hn, hi'.trans hi, ?_⟩, ?_, ?_⟩
  · intro json hjson
    rw [hout] at hjson
    rcases List.mem_append.1 hjson with hjson | hjson
    · exact hd json hjson
    · obtain ⟨e, he, rfl⟩ := List.mem_map.1 hjson
      obtain ⟨obj, hhandle, hobj⟩ := hbelow e (List.mem_filter.1 he).1
      rw [hi, hip]
      exact printEntrypluslink3_describes hhandle hobj _ _ _
  · intro e he
    rw [hes] at he
    obtain ⟨obj, hhandle, hobj⟩ := hbelow e he
    have hne : e.handle.data ≠ [] := by
      rw [Entryplus3.handle, hhandle, Option.getD_some]
      exact hobj.valid.1
    refine ⟨usec, ?_⟩
    rw [hout, hpath', ← hn, ← hi]
    exact List.mem_append_right _ (List.mem_map.2 ⟨e, List.mem_filter.2 ⟨he, by simpa using hne⟩, rfl⟩)
  · rw [hout]
    exact List.subset_append_left _ _

/-- **A target**, whose filehandles are listed one after the other. -/
theorem lsTarget_printed {t t' : Target} {run run' : LsRun} (ht : TargetOf (m.Located d) t)
    (hrun : ∀ json ∈ jsonObjects run.trace, Describes (m.Below (d + 1)) json)
    (h : lsTarget cfg env pages depth i t run = .ok (t', run')) :
    (∀ json ∈ jsonObjects run'.trace, Describes (m.Below (d + 1)) json) ∧
      (∀ fh ∈ t'.filehandles, EntriesPrinted t' fh run'.trace) ∧
      jsonObjects run.trace ⊆ jsonObjects run'.trace := by
  obtain ⟨run₁, fhs, target, hconn, hw, rfl⟩ := lsTarget_ok h
  have hrun₁ : jsonObjects run₁.trace = jsonObjects run.trace := by
    rcases lsConnect_ok hconn with rfl | rfl
    · rfl
    · rw [jsonObjects_append]
      exact List.append_nil _
  have hstep : ∀ k fh st fh' st', t.filehandles[k]? = some fh →
      (OutputOf (m.Below (d + 1)) t st ∧ jsonObjects run.trace ⊆ jsonObjects st.2.trace) →
      lsFilehandle cfg env pages depth (0 + k) fh st = .ok (fh', st') →
      (OutputOf (m.Below (d + 1)) t st' ∧ jsonObjects run.trace ⊆ jsonObjects st'.2.trace) ∧
        EntriesPrinted t fh' st'.2.trace ∧
        ∀ (j : ℕ) b, j < k → EntriesPrinted t b st.2.trace → EntriesPrinted t b st'.2.trace := by
    intro k fh st fh' st' hk ⟨hst, hsub⟩ hf
    obtain ⟨hst', hprinted, hsub'⟩ := lsFilehandle_printed hname hserves hcfg hfits ht
      (List.mem_of_getElem? hk) hst hf
    exact ⟨⟨hst', List.Subset.trans hsub hsub'⟩, hprinted, fun _ _ _ hb => hb.mono hsub'⟩
  have hstart : OutputOf (m.Below (d + 1)) t ({ t with client := true }, run₁) := by
    refine ⟨rfl, rfl, ?_⟩
    rwa [hrun₁]
  obtain ⟨⟨⟨hn, hi, hd⟩, hsub⟩, hprinted⟩ := walk_each
    (P := fun _ st => OutputOf (m.Below (d + 1)) t st ∧ jsonObjects run.trace ⊆ jsonObjects st.2.trace)
    (Q := fun _ fh st => EntriesPrinted t fh st.2.trace) hstep ⟨hstart, by rw [hrun₁]; simp⟩ hw
  refine ⟨hd, ?_, hsub⟩
  intro fh hfh e he
  obtain ⟨j, hj⟩ := List.mem_iff_getElem?.1 hfh
  obtain ⟨usec, hmem⟩ := hprinted j fh hj e he
  rw [← hn, ← hi] at hmem
  exact ⟨usec, hmem⟩

/-- **A round** over such targets. -/
theorem lsRound_printed {s s' : LsState} (hts : ∀ t ∈ s.targets, TargetOf (m.Located d) t)
    (htr : s.trace = []) (h : lsRound cfg env pages depth i s = .ok s') :
    (∀ json ∈ jsonObjects s'.trace, Describes (m.Below (d + 1)) json) ∧
      ∀ t ∈ s'.targets, ∀ fh ∈ t.filehandles, EntriesPrinted t fh s'.trace := by
  obtain ⟨targets, run, more, hw, -, rfl⟩ := lsRound_ok h
  have hstep : ∀ k t run t' run', s.targets[k]? = some t →
      (∀ json ∈ jsonObjects run.trace, Describes (m.Below (d + 1)) json) →
      lsTarget cfg env pages depth (0 + k) t run = .ok (t', run') →
      (∀ json ∈ jsonObjects run'.trace, Describes (m.Below (d + 1)) json) ∧
        (∀ fh ∈ t'.filehandles, EntriesPrinted t' fh run'.trace) ∧
        ∀ (j : ℕ) (b : Target), j < k → (∀ fh ∈ b.filehandles, EntriesPrinted b fh run.trace) →
          ∀ fh ∈ b.filehandles, EntriesPrinted b fh run'.trace := by
    intro k t run t' run' hk hrun hf
    obtain ⟨hd, hprinted, hsub⟩ := lsTarget_printed hname hserves hcfg hfits
      (hts t (List.mem_of_getElem? hk)) hrun hf
    exact ⟨hd, hprinted, fun _ _ _ hb fh hfh => (hb fh hfh).mono hsub⟩
  obtain ⟨hd, hprinted⟩ := walk_each
    (P := fun _ run => ∀ json ∈ jsonObjects run.trace, Describes (m.Below (d + 1)) json)
    (Q := fun _ t run => ∀ fh ∈ t.filehandles, EntriesPrinted t fh run.trace) hstep
    (by simp [htr, jsonObjects]) hw
  simp only [hcfg.json, reduceCtorEq, if_false, List.append_nil]
  refine ⟨hd, ?_⟩
  intro t ht
  obtain ⟨j, hj⟩ := List.mem_iff_getElem?.1 ht
  exact hprinted j t hj

end

/-! ## The lines of the next run -/

section
variable {R : CString → NfsFh3 → Prop} (parson : Parson) {json : JsonObject}

/-- **A line** is read as the path and the handle that it was printed for. -/
theorem fhLine_line {path : CString} {obj : NfsFh3} (hvalid : obj.Valid)
    (hpath : json.lookup "path" = some (.string path))
    (hfh : json.lookup "filehandle" = some (.string (nfsFh3ToString obj))) :
    let l := fhLine parson.getString (parson.line json)
    l.path = path ∧ l.filehandle = nfsFh3ToString obj ∧ l.handle = obj := by
  have hpath := parson.getString_line json "path" path hpath
  have hfh := parson.getString_line json "filehandle" _ hfh
  have hline : (fhLine parson.getString (parson.line json)).filehandle = nfsFh3ToString obj := by
    simp [fhLine, hfh]
  refine ⟨by simp [fhLine, hpath], hline, ?_⟩
  rw [FhLine.handle, hline]
  exact congrArg NfsFh3.mk (hexBytes_take_toString hvalid.2)

/-- It is accepted. -/
theorem Describes.handleLine (hvalid : ∀ path obj, R path obj → obj.Valid) (h : Describes R json) :
    ∃ tmp, HandleLine parson.getString (parson.line json) tmp ∧ LengthOk tmp := by
  obtain ⟨⟨host, hhost⟩, ⟨ip, hip⟩, path, obj, hR, hpath, hfh⟩ := h
  have hhost := parson.getString_line json "host" host hhost
  have hip := parson.getString_line json "ip" _ hip
  have hpath := parson.getString_line json "path" path hpath
  have hfh := parson.getString_line json "filehandle" _ hfh
  obtain ⟨hne, hle⟩ := hvalid path obj hR
  refine ⟨_, ⟨?_, by simp [hhost], by simp [hpath], hfh⟩, lengthOk_toString hne hle⟩
  rintro (h | h)
  · exact parson.line_ne_nil json h
  · simp [hip, inetPton_inetNtop] at h

/-- **The targets** of the next run, which have the paths and the handles that are described. -/
theorem parseLines_describes (hvalid : ∀ path obj, R path obj → obj.Valid) {objs : List JsonObject}
    (h : ∀ json ∈ objs, Describes R json) (junk : ℕ → UInt8) (port : UInt16) (count : ℕ) :
    ∃ ts, parseLines parson.getString junk port count dummyTargets (objs.map parson.line) =
      .ok (dummyTargets ++ ts) ∧ ∀ t ∈ ts, TargetOf R t := by
  have hlines : ∀ input ∈ objs.map parson.line, ∃ json ∈ objs, parson.line json = input :=
    fun input hi => List.mem_map.1 hi
  have hacc : AllAccepted parson.getString junk port count dummyTargets (objs.map parson.line) := by
    refine allAccepted_of_handleLine dummyTargets_allocated fun input hi => ?_
    obtain ⟨json, hjson, rfl⟩ := hlines input hi
    exact (h json hjson).handleLine parson hvalid
  have hx : ∀ input ∈ objs.map parson.line, HexText (fhLine parson.getString input).filehandle := by
    intro input hi
    obtain ⟨json, hjson, rfl⟩ := hlines input hi
    obtain ⟨-, -, path, obj, hR, hpath, hfh⟩ := h json hjson
    rw [(fhLine_line parson (hvalid path obj hR) hpath hfh).2.1]
    exact hexText_toString obj.data
  refine ⟨_, parseLines_table hacc hx, ?_⟩
  intro t ht
  obtain ⟨addr, -, rfl⟩ := List.mem_map.1 ht
  refine ⟨⟨addr, groupTarget_ipAddress addr _⟩, ?_⟩
  intro fh hfh
  obtain ⟨-, -, hfhs, -⟩ := @foldl_addLine count
    (Grouping.group FhLine.addr addr ((objs.map parson.line).map (fhLine parson.getString)))
    (newTarget addr port count)
  rw [show (groupTarget port count addr _).filehandles = _ from hfhs] at hfh
  obtain ⟨l, hl, rfl⟩ := List.mem_map.1 (show fh ∈ List.map _ _ from hfh)
  obtain ⟨input, hi, rfl⟩ := List.mem_map.1 (List.mem_filter.1 hl).1
  obtain ⟨json, hjson, rfl⟩ := hlines input hi
  obtain ⟨-, -, path, obj, hR, hpath, hfh⟩ := h json hjson
  obtain ⟨hpath', -, hobj⟩ := fhLine_line parson (hvalid path obj hR) hpath hfh
  rw [← hpath', ← hobj] at hR
  exact ⟨_, hR, rfl⟩

end

/-! ## Pipelines -/

section
variable {fs : FileSystem} {m : Mounted fs} {parson : Parson} {d : ℕ} {objs : List JsonObject}
  {cfg : LsConfig} {s : LsState}

/-- There is one round only. -/
theorem lsMore_listing {env : LsEnv} (hcfg : cfg.Listing) (targets : List Target) (events : ℕ) :
    lsMore cfg env targets events = .ok false := by
  simp only [lsMore, hcfg.loop, hcfg.count, Bool.false_eq_true, if_false, if_true, ite_self]

theorem lsRound_last {env : LsEnv} {pages depth i : ℕ} {s s' : LsState} (hcfg : cfg.Listing)
    (h : lsRound cfg env pages depth i s = .ok s') : s'.more = false := by
  obtain ⟨targets, run, more, -, hmore, rfl⟩ := lsRound_ok h
  rw [lsMore_listing hcfg] at hmore
  exact (Except.ok.inj hmore).symm

/-- The line of `nfsmount` describes the export. -/
theorem Mounted.json_describes (m : Mounted fs) : Describes (m.Located 0) m.json := by
  have hlookup (key : String) (h : key ∉ ["version", "filehandle", "timestamp", "usec"]) :
      m.json.lookup key = ((initExport m.target m.path 0).jsonRoot.getD []).lookup key := by
    simp only [List.mem_cons, List.not_mem_nil, or_false, not_or] at h
    obtain ⟨hv, hf, ht, hu⟩ := h
    simp only [Mounted.json, printFhandle3]
    rw [jsonSet_lookup_ne hv, jsonSet_lookup_ne hf, jsonSet_lookup_ne ht, jsonSet_lookup_ne hu]
  refine ⟨⟨m.target.name, ?_⟩, ⟨m.ip, ?_⟩, m.path, m.handle, .inl ⟨rfl, rfl⟩, ?_, ?_⟩
  · rw [hlookup "host" (by decide)]
    rfl
  · rw [hlookup "ip" (by decide), ← m.target_ip]
    rfl
  · rw [hlookup "path" (by decide)]
    rfl
  · exact printFhandle3_filehandle m.cfg m.root m.usec m.timestamp _

variable (hname : ∀ dir name obj, fs.entry dir name obj → name ≠ [])
include hname

/-- **One run** over lines that describe the export and objects below it. -/
theorem Lists.printed (hs : Lists fs parson cfg (objs.map parson.line) s) (hcfg : cfg.Listing)
    (hfits : m.Fits d) (hobjs : ∀ json ∈ objs, Describes (m.Located d) json) :
    (∀ json ∈ jsonObjects s.trace, Describes (m.Below (d + 1)) json) ∧
      ∀ t ∈ s.targets, ∀ fh ∈ t.filehandles, EntriesPrinted t fh s.trace := by
  obtain ⟨env, pages, depth, junk, fuel, n, hserves, hmain⟩ := hs
  unfold lsMain at hmain
  simp only [bind_eq_ok] at hmain
  obtain ⟨targets, hparse, hpoll⟩ := hmain
  obtain ⟨ts, hts, htargets⟩ := parseLines_describes parson (fun _ _ h => h.valid) hobjs junk cfg.port
    (if cfg.format = .fping ∨ cfg.format = .longform then cfg.count else 0)
  obtain rfl := Except.ok.inj (hts.symm.trans hparse)
  obtain ⟨k, -, -, hrounds, -, hmore⟩ := poll_eq_some.1 hpoll
  obtain ⟨s₁, hround, hrest⟩ := rounds_succ_eq_ok.1 hrounds
  cases k with
  | zero =>
    obtain rfl := Except.ok.inj hrest
    exact lsRound_printed hname hserves hcfg hfits htargets rfl hround
  | succ k =>
    have hagain := hmore 0 s₁ k.succ_pos (rounds_succ_eq_ok.2 ⟨s₁, hround, rfl⟩)
    rw [lsRound_last hcfg hround] at hagain
    cases hagain

/-- **All runs**: what comes out of a pipeline describes the export, or objects below it. -/
theorem Piped.describes (h : Piped m parson d objs) (hfits : m.Fits d) :
    ∀ json ∈ objs, Describes (m.Located d) json := by
  induction h with
  | mount =>
    intro json hjson
    obtain rfl := List.mem_singleton.1 hjson
    exact m.json_describes
  | @ls d objs cfg s _ hcfg hs ih =>
    intro json hjson
    obtain ⟨hhost, hip, path, obj, hobj, hfields⟩ :=
      (hs.printed hname hcfg hfits.of_succ (ih hfits.of_succ)).1 json hjson
    exact ⟨hhost, hip, path, obj, .inr hobj, hfields⟩

end

/-- **Recursive listing composes.**  On every file system without empty names, for every export
    path that fits, every run at the end of a pipeline that started with the line of `nfsmount` prints
    every object that it lists; what it prints are the paths and the handles of objects below the
    export, and the next run starts with READDIRPLUS exactly for the directories among them. -/
theorem lsMain_pipeline (fs : FileSystem) (hname : ∀ dir name obj, fs.entry dir name obj → name ≠ [])
    (parson : Parson) (m : Mounted fs) (d : ℕ) (hfits : m.Fits (d + 1)) (objs : List JsonObject)
    (hpiped : Piped m parson d objs) (cfg : LsConfig) (hcfg : cfg.Listing) (s : LsState)
    (hs : Lists fs parson cfg (objs.map parson.line) s) :
    (∀ t ∈ s.targets, ∀ fh ∈ t.filehandles, ∀ e ∈ fh.entries, ∃ usec,
      printEntrypluslink3 t.name e t.ipAddress fh.path usec ∈ jsonObjects s.trace) ∧
    ∀ json ∈ jsonObjects s.trace, ∃ names obj,
      fs.Walk m.handle names obj ∧ names ≠ [] ∧ names.length ≤ d + 1 ∧
      json.lookup "path" = some (.string (fs.objectPath m.path names obj)) ∧
      json.lookup "filehandle" = some (.string (nfsFh3ToString obj)) ∧
      (fhLine parson.getString (parson.line json)).path = fs.objectPath m.path names obj ∧
      (fhLine parson.getString (parson.line json)).handle = obj ∧
      ∀ cfg', LsConfig.Listing cfg' →
        (chooseProc cfg' (strncpy MNTPATHLEN (fs.objectPath m.path names obj)) = .readdirplus ↔
          fs.type obj = NF3DIR) := by
  obtain ⟨hdesc, hprinted⟩ := hs.printed hname hcfg hfits.of_succ
    (hpiped.describes hname hfits.of_succ)
  refine ⟨hprinted, ?_⟩
  intro json hjson
  obtain ⟨-, -, path, obj, hbelow, hpath, hfh⟩ := hdesc json hjson
  have hlt := (show m.Located (d + 1) path obj from .inr hbelow).fits hfits
  obtain ⟨hline, -, hhandle⟩ := fhLine_line parson hbelow.valid hpath hfh
  obtain ⟨names, hwalk, hne, hlen, rfl⟩ := hbelow
  refine ⟨names, obj, hwalk, hne, hlen, hpath, hfh, hline, hhandle, ?_⟩
  intro cfg' hcfg'
  rw [strncpy_of_lt hlt.le, ← m.objectPath_last hname hwalk, chooseProc, hcfg'.listdir]
  by_cases hlast : (fs.objectPath m.path names obj).getLast? = some '/'
  · simp [hlast]
  · simp [hlast]

/-! ## Small trees -/

/-- A file system with these directories, and these entries: directory, name and object. -/
structure Tree where
  dirs : List NfsFh3
  entries : List (NfsFh3 × CString × NfsFh3)
  valid : ∀ e ∈ entries, '/' ∉ e.2.1 ∧ e.2.2.Valid

def Tree.type (tree : Tree) (obj : NfsFh3) : Ftype3 := if obj ∈ tree.dirs then NF3DIR else 1

def Tree.fileSystem (tree : Tree) : FileSystem where
  type := tree.type
  entry dir name obj := (dir, name, obj) ∈ tree.entries
  noSlash dir name obj h := (tree.valid (dir, name, obj) h).1
  valid dir name obj h := (tree.valid (dir, name, obj) h).2

/-- A server that returns a directory in one reply. -/
def Tree.env (tree : Tree) : LsEnv where
  getattr _ fh := some { objAttributes := { type := tree.type fh } }
  readdirplus _ args := some
    { entries := (tree.entries.filter (·.1 = args.dir)).zipIdx.map fun (e, i) =>
        { name := e.2.1
          cookie := .ofNat (i + 1)
          nameAttributes := some { type := tree.type e.2.2 }
          nameHandle := some e.2.2 }
      eof := true }
  readlink _ _ := none

theorem Tree.serves (tree : Tree) : tree.fileSystem.Serves tree.env where
  getattr k fh res hres _ := by
    obtain rfl := Option.some.inj hres
    rfl
  readdirplus k args res hres _ e he := by
    obtain rfl := Option.some.inj hres
    obtain ⟨⟨⟨dir, name, obj⟩, i⟩, hmem, rfl⟩ := List.mem_map.1 he
    obtain ⟨hentry, hdir⟩ := List.mem_filter.1 (List.fst_mem_of_mem_zipIdx hmem)
    obtain rfl : dir = args.dir := by simpa using hdir
    exact ⟨obj, _, hentry, rfl, rfl, rfl⟩

/-- The export of such a tree at a path; the handle of its root is `[1]`. -/
def Tree.mounted (tree : Tree) (path : CString) (hpath : path = ['/'] ∨ path.getLast? ≠ some '/')
    (hroot : (⟨[1]⟩ : NfsFh3) ∈ tree.dirs) : Mounted tree.fileSystem where
  cfg := {}
  target := { name := "s".toList, ipAddress := "10.0.0.1".toList }
  path := path
  root := { len := 1, val := [1] }
  usec := 0
  timestamp := 0
  ip := ⟨10, 0, 0, 1⟩
  target_ip := by decide
  path_slash := hpath
  root_valid := by decide
  root_dir := if_pos hroot

/-- What a run over lines prints, if it ends. -/
def Tree.printed (tree : Tree) (cfg : LsConfig) (lines : List CString) : Option (List JsonObject) :=
  match lsMain cfg tree.env 1 2 (jsonObjectGetString .naturals) (fun _ => 0) lines 1 with
  | .ok (some (_, s)) => some (jsonObjects s.trace)
  | _ => none

theorem Tree.lists {tree : Tree} {cfg : LsConfig} {objs objs' : List JsonObject}
    (hobjs : ∀ obj ∈ objs, LegibleObject obj)
    (h : tree.printed cfg (objs.map (textLine .naturals)) = some objs') :
    ∃ s, Lists tree.fileSystem (parsonOf .naturals) cfg (objs.map (parsonOf .naturals).line) s ∧
      jsonObjects s.trace = objs' := by
  unfold Tree.printed at h
  split at h
  · rename_i n s hmain
    rw [show jsonObjectGetString .naturals = jsonObjectGetString Numbers.naturals.toDoubles from rfl,
      ← lsMain_parsonOf hobjs] at hmain
    exact ⟨s, ⟨tree.env, 1, 2, fun _ => 0, 1, n, tree.serves, hmain⟩, Option.some.inj h⟩
  · cases h

/-- The object printed for an entry of such a tree. -/
def treeJson (path name : String) (obj : NfsFh3) (attributes : Fattr3) (cookie : UInt64) : JsonObject :=
  printEntrypluslink3 "s".toList
    { name := name.toList, cookie, nameAttributes := some attributes, nameHandle := some obj }
    "10.0.0.1".toList path.toList 0

theorem treeJson_legible {path name : String} {obj : NfsFh3} {attributes : Fattr3} {cookie : UInt64}
    (h : Ascii (joinPath path.toList name.toList)) :
    LegibleObject (treeJson path name obj attributes cookie) := by
  rw [treeJson, printEntrypluslink3_given]
  exact legible_given (Ascii.legible (s := "s".toList) (by decide))
    (Ascii.legible (s := "10.0.0.1".toList) (by decide)) h.legible

theorem Tree.mounted_legible {tree : Tree} {path : CString} (hpath : path = ['/'] ∨ path.getLast? ≠ some '/')
    (hroot : (⟨[1]⟩ : NfsFh3) ∈ tree.dirs) (h : Ascii path) :
    LegibleObject (tree.mounted path hpath hroot).json :=
  legible_given (p := .mount {} { name := "s".toList, ipAddress := "10.0.0.1".toList } path []
    { len := 1, val := [1] } 0 0) (Ascii.legible (s := "s".toList) (by decide))
    (Ascii.legible (s := "10.0.0.1".toList) (by decide)) h.legible

/-- A directory, and a file in it. -/
def twoLevels : Tree where
  dirs := [⟨[1]⟩, ⟨[2]⟩]
  entries := [(⟨[1]⟩, "d".toList, ⟨[2]⟩), (⟨[2]⟩, "f".toList, ⟨[3]⟩)]
  valid := by decide

/-- Its export. -/
def twoLevelsAt : Mounted twoLevels.fileSystem := twoLevels.mounted "/x".toList (by decide) (by decide)

theorem twoLevels_walk {names : List CString} {obj : NfsFh3}
    (h : twoLevels.fileSystem.Walk twoLevelsAt.handle names obj) :
    (names, obj) ∈ [([], ⟨[1]⟩), (["d".toList], ⟨[2]⟩), (["d".toList, "f".toList], (⟨[3]⟩ : NfsFh3))] := by
  induction h with
  | root => simp [twoLevelsAt, Tree.mounted, Mounted.handle]
  | @entry names dir obj name _ _ hentry ih =>
    have hentry : (dir, name, obj) ∈ twoLevels.entries := hentry
    simp only [twoLevels, List.mem_cons, List.not_mem_nil, or_false, Prod.mk.injEq] at hentry ih ⊢
    rcases hentry with ⟨rfl, rfl, rfl⟩ | ⟨rfl, rfl, rfl⟩
    · rcases ih with ⟨rfl, -⟩ | ⟨-, h⟩ | ⟨-, h⟩
      · simp
      · cases h
      · cases h
    · rcases ih with ⟨-, h⟩ | ⟨rfl, -⟩ | ⟨-, h⟩
      · cases h
      · simp
      · cases h

theorem twoLevels_fits : twoLevelsAt.Fits 2 := by
  refine ⟨by decide, fun names obj hwalk _ _ => ?_⟩
  have hcases := twoLevels_walk hwalk
  simp only [List.mem_cons, List.not_mem_nil, or_false, Prod.mk.injEq] at hcases
  rcases hcases with ⟨rfl, rfl⟩ | ⟨rfl, rfl⟩ | ⟨rfl, rfl⟩
  · decide
  · decide
  · decide

/-- What is printed for the directory of the tree, and for the file in it. -/
def directoryJson : JsonObject := treeJson "/x" "d/" ⟨[2]⟩ { type := NF3DIR } 1

def fileJson : JsonObject := treeJson "/x/d" "f" ⟨[3]⟩ { type := 1 } 1

theorem directoryJson_printed :
    twoLevels.printed {} ([directoryJson].map (textLine .naturals)) = some [fileJson] := by
  decide +kernel

theorem lsMain_pipeline_twoLevels : ∃ objs s, Piped twoLevelsAt (parsonOf .naturals) 1 objs ∧
    Lists twoLevels.fileSystem (parsonOf .naturals) {} (objs.map (parsonOf .naturals).line) s ∧
    jsonPaths s.trace = [.string "/x/d/f".toList] ∧
    ∀ json ∈ jsonObjects s.trace, ∃ names obj, twoLevels.fileSystem.Walk twoLevelsAt.handle names obj ∧
      json.lookup "path" =
        some (.string (twoLevels.fileSystem.objectPath "/x".toList names obj)) ∧
      (fhLine (parsonOf .naturals).getString ((parsonOf .naturals).line json)).handle = obj := by
  have hfst : twoLevels.printed {} ([twoLevelsAt.json].map (textLine .naturals)) = some [directoryJson] := by
    decide +kernel
  have hroot : LegibleObject twoLevelsAt.json := Tree.mounted_legible _ _ (by decide)
  have hdir : LegibleObject directoryJson := treeJson_legible (by decide)
  have hcfg : LsConfig.Listing {} := ⟨rfl, rfl, rfl, rfl⟩
  have hname : ∀ e ∈ twoLevels.entries, e.2.1 ≠ [] := by decide
  obtain ⟨s₁, hs₁, htr₁⟩ := Tree.lists (List.forall_mem_singleton.2 hroot) hfst
  obtain ⟨s₂, hs₂, htr₂⟩ := Tree.lists (List.forall_mem_singleton.2 hdir) directoryJson_printed
  have hpiped := Piped.ls (m := twoLevelsAt) .mount hcfg hs₁
  rw [htr₁] at hpiped
  refine ⟨_, s₂, hpiped, hs₂, ?_, ?_⟩
  · rw [jsonPaths, htr₂]
    decide +kernel
  · intro json hjson
    obtain ⟨-, hall⟩ := lsMain_pipeline twoLevels.fileSystem
      (fun dir name obj h => hname (dir, name, obj) h) (parsonOf .naturals) twoLevelsAt 1 twoLevels_fits _ hpiped
      {} hcfg s₂ hs₂
    obtain ⟨names, obj, hwalk, -, -, hpath, -, -, hhandle, -⟩ := hall json hjson
    exact ⟨names, obj, hwalk, hpath, hhandle⟩

/-- A directory without entries. -/
def rootOnly : Tree where
  dirs := [⟨[1]⟩]
  entries := []
  valid := by decide

/-- A file with an empty name. -/
def nameless : Tree where
  dirs := [⟨[1]⟩]
  entries := [(⟨[1]⟩, [], ⟨[2]⟩)]
  valid := by decide

def rootOnlyAt : Mounted rootOnly.fileSystem := rootOnly.mounted "/".toList (by decide) (by decide)

def namelessAt : Mounted nameless.fileSystem := nameless.mounted "/x".toList (by decide) (by decide)

theorem rootOnly_walk {names : List CString} {obj : NfsFh3}
    (h : rootOnly.fileSystem.Walk rootOnlyAt.handle names obj) : names = [] ∧ obj = ⟨[1]⟩ := by
  cases h with
  | root => exact ⟨rfl, rfl⟩
  | entry _ _ hentry => cases hentry

theorem nameless_walk {names : List CString} {obj : NfsFh3}
    (h : nameless.fileSystem.Walk namelessAt.handle names obj) (hne : names ≠ []) :
    names = [[]] ∧ obj = ⟨[2]⟩ := by
  cases h with
  | root => exact absurd rfl hne
  | @entry names dir obj name hwalk htype hentry =>
    obtain ⟨rfl, rfl, rfl⟩ : dir = ⟨[1]⟩ ∧ name = [] ∧ obj = ⟨[2]⟩ := by
      have hentry : (dir, name, obj) ∈ nameless.entries := hentry
      simpa [nameless] using hentry
    cases hwalk with
    | root => exact ⟨rfl, rfl⟩
    | @entry names dir obj name _ _ hentry =>
      have hentry : (dir, name, ⟨[1]⟩) ∈ nameless.entries := hentry
      simp [nameless] at hentry

/-- With `-d` the root is listed with three slashes; a file with an empty name has the path of a
    directory, and the next run starts with READDIRPLUS for it. -/
theorem lsMain_pipeline_listdir_nameless :
    (rootOnlyAt.Fits 1 ∧ ∃ s, Lists rootOnly.fileSystem (parsonOf .naturals) { listdir := true }
        [(parsonOf .naturals).line rootOnlyAt.json] s ∧ ∃ json ∈ jsonObjects s.trace,
        ∀ names obj, rootOnly.fileSystem.Walk rootOnlyAt.handle names obj →
          json.lookup "path" ≠ some (.string (rootOnly.fileSystem.objectPath "/".toList names obj))) ∧
    (namelessAt.Fits 1 ∧ ∃ s, Lists nameless.fileSystem (parsonOf .naturals) {}
        [(parsonOf .naturals).line namelessAt.json] s ∧ ∃ json ∈ jsonObjects s.trace,
        json.lookup "path" = some (.string "/x/".toList) ∧
        (fhLine (parsonOf .naturals).getString ((parsonOf .naturals).line json)).handle = ⟨[2]⟩ ∧
        nameless.fileSystem.type ⟨[2]⟩ ≠ NF3DIR ∧ chooseProc {} "/x/".toList = .readdirplus) := by
  have hroot : rootOnly.printed { listdir := true } ([rootOnlyAt.json].map (textLine .naturals)) =
      some [treeJson "/" "//" ⟨[1]⟩ { type := NF3DIR } 0] := by decide +kernel
  have hnameless : nameless.printed {} ([namelessAt.json].map (textLine .naturals)) =
      some [treeJson "/x" "" ⟨[2]⟩ { type := 1 } 1] := by decide +kernel
  obtain ⟨s₁, hs₁, htr₁⟩ :=
    Tree.lists (List.forall_mem_singleton.2 (Tree.mounted_legible _ _ (by decide))) hroot
  obtain ⟨s₂, hs₂, htr₂⟩ :=
    Tree.lists (List.forall_mem_singleton.2 (Tree.mounted_legible _ _ (by decide))) hnameless
  refine ⟨⟨⟨by decide, ?_⟩, s₁, hs₁, _, by rw [htr₁]; exact List.mem_singleton_self _, ?_⟩,
    ⟨by decide, ?_⟩, s₂, hs₂, _, by rw [htr₂]; exact List.mem_singleton_self _, ?_⟩
  · intro names obj hwalk hne
    exact absurd (rootOnly_walk hwalk).1 hne
  · intro names obj hwalk
    obtain ⟨rfl, rfl⟩ := rootOnly_walk hwalk
    decide
  · intro names obj hwalk hne _
    obtain ⟨rfl, rfl⟩ := nameless_walk hwalk hne
    decide
  · have hpath : (treeJson "/x" "" ⟨[2]⟩ { type := 1 } 1).lookup "path" = some (.string "/x/".toList) := by decide
    have hfh : (treeJson "/x" "" ⟨[2]⟩ { type := 1 } 1).lookup "filehandle" =
        some (.string (nfsFh3ToString ⟨[2]⟩)) := by decide
    exact ⟨hpath, (fhLine_line _ (by decide) hpath hfh).2.2, by decide, by decide⟩

end NFStash
