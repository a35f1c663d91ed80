/-
  The fields of a fixed size that strings from outside are copied into.

  Each copy is a `strncpy` whose bound is the size of the whole field, so a string that is not
  shorter than its field leaves it without a NUL: `fixedFields_iff`.  The model keeps the text
  of such a field (`strncpy`), and this is the string that the field holds, if it holds one.
-/
import NFStash.Lib.Buffers
import NFStash.Df
import NFStash.FilehandleHex
import NFStash.PingOptions

namespace NFStash

open CLib Buffers

/-! ## The copies -/

/-- The size of `output_prefix` in `df.c` and of `prefix` in `nfsping.c`. -/
def PREFIX_SIZE : ℕ := 255

/-- `current->name` in `parse_fh`. -/
def copyName (name : Buffer) (host : CString) : Option Buffer := strncpyInto name NI_MAXHOST host

/-- `fh->path` in `parse_fh`. -/
def copyPath (fhPath : Buffer) (path : CString) : Option Buffer := strncpyInto fhPath MNTPATHLEN path

/-- `export->path` in `init_export`. -/
def copyExportPath (exportPath : Buffer) (path : CString) : Option Buffer :=
  strncpyInto exportPath MNTPATHLEN path

/-- `-p` of `nfsdf`. -/
def copyOutputPrefix (outputPrefix : Buffer) (optarg : CString) : Option Buffer :=
  strncpyInto outputPrefix PREFIX_SIZE optarg

/-- `-g` of `nfsping`. -/
def copyNamePrefix (namePrefix : Buffer) (optarg : CString) : Option Buffer :=
  strncpyInto namePrefix PREFIX_SIZE optarg

/-- `-p` of `nfsdf`, in the configuration. -/
def dfOutputPrefix (optarg : CString) (cfg : DfConfig) : DfConfig :=
  { cfg with outputPrefix := strncpy PREFIX_SIZE optarg }

/-! ## Right fields -/

/-- The field is terminated inside its array, where it holds the string that is kept for it, which
    is all of the source if that is shorter than the array. -/
structure FieldRight (size : ℕ) (copy : Buffer → CString → Option Buffer) (src kept : CString) : Prop where
  copied : ∀ dst : Buffer, dst.length = size → ∃ field, copy dst src = some field ∧
    field.length = size ∧ string field = some kept
  whole : src.length < size → kept = src

section
variable {lookup : CString → String → Option CString} {junk : ℕ → UInt8} {port : UInt16} {count : ℕ}
  {head ts : List Target} {input : CString} {i : ℕ}

/-- **A copy bounded by the size of its field** is right iff the string is shorter than the field. -/
theorem fieldRight_iff {size : ℕ} {src : CString} {copy : Buffer → CString → Option Buffer}
    (hcopy : ∀ dst src, copy dst src = strncpyInto dst size src) (h : NUL ∉ src) :
    FieldRight size copy src (strncpy size src) ↔ src.length < size := by
  constructor
  · intro hr
    obtain ⟨field, hfield, -, hstring⟩ := hr.copied (fresh size) (fresh_length size)
    obtain ⟨field', hfield', -, hstring'⟩ := strncpyInto_eq (fresh size) h
    rw [fresh_length] at hfield' hstring'
    obtain rfl := Option.some.inj ((hcopy _ _).symm.trans hfield |>.symm.trans hfield')
    by_contra hlt
    rw [if_neg hlt, hstring] at hstring'
    cases hstring'
  · intro hlt
    have hkept := strncpy_of_lt hlt.le
    rw [hkept]
    refine ⟨?_, fun _ => rfl⟩
    rintro dst rfl
    obtain ⟨field, hfield, hlen, hstring⟩ := strncpyInto_eq dst h
    rw [if_pos hlt] at hstring
    exact ⟨field, (hcopy _ _).trans hfield, hlen, hstring⟩

/-- What an accepted line has said, and where it has been kept. -/
theorem parseFh_kept (h : parseFh lookup junk head input port count = .ok (.ok i, ts)) :
    ∃ host path t fh, lookup input "host" = some host ∧ lookup input "path" = some path ∧
      ts[i]? = some t ∧ t.filehandles.getLast? = some fh ∧
      t.name = strncpy NI_MAXHOST host ∧ fh.path = strncpy MNTPATHLEN path := by
  have hn : ¬ NoAddress lookup input := fun hn => by
    obtain ⟨e, he⟩ := parseFh_noAddress lookup junk port count head hn
    rw [h] at he
    cases he
  obtain ⟨addr, j, ts', t, hfind, ht, ⟨hj, ⟨hhost, hpath, tmp, htmp, hlen⟩, rfl⟩ | ⟨e, -, he, -⟩⟩ :=
    parseFh_cases lookup junk port count hn h
  · obtain rfl := Except.ok.inj hj
    obtain ⟨host, hhost⟩ := Option.isSome_iff_exists.1 hhost
    obtain ⟨path, hpath⟩ := Option.isSome_iff_exists.1 hpath
    rw [parseFields_accepted hhost hpath htmp hlen]
    exact ⟨host, path, _, _, hhost, hpath,
      List.getElem?_set_self (List.getElem?_eq_some_iff.1 ht).1, List.getLast?_concat, rfl, rfl⟩
  · cases he

end

/-- **The fields of a fixed size** are right iff the strings are shorter than they are: the name and the
    path of an accepted line, the path of an export and the prefixes of `nfsdf` and `nfsping`. -/
theorem fixedFields_iff (lookup : CString → String → Option CString) (junk : ℕ → UInt8)
    (port : UInt16) (count : ℕ) (head : List Target) (input : CString) (i : ℕ) (ts : List Target)
    (hline : parseFh lookup junk head input port count = .ok (.ok i, ts))
    (hlookup : ∀ key s, lookup input key = some s → NUL ∉ s)
    (target : Target) (exDir : CString) (hexDir : NUL ∉ exDir)
    (optarg : CString) (hoptarg : NUL ∉ optarg) :
    (∃ host path t fh, lookup input "host" = some host ∧ lookup input "path" = some path ∧
      ts[i]? = some t ∧ t.filehandles.getLast? = some fh ∧
      (FieldRight NI_MAXHOST copyName host t.name ↔ host.length < NI_MAXHOST) ∧
      (FieldRight MNTPATHLEN copyPath path fh.path ↔ path.length < MNTPATHLEN)) ∧
    (FieldRight MNTPATHLEN copyExportPath exDir (initExport target exDir count).path ↔
      exDir.length < MNTPATHLEN) ∧
    (∀ cfg, FieldRight PREFIX_SIZE copyOutputPrefix optarg (dfOutputPrefix optarg cfg).outputPrefix ↔
      optarg.length < PREFIX_SIZE) ∧
    (∀ s s', pingOption (.g optarg) s = .ok s' →
      (FieldRight PREFIX_SIZE copyNamePrefix optarg s'.namePrefix ↔ optarg.length < PREFIX_SIZE)) := by
  refine ⟨?_, fieldRight_iff (fun _ _ => rfl) hexDir, fun _ => fieldRight_iff (fun _ _ => rfl) hoptarg, ?_⟩
  · obtain ⟨host, path, t, fh, hhost, hpath, ht, hfh, hname, hfhPath⟩ := parseFh_kept hline
    refine ⟨host, path, t, fh, hhost, hpath, ht, hfh, ?_, ?_⟩
    · rw [hname]
      exact fieldRight_iff (fun _ _ => rfl) (hlookup _ _ hhost)
    · rw [hfhPath]
      exact fieldRight_iff (fun _ _ => rfl) (hlookup _ _ hpath)
  · intro s s' hs
    obtain rfl := Except.ok.inj hs
    exact fieldRight_iff (fun _ _ => rfl) hoptarg

/-- The fields of a line with this path. -/
def pathLookup (path : CString) (_ : CString) : String → Option CString
  | "ip" => some "10.0.0.1".toList
  | "host" => some "a".toList
  | "path" => some path
  | "filehandle" => some "0a".toList
  | _ => none

theorem fixedFields_iff_short : ∃ ts,
    parseFh (pathLookup "/x".toList) (fun _ => 0) dummyTargets "1".toList 2049 0 = .ok (.ok 1, ts) ∧
      FieldRight MNTPATHLEN copyExportPath "/x".toList (initExport {} "/x".toList 0).path ∧
      FieldRight PREFIX_SIZE copyOutputPrefix "nfs".toList (dfOutputPrefix "nfs".toList {}).outputPrefix := by
  refine ⟨_, rfl, ?_⟩
  obtain ⟨-, hexport, houtput, -⟩ := fixedFields_iff (pathLookup "/x".toList) (fun _ => 0) 2049 0
    dummyTargets "1".toList 1 _ rfl (by
      intro key s h
      unfold pathLookup at h
      split at h
      · cases h
        decide
      · cases h
        decide
      · cases h
        decide
      · cases h
        decide
      · cases h) {} "/x".toList (by decide) "nfs".toList (by decide)
  exact ⟨hexport.2 (by decide), (houtput {}).2 (by decide)⟩

/-- A path of 1024 characters, which is one that a server may return. -/
def longestPath : CString := List.replicate MNTPATHLEN 'x'

/-- An accepted line with such a path, such an export, and a prefix of 255 characters. -/
theorem fixedFields_full :
    (∃ ts t fh, parseFh (pathLookup longestPath) (fun _ => 0) dummyTargets "1".toList 2049 0 =
        .ok (.ok 1, ts) ∧ ts[1]? = some t ∧ t.filehandles.getLast? = some fh ∧
        ¬ FieldRight MNTPATHLEN copyPath longestPath fh.path) ∧
      ¬ FieldRight MNTPATHLEN copyExportPath longestPath (initExport {} longestPath 0).path ∧
      ¬ FieldRight PREFIX_SIZE copyNamePrefix (List.replicate 255 'x')
        (strncpy PREFIX_SIZE (List.replicate 255 'x')) := by
  have hclean : ∀ n, NUL ∉ List.replicate n 'x' := by
    intro n h
    exact absurd (List.eq_of_mem_replicate h) (by decide)
  have hfull : ∀ n (copy : Buffer → CString → Option Buffer),
      (∀ dst src, copy dst src = strncpyInto dst n src) →
      ¬ FieldRight n copy (List.replicate n 'x') (strncpy n (List.replicate n 'x')) := by
    intro n copy hcopy h
    have hlt := (fieldRight_iff hcopy (hclean n)).1 h
    rw [List.length_replicate] at hlt
    exact absurd hlt (lt_irrefl n)
  refine ⟨⟨_, _, _, parseFh_accepted (by decide) rfl rfl rfl rfl (by decide) rfl rfl, rfl, rfl, ?_⟩, ?_, ?_⟩
  · exact hfull _ copyPath fun _ _ => rfl
  · exact hfull _ copyExportPath fun _ _ => rfl
  · exact hfull _ copyNamePrefix fun _ _ => rfl

end NFStash
