/-
  The JSON objects of `nfsmount` and `nfsls`.

  A field whose string is not UTF-8 is left out, as nobody looks at the result of
  `json_object_set_string`.  Apart from that the object in memory has the fields that the commands set
  (`Holds`), and they are found again in the line that is printed (`jsonObjectGetString_line`), unless one
  of the strings has a control character that the parser does not take.
-/
import Mathlib.Data.List.Nodup
import NFStash.FilehandleHex
import NFStash.Ls
import NFStash.MountHandles
import NFStash.ParsonRoundTrip
import NFStash.ParsonUtf8

namespace NFStash.JSON

open CLib Buffers Utf8

/-- `double`, with the conversion of an `unsigned long`, which is read back from its text. -/
structure Numbers extends Doubles where
  ofNat : ℕ → Double
  exact_ofNat : ∀ n, Exact toDoubles (ofNat n)

/-- Natural numbers, with the conversion of 64 bits. -/
def Numbers.naturals : Numbers where
  toDoubles := .naturals
  ofNat n := n % 2 ^ 64
  exact_ofNat n := exact_naturals ((Nat.mod_lt n (Nat.two_pow_pos 64)).trans (by norm_num))

/-- A string is UTF-8. -/
def IsUtf8 (s : CString) : Prop := ∃ text : List Char, octets s = text.flatMap encode

section
variable (num : Numbers)

/-- `json_object_set_string` or `json_object_set_number`. -/
def setField (object : Object num.Double) : String × JsonValue → Except Fault (Object num.Double)
  | (name, .string s) => jsonObjectSetString object name s
  | (name, .number n) => .ok (jsonObjectSetNumber object name (num.ofNat n))

/-- The object that `init_export` makes. -/
def initExport (target : Target) (path : CString) : Except Fault (Object num.Double) := do
  let jsonObj ← jsonObjectSetString {} "host" target.name
  let jsonObj ← jsonObjectSetString jsonObj "ip" target.ipAddress
  jsonObjectSetString jsonObj "path" path

/-- The object of `print_fhandle3`. -/
def printFhandle3 (cfg : MountConfig) (root : Root) (usec timestamp : ℕ) (jsonObj : Object num.Double) :
    Except Fault (Object num.Double) := do
  let jsonObj := jsonObjectSetNumber jsonObj "usec" (num.ofNat usec)
  let jsonObj := jsonObjectSetNumber jsonObj "timestamp" (num.ofNat timestamp)
  let fhString := nfsFh3ToString ⟨root.val.take root.len⟩
  let jsonObj ← jsonObjectSetString jsonObj "filehandle" fhString
  .ok (jsonObjectSetNumber jsonObj "version" (num.ofNat cfg.version.version))

/-- A reply is printed: its filehandle, and when it came. -/
def printReply (cfg : MountConfig) (jsonObj : Object num.Double) (p : Root × ℕ × ℕ) :
    Except Fault (Object num.Double) :=
  printFhandle3 num cfg p.1 p.2.1 p.2.2 jsonObj

/-- The object of an export, after these replies. -/
def exportObject (cfg : MountConfig) (target : Target) (path : CString) (prints : List (Root × ℕ × ℕ)) :
    Except Fault (Object num.Double) := do
  let jsonObj ← initExport num target path
  prints.foldlM (printReply num cfg) jsonObj

/-- The object of `print_entrypluslink3`. -/
def printEntrypluslink3 (host : CString) (entryplus : Entrypluslink3) (ipAddress path : CString) (usec : ℕ) :
    Except Fault (Object num.Double) := do
  let jsonObj ← jsonObjectSetString {} "host" host
  let jsonObj ← jsonObjectSetString jsonObj "ip" ipAddress
  let jsonObj ← jsonObjectSetString jsonObj "path" (joinPath path entryplus.name)
  let jsonObj := jsonObjectSetNumber jsonObj "usec" (num.ofNat usec)
  let jsonObj ← jsonObjectSetString jsonObj "filehandle" (nfsFh3ToString entryplus.handle)
  let jsonObj ← jsonObjectSetString jsonObj "cookie" (toString entryplus.cookie.toNat).toList
  match entryplus.nameAttributes with
  | none => .ok jsonObj
  | some attributes =>
    let jsonObj := jsonObjectSetNumber jsonObj "size" (num.ofNat attributes.size.toNat)
    let jsonObj := jsonObjectSetNumber jsonObj "used" (num.ofNat attributes.used.toNat)
    let jsonObj := jsonObjectSetNumber jsonObj "nlink" (num.ofNat attributes.nlink.toNat)
    let jsonObj := jsonObjectSetNumber jsonObj "fsid" (num.ofNat attributes.fsid.toNat)
    let jsonObj := jsonObjectSetNumber jsonObj "fileid" (num.ofNat attributes.fileid.toNat)
    let jsonObj := jsonObjectSetNumber jsonObj "uid" (num.ofNat attributes.uid.toNat)
    .ok (jsonObjectSetNumber jsonObj "gid" (num.ofNat attributes.gid.toNat))

/-- The line that is printed for an object. -/
def printLine (jsonObj : Object num.Double) : Except Fault (Option CString) := do
  let myJsonString ← jsonSerializeToString num.toDoubles (.object jsonObj.names jsonObj.values)
  .ok (myJsonString.map (· ++ ['\n']))

end

/-! ## Fields -/

section
variable {num : Numbers}

variable (num) in
def value : JsonValue → Value num.Double
  | .string s => .string s
  | .number n => .number (num.ofNat n)

/-- The object in memory has these fields. -/
structure Holds (object : Object num.Double) (obj : JsonObject) : Prop where
  doubled : object.Doubled
  names : object.names = obj.map fun field => field.1.toList
  values : object.values = obj.map fun field => value num field.2
  nodup : (obj.map Prod.fst).Nodup

variable {object : Object num.Double} {obj : JsonObject} {name : String} {v : JsonValue}

variable (num) in
theorem holds_nil : Holds ({} : Object num.Double) [] := ⟨Object.doubled_nil, rfl, rfl, List.nodup_nil⟩

theorem mem_names (h : Holds object obj) (name : String) :
    name.toList ∈ object.names ↔ name ∈ obj.map Prod.fst := by
  have hnames : object.names = (obj.map Prod.fst).map String.toList := by
    rw [h.names, List.map_map]
    rfl
  rw [hnames, List.mem_map_of_injective fun a b hab => String.toList_inj.1 hab]

variable (num v) in
/-- A field that is there is replaced. -/
theorem jsonSet_mem (h : name ∈ obj.map Prod.fst) (hnodup : (obj.map Prod.fst).Nodup) :
    (jsonSet name v obj).map (fun field => field.1.toList) = obj.map (fun field => field.1.toList) ∧
    (jsonSet name v obj).map (fun field => value num field.2) =
      (obj.map fun field => value num field.2).set ((obj.map fun field => field.1.toList).idxOf name.toList)
        (value num v) ∧
    (jsonSet name v obj).map Prod.fst = obj.map Prod.fst := by
  induction obj with
  | nil => exact absurd h List.not_mem_nil
  | cons field obj ih =>
    obtain ⟨name', v'⟩ := field
    rw [jsonSet]
    by_cases heq : name' = name
    · subst heq
      simp
    · rw [List.map_cons, List.mem_cons] at h
      rw [List.map_cons, List.nodup_cons] at hnodup
      obtain ⟨h1, h2, h3⟩ := ih (h.resolve_left (Ne.symm heq)) hnodup.2
      have hne : name'.toList ≠ name.toList := fun hl => heq (String.toList_inj.1 hl)
      rw [if_neg heq]
      simp only [List.map_cons, h1, h2, h3, List.idxOf_cons_ne _ hne, List.set_cons_succ, and_self]

/-- A field that is not there is added. -/
theorem jsonSet_notMem (h : name ∉ obj.map Prod.fst) : jsonSet name v obj = obj ++ [(name, v)] := by
  induction obj with
  | nil => rfl
  | cons field obj ih =>
    obtain ⟨name', v'⟩ := field
    simp only [List.map_cons, List.mem_cons, not_or] at h
    rw [jsonSet, if_neg (Ne.symm h.1), ih h.2]
    rfl

theorem jsonSet_length (name : String) (v : JsonValue) (obj : JsonObject) :
    (jsonSet name v obj).length ≤ obj.length + 1 := by
  induction obj with
  | nil => exact le_rfl
  | cons field obj ih =>
    obtain ⟨name', v'⟩ := field
    rw [jsonSet]
    split_ifs
    · exact Nat.le_succ _
    · exact Nat.succ_le_succ ih

/-- **A field is set.** -/
theorem Holds.set (h : Holds object obj) (hlen : obj.length < OBJECT_MAX_CAPACITY) (name : String)
    (v : JsonValue) : ∃ object', jsonObjectSetValue object name.toList (some (value num v)) = some object' ∧
      Holds object' (jsonSet name v obj) := by
  obtain ⟨hdoubled, hnames, hvalues, hnodup⟩ := h
  have hmem := mem_names ⟨hdoubled, hnames, hvalues, hnodup⟩ name
  have hsome : (jsonObjectGetValue object.names object.values name.toList).isSome ↔
      name.toList ∈ object.names :=
    jsonObjectGetValue_isSome hdoubled.lengths
  unfold jsonObjectSetValue
  rw [Option.bind_eq_bind, Option.bind_some]
  by_cases hin : name.toList ∈ object.names
  · obtain ⟨h1, h2, h3⟩ := jsonSet_mem num v (hmem.1 hin) hnodup
    rw [if_pos (hsome.2 hin)]
    refine ⟨_, rfl, ⟨?_, hdoubled.room, hdoubled.doubling⟩, h1 ▸ hnames, ?_, h3 ▸ hnodup⟩
    · rw [List.length_set]
      exact hdoubled.lengths
    · dsimp only
      rw [h2, hnames, hvalues]
  · have hlt : object.names.length < OBJECT_MAX_CAPACITY := by
      rw [hnames, List.length_map]
      exact hlen
    obtain ⟨object', hadd, hdoubled', hnames', hvalues'⟩ := (hdoubled.add hin (value num v)).1 hlt
    have hnot : name ∉ obj.map Prod.fst := fun hname => hin (hmem.2 hname)
    rw [if_neg (hsome.not.2 hin), jsonSet_notMem hnot]
    refine ⟨object', hadd, hdoubled', ?_, ?_, ?_⟩
    · rw [hnames', hnames, List.map_append]
      rfl
    · rw [hvalues', hvalues, List.map_append]
      rfl
    · rw [List.map_append]
      refine List.nodup_append.2 ⟨hnodup, List.nodup_cons.2 ⟨List.not_mem_nil, List.nodup_nil⟩, ?_⟩
      rintro a ha b hb rfl
      obtain rfl : a = name := List.mem_singleton.1 hb
      exact hnot ha

/-! ## Setting strings and numbers -/

/-- A value that is not lost. -/
def Kept : JsonValue → Prop
  | .string s => IsUtf8 s
  | .number _ => True

open Classical in
/-- The fields that are not. -/
noncomputable def kept (obj : JsonObject) : JsonObject := obj.filter fun field => Kept field.2

open Classical in
theorem kept_eq (h : ∀ field ∈ obj, Kept field.2) : kept obj = obj :=
  List.filter_eq_self.2 fun field hfield => decide_eq_true (h field hfield)

open Classical in
theorem Holds.setField (h : Holds object obj) (hlen : obj.length < OBJECT_MAX_CAPACITY) (name : String)
    (v : JsonValue) : ∃ object', setField num object (name, v) = .ok object' ∧
      Holds object' (if Kept v then jsonSet name v obj else obj) := by
  obtain ⟨object', hset, hholds⟩ := h.set hlen name v
  cases v with
  | number n =>
    rw [if_pos (show Kept (.number n) from trivial)]
    refine ⟨object', ?_, hholds⟩
    rw [JSON.setField, jsonObjectSetNumber]
    exact congrArg (fun o => Except.ok (o.getD object)) hset
  | string s =>
    obtain ⟨valid, hvalid, hiff⟩ := isValidUtf8Loop_memory (Nat.lt_succ_self s.length)
    have hinit : (jsonValueInitString s : Except Fault (Option (Value num.Double))) =
        .ok (if valid then some (.string s) else none) := by
      rw [jsonValueInitString, isValidUtf8, hvalid]
      rfl
    by_cases hs : IsUtf8 s
    · rw [if_pos (show Kept (.string s) from hs)]
      refine ⟨object', ?_, hholds⟩
      rw [JSON.setField, jsonObjectSetString, hinit, if_pos (hiff.2 hs), ok_bind]
      exact congrArg (fun o => Except.ok (o.getD object)) hset
    · rw [if_neg (show ¬ Kept (.string s) from hs)]
      refine ⟨object, ?_, h⟩
      rw [JSON.setField, jsonObjectSetString, hinit, if_neg (fun hv => hs (hiff.1 hv)), ok_bind]
      rfl

open Classical in
/-- **Fields are set**, one after the other. -/
theorem Holds.setFields (h : Holds object obj) (fields : JsonObject)
    (hlen : obj.length + fields.length ≤ OBJECT_MAX_CAPACITY) :
    ∃ object', fields.foldlM (JSON.setField num) object = .ok object' ∧
      Holds object' ((kept fields).foldl (fun obj field => jsonSet field.1 field.2 obj) obj) := by
  induction fields generalizing object obj with
  | nil => exact ⟨object, rfl, h⟩
  | cons field fields ih =>
    obtain ⟨name, v⟩ := field
    rw [List.length_cons] at hlen
    obtain ⟨object', hset, hholds⟩ := h.setField (by omega) name v
    have hlen' : (if Kept v then jsonSet name v obj else obj).length ≤ obj.length + 1 := by
      split_ifs
      · exact jsonSet_length name v obj
      · exact Nat.le_succ _
    obtain ⟨object'', hsets, hholds'⟩ := ih hholds (by omega)
    refine ⟨object'', ?_, ?_⟩
    · rw [List.foldlM_cons, hset, ok_bind, hsets]
    · rw [kept, List.filter_cons]
      by_cases hv : Kept v
      · rw [if_pos hv] at hholds'
        rw [if_pos (decide_eq_true hv)]
        exact hholds'
      · rw [if_neg hv] at hholds'
        rw [if_neg (by simpa using hv)]
        exact hholds'

/-- Fields with names of their own are added. -/
theorem foldl_jsonSet {fields : JsonObject} (h : ((obj ++ fields).map Prod.fst).Nodup) :
    fields.foldl (fun obj field => jsonSet field.1 field.2 obj) obj = obj ++ fields := by
  induction fields generalizing obj with
  | nil => exact (List.append_nil obj).symm
  | cons field fields ih =>
    have hnot : field.1 ∉ obj.map Prod.fst := by
      rw [List.map_append, List.nodup_append] at h
      exact fun hmem => h.2.2 _ hmem _ List.mem_cons_self rfl
    rw [List.foldl_cons, jsonSet_notMem hnot, ih (by rwa [List.append_assoc]), List.append_assoc]
    rfl

end

/-! ## Plain strings -/

/-- Printable ASCII. -/
def Ascii (s : CString) : Prop := ∀ c ∈ s, 0x20 ≤ c.toNat ∧ c.toNat < 0x80

instance (s : CString) : Decidable (Ascii s) :=
  List.decidableBAll (fun c : Char => 0x20 ≤ c.toNat ∧ c.toNat < 0x80) s

section
variable {s : CString} {c : Char}

theorem Ascii.utf8 (h : Ascii s) : IsUtf8 s := by
  refine ⟨s, ?_⟩
  induction s with
  | nil => rfl
  | cons c s ih =>
    rw [Ascii, List.forall_mem_cons] at h
    rw [octets, List.map_cons, List.flatMap_cons, encode_one h.1.2]
    have hoctet : octet c = c.toNat := Nat.mod_eq_of_lt (by omega)
    rw [hoctet]
    exact congrArg _ (ih h.2)

theorem Ascii.printable (h : Ascii s) : Printable s := fun c hc => .inl (h c hc).1

theorem Ascii.nul (h : Ascii s) : NUL ∉ s := fun hmem => absurd (h NUL hmem).1 (by decide)

theorem digit_ascii (h : c.isDigit = true) : 0x20 ≤ c.toNat ∧ c.toNat < 0x80 := by
  simp only [Char.isDigit, Bool.and_eq_true, decide_eq_true_eq] at h
  have hge : 48 ≤ c.toNat := h.1
  have hle : c.toNat ≤ 57 := h.2
  omega

theorem toDigits_ascii (n : ℕ) : Ascii (Nat.toDigits 10 n) := fun _ hc =>
  digit_ascii (Nat.isDigit_of_mem_toDigits (by decide) le_rfl hc)

theorem nfsFh3ToString_ascii (fh : NfsFh3) : Ascii (nfsFh3ToString fh) := by
  intro c hc
  obtain ⟨n, hn, rfl⟩ := mem_toString hc
  have hall : ∀ n < 16, 0x20 ≤ (Nat.digitChar n).toNat ∧ (Nat.digitChar n).toNat < 0x80 := by decide
  exact hall n hn

theorem inetNtop_ascii (ip : InAddr) : Ascii (inetNtop ip) := by
  have hdot : ∀ s, Ascii s → Ascii ('.' :: s) := fun s hs => List.forall_mem_cons.2 ⟨by decide, hs⟩
  have happend : ∀ s t, Ascii s → Ascii t → Ascii (s ++ t) := fun s t hs ht =>
    List.forall_mem_append.2 ⟨hs, ht⟩
  unfold inetNtop
  simp only [List.append_assoc, List.cons_append]
  exact happend _ _ (toDigits_ascii _) (hdot _ (happend _ _ (toDigits_ascii _) (hdot _
    (happend _ _ (toDigits_ascii _) (hdot _ (toDigits_ascii _))))))

end

/-! ## The objects that are printed -/

section
variable {num : Numbers} {object : Object num.Double} {base tail : JsonObject} {cfg : MountConfig}
  {target : Target} {path : CString}

/-- The fields from `init_export`. -/
def startFields (target : Target) (path : CString) : JsonObject :=
  [("host", .string target.name), ("ip", .string target.ipAddress), ("path", .string path)]

/-- The fields from `print_fhandle3`. -/
def replyFields (cfg : MountConfig) (root : Root) (usec timestamp : ℕ) : JsonObject :=
  [("usec", .number usec), ("timestamp", .number timestamp),
    ("filehandle", .string (nfsFh3ToString ⟨root.val.take root.len⟩)), ("version", .number cfg.version.version)]

theorem kept_replyFields (root : Root) (usec timestamp : ℕ) :
    kept (replyFields cfg root usec timestamp) = replyFields cfg root usec timestamp := by
  refine kept_eq fun field hfield => ?_
  simp only [replyFields, List.mem_cons, List.not_mem_nil, or_false] at hfield
  rcases hfield with rfl | rfl | rfl | rfl
  · trivial
  · trivial
  · exact (nfsFh3ToString_ascii _).utf8
  · trivial

theorem jsonSet_append {name : String} (h : name ∉ base.map Prod.fst) (v : JsonValue) (tail : JsonObject) :
    jsonSet name v (base ++ tail) = base ++ jsonSet name v tail := by
  induction base with
  | nil => rfl
  | cons field base ih =>
    obtain ⟨name', v'⟩ := field
    simp only [List.map_cons, List.mem_cons, not_or] at h
    rw [List.cons_append, jsonSet, if_neg (Ne.symm h.1), ih h.2]
    rfl

theorem kept_names {obj : JsonObject} {name : String} (h : name ∈ (kept obj).map Prod.fst) :
    name ∈ obj.map Prod.fst := ((List.filter_sublist).map Prod.fst).subset h

theorem kept_nodup {obj : JsonObject} (h : (obj.map Prod.fst).Nodup) : ((kept obj).map Prod.fst).Nodup :=
  h.sublist ((List.filter_sublist).map Prod.fst)

theorem kept_length (obj : JsonObject) : (kept obj).length ≤ obj.length := List.length_filter_le ..

variable (num) in
theorem initExport_eq (target : Target) (path : CString) :
    initExport num target path = (startFields target path).foldlM (setField num) {} := by
  simp only [startFields, List.foldlM_cons, List.foldlM_nil, bind_pure, setField, initExport]

variable (num) in
theorem initExport_holds (target : Target) (path : CString) :
    ∃ object : Object num.Double, initExport num target path = .ok object ∧
      Holds object (kept (startFields target path)) := by
  have hlen : ([] : JsonObject).length + (startFields target path).length ≤ OBJECT_MAX_CAPACITY :=
    show 0 + 3 ≤ 960 by decide
  obtain ⟨object, hset, hholds⟩ := (holds_nil num).setFields _ hlen
  have hnodup : ((startFields target path).map Prod.fst).Nodup := by
    rw [show (startFields target path).map Prod.fst = ["host", "ip", "path"] from rfl]
    decide
  rw [foldl_jsonSet (by simpa using kept_nodup hnodup), List.nil_append] at hholds
  exact ⟨object, (initExport_eq num target path).trans hset, hholds⟩

/-- The fields of the last reply take the place of those before it. -/
theorem printFhandle3_holds (h : Holds object (kept (startFields target path) ++ tail))
    (htail : tail = [] ∨ ∃ root usec timestamp, tail = replyFields cfg root usec timestamp) (root : Root)
    (usec timestamp : ℕ) : ∃ object', printFhandle3 num cfg root usec timestamp object = .ok object' ∧
      Holds object' (kept (startFields target path) ++ replyFields cfg root usec timestamp) := by
  have hlen : (kept (startFields target path) ++ tail).length + (replyFields cfg root usec timestamp).length ≤
      OBJECT_MAX_CAPACITY := by
    have hstart : (kept (startFields target path)).length ≤ 3 := kept_length _
    have hreply : (replyFields cfg root usec timestamp).length = 4 := rfl
    have htail' : tail.length ≤ 4 := by
      rcases htail with rfl | ⟨_, _, _, rfl⟩
      · exact Nat.zero_le _
      · exact le_rfl
    have hmax : OBJECT_MAX_CAPACITY = 960 := rfl
    rw [List.length_append]
    omega
  have hnot : ∀ name, name ∉ ["host", "ip", "path"] → name ∉ (kept (startFields target path)).map Prod.fst :=
    fun name hname hmem => hname (kept_names hmem)
  obtain ⟨object', hset, hholds⟩ := h.setFields _ hlen
  refine ⟨object', hset, ?_⟩
  rw [kept_replyFields] at hholds
  have hfold : (replyFields cfg root usec timestamp).foldl (fun obj field => jsonSet field.1 field.2 obj)
      (kept (startFields target path) ++ tail) =
      NFStash.printFhandle3 cfg root usec timestamp (kept (startFields target path) ++ tail) := rfl
  have hbase : NFStash.printFhandle3 cfg root usec timestamp (kept (startFields target path) ++ tail) =
      kept (startFields target path) ++ NFStash.printFhandle3 cfg root usec timestamp tail := by
    rw [NFStash.printFhandle3, jsonSet_append (hnot _ (by decide)), jsonSet_append (hnot _ (by decide)),
      jsonSet_append (hnot _ (by decide)), jsonSet_append (hnot _ (by decide))]
    rfl
  have hreply : NFStash.printFhandle3 cfg root usec timestamp tail = replyFields cfg root usec timestamp := by
    rcases htail with rfl | ⟨_, _, _, rfl⟩
    · rfl
    · rfl
  rwa [hfold, hbase, hreply] at hholds

/-- **Over any number of rounds** the object of an export has the fields of the last reply. -/
theorem exportObject_holds (cfg : MountConfig) (target : Target) (path : CString)
    (before : List (Root × ℕ × ℕ)) (root : Root) (usec timestamp : ℕ) :
    ∃ object, exportObject num cfg target path (before ++ [(root, usec, timestamp)]) = .ok object ∧
      Holds object (kept (startFields target path) ++ replyFields cfg root usec timestamp) := by
  have hrun : ∀ (prints : List (Root × ℕ × ℕ)) (object : Object num.Double) (tail : JsonObject),
      Holds object (kept (startFields target path) ++ tail) →
      (tail = [] ∨ ∃ root usec timestamp, tail = replyFields cfg root usec timestamp) →
      ∃ object' tail', prints.foldlM (printReply num cfg) object = .ok object' ∧
        Holds object' (kept (startFields target path) ++ tail') ∧
        (tail' = [] ∨ ∃ root usec timestamp, tail' = replyFields cfg root usec timestamp) := by
    intro prints
    induction prints with
    | nil => exact fun object tail h htail => ⟨object, tail, rfl, h, htail⟩
    | cons p prints ih =>
      intro object tail h htail
      obtain ⟨object', hprint, hholds'⟩ := printFhandle3_holds h htail p.1 p.2.1 p.2.2
      obtain ⟨object'', tail'', hprints, hrest⟩ := ih object' _ hholds' (.inr ⟨_, _, _, rfl⟩)
      exact ⟨object'', tail'', by rw [List.foldlM_cons, printReply, hprint, ok_bind, hprints], hrest⟩
  obtain ⟨object, hinit, hholds⟩ := initExport_holds num target path
  obtain ⟨object', tail, hprints, hholds', htail⟩ :=
    hrun before object [] (by rwa [List.append_nil]) (.inl rfl)
  obtain ⟨object'', hprint, hholds''⟩ := printFhandle3_holds hholds' htail root usec timestamp
  refine ⟨object'', ?_, hholds''⟩
  rw [exportObject, hinit, ok_bind, List.foldlM_append, hprints, ok_bind, List.foldlM_cons, printReply, hprint]
  rfl

/-- The fields are set one after the other. -/
theorem printEntrypluslink3_eq (host : CString) (entryplus : Entrypluslink3) (ipAddress path : CString)
    (usec : ℕ) : printEntrypluslink3 num host entryplus ipAddress path usec =
      (NFStash.printEntrypluslink3 host entryplus ipAddress path usec).foldlM (setField num) {} := by
  unfold printEntrypluslink3 NFStash.printEntrypluslink3
  cases entryplus.nameAttributes with
  | none =>
    simp only [List.append_nil, List.foldlM_cons, List.foldlM_nil, setField, ok_bind]
    rfl
  | some attributes =>
    simp only [List.cons_append, List.nil_append, List.foldlM_cons, List.foldlM_nil, setField, ok_bind]
    rfl

theorem printEntrypluslink3_holds (host : CString) (entryplus : Entrypluslink3) (ipAddress path : CString)
    (usec : ℕ) : ∃ object : Object num.Double,
      printEntrypluslink3 num host entryplus ipAddress path usec = .ok object ∧
      Holds object (kept (NFStash.printEntrypluslink3 host entryplus ipAddress path usec)) := by
  have hfields : ((NFStash.printEntrypluslink3 host entryplus ipAddress path usec).map Prod.fst).Nodup ∧
      (NFStash.printEntrypluslink3 host entryplus ipAddress path usec).length ≤ OBJECT_MAX_CAPACITY := by
    unfold NFStash.printEntrypluslink3
    cases entryplus.nameAttributes with
    | none => exact ⟨by simp, show 6 ≤ 960 by decide⟩
    | some attributes => exact ⟨by simp, show 13 ≤ 960 by decide⟩
  obtain ⟨object, hsets, hholds⟩ := (holds_nil num).setFields _ (by simpa using hfields.2)
  rw [foldl_jsonSet (by simpa using kept_nodup hfields.1), List.nil_append] at hholds
  exact ⟨object, (printEntrypluslink3_eq ..).trans hsets, hholds⟩

/-! ## The line -/

/-- The names of the fields are plain. -/
def PlainNames (obj : JsonObject) : Prop := ∀ field ∈ obj, Ascii field.1.toList

/-- The strings end at their terminators. -/
def Terminated (obj : JsonObject) : Prop := ∀ field ∈ obj, ∀ s, field.2 = .string s → NUL ∉ s

/-- The parser takes all the strings. -/
def AllPrintable (obj : JsonObject) : Prop := ∀ field ∈ obj, ∀ s, field.2 = .string s → Printable s

def string? : JsonValue → Option CString
  | .string s => some s
  | .number _ => none

variable {obj : JsonObject}

theorem Holds.wellFormed (h : Holds object obj) (hnames : PlainNames obj) (hterm : Terminated obj) :
    (Value.object object.names object.values).WellFormed := by
  refine .object h.doubled.lengths ?_ ?_ ?_
  · rw [h.names]
    have hmap := List.Nodup.map (fun a b hab => String.toList_inj.1 hab) h.nodup
    rwa [List.map_map] at hmap
  · rw [h.names]
    intro name hname
    obtain ⟨field, hfield, rfl⟩ := List.mem_map.1 hname
    exact (hnames field hfield).nul
  · rw [h.values]
    intro v hv
    obtain ⟨⟨name, v⟩, hfield, rfl⟩ := List.mem_map.1 hv
    cases v with
    | string s => exact .string (hterm _ hfield s rfl)
    | number n => exact .number _

theorem Holds.exact (h : Holds object obj) :
    (Value.object object.names object.values).Exact num.toDoubles := by
  refine .object _ ?_
  rw [h.values]
  intro v hv
  obtain ⟨⟨name, v⟩, -, rfl⟩ := List.mem_map.1 hv
  cases v with
  | string s => exact .string s
  | number n => exact .number (num.exact_ofNat n)

theorem Holds.readable (h : Holds object obj) (hnames : PlainNames obj) :
    (Value.object object.names object.values).Readable 0 ↔ AllPrintable obj := by
  have hone : 1 ≤ MAX_NESTING := by decide
  rw [Value.readable_object]
  constructor
  · rintro ⟨-, -, -, hvalues⟩ ⟨name, v⟩ hfield s rfl
    have hmem : (.string s : Value num.Double) ∈ object.values := by
      rw [h.values]
      exact List.mem_map_of_mem (f := fun field : String × JsonValue => value num field.2) hfield
    exact (Value.readable_string.1 (hvalues _ hmem)).2
  · intro hall
    refine ⟨Nat.zero_le _, h.doubled.room.trans h.doubled.doubling.le, ?_, ?_⟩
    · rw [h.names]
      intro name hname
      obtain ⟨field, hfield, rfl⟩ := List.mem_map.1 hname
      exact (hnames field hfield).printable
    · rw [h.values]
      intro v hv
      obtain ⟨⟨name, v⟩, hfield, rfl⟩ := List.mem_map.1 hv
      cases v with
      | string s => exact Value.readable_string.2 ⟨hone, hall _ hfield s rfl⟩
      | number n => exact ⟨.number _ hone, .number _⟩

/-- The value of a field. -/
theorem Holds.lookup (h : Holds object obj) (key : String) :
    jsonObjectGetValue object.names object.values key.toList = (obj.lookup key).map (value num) := by
  rw [h.names, h.values, jsonObjectGetValue]
  clear h
  induction obj with
  | nil => rfl
  | cons field obj ih =>
    obtain ⟨name, v⟩ := field
    rw [List.map_cons, List.map_cons, List.zip_cons_cons, List.lookup_cons, List.lookup_cons]
    by_cases heq : key = name
    · subst heq
      simp
    · have hne : (key == name) = false := by simpa using heq
      have hne' : (key.toList == name.toList) = false := by
        simpa using fun hl => heq (String.toList_inj.1 hl)
      rw [hne, hne']
      exact ih

open Classical in
/-- **The strings in a line** that is printed for an object. -/
theorem jsonObjectGetString_line (h : Holds object obj) (hnames : PlainNames obj) (hterm : Terminated obj) :
    ∃ line, printLine num object = .ok (some line) ∧ line ≠ [] ∧ ∀ key,
      jsonObjectGetString num.toDoubles line key =
        if AllPrintable obj then (obj.lookup key).bind string? else none := by
  have hwf := h.wellFormed hnames hterm
  refine ⟨(Value.object object.names object.values).text num.toDoubles ++ ['\n'], ?_, ?_, fun key => ?_⟩
  · rw [printLine, jsonSerializeToString_text hwf]
    rfl
  · exact List.append_ne_nil_of_right_ne_nil _ (List.cons_ne_nil _ _)
  · have hrest : NUL ∉ ['\n'] := by decide
    have hread := jsonParseString_append hwf h.exact hrest
    have hreadable := h.readable hnames
    rw [jsonObjectGetString, hread]
    by_cases hall : AllPrintable obj
    · rw [if_pos ⟨trivial, hreadable.2 hall⟩, if_pos hall]
      dsimp only
      rw [h.lookup]
      cases obj.lookup key with
      | none => rfl
      | some v => cases v <;> rfl
    · rw [if_neg fun hr => hall (hreadable.1 hr.2), if_neg hall]

end

end NFStash.JSON
