/-
  The lines of `nfsmount` and `nfsls` as the input of the next command.

  All three commands use `parson.c`, and what the first one makes of a name decides what the next one
  does: a line is accepted if the host and the path are UTF-8 without further control characters
  (`parseFh_printed`).  Lines with other control characters are not parsed and ignored, so the targets of
  the next command are those of the other lines (`parseLines_printed`); lines without a host or a
  path free a target.
-/
import NFStash.JsonObjects
import NFStash.ParseFhGroup

namespace NFStash.JSON

open CLib Buffers

/-- What is printed: a reply to `nfsmount` for an export, after earlier ones, or an entry of a directory. -/
inductive Printed where
  | mount (cfg : MountConfig) (target : Target) (path : CString) (before : List (Root × ℕ × ℕ)) (root : Root)
    (usec timestamp : ℕ)
  | ls (target : Target) (path : CString) (entryplus : Entrypluslink3) (usec : ℕ)

namespace Printed

def target : Printed → Target
  | mount _ target .. => target
  | ls target .. => target

/-- The path that is printed. -/
def path : Printed → CString
  | mount _ _ path .. => path
  | ls _ path entryplus _ => joinPath path entryplus.name

def handle : Printed → NfsFh3
  | mount _ _ _ _ root _ _ => ⟨root.val.take root.len⟩
  | ls _ _ entryplus _ => entryplus.handle

/-- The object that is printed. -/
def object (num : Numbers) : Printed → Except Fault (Object num.Double)
  | mount cfg target path before root usec timestamp =>
    exportObject num cfg target path (before ++ [(root, usec, timestamp)])
  | ls target path entryplus usec =>
    printEntrypluslink3 num target.name entryplus target.ipAddress path usec

/-- The line. -/
def line (num : Numbers) (p : Printed) : Except Fault (Option CString) := do
  printLine num (← p.object num)

/-- The target has an address, the handle has 1 to 64 bytes, and strings are terminated. -/
structure Proper (p : Printed) (addr : InAddr) : Prop where
  ip : p.target.ipAddress = inetNtop addr
  handle : p.handle.data ≠ [] ∧ p.handle.data.length ≤ FHSIZE3
  name_nul : NUL ∉ p.target.name
  path_nul : NUL ∉ p.path

/-- A string that is neither lost nor keeps the line from being parsed. -/
def Text (s : CString) : Prop := IsUtf8 s ∧ Printable s

/-! ## Fields -/

/-- The fields after the path: numbers and plain strings. -/
def rest : Printed → JsonObject
  | mount cfg _ _ _ root usec timestamp => replyFields cfg root usec timestamp
  | ls _ _ entryplus usec =>
    [("usec", .number usec), ("filehandle", .string (nfsFh3ToString entryplus.handle)),
      ("cookie", .string (toString entryplus.cookie.toNat).toList)] ++
    match entryplus.nameAttributes with
    | some attributes =>
      [("size", .number attributes.size.toNat), ("used", .number attributes.used.toNat),
        ("nlink", .number attributes.nlink.toNat), ("fsid", .number attributes.fsid.toNat),
        ("fileid", .number attributes.fileid.toNat), ("uid", .number attributes.uid.toNat),
        ("gid", .number attributes.gid.toNat)]
    | none => []

section
variable {num : Numbers} {p : Printed} {addr : InAddr} {v : JsonValue}

theorem toString_ascii (n : ℕ) : Ascii (toString n).toList := by
  rw [Nat.toString_eq_repr, Nat.toList_repr]
  exact toDigits_ascii n

/-- A field with a plain name, and a plain string if it has one. -/
def Plain (field : String × JsonValue) : Prop :=
  Ascii field.1.toList ∧ ∀ s, field.2 = .string s → Ascii s

theorem plain_number {name : String} (h : Ascii name.toList) (n : ℕ) : Plain (name, .number n) := ⟨h, nofun⟩

theorem plain_string {name : String} {s : CString} (h : Ascii name.toList) (hs : Ascii s) :
    Plain (name, .string s) := ⟨h, fun t heq => (JsonValue.string.inj heq : s = t) ▸ hs⟩

theorem replyFields_plain (cfg : MountConfig) (root : Root) (usec timestamp : ℕ) :
    ∀ field ∈ replyFields cfg root usec timestamp, Plain field := by
  simp only [replyFields, List.forall_mem_cons]
  exact ⟨plain_number (by decide) _, plain_number (by decide) _,
    plain_string (by decide) (nfsFh3ToString_ascii _), plain_number (by decide) _, List.forall_mem_nil _⟩

theorem rest_plain (p : Printed) : ∀ field ∈ p.rest, Plain field := by
  cases p with
  | mount cfg _ _ _ root usec timestamp => exact replyFields_plain cfg root usec timestamp
  | ls target path entryplus usec =>
    simp only [rest, List.cons_append, List.nil_append, List.forall_mem_cons]
    refine ⟨plain_number (by decide) _, plain_string (by decide) (nfsFh3ToString_ascii _),
      plain_string (by decide) (toString_ascii _), ?_⟩
    cases entryplus.nameAttributes with
    | none => exact List.forall_mem_nil _
    | some attributes =>
      simp only [List.forall_mem_cons]
      exact ⟨plain_number (by decide) _, plain_number (by decide) _, plain_number (by decide) _,
        plain_number (by decide) _, plain_number (by decide) _, plain_number (by decide) _,
        plain_number (by decide) _, List.forall_mem_nil _⟩

theorem rest_lookup (p : Printed) : p.rest.lookup "host" = none ∧ p.rest.lookup "ip" = none ∧
    p.rest.lookup "path" = none ∧ p.rest.lookup "filehandle" = some (.string (nfsFh3ToString p.handle)) := by
  cases p with
  | mount => exact ⟨rfl, rfl, rfl, rfl⟩
  | ls target path entryplus usec =>
    rw [rest]
    cases entryplus.nameAttributes with
    | none => exact ⟨rfl, rfl, rfl, rfl⟩
    | some => exact ⟨rfl, rfl, rfl, rfl⟩

/-- The fields that are set. -/
def given (p : Printed) : JsonObject := startFields p.target p.path ++ p.rest

theorem given_nodup (p : Printed) : (p.given.map Prod.fst).Nodup := by
  cases p with
  | mount =>
    change ["host", "ip", "path", "usec", "timestamp", "filehandle", "version"].Nodup
    decide
  | ls target path entryplus usec =>
    rw [given, rest]
    cases entryplus.nameAttributes with
    | none =>
      change ["host", "ip", "path", "usec", "filehandle", "cookie"].Nodup
      decide
    | some =>
      change ["host", "ip", "path", "usec", "filehandle", "cookie", "size", "used", "nlink", "fsid", "fileid",
        "uid", "gid"].Nodup
      decide

theorem kept_plain {obj : JsonObject} (h : ∀ field ∈ obj, Plain field) : kept obj = obj := by
  refine kept_eq fun field hfield => ?_
  obtain ⟨name, v⟩ := field
  cases v with
  | number n => trivial
  | string s => exact ((h _ hfield).2 s rfl).utf8

variable (num) in
/-- **The object in memory** has the fields that are not lost. -/
theorem object_holds (p : Printed) : ∃ object, p.object num = .ok object ∧ Holds object (kept p.given) := by
  cases p with
  | mount cfg target path before root usec timestamp =>
    have hkept : kept (mount cfg target path before root usec timestamp).given =
        kept (startFields target path) ++ replyFields cfg root usec timestamp := by
      rw [given, kept, List.filter_append]
      exact congrArg _ (kept_plain (replyFields_plain cfg root usec timestamp))
    rw [hkept]
    exact exportObject_holds cfg target path before root usec timestamp
  | ls target path entryplus usec =>
    have hgiven : NFStash.printEntrypluslink3 target.name entryplus target.ipAddress path usec =
        (ls target path entryplus usec).given := by
      rw [NFStash.printEntrypluslink3, given, rest]
      cases entryplus.nameAttributes <;> rfl
    rw [← hgiven]
    exact printEntrypluslink3_holds target.name entryplus target.ipAddress path usec

open Classical in
/-- A field is lost or not. -/
theorem lookup_kept {obj : JsonObject} (h : (obj.map Prod.fst).Nodup) (key : String) :
    (kept obj).lookup key = (obj.lookup key).filter fun v => Kept v := by
  induction obj with
  | nil => rfl
  | cons field obj ih =>
    obtain ⟨name, v⟩ := field
    rw [List.map_cons, List.nodup_cons] at h
    rw [kept, List.filter_cons, List.lookup_cons]
    by_cases hkey : key = name
    · subst hkey
      rw [beq_self_eq_true]
      simp only [Option.filter_some]
      by_cases hv : Kept v
      · simp only [hv, decide_true, if_true, List.lookup_cons_self]
      · simp only [hv, decide_false, Bool.false_eq_true, if_false]
        refine List.lookup_eq_none_iff.2 fun field hmem => ?_
        have hname : field.1 ∈ obj.map Prod.fst := kept_names (List.mem_map_of_mem hmem)
        simpa using fun heq : key = field.1 => h.1 (heq ▸ hname)
    · have hne : (key == name) = false := by simpa using hkey
      rw [hne]
      simp only
      rw [← ih h.2]
      split_ifs
      · rw [List.lookup_cons, hne]
        rfl
      · rfl

open Classical in
/-- **The fields that the next command reads.** -/
theorem lookup_given (h : p.Proper addr) :
    (kept p.given).lookup "ip" = some (.string (inetNtop addr)) ∧
    (kept p.given).lookup "host" = (if IsUtf8 p.target.name then some (.string p.target.name) else none) ∧
    (kept p.given).lookup "path" = (if IsUtf8 p.path then some (.string p.path) else none) ∧
    (kept p.given).lookup "filehandle" = some (.string (nfsFh3ToString p.handle)) := by
  have hip : p.given.lookup "ip" = some (.string (inetNtop addr)) := by
    rw [← h.ip]
    rfl
  have hhost : p.given.lookup "host" = some (.string p.target.name) := rfl
  have hpath : p.given.lookup "path" = some (.string p.path) := rfl
  have hfh : p.given.lookup "filehandle" = some (.string (nfsFh3ToString p.handle)) :=
    (rest_lookup p).2.2.2
  have hkept : ∀ s, Kept (.string s) ↔ IsUtf8 s := fun _ => Iff.rfl
  simp only [lookup_kept p.given_nodup, hip, hhost, hpath, hfh, Option.filter_some, hkept, decide_eq_true_eq,
    (inetNtop_ascii addr).utf8, (nfsFh3ToString_ascii p.handle).utf8, if_true, and_self]

theorem mem_kept {obj : JsonObject} {field : String × JsonValue} (h : field ∈ kept obj) :
    field ∈ obj ∧ Kept field.2 := by
  rw [kept, List.mem_filter] at h
  simpa using h

theorem mem_given {field : String × JsonValue} (h : field ∈ p.given) :
    field = ("host", .string p.target.name) ∨ field = ("ip", .string p.target.ipAddress) ∨
      field = ("path", .string p.path) ∨ Plain field := by
  rcases List.mem_append.1 h with h | h
  · simp only [startFields, List.mem_cons, List.not_mem_nil, or_false] at h
    tauto
  · exact .inr (.inr (.inr (rest_plain p field h)))

theorem plainNames (p : Printed) : PlainNames (kept p.given) := by
  intro field hfield
  rcases mem_given (mem_kept hfield).1 with rfl | rfl | rfl | hplain
  · exact (by decide : Ascii "host".toList)
  · exact (by decide : Ascii "ip".toList)
  · exact (by decide : Ascii "path".toList)
  · exact hplain.1

theorem Proper.terminated (h : p.Proper addr) : Terminated (kept p.given) := by
  intro field hfield s hs
  rcases mem_given (mem_kept hfield).1 with rfl | rfl | rfl | hplain
  · exact (JsonValue.string.inj hs) ▸ h.name_nul
  · exact (JsonValue.string.inj hs) ▸ h.ip ▸ (inetNtop_ascii addr).nul
  · exact (JsonValue.string.inj hs) ▸ h.path_nul
  · exact (hplain.2 s hs).nul

/-- The line is parsed iff the strings in it are printable. -/
theorem Proper.allPrintable (h : p.Proper addr) : AllPrintable (kept p.given) ↔
    (IsUtf8 p.target.name → Printable p.target.name) ∧ (IsUtf8 p.path → Printable p.path) := by
  have hkept : ∀ name s, (name, JsonValue.string s) ∈ p.given → IsUtf8 s →
      (name, JsonValue.string s) ∈ kept p.given := by
    intro name s hmem hs
    have hk : Kept (.string s) := hs
    rw [kept, List.mem_filter]
    exact ⟨hmem, by simpa using hk⟩
  constructor
  · intro hall
    exact ⟨fun hs => hall _ (hkept "host" _ (by simp [given, startFields]) hs) _ rfl,
      fun hs => hall _ (hkept "path" _ (by simp [given, startFields]) hs) _ rfl⟩
  · rintro ⟨hname, hpath⟩ field hfield s hs
    obtain ⟨hmem, hvalid⟩ := mem_kept hfield
    rcases mem_given hmem with rfl | rfl | rfl | hplain
    · exact (JsonValue.string.inj hs) ▸ hname hvalid
    · exact (JsonValue.string.inj hs) ▸ h.ip ▸ (inetNtop_ascii addr).printable
    · exact (JsonValue.string.inj hs) ▸ hpath hvalid
    · exact (hplain.2 s hs).printable

variable (num) in
open Classical in
/-- **The line**, as the next command reads it. -/
theorem Proper.line (h : p.Proper addr) : ∃ line, p.line num = .ok (some line) ∧ line ≠ [] ∧ ∀ key,
    jsonObjectGetString num.toDoubles line key =
      if (IsUtf8 p.target.name → Printable p.target.name) ∧ (IsUtf8 p.path → Printable p.path) then
        ((kept p.given).lookup key).bind string? else none := by
  obtain ⟨object, hobject, hholds⟩ := object_holds num p
  obtain ⟨line, hline, hne, hget⟩ := jsonObjectGetString_line hholds (plainNames p) h.terminated
  refine ⟨line, ?_, hne, fun key => ?_⟩
  · rw [Printed.line, hobject, ok_bind, hline]
  · rw [hget key, if_congr h.allPrintable rfl rfl]

end

end Printed

/-! ## The next command -/

section
variable {num : Numbers} {p : Printed} {addr : InAddr} {line : CString}

/-- The fields of a line with two texts. -/
def Printed.fhLine (p : Printed) (addr : InAddr) : FhLine where
  addr := addr
  host := p.target.name
  path := p.path
  filehandle := nfsFh3ToString p.handle

/-- What a line is for the next command. -/
inductive Outcome (num : Numbers) (p : Printed) (addr : InAddr) (line : CString) : Prop
  /-- it has all the fields -/
  | accepted : Printed.Text p.target.name → Printed.Text p.path →
    HandleLine (jsonObjectGetString num.toDoubles) line (nfsFh3ToString p.handle) →
    NFStash.fhLine (jsonObjectGetString num.toDoubles) line = p.fhLine addr → Outcome num p addr line
  /-- it is not parsed -/
  | unparsed : (IsUtf8 p.target.name ∧ ¬ Printable p.target.name ∨ IsUtf8 p.path ∧ ¬ Printable p.path) →
    NoAddress (jsonObjectGetString num.toDoubles) line → Outcome num p addr line
  /-- it has no host or no path -/
  | incomplete : (¬ IsUtf8 p.target.name ∨ ¬ IsUtf8 p.path) →
    (IsUtf8 p.target.name → Printable p.target.name) → (IsUtf8 p.path → Printable p.path) →
    ¬ NoAddress (jsonObjectGetString num.toDoubles) line →
    ¬ HasFields (jsonObjectGetString num.toDoubles) line →
    Outcome num p addr line

variable (num) in
theorem Printed.Proper.outcome (h : p.Proper addr) :
    ∃ line, p.line num = .ok (some line) ∧ Outcome num p addr line := by
  obtain ⟨line, hline, hne, hget⟩ := h.line num
  obtain ⟨hip, hhost, hpath, hfh⟩ := Printed.lookup_given h
  refine ⟨line, hline, ?_⟩
  by_cases hparsed : (IsUtf8 p.target.name → Printable p.target.name) ∧ (IsUtf8 p.path → Printable p.path)
  · simp only [if_pos hparsed] at hget
    have hip' : jsonObjectGetString num.toDoubles line "ip" = some (inetNtop addr) := by
      rw [hget, hip]
      rfl
    have hfh' : jsonObjectGetString num.toDoubles line "filehandle" = some (nfsFh3ToString p.handle) := by
      rw [hget, hfh]
      rfl
    have haddress : ¬ NoAddress (jsonObjectGetString num.toDoubles) line := by
      rintro (hnil | hnone)
      · exact hne hnil
      · simp [hip', inetPton_inetNtop] at hnone
    by_cases hutf8 : IsUtf8 p.target.name ∧ IsUtf8 p.path
    · obtain ⟨h1, h2⟩ := hutf8
      have hhost' : jsonObjectGetString num.toDoubles line "host" = some p.target.name := by
        rw [hget, hhost, if_pos h1]
        rfl
      have hpath' : jsonObjectGetString num.toDoubles line "path" = some p.path := by
        rw [hget, hpath, if_pos h2]
        rfl
      refine .accepted ⟨h1, hparsed.1 h1⟩ ⟨h2, hparsed.2 h2⟩ ?_ ?_
      · exact ⟨haddress, by rw [hhost']; rfl, by rw [hpath']; rfl, hfh'⟩
      · simp [NFStash.fhLine, Printed.fhLine, hip', hhost', hpath', hfh', inetPton_inetNtop]
    · refine .incomplete (not_and_or.1 hutf8) hparsed.1 hparsed.2 haddress ?_
      rintro ⟨hsome, hsome', -⟩
      rw [hget, hhost] at hsome
      rw [hget, hpath] at hsome'
      rcases not_and_or.1 hutf8 with h1 | h2
      · rw [if_neg h1] at hsome
        cases hsome
      · rw [if_neg h2] at hsome'
        cases hsome'
  · refine .unparsed ?_ (.inr ?_)
    · rw [not_and_or] at hparsed
      exact hparsed.imp (fun hn => Classical.not_imp.1 hn) fun hn => Classical.not_imp.1 hn
    · rw [hget, if_neg hparsed]
      rfl

/-- On allocated targets a line is accepted or rejected. -/
theorem parseFh_total (lookup : CString → String → Option CString) (junk : ℕ → UInt8) (port : UInt16)
    (count : ℕ) {head : List Target} (hh : Allocated head) (input : CString) :
    ∃ r ts, parseFh lookup junk head input port count = .ok (r, ts) := by
  by_cases hn : NoAddress lookup input
  · obtain ⟨e, he⟩ := parseFh_noAddress lookup junk port count head hn
    exact ⟨_, _, he⟩
  · obtain ⟨addr, ha⟩ := parseFh_address lookup junk port count head hn
    obtain ⟨⟨i, ts⟩, hfind⟩ := findOrMakeTarget_total port count addr hh
    obtain ⟨t, ht, -, -⟩ := findOrMakeTarget_get port count hfind
    rw [ha, parseTarget, hfind, ok_bind]
    dsimp only
    rw [ht]
    dsimp only
    split
    · exact ⟨_, _, rfl⟩
    · exact ⟨_, _, rfl⟩

/-! ### One line -/

theorem Outcome.of_text (h : Outcome num p addr line) (hname : Printed.Text p.target.name)
    (hpath : Printed.Text p.path) :
    HandleLine (jsonObjectGetString num.toDoubles) line (nfsFh3ToString p.handle) ∧
      NFStash.fhLine (jsonObjectGetString num.toDoubles) line = p.fhLine addr := by
  cases h with
  | accepted _ _ hhandle hline => exact ⟨hhandle, hline⟩
  | unparsed hbad =>
    rcases hbad with ⟨-, hn⟩ | ⟨-, hn⟩
    · exact absurd hname.2 hn
    · exact absurd hpath.2 hn
  | incomplete hbad =>
    rcases hbad with hn | hn
    · exact absurd hname.1 hn
    · exact absurd hpath.1 hn

theorem Outcome.of_unprintable (h : Outcome num p addr line)
    (hbad : IsUtf8 p.target.name ∧ ¬ Printable p.target.name ∨ IsUtf8 p.path ∧ ¬ Printable p.path) :
    NoAddress (jsonObjectGetString num.toDoubles) line := by
  cases h with
  | accepted hname hpath =>
    rcases hbad with ⟨-, hn⟩ | ⟨-, hn⟩
    · exact absurd hname.2 hn
    · exact absurd hpath.2 hn
  | unparsed _ hno => exact hno
  | incomplete _ h1 h2 =>
    rcases hbad with ⟨hu, hn⟩ | ⟨hu, hn⟩
    · exact absurd (h1 hu) hn
    · exact absurd (h2 hu) hn

theorem Outcome.of_lost (h : Outcome num p addr line) (hbad : ¬ IsUtf8 p.target.name ∨ ¬ IsUtf8 p.path)
    (h1 : IsUtf8 p.target.name → Printable p.target.name) (h2 : IsUtf8 p.path → Printable p.path) :
    ¬ NoAddress (jsonObjectGetString num.toDoubles) line ∧
      ¬ HasFields (jsonObjectGetString num.toDoubles) line := by
  cases h with
  | accepted hname hpath =>
    rcases hbad with hn | hn
    · exact absurd hname.1 hn
    · exact absurd hpath.1 hn
  | unparsed hbad' =>
    rcases hbad' with ⟨hu, hn⟩ | ⟨hu, hn⟩
    · exact absurd (h1 hu) hn
    · exact absurd (h2 hu) hn
  | incomplete _ _ _ haddr hfields => exact ⟨haddr, hfields⟩

variable (num) in
/-- **A printed line** is accepted by the next command iff host and path are UTF-8 and printable.  If one is
    UTF-8 and not printable, the line is rejected and nothing happens; otherwise a target is freed. -/
theorem parseFh_printed (p : Printed) (addr : InAddr) (h : p.Proper addr) :
    ∃ line, p.line num = .ok (some line) ∧
      ∀ junk port count head, Allocated head →
        (Printed.Text p.target.name ∧ Printed.Text p.path → ∃ i ts,
          parseFh (jsonObjectGetString num.toDoubles) junk head line port count = .ok (.ok i, ts) ∧
            Allocated ts) ∧
        (IsUtf8 p.target.name ∧ ¬ Printable p.target.name ∨ IsUtf8 p.path ∧ ¬ Printable p.path → ∃ e,
          parseFh (jsonObjectGetString num.toDoubles) junk head line port count = .ok (.error e, head)) ∧
        ((¬ IsUtf8 p.target.name ∨ ¬ IsUtf8 p.path) → (IsUtf8 p.target.name → Printable p.target.name) →
          (IsUtf8 p.path → Printable p.path) → ∃ e ts,
          parseFh (jsonObjectGetString num.toDoubles) junk head line port count = .ok (.error e, ts) ∧
            ∃ t ∈ ts, t.freed = true) := by
  obtain ⟨line, hline, houtcome⟩ := h.outcome num
  refine ⟨line, hline, fun junk port count head hh => ⟨?_, ?_, ?_⟩⟩
  · rintro ⟨hname, hpath⟩
    obtain ⟨hhandle, -⟩ := houtcome.of_text hname hpath
    have hlen := lengthOk_toString h.handle.1 h.handle.2
    obtain ⟨r, ts, hp, hts⟩ := parseFh_allocated _ junk port count hh (.inr (hhandle.hasFields_iff.2 hlen))
    obtain ⟨i, ts', hacc⟩ : Accepts (jsonObjectGetString num.toDoubles) junk port count head line :=
      (hhandle.accepts_iff hh).2 hlen
    obtain rfl : ts = ts' := (Prod.mk.inj (Except.ok.inj (hp.symm.trans hacc))).2
    exact ⟨i, ts, hacc, hts⟩
  · exact fun hbad => parseFh_noAddress _ junk port count head (houtcome.of_unprintable hbad)
  · intro hbad h1 h2
    obtain ⟨haddr, hfields⟩ := houtcome.of_lost hbad h1 h2
    obtain ⟨r, ts, hp⟩ := parseFh_total (jsonObjectGetString num.toDoubles) junk port count hh line
    obtain ⟨_, i, ts', t, -, -, ⟨-, hf, -⟩ | ⟨e, t', rfl, -⟩⟩ := parseFh_cases _ junk port count haddr hp
    · exact absurd hf hfields
    · obtain ⟨t, ht, hfreed, -⟩ := parseFh_freed _ junk port count haddr hp
      exact ⟨e, ts, hp, t, ht, hfreed⟩

/-- An export of a server. -/
def exportLine : Printed :=
  .mount {} { name := "s".toList, ipAddress := "10.0.0.1".toList } "/x".toList [] { len := 1, val := [1] } 70 0

/-- A file of another one. -/
def fileLine (name : CString) : Printed :=
  .ls { name := "t".toList, ipAddress := "10.0.0.2".toList } "/x".toList 
    { name := name, nameHandle := some ⟨[2]⟩ } 30

theorem exportLine_proper : exportLine.Proper ⟨10, 0, 0, 1⟩ :=
  ⟨by decide, by decide, by decide, by decide⟩

theorem fileLine_proper (name : CString) (h : NUL ∉ name) : (fileLine name).Proper ⟨10, 0, 0, 2⟩ := by
  refine ⟨(by decide : "10.0.0.2".toList = inetNtop ⟨10, 0, 0, 2⟩),
    (by decide : [(2 : UInt8)] ≠ [] ∧ [(2 : UInt8)].length ≤ FHSIZE3), (by decide : NUL ∉ "t".toList), ?_⟩
  have hpath : (fileLine name).path = "/x/".toList ++ name := rfl
  rw [hpath, List.mem_append]
  exact not_or.2 ⟨by decide, h⟩

/-- A file name is accepted, and one with a control character is not. -/
theorem parseFh_printed_file :
    (∃ line, (fileLine "a".toList).line .naturals = .ok (some line) ∧
      ∀ junk port count head, Allocated head → ∃ i ts,
        parseFh (jsonObjectGetString .naturals) junk head line port count = .ok (.ok i, ts) ∧ Allocated ts) ∧
    ∃ line, (fileLine "a\x01".toList).line .naturals = .ok (some line) ∧
      ∀ junk port count head, Allocated head → ∃ e,
        parseFh (jsonObjectGetString .naturals) junk head line port count = .ok (.error e, head) := by
  obtain ⟨line₁, hline₁, h₁⟩ := parseFh_printed .naturals (fileLine "a".toList) ⟨10, 0, 0, 2⟩
    (fileLine_proper _ (by decide))
  obtain ⟨line₂, hline₂, h₂⟩ := parseFh_printed .naturals (fileLine "a\x01".toList) ⟨10, 0, 0, 2⟩
    (fileLine_proper _ (by decide))
  have hname : Printed.Text "t".toList := ⟨Ascii.utf8 (by decide), Ascii.printable (by decide)⟩
  have hpath : Printed.Text "/x/a".toList := ⟨Ascii.utf8 (by decide), Ascii.printable (by decide)⟩
  refine ⟨⟨line₁, hline₁, fun junk port count head hh => (h₁ junk port count head hh).1 ⟨hname, hpath⟩⟩,
    line₂, hline₂, fun junk port count head hh => (h₂ junk port count head hh).2.1 (.inr ⟨?_, by decide⟩)⟩
  exact ⟨_, (by decide : octets (fileLine "a\x01".toList).path = "/x/a\x01".toList.flatMap Utf8.encode)⟩

/-! ### All lines -/

/-- The handle is read back. -/
theorem Printed.Proper.fhLine_handle (h : p.Proper addr) : (p.fhLine addr).handle = p.handle :=
  congrArg NfsFh3.mk (hexBytes_take_toString h.handle.2)

/-- The two strings are printable. -/
def Printed.Plainly (p : Printed) : Prop := Printable p.target.name ∧ Printable p.path

instance (p : Printed) : Decidable p.Plainly := inferInstanceAs (Decidable (_ ∧ _))

variable (num) in
/-- The lines after those that made the targets. -/
theorem parseLines_printed_from (ps : List (Printed × InAddr)) (hps : ∀ p ∈ ps, p.1.Proper p.2)
    (hutf8 : ∀ p ∈ ps, IsUtf8 p.1.target.name ∧ IsUtf8 p.1.path) :
    ∃ lines, ps.mapM (fun p => p.1.line num) = .ok (lines.map some) ∧ ∀ junk port count done,
      parseLines (jsonObjectGetString num.toDoubles) junk port count (groupedTargets port count done) lines =
        .ok (groupedTargets port count
          (done ++ (ps.filter fun p => p.1.Plainly).map fun p => p.1.fhLine p.2)) := by
  induction ps with
  | nil =>
    refine ⟨[], rfl, fun junk port count done => ?_⟩
    rw [List.filter_nil, List.map_nil, List.append_nil]
    rfl
  | cons p ps ih =>
    obtain ⟨p, addr⟩ := p
    rw [List.forall_mem_cons] at hps hutf8
    obtain ⟨lines, hlines, hparse⟩ := ih hps.2 hutf8.2
    obtain ⟨line, hline, houtcome⟩ := hps.1.outcome num
    refine ⟨line :: lines, ?_, fun junk port count done => ?_⟩
    · rw [List.mapM_cons, hline, ok_bind, hlines, ok_bind]
      rfl
    rw [List.filter_cons]
    by_cases hplain : p.Plainly
    · -- the line is accepted
      obtain ⟨hhandle, hread⟩ := houtcome.of_text ⟨hutf8.1.1, hplain.1⟩ ⟨hutf8.1.2, hplain.2⟩
      have hacc : Accepts (jsonObjectGetString num.toDoubles) junk port count
          (groupedTargets port count done) line :=
        (hhandle.accepts_iff (groupedTargets_allocated port count done)).2
          (lengthOk_toString hps.1.handle.1 hps.1.handle.2)
      obtain ⟨i, hi⟩ := parseFh_grouped hacc (by rw [hread]; exact hexText_toString p.handle.data)
      rw [hread] at hi
      rw [if_pos (decide_eq_true hplain), List.map_cons]
      refine (parseLines_cons _ junk port count).2 ⟨_, _, hi, ?_⟩
      rw [hparse, List.append_assoc]
      rfl
    · have hbad : IsUtf8 p.target.name ∧ ¬ Printable p.target.name ∨ IsUtf8 p.path ∧ ¬ Printable p.path :=
        (not_and_or.1 hplain).imp (⟨hutf8.1.1, ·⟩) (⟨hutf8.1.2, ·⟩)
      obtain ⟨e, he⟩ := parseFh_noAddress _ junk port count (groupedTargets port count done)
        (houtcome.of_unprintable hbad)
      rw [if_neg (by simpa using hplain)]
      exact (parseLines_cons _ junk port count).2 ⟨_, _, he, hparse junk port count done⟩

variable (num) in
/-- **The targets of the next command** are the printed lines, grouped by their address, without those that
    cannot be parsed. -/
theorem parseLines_printed (ps : List (Printed × InAddr)) (hps : ∀ p ∈ ps, p.1.Proper p.2)
    (hutf8 : ∀ p ∈ ps, IsUtf8 p.1.target.name ∧ IsUtf8 p.1.path) :
    ∃ lines, ps.mapM (fun p => p.1.line num) = .ok (lines.map some) ∧
      (∀ junk port count,
        parseLines (jsonObjectGetString num.toDoubles) junk port count dummyTargets lines =
          .ok (groupedTargets port count ((ps.filter fun p => p.1.Plainly).map fun p => p.1.fhLine p.2))) ∧
      ∀ p ∈ ps, (p.1.fhLine p.2).handle = p.1.handle := by
  obtain ⟨lines, hlines, hparse⟩ := parseLines_printed_from num ps hps hutf8
  exact ⟨lines, hlines, fun junk port count => hparse junk port count [], fun p hp => (hps p hp).fhLine_handle⟩

theorem parseLines_printed_two : ∃ lines,
    [(exportLine, (⟨10, 0, 0, 1⟩ : InAddr)), (fileLine "a".toList, ⟨10, 0, 0, 2⟩)].mapM
      (fun p => p.1.line .naturals) = .ok (lines.map some) ∧
    ∀ junk port count, parseLines (jsonObjectGetString .naturals) junk port count dummyTargets lines =
      .ok (groupedTargets port count
        [exportLine.fhLine ⟨10, 0, 0, 1⟩, (fileLine "a".toList).fhLine ⟨10, 0, 0, 2⟩]) := by
  have hproper := fileLine_proper "a".toList (by decide)
  obtain ⟨lines, hlines, hparse, -⟩ := parseLines_printed .naturals
    [(exportLine, (⟨10, 0, 0, 1⟩ : InAddr)), (fileLine "a".toList, ⟨10, 0, 0, 2⟩)]
    (List.forall_mem_cons.2 ⟨exportLine_proper, List.forall_mem_singleton.2 hproper⟩)
    (List.forall_mem_cons.2
      ⟨⟨Ascii.utf8 (s := "s".toList) (by decide), Ascii.utf8 (s := "/x".toList) (by decide)⟩,
      List.forall_mem_singleton.2
        ⟨Ascii.utf8 (s := "t".toList) (by decide), Ascii.utf8 (s := "/x/a".toList) (by decide)⟩⟩)
  exact ⟨lines, hlines, hparse⟩

end

end NFStash.JSON
