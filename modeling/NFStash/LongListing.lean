/-
  `ls.c`: a long listing and its columns.

  A first loop over all entries finds the greatest inode number, link count and size.  The columns
  are as wide as `floor(log10(abs(m))) + 1` for each of these, but `abs` takes an `int`, which drops
  all but the lower half of a 64-bit number.  `longWidths_iff` says for which maxima the columns are
  wide enough, and `longWidths_narrow` is a listing where they are not.

  Users, groups, the time zone and the logarithm come from outside.
-/
import NFStash.Lib.Maxima
import NFStash.Human
import NFStash.LsOptions
import NFStash.LsPerms
import Mathlib.Data.Nat.Log

namespace NFStash

open CLib Maxima

/-! ## Model -/

/-- What a listing gets from outside. -/
structure LongEnv where
  /-- `floor(log10(x))` of a positive `int` -/
  floorLog10 : ℕ → ℕ
  /-- the name from `getpwuid`, or a null pointer -/
  passwd : UInt32 → Option CString
  /-- the name from `getgrgid`, or a null pointer -/
  group : UInt32 → Option CString
  /-- a time that is printed in the local time zone -/
  localtime : UInt32 → CString

/-- What the first loop finds: the number of lines, and the longest string in each column. -/
structure LongMaxima where
  count : ℕ := 0
  maxinode : ℕ := 1
  maxlinks : ℕ := 1
  maxsize : ℕ := 1
  maxuser : ℕ := 0
  maxgroup : ℕ := 0
  maxhost : ℕ := 0

structure LongWidths where
  inode : ℕ
  links : ℕ
  size : ℕ
  user : ℕ
  group : ℕ
  host : ℕ

/-- A line on stdout, with the widths it is printed with. -/
structure LongLine where
  widths : LongWidths
  inode : UInt64
  bits : CString
  nlink : UInt32
  user : CString
  group : CString
  filesize : CString
  mtime : CString
  host : CString
  name : CString

section
variable (cfg : LsSettings) (env : LongEnv)

/-- `host_p`. -/
def longHost (target : Target) : CString := if cfg.displayIps then target.ipAddress else target.name

/-- An entry in the first loop. -/
def LongMaxima.entry (m : LongMaxima) (current : Entrypluslink3) : Except Fault LongMaxima :=
  let m := { m with count := m.count + 1 }
  match current.nameAttributes with
  | none => .ok m
  | some attributes => match env.passwd attributes.uid, env.group attributes.gid with
    | some user, some group => .ok { m with
        maxinode := max m.maxinode attributes.fileid.toNat
        maxlinks := max m.maxlinks attributes.nlink.toNat
        maxsize := max m.maxsize attributes.size.toNat
        maxuser := max m.maxuser user.length
        maxgroup := max m.maxgroup group.length }
    | _, _ => .error .nullDeref

def LongMaxima.filehandle (m : LongMaxima) (fh : NfsFhList) : Except Fault LongMaxima :=
  fh.entries.foldlM (LongMaxima.entry env) m

def LongMaxima.target (m : LongMaxima) (target : Target) : Except Fault LongMaxima :=
  target.filehandles.foldlM (LongMaxima.filehandle env)
    { m with maxhost := max m.maxhost (longHost cfg target).length }

/-- The first loop. -/
def longMaxima (targets : List Target) : Except Fault LongMaxima :=
  targets.foldlM (LongMaxima.target cfg env) {}

/-- `abs((int) m)`, where the result is defined. -/
def absInt (m : ℕ) : Option ℕ :=
  let i := Int.bmod m (2 ^ 32)
  if i = -2 ^ 31 then none else some i.natAbs

/-- `floor(log10(abs(m))) + 1`, which is not a number for 0. -/
def columnWidth (m : ℕ) : Option ℕ := do
  let n ← absInt m
  if n = 0 then none else some (env.floorLog10 n + 1)

/-- The maximum string widths, if they are all defined. -/
def LongMaxima.widths (m : LongMaxima) : Option LongWidths := do
  let inode ← columnWidth env m.maxinode
  let links ← columnWidth env m.maxlinks
  let size ← columnWidth env m.maxsize
  some { inode, links, size, user := m.maxuser, group := m.maxgroup, host := m.maxhost }

/-- The name of an entry, with the target of a symlink; a null pointer is printed as `(null)`. -/
def longName (current : Entrypluslink3) : CString :=
  if current.attributes.type = NF3LNK then
    current.name ++ " -> ".toList ++ current.symlink.getD "(null)".toList
  else current.name

/-- An entry in the second loop. -/
def longLine (widths : LongWidths) (target : Target) (current : Entrypluslink3) :
    Except Fault LongLine :=
  let attributes := current.attributes
  match env.passwd attributes.uid, env.group attributes.gid with
  | some user, some group => .ok {
      widths, user, group
      inode := attributes.fileid
      bits := lsperms attributes.type attributes.mode
      nlink := attributes.nlink
      filesize := prefixPrint attributes.size (cfg.bytePrefix.getD .human)
      mtime := env.localtime attributes.mtime
      host := longHost cfg target
      name := longName current }
  | _, _ => .error .nullDeref

/-- The second loop: the lines that are printed, and what stops it before its end. -/
def longLines (widths : LongWidths) : List (Target × Entrypluslink3) → List LongLine × Option Fault
  | [] => ([], none)
  | (target, current) :: rest => match longLine cfg env widths target current with
    | .error e => ([], some e)
    | .ok line =>
      let (lines, fault) := longLines widths rest
      (line :: lines, fault)

/-- The entries of all filehandles, with their targets. -/
def targetEntries (targets : List Target) : List (Target × Entrypluslink3) :=
  targets.flatMap fun target => target.filehandles.flatMap fun fh => fh.entries.map (target, ·)

/-- `print_long_listing`, if the widths are defined: the number it returns, unless it is stopped, and
    the lines. -/
def printLongListing (targets : List Target) :
    Except Fault (Option (ℕ × List LongLine × Option Fault)) := do
  let m ← longMaxima cfg env targets
  .ok ((m.widths env).map fun widths => (m.count, longLines cfg env widths (targetEntries targets)))

end

/-! ## Right columns -/

/-- The entries of all filehandles. -/
def longEntries (targets : List Target) : List Entrypluslink3 :=
  targets.flatMap fun target => target.filehandles.flatMap (·.entries)

/-- The greatest value of an attribute, at least 1. -/
def longMost (value : Fattr3 → ℕ) (targets : List Target) : ℕ :=
  most 1 (fun current => value current.attributes) (longEntries targets)

def mostInode (targets : List Target) : ℕ := longMost (·.fileid.toNat) targets
def mostLinks (targets : List Target) : ℕ := longMost (·.nlink.toNat) targets
def mostSize (targets : List Target) : ℕ := longMost (·.size.toNat) targets

/-- The number of decimal digits. -/
def digits (n : ℕ) : ℕ := (decimalText n).length

/-- The inode number and the link count are not wider than their columns. -/
structure LongFits (line : LongLine) : Prop where
  inode : digits line.inode.toNat ≤ line.widths.inode
  links : digits line.nlink.toNat ≤ line.widths.links

/-- The columns for numbers are as wide as the longest numbers, and all lines are printed in them. -/
structure LongRight (cfg : LsSettings) (env : LongEnv) (targets : List Target) : Prop where
  widths : ∃ m w, longMaxima cfg env targets = .ok m ∧ m.widths env = some w ∧
    w.inode = digits (mostInode targets) ∧ w.links = digits (mostLinks targets) ∧
    w.size = digits (mostSize targets)
  fits : ∀ count lines fault, printLongListing cfg env targets = .ok (some (count, lines, fault)) →
    ∀ line ∈ lines, LongFits line

/-- The user and the group in the attributes, if there are any, have names. -/
def HasNames (env : LongEnv) (current : Entrypluslink3) : Prop :=
  ∀ attributes, current.nameAttributes = some attributes →
    (env.passwd attributes.uid).isSome ∧ (env.group attributes.gid).isSome

def NamesKnown (env : LongEnv) (targets : List Target) : Prop :=
  ∀ current ∈ longEntries targets, HasNames env current

/-- An `int`, or a number of ten digits whose lower half is, as an `int`, a number of ten digits with
    a sign. -/
def KeepsDigits (m : ℕ) : Prop :=
  m < 2 ^ 31 ∨ m < 10 ^ 10 ∧ 10 ^ 9 ≤ (Int.bmod m (2 ^ 32)).natAbs ∧ m % 2 ^ 32 ≠ 2 ^ 31

/-! ## Digits -/

section
variable {m n k : ℕ}

theorem digits_pos : 0 < digits n := by
  rw [digits, decimalText_eq]
  exact Nat.length_toDigits_pos

theorem digits_le_iff (h : 0 < k) : digits n ≤ k ↔ n < 10 ^ k := decimalText_length_le_iff h

theorem digits_mono (h : m ≤ n) : digits m ≤ digits n :=
  (digits_le_iff digits_pos).2 (h.trans_lt ((digits_le_iff digits_pos).1 le_rfl))

theorem absInt_eq_some : absInt m = some n ↔
    m % 2 ^ 32 ≠ 2 ^ 31 ∧ n = (Int.bmod m (2 ^ 32)).natAbs := by
  have hmin : Int.bmod m (2 ^ 32) = -2 ^ 31 ↔ m % 2 ^ 32 = 2 ^ 31 := by
    rw [Int.bmod_def]
    omega
  unfold absInt
  dsimp only
  split_ifs with h
  · exact iff_of_false nofun fun hn => hn.1 (hmin.1 h)
  · rw [Option.some_inj, and_iff_right (mt hmin.2 h)]
    exact eq_comm

theorem log_digits (n : ℕ) : Nat.log 10 n + 1 = digits n := by
  refine le_antisymm (Nat.log_lt_of_lt_pow' digits_pos.ne' ((digits_le_iff digits_pos).1 le_rfl)) ?_
  exact (digits_le_iff (Nat.succ_pos _)).2 (Nat.lt_pow_succ_log_self (by decide) n)

variable {env : LongEnv}

theorem columnWidth_eq_some : columnWidth env m = some k ↔ m % 2 ^ 32 ≠ 2 ^ 31 ∧
    (Int.bmod m (2 ^ 32)).natAbs ≠ 0 ∧ k = env.floorLog10 (Int.bmod m (2 ^ 32)).natAbs + 1 := by
  unfold columnWidth
  rw [Option.bind_eq_bind, Option.bind_eq_some_iff]
  constructor
  · rintro ⟨n, hn, h⟩
    obtain ⟨hmin, hn⟩ := absInt_eq_some.1 hn
    rw [← hn]
    split_ifs at h with hzero
    exact ⟨hmin, hzero, (Option.some.inj h).symm⟩
  · rintro ⟨hmin, hzero, rfl⟩
    exact ⟨_, absInt_eq_some.2 ⟨hmin, rfl⟩, if_neg hzero⟩

/-- The width is the number of digits of a number iff that is the same for its lower half. -/
theorem columnWidth_iff (hlog : ∀ x, 1 ≤ x → x < 2 ^ 31 → env.floorLog10 x + 1 = digits x)
    (h : 1 ≤ m) : columnWidth env m = some (digits m) ↔ KeepsDigits m := by
  rw [columnWidth_eq_some]
  by_cases hint : m < 2 ^ 31
  · have hself : (Int.bmod m (2 ^ 32)).natAbs = m := by
      rw [Int.bmod_def]
      omega
    rw [hself, hlog m h hint]
    exact iff_of_true ⟨by omega, by omega, rfl⟩ (.inl hint)
  · obtain ⟨n, hn⟩ : ∃ n, n = (Int.bmod m (2 ^ 32)).natAbs := ⟨_, rfl⟩
    rw [KeepsDigits, or_iff_right hint, ← hn]
    have hten : ¬ digits m ≤ 9 := by
      rw [digits_le_iff (by decide)]
      omega
    have hlt : m % 2 ^ 32 ≠ 2 ^ 31 → n < 2 ^ 31 := by
      rw [hn, Int.bmod_def]
      omega
    constructor
    · rintro ⟨hmin, hpos, heq⟩
      rw [hlog n (by omega) (hlt hmin)] at heq
      have hn9 : ¬ n < 10 ^ 9 := by
        rw [← digits_le_iff (by decide), ← heq]
        exact hten
      have hm10 : digits m ≤ 10 := by
        rw [heq, digits_le_iff (by decide)]
        exact (hlt hmin).trans (by decide)
      exact ⟨(digits_le_iff (by decide)).1 hm10, not_lt.1 hn9, hmin⟩
    · rintro ⟨hm10, hn9, hmin⟩
      have hn10 : digits n = 10 := by
        refine le_antisymm ((digits_le_iff (by decide)).2 ((hlt hmin).trans (by decide))) ?_
        exact not_le.1 (mt (digits_le_iff (by decide)).1 (not_lt.2 hn9))
      have hm : digits m = 10 :=
        le_antisymm ((digits_le_iff (by decide)).2 hm10) (not_le.1 hten)
      refine ⟨hmin, by omega, ?_⟩
      rw [hlog n (by omega) (hlt hmin), hn10, hm]

end

/-! ## The first loop -/

section
variable {cfg : LsSettings} {env : LongEnv} {m m' : LongMaxima} {w : LongWidths}
  {current : Entrypluslink3} {target : Target} {targets : List Target}

theorem LongMaxima.entry_ok (h : m.entry env current = .ok m') :
    m'.maxinode = max m.maxinode current.attributes.fileid.toNat ∧
      m'.maxlinks = max m.maxlinks current.attributes.nlink.toNat ∧
      m'.maxsize = max m.maxsize current.attributes.size.toNat := by
  unfold LongMaxima.entry at h
  unfold Entryplus3.attributes
  cases hattr : current.nameAttributes with
  | none =>
    rw [hattr] at h
    obtain rfl := Except.ok.inj h
    simp
  | some attributes =>
    simp only [hattr] at h
    split at h
    · obtain rfl := Except.ok.inj h
      exact ⟨rfl, rfl, rfl⟩
    · cases h

theorem LongMaxima.entry_ends : (∃ m', m.entry env current = .ok m') ↔ HasNames env current := by
  unfold LongMaxima.entry HasNames
  cases hattr : current.nameAttributes with
  | none => exact iff_of_true ⟨_, rfl⟩ nofun
  | some attributes =>
    simp only [Option.some.injEq, forall_eq']
    cases hu : env.passwd attributes.uid with
    | none => simp
    | some user => cases hg : env.group attributes.gid with
      | none => simp
      | some group => simp

/-- A maximum that each entry raises to the value of an attribute. -/
theorem longMaxima_most {p : LongMaxima → ℕ} {value : Fattr3 → ℕ} (hone : p {} = 1)
    (hhost : ∀ m h, p { m with maxhost := h } = p m)
    (hentry : ∀ m current m', LongMaxima.entry env m current = .ok m' →
      p m' = max (p m) (value current.attributes))
    (h : longMaxima cfg env targets = .ok m) : p m = longMost value targets := by
  rw [longMost, most, longEntries, List.foldl_flatMap]
  simp only [List.foldl_flatMap]
  rw [← hone]
  refine foldlM_proj (fun m target m' h => ?_) h
  rw [← hhost m (max m.maxhost (longHost cfg target).length)]
  exact foldlM_proj (fun m fh m' h => foldlM_proj hentry h) h

theorem longMaxima_ok (h : longMaxima cfg env targets = .ok m) : m.maxinode = mostInode targets ∧
    m.maxlinks = mostLinks targets ∧ m.maxsize = mostSize targets :=
  ⟨longMaxima_most (p := (·.maxinode)) rfl (fun _ _ => rfl) (fun _ _ _ h => (LongMaxima.entry_ok h).1) h,
    longMaxima_most (p := (·.maxlinks)) rfl (fun _ _ => rfl) (fun _ _ _ h => (LongMaxima.entry_ok h).2.1) h,
    longMaxima_most (p := (·.maxsize)) rfl (fun _ _ => rfl) (fun _ _ _ h => (LongMaxima.entry_ok h).2.2) h⟩

theorem longMaxima_ends : (∃ m, longMaxima cfg env targets = .ok m) ↔ NamesKnown env targets := by
  have hfh : ∀ m fh, (∃ m', LongMaxima.filehandle env m fh = .ok m') ↔
      ∀ current ∈ fh.entries, HasNames env current :=
    fun m fh => foldlM_ends fun m current => @LongMaxima.entry_ends env m current
  have htarget : ∀ m target, (∃ m', LongMaxima.target cfg env m target = .ok m') ↔
      ∀ fh ∈ target.filehandles, ∀ current ∈ fh.entries, HasNames env current :=
    fun m target => foldlM_ends hfh
  refine (foldlM_ends htarget).trans ?_
  simp only [NamesKnown, longEntries, List.mem_flatMap]
  constructor
  · rintro h current ⟨target, ht, fh, hfh, hc⟩
    exact h target ht fh hfh current hc
  · intro h target ht fh hfh current hc
    exact h current ⟨target, ht, fh, hfh, hc⟩

/-! ## The lines -/

theorem longLine_ok {line : LongLine} (h : longLine cfg env w target current = .ok line) :
    line.widths = w ∧ line.inode = current.attributes.fileid ∧
      line.nlink = current.attributes.nlink := by
  unfold longLine at h
  dsimp only at h
  split at h
  · obtain rfl := Except.ok.inj h
    exact ⟨rfl, rfl, rfl⟩
  · cases h

/-- Every line is that of an entry. -/
theorem longLines_mem {l : List (Target × Entrypluslink3)} {line : LongLine}
    (h : line ∈ (longLines cfg env w l).1) :
    ∃ p ∈ l, longLine cfg env w p.1 p.2 = .ok line := by
  induction l with
  | nil => cases h
  | cons p rest ih =>
    rw [longLines] at h
    cases hp : longLine cfg env w p.1 p.2 with
    | error e => simp [hp] at h
    | ok first =>
      simp only [hp, List.mem_cons] at h
      rcases h with rfl | h
      · exact ⟨p, List.mem_cons_self, hp⟩
      · obtain ⟨q, hq, hline⟩ := ih h
        exact ⟨q, List.mem_cons_of_mem _ hq, hline⟩

theorem targetEntries_mem {p : Target × Entrypluslink3} (h : p ∈ targetEntries targets) :
    p.2 ∈ longEntries targets := by
  simp only [targetEntries, longEntries, List.mem_flatMap, List.mem_map] at h ⊢
  obtain ⟨target, ht, fh, hfh, current, hc, rfl⟩ := h
  exact ⟨target, ht, fh, hfh, hc⟩

theorem LongMaxima.widths_eq_some : m.widths env = some w ↔
    columnWidth env m.maxinode = some w.inode ∧ columnWidth env m.maxlinks = some w.links ∧
      columnWidth env m.maxsize = some w.size ∧ w.user = m.maxuser ∧ w.group = m.maxgroup ∧
      w.host = m.maxhost := by
  simp only [LongMaxima.widths, Option.bind_eq_bind, Option.bind_eq_some_iff, Option.some.injEq]
  constructor
  · rintro ⟨inode, hi, links, hl, size, hs, rfl⟩
    exact ⟨hi, hl, hs, rfl, rfl, rfl⟩
  · rintro ⟨hi, hl, hs, hu, hg, hh⟩
    refine ⟨_, hi, _, hl, _, hs, ?_⟩
    rw [← hu, ← hg, ← hh]

/-- What is printed, with the widths of the columns. -/
theorem printLongListing_mem {count : ℕ} {lines : List LongLine} {fault : Option Fault}
    {line : LongLine} (h : printLongListing cfg env targets = .ok (some (count, lines, fault)))
    (hline : line ∈ lines) :
    ∃ m, longMaxima cfg env targets = .ok m ∧ m.widths env = some line.widths ∧
      ∃ current ∈ longEntries targets, line.inode = current.attributes.fileid ∧
        line.nlink = current.attributes.nlink := by
  obtain ⟨m, hm, h⟩ := Loops.bind_eq_ok.1 h
  obtain ⟨w, hw, h⟩ := Option.map_eq_some_iff.1 (Except.ok.inj h)
  obtain rfl : (longLines cfg env w (targetEntries targets)).1 = lines :=
    congrArg (·.2.1) h
  obtain ⟨p, hp, hlong⟩ := longLines_mem hline
  obtain ⟨rfl, hinode, hnlink⟩ := longLine_ok hlong
  exact ⟨m, hm, hw, p.2, targetEntries_mem hp, hinode, hnlink⟩

end

/-- **The columns of a long listing.**  They are as wide as the longest numbers iff all names are
    known and each of the three maxima has as many digits as its lower half. -/
theorem longWidths_iff (cfg : LsSettings) (env : LongEnv) (targets : List Target)
    (hlog : ∀ x, 1 ≤ x → x < 2 ^ 31 → env.floorLog10 x + 1 = digits x) :
    LongRight cfg env targets ↔ NamesKnown env targets ∧ KeepsDigits (mostInode targets) ∧
      KeepsDigits (mostLinks targets) ∧ KeepsDigits (mostSize targets) := by
  have hwidth : ∀ value, columnWidth env (longMost value targets) =
      some (digits (longMost value targets)) ↔ KeepsDigits (longMost value targets) :=
    fun value => columnWidth_iff hlog most_base_le
  constructor
  · rintro ⟨⟨m, w, hm, hw, hi, hl, hs⟩, -⟩
    obtain ⟨hwi, hwl, hws, -⟩ := LongMaxima.widths_eq_some.1 hw
    obtain ⟨hmi, hml, hms⟩ := longMaxima_ok hm
    rw [hmi, hi] at hwi
    rw [hml, hl] at hwl
    rw [hms, hs] at hws
    exact ⟨longMaxima_ends.1 ⟨m, hm⟩, (hwidth _).1 hwi, (hwidth _).1 hwl, (hwidth _).1 hws⟩
  · rintro ⟨hnames, hi, hl, hs⟩
    obtain ⟨m, hm⟩ : ∃ m, longMaxima cfg env targets = .ok m := longMaxima_ends.2 hnames
    obtain ⟨hmi, hml, hms⟩ := longMaxima_ok hm
    have hwidths : ∀ w : LongWidths, m.widths env = some w ↔ w = ⟨digits (mostInode targets),
        digits (mostLinks targets), digits (mostSize targets), m.maxuser, m.maxgroup, m.maxhost⟩ := by
      rintro ⟨inode, links, size, user, group, host⟩
      simp only [LongMaxima.widths_eq_some, hmi, hml, hms, mostInode, mostLinks, mostSize,
        (hwidth _).2 hi, (hwidth _).2 hl, (hwidth _).2 hs, Option.some_inj, LongWidths.mk.injEq,
        eq_comm]
    refine ⟨⟨m, _, hm, (hwidths _).2 rfl, rfl, rfl, rfl⟩, ?_⟩
    intro count lines fault hprint line hline
    obtain ⟨m', hm', hw, current, hmem, hinode, hnlink⟩ := printLongListing_mem hprint hline
    obtain rfl := Except.ok.inj (hm.symm.trans hm')
    rw [hwidths] at hw
    refine ⟨?_, ?_⟩
    · rw [hw, hinode]
      exact digits_mono (most_mem_le (f := fun c : Entrypluslink3 => c.attributes.fileid.toNat) hmem)
    · rw [hw, hnlink]
      exact digits_mono (most_mem_le (f := fun c : Entrypluslink3 => c.attributes.nlink.toNat) hmem)

/-- There is only one user, and only one group. -/
def rootEnv : LongEnv where
  floorLog10 := Nat.log 10
  passwd _ := some "root".toList
  group _ := some "root".toList
  localtime _ := "1970-01-01 00:00:00".toList

/-- A filehandle with one entry. -/
def oneEntry (attributes : Fattr3) : Target where
  filehandles := [{ entries := [{ nameAttributes := some attributes }] }]

theorem longWidths_iff_small :
    LongRight {} rootEnv [oneEntry { fileid := 131, nlink := 2, size := 4096 }] :=
  (longWidths_iff {} rootEnv _ fun x _ _ => log_digits x).2
    ⟨fun _ _ _ _ => ⟨rfl, rfl⟩, .inl (by decide), .inl (by decide), .inl (by decide)⟩

/-- An inode number of 2^32 has no width, nor has one of 2^31, and one of 5000000000 has a width of 9.
    For 4294967295 links the width is 1. -/
theorem longWidths_narrow :
    columnWidth rootEnv 4294967296 = none ∧ columnWidth rootEnv 2147483648 = none ∧
      columnWidth rootEnv 5000000000 = some 9 ∧ digits 5000000000 = 10 ∧
      columnWidth rootEnv 4294967295 = some 1 ∧ digits 4294967295 = 10 ∧
      ¬ LongRight {} rootEnv [oneEntry { fileid := 4294967296 }] := by
  have hlog : ∀ n k, 10 ^ k ≤ n → n < 10 ^ (k + 1) → Nat.log 10 n + 1 = k + 1 :=
    fun n k hle hlt => congrArg (· + 1) (Nat.log_eq_of_pow_le_of_lt_pow hle hlt)
  have hdigits : ∀ n k, 10 ^ k ≤ n → n < 10 ^ (k + 1) → digits n = k + 1 :=
    fun n k hle hlt => (log_digits n).symm.trans (hlog n k hle hlt)
  refine ⟨by decide, by decide, ?_, hdigits _ 9 (by decide) (by decide), ?_,
    hdigits _ 9 (by decide) (by decide), ?_⟩
  · rw [columnWidth_eq_some]
    exact ⟨by decide, by decide, (hlog 705032704 8 (by decide) (by decide)).symm⟩
  · rw [columnWidth_eq_some]
    exact ⟨by decide, by decide, (hlog 1 0 (by decide) (by decide)).symm⟩
  · rintro ⟨⟨m, w, hm, hw, -⟩, -⟩
    have hinode := (LongMaxima.widths_eq_some.1 hw).1
    have hmost : mostInode [oneEntry { fileid := 4294967296 }] = 4294967296 := rfl
    rw [(longMaxima_ok hm).1, hmost, columnWidth_eq_some] at hinode
    exact hinode.2.1 (by decide)

end NFStash
