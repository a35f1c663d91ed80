/-
  The order of the options of `nfsping`.

  As for `nfsmount` an order may be rejected while another one is accepted: `-d` is not between `-A` and
  `-m`, and `-M` is after a `-P` with the default port.  Here the settings may differ, too: `-P` is
  overridden by an `-N` that comes later (`portAfter`).  `pingOrder_iff` is what the options are
  of which every order is accepted with the same settings, or none is.
-/
import NFStash.MountOrder
import NFStash.PingOptions

namespace NFStash

open CLib Loops Orders

/-- The settings, with the default for the port. -/
def pingSettings (opts : List PingOption) : Except OptionError PingSettings := do
  let s ← pingOptions opts
  .ok { s with port := s.defaultPort }

/-- What `getopt` returns for it. -/
def PingOption.entry : PingOption → (_ : Char) × CString
  | .a => ⟨'a', []⟩
  | .A => ⟨'A', []⟩
  | .c optarg => ⟨'c', optarg⟩
  | .C optarg => ⟨'C', optarg⟩
  | .d => ⟨'d', []⟩
  | .D => ⟨'D', []⟩
  | .E => ⟨'E', []⟩
  | .g optarg => ⟨'g', optarg⟩
  | .G => ⟨'G', []⟩
  | .h => ⟨'h', []⟩
  | .H optarg => ⟨'H', optarg⟩
  | .i optarg => ⟨'i', optarg⟩
  | .K => ⟨'K', []⟩
  | .l => ⟨'l', []⟩
  | .L => ⟨'L', []⟩
  | .m => ⟨'m', []⟩
  | .M => ⟨'M', []⟩
  | .n => ⟨'n', []⟩
  | .N => ⟨'N', []⟩
  | .P optarg => ⟨'P', optarg⟩
  | .q => ⟨'q', []⟩
  | .Q optarg => ⟨'Q', optarg⟩
  | .R => ⟨'R', []⟩
  | .s => ⟨'s', []⟩
  | .S optarg => ⟨'S', optarg⟩
  | .t optarg => ⟨'t', optarg⟩
  | .T => ⟨'T', []⟩
  | .u => ⟨'u', []⟩
  | .v => ⟨'v', []⟩
  | .V optarg => ⟨'V', optarg⟩
  | .unknown => ⟨'?', []⟩

/-- The options that exclude each other in both orders. -/
def pingGroups : List (List Char) :=
  [['a', 'K', 'L', 'n', 'N', 's', 'u'], ['C', 'D', 'E', 'G'], ['c', 'C', 'l'], ['N', 'M']]

/-- An option that is known, with an argument that is good. -/
def PingOption.Valid : PingOption → Prop
  | .c optarg | .C optarg | .V optarg => strtoul optarg ≠ 0 ∧ strtoul optarg ≠ ULONG_MAX
  | .H optarg | .t optarg => strtoul optarg ≠ 0
  | .Q optarg => wrap32 (strtoul optarg) ≠ 0
  | .S optarg => inetPton optarg ≠ none
  | .h | .unknown => False
  | _ => True

/-- What depends on the order of the options. -/
def pingFree (args : Char → Option CString) (port : UInt16) : Char → Prop
  | 'A' => ¬ Given args 'd' ∨ Given args 'm'
  | 'd' => ¬ Given args 'A' ∨ Given args 'm'
  | 'M' => port = NFS_PORT
  | 'N' | 'P' => port ≠ 0
  | _ => True

/-- An option is accepted after those with these arguments, and the port they have set. -/
structure PingOption.Allowed (args : Char → Option CString) (port : UInt16) (o : PingOption) :
    Prop where
  valid : o.Valid
  apart : Apart pingGroups args o.entry.1
  free : pingFree args port o.entry.1

/-- The options for a program. -/
def pingPrograms : List (Char × ℕ) :=
  [('a', NFS_ACL_PROGRAM), ('K', KLM_PROG), ('L', NLM_PROG), ('n', MOUNTPROG), ('N', PMAPPROG),
    ('s', SM_PROG), ('u', RQUOTAPROG)]

/-- The options for a format that is not changed by another one. -/
def pingFormats : List (Char × PingFormat) :=
  [('C', .fping), ('D', .unixtime), ('E', .statsd), ('G', .graphite)]

/-- The format of these options. -/
def pingFormatOf (args : Char → Option CString) : Option PingFormat :=
  (firstGiven pingFormats args).or (if Given args 'c' then some .ping else none)

/-- The port after an option. -/
def PingOption.portAfter (port : UInt16) : PingOption → UInt16
  | .M => 0
  | .N => PMAPPORT
  | .P optarg => .ofNat (strtoul optarg)
  | _ => port

/-- The port of these options. -/
def portOf (opts : List PingOption) : UInt16 := opts.foldl PingOption.portAfter NFS_PORT

/-- What these options set, besides the port, in an order that is accepted. -/
def PingSettings.of (args : Char → Option CString) (port : UInt16) : PingSettings where
  prognum := (firstGiven pingPrograms args).getD NFS_PROGRAM
  version := numberOf (args 'V') 3
  format := pingFormatOf args
  namePrefix := ((args 'g').map (strncpy 255)).getD "nfsping".toList
  port
  count := numberOf ((args 'c').or (args 'C')) 0
  loop := Given args 'l'
  quiet := Given args 'q' ∨ Given args 'Q'
  multiple := Given args 'm'
  reverseDns := Given args 'd'
  displayIps := ¬ Given args 'd' ∧ (Given args 'A' ∨ Given args 'm')
  summaryInterval := wrap32 (numberOf (args 'Q') 0)
  hertz := numberOf (args 'H') 10
  waitTime := numberOf (args 'i') 1
  timeout := numberOf (args 't') 1000
  reconnect := ¬ Given args 'R'
  srcIp := ((args 'S').bind inetPton).getD .any
  tcp := Given args 'T'
  verbose := Given args 'v'

/-- The interval of the summary is too small for the count. -/
def IntervalTooSmall (args : Char → Option CString) : Prop :=
  let count := numberOf ((args 'c').or (args 'C')) 0
  count ≠ 0 ∧ count ≤ wrap64 (numberOf (args 'H') 10 * wrap32 (numberOf (args 'Q') 0))

/-- The port of `-P`. -/
def portArg (args : Char → Option CString) : Option UInt16 :=
  (args 'P').map fun optarg => .ofNat (strtoul optarg)

/-- Options of which no order is accepted. -/
def PingNever (opts : List PingOption) : Prop :=
  let args := arguments PingOption.entry opts
  (∃ o ∈ opts, ¬ o.Valid) ∨ Excluded pingGroups args ∨
    Given args 'A' ∧ Given args 'd' ∧ ¬ Given args 'm' ∨
    Given args 'M' ∧ (∃ port, portArg args = some port ∧ port ≠ NFS_PORT) ∨
    IntervalTooSmall args

/-- Options with an order that is not accepted, although another one may be, or that leads to another
    port. -/
def PingOrdered (opts : List PingOption) : Prop :=
  let args := arguments PingOption.entry opts
  Given args 'A' ∧ Given args 'd' ∧ Given args 'm' ∨ Given args 'M' ∧ Given args 'P' ∨
    Given args 'N' ∧ ∃ port, portArg args = some port ∧ port ≠ PMAPPORT ∧ port ≠ NFS_PORT

/-! ## One option -/

section
variable {o : PingOption} {opts : List PingOption} {a : Char → Option CString} {port : UInt16}

/-- `-c` sets the format if nothing else does. -/
theorem pingFormatOf_c {x : CString} :
    pingFormatOf (Function.update a 'c' (some x)) = (pingFormatOf a).or (some .ping) := by
  rw [pingFormatOf, pingFormatOf, firstGiven_update_of_ne (by decide), Option.or_assoc,
    if_pos (given_update.2 (.inl rfl))]
  split_ifs <;> rfl

@[simp]
theorem pingFormatOf_other {ch : Char} {x : CString} (h : ch ∉ ['C', 'D', 'E', 'G', 'c']) :
    pingFormatOf (Function.update a ch (some x)) = pingFormatOf a := by
  have hletters := (by decide : ∀ row ∈ pingFormats, row.1 ∈ ['C', 'D', 'E', 'G', 'c'])
  have hother : ∀ row ∈ pingFormats, row.1 ≠ ch := by
    rintro row hrow rfl
    exact h (hletters row hrow)
  have hc : 'c' ≠ ch := by
    rintro rfl
    exact h (by decide)
  rw [pingFormatOf, pingFormatOf, firstGiven_update_of_ne hother]
  simp only [given_update, hc, false_or]

@[simp]
theorem pingProgram_other {ch : Char} {x : CString} (h : ch ∉ ['a', 'K', 'L', 'n', 'N', 's', 'u']) :
    firstGiven pingPrograms (Function.update a ch (some x)) = firstGiven pingPrograms a := by
  have hletters := (by decide : ∀ row ∈ pingPrograms, row.1 ∈ ['a', 'K', 'L', 'n', 'N', 's', 'u'])
  refine firstGiven_update_of_ne ?_
  rintro row hrow rfl
  exact h (hletters row hrow)

/-- None of the options sets the format. -/
theorem pingFormatOf_eq_none :
    pingFormatOf a = none ↔ (∀ row ∈ pingFormats, ¬ Given a row.1) ∧ ¬ Given a 'c' := by
  rw [pingFormatOf, Option.or_eq_none_iff, firstGiven_eq_none]
  refine and_congr_right fun _ => ?_
  split_ifs with hc
  · exact iff_of_false nofun (not_not.2 hc)
  · exact iff_of_true rfl hc

theorem pingFormatOf_ne_fping (h : ¬ Given a 'C') : pingFormatOf a ≠ some .fping := by
  intro hf
  rw [pingFormatOf, Option.or_eq_some_iff] at hf
  rcases hf with hf | ⟨-, hf⟩
  · obtain ⟨ch, hmem, hch⟩ := mem_of_firstGiven hf
    obtain rfl : ch = 'C' := by simpa [pingFormats] using hmem
    exact h hch
  · split_ifs at hf
    cases hf

theorem pingProgram_ne_portmap (h : ¬ Given a 'N') :
    (firstGiven pingPrograms a).getD NFS_PROGRAM ≠ PMAPPROG := by
  cases hp : firstGiven pingPrograms a with
  | none => decide
  | some prognum =>
    obtain ⟨ch, hmem, hch⟩ := mem_of_firstGiven hp
    have hN := (by decide : ∀ row ∈ pingPrograms, row.2 = PMAPPROG → row.1 = 'N') _ hmem
    rintro rfl
    exact h (hN rfl ▸ hch)

/-- An option for a program. -/
theorem protocolOption_ok {ch : Char} {prognum : ℕ} {x : CString} (hprog : (ch, prognum) ∈ pingPrograms)
    (hnone : ∀ row ∈ pingPrograms, ¬ Given a row.1) :
    protocolOption prognum (.of a port) = .ok (.of (Function.update a ch (some x)) port) := by
  have hdefault : (PingSettings.of a port).prognum = NFS_PROGRAM := by
    simp only [PingSettings.of, firstGiven_eq_none.2 hnone, Option.getD_none]
  have hgiven := firstGiven_update (x := x) (by decide) hprog hnone
  rw [protocolOption, if_pos hdefault]
  simp only [pingPrograms, List.mem_cons, Prod.mk.injEq, List.not_mem_nil, or_false] at hprog
  rcases hprog with
    ⟨rfl, rfl⟩ | ⟨rfl, rfl⟩ | ⟨rfl, rfl⟩ | ⟨rfl, rfl⟩ | ⟨rfl, rfl⟩ | ⟨rfl, rfl⟩ | ⟨rfl, rfl⟩
  all_goals simp [PingSettings.of, hgiven]

/-- `-D`, `-E` and `-G`. -/
theorem formatOption_ok {ch : Char} {f : PingFormat} {x : CString} (hch : ch ∈ ['D', 'E', 'G'])
    (hf : (ch, f) ∈ pingFormats) (hnone : ∀ row ∈ pingFormats, ¬ Given a row.1) :
    formatOption f (.of a port) = .ok (.of (Function.update a ch (some x)) port) := by
  have hdefault : (PingSettings.of a port).format = if Given a 'c' then some .ping else none := by
    simp only [PingSettings.of, pingFormatOf, firstGiven_eq_none.2 hnone, Option.none_or]
  have hgiven : pingFormatOf (Function.update a ch (some x)) = some f := by
    rw [pingFormatOf, firstGiven_update (by decide) hf hnone]
    rfl
  have hset : formatOption f (.of a port) = .ok { PingSettings.of a port with format := some f } := by
    rw [formatOption, hdefault]
    split_ifs <;> rfl
  rw [hset]
  simp only [List.mem_cons, List.not_mem_nil, or_false] at hch
  rcases hch with rfl | rfl | rfl
  all_goals simp [PingSettings.of, hgiven]

theorem pingCount_eq {s : PingSettings} {optarg : CString}
    (h : strtoul optarg ≠ 0 ∧ strtoul optarg ≠ ULONG_MAX) :
    pingCount optarg s = .ok { s with count := strtoul optarg } := by
  rw [pingCount, countArg_eq h]
  rfl

/-- **One option** that is allowed. -/
theorem pingOption_ok (hfresh : ¬ Given a o.entry.1) (h : o.Allowed a port) :
    pingOption o (.of a port) =
      .ok (.of (Function.update a o.entry.1 (some o.entry.2)) (o.portAfter port)) := by
  obtain ⟨hvalid, hapart, hfree⟩ := h
  have hprogram : o.entry.1 ∈ ['a', 'K', 'L', 'n', 'N', 's', 'u'] →
      ∀ row ∈ pingPrograms, ¬ Given a row.1 := by
    intro hgroup row hrow
    exact hapart.group hfresh (List.mem_cons_self ..) hgroup row.1
      ((by decide : ∀ row ∈ pingPrograms, row.1 ∈ ['a', 'K', 'L', 'n', 'N', 's', 'u']) row hrow)
  have hformat : o.entry.1 ∈ ['C', 'D', 'E', 'G'] → ∀ row ∈ pingFormats, ¬ Given a row.1 := by
    intro hgroup row hrow
    exact hapart.group hfresh (List.mem_cons_of_mem _ (List.mem_cons_self ..)) hgroup row.1
      ((by decide : ∀ row ∈ pingFormats, row.1 ∈ ['C', 'D', 'E', 'G']) row hrow)
  cases o with
  | a | K | L | n | s | u => exact protocolOption_ok (by decide) (hprogram (by decide))
  | N =>
    rw [pingOption, if_neg (show (PingSettings.of a port).port ≠ 0 from hfree)]
    exact protocolOption_ok (by decide) (hprogram (by decide))
  | D | E | G => exact formatOption_ok (by decide) (by decide) (hformat (by decide))
  | A =>
    by_cases hm : Given a 'm'
    · by_cases hd : Given a 'd'
      · simp [pingOption, PingOption.entry, PingOption.portAfter, PingSettings.of, hm, hd]
      · simp [pingOption, PingOption.entry, PingOption.portAfter, PingSettings.of, hm, hd]
    · have hd : ¬ Given a 'd' := hfree.resolve_right hm
      simp [pingOption, PingOption.entry, PingOption.portAfter, PingSettings.of, hd]
  | d =>
    have hd : ¬ Given a 'd' := hfresh
    by_cases hm : Given a 'm'
    · simp [pingOption, PingOption.entry, PingOption.portAfter, PingSettings.of, hm, hd]
    · have hA : ¬ Given a 'A' := hfree.resolve_right hm
      simp [pingOption, PingOption.entry, PingOption.portAfter, PingSettings.of, hm, hA]
  | m =>
    by_cases hd : Given a 'd'
    · simp [pingOption, PingOption.entry, PingOption.portAfter, PingSettings.of, hd]
    · simp [pingOption, PingOption.entry, PingOption.portAfter, PingSettings.of, hd]
  | c optarg =>
    have hapart : Apart pingGroups a 'c' := hapart
    have hC : ¬ Given a 'C' := hapart.not_given (by decide)
    have hl : ¬ Given a 'l' := hapart.not_given (by decide)
    have hfping := pingFormatOf_ne_fping hC
    cases hf : pingFormatOf a with
    | none =>
      simp [pingOption, PingOption.entry, PingOption.portAfter, PingSettings.of, pingFormatOf_c,
        pingCount_eq hvalid, hf, hl]
    | some f =>
      rw [hf] at hfping
      cases f <;> simp_all [pingOption, PingOption.entry, PingOption.portAfter, PingSettings.of,
        pingFormatOf_c, pingCount_eq hvalid]
  | C optarg =>
    have hnone := hformat (by simp [PingOption.entry])
    have hapart : Apart pingGroups a 'C' := hapart
    have hc : ¬ Given a 'c' := hapart.not_given (by decide)
    have hl : ¬ Given a 'l' := hapart.not_given (by decide)
    have hbefore := pingFormatOf_eq_none.2 ⟨hnone, hc⟩
    have hafter : pingFormatOf (Function.update a 'C' (some optarg)) = some .fping := by
      rw [pingFormatOf, firstGiven_update (by decide) (by decide : ('C', .fping) ∈ pingFormats) hnone]
      rfl
    simp [pingOption, PingOption.entry, PingOption.portAfter, PingSettings.of, hbefore, hafter,
      pingCount_eq hvalid, not_not.1 hc, hl]
  | l =>
    have hc : ¬ Given a 'c' := hapart.not_given (by decide)
    have hC : ¬ Given a 'C' := hapart.not_given (by decide)
    simp [pingOption, PingOption.entry, PingOption.portAfter, PingSettings.of, not_not.1 hc,
      not_not.1 hC, numberOf]
  | M =>
    have hN : ¬ Given a 'N' := hapart.not_given (by decide)
    have hport : port = NFS_PORT := hfree
    have hprog : (PingSettings.of a port).prognum ≠ PMAPPROG := pingProgram_ne_portmap hN
    rw [pingOption, if_neg hprog, if_pos (show (PingSettings.of a port).port = NFS_PORT from hport)]
    simp [PingOption.entry, PingOption.portAfter, PingSettings.of]
  | P optarg =>
    have hport : port ≠ 0 := hfree
    simp [pingOption, PingOption.entry, PingOption.portAfter, PingSettings.of, hport]
  | H optarg | t optarg =>
    have hnonzero : strtoul optarg ≠ 0 := hvalid
    simp [pingOption, PingOption.entry, PingOption.portAfter, PingSettings.of, hnonzero]
  | Q optarg =>
    have hnonzero : wrap32 (strtoul optarg) ≠ 0 := hvalid
    simp [pingOption, PingOption.entry, PingOption.portAfter, PingSettings.of, hnonzero]
  | V optarg =>
    have hversion : strtoul optarg ≠ 0 ∧ strtoul optarg ≠ ULONG_MAX := hvalid
    simp [pingOption, PingOption.entry, PingOption.portAfter, PingSettings.of, hversion]
  | S optarg =>
    obtain ⟨srcIp, hsrc⟩ := Option.ne_none_iff_exists'.1 (show inetPton optarg ≠ none from hvalid)
    simp [pingOption, PingOption.entry, PingOption.portAfter, PingSettings.of, hsrc]
  | h => exact absurd hvalid id
  | unknown => exact absurd hvalid id
  | g | i | q | R | T | v =>
    simp [pingOption, PingOption.entry, PingOption.portAfter, PingSettings.of]

/-- The format of one of the options. -/
theorem pingFormatOf_of_given {ch : Char} {f : PingFormat} (hgroups : ¬ Excluded pingGroups a)
    (hf : (ch, f) ∈ pingFormats) (hch : Given a ch) : pingFormatOf a = some f := by
  have hgroup : ['C', 'D', 'E', 'G'] ∈ pingGroups := by decide
  rw [pingFormatOf, hch.firstGiven hgroups hgroup (by decide) (by decide) hf]
  rfl

/-- The program of one of the options. -/
theorem pingProgram_of_given {ch : Char} {prognum : ℕ} (hgroups : ¬ Excluded pingGroups a)
    (hprog : (ch, prognum) ∈ pingPrograms) (hch : Given a ch) :
    firstGiven pingPrograms a = some prognum :=
  hch.firstGiven hgroups (List.mem_cons_self ..) (by decide) (by decide) hprog

theorem protocolOption_free {prognum : ℕ} {s' : PingSettings}
    (h : protocolOption prognum (.of a port) = .ok s') : ∀ row ∈ pingPrograms, ¬ Given a row.1 := by
  unfold protocolOption at h
  split_ifs at h with hdefault
  rw [← firstGiven_eq_none]
  cases hp : firstGiven pingPrograms a with
  | none => rfl
  | some p =>
    obtain ⟨ch, hmem, -⟩ := mem_of_firstGiven hp
    have hne := (by decide : ∀ row ∈ pingPrograms, row.2 ≠ NFS_PROGRAM) _ hmem
    simp only [PingSettings.of, hp, Option.getD_some] at hdefault
    exact absurd hdefault hne

theorem formatOption_apart {ch : Char} {f : PingFormat} {s' : PingSettings}
    (hgroups : ¬ Excluded pingGroups a) (hch : ch ∈ ['D', 'E', 'G'])
    (hf : ∀ row ∈ pingFormats, row.1 ≠ ch → row.2 ≠ f)
    (h : formatOption f (.of a port) = .ok s') : Apart pingGroups a ch := by
  have hfree : ∀ row ∈ pingFormats, row.1 ≠ ch → ¬ Given a row.1 := by
    intro row hrow hne hgiven
    have hformat : (PingSettings.of a port).format = some row.2 :=
      pingFormatOf_of_given hgroups hrow hgiven
    have hping := (by decide : ∀ row ∈ pingFormats, row.2 ≠ .ping) row hrow
    rw [formatOption, hformat] at h
    split at h
    · rename_i heq
      cases heq
    · rename_i heq
      exact hping (Option.some.inj heq)
    · rename_i heq
      obtain rfl := Option.some.inj heq
      rw [if_neg (hf row hrow hne)] at h
      cases h
  simp [pingFormats] at hfree
  simp only [List.mem_cons, List.not_mem_nil, or_false] at hch
  rcases hch with rfl | rfl | rfl
  all_goals simpa [Apart, pingGroups] using hfree

theorem pingCount_valid {s s' : PingSettings} {optarg : CString} (h : pingCount optarg s = .ok s') :
    strtoul optarg ≠ 0 ∧ strtoul optarg ≠ ULONG_MAX := by
  by_contra hbad
  rw [pingCount, countArg_error hbad] at h
  cases h

/-- **One option** that is accepted is allowed. -/
theorem pingOption_allowed {s' : PingSettings} (hfresh : ¬ Given a o.entry.1)
    (hgroups : ¬ Excluded pingGroups a)
    (hcount : numberOf ((a 'c').or (a 'C')) 0 ≠ 0 ↔ Given a 'c' ∨ Given a 'C')
    (hport : Given a 'M' → port = 0)
    (h : pingOption o (.of a port) = .ok s') : o.Allowed a port := by
  cases o with
  | a | K | L | n | s | u =>
    have hfree := protocolOption_free h
    simp [pingPrograms] at hfree
    exact ⟨trivial, by simp [Apart, pingGroups, PingOption.entry, hfree], trivial⟩
  | N =>
    simp only [pingOption] at h
    split_ifs at h with hzero
    have hfree := @protocolOption_free a PMAPPORT _ _ h
    simp [pingPrograms] at hfree
    have hM : ¬ Given a 'M' := fun hM => hzero (hport hM)
    exact ⟨trivial, by simp [Apart, pingGroups, PingOption.entry, hfree, hM], hzero⟩
  | D | E | G => exact ⟨trivial, formatOption_apart hgroups (by decide) (by decide) h, trivial⟩
  | A =>
    have hfree : ¬ Given a 'd' ∨ Given a 'm' := by
      simp only [pingOption] at h
      split_ifs at h with hd hm
      · exact .inr (by simpa [PingSettings.of] using hm)
      · exact .inl (by simpa [PingSettings.of] using hd)
    exact ⟨trivial, by simp [Apart, pingGroups, PingOption.entry], hfree⟩
  | d =>
    have hd : ¬ Given a 'd' := hfresh
    have hfree : ¬ Given a 'A' ∨ Given a 'm' := by
      simp only [pingOption] at h
      split_ifs at h with hip hm
      · exact .inr (by simpa [PingSettings.of] using hm)
      · exact .inl fun hA => hip (by simp [PingSettings.of, hA, hd])
    exact ⟨trivial, by simp [Apart, pingGroups, PingOption.entry], hfree⟩
  | c optarg =>
    simp only [pingOption] at h
    split_ifs at h with hloop
    have hl : ¬ Given a 'l' := by simpa [PingSettings.of] using hloop
    have hC : ¬ Given a 'C' := by
      intro hC
      rw [show (PingSettings.of a port).format = some .fping from
        pingFormatOf_of_given hgroups (by decide) hC] at h
      cases h
    refine ⟨?_, by simp [Apart, pingGroups, PingOption.entry, hC, hl], trivial⟩
    split at h
    · exact pingCount_valid h
    · cases h
    · exact pingCount_valid h
  | C optarg =>
    have hC : ¬ Given a 'C' := hfresh
    simp only [pingOption] at h
    split_ifs at h with hloop
    have hl : ¬ Given a 'l' := by simpa [PingSettings.of] using hloop
    have hfping := pingFormatOf_ne_fping hC
    split at h
    · rename_i hf
      obtain ⟨hnone, hc⟩ := pingFormatOf_eq_none.1 hf
      simp [pingFormats] at hnone
      exact ⟨pingCount_valid h, by simp [Apart, pingGroups, PingOption.entry, hnone, hc, hl], trivial⟩
    · rename_i hf
      exact absurd hf hfping
    · cases h
  | l =>
    have hzero : numberOf ((a 'c').or (a 'C')) 0 = 0 := by
      by_contra hne
      rw [pingOption, if_pos (show (PingSettings.of a port).count ≠ 0 from hne)] at h
      split at h
      all_goals cases h
    have hnot : ¬ (Given a 'c' ∨ Given a 'C') := fun hgiven => hcount.2 hgiven hzero
    rw [not_or] at hnot
    exact ⟨trivial, by simp [Apart, pingGroups, PingOption.entry, hnot], trivial⟩
  | M =>
    simp only [pingOption] at h
    split_ifs at h with hprog hport
    have hN : ¬ Given a 'N' := by
      intro hN
      have hgiven : firstGiven pingPrograms a = some PMAPPROG :=
        pingProgram_of_given hgroups (by decide) hN
      exact hprog (by simp only [PingSettings.of, hgiven, Option.getD_some])
    exact ⟨trivial, by simp [Apart, pingGroups, PingOption.entry, hN], hport⟩
  | P optarg =>
    simp only [pingOption] at h
    split_ifs at h with hzero
    exact ⟨trivial, by simp [Apart, pingGroups, PingOption.entry], hzero⟩
  | H optarg | t optarg | Q optarg =>
    simp only [pingOption] at h
    split_ifs at h with hbad
    exact ⟨hbad, by simp [Apart, pingGroups, PingOption.entry], trivial⟩
  | V optarg =>
    simp only [pingOption] at h
    split_ifs at h with hbad
    exact ⟨not_or.1 hbad, by simp [Apart, pingGroups, PingOption.entry], trivial⟩
  | S optarg =>
    refine ⟨?_, by simp [Apart, pingGroups, PingOption.entry], trivial⟩
    intro hsrc
    simp only [pingOption, hsrc] at h
    cases h
  | h => cases h
  | unknown => cases h
  | g | i | m | q | R | T | v =>
    exact ⟨trivial, by simp [Apart, pingGroups, PingOption.entry], trivial⟩

/-! ## The port -/

theorem portOf_concat : portOf (opts ++ [o]) = o.portAfter (portOf opts) := by
  rw [portOf, List.foldl_append]
  rfl

theorem portAfter_other (h : o.entry.1 ∉ ['M', 'N', 'P']) : o.portAfter port = port := by
  cases o with
  | M | N => exact absurd h (by decide)
  | P optarg => exact absurd h (by simp [PingOption.entry])
  | _ => rfl

/-- The options that come after one that sets the port. -/
theorem portOf_after {before after : List PingOption}
    (h : ∀ o ∈ after, o.entry.1 ∉ ['M', 'N', 'P']) :
    portOf (before ++ o :: after) = o.portAfter (portOf before) := by
  have hrest : ∀ port, after.foldl PingOption.portAfter port = port := by
    induction after with
    | nil => exact fun _ => rfl
    | cons o' after ih =>
      intro port
      rw [List.forall_mem_cons] at h
      rw [List.foldl_cons, portAfter_other h.1]
      exact ih h.2 port
  rw [portOf, List.foldl_append, List.foldl_cons, hrest]
  rfl

/-- The last of `-N` and `-P`. -/
theorem portOf_last {before after : List PingOption}
    (hd : Distinct PingOption.entry (before ++ o :: after))
    (hM : ¬ Given (arguments PingOption.entry (before ++ o :: after)) 'M')
    (h : o.entry.1 = 'P' ∧ Given (arguments PingOption.entry before) 'N' ∨
      o.entry.1 = 'N' ∧ Given (arguments PingOption.entry before) 'P') :
    portOf (before ++ o :: after) = o.portAfter (portOf before) := by
  refine portOf_after fun o' ho' hch => ?_
  have hgiven : Given (arguments PingOption.entry after) o'.entry.1 := given_iff.2 ⟨o', ho', rfl⟩
  have hgiven' : Given (arguments PingOption.entry (o :: after)) o'.entry.1 :=
    given_iff.2 ⟨o', List.mem_cons_of_mem o ho', rfl⟩
  rw [given_append, not_or] at hM
  simp only [List.mem_cons, List.not_mem_nil, or_false] at hch
  rcases hch with hch | hch | hch
  · rw [hch] at hgiven'
    exact hM.2 hgiven'
  · rw [hch] at hgiven hgiven'
    rcases h with ⟨-, hN⟩ | ⟨hN, -⟩
    · exact hd.disjoint hN hgiven'
    · exact hd.fresh.2.2 (hN.symm ▸ hgiven)
  · rw [hch] at hgiven hgiven'
    rcases h with ⟨hP, -⟩ | ⟨-, hP⟩
    · exact hd.fresh.2.2 (hP.symm ▸ hgiven)
    · exact hd.disjoint hP hgiven'

/-- **The port without `-M`**: that of `-N` or `-P`, whichever is last. -/
theorem portOf_cases (hd : Distinct PingOption.entry opts)
    (hM : ¬ Given (arguments PingOption.entry opts) 'M') :
    (¬ Given (arguments PingOption.entry opts) 'N' ∧ ¬ Given (arguments PingOption.entry opts) 'P' ∧
      portOf opts = NFS_PORT) ∨
    (Given (arguments PingOption.entry opts) 'N' ∧ portOf opts = PMAPPORT) ∨
    portArg (arguments PingOption.entry opts) = some (portOf opts) := by
  induction opts using List.reverseRecOn with
  | nil => exact .inl ⟨fun h => h rfl, fun h => h rfl, rfl⟩
  | append_singleton opts o ih =>
    obtain ⟨hbefore, hfresh, -⟩ := hd.fresh
    rw [arguments_concat hfresh] at hM ⊢
    rw [portOf_concat]
    by_cases hch : o.entry.1 ∈ ['M', 'N', 'P']
    · cases o with
      | M => exact absurd (given_update.2 (.inl rfl)) hM
      | N => exact .inr (.inl ⟨given_update.2 (.inl rfl), rfl⟩)
      | P optarg =>
        refine .inr (.inr ?_)
        simp [portArg, PingOption.entry, PingOption.portAfter]
      | _ => simp [PingOption.entry] at hch
    · have hne : o.entry.1 ≠ 'M' ∧ o.entry.1 ≠ 'N' ∧ o.entry.1 ≠ 'P' := by simpa using hch
      rw [given_update, not_or] at hM
      have hport :
          portArg (Function.update (arguments PingOption.entry opts) o.entry.1 (some o.entry.2)) =
            portArg (arguments PingOption.entry opts) := by
        rw [portArg, Function.update_of_ne hne.2.2.symm, portArg]
      rw [portAfter_other hch, hport, given_update, given_update, or_iff_right hne.2.1.symm,
        or_iff_right hne.2.2.symm]
      exact ih hbefore hM.2

theorem portArg_of_before {before after : List PingOption} (h : opts = before ++ o :: after)
    (hport : portArg (arguments PingOption.entry before) = some port) :
    portArg (arguments PingOption.entry opts) = some port := by
  obtain ⟨x, hx, rfl⟩ := Option.map_eq_some_iff.1 hport
  rw [portArg, arguments_of_before h hx]
  rfl

/-! ## Orders -/

/-- An option is accepted after these. -/
def pingAllows (before : List PingOption) (o : PingOption) : Prop :=
  o.Allowed (arguments PingOption.entry before) (portOf before)

theorem pingAllows_groups (h : Guarded pingAllows opts) :
    ¬ Excluded pingGroups (arguments PingOption.entry opts) :=
  not_excluded_of_guarded h fun _ _ ho => ho.apart

theorem pingAllows_valid (h : Guarded pingAllows opts) : ∀ o ∈ opts, o.Valid := by
  intro o ho
  obtain ⟨before, after, -, hallowed⟩ := h.of_mem ho
  exact hallowed.valid

/-- After `-M` the port is that of the portmapper. -/
theorem pingAllows_port (hd : Distinct PingOption.entry opts) (h : Guarded pingAllows opts)
    (hM : Given (arguments PingOption.entry opts) 'M') : portOf opts = 0 := by
  induction opts using List.reverseRecOn with
  | nil => exact absurd rfl hM
  | append_singleton opts o ih =>
    obtain ⟨hopts, ho⟩ := guarded_concat.1 h
    obtain ⟨hbefore, hfresh, -⟩ := hd.fresh
    rw [portOf_concat]
    rw [arguments_concat hfresh, given_update] at hM
    by_cases hch : o.entry.1 ∈ ['M', 'N', 'P']
    · cases o with
      | M => rfl
      | N => exact absurd (ih hbefore hopts (hM.resolve_left (by decide))) ho.free
      | P optarg =>
        exact absurd (ih hbefore hopts (hM.resolve_left (by simp [PingOption.entry]))) ho.free
      | _ => simp [PingOption.entry] at hch
    · rw [portAfter_other hch]
      have hne : 'M' ≠ o.entry.1 := by
        intro heq
        exact hch (by simp [← heq])
      exact ih hbefore hopts (hM.resolve_left hne)

theorem pingOption_count (hd : Distinct PingOption.entry opts) (hvalid : ∀ o ∈ opts, o.Valid) :
    let args := arguments PingOption.entry opts
    numberOf ((args 'c').or (args 'C')) 0 ≠ 0 ↔ Given args 'c' ∨ Given args 'C' := by
  refine count_ne_zero_iff hd fun o ho hch => ?_
  have hgood := hvalid o ho
  cases o with
  | c optarg | C optarg => exact hgood.1
  | _ => simp [PingOption.entry] at hch

/-- **Reading the options.** -/
theorem pingOptions_guarded (hd : Distinct PingOption.entry opts) :
    (Guarded pingAllows opts →
      readOptions pingOption opts {} = .ok (.of (arguments PingOption.entry opts) (portOf opts))) ∧
    (¬ Guarded pingAllows opts → ∃ e, readOptions pingOption opts {} = .error e) := by
  refine @readOptions_guarded _ _ PingOption.entry pingOption opts pingAllows
    (fun opts => .of (arguments PingOption.entry opts) (portOf opts)) ?_ ?_ hd
  · intro done o hd h ho
    obtain ⟨hdone, hfresh, -⟩ := hd.fresh
    show _ = Except.ok (PingSettings.of (arguments PingOption.entry (done ++ [o]))
      (portOf (done ++ [o])))
    rw [arguments_concat hfresh, portOf_concat]
    exact pingOption_ok hfresh ho
  · intro done o hd h ho
    obtain ⟨hdone, hfresh, -⟩ := hd.fresh
    cases hread : pingOption o (.of (arguments PingOption.entry done) (portOf done)) with
    | error e => exact ⟨e, rfl⟩
    | ok s =>
      exact absurd (pingOption_allowed hfresh (pingAllows_groups h)
        (pingOption_count hdone (pingAllows_valid h)) (pingAllows_port hdone h) hread) ho

/-- What comes of options whose port is this one. -/
def PingSettings.read (args : Char → Option CString) (port : UInt16) : PingSettings :=
  { (PingSettings.of args port).defaults with port := (PingSettings.of args port).defaultPort }

theorem pingSettings_guarded (hd : Distinct PingOption.entry opts) (h : Guarded pingAllows opts)
    (hinterval : ¬ IntervalTooSmall (arguments PingOption.entry opts)) :
    (pingSettings opts).toOption =
      some (.read (arguments PingOption.entry opts) (portOf opts)) := by
  have hsettings : pingOptions opts =
      .ok (PingSettings.of (arguments PingOption.entry opts) (portOf opts)).defaults := by
    rw [pingOptions, (pingOptions_guarded hd).1 h]
    exact if_neg hinterval
  rw [pingSettings, hsettings]
  rfl

theorem pingSettings_rejected (hd : Distinct PingOption.entry opts)
    (h : ¬ Guarded pingAllows opts ∨ IntervalTooSmall (arguments PingOption.entry opts)) :
    (pingSettings opts).toOption = none := by
  by_cases hg : Guarded pingAllows opts
  · have hsettings : pingOptions opts = .error (.fatal "Interval (-Q) too small for count!\n") := by
      rw [pingOptions, (pingOptions_guarded hd).1 hg]
      exact if_pos (h.resolve_left (not_not.2 hg))
    rw [pingSettings, hsettings]
    rfl
  · obtain ⟨e, he⟩ := (pingOptions_guarded hd).2 hg
    rw [pingSettings, pingOptions, he]
    rfl

/-- No order is accepted. -/
theorem PingNever.rejected (hd : Distinct PingOption.entry opts) (h : PingNever opts) :
    ¬ Guarded pingAllows opts ∨ IntervalTooSmall (arguments PingOption.entry opts) := by
  by_cases hg : Guarded pingAllows opts
  swap
  · exact .inl hg
  have hfree : ∀ {before o after ch}, opts = before ++ o :: after → o.entry.1 = ch →
      pingFree (arguments PingOption.entry before) (portOf before) ch := by
    rintro before o after ch hopts rfl
    exact (hg before o after hopts).free
  rcases h with ⟨o, ho, hbad⟩ | hexcl | ⟨hA, hd', hm⟩ | ⟨hM, port, hP, hne⟩ | hinterval
  · exact absurd (pingAllows_valid hg o ho) hbad
  · exact absurd hexcl (pingAllows_groups hg)
  · rcases given_before_or (by decide) hA hd' with
      ⟨before, o, after, hopts, ho, hbefore⟩ | ⟨before, o, after, hopts, ho, hbefore⟩
    · rcases (hfree hopts ho : ¬ Given _ 'd' ∨ Given _ 'm') with hnot | hm'
      · exact absurd hbefore hnot
      · exact absurd (hm'.of_before hopts) hm
    · rcases (hfree hopts ho : ¬ Given _ 'A' ∨ Given _ 'm') with hnot | hm'
      · exact absurd hbefore hnot
      · exact absurd (hm'.of_before hopts) hm
  · have hgiven : Given (arguments PingOption.entry opts) 'P' := by
      intro hnone
      rw [portArg, hnone] at hP
      cases hP
    rcases given_before_or (by decide) hM hgiven with
      ⟨before, o, after, hopts, ho, hbefore⟩ | ⟨before, o, after, hopts, ho, hbefore⟩
    · obtain ⟨hdbefore, hfresh, -⟩ := (hopts ▸ hd : Distinct _ (before ++ o :: after)).fresh
      have hN : ¬ Given (arguments PingOption.entry before) 'N' := by
        have := (hg before o after hopts).apart
        rw [ho] at this
        exact this.not_given (by decide)
      rw [ho] at hfresh
      rcases portOf_cases hdbefore hfresh with ⟨-, hnot, -⟩ | ⟨hN', -⟩ | hport
      · exact absurd hbefore hnot
      · exact absurd hN' hN
      · rw [portArg_of_before hopts hport] at hP
        exact absurd ((Option.some.inj hP).symm.trans (hfree hopts ho)) hne
    · have hdbefore := (hopts ▸ hd : Distinct _ (before ++ o :: after)).fresh.1
      have hgbefore : Guarded pingAllows before := (hopts ▸ hg : Guarded _ (before ++ o :: after)).left
      exact absurd (pingAllows_port hdbefore hgbefore hbefore) (hfree hopts ho)
  · exact .inr hinterval

theorem given_of_portArg {args : Char → Option CString} (h : portArg args = some port) :
    Given args 'P' := by
  intro hnone
  rw [portArg, hnone] at h
  cases h

/-- An option that is not rejected in every order, with those it may depend on where they should be. -/
theorem pingAllows_of_placed {before after : List PingOption} (hd : Distinct PingOption.entry opts)
    (hnever : ¬ PingNever opts) (hopts : opts = before ++ o :: after)
    (hm : o.entry.1 = 'A' ∨ o.entry.1 = 'd' → Given (arguments PingOption.entry opts) 'm' →
      Given (arguments PingOption.entry before) 'm' ∨
        ¬ (Given (arguments PingOption.entry opts) 'A' ∧ Given (arguments PingOption.entry opts) 'd'))
    (hM : o.entry.1 = 'N' ∨ o.entry.1 = 'P' → ¬ Given (arguments PingOption.entry before) 'M')
    (hP : o.entry.1 = 'N' → ∀ port, portArg (arguments PingOption.entry before) = some port → port ≠ 0) :
    pingAllows before o := by
  have ho : Given (arguments PingOption.entry opts) o.entry.1 := given_middle hopts
  have happart : Apart pingGroups (arguments PingOption.entry before) o.entry.1 :=
    apart_of_not_excluded hopts fun h => hnever (.inr (.inl h))
  obtain ⟨hdbefore, hfresh, -⟩ := (hopts ▸ hd : Distinct _ (before ++ o :: after)).fresh
  have hAd : o.entry.1 = 'A' ∨ o.entry.1 = 'd' →
      ¬ (Given (arguments PingOption.entry opts) 'A' ∧ Given (arguments PingOption.entry opts) 'd') ∨
        Given (arguments PingOption.entry before) 'm' := by
    intro hch
    by_cases hgiven : Given (arguments PingOption.entry opts) 'm'
    · exact (hm hch hgiven).symm
    · exact .inl fun h => hnever (.inr (.inr (.inl ⟨h.1, h.2, hgiven⟩)))
  refine ⟨?_, happart, ?_⟩
  · by_contra hbad
    exact hnever (.inl ⟨o, by simp [hopts], hbad⟩)
  cases o with
  | A => exact (hAd (.inl rfl)).imp_left fun h hd => h ⟨ho, hd.of_before hopts⟩
  | d => exact (hAd (.inr rfl)).imp_left fun h hA => h ⟨hA.of_before hopts, ho⟩
  | M =>
    have hN : ¬ Given (arguments PingOption.entry before) 'N' := happart.not_given (by decide)
    rcases portOf_cases hdbefore hfresh with ⟨-, -, hport⟩ | ⟨hN', -⟩ | hport
    · exact hport
    · exact absurd hN' hN
    · by_contra hne
      exact hnever (.inr (.inr (.inr (.inl ⟨ho, _, portArg_of_before hopts hport, hne⟩))))
  | N =>
    rcases portOf_cases hdbefore (hM (.inl rfl)) with ⟨-, -, hport⟩ | ⟨hN, -⟩ | hport
    · show portOf before ≠ 0
      rw [hport]
      decide
    · exact absurd hN hfresh
    · exact hP rfl _ hport
  | P optarg =>
    rcases portOf_cases hdbefore (hM (.inr rfl)) with ⟨-, -, hport⟩ | ⟨-, hport⟩ | hport
    · show portOf before ≠ 0
      rw [hport]
      decide
    · show portOf before ≠ 0
      rw [hport]
      decide
    · exact absurd (given_of_portArg hport) hfresh
  | _ => trivial

/-- Every order is accepted. -/
theorem ping_guarded (hd : Distinct PingOption.entry opts) (hnever : ¬ PingNever opts)
    (hordered : ¬ PingOrdered opts) : Guarded pingAllows opts := by
  intro before o after hopts
  have ho : Given (arguments PingOption.entry opts) o.entry.1 := given_middle hopts
  refine pingAllows_of_placed hd hnever hopts ?_ ?_ ?_
  · intro _ hm
    exact .inr fun h => hordered (.inl ⟨h.1, h.2, hm⟩)
  · rintro (hch | hch) hM
    · rw [hch] at ho
      exact hnever (.inr (.inl ⟨['N', 'M'], by decide, 'N', by decide, 'M', by decide, by decide, ho,
        hM.of_before hopts⟩))
    · rw [hch] at ho
      exact hordered (.inr (.inl ⟨hM.of_before hopts, ho⟩))
  · rintro hch port hport rfl
    rw [hch] at ho
    exact hordered (.inr (.inr ⟨ho, 0, portArg_of_before hopts hport, by decide, by decide⟩))

/-- The place of an option in an order that is accepted. -/
def pingRank (o : PingOption) : ℕ :=
  if o.entry.1 = 'P' then 1 else if o.entry.1 = 'M' ∨ o.entry.1 = 'A' ∨ o.entry.1 = 'd' then 2 else 0

theorem PingNever.perm {opts' : List PingOption} (hd : Distinct PingOption.entry opts)
    (hperm : opts'.Perm opts) : PingNever opts' ↔ PingNever opts := by
  simp only [PingNever, arguments_perm hd hperm, hperm.mem_iff]

/-- An order that is accepted, if there is one, with `-N` before `-P`. -/
theorem exists_ping_guarded (hd : Distinct PingOption.entry opts) (hnever : ¬ PingNever opts) :
    ∃ opts', opts'.Perm opts ∧ Guarded pingAllows opts' ∧
      ∀ before o after, opts' = before ++ o :: after → o.entry.1 = 'P' →
        Given (arguments PingOption.entry opts) 'N' → Given (arguments PingOption.entry before) 'N' := by
  obtain ⟨opts', hperm, hrank⟩ := exists_ranked pingRank opts
  have hlower : ∀ {before o after ch}, opts' = before ++ o :: after →
      (∀ b : PingOption, b.entry.1 = ch → pingRank b < pingRank o) →
      Given (arguments PingOption.entry opts) ch → Given (arguments PingOption.entry before) ch := by
    rintro before o after ch hopts hlt hgiven
    obtain ⟨b, hb, rfl⟩ := given_iff.1 hgiven
    exact given_iff.2 ⟨b, (hrank before o after hopts).2 b hb (hlt b rfl), rfl⟩
  have hhigher : ∀ {before o after ch}, opts' = before ++ o :: after →
      (∀ b : PingOption, b.entry.1 = ch → pingRank o < pingRank b) →
      ¬ Given (arguments PingOption.entry before) ch := by
    rintro before o after ch hopts hlt hgiven
    obtain ⟨b, hb, rfl⟩ := given_iff.1 hgiven
    exact absurd ((hrank before o after hopts).1 b hb) (not_le.2 (hlt b rfl))
  refine ⟨opts', hperm, ?_, ?_⟩
  · intro before o after hopts
    refine pingAllows_of_placed (hd.perm hperm) (fun h => hnever ((PingNever.perm hd hperm).1 h)) hopts
      ?_ ?_ ?_
    · intro hch hm
      rw [arguments_perm hd hperm] at hm
      refine .inl (hlower hopts (fun b hb => ?_) hm)
      rcases hch with hch | hch
      · simp [pingRank, hb, hch]
      · simp [pingRank, hb, hch]
    · intro hch
      refine hhigher hopts fun b hb => ?_
      rcases hch with hch | hch
      · simp [pingRank, hb, hch]
      · simp [pingRank, hb, hch]
    · intro hch port hport
      have hP : ¬ Given (arguments PingOption.entry before) 'P' :=
        hhigher hopts fun b hb => by simp [pingRank, hb, hch]
      exact absurd (given_of_portArg hport) hP
  · intro before o after hopts hch hN
    exact hlower hopts (fun b hb => by simp [pingRank, hb, hch]) hN

/-- The port in every order, unless it depends on that. -/
def finalPort (args : Char → Option CString) : UInt16 :=
  if Given args 'M' then 0
  else if Given args 'N' then PMAPPORT
  else (PingSettings.of args ((portArg args).getD NFS_PORT)).defaultPort

theorem defaultPort_eq (hd : Distinct PingOption.entry opts) (h : Guarded pingAllows opts)
    (hordered : ¬ PingOrdered opts) :
    (PingSettings.of (arguments PingOption.entry opts) (portOf opts)).defaultPort =
      finalPort (arguments PingOption.entry opts) := by
  by_cases hM : Given (arguments PingOption.entry opts) 'M'
  · rw [finalPort, if_pos hM, pingAllows_port hd h hM]
    rfl
  rw [finalPort, if_neg hM]
  by_cases hN : Given (arguments PingOption.entry opts) 'N'
  · rw [if_pos hN]
    have hprog :
        (PingSettings.of (arguments PingOption.entry opts) (portOf opts)).prognum = PMAPPROG := by
      simp only [PingSettings.of, pingProgram_of_given (pingAllows_groups h)
        (by decide : ('N', PMAPPROG) ∈ pingPrograms) hN, Option.getD_some]
    have hport : portOf opts = PMAPPORT ∨ portOf opts = NFS_PORT := by
      rcases portOf_cases hd hM with ⟨hnot, -⟩ | ⟨-, hport⟩ | hport
      · exact absurd hN hnot
      · exact .inl hport
      · by_contra hne
        rw [not_or] at hne
        exact hordered (.inr (.inr ⟨hN, _, hport, hne.1, hne.2⟩))
    rcases hport with hport | hport
    · rw [hport]
      rfl
    · have hset :
          (PingSettings.of (arguments PingOption.entry opts) (portOf opts)).port = NFS_PORT := hport
      rw [PingSettings.defaultPort, if_neg (not_not.2 hset), hprog, if_neg (by decide), if_pos rfl]
  · rw [if_neg hN]
    rcases portOf_cases hd hM with ⟨-, hP, hport⟩ | ⟨hN', -⟩ | hport
    · rw [hport, portArg, not_not.1 hP]
      rfl
    · exact absurd hN' hN
    · rw [hport]
      rfl

/-- The settings are those of the options, in every order. -/
theorem pingSettings_ordered (hd : Distinct PingOption.entry opts) (hnever : ¬ PingNever opts)
    (hordered : ¬ PingOrdered opts) :
    (pingSettings opts).toOption =
      some { (PingSettings.of (arguments PingOption.entry opts) 0).defaults with
        port := finalPort (arguments PingOption.entry opts) } := by
  have h := ping_guarded hd hnever hordered
  rw [pingSettings_guarded hd h fun hinterval => hnever (.inr (.inr (.inr (.inr hinterval)))),
    PingSettings.read, defaultPort_eq hd h hordered]
  rfl

theorem defaultPort_of_ne (h : port ≠ NFS_PORT) : (PingSettings.of a port).defaultPort = port := if_pos h

/-- Two orders of `-N` and `-P`, which override each other. -/
theorem exists_ne_port (hd : Distinct PingOption.entry opts) (hnever : ¬ PingNever opts)
    (hN : Given (arguments PingOption.entry opts) 'N')
    (hport : portArg (arguments PingOption.entry opts) = some port) (hne : port ≠ PMAPPORT)
    (hne' : port ≠ NFS_PORT) :
    ∃ opts₁ opts₂, opts₁.Perm opts ∧ opts₂.Perm opts ∧
      (pingSettings opts₁).toOption ≠ (pingSettings opts₂).toOption := by
  have hM : ∀ {opts'}, opts'.Perm opts → ¬ Given (arguments PingOption.entry opts') 'M' := by
    intro opts' hperm hM
    rw [arguments_perm hd hperm] at hM
    exact hnever (.inr (.inl ⟨['N', 'M'], by decide, 'N', by decide, 'M', by decide, by decide, hN, hM⟩))
  have hinterval : ∀ {opts'}, opts'.Perm opts →
      ¬ IntervalTooSmall (arguments PingOption.entry opts') := by
    intro opts' hperm hinterval
    rw [arguments_perm hd hperm] at hinterval
    exact hnever (.inr (.inr (.inr (.inr hinterval))))
  -- with `-P` last the port is that of `-P`
  obtain ⟨opts₁, hperm₁, h₁, hNP⟩ := exists_ping_guarded hd hnever
  have hd₁ := hd.perm hperm₁
  have hport₁ : portOf opts₁ = port := by
    have hP := given_of_portArg hport
    rw [← arguments_perm hd hperm₁] at hP hport
    obtain ⟨o, ho, hch⟩ := given_iff.1 hP
    have harg := arguments_eq_some hd₁ ho
    obtain ⟨before, after, hopts⟩ := List.append_of_mem ho
    have hM₁ := hM hperm₁
    rw [hopts] at hd₁ hM₁ ⊢
    rw [portOf_last hd₁ hM₁ (.inl ⟨hch, hNP before o after hopts hch hN⟩)]
    cases o with
    | P optarg =>
      rw [portArg, show arguments PingOption.entry opts₁ 'P' = some optarg from harg] at hport
      exact Option.some.inj hport
    | _ => simp [PingOption.entry] at hch
  -- with `-N` last it is that of the portmapper
  obtain ⟨o, o', rest, hperm₂, ho, ho'⟩ := exists_perm_pair (by decide) (given_of_portArg hport) hN
  have hd₂ : Distinct PingOption.entry (o :: o' :: rest) := hd.perm hperm₂
  have hport₂ : portOf (o :: o' :: rest) = PMAPPORT := by
    have hsplit : Distinct PingOption.entry ([o] ++ o' :: rest) := hd₂
    have hlast := portOf_last hsplit (hM hperm₂) (.inr ⟨ho', given_singleton.2 ho⟩)
    cases o' with
    | N => exact hlast
    | _ => simp [PingOption.entry] at ho'
  refine ⟨opts₁, _, hperm₁, hperm₂, ?_⟩
  rw [pingSettings_guarded hd₁ h₁ (hinterval hperm₁), hport₁]
  by_cases h₂ : Guarded pingAllows (o :: o' :: rest)
  · rw [pingSettings_guarded hd₂ h₂ (hinterval hperm₂), hport₂]
    intro heq
    have hsame := congrArg PingSettings.port (Option.some.inj heq)
    simp only [PingSettings.read, defaultPort_of_ne hne'] at hsame
    exact hne hsame
  · rw [pingSettings_rejected hd₂ (.inl h₂)]
    exact Option.some_ne_none _

/-- Two orders that come to something else. -/
theorem PingOrdered.exists_ne (hd : Distinct PingOption.entry opts) (hnever : ¬ PingNever opts)
    (h : PingOrdered opts) :
    ∃ opts₁ opts₂, opts₁.Perm opts ∧ opts₂.Perm opts ∧
      (pingSettings opts₁).toOption ≠ (pingSettings opts₂).toOption := by
  have hrejected (hex : ∃ opts₂, opts₂.Perm opts ∧ ¬ Guarded pingAllows opts₂) :
      ∃ opts₁ opts₂, opts₁.Perm opts ∧ opts₂.Perm opts ∧
        (pingSettings opts₁).toOption ≠ (pingSettings opts₂).toOption := by
    obtain ⟨opts₁, hperm₁, h₁, -⟩ := exists_ping_guarded hd hnever
    obtain ⟨opts₂, hperm₂, h₂⟩ := hex
    have hinterval : ¬ IntervalTooSmall (arguments PingOption.entry opts₁) := by
      rw [arguments_perm hd hperm₁]
      exact fun hinterval => hnever (.inr (.inr (.inr (.inr hinterval))))
    refine ⟨opts₁, opts₂, hperm₁, hperm₂, ?_⟩
    rw [pingSettings_guarded (hd.perm hperm₁) h₁ hinterval,
      pingSettings_rejected (hd.perm hperm₂) (.inl h₂)]
    exact Option.some_ne_none _
  rcases h with ⟨hA, hd', -⟩ | ⟨hM, hP⟩ | ⟨hN, port, hport, hne, hne'⟩
  · refine hrejected (exists_perm_not_guarded (by decide) hA hd' fun o o' ho ho' _ hallowed => ?_)
    have hfree := hallowed.free
    rw [ho'] at hfree
    rcases (hfree : ¬ Given _ 'A' ∨ Given _ 'm') with hnot | hm
    · exact hnot (given_singleton.2 ho)
    · rw [given_singleton, ho] at hm
      exact absurd hm (by decide)
  · refine hrejected (exists_perm_not_guarded (by decide) hM hP fun o o' ho ho' hfirst hallowed => ?_)
    have hfree := hallowed.free
    rw [ho'] at hfree
    exact (hfree : portOf [o] ≠ 0)
      (pingAllows_port (List.nodupKeys_singleton _) hfirst (given_singleton.2 ho))
  · exact exists_ne_port hd hnever hN hport hne hne'

/-- **Every order or none**: unless there are options that an order decides about. -/
theorem pingOrder_iff (hd : Distinct PingOption.entry opts) :
    OrderFree pingSettings opts ↔ PingNever opts ∨ ¬ PingOrdered opts := by
  refine orderFree_iff ?_ ?_ fun hnever hordered => hordered.exists_ne hd hnever
  · intro hnever opts' hperm
    exact pingSettings_rejected (hd.perm hperm)
      (((PingNever.perm hd hperm).2 hnever).rejected (hd.perm hperm))
  · intro hnever hordered
    let s := PingSettings.of (arguments PingOption.entry opts) 0
    refine ⟨{ s.defaults with port := finalPort (arguments PingOption.entry opts) },
      fun opts' hperm => ?_⟩
    have hnever' : ¬ PingNever opts' := fun h => hnever ((PingNever.perm hd hperm).1 h)
    have hordered' : ¬ PingOrdered opts' := by
      simpa only [PingOrdered, arguments_perm hd hperm] using hordered
    rw [pingSettings_ordered (hd.perm hperm) hnever' hordered', arguments_perm hd hperm]

end

/-- **The order of the options** of both commands. -/
theorem options_orderFree_iff (pingOpts : List PingOption) (mountOpts : List MountOption)
    (hping : Distinct PingOption.entry pingOpts) (hmount : Distinct MountOption.entry mountOpts) :
    (OrderFree pingSettings pingOpts ↔ PingNever pingOpts ∨ ¬ PingOrdered pingOpts) ∧
      (OrderFree mountSettings mountOpts ↔ MountNever mountOpts ∨ ¬ MountOrdered mountOpts) :=
  ⟨pingOrder_iff hping, mountOrder_iff hmount⟩

theorem options_orderFree_iff_unixtime :
    OrderFree pingSettings [.D, .c "3".toList] ∧ OrderFree mountSettings [.D, .c "3".toList] := by
  have h := options_orderFree_iff [.D, .c "3".toList] [.D, .c "3".toList]
    (by simp [Distinct, PingOption.entry, List.NodupKeys])
    (by simp [Distinct, MountOption.entry, List.NodupKeys])
  have hping : ¬ PingOrdered [.D, .c "3".toList] := by
    simp [PingOrdered, given_iff, PingOption.entry]
  have hmount : ¬ MountOrdered [.D, .c "3".toList] := by
    simp [MountOrdered, given_iff, MountOption.entry]
  exact ⟨h.1.2 (.inr hping), h.2.2 (.inr hmount)⟩

/-- `-c 1 -G -l` counts and loops, while `-l -c 1 -G` is rejected, and so is `-M -P 2049` but not
    `-P 2049 -M`. -/
theorem options_order :
    Distinct MountOption.entry [.c "1".toList, .G, .l] ∧
    (∃ s, mountSettings [.c "1".toList, .G, .l] = .ok s ∧ s.count = 1 ∧ s.loop = true) ∧
    mountSettings [.l, .c "1".toList, .G] = .error (bothOptions "l" "c") ∧
    ¬ OrderFree mountSettings [.c "1".toList, .G, .l] ∧
    Distinct PingOption.entry [.P "2049".toList, .M] ∧
    (∃ s, pingSettings [.P "2049".toList, .M] = .ok s) ∧
    pingSettings [.M, .P "2049".toList] =
      .error (.fatal "Can't specify both port and portmapper!\n") ∧
    ¬ OrderFree pingSettings [.P "2049".toList, .M] := by
  have hmount : mountSettings [.l, .c "1".toList, .G] = .error (bothOptions "l" "c") := rfl
  have hping : pingSettings [.M, .P "2049".toList] =
      .error (.fatal "Can't specify both port and portmapper!\n") := rfl
  refine ⟨by simp [Distinct, MountOption.entry, List.NodupKeys], ⟨_, rfl, rfl, rfl⟩, hmount, ?_,
    by simp [Distinct, PingOption.entry, List.NodupKeys], ⟨_, rfl⟩, hping, ?_⟩
  · intro h
    have heq := h [.l, .c "1".toList, .G] (by decide)
    rw [hmount] at heq
    cases heq
  · intro h
    have heq := h [.M, .P "2049".toList] (by decide)
    rw [hping] at heq
    cases heq

end NFStash
