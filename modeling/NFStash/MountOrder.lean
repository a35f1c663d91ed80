/-
  The order of the options of `nfsmount`.

  In whatever order they are given, the options that are accepted leave the same settings
  (`MountSettings.of`), but not every order is accepted: `-e` is not after `-l`, nor `-d` between `-A`
  and `-m`, and `-l` is after `-c` and its format (`mountFree`).  `mountOrder_iff` is what
  the options are of which every order is accepted, or none.
-/
import NFStash.MountOptions
import NFStash.OptionOrder

namespace NFStash

open CLib Loops Orders

/-- The settings, with the default for the format. -/
def mountSettings (opts : List MountOption) : Except OptionError MountSettings := do
  let s ← readOptions mountOption opts {}
  .ok { s with format := s.format.or (some .json) }

/-- What `getopt` returns for it. -/
def MountOption.entry : MountOption → (_ : Char) × CString
  | .A => ⟨'A', []⟩
  | .c optarg => ⟨'c', optarg⟩
  | .C optarg => ⟨'C', optarg⟩
  | .d => ⟨'d', []⟩
  | .D => ⟨'D', []⟩
  | .e => ⟨'e', []⟩
  | .E => ⟨'E', []⟩
  | .G => ⟨'G', []⟩
  | .h => ⟨'h', []⟩
  | .H optarg => ⟨'H', optarg⟩
  | .J => ⟨'J', []⟩
  | .l => ⟨'l', []⟩
  | .m => ⟨'m', []⟩
  | .q => ⟨'q', []⟩
  | .R => ⟨'R', []⟩
  | .S optarg => ⟨'S', optarg⟩
  | .T => ⟨'T', []⟩
  | .u => ⟨'u', []⟩
  | .v => ⟨'v', []⟩
  | .V optarg => ⟨'V', optarg⟩
  | .unknown => ⟨'?', []⟩

/-- The options that exclude each other in both orders. -/
def mountGroups : List (List Char) := [['C', 'D', 'e', 'E', 'G', 'J'], ['C', 'c', 'e'], ['C', 'l']]

/-- An option that is known, with an argument that is good. -/
def MountOption.Valid : MountOption → Prop
  | .c optarg | .C optarg => strtoul optarg ≠ 0 ∧ strtoul optarg ≠ ULONG_MAX
  | .S optarg => inetPton optarg ≠ none
  | .V optarg => strtoul optarg = 1 ∨ strtoul optarg = 2 ∨ strtoul optarg = 3
  | .h | .unknown => False
  | _ => True

/-- What depends on the order of the options. -/
def mountFree (args : Char → Option CString) : Char → Prop
  | 'A' => ¬ Given args 'd'
  | 'd' => ¬ Given args 'A' ∨ Given args 'm'
  | 'c' | 'e' => ¬ Given args 'l'
  | 'l' => ¬ Given args 'c' ∨ Given args 'J' ∨ Given args 'G' ∨ Given args 'E'
  | _ => True

/-- An option is accepted after those with these arguments. -/
structure MountOption.Allowed (args : Char → Option CString) (o : MountOption) : Prop where
  valid : o.Valid
  apart : Apart mountGroups args o.entry.1
  free : mountFree args o.entry.1

/-- The options for a format that is not changed by another one. -/
def mountFormats : List (Char × MountFormat) :=
  [('C', .fping), ('e', .showmount), ('D', .unixtime), ('E', .statsd), ('G', .graphite), ('J', .json)]

/-- The format of these options. -/
def mountFormatOf (args : Char → Option CString) : Option MountFormat :=
  (firstGiven mountFormats args).or (if Given args 'c' ∨ Given args 'l' then some .ping else none)

/-- What these options set, in an order that is accepted. -/
def MountSettings.of (args : Char → Option CString) : MountSettings where
  format := mountFormatOf args
  version := match numberOf (args 'V') 3 with
    | 1 => .v1
    | 2 => .v2
    | _ => .v3
  count := numberOf ((args 'c').or (args 'C')) 0
  dns := Given args 'd'
  ip := ¬ Given args 'd' ∧ (Given args 'A' ∨ Given args 'm')
  loop := Given args 'l'
  multiple := Given args 'm'
  quiet := Given args 'q'
  reconnect := ¬ Given args 'R'
  unmount := ¬ Given args 'u'
  hertz := numberOf (args 'H') 10
  srcIp := ((args 'S').bind inetPton).getD .any
  tcp := Given args 'T'
  verbose := Given args 'v'

/-- Options of which no order is accepted. -/
def MountNever (opts : List MountOption) : Prop :=
  let args := arguments MountOption.entry opts
  (∃ o ∈ opts, ¬ o.Valid) ∨ Excluded mountGroups args ∨
    Given args 'A' ∧ Given args 'd' ∧ ¬ Given args 'm' ∨
    Given args 'c' ∧ Given args 'l' ∧ ¬ (Given args 'J' ∨ Given args 'G' ∨ Given args 'E')

/-- Options with an order that is not accepted, although another one may be. -/
def MountOrdered (opts : List MountOption) : Prop :=
  let args := arguments MountOption.entry opts
  Given args 'A' ∧ Given args 'd' ∧ Given args 'm' ∨ Given args 'e' ∧ Given args 'l' ∨
    Given args 'c' ∧ Given args 'l'

/-! ## One option -/

section
variable {o : MountOption} {opts : List MountOption} {a : Char → Option CString}

theorem mountCount_eq {format : Option MountFormat} {optarg : CString} {s : MountSettings}
    (h : strtoul optarg ≠ 0 ∧ strtoul optarg ≠ ULONG_MAX) :
    mountCount format optarg s = .ok { s with format, count := strtoul optarg } := by
  rw [mountCount, countArg_eq h]
  rfl

theorem mountCount_valid {format : Option MountFormat} {optarg : CString} {s s' : MountSettings}
    (h : mountCount format optarg s = .ok s') : strtoul optarg ≠ 0 ∧ strtoul optarg ≠ ULONG_MAX := by
  by_contra hbad
  rw [mountCount, countArg_error hbad] at h
  cases h

/-- `-c` and `-l` set the format if nothing else does. -/
theorem mountFormatOf_ping {ch : Char} {x : CString} (h : ch = 'c' ∨ ch = 'l') :
    mountFormatOf (Function.update a ch (some x)) = (mountFormatOf a).or (some .ping) := by
  have hother : ∀ row ∈ mountFormats, row.1 ≠ ch := by
    rcases h with rfl | rfl
    · decide
    · decide
  have hgiven : Given (Function.update a ch (some x)) 'c' ∨
      Given (Function.update a ch (some x)) 'l' := by
    rcases h with rfl | rfl
    · simp
    · simp
  rw [mountFormatOf, mountFormatOf, firstGiven_update_of_ne hother, if_pos hgiven, Option.or_assoc]
  split_ifs <;> rfl

@[simp]
theorem mountFormatOf_other {ch : Char} {x : CString}
    (h : ch ∉ ['C', 'e', 'D', 'E', 'G', 'J', 'c', 'l']) :
    mountFormatOf (Function.update a ch (some x)) = mountFormatOf a := by
  have hletters := (by decide : ∀ row ∈ mountFormats, row.1 ∈ ['C', 'e', 'D', 'E', 'G', 'J', 'c', 'l'])
  have hother : ∀ row ∈ mountFormats, row.1 ≠ ch := by
    rintro row hrow rfl
    exact h (hletters row hrow)
  have hc : 'c' ≠ ch := by
    rintro rfl
    exact h (by decide)
  have hl : 'l' ≠ ch := by
    rintro rfl
    exact h (by decide)
  rw [mountFormatOf, mountFormatOf, firstGiven_update_of_ne hother]
  simp only [given_update, hc, hl, false_or]

/-- An option for a format, after none of them. -/
theorem mountFormatOf_update {ch : Char} {f : MountFormat} {x : CString} (hf : (ch, f) ∈ mountFormats)
    (hnone : ∀ row ∈ mountFormats, ¬ Given a row.1) :
    mountFormatOf (Function.update a ch (some x)) = some f := by
  rw [mountFormatOf, firstGiven_update (by decide) hf hnone]
  rfl

/-- The format of one of the options. -/
theorem mountFormatOf_of_given {ch : Char} {f : MountFormat} (hgroups : ¬ Excluded mountGroups a)
    (hf : (ch, f) ∈ mountFormats) (hch : Given a ch) : mountFormatOf a = some f := by
  rw [mountFormatOf, hch.firstGiven hgroups (List.mem_cons_self ..) (by decide) (by decide) hf]
  rfl

/-- `-c` and `-l`, or nothing. -/
theorem mountFormatOf_unset (h : ∀ row ∈ mountFormats, ¬ Given a row.1) :
    mountFormatOf a = if Given a 'c' ∨ Given a 'l' then some .ping else none := by
  rw [mountFormatOf, firstGiven_eq_none.2 h, Option.none_or]

theorem mountFormatOf_eq_some {f : MountFormat} (h : mountFormatOf a = some f) :
    (∃ ch, (ch, f) ∈ mountFormats ∧ Given a ch) ∨ f = .ping ∧ (Given a 'c' ∨ Given a 'l') := by
  rw [mountFormatOf, Option.or_eq_some_iff] at h
  rcases h with h | ⟨-, h⟩
  · exact .inl (mem_of_firstGiven h)
  · split_ifs at h with hping
    exact .inr ⟨(Option.some.inj h).symm, hping⟩

theorem mountFormatOf_eq_none (h : mountFormatOf a = none) :
    (∀ row ∈ mountFormats, ¬ Given a row.1) ∧ ¬ Given a 'c' ∧ ¬ Given a 'l' := by
  rw [mountFormatOf, Option.or_eq_none_iff] at h
  obtain ⟨hnone, h⟩ := h
  split_ifs at h with hping
  exact ⟨firstGiven_eq_none.1 hnone, not_or.1 hping⟩

/-- `-D`, `-E`, `-G` and `-J`. -/
theorem mountFormat_ok {f : MountFormat} (h : ∀ f ∈ mountFormats, ¬ Given a f.1) :
    mountFormat f (.of a) = .ok { MountSettings.of a with format := some f } := by
  have hformat : (MountSettings.of a).format = if Given a 'c' ∨ Given a 'l' then some .ping else none :=
    mountFormatOf_unset h
  rw [mountFormat, hformat]
  split_ifs <;> rfl

/-- One of them sets only the format. -/
theorem MountSettings.of_format {ch : Char} {f : MountFormat} {x : CString}
    (hch : ch ∈ ['D', 'E', 'G', 'J']) (hf : (ch, f) ∈ mountFormats)
    (hnone : ∀ row ∈ mountFormats, ¬ Given a row.1) :
    { MountSettings.of a with format := some f } = MountSettings.of (Function.update a ch (some x)) := by
  have hformat := mountFormatOf_update (x := x) hf hnone
  simp only [List.mem_cons, List.not_mem_nil, or_false] at hch
  rcases hch with rfl | rfl | rfl | rfl
  all_goals simp [MountSettings.of, hformat]

/-- **One option** that is allowed. -/
theorem mountOption_ok (hfresh : ¬ Given a o.entry.1) (hgroups : ¬ Excluded mountGroups a)
    (hcount : numberOf ((a 'c').or (a 'C')) 0 ≠ 0 ↔ Given a 'c' ∨ Given a 'C')
    (h : o.Allowed a) :
    mountOption o (.of a) = .ok (.of (Function.update a o.entry.1 (some o.entry.2))) := by
  obtain ⟨hvalid, hapart, hfree⟩ := h
  have hunset : o.entry.1 ∈ ['C', 'D', 'e', 'E', 'G', 'J'] → ∀ f ∈ mountFormats, ¬ Given a f.1 := by
    intro hgroup f hf
    exact hapart.group hfresh (List.mem_cons_self ..) hgroup f.1
      ((by decide : ∀ f ∈ mountFormats, f.1 ∈ ['C', 'D', 'e', 'E', 'G', 'J']) f hf)
  cases o with
  | A =>
    have hd : ¬ Given a 'd' := hfree
    simp [mountOption, MountOption.entry, MountSettings.of, hd]
  | m =>
    by_cases hd : Given a 'd'
    · simp [mountOption, MountOption.entry, MountSettings.of, hd]
    · simp [mountOption, MountOption.entry, MountSettings.of, hd]
  | d =>
    by_cases hm : Given a 'm'
    · simp [mountOption, MountOption.entry, MountSettings.of, hm]
    · have hA : ¬ Given a 'A' := hfree.resolve_right hm
      simp [mountOption, MountOption.entry, MountSettings.of, hm, hA]
  | D | E | G =>
    have hnone := hunset (by decide)
    rw [mountOption, mountFormat_ok hnone]
    exact congrArg Except.ok (MountSettings.of_format (by decide) (by decide) hnone)
  | J =>
    have hnone := hunset (by decide)
    have hfping : (MountSettings.of a).format ≠ some .fping := by
      rw [show (MountSettings.of a).format = _ from mountFormatOf_unset hnone]
      split_ifs <;> simp
    rw [mountOption, if_neg hfping, mountFormat_ok hnone]
    exact congrArg Except.ok (MountSettings.of_format (by decide) (by decide) hnone)
  | e =>
    have hnone := hunset (by decide)
    have hl : ¬ Given a 'l' := hfree
    have hc : ¬ Given a 'c' := hapart.not_given (by decide)
    simp [mountOption, MountOption.entry, MountSettings.of, mountFormatOf_unset hnone, hc, hl,
      mountFormatOf_update (by decide : ('e', .showmount) ∈ mountFormats) hnone]
  | c optarg =>
    have hapart : Apart mountGroups a 'c' := hapart
    have hC : ¬ Given a 'C' := hapart.not_given (by decide)
    have he : ¬ Given a 'e' := hapart.not_given (by decide)
    have hl : ¬ Given a 'l' := hfree
    simp only [mountOption, MountOption.entry, mountCount_eq hvalid]
    cases hf : mountFormatOf a with
    | none => simp [MountSettings.of, hf, hl, mountFormatOf_ping]
    | some f =>
      have hne : f ≠ .fping ∧ f ≠ .showmount := by
        rcases mountFormatOf_eq_some hf with ⟨ch, hmem, hch⟩ | ⟨rfl, -⟩
        · simp only [mountFormats, List.mem_cons, Prod.mk.injEq, List.not_mem_nil, or_false] at hmem
          rcases hmem with ⟨rfl, rfl⟩ | ⟨rfl, rfl⟩ | ⟨rfl, rfl⟩ | ⟨rfl, rfl⟩ | ⟨rfl, rfl⟩ | ⟨rfl, rfl⟩
          all_goals simp_all
        · simp
      cases f <;> simp_all [MountSettings.of, mountFormatOf_ping]
  | C optarg =>
    have hnone := hunset (by simp [MountOption.entry])
    have hapart : Apart mountGroups a 'C' := hapart
    have hc : ¬ Given a 'c' := hapart.not_given (by decide)
    have hl : ¬ Given a 'l' := hapart.not_given (by decide)
    simp [mountOption, MountOption.entry, MountSettings.of, mountFormatOf_unset hnone, hc, hl,
      mountFormatOf_update (by decide : ('C', .fping) ∈ mountFormats) hnone, mountCount_eq hvalid,
      not_not.1 hc]
  | l =>
    have hC : ¬ Given a 'C' := hapart.not_given (by decide)
    rcases hfree with hc | hformat
    · have hzero : numberOf ((a 'c').or (a 'C')) 0 = 0 := by simpa [hc, hC] using not_congr hcount
      cases hf : mountFormatOf a with
      | none => simp [mountOption, MountOption.entry, MountSettings.of, hzero, hf, mountFormatOf_ping]
      | some f => simp [mountOption, MountOption.entry, MountSettings.of, hzero, hf, mountFormatOf_ping]
    · have hf : mountFormatOf a = some .json ∨ mountFormatOf a = some .graphite ∨
          mountFormatOf a = some .statsd := by
        rcases hformat with h | h | h
        · exact .inl (mountFormatOf_of_given hgroups (by decide) h)
        · exact .inr (.inl (mountFormatOf_of_given hgroups (by decide) h))
        · exact .inr (.inr (mountFormatOf_of_given hgroups (by decide) h))
      rcases hf with hf | hf | hf
      · simp [mountOption, MountOption.entry, MountSettings.of, hf, mountFormatOf_ping]
      · simp [mountOption, MountOption.entry, MountSettings.of, hf, mountFormatOf_ping]
      · simp [mountOption, MountOption.entry, MountSettings.of, hf, mountFormatOf_ping]
  | V optarg =>
    rcases (hvalid : _ ∨ _ ∨ _) with h | h | h
    · simp [mountOption, MountOption.entry, MountSettings.of, h]
    · simp [mountOption, MountOption.entry, MountSettings.of, h]
    · simp [mountOption, MountOption.entry, MountSettings.of, h]
  | S optarg =>
    obtain ⟨srcIp, hsrc⟩ := Option.ne_none_iff_exists'.1 (show inetPton optarg ≠ none from hvalid)
    simp [mountOption, MountOption.entry, MountSettings.of, hsrc]
  | h => exact absurd hvalid id
  | unknown => exact absurd hvalid id
  | H | q | R | T | u | v =>
    simp [mountOption, MountOption.entry, MountSettings.of]

/-- `-D`, `-E`, `-G` and `-J` after an option for another format. -/
theorem mountFormat_apart {ch : Char} {f : MountFormat} {s' : MountSettings}
    (hgroups : ¬ Excluded mountGroups a) (hch : ch ∈ ['D', 'E', 'G', 'J'])
    (hf : ∀ row ∈ mountFormats, row.1 ≠ ch → row.2 ≠ f)
    (h : mountFormat f (.of a) = .ok s') : Apart mountGroups a ch := by
  have hfree : ∀ row ∈ mountFormats, row.1 ≠ ch → ¬ Given a row.1 := by
    intro row hrow hne hgiven
    have hformat : (MountSettings.of a).format = some row.2 := mountFormatOf_of_given hgroups hrow hgiven
    have hping := (by decide : ∀ row ∈ mountFormats, row.2 ≠ .ping) row hrow
    rw [mountFormat, hformat] at h
    split at h
    · rename_i heq
      cases heq
    · rename_i heq
      exact hping (Option.some.inj heq)
    · rename_i heq
      obtain rfl := Option.some.inj heq
      rw [if_neg (hf row hrow hne)] at h
      cases h
  simp [mountFormats] at hfree
  simp only [List.mem_cons, List.not_mem_nil, or_false] at hch
  rcases hch with rfl | rfl | rfl | rfl
  all_goals simpa [Apart, mountGroups, and_left_comm] using hfree

/-- What `-c` is not after. -/
theorem mountOption_c_free {optarg : CString} {s' : MountSettings} (hgroups : ¬ Excluded mountGroups a)
    (h : mountOption (.c optarg) (.of a) = .ok s') : ¬ Given a 'l' ∧ ¬ Given a 'C' ∧ ¬ Given a 'e' := by
  simp only [mountOption] at h
  split_ifs at h with hloop
  have hl : ¬ Given a 'l' := by simpa [MountSettings.of] using hloop
  have hnot : ∀ {ch f}, (ch, f) ∈ mountFormats → f = .fping ∨ f = .showmount → ¬ Given a ch := by
    intro ch f hmem hf hch
    rw [show (MountSettings.of a).format = some f from mountFormatOf_of_given hgroups hmem hch] at h
    rcases hf with rfl | rfl
    · cases h
    · cases h
  exact ⟨hl, hnot (by decide : ('C', _) ∈ mountFormats) (.inl rfl),
    hnot (by decide : ('e', _) ∈ mountFormats) (.inr rfl)⟩

/-- What `-l` is not after: with a count, only some formats let it pass. -/
theorem mountOption_l_free {s' : MountSettings} (hgroups : ¬ Excluded mountGroups a)
    (hcount : numberOf ((a 'c').or (a 'C')) 0 ≠ 0 ↔ Given a 'c' ∨ Given a 'C')
    (h : mountOption .l (.of a) = .ok s') : ¬ Given a 'C' ∧ mountFree a 'l' := by
  have hcounted : ∀ f, numberOf ((a 'c').or (a 'C')) 0 ≠ 0 → mountFormatOf a = some f →
      f ≠ .ping ∧ f ≠ .unixtime ∧ f ≠ .fping := by
    intro f hne hf
    refine ⟨?_, ?_, ?_⟩
    all_goals
      rintro rfl
      simp [mountOption, MountSettings.of, hf, hne] at h
  have hC : ¬ Given a 'C' := fun hC =>
    (hcounted _ (hcount.2 (.inr hC)) (mountFormatOf_of_given hgroups (by decide) hC)).2.2 rfl
  refine ⟨hC, ?_⟩
  by_contra hnot
  simp only [mountFree, not_or, not_not] at hnot
  obtain ⟨hc, hJ, hG, hE⟩ := hnot
  have hne := hcount.2 (.inl hc)
  have he : ¬ Given a 'e' := (hc.apart hgroups).not_given (by decide)
  have hD : ¬ Given a 'D' := fun hD =>
    (hcounted _ hne (mountFormatOf_of_given hgroups (by decide) hD)).2.1 rfl
  refine (hcounted .ping hne ?_).1 rfl
  rw [mountFormatOf_unset (by simp [mountFormats, hC, he, hD, hE, hG, hJ]), if_pos (.inl hc)]

/-- **One option** that is accepted is allowed. -/
theorem mountOption_allowed {s' : MountSettings} (hfresh : ¬ Given a o.entry.1)
    (hgroups : ¬ Excluded mountGroups a)
    (hcount : numberOf ((a 'c').or (a 'C')) 0 ≠ 0 ↔ Given a 'c' ∨ Given a 'C')
    (h : mountOption o (.of a) = .ok s') : o.Allowed a := by
  cases o with
  | A =>
    simp only [mountOption] at h
    split_ifs at h with hd
    have hfree : ¬ Given a 'd' := by simpa [MountSettings.of] using hd
    exact ⟨trivial, by simp [Apart, mountGroups, MountOption.entry], hfree⟩
  | d =>
    have hd : ¬ Given a 'd' := hfresh
    have hfree : ¬ Given a 'A' ∨ Given a 'm' := by
      simp only [mountOption] at h
      split_ifs at h with hip hm
      · exact .inr (by simpa [MountSettings.of] using hm)
      · exact .inl fun hA => hip (by simp [MountSettings.of, hA, hd])
    exact ⟨trivial, by simp [Apart, mountGroups, MountOption.entry], hfree⟩
  | D =>
    exact ⟨trivial, mountFormat_apart hgroups (by decide) (by decide) h, trivial⟩
  | E =>
    exact ⟨trivial, mountFormat_apart hgroups (by decide) (by decide) h, trivial⟩
  | G =>
    exact ⟨trivial, mountFormat_apart hgroups (by decide) (by decide) h, trivial⟩
  | J =>
    simp only [mountOption] at h
    split_ifs at h
    exact ⟨trivial, mountFormat_apart hgroups (by decide) (by decide) h, trivial⟩
  | e =>
    simp only [mountOption] at h
    split at h
    · rename_i hf
      obtain ⟨hnone, hc, hl⟩ := mountFormatOf_eq_none hf
      simp [mountFormats] at hnone
      exact ⟨trivial, by simp [Apart, mountGroups, MountOption.entry, hnone, hc], hl⟩
    · rename_i hf
      rcases mountFormatOf_eq_some hf with ⟨ch, hmem, hch⟩ | ⟨hping, -⟩
      · obtain rfl : ch = 'e' := by simpa [mountFormats] using hmem
        exact absurd hch hfresh
      · cases hping
    · cases h
  | c optarg =>
    obtain ⟨hl, hC, he⟩ := mountOption_c_free hgroups h
    refine ⟨?_, by simp [Apart, mountGroups, MountOption.entry, hC, he], hl⟩
    simp only [mountOption] at h
    split_ifs at h
    split at h
    · exact mountCount_valid h
    · cases h
    · cases h
    · exact mountCount_valid h
  | C optarg =>
    have hC : ¬ Given a 'C' := hfresh
    simp only [mountOption] at h
    split_ifs at h with hloop
    split at h
    · rename_i hf
      obtain ⟨hnone, hc, hl⟩ := mountFormatOf_eq_none hf
      simp [mountFormats] at hnone
      exact ⟨mountCount_valid h, by simp [Apart, mountGroups, MountOption.entry, hnone, hc, hl], trivial⟩
    · rename_i hf
      rcases mountFormatOf_eq_some hf with ⟨ch, hmem, hch⟩ | ⟨hping, -⟩
      · obtain rfl : ch = 'C' := by simpa [mountFormats] using hmem
        exact absurd hch hC
      · cases hping
    all_goals cases h
  | l =>
    obtain ⟨hC, hfree⟩ := mountOption_l_free hgroups hcount h
    exact ⟨trivial, by simp [Apart, mountGroups, MountOption.entry, hC], hfree⟩
  | S optarg =>
    refine ⟨?_, by simp [Apart, mountGroups, MountOption.entry], trivial⟩
    intro hsrc
    simp only [mountOption, hsrc] at h
    cases h
  | V optarg =>
    refine ⟨?_, by simp [Apart, mountGroups, MountOption.entry], trivial⟩
    simp only [mountOption] at h
    split at h
    · rename_i hversion
      exact .inl hversion
    · rename_i hversion
      exact .inr (.inl hversion)
    · rename_i hversion
      exact .inr (.inr hversion)
    · cases h
  | h => cases h
  | unknown => cases h
  | H | m | q | R | T | u | v =>
    exact ⟨trivial, by simp [Apart, mountGroups, MountOption.entry], trivial⟩

/-! ## Orders -/

/-- An option is accepted after these. -/
def mountAllows (before : List MountOption) (o : MountOption) : Prop :=
  o.Allowed (arguments MountOption.entry before)

theorem mountOption_count (hd : Distinct MountOption.entry opts) (hvalid : ∀ o ∈ opts, o.Valid) :
    let args := arguments MountOption.entry opts
    numberOf ((args 'c').or (args 'C')) 0 ≠ 0 ↔ Given args 'c' ∨ Given args 'C' := by
  refine count_ne_zero_iff hd fun o ho hch => ?_
  have hgood := hvalid o ho
  cases o with
  | c optarg | C optarg => exact hgood.1
  | _ => simp [MountOption.entry] at hch

theorem mountAllows_groups (h : Guarded mountAllows opts) :
    ¬ Excluded mountGroups (arguments MountOption.entry opts) :=
  not_excluded_of_guarded h fun _ _ ho => ho.apart

theorem mountAllows_valid (h : Guarded mountAllows opts) : ∀ o ∈ opts, o.Valid := by
  intro o ho
  obtain ⟨before, after, -, hallowed⟩ := h.of_mem ho
  exact hallowed.valid

/-- **Reading the options.** -/
theorem mountOptions_guarded (hd : Distinct MountOption.entry opts) :
    (Guarded mountAllows opts →
      readOptions mountOption opts {} = .ok (.of (arguments MountOption.entry opts))) ∧
    (¬ Guarded mountAllows opts → ∃ e, readOptions mountOption opts {} = .error e) := by
  refine @readOptions_guarded _ _ MountOption.entry mountOption opts mountAllows
    (fun opts => .of (arguments MountOption.entry opts)) ?_ ?_ hd
  · intro done o hd h ho
    obtain ⟨hdone, hfresh, -⟩ := hd.fresh
    show _ = Except.ok (MountSettings.of (arguments MountOption.entry (done ++ [o])))
    rw [arguments_concat hfresh]
    exact mountOption_ok hfresh (mountAllows_groups h) (mountOption_count hdone (mountAllows_valid h)) ho
  · intro done o hd h ho
    obtain ⟨hdone, hfresh, -⟩ := hd.fresh
    cases hread : mountOption o (.of (arguments MountOption.entry done)) with
    | error e => exact ⟨e, rfl⟩
    | ok s =>
      exact absurd (mountOption_allowed hfresh (mountAllows_groups h)
        (mountOption_count hdone (mountAllows_valid h)) hread) ho

theorem mountSettings_guarded (hd : Distinct MountOption.entry opts) (h : Guarded mountAllows opts) :
    let s := MountSettings.of (arguments MountOption.entry opts)
    (mountSettings opts).toOption = some { s with format := s.format.or (some .json) } := by
  intro s
  rw [mountSettings, (mountOptions_guarded hd).1 h]
  rfl

theorem mountSettings_rejected (hd : Distinct MountOption.entry opts) (h : ¬ Guarded mountAllows opts) :
    (mountSettings opts).toOption = none := by
  obtain ⟨e, he⟩ := (mountOptions_guarded hd).2 h
  rw [mountSettings, he]
  rfl

/-- No order is accepted. -/
theorem MountNever.not_guarded (h : MountNever opts) : ¬ Guarded mountAllows opts := by
  intro hg
  have hfree : ∀ {before o after ch}, opts = before ++ o :: after → o.entry.1 = ch →
      mountFree (arguments MountOption.entry before) ch := by
    rintro before o after ch hopts rfl
    exact (hg before o after hopts).free
  rcases h with ⟨o, ho, hbad⟩ | hexcl | ⟨hA, hd, hm⟩ | ⟨hc, hl, hformat⟩
  · exact hbad (mountAllows_valid hg o ho)
  · exact mountAllows_groups hg hexcl
  · rcases given_before_or (by decide) hA hd with
      ⟨before, o, after, hopts, ho, hbefore⟩ | ⟨before, o, after, hopts, ho, hbefore⟩
    · exact (hfree hopts ho : ¬ Given _ 'd') hbefore
    · rcases (hfree hopts ho : ¬ Given _ 'A' ∨ Given _ 'm') with hnot | hm'
      · exact hnot hbefore
      · exact hm (hm'.of_before hopts)
  · rcases given_before_or (by decide) hc hl with
      ⟨before, o, after, hopts, ho, hbefore⟩ | ⟨before, o, after, hopts, ho, hbefore⟩
    · exact (hfree hopts ho : ¬ Given _ 'l') hbefore
    · rcases (hfree hopts ho : ¬ Given _ 'c' ∨ _) with hnot | hJ | hG | hE
      · exact hnot hbefore
      · exact hformat (.inl (hJ.of_before hopts))
      · exact hformat (.inr (.inl (hG.of_before hopts)))
      · exact hformat (.inr (.inr (hE.of_before hopts)))

/-- An option that is not rejected in every order, with those it depends on where they should be. -/
theorem mountAllows_of_free {before after : List MountOption} (hnever : ¬ MountNever opts)
    (hopts : opts = before ++ o :: after)
    (hfree : mountFree (arguments MountOption.entry before) o.entry.1) : mountAllows before o := by
  refine ⟨?_, apart_of_not_excluded hopts fun h => hnever (.inr (.inl h)), hfree⟩
  by_contra hbad
  exact hnever (.inl ⟨o, by simp [hopts], hbad⟩)

/-- Every order is accepted. -/
theorem mount_guarded (hnever : ¬ MountNever opts) (hordered : ¬ MountOrdered opts) :
    Guarded mountAllows opts := by
  intro before o after hopts
  have ho : Given (arguments MountOption.entry opts) o.entry.1 := given_middle hopts
  have hgiven : ∀ {ch}, Given (arguments MountOption.entry before) ch →
      Given (arguments MountOption.entry opts) ch := fun h => h.of_before hopts
  have hAd : ¬ (Given (arguments MountOption.entry opts) 'A' ∧
      Given (arguments MountOption.entry opts) 'd') := by
    rintro ⟨hA, hd⟩
    by_cases hm : Given (arguments MountOption.entry opts) 'm'
    · exact hordered (.inl ⟨hA, hd, hm⟩)
    · exact hnever (.inr (.inr (.inl ⟨hA, hd, hm⟩)))
  refine mountAllows_of_free hnever hopts ?_
  cases o with
  | A => exact fun hd => hAd ⟨ho, hgiven hd⟩
  | d => exact .inl fun hA => hAd ⟨hgiven hA, ho⟩
  | c optarg => exact fun hl => hordered (.inr (.inr ⟨ho, hgiven hl⟩))
  | e => exact fun hl => hordered (.inr (.inl ⟨ho, hgiven hl⟩))
  | l => exact .inl fun hc => hordered (.inr (.inr ⟨hgiven hc, ho⟩))
  | _ => trivial

theorem MountNever.perm {opts' : List MountOption} (hd : Distinct MountOption.entry opts)
    (hperm : opts'.Perm opts) : MountNever opts' ↔ MountNever opts := by
  simp only [MountNever, arguments_perm hd hperm, hperm.mem_iff]

/-- The options that come last in an order that is accepted. -/
def mountRank (o : MountOption) : ℕ := if o.entry.1 = 'd' ∨ o.entry.1 = 'l' then 1 else 0

/-- An order that is accepted, if there is one. -/
theorem exists_mount_guarded (hd : Distinct MountOption.entry opts) (hnever : ¬ MountNever opts) :
    ∃ opts', opts'.Perm opts ∧ Guarded mountAllows opts' := by
  obtain ⟨opts', hperm, hrank⟩ := exists_ranked mountRank opts
  refine ⟨opts', hperm, ?_⟩
  have hnever' : ¬ MountNever opts' := fun h => hnever ((MountNever.perm hd hperm).1 h)
  intro before o after hopts
  obtain ⟨hle, hlt⟩ := hrank before o after hopts
  have ho : Given (arguments MountOption.entry opts') o.entry.1 := given_middle hopts
  -- `-d` and `-l` are not before the others, which are all before them
  have hlate : ∀ {ch}, ch = 'd' ∨ ch = 'l' → mountRank o = 0 →
      ¬ Given (arguments MountOption.entry before) ch := by
    intro ch hch hzero hgiven
    obtain ⟨b, hb, rfl⟩ := given_iff.1 hgiven
    have := hle b hb
    rw [mountRank, if_pos hch, hzero] at this
    exact absurd this (by decide)
  have hearly : ∀ {ch}, ¬ (ch = 'd' ∨ ch = 'l') → mountRank o = 1 →
      Given (arguments MountOption.entry opts') ch → Given (arguments MountOption.entry before) ch := by
    intro ch hch hone hgiven
    obtain ⟨b, hb, rfl⟩ := given_iff.1 hgiven
    refine given_iff.2 ⟨b, hlt b (hperm.mem_iff.1 hb) ?_, rfl⟩
    rw [mountRank, if_neg hch, hone]
    decide
  refine mountAllows_of_free hnever' hopts ?_
  cases o with
  | A => exact hlate (.inl rfl) rfl
  | c optarg => exact hlate (.inr rfl) rfl
  | e => exact hlate (.inr rfl) rfl
  | d =>
    by_cases hm : Given (arguments MountOption.entry opts') 'm'
    · exact .inr (hearly (by decide) rfl hm)
    · exact .inl fun hA => hnever' (.inr (.inr (.inl ⟨hA.of_before hopts, ho, hm⟩)))
  | l =>
    by_cases hformat : Given (arguments MountOption.entry opts') 'J' ∨
        Given (arguments MountOption.entry opts') 'G' ∨ Given (arguments MountOption.entry opts') 'E'
    · exact .inr (hformat.imp (hearly (by decide) rfl)
        (.imp (hearly (by decide) rfl) (hearly (by decide) rfl)))
    · exact .inl fun hc => hnever' (.inr (.inr (.inr ⟨hc.of_before hopts, ho, hformat⟩)))
  | _ => trivial

/-- An order that is not accepted. -/
theorem MountOrdered.exists_not_guarded (h : MountOrdered opts) :
    ∃ opts', opts'.Perm opts ∧ ¬ Guarded mountAllows opts' := by
  have hafter : ∀ {o o' : MountOption} {ch ch'}, o.entry.1 = ch → o'.entry.1 = ch' → mountAllows [o] o' →
      mountFree (arguments MountOption.entry [o]) ch' ∧ Given (arguments MountOption.entry [o]) ch := by
    rintro o o' ch ch' ho rfl hallowed
    exact ⟨hallowed.free, given_singleton.2 ho⟩
  rcases h with ⟨hA, hd, -⟩ | ⟨he, hl⟩ | ⟨hc, hl⟩
  · refine exists_perm_not_guarded (by decide) hA hd fun o o' ho ho' _ hallowed => ?_
    obtain ⟨hfree, hgiven⟩ := hafter ho ho' hallowed
    rcases (hfree : ¬ Given _ 'A' ∨ Given _ 'm') with hnot | hm
    · exact hnot hgiven
    · rw [given_singleton, ho] at hm
      exact absurd hm (by decide)
  · refine exists_perm_not_guarded (by decide) hl he fun o o' ho ho' _ hallowed => ?_
    obtain ⟨hfree, hgiven⟩ := hafter ho ho' hallowed
    exact (hfree : ¬ Given _ 'l') hgiven
  · refine exists_perm_not_guarded (by decide) hl hc fun o o' ho ho' _ hallowed => ?_
    obtain ⟨hfree, hgiven⟩ := hafter ho ho' hallowed
    exact (hfree : ¬ Given _ 'l') hgiven

/-- **Every order or none**: unless there are options that an order decides about. -/
theorem mountOrder_iff (hd : Distinct MountOption.entry opts) :
    OrderFree mountSettings opts ↔ MountNever opts ∨ ¬ MountOrdered opts := by
  refine orderFree_iff ?_ ?_ ?_
  · intro hnever opts' hperm
    exact mountSettings_rejected (hd.perm hperm) ((MountNever.perm hd hperm).2 hnever).not_guarded
  · intro hnever hordered
    let s := MountSettings.of (arguments MountOption.entry opts)
    refine ⟨{ s with format := s.format.or (some .json) }, fun opts' hperm => ?_⟩
    have hnever' : ¬ MountNever opts' := fun h => hnever ((MountNever.perm hd hperm).1 h)
    have hordered' : ¬ MountOrdered opts' := by
      simpa only [MountOrdered, arguments_perm hd hperm] using hordered
    rw [mountSettings_guarded (hd.perm hperm) (mount_guarded hnever' hordered'), arguments_perm hd hperm]
  · intro hnever hordered
    obtain ⟨opts₁, hperm₁, h₁⟩ := exists_mount_guarded hd hnever
    obtain ⟨opts₂, hperm₂, h₂⟩ := hordered.exists_not_guarded
    refine ⟨opts₁, opts₂, hperm₁, hperm₂, ?_⟩
    rw [mountSettings_guarded (hd.perm hperm₁) h₁, mountSettings_rejected (hd.perm hperm₂) h₂]
    exact Option.some_ne_none _

end

end NFStash
