/-
  The order of the options.

  `getopt` returns the options one after the other, each as a letter with an argument (`arguments`).  A
  command lets an option pass after some options and stops after others (`Orders.Guarded`), and
  `readOptions_guarded` is the rule for what comes of a whole list.  Two options of one group exclude
  each other in both orders (`Apart`, `excluded_of_guarded`).
-/
import NFStash.Lib.Orders
import NFStash.Options
import Mathlib.Data.List.Find
import Mathlib.Data.List.Sigma

namespace NFStash

open CLib Loops Orders

section
variable {α σ : Type} {entry : α → (_ : Char) × CString} {option : α → σ → Except OptionError σ}
  {parse : List α → Except OptionError σ} {opts opts' done before after : List α} {o o' : α} {s : σ}
  {ch ch' : Char} {optarg : CString} {groups : List (List Char)}

/-- No option is given twice. -/
def Distinct (entry : α → (_ : Char) × CString) (opts : List α) : Prop := (opts.map entry).NodupKeys

/-- The arguments of the options that are given. -/
def arguments (entry : α → (_ : Char) × CString) (opts : List α) (ch : Char) : Option CString :=
  (opts.map entry).dlookup ch

/-- An option is given. -/
def Given (args : Char → Option CString) (ch : Char) : Prop := args ch ≠ none

instance (args : Char → Option CString) (ch : Char) : Decidable (Given args ch) :=
  inferInstanceAs (Decidable (_ ≠ none))

/-- Every order of the options is accepted, with the same settings, or none is. -/
def OrderFree (parse : List α → Except OptionError σ) (opts : List α) : Prop :=
  ∀ opts', opts'.Perm opts → (parse opts').toOption = (parse opts).toOption

/-- Two options of a group are given. -/
def Excluded (groups : List (List Char)) (args : Char → Option CString) : Prop :=
  ∃ group ∈ groups, ∃ ch ∈ group, ∃ ch' ∈ group, ch ≠ ch' ∧ Given args ch ∧ Given args ch'

/-- None of the other options of its groups is given. -/
def Apart (groups : List (List Char)) (args : Char → Option CString) (ch : Char) : Prop :=
  ∀ group ∈ groups, ch ∈ group → ∀ ch' ∈ group, ch' ≠ ch → ¬ Given args ch'

/-- The number of an option, or the default. -/
def numberOf (arg : Option CString) (default : ℕ) : ℕ := (arg.map strtoul).getD default

/-- What comes with the first option of a table that is given. -/
def firstGiven {β : Type} (table : List (Char × β)) (args : Char → Option CString) : Option β :=
  (table.find? fun row => Given args row.1).map (·.2)

/-! ## Arguments -/

@[simp]
theorem numberOf_some {x : CString} {n : ℕ} : numberOf (some x) n = strtoul x := rfl

theorem countArg_eq (h : strtoul optarg ≠ 0 ∧ strtoul optarg ≠ ULONG_MAX) :
    countArg optarg = .ok (strtoul optarg) := if_neg (not_or.2 h)

theorem countArg_error (h : ¬ (strtoul optarg ≠ 0 ∧ strtoul optarg ≠ ULONG_MAX)) :
    countArg optarg = .error (.fatal "Zero count, nothing to do!\n") := if_pos (by tauto)

@[simp]
theorem given_update {args : Char → Option CString} {x : CString} :
    Given (Function.update args ch (some x)) ch' ↔ ch' = ch ∨ Given args ch' := by
  rw [Given, Given, Function.update_apply]
  by_cases hch : ch' = ch
  · simp [hch]
  · simp [hch]

theorem given_iff : Given (arguments entry opts) ch ↔ ∃ o ∈ opts, (entry o).1 = ch := by
  rw [Given, arguments, ← Option.isSome_iff_ne_none, List.dlookup_isSome, List.keys, List.map_map,
    List.mem_map]
  rfl

theorem given_append : Given (arguments entry (opts ++ opts')) ch ↔
    Given (arguments entry opts) ch ∨ Given (arguments entry opts') ch := by
  simp only [given_iff, List.mem_append, or_and_right, exists_or]

/-- What is not given first comes with the option that is last. -/
theorem arguments_concat (hfresh : ¬ Given (arguments entry done) (entry o).1) :
    arguments entry (done ++ [o]) =
      Function.update (arguments entry done) (entry o).1 (some (entry o).2) := by
  funext ch
  have happend : arguments entry (done ++ [o]) ch =
      (arguments entry done ch).or (arguments entry [o] ch) := by
    rw [arguments, List.map_append, List.dlookup_append]
    rfl
  rw [happend, Function.update_apply]
  split_ifs with hch
  · subst hch
    rw [not_not.1 hfresh, Option.none_or]
    exact List.dlookup_cons_eq ..
  · have hlast : arguments entry [o] ch = none := by
      rw [arguments, List.map_singleton, List.dlookup_cons_ne _ _ hch, List.dlookup_nil]
    rw [hlast, Option.or_none]

theorem arguments_eq_some (h : Distinct entry opts) (ho : o ∈ opts) :
    arguments entry opts (entry o).1 = some (entry o).2 :=
  List.mem_dlookup h (List.mem_map_of_mem ho)

/-- The arguments are the same in every order. -/
theorem arguments_perm (h : Distinct entry opts) (hperm : opts'.Perm opts) :
    arguments entry opts' = arguments entry opts := by
  have hmap := hperm.map entry
  funext ch
  exact List.perm_dlookup ch ((List.perm_nodupKeys hmap).2 h) hmap

/-- An option that has been read keeps its argument. -/
theorem arguments_of_before {x : CString} (h : opts = before ++ o :: after)
    (hch : arguments entry before ch = some x) : arguments entry opts ch = some x := by
  have happend : arguments entry opts ch =
      (arguments entry before ch).or (arguments entry (o :: after) ch) := by
    rw [h, arguments, List.map_append, List.dlookup_append]
    rfl
  rw [happend, hch]
  rfl

theorem Distinct.perm (h : Distinct entry opts) (hperm : opts'.Perm opts) : Distinct entry opts' :=
  (List.perm_nodupKeys (hperm.map entry)).2 h

/-- An option is not given again. -/
theorem Distinct.disjoint (h : Distinct entry (opts ++ opts')) (hch : Given (arguments entry opts) ch) :
    ¬ Given (arguments entry opts') ch := by
  intro hch'
  obtain ⟨o, ho, rfl⟩ := given_iff.1 hch
  obtain ⟨o', ho', heq⟩ := given_iff.1 hch'
  rw [Distinct, List.map_append, List.nodupKeys_iff_pairwise, List.pairwise_append] at h
  exact h.2.2 _ (List.mem_map_of_mem ho) _ (List.mem_map_of_mem ho') heq.symm

/-- The options around another one are not the same. -/
theorem Distinct.fresh (h : Distinct entry (before ++ o :: after)) :
    Distinct entry before ∧ ¬ Given (arguments entry before) (entry o).1 ∧
      ¬ Given (arguments entry after) (entry o).1 := by
  refine ⟨?_, fun hbefore => h.disjoint hbefore (given_iff.2 ⟨o, by simp, rfl⟩), ?_⟩
  · exact List.NodupKeys.sublist ((List.sublist_append_left _ _).map entry) h
  · rw [← List.singleton_append, ← List.append_assoc] at h
    exact h.disjoint (given_iff.2 ⟨o, by simp, rfl⟩)

theorem given_middle (h : opts = before ++ o :: after) :
    Given (arguments entry opts) (entry o).1 :=
  given_iff.2 ⟨o, by simp [h], rfl⟩

theorem Given.of_before (h : opts = before ++ o :: after) (hch : Given (arguments entry before) ch) :
    Given (arguments entry opts) ch := by
  rw [h]
  exact given_append.2 (.inl hch)

/-- One of two options that are given comes after the other. -/
theorem given_before_or (hne : ch ≠ ch') (hch : Given (arguments entry opts) ch)
    (hch' : Given (arguments entry opts) ch') :
    (∃ before o after, opts = before ++ o :: after ∧ (entry o).1 = ch ∧
      Given (arguments entry before) ch') ∨
    ∃ before o after, opts = before ++ o :: after ∧ (entry o).1 = ch' ∧
      Given (arguments entry before) ch := by
  obtain ⟨o, ho, rfl⟩ := given_iff.1 hch
  obtain ⟨o', ho', rfl⟩ := given_iff.1 hch'
  rcases before_or_before ho ho' (fun heq => hne (by rw [heq])) with
    ⟨before, after, h, hmem⟩ | ⟨before, after, h, hmem⟩
  · exact .inr ⟨before, o', after, h, rfl, given_iff.2 ⟨o, hmem, rfl⟩⟩
  · exact .inl ⟨before, o, after, h, rfl, given_iff.2 ⟨o', hmem, rfl⟩⟩

/-- The count is that of `-c` or `-C`, if their arguments are not zero. -/
theorem count_ne_zero_iff (hd : Distinct entry opts)
    (hvalid : ∀ o ∈ opts, (entry o).1 = 'c' ∨ (entry o).1 = 'C' → strtoul (entry o).2 ≠ 0) :
    numberOf ((arguments entry opts 'c').or (arguments entry opts 'C')) 0 ≠ 0 ↔
      Given (arguments entry opts) 'c' ∨ Given (arguments entry opts) 'C' := by
  have hnumber : ∀ ch, ch = 'c' ∨ ch = 'C' → Given (arguments entry opts) ch →
      numberOf (arguments entry opts ch) 0 ≠ 0 := by
    intro ch hch hgiven
    obtain ⟨o, ho, rfl⟩ := given_iff.1 hgiven
    rw [arguments_eq_some hd ho]
    exact hvalid o ho hch
  constructor
  · intro h
    by_contra hnot
    rw [not_or, Given, Given, not_not, not_not] at hnot
    exact h (by rw [hnot.1, hnot.2]; rfl)
  · intro h
    by_cases hc : Given (arguments entry opts) 'c'
    · obtain ⟨x, hx⟩ := Option.ne_none_iff_exists'.1 hc
      have hne := hnumber 'c' (.inl rfl) hc
      rwa [hx] at hne ⊢
    · rw [not_not.1 hc, Option.none_or]
      exact hnumber 'C' (.inr rfl) (h.resolve_left hc)

/-- Two options can be put first. -/
theorem exists_perm_pair (hne : ch ≠ ch') (hch : Given (arguments entry opts) ch)
    (hch' : Given (arguments entry opts) ch') :
    ∃ o o' rest, (o :: o' :: rest).Perm opts ∧ (entry o).1 = ch ∧ (entry o').1 = ch' := by
  obtain ⟨o, ho, rfl⟩ := given_iff.1 hch
  obtain ⟨o', ho', rfl⟩ := given_iff.1 hch'
  obtain ⟨before, after, rfl⟩ := List.append_of_mem ho
  have hmem : o' ∈ before ++ after := by
    have hne : o' ≠ o := fun heq => hne (by rw [heq])
    simpa [hne] using ho'
  obtain ⟨before', after', hopts⟩ := List.append_of_mem hmem
  refine ⟨o, o', before' ++ after', ?_, rfl, rfl⟩
  have hrest : (o' :: (before' ++ after')).Perm (before ++ after) := by
    rw [hopts]
    exact List.perm_middle.symm
  exact (hrest.cons o).trans List.perm_middle.symm

/-- An order that is not guarded: with an option that is not allowed right after the first. -/
theorem exists_perm_not_guarded {allows : List α → α → Prop} (hne : ch ≠ ch')
    (hch : Given (arguments entry opts) ch) (hch' : Given (arguments entry opts) ch')
    (hnot : ∀ o o', (entry o).1 = ch → (entry o').1 = ch' → Guarded allows [o] → ¬ allows [o] o') :
    ∃ opts', opts'.Perm opts ∧ ¬ Guarded allows opts' := by
  obtain ⟨o, o', rest, hperm, ho, ho'⟩ := exists_perm_pair hne hch hch'
  refine ⟨[o] ++ o' :: rest, hperm, ?_⟩
  intro h
  exact hnot o o' ho ho' h.left (h [o] o' rest rfl)

theorem given_singleton : Given (arguments entry [o]) ch ↔ (entry o).1 = ch := by
  rw [given_iff]
  simp

/-! ## Groups -/

theorem Given.apart {args : Char → Option CString} (hch : Given args ch) (h : ¬ Excluded groups args) :
    Apart groups args ch :=
  fun group hgroup hmem ch' hmem' hne hch' =>
    h ⟨group, hgroup, ch', hmem', ch, hmem, hne, hch', hch⟩

theorem Apart.not_given {args : Char → Option CString} (h : Apart groups args ch)
    (hgroup : ∃ group ∈ groups, ch ∈ group ∧ ch' ∈ group ∧ ch' ≠ ch) : ¬ Given args ch' := by
  obtain ⟨group, hgroup, hch, hch', hne⟩ := hgroup
  exact h group hgroup hch ch' hch' hne

/-- None of a group is given. -/
theorem Apart.group {args : Char → Option CString} {group : List Char} (h : Apart groups args ch)
    (hfresh : ¬ Given args ch) (hgroup : group ∈ groups) (hch : ch ∈ group) :
    ∀ ch' ∈ group, ¬ Given args ch' := by
  intro ch' hch'
  by_cases heq : ch' = ch
  · rwa [heq]
  · exact h group hgroup hch ch' hch' heq

theorem apart_of_not_excluded (hopts : opts = before ++ o :: after)
    (h : ¬ Excluded groups (arguments entry opts)) :
    Apart groups (arguments entry before) (entry o).1 := by
  intro group hgroup ho ch hch hne hgiven
  exact (given_middle hopts).apart h group hgroup ho ch hch hne (hgiven.of_before hopts)

/-- Of options that exclude each other, the second is not allowed. -/
theorem not_excluded_of_guarded {allows : List α → α → Prop} (h : Guarded allows opts)
    (hallows : ∀ before o, allows before o → Apart groups (arguments entry before) (entry o).1) :
    ¬ Excluded groups (arguments entry opts) := by
  rintro ⟨group, hgroup, ch, hch, ch', hch', hne, hgiven, hgiven'⟩
  rcases given_before_or hne hgiven hgiven' with
    ⟨before, o, after, hopts, rfl, hbefore⟩ | ⟨before, o, after, hopts, rfl, hbefore⟩
  · exact hallows _ _ (h before o after hopts) group hgroup hch ch' hch' (Ne.symm hne) hbefore
  · exact hallows _ _ (h before o after hopts) group hgroup hch' ch hch hne hbefore

/-! ## Tables -/

section
variable {β : Type} {table : List (Char × β)} {args : Char → Option CString} {b : β}

theorem firstGiven_eq_none : firstGiven table args = none ↔ ∀ row ∈ table, ¬ Given args row.1 := by
  simp [firstGiven]

theorem mem_of_firstGiven (h : firstGiven table args = some b) :
    ∃ ch, (ch, b) ∈ table ∧ Given args ch := by
  obtain ⟨row, hrow, rfl⟩ := Option.map_eq_some_iff.1 h
  exact ⟨row.1, List.mem_of_find?_eq_some hrow, by simpa using List.find?_some hrow⟩

/-- The only option of the table that is given. -/
theorem firstGiven_eq_some (hkeys : (table.map (·.1)).Nodup) (hmem : (ch, b) ∈ table)
    (hch : Given args ch) (hother : ∀ row ∈ table, row.1 ≠ ch → ¬ Given args row.1) :
    firstGiven table args = some b := by
  cases h : firstGiven table args with
  | none => exact absurd hch (firstGiven_eq_none.1 h _ hmem)
  | some b' =>
    obtain ⟨ch', hmem', hch'⟩ := mem_of_firstGiven h
    obtain rfl : ch' = ch := by
      by_contra hne
      exact hother _ hmem' hne hch'
    have hrow := List.inj_on_of_nodup_map hkeys hmem' hmem rfl
    rw [(Prod.mk.inj hrow).2]

/-- The options of the table exclude each other, and one of them is given. -/
theorem Given.firstGiven {group : List Char} (hch : Given args ch) (hgroups : ¬ Excluded groups args)
    (hgroup : group ∈ groups) (htable : ∀ row ∈ table, row.1 ∈ group)
    (hkeys : (table.map (·.1)).Nodup) (hmem : (ch, b) ∈ table) : firstGiven table args = some b :=
  firstGiven_eq_some hkeys hmem hch fun row hrow hne =>
    hch.apart hgroups group hgroup (htable _ hmem) row.1 (htable row hrow) hne

theorem firstGiven_update_of_ne {x : CString} (h : ∀ row ∈ table, row.1 ≠ ch) :
    firstGiven table (Function.update args ch (some x)) = firstGiven table args := by
  rw [firstGiven, firstGiven, List.find?_congr]
  intro row hrow
  rw [decide_eq_decide, given_update, or_iff_right (h row hrow)]

/-- An option of the table, after none of them. -/
theorem firstGiven_update {x : CString} (hkeys : (table.map (·.1)).Nodup) (hmem : (ch, b) ∈ table)
    (hnone : ∀ row ∈ table, ¬ Given args row.1) :
    firstGiven table (Function.update args ch (some x)) = some b := by
  refine firstGiven_eq_some hkeys hmem (given_update.2 (.inl rfl)) ?_
  intro row hrow hne
  rw [given_update, or_iff_right hne]
  exact hnone row hrow

end

/-! ## Reading -/

theorem readOptions_concat :
    readOptions option (opts ++ [o]) s = readOptions option opts s >>= option o := by
  induction opts generalizing s with
  | nil =>
    show (option o s >>= fun t => .ok t) = option o s
    cases option o s with
    | error e => rfl
    | ok t => rfl
  | cons o' opts ih =>
    simp only [List.cons_append, readOptions]
    cases option o' s with
    | error e => rfl
    | ok t => exact ih

/-- **Reading a list of options**: when each is allowed after those before it, they make the settings. -/
theorem readOptions_guarded {allows : List α → α → Prop} {settings : List α → σ}
    (hok : ∀ done o, Distinct entry (done ++ [o]) → Guarded allows done → allows done o →
      option o (settings done) = .ok (settings (done ++ [o])))
    (herror : ∀ done o, Distinct entry (done ++ [o]) → Guarded allows done → ¬ allows done o →
      ∃ e, option o (settings done) = .error e)
    (hopts : Distinct entry opts) :
    (Guarded allows opts → readOptions option opts (settings []) = .ok (settings opts)) ∧
      (¬ Guarded allows opts → ∃ e, readOptions option opts (settings []) = .error e) := by
  induction opts using List.reverseRecOn with
  | nil => exact ⟨fun _ => rfl, fun h => absurd guarded_nil h⟩
  | append_singleton opts o ih =>
    obtain ⟨ihok, iherror⟩ := ih hopts.fresh.1
    rw [readOptions_concat]
    constructor
    · intro h
      obtain ⟨hguarded, ho⟩ := guarded_concat.1 h
      rw [ihok hguarded]
      exact hok opts o hopts hguarded ho
    · intro h
      by_cases hguarded : Guarded allows opts
      · rw [ihok hguarded]
        exact herror opts o hopts hguarded fun ho => h (guarded_concat.2 ⟨hguarded, ho⟩)
      · obtain ⟨e, he⟩ := iherror hguarded
        rw [he]
        exact ⟨e, rfl⟩

/-- The options are accepted in every order or in none, unless there are two orders that differ. -/
theorem orderFree_iff {never ordered : Prop}
    (hnever : never → ∀ opts', opts'.Perm opts → (parse opts').toOption = none)
    (hfree : ¬ never → ¬ ordered → ∃ s, ∀ opts', opts'.Perm opts → (parse opts').toOption = some s)
    (hne : ¬ never → ordered → ∃ opts₁ opts₂, opts₁.Perm opts ∧ opts₂.Perm opts ∧
      (parse opts₁).toOption ≠ (parse opts₂).toOption) :
    OrderFree parse opts ↔ never ∨ ¬ ordered := by
  constructor
  · intro h
    by_contra hnot
    rw [not_or, not_not] at hnot
    obtain ⟨opts₁, opts₂, hperm₁, hperm₂, hdiff⟩ := hne hnot.1 hnot.2
    exact hdiff ((h opts₁ hperm₁).trans (h opts₂ hperm₂).symm)
  · intro h opts' hperm
    by_cases hn : never
    · rw [hnever hn opts' hperm, hnever hn opts (.refl _)]
    · obtain ⟨s, hs⟩ := hfree hn (h.resolve_left hn)
      rw [hs opts' hperm, hs opts (.refl _)]

end

end NFStash
