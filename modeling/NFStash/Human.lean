/-
  `human.c`: sizes in decimal.

  `prefixPrintBuf` is `prefix_print` on the buffer of its callers.  It leaves the string there that
  `prefixPrint` stands for (`prefixPrintBuf_ok`), and that string is what it is meant to be
  (`PrefixText`).  In `human` mode the number has five digits for some sizes just below ten of the
  next unit: `humanFits_iff`.
-/
import NFStash.Lib.Buffers
import NFStash.Df

namespace NFStash

open CLib Buffers

/-! ## Model -/

/-- `prefix_width`. -/
def BytePrefix.width : BytePrefix → ℕ
  | .human => 5
  | .byte => 20
  | .kilo => 17
  | .mega => 14
  | .giga => 11
  | .tera => 8

/-- `max_prefix_width`: the size of the buffers of the callers. -/
def maxPrefixWidth : ℕ := 25

/-- `%lu`. -/
def decimalText (n : ℕ) : CString := (toString n).toList

/-- The search for the best unit, from `shifted_prefix = 10 * k`: `shifted_prefix` and `shifted` at its
    end, where the first may have run past the smallest unit. -/
def prefixSearch (input : UInt64) : ℕ → ℤ × ℕ
  | 0 =>
    let shifted := input.toNat >>> 0
    (if shifted ≠ 0 ∧ 10 ≤ shifted then 0 else -10, shifted)
  | k + 1 =>
    let shifted := input.toNat >>> (10 * (k + 1))
    if shifted ≠ 0 ∧ 10 ≤ shifted then ((10 * (k + 1) : ℕ), shifted) else prefixSearch input k

/-- The variables of `prefix_print`. -/
structure PrefixState where
  index : ℕ := 0
  output : Buffer
  shifted : ℕ
  shiftedPrefix : ℤ

/-- `prefix_print`, up to the number. -/
def prefixShift (input : UInt64) (output : Buffer) (bytePrefix : BytePrefix) : Option PrefixState :=
  if 0 < input then
    if bytePrefix = .human then
      let (shiftedPrefix, shifted) := prefixSearch input 6
      some { output, shifted, shiftedPrefix }
    else do
      let shifted := input.toNat >>> bytePrefix.shift
      if 0 < input ∧ shifted = 0 then
        let output ← store output 0 ['>']
        some { index := 1, output, shifted, shiftedPrefix := bytePrefix.shift }
      else some { output, shifted, shiftedPrefix := bytePrefix.shift }
  else some { output, shifted := input.toNat, shiftedPrefix := bytePrefix.shift }

/-- `prefix_print`: what it returns, and the buffer; `none` if it writes outside. -/
def prefixPrintBuf (input : UInt64) (output : Buffer) (bytePrefix : BytePrefix) :
    Option (ℕ × Buffer) := do
  let s ← prefixShift input output bytePrefix
  let (n, output) ← snprintf s.output s.index (bytePrefix.width + 1) (decimalText s.shifted)
  let index := s.index + n
  let output ← if 0 < input ∧ bytePrefix = .human ∧ 0 < s.shiftedPrefix then
      store output index (prefixLabel s.shiftedPrefix.toNat)
    else some output
  let output ← store output (index + 1) [NUL]
  some (index + 1, output)

/-- `width` in `print_df`, the column for a size. -/
def BytePrefix.column (bytePrefix : BytePrefix) : ℕ :=
  if bytePrefix = .human then bytePrefix.width + 1 + 2 else bytePrefix.width + 1

/-! ## Decimal numbers -/

section
variable {n k : ℕ}

theorem decimalText_eq (n : ℕ) : decimalText n = Nat.toDigits 10 n := by
  show (String.ofList (Nat.toDigits 10 n)).toList = _
  exact String.toList_ofList

theorem decimalText_length_le_iff (h : 0 < k) : (decimalText n).length ≤ k ↔ n < 10 ^ k := by
  rw [decimalText_eq]
  exact Nat.length_toDigits_le_iff (by decide) h

theorem decimalText_isDigit {c : Char} (h : c ∈ decimalText n) : c.isDigit = true := by
  rw [decimalText_eq] at h
  exact Nat.isDigit_of_mem_toDigits (by decide) (by decide) h

theorem decimalText_no_nul : NUL ∉ decimalText n := by
  intro h
  exact absurd (decimalText_isDigit h) (by decide)

end

/-! ## The search for a unit -/

/-- The units above bytes. -/
def largeUnits : List ℕ := [10, 20, 30, 40, 50, 60]

/-- The largest unit of which there are ten, or bytes. -/
structure HumanUnit (input : UInt64) (q : ℕ) : Prop where
  isUnit : q ∈ 0 :: largeUnits
  ten : q ∈ largeUnits → 10 ≤ input.toNat / 2 ^ q
  largest : ∀ q' ∈ largeUnits, q < q' → input.toNat / 2 ^ q' < 10

section
variable {input : UInt64} {q q' : ℕ}

/-- There is one such unit. -/
theorem HumanUnit.unique (h : HumanUnit input q) (h' : HumanUnit input q') : q = q' := by
  have hpos {r r' : ℕ} (hr : r ∈ 0 :: largeUnits) (hlt : r' < r) : r ∈ largeUnits := by
    rcases List.mem_cons.1 hr with rfl | hr
    · omega
    · exact hr
  rcases Nat.lt_trichotomy q q' with hlt | heq | hlt
  · have hq' := hpos h'.isUnit hlt
    exact absurd (h'.ten hq') (Nat.not_le.2 (h.largest q' hq' hlt))
  · exact heq
  · have hq := hpos h.isUnit hlt
    exact absurd (h.ten hq) (Nat.not_le.2 (h'.largest q hq hlt))

theorem prefixSearch_zero (input : UInt64) :
    prefixSearch input 0 = (if 10 ≤ input.toNat then 0 else -10, input.toNat) := by
  unfold prefixSearch
  refine congrArg (·, input.toNat) (if_congr ?_ rfl rfl)
  show input.toNat ≠ 0 ∧ 10 ≤ input.toNat ↔ _
  omega

theorem prefixSearch_succ (input : UInt64) (k : ℕ) : prefixSearch input (k + 1) =
    if 10 ≤ input.toNat / 2 ^ (10 * (k + 1)) then
      (((10 * (k + 1) : ℕ) : ℤ), input.toNat / 2 ^ (10 * (k + 1)))
    else prefixSearch input k := by
  rw [← Nat.shiftRight_eq_div_pow]
  exact if_congr (by omega) rfl rfl

variable (input) in
/-- What the search finds. -/
theorem prefixSearch_spec (k : ℕ) :
    (∃ j ≤ k, prefixSearch input k = (((10 * j : ℕ) : ℤ), input.toNat / 2 ^ (10 * j)) ∧
      10 ≤ input.toNat / 2 ^ (10 * j) ∧ ∀ i ≤ k, j < i → input.toNat / 2 ^ (10 * i) < 10) ∨
    (prefixSearch input k = (-10, input.toNat) ∧ ∀ i ≤ k, input.toNat / 2 ^ (10 * i) < 10) := by
  induction k with
  | zero =>
    rw [prefixSearch_zero]
    by_cases h : 10 ≤ input.toNat
    · exact .inl ⟨0, le_rfl, by simp [h], by simpa using h, fun i hi hlt => by omega⟩
    · exact .inr ⟨by simp [h], fun i hi => by simpa [Nat.le_zero.1 hi] using h⟩
  | succ k ih =>
    rw [prefixSearch_succ]
    by_cases h : 10 ≤ input.toNat / 2 ^ (10 * (k + 1))
    · rw [if_pos h]
      exact .inl ⟨k + 1, le_rfl, rfl, h, fun i hi hlt => by omega⟩
    · rw [if_neg h]
      have hlast {P : ℕ → Prop} (hk : ∀ i ≤ k, P i) (h1 : P (k + 1)) : ∀ i ≤ k + 1, P i := by
        intro i hi
        rcases Nat.lt_or_eq_of_le hi with hlt | rfl
        · exact hk i (by omega)
        · exact h1
      rcases ih with ⟨j, hj, hs, hten, hmax⟩ | ⟨hs, hmax⟩
      · exact .inl ⟨j, by omega, hs, hten, hlast hmax fun _ => by omega⟩
      · exact .inr ⟨hs, hlast hmax (by omega)⟩

/-- **The search finds the unit**; if there are not ten bytes, it runs past them. -/
theorem prefixSearch_unit (input : UInt64) : ∃ q, HumanUnit input q ∧
    (prefixSearch input 6).2 = input.toNat / 2 ^ q ∧
    ((prefixSearch input 6).1 = q ∨ q = 0 ∧ (prefixSearch input 6).1 = -10) := by
  have hunit : ∀ j ≤ 6, 10 * j ∈ 0 :: largeUnits := by decide
  have hlarge : ∀ q ∈ largeUnits, 10 * (q / 10) = q ∧ q / 10 ≤ 6 := by decide
  rcases prefixSearch_spec input 6 with ⟨j, hj, hs, hten, hmax⟩ | ⟨hs, hmax⟩
  · refine ⟨10 * j, ⟨hunit j hj, fun _ => hten, ?_⟩, by rw [hs], .inl (by rw [hs])⟩
    intro q hq hlt
    obtain ⟨hq, hle⟩ := hlarge q hq
    rw [← hq]
    exact hmax _ hle (by omega)
  · refine ⟨0, ⟨List.mem_cons_self, fun h0 => absurd h0 (by decide), ?_⟩, by rw [hs]; simp,
      .inr ⟨rfl, by rw [hs]⟩⟩
    intro q hq _
    obtain ⟨hq, hle⟩ := hlarge q hq
    rw [← hq]
    exact hmax _ hle

/-- The same unit is found by looking for the first that fits. -/
theorem bestPrefix_unit (h : HumanUnit input q) : (bestPrefix input).getD 0 = q := by
  refine HumanUnit.unique ?_ h
  have hlist : ∀ r ∈ 0 :: largeUnits, r ∈ [60, 50, 40, 30, 20, 10, 0] := by decide
  cases hb : bestPrefix input with
  | none =>
    refine ⟨List.mem_cons_self, fun h0 => absurd h0 (by decide), ?_⟩
    intro r hr _
    have hall := List.find?_eq_none.1 hb r (hlist r (List.mem_cons_of_mem _ hr))
    simpa [Nat.shiftRight_eq_div_pow] using hall
  | some r =>
    obtain ⟨hten, as, bs, hsplit, has⟩ := List.find?_eq_some_iff_append.1 hb
    have hmem : ∀ r ∈ [60, 50, 40, 30, 20, 10, 0], r ∈ 0 :: largeUnits := by decide
    have hsorted : [60, 50, 40, 30, 20, 10, 0].Pairwise (· > ·) := by decide
    rw [hsplit] at hmem hlist hsorted
    refine ⟨hmem r (by simp), fun _ => by simpa [Nat.shiftRight_eq_div_pow] using hten, ?_⟩
    intro r' hr' hlt
    -- a larger unit has been looked at before
    rcases List.mem_append.1 (hlist r' (List.mem_cons_of_mem _ hr')) with ha | hb
    · simpa [Nat.shiftRight_eq_div_pow] using has r' ha
    · obtain ⟨-, hsorted, -⟩ := List.pairwise_append.1 hsorted
      rcases List.mem_cons.1 hb with rfl | hb
      · exact absurd hlt (Nat.lt_irrefl _)
      · exact absurd ((List.pairwise_cons.1 hsorted).1 r' hb) (Nat.lt_asymm hlt)

end

/-! ## The string -/

/-- What is printed for a size. -/
def PrefixText (input : UInt64) (text : CString) : BytePrefix → Prop
  | .human => ∃ q, HumanUnit input q ∧
      text = decimalText (input.toNat / 2 ^ q) ++ if q = 0 then [] else prefixLabel q
  | bytePrefix =>
    text = if input ≠ 0 ∧ input.toNat / 2 ^ bytePrefix.shift = 0 then ['>', '0']
      else decimalText (input.toNat / 2 ^ bytePrefix.shift)

section
variable {input : UInt64} {bytePrefix : BytePrefix}

/-- A number in a unit of its own fits the column for it. -/
theorem shift_lt (h : bytePrefix ≠ .human) :
    input.toNat / 2 ^ bytePrefix.shift < 10 ^ bytePrefix.width := by
  have hlt := input.toNat_lt
  cases bytePrefix with
  | human => exact absurd rfl h
  | _ =>
    simp only [BytePrefix.shift, BytePrefix.width]
    omega

/-- There are fewer than ten of the next unit. -/
theorem HumanUnit.lt {q : ℕ} (h : HumanUnit input q) : input.toNat / 2 ^ q < 10240 := by
  have hnext : ∀ q ∈ 0 :: largeUnits, q = 60 ∨ q + 10 ∈ largeUnits := by decide
  rcases hnext q h.isUnit with rfl | hq
  · have hlt := input.toNat_lt
    omega
  · have hten := h.largest (q + 10) hq (by omega)
    rw [pow_add, ← Nat.div_div_eq_div_mul] at hten
    omega

/-- What is known before the number is printed. -/
structure PrefixReady (input : UInt64) (bytePrefix : BytePrefix) (s : PrefixState) (m : CString)
    (rest : Buffer) : Prop where
  output : s.output = m.map some ++ rest
  index : s.index = m.length
  fits : (decimalText s.shifted).length ≤ bytePrefix.width
  room : (decimalText s.shifted).length + 2 ≤ rest.length
  noNul : NUL ∉ m
  label : 0 < input ∧ bytePrefix = .human ∧ 0 < s.shiftedPrefix →
    (prefixLabel s.shiftedPrefix.toNat).length = 1 ∧ NUL ∉ prefixLabel s.shiftedPrefix.toNat
  text : PrefixText input (m ++ decimalText s.shifted ++
    if 0 < input ∧ bytePrefix = .human ∧ 0 < s.shiftedPrefix then
      prefixLabel s.shiftedPrefix.toNat else []) bytePrefix

/-- The number, the label and the terminators are written. -/
theorem prefixPrintBuf_of_shift {output rest : Buffer} {s : PrefixState} {m : CString}
    (hs : prefixShift input output bytePrefix = some s) (hr : PrefixReady input bytePrefix s m rest) :
    ∃ index buf, prefixPrintBuf input output bytePrefix = some (index, buf) ∧
      string buf = some (m ++ decimalText s.shifted ++
        if 0 < input ∧ bytePrefix = .human ∧ 0 < s.shiftedPrefix then
          prefixLabel s.shiftedPrefix.toNat else []) := by
  have hprint := snprintf_next m (Nat.lt_succ_of_le hr.fits) (Nat.lt_of_succ_lt hr.room)
  have hroom := hr.room
  have hend : NUL ∉ m ++ decimalText s.shifted :=
    fun h => (List.mem_append.1 h).elim hr.noNul decimalText_no_nul
  have hrest : 0 < (rest.drop ((decimalText s.shifted).length + 1)).length := by
    rw [List.length_drop]
    omega
  unfold prefixPrintBuf
  rw [hs]
  simp only [bind, Option.bind, hr.output, hr.index, hprint]
  have hindex : m.length + (decimalText s.shifted).length = (m ++ decimalText s.shifted).length :=
    List.length_append.symm
  rw [hindex]
  generalize m ++ decimalText s.shifted = cs at hend ⊢
  generalize rest.drop ((decimalText s.shifted).length + 1) = rest' at hrest ⊢
  split_ifs with hlabel
  · -- the label replaces the terminator
    obtain ⟨hlen, hnul⟩ := hr.label hlabel
    have hlast := store_next (cs ++ prefixLabel s.shiftedPrefix.toNat) [NUL] hrest
    rw [List.length_append, hlen] at hlast
    rw [store_over hlen]
    simp only [hlast]
    refine ⟨_, _, rfl, ?_⟩
    rw [List.map_append, List.append_assoc]
    exact string_terminated fun h => (List.mem_append.1 h).elim hend hnul
  · have hlast := store_next (cs ++ [NUL]) [NUL] hrest
    rw [List.length_append, List.length_singleton] at hlast
    simp only [hlast]
    refine ⟨_, _, rfl, ?_⟩
    rw [List.append_nil, List.append_assoc cs, List.map_append, List.append_assoc]
    exact string_terminated hend

theorem prefixText_unit {text : CString} (h : bytePrefix ≠ .human) : PrefixText input text bytePrefix ↔
    text = if input ≠ 0 ∧ input.toNat / 2 ^ bytePrefix.shift = 0 then ['>', '0']
      else decimalText (input.toNat / 2 ^ bytePrefix.shift) := by
  cases bytePrefix with
  | human => exact absurd rfl h
  | _ => rfl

theorem prefixShift_zero (output : Buffer) (hlen : output.length = maxPrefixWidth) :
    ∃ s m rest, prefixShift 0 output bytePrefix = some s ∧ PrefixReady 0 bytePrefix s m rest := by
  have hdigits : (decimalText 0).length = 1 := by decide
  refine ⟨_, [], output, rfl, rfl, rfl, ?_, ?_, by decide, fun h => absurd h.1 (by decide), ?_⟩
  · rw [UInt64.toNat_zero, hdigits]
    cases bytePrefix <;> decide
  · rw [UInt64.toNat_zero, hdigits, hlen]
    decide
  · rw [if_neg fun h => absurd h.1 (by decide), List.nil_append, List.append_nil]
    by_cases hb : bytePrefix = .human
    · subst hb
      refine ⟨0, ⟨List.mem_cons_self, fun h0 => absurd h0 (by decide), fun _ _ _ => ?_⟩, ?_⟩
      · rw [UInt64.toNat_zero, Nat.zero_div]
        decide
      · simp
    · rw [prefixText_unit hb, if_neg fun h => h.1 rfl, UInt64.toNat_zero, Nat.zero_div]

theorem prefixShift_human (hpos : 0 < input) (output : Buffer) (hlen : output.length = maxPrefixWidth) :
    ∃ s m rest, prefixShift input output .human = some s ∧ PrefixReady input .human s m rest := by
  obtain ⟨q, hq, hshifted, hprefix⟩ := prefixSearch_unit input
  have hdigits : (decimalText (input.toNat / 2 ^ q)).length ≤ 5 := by
    rw [decimalText_length_le_iff (by decide)]
    exact hq.lt.trans (by decide)
  have hlabels : ∀ q ∈ largeUnits, (prefixLabel q).length = 1 ∧ NUL ∉ prefixLabel q := by decide
  -- the prefix is positive iff there is a unit above bytes
  have hlarge : 0 < (prefixSearch input 6).1 →
      q ∈ largeUnits ∧ (prefixSearch input 6).1.toNat = q := by
    intro hsp
    rcases hprefix with h | ⟨-, h⟩
    · refine ⟨(List.mem_cons.1 hq.isUnit).resolve_left fun h0 => ?_, by rw [h, Int.toNat_natCast]⟩
      rw [h, h0] at hsp
      exact absurd hsp (by decide)
    · rw [h] at hsp
      exact absurd hsp (by decide)
  have hbytes : ¬ 0 < (prefixSearch input 6).1 → q = 0 := by
    intro hsp
    rcases hprefix with h | ⟨h0, -⟩
    · rw [h] at hsp
      omega
    · exact h0
  refine ⟨_, [], output, by rw [prefixShift, if_pos hpos, if_pos rfl], rfl, rfl, ?_, ?_, by decide,
    ?_, ?_⟩
  · rwa [hshifted]
  · rw [hshifted, hlen]
    exact Nat.add_le_add_right (hdigits.trans (by decide : 5 ≤ 23)) 2
  · rintro ⟨-, -, hsp⟩
    obtain ⟨hmem, htoNat⟩ := hlarge hsp
    rw [htoNat]
    exact hlabels q hmem
  · refine ⟨q, hq, ?_⟩
    rw [hshifted, List.nil_append]
    refine congrArg (decimalText _ ++ ·) ?_
    by_cases hsp : 0 < (prefixSearch input 6).1
    · obtain ⟨hmem, htoNat⟩ := hlarge hsp
      rw [if_pos ⟨hpos, rfl, hsp⟩, htoNat, if_neg]
      rintro rfl
      exact absurd hmem (by decide)
    · rw [if_neg fun h => hsp h.2.2, if_pos (hbytes hsp)]

theorem prefixShift_unit (hpos : 0 < input) (hb : bytePrefix ≠ .human) (output : Buffer)
    (hlen : output.length = maxPrefixWidth) : ∃ s m rest,
      prefixShift input output bytePrefix = some s ∧ PrefixReady input bytePrefix s m rest := by
  have hne : input ≠ 0 := by
    rintro rfl
    exact absurd hpos (by decide)
  have hwidth : 0 < bytePrefix.width ∧ bytePrefix.width + 2 ≤ 24 := by
    cases bytePrefix <;> decide
  have hdigits : (decimalText (input.toNat / 2 ^ bytePrefix.shift)).length ≤ bytePrefix.width := by
    rw [decimalText_length_le_iff hwidth.1]
    exact shift_lt hb
  rw [← Nat.shiftRight_eq_div_pow] at hdigits
  rw [maxPrefixWidth] at hlen
  by_cases hzero : input.toNat >>> bytePrefix.shift = 0
  · have hroom : ['>'].length ≤ output.length := by simp [hlen]
    have hmark := store_next [] ['>'] hroom
    refine ⟨⟨1, (['>'].map some ++ output.drop 1), input.toNat >>> bytePrefix.shift, bytePrefix.shift⟩,
      ['>'], output.drop 1, ?_, rfl, rfl, hdigits, ?_, by decide, fun h => absurd h.2.1 hb, ?_⟩
    · rw [prefixShift, if_pos hpos, if_neg hb]
      simp only [hpos, hzero, true_and, if_true]
      exact congrArg (fun o => Option.bind o fun buf => some (PrefixState.mk 1 buf 0 bytePrefix.shift))
        hmark
    · rw [List.length_drop, hlen]
      exact (Nat.add_le_add_right hdigits 2).trans hwidth.2
    · rw [if_neg fun h => hb h.2.1, List.append_nil, prefixText_unit hb,
        if_pos ⟨hne, by rw [← Nat.shiftRight_eq_div_pow, hzero]⟩, hzero]
      show ['>'] ++ decimalText 0 = _
      decide
  · refine ⟨⟨0, output, input.toNat >>> bytePrefix.shift, bytePrefix.shift⟩, [], output, ?_, rfl, rfl,
      hdigits, ?_, by decide, fun h => absurd h.2.1 hb, ?_⟩
    · rw [prefixShift, if_pos hpos, if_neg hb]
      simp only [hpos, hzero, true_and, if_false]
    · rw [hlen]
      exact Nat.add_le_add_right (hdigits.trans (by omega)) 2
    · rw [if_neg fun h => hb h.2.1, List.append_nil, List.nil_append, prefixText_unit hb,
        if_neg fun h => hzero ?_, Nat.shiftRight_eq_div_pow]
      rw [Nat.shiftRight_eq_div_pow]
      exact h.2

/-- The number is ready to be printed. -/
theorem prefixShift_ok (input : UInt64) (bytePrefix : BytePrefix) {output : Buffer}
    (hlen : output.length = maxPrefixWidth) : ∃ s m rest,
      prefixShift input output bytePrefix = some s ∧ PrefixReady input bytePrefix s m rest := by
  by_cases hpos : 0 < input
  · by_cases hb : bytePrefix = .human
    · subst hb
      exact prefixShift_human hpos output hlen
    · exact prefixShift_unit hpos hb output hlen
  · obtain rfl : input = 0 := UInt64.le_zero_iff.1 (UInt64.not_lt.1 hpos)
    exact prefixShift_zero output hlen

/-- The string fits its column. -/
theorem PrefixText.length_le {text : CString} (h : PrefixText input text bytePrefix) :
    text.length ≤ bytePrefix.column := by
  by_cases hb : bytePrefix = .human
  · subst hb
    obtain ⟨q, hq, rfl⟩ := h
    have hdigits : (decimalText (input.toNat / 2 ^ q)).length ≤ 5 := by
      rw [decimalText_length_le_iff (by decide)]
      exact hq.lt.trans (by decide)
    have hlabel : ∀ q ∈ 0 :: largeUnits, (if q = 0 then [] else prefixLabel q).length ≤ 1 := by decide
    rw [List.length_append]
    exact (Nat.add_le_add hdigits (hlabel q hq.isUnit)).trans (by decide)
  · rw [prefixText_unit hb] at h
    have hwidth : 0 < bytePrefix.width := by
      cases bytePrefix <;> decide
    rw [BytePrefix.column, if_neg hb, h]
    split_ifs
    · exact Nat.succ_le_succ hwidth
    · exact ((decimalText_length_le_iff hwidth).2 (shift_lt hb)).trans (Nat.le_succ _)

/-- There is one such string. -/
theorem PrefixText.unique {text text' : CString} (h : PrefixText input text bytePrefix)
    (h' : PrefixText input text' bytePrefix) : text = text' := by
  by_cases hb : bytePrefix = .human
  · subst hb
    obtain ⟨q, hq, rfl⟩ := h
    obtain ⟨q', hq', rfl⟩ := h'
    rw [hq.unique hq']
  · rw [prefixText_unit hb] at h h'
    rw [h, h']

/-- The string of the model of `nfsdf`. -/
theorem prefixPrint_text (input : UInt64) (bytePrefix : BytePrefix) :
    PrefixText input (prefixPrint input bytePrefix) bytePrefix := by
  by_cases hb : bytePrefix = .human
  · subst hb
    obtain ⟨q, hq, -⟩ := prefixSearch_unit input
    refine ⟨q, hq, ?_⟩
    rw [prefixPrint, if_pos rfl]
    simp only [bestPrefix_unit hq, Nat.shiftRight_eq_div_pow]
    refine congrArg (decimalText _ ++ ·) ?_
    split_ifs with h0
    · rw [h0]
      rfl
    · rfl
  · rw [prefixText_unit hb, prefixPrint, if_neg hb]
    simp only [Nat.shiftRight_eq_div_pow]
    split_ifs with h
    · rw [h.2]
      decide
    · rfl

end

/-- **`prefix_print`.**  In a buffer of its callers' size, for every size and prefix: nothing is written
    outside, the number is not cut, and the string is what it should be and fits its column. -/
theorem prefixPrintBuf_ok (input : UInt64) (bytePrefix : BytePrefix) (output : Buffer)
    (hlen : output.length = maxPrefixWidth) : ∃ s index buf,
      prefixShift input output bytePrefix = some s ∧
        (decimalText s.shifted).length < bytePrefix.width + 1 ∧
      prefixPrintBuf input output bytePrefix = some (index, buf) ∧
        string buf = some (prefixPrint input bytePrefix) ∧
      PrefixText input (prefixPrint input bytePrefix) bytePrefix ∧
        (prefixPrint input bytePrefix).length ≤ bytePrefix.column := by
  have htext := prefixPrint_text input bytePrefix
  obtain ⟨s, m, rest, hs, hr⟩ := prefixShift_ok input bytePrefix hlen
  obtain ⟨index, buf, hbuf, hstring⟩ := prefixPrintBuf_of_shift hs hr
  rw [hr.text.unique htext] at hstring
  exact ⟨s, index, buf, hs, Nat.lt_succ_of_le hr.fits, hbuf, hstring, htext, htext.length_le⟩

/-- 100 bytes in kilobytes, in an array that has not been written. -/
theorem prefixPrintBuf_ok_marked : ∃ s index buf,
    prefixShift 100 (fresh 25) .kilo = some s ∧ (decimalText s.shifted).length < 17 + 1 ∧
      prefixPrintBuf 100 (fresh 25) .kilo = some (index, buf) ∧
        string buf = some (prefixPrint 100 .kilo) ∧
      PrefixText 100 (prefixPrint 100 .kilo) .kilo ∧ (prefixPrint 100 .kilo).length ≤ 18 :=
  prefixPrintBuf_ok 100 .kilo (fresh 25) (fresh_length 25)

/-! ## Four digits -/

/-- The number has at most four digits, and only one if there are fewer than ten bytes; with its label
    it has the width that is meant for it. -/
def HumanFits (input : UInt64) : Prop :=
  ∃ q, HumanUnit input q ∧
    prefixPrint input .human =
      decimalText (input.toNat / 2 ^ q) ++ (if q = 0 then [] else prefixLabel q) ∧
    (decimalText (input.toNat / 2 ^ q)).length ≤ 4 ∧
    ((decimalText (input.toNat / 2 ^ q)).length = 1 → input.toNat < 10) ∧
    (prefixPrint input .human).length ≤ BytePrefix.width .human

/-- There are ten thousand of a unit, but not ten of the next. -/
def FiveDigits (input : UInt64) (q : ℕ) : Prop :=
  10000 * 2 ^ q ≤ input.toNat ∧ input.toNat < 10240 * 2 ^ q

theorem FiveDigits.unit {input : UInt64} {q : ℕ} (h : FiveDigits input q) (hq : q ∈ 0 :: largeUnits) :
    HumanUnit input q ∧ 10000 ≤ input.toNat / 2 ^ q := by
  have hle : 10000 ≤ input.toNat / 2 ^ q := (Nat.le_div_iff_mul_le (by positivity)).2 h.1
  have hnext : ∀ q ∈ 0 :: largeUnits, ∀ q' ∈ largeUnits, q < q' → q + 10 ≤ q' := by decide
  refine ⟨⟨hq, fun _ => by omega, ?_⟩, hle⟩
  intro q' hq' hlt
  have hpow : 2 ^ (q + 10) ≤ 2 ^ q' := Nat.pow_le_pow_right (by decide) (hnext q hq q' hq' hlt)
  rw [Nat.div_lt_iff_lt_mul (by positivity)]
  calc input.toNat < 10240 * 2 ^ q := h.2
    _ = 10 * 2 ^ (q + 10) := by ring
    _ ≤ 10 * 2 ^ q' := Nat.mul_le_mul_left 10 hpow

/-- **When the number has four digits**: unless there are from ten thousand to less than 10240 of a
    unit. -/
theorem humanFits_iff (input : UInt64) :
    HumanFits input ↔ ∀ q ∈ 0 :: largeUnits, ¬ FiveDigits input q := by
  constructor
  · rintro ⟨q, hunit, -, hdigits, -, -⟩ q' hq' hfive
    obtain ⟨hunit', hle⟩ := hfive.unit hq'
    rw [decimalText_length_le_iff (by decide), hunit.unique hunit'] at hdigits
    omega
  · intro h
    obtain ⟨q, hunit, htext⟩ := prefixPrint_text input .human
    have hlt : input.toNat < 10240 * 2 ^ q := (Nat.div_lt_iff_lt_mul (by positivity)).1 hunit.lt
    have hdigits : (decimalText (input.toNat / 2 ^ q)).length ≤ 4 := by
      rw [decimalText_length_le_iff (by decide), Nat.div_lt_iff_lt_mul (by positivity)]
      exact Nat.lt_of_not_le fun hle => h q hunit.isUnit ⟨hle, hlt⟩
    have hlabel : ∀ q ∈ 0 :: largeUnits, (if q = 0 then [] else prefixLabel q).length ≤ 1 := by decide
    refine ⟨q, hunit, htext, hdigits, ?_, ?_⟩
    · intro hone
      have hten : input.toNat / 2 ^ q < 10 ^ 1 := (decimalText_length_le_iff (by decide)).1 hone.le
      rcases List.mem_cons.1 hunit.isUnit with rfl | hq
      · simpa using hten
      · exact absurd (hunit.ten hq) (Nat.not_le.2 hten)
    · rw [htext, List.length_append]
      exact Nat.add_le_add hdigits (hlabel q hunit.isUnit)

/-- Ten thousand kilobytes. -/
theorem prefixPrint_five_digits : prefixPrint 10240000 .human = "10000K".toList ∧
    ¬ HumanFits 10240000 := by
  refine ⟨by decide, ?_⟩
  rintro ⟨q, -, -, -, -, hlen⟩
  exact absurd hlen (by decide)

end NFStash
