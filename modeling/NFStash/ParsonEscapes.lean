/-
  Strings that other programs write.

  In JSON a character may stand for itself, behind a backslash, or as one or two `\u` escapes of four
  digits (`Escaped`).  `getQuotedString_escaped`: whatever is chosen, `parson.c` reads the UTF-8 encoding of
  the text, up to its first NUL, if anything follows the string, and what is no string of JSON is not read.
-/
import NFStash.ParsonStrings

namespace NFStash.JSON

open CLib Buffers Utf8

/-- The ways to write a text between quotation marks. -/
inductive Escaped : List Char → CString → Prop
  | nil : Escaped [] []
  | char {c : Char} {text : List Char} {s : CString} : 0x20 ≤ c.toNat → c ≠ '\"' → c ≠ '\\' →
    Escaped text s → Escaped (c :: text) (utf8 c ++ s)
  | escape {c e : Char} {text : List Char} {s : CString} : unescape e = some c → Escaped text s →
    Escaped (c :: text) ('\\' :: e :: s)
  | utf16 {c : Char} {w s : CString} {text : List Char} : Utf16 w c → Escaped text s →
    Escaped (c :: text) ('\\' :: (w ++ s))

section
variable {c e : Char} {s t bs : CString} {text : List Char}

theorem utf8_ascii (h : c.toNat < 0x80) : utf8 c = [c] := by
  have hone := utf8_one h
  rw [Char.ofNat_toNat] at hone
  rw [← hone, byte, Nat.mod_eq_of_lt (by omega), Char.ofNat_toNat]

/-- The bytes of the other characters are no ASCII. -/
theorem utf8_high (h : 0x80 ≤ c.toNat) : ∀ b ∈ utf8 c, 0x80 ≤ b.toNat := by
  intro b hb
  obtain ⟨n, hn, rfl⟩ := List.mem_map.1 hb
  obtain ⟨hle, hlt⟩ := encode_high h n hn
  rw [byte, Nat.mod_eq_of_lt hlt, toNat_ofNat (.inl (by omega))]
  exact hle

theorem unescape_lt (h : unescape e = some c) : c.toNat < 0x80 := by
  unfold unescape at h
  split at h
  all_goals cases h
  all_goals decide

/-- Bytes that stand for themselves. -/
theorem Decodes.bytes (hs : Decodes s t)
    (h : ∀ b ∈ bs, 0x20 ≤ b.toNat ∧ b ≠ '\"' ∧ b ≠ '\\') : Decodes (bs ++ s) (bs ++ t) := by
  induction bs with
  | nil => exact hs
  | cons b bs ih =>
    rw [List.forall_mem_cons] at h
    exact .char h.1.1 h.1.2.1 h.1.2.2 (ih h.2)

/-- A text is written for its encoding. -/
theorem Escaped.decodes (h : Escaped text s) : Decodes s (text.flatMap utf8) := by
  induction h with
  | nil => exact .nil
  | @char c text s hc hquote hslash _ ih =>
    rw [List.flatMap_cons]
    refine ih.bytes fun b hb => ?_
    by_cases hlt : c.toNat < 0x80
    · rw [utf8_ascii hlt] at hb
      obtain rfl := List.mem_singleton.1 hb
      exact ⟨hc, hquote, hslash⟩
    · have hle := utf8_high (not_lt.1 hlt) b hb
      refine ⟨by omega, ?_, ?_⟩
      · rintro rfl
        exact absurd hle (by decide)
      · rintro rfl
        exact absurd hle (by decide)
  | escape he _ ih =>
    rw [List.flatMap_cons, utf8_ascii (unescape_lt he)]
    exact .escape he ih
  | utf16 hw _ ih =>
    rw [List.flatMap_cons]
    exact .utf16 hw ih

/-- The encoding up to its first NUL is that of the text up to its first NUL. -/
theorem takeWhile_utf8 (text : List Char) :
    (text.flatMap utf8).takeWhile (· ≠ NUL) = (text.takeWhile (· ≠ NUL)).flatMap utf8 := by
  induction text with
  | nil => rfl
  | cons c text ih =>
    rw [List.flatMap_cons]
    by_cases hc : c = NUL
    · subst hc
      rw [utf8_ascii (by decide), List.takeWhile_cons_of_neg (by simp)]
      rfl
    · have hbytes : ∀ b ∈ utf8 c, decide (b ≠ NUL) = true := by
        intro b hb
        by_cases hlt : c.toNat < 0x80
        · rw [utf8_ascii hlt] at hb
          obtain rfl := List.mem_singleton.1 hb
          exact decide_eq_true hc
        · have hle := utf8_high (not_lt.1 hlt) b hb
          refine decide_eq_true ?_
          rintro rfl
          exact absurd hle (by decide)
      rw [List.takeWhile_append_of_pos hbytes, ih, List.takeWhile_cons_of_pos (by simpa using hc),
        List.flatMap_cons]

end

/-- What is read of a string that is followed by something. -/
theorem getQuotedString_followed (s rest : CString) (hs : Body s) (hne : rest ≠ []) (hnul : NUL ∉ rest) :
    ∃ v, getQuotedString (memory ('\"' :: (s ++ '\"' :: rest))) = .ok (v, memory rest) ∧
      (∀ bytes, v = some bytes ↔ ∃ t, Decodes s t ∧ bytes = t.takeWhile (· ≠ NUL)) ∧
      ∀ text, Escaped text s → v = some ((text.takeWhile (· ≠ NUL)).flatMap utf8) := by
  have hdecodes : ∀ t, Decodes s t → getQuotedString (memory ('\"' :: (s ++ '\"' :: rest))) =
      .ok (some (t.takeWhile (· ≠ NUL)), memory rest) := by
    intro t ht
    rw [getQuotedString_body hs hne hnul, processString_decodes ht]
    rfl
  rcases processString_cases hs (memory rest) with hnone | ⟨t, ht⟩
  · have hread : getQuotedString (memory ('\"' :: (s ++ '\"' :: rest))) = .ok (none, memory rest) := by
      rw [getQuotedString_body hs hne hnul, hnone]
      rfl
    -- what stands for something is read
    have hnot : ∀ t, ¬ Decodes s t := by
      intro t ht
      rw [hdecodes t ht] at hread
      cases hread
    refine ⟨none, hread, fun bytes => iff_of_false nofun ?_, fun text htext => ?_⟩
    · rintro ⟨t, ht, -⟩
      exact hnot t ht
    · exact absurd htext.decodes (hnot _)
  · refine ⟨_, hdecodes t ht, fun bytes => ⟨fun heq => ⟨t, ht, (Option.some.inj heq).symm⟩, ?_⟩,
      fun text htext => ?_⟩
    · rintro ⟨t', ht', rfl⟩
      exact (Prod.mk.inj (Except.ok.inj ((hdecodes t ht).symm.trans (hdecodes t' ht')))).1
    · rw [← takeWhile_utf8]
      exact (Prod.mk.inj (Except.ok.inj ((hdecodes t ht).symm.trans (hdecodes _ htext.decodes)))).1

/-- **What is read of a string**, which ends at its first quotation mark without a backslash before it: the
    UTF-8 encoding of its text up to the first NUL, in whatever way it is written.  Of a string
    with another escape, an incomplete one, a single surrogate or a control character nothing is read, and
    nothing of one at the very end of the input; in all cases the parser is behind the string then. -/
theorem getQuotedString_escaped (s rest : CString) (hs : Body s) (hnul : NUL ∉ rest) :
    ∃ v, getQuotedString (memory ('\"' :: (s ++ '\"' :: rest))) = .ok (v, memory rest) ∧
      (∀ bytes, v = some bytes ↔ rest ≠ [] ∧ ∃ t, Decodes s t ∧ bytes = t.takeWhile (· ≠ NUL)) ∧
      ∀ text, Escaped text s → rest ≠ [] → v = some ((text.takeWhile (· ≠ NUL)).flatMap utf8) := by
  by_cases hne : rest = []
  · subst hne
    refine ⟨none, getQuotedString_end hs '\"', fun bytes => iff_of_false nofun ?_, fun _ _ h => absurd rfl h⟩
    exact fun h => h.1 rfl
  · obtain ⟨v, hread, hbytes, htext⟩ := getQuotedString_followed s rest hs hne hnul
    refine ⟨v, hread, fun bytes => ?_, fun text h _ => htext text h⟩
    rw [hbytes, and_iff_right hne]

/-- Two letters and a character beyond the first 65536. -/
theorem getQuotedString_escaped_pair : ∃ v,
    getQuotedString (memory ('\"' :: ("a\\u00e9\\uD83D\\uDE00".toList ++ '\"' :: "\x7d".toList))) =
      .ok (v, memory "\x7d".toList) ∧ v = some (['a', 'é', '😀'].flatMap utf8) := by
  have hhex : ∀ w : CString, w.length = 4 → w.all isxdigit → Hex w :=
    fun w hlen hall => ⟨hlen, List.all_eq_true.1 hall⟩
  have htext : Escaped ['a', 'é', '😀'] "a\\u00e9\\uD83D\\uDE00".toList := by
    have hone : Utf16 "u00e9".toList 'é' := .one (hhex "00e9".toList rfl (by decide)) (by decide)
    have hpair : Utf16 "uD83D\\uDE00".toList '😀' :=
      .pair (hhex "D83D".toList rfl (by decide)) (hhex "DE00".toList rfl (by decide)) (by decide) (by decide)
        (by decide)
    exact .char (c := 'a') (by decide) (by decide) (by decide) (.utf16 hone (.utf16 hpair .nil))
  obtain ⟨v, hv, -, hall⟩ := getQuotedString_escaped _ "\x7d".toList htext.decodes.body (by decide)
  exact ⟨v, hv, hall _ htext (by decide)⟩

end NFStash.JSON
