/-
  `is_valid_utf8`: a string is valid iff it is the UTF-8 encoding of a text.

  `verify_utf8_sequence` computes the code point and then refuses what the encoding would have written
  in another way (`verifyUtf8Sequence_encode`, `verifyUtf8Sequence_some`).  It reads a continuation
  byte only behind others, so it does not leave the string.
-/
import NFStash.ParsonStrings

namespace NFStash.JSON

open CLib Buffers Loops Utf8

/-- The octets of a string. -/
def octets (s : CString) : List ℕ := s.map octet

/-! ## Bits -/

section
variable {b : ℕ}

theorem octet_lt (c : Char) : octet c < 256 := Nat.mod_lt _ (by decide)

theorem isCont_iff (hb : b < 256) : isCont b = true ↔ b / 64 = 2 := by
  have hall : ∀ b < 256, isCont b = true ↔ b / 64 = 2 := by decide +kernel
  exact hall b hb

theorem numBytes_eq (hb : b < 256) : numBytesInUtf8Sequence b =
    if b < 0x80 then 1 else if b < 0xC2 then 0 else if b < 0xE0 then 2 else if b < 0xF0 then 3
    else if b < 0xF5 then 4 else 0 := by
  have hall : ∀ b < 256, numBytesInUtf8Sequence b =
      if b < 0x80 then 1 else if b < 0xC2 then 0 else if b < 0xE0 then 2 else if b < 0xF0 then 3
      else if b < 0xF5 then 4 else 0 := by decide +kernel
  exact hall b hb

end

/-! ## One sequence -/

section
variable {s : CString} {c : Char} {n cp len : ℕ}

/-- The bits of continuation octets behind others. -/
def join (cp : ℕ) (bs : List ℕ) : ℕ := bs.foldl (fun cp b => cp * 64 + b % 64) cp

/-- Continuation bytes are read up to the terminator at most. -/
theorem continued_memory (n cp : ℕ) (s : CString) : continued n cp (memory s) = .ok
    (if n ≤ s.length ∧ ∀ b ∈ (octets s).take n, b / 64 = 2 then some (join cp ((octets s).take n))
      else none) := by
  induction n generalizing cp s with
  | zero => simp [continued, join]
  | succ n ih =>
    rw [continued]
    cases s with
    | nil => rfl
    | cons c s =>
      rw [memory_cons, deref_cons]
      simp only [octets, List.map_cons, List.take_succ_cons, List.forall_mem_cons, List.length_cons,
        Nat.add_le_add_iff_right]
      by_cases hb : octet c / 64 = 2
      · refine (if_pos ((isCont_iff (octet_lt c)).2 hb)).trans ?_
        rw [List.tail_cons, ih, shift_or]
        simp only [hb, true_and]
        rfl
      · refine (if_neg (mt (isCont_iff (octet_lt c)).1 hb)).trans ?_
        rw [if_neg fun h => hb h.2.1]

/-- The bits of a lead octet. -/
def lead (len b : ℕ) : ℕ := if len = 1 then b else b % 2 ^ (7 - len)

/-- The code point is in the range for this number of octets, and no surrogate. -/
def InRange (len cp : ℕ) : Prop :=
  (1 < len → 0x80 ≤ cp) ∧ (2 < len → 0x800 ≤ cp) ∧ (3 < len → 0x10000 ≤ cp) ∧
    cp ≤ 0x10FFFF ∧ (cp < 0xD800 ∨ 0xDFFF < cp)

instance (len cp : ℕ) : Decidable (InRange len cp) :=
  inferInstanceAs (Decidable (_ ∧ _ ∧ _ ∧ _ ∧ _))

/-- The octets behind the lead octet, if there are as many continuation octets. -/
def follows (len : ℕ) (s : CString) : Option (List ℕ) :=
  if len ≠ 0 ∧ len - 1 ≤ s.length ∧ ∀ b ∈ (octets s).take (len - 1), b / 64 = 2 then
    some ((octets s).take (len - 1)) else none

theorem codePoint_memory (hlen : len ≤ 4) (b : ℕ) (c : Char) (s : CString) :
    codePoint len b (memory (c :: s)) = .ok ((follows len s).map (join (lead len b))) := by
  have h5 : b &&& 0x1F = b % 2 ^ 5 := Nat.and_two_pow_sub_one_eq_mod b 5
  have h4 : b &&& 0xF = b % 2 ^ 4 := Nat.and_two_pow_sub_one_eq_mod b 4
  have h3 : b &&& 0x7 = b % 2 ^ 3 := Nat.and_two_pow_sub_one_eq_mod b 3
  have hmap : ∀ n cp, continued n cp (memory s) = .ok ((follows (n + 1) s).map (join cp)) := by
    intro n cp
    rw [continued_memory, follows]
    simp only [ne_eq, Nat.succ_ne_zero, not_false_eq_true, true_and, Nat.add_sub_cancel]
    split_ifs <;> rfl
  obtain rfl | rfl | rfl | rfl | rfl : len = 0 ∨ len = 1 ∨ len = 2 ∨ len = 3 ∨ len = 4 := by omega
  · rfl
  · simp [codePoint, follows, lead, join]
  · simp [codePoint, hmap, h5, lead]
  · simp [codePoint, hmap, h4, lead]
  · simp [codePoint, hmap, h3, lead]

/-- **`verify_utf8_sequence`**, in a string that is not empty. -/
theorem verifyUtf8Sequence_memory (c : Char) (s : CString) : verifyUtf8Sequence (memory (c :: s)) = .ok
    (let len := numBytesInUtf8Sequence (octet c)
    (follows len s).bind fun bs => if InRange len (join (lead len (octet c)) bs) then some len else none) := by
  have hlen : numBytesInUtf8Sequence (octet c) ≤ 4 := by
    rw [numBytes_eq (octet_lt c)]
    split_ifs <;> omega
  unfold verifyUtf8Sequence
  rw [memory_cons, deref_cons, ok_bind, ← memory_cons]
  dsimp only
  rw [codePoint_memory hlen, ok_bind]
  cases follows (numBytesInUtf8Sequence (octet c)) s with
  | none => rfl
  | some bs =>
    simp only [Option.map_some, Option.bind_some]
    generalize join (lead (numBytesInUtf8Sequence (octet c)) (octet c)) bs = cp
    generalize numBytesInUtf8Sequence (octet c) = len
    by_cases hr : InRange len cp
    · obtain ⟨h1, h2, h3, h4, h5⟩ := id hr
      rw [if_pos hr, if_neg (by omega), if_neg (by omega), if_neg (by omega)]
    · rw [if_neg hr]
      unfold InRange at hr
      split_ifs <;> first | rfl | omega

/-- The octets of a character are a sequence. -/
theorem verifyUtf8Sequence_encode {rest : List ℕ} (h : octets s = encode c ++ rest) :
    verifyUtf8Sequence (memory s) = .ok (some (encode c).length) := by
  have hscalar := not_surrogate c
  have hlt := toNat_lt c
  cases s with
  | nil =>
    have hne := congrArg List.length h
    have hpos := c.utf8Size_pos
    simp only [octets, List.map_nil, List.length_nil, List.length_append, encode, List.length_map,
      String.length_utf8EncodeChar] at hne
    omega
  | cons a s =>
    -- the octets follow one another, and their bits are those of the character
    have key : ∀ len b bs, encode c = b :: bs → len = bs.length + 1 → numBytesInUtf8Sequence b = len →
        (∀ b ∈ bs, b / 64 = 2) → join (lead len b) bs = c.toNat → InRange len c.toNat →
        verifyUtf8Sequence (memory (a :: s)) = .ok (some (encode c).length) := by
      intro len b bs hb hlen hnum htail hjoin hr
      rw [hb] at h ⊢
      have ha : octet a = b := (List.cons.inj h).1
      have hs : octets s = bs ++ rest := (List.cons.inj h).2
      have hcount : bs.length ≤ s.length := by
        have hl : (octets s).length = s.length := List.length_map _
        rw [hs, List.length_append] at hl
        omega
      have htake : (octets s).take (len - 1) = bs := by
        rw [hs, hlen, Nat.add_sub_cancel, List.take_left]
      have hfollows : follows len s = some bs := by
        rw [follows, htake, if_pos ⟨by omega, by omega, htail⟩]
      rw [verifyUtf8Sequence_memory, ha, hnum]
      dsimp only
      rw [hfollows, Option.bind_some, hjoin, if_pos hr, hlen]
      rfl
    by_cases h1 : c.toNat < 0x80
    · refine key 1 _ [] (encode_one h1) rfl ?_ (List.forall_mem_nil _) rfl
        ⟨by omega, by omega, by omega, by omega, hscalar⟩
      rw [numBytes_eq (by omega), if_pos h1]
    by_cases h2 : c.toNat < 0x800
    · refine key 2 _ _ (encode_two (not_lt.1 h1) h2) rfl ?_ ?_ ?_
        ⟨by omega, by omega, by omega, by omega, hscalar⟩
      · rw [numBytes_eq (by omega)]
        split_ifs <;> omega
      · simp only [List.forall_mem_cons, List.not_mem_nil, false_imp_iff, implies_true, and_true]
        omega
      · simp only [join, lead, List.foldl_cons, List.foldl_nil]
        norm_num
        omega
    by_cases h3 : c.toNat < 0x10000
    · refine key 3 _ _ (encode_three (not_lt.1 h2) h3) rfl ?_ ?_ ?_
        ⟨by omega, by omega, by omega, by omega, hscalar⟩
      · rw [numBytes_eq (by omega)]
        split_ifs <;> omega
      · simp only [List.forall_mem_cons, List.not_mem_nil, false_imp_iff, implies_true, and_true]
        omega
      · simp only [join, lead, List.foldl_cons, List.foldl_nil]
        norm_num
        omega
    · refine key 4 _ _ (encode_four (not_lt.1 h3)) rfl ?_ ?_ ?_
        ⟨by omega, by omega, by omega, by omega, hscalar⟩
      · rw [numBytes_eq (by omega)]
        split_ifs <;> omega
      · simp only [List.forall_mem_cons, List.not_mem_nil, false_imp_iff, implies_true, and_true]
        omega
      · simp only [join, lead, List.foldl_cons, List.foldl_nil]
        norm_num
        omega

/-- What follows has one octet less than the sequence. -/
theorem follows_some {bs : List ℕ} (h : follows len s = some bs) : len = bs.length + 1 ∧
    (∀ b ∈ bs, b / 64 = 2) ∧ octets s = bs ++ (octets s).drop (len - 1) := by
  unfold follows at h
  split_ifs at h with hall
  obtain rfl := Option.some.inj h
  obtain ⟨hne, hle, htail⟩ := hall
  refine ⟨?_, htail, (List.take_append_drop ..).symm⟩
  rw [List.length_take, octets, List.length_map]
  omega

/-- Octets that pass the tests are those of a character. -/
theorem exists_encode {b : ℕ} {bs : List ℕ} (hb : b < 256) (hnum : numBytesInUtf8Sequence b = bs.length + 1)
    (htail : ∀ b ∈ bs, b / 64 = 2) (hr : InRange (bs.length + 1) (join (lead (bs.length + 1) b) bs)) :
    ∃ ch, encode ch = b :: bs := by
  obtain ⟨h1, h2, h3, h4, h5⟩ := hr
  have hnat : (Char.ofNat (join (lead (bs.length + 1) b) bs)).toNat = join (lead (bs.length + 1) b) bs :=
    toNat_ofNat (h5.imp_right fun h => ⟨h, by omega⟩)
  rw [numBytes_eq hb] at hnum
  refine ⟨Char.ofNat (join (lead (bs.length + 1) b) bs), ?_⟩
  match bs with
  | [] =>
    have hrange : b < 0x80 := by
      by_contra hge
      rw [if_neg hge, List.length_nil] at hnum
      split_ifs at hnum <;> omega
    simp only [List.length_nil, join, lead, List.foldl_nil] at hnat ⊢
    norm_num at hnat ⊢
    rw [encode_one (by omega), hnat]
  | [t] =>
    simp only [List.forall_mem_cons, List.length_cons, List.length_nil, join, lead, List.foldl_cons,
      List.foldl_nil] at hnum hnat htail h1 ⊢
    norm_num at hnum hnat htail h1 ⊢
    have hrange : 0xC2 ≤ b ∧ b < 0xE0 := by
      split_ifs at hnum <;> omega
    rw [encode_two (by omega) (by omega), hnat]
    refine List.cons_eq_cons.2 ⟨by omega, List.cons_eq_cons.2 ⟨by omega, rfl⟩⟩
  | [t, u] =>
    simp only [List.forall_mem_cons, List.length_cons, List.length_nil, join, lead, List.foldl_cons,
      List.foldl_nil] at hnum hnat htail h2 ⊢
    norm_num at hnum hnat htail h2 ⊢
    have hrange : 0xE0 ≤ b ∧ b < 0xF0 := by
      split_ifs at hnum <;> omega
    rw [encode_three (by omega) (by omega), hnat]
    refine List.cons_eq_cons.2 ⟨by omega, List.cons_eq_cons.2 ⟨by omega, List.cons_eq_cons.2 ⟨by omega, rfl⟩⟩⟩
  | [t, u, v] =>
    simp only [List.forall_mem_cons, List.length_cons, List.length_nil, join, lead, List.foldl_cons,
      List.foldl_nil] at hnum hnat htail h3 h4 ⊢
    norm_num at hnum hnat htail h3 h4 ⊢
    have hrange : 0xF0 ≤ b ∧ b < 0xF5 := by
      split_ifs at hnum <;> omega
    rw [encode_four (by omega), hnat]
    refine List.cons_eq_cons.2 ⟨by omega, List.cons_eq_cons.2 ⟨by omega, List.cons_eq_cons.2 ⟨by omega,
      List.cons_eq_cons.2 ⟨by omega, rfl⟩⟩⟩⟩
  | _ :: _ :: _ :: _ :: _ =>
    simp only [List.length_cons] at hnum
    split_ifs at hnum <;> omega

/-- A sequence has the octets of a character. -/
theorem verifyUtf8Sequence_some (h : verifyUtf8Sequence (memory (c :: s)) = .ok (some len)) :
    ∃ ch rest, octets (c :: s) = encode ch ++ rest ∧ (encode ch).length = len := by
  rw [verifyUtf8Sequence_memory] at h
  obtain ⟨bs, hbs, hin⟩ := Option.bind_eq_some_iff.1 (Except.ok.inj h)
  split_ifs at hin with hr
  obtain rfl := Option.some.inj hin
  obtain ⟨hlen, htail, hs⟩ := follows_some hbs
  rw [hlen] at hr
  obtain ⟨ch, hch⟩ := exists_encode (octet_lt c) hlen htail hr
  refine ⟨ch, (octets s).drop (numBytesInUtf8Sequence (octet c) - 1), ?_, ?_⟩
  · rw [hch, List.cons_append, ← hs]
    rfl
  · rw [hch, hlen]
    rfl

theorem encode_length_pos (c : Char) : 0 < (encode c).length := by
  rw [encode, List.length_map, String.length_utf8EncodeChar]
  exact c.utf8Size_pos

/-! ## Strings -/

theorem octets_drop (n : ℕ) (s : CString) : octets (s.drop n) = (octets s).drop n := List.map_drop

/-- A string that starts with a character. -/
theorem encoding_iff {rest : List ℕ} (h : octets s = encode c ++ rest) :
    (∃ text : List Char, octets s = text.flatMap encode) ↔
      ∃ text : List Char, octets (s.drop (encode c).length) = text.flatMap encode := by
  have hdrop : octets (s.drop (encode c).length) = rest := by rw [octets_drop, h, List.drop_left]
  rw [hdrop]
  constructor
  · rintro ⟨text, htext⟩
    cases text with
    | nil =>
      have hlen := congrArg List.length (h.symm.trans htext)
      have hpos := encode_length_pos c
      simp only [List.length_append, List.flatMap_nil, List.length_nil] at hlen
      omega
    | cons ch text =>
      rw [List.flatMap_cons] at htext
      -- both characters are read with their own lengths
      have hread := (verifyUtf8Sequence_encode h).symm.trans (verifyUtf8Sequence_encode htext)
      have hlen : (encode c).length = (encode ch).length := Option.some.inj (Except.ok.inj hread)
      exact ⟨text, (List.append_inj (h.symm.trans htext) hlen).2⟩
  · rintro ⟨text, rfl⟩
    exact ⟨c :: text, h⟩

/-- The loop takes one character after the other. -/
theorem isValidUtf8Loop_memory {fuel : ℕ} (hfuel : s.length < fuel) :
    ∃ valid, isValidUtf8Loop fuel (memory s) s.length = .ok valid ∧
      (valid = true ↔ ∃ text : List Char, octets s = text.flatMap encode) := by
  induction fuel generalizing s with
  | zero => exact absurd hfuel (Nat.not_lt_zero _)
  | succ fuel ih =>
    rw [isValidUtf8Loop]
    cases s with
    | nil => exact ⟨true, rfl, iff_of_true rfl ⟨[], rfl⟩⟩
    | cons c s =>
      rw [if_neg (by simp)]
      obtain ⟨r, hr⟩ : ∃ r, verifyUtf8Sequence (memory (c :: s)) = .ok r := ⟨_, verifyUtf8Sequence_memory c s⟩
      rw [hr, ok_bind]
      cases r with
      | none =>
        refine ⟨false, rfl, iff_of_false (by decide) ?_⟩
        rintro ⟨text, htext⟩
        cases text with
        | nil => exact absurd htext (by simp [octets])
        | cons ch text =>
          rw [List.flatMap_cons] at htext
          exact absurd (hr.symm.trans (verifyUtf8Sequence_encode htext)) (by simp)
      | some len =>
        obtain ⟨ch, rest, hch, rfl⟩ := verifyUtf8Sequence_some hr
        have hle : (encode ch).length ≤ (c :: s).length := by
          have hlen := congrArg List.length hch
          rw [octets, List.length_map, List.length_append] at hlen
          omega
        have hpos := encode_length_pos ch
        have hdrop : (memory (c :: s)).drop (encode ch).length = memory ((c :: s).drop (encode ch).length) :=
          List.drop_append_of_le_length hle
        dsimp only
        rw [hdrop, ← List.length_drop, encoding_iff hch]
        refine ih ?_
        rw [List.length_drop]
        omega

end

/-- **`is_valid_utf8`** does not leave the memory of a string, and accepts it iff it is the encoding of a
    text. -/
theorem isValidUtf8_iff (s : CString) : ∃ valid, isValidUtf8 (memory s) s.length = .ok valid ∧
    (valid = true ↔ ∃ text : List Char, octets s = text.flatMap encode) :=
  isValidUtf8Loop_memory (Nat.lt_succ_self _)

end NFStash.JSON
