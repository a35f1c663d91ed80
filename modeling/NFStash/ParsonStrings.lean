/-
  The strings of `parson.c`.

  `skip_quotes` finds the end of a string, and `process_string` reads it up to there: both take a
  backslash and the character behind it together (`Body`), so the second neither leaves the string nor
  its buffer (`getQuotedString_total`).
-/
import NFStash.Parson

namespace NFStash.JSON

open CLib Buffers Loops Utf8

/-- What may stand between quotation marks: characters, and pairs of a backslash and a character. -/
inductive Body : CString → Prop
  | nil : Body []
  | char {c : Char} {s : CString} : c ≠ '\"' → c ≠ '\\' → c ≠ NUL → Body s → Body (c :: s)
  | escape {c : Char} {s : CString} : c ≠ NUL → Body s → Body ('\\' :: c :: s)

/-! ## Memory -/

theorem ok_bind {ε α β : Type} (a : α) (f : α → Except ε β) : (Except.ok a >>= f) = f a := rfl

section
variable {s t rest : CString} {c : Char}

@[simp]
theorem deref_cons (c : Char) (s : CString) : deref (c :: s) = .ok c := rfl

@[simp]
theorem memory_nil : memory [] = [NUL] := rfl

@[simp]
theorem memory_cons (c : Char) (s : CString) : memory (c :: s) = c :: memory s := rfl

@[simp]
theorem memory_append (s t : CString) : memory (s ++ t) = s ++ memory t := List.append_assoc ..

theorem memory_length (s : CString) : (memory s).length = s.length + 1 := List.length_append

theorem deref_memory (s : CString) : ∃ c, deref (memory s) = .ok c ∧ (c = NUL → NUL ∉ s → s = []) ∧
    (s = [] → c = NUL) := by
  cases s with
  | nil => exact ⟨NUL, rfl, fun _ _ => rfl, fun _ => rfl⟩
  | cons c s =>
    refine ⟨c, rfl, ?_, nofun⟩
    rintro rfl hnul
    exact absurd List.mem_cons_self hnul

/-- Whitespace is skipped, up to the terminator at most. -/
theorem skipWhitespaces_memory (s : CString) :
    skipWhitespaces (memory s) = .ok (memory (s.dropWhile isspace)) := by
  induction s with
  | nil => rfl
  | cons c s ih =>
    rw [memory_cons, skipWhitespaces, List.dropWhile_cons]
    split_ifs
    · exact ih
    · rfl

theorem skipWhitespaces_of_not (h : isspace c = false) (s : CString) :
    skipWhitespaces (c :: s) = .ok (c :: s) := by
  rw [skipWhitespaces, h]
  rfl

/-- What is left of a string has no NUL either. -/
theorem notMem_of_suffix {p : CString} (h : NUL ∉ s) (hp : p <:+ s) : NUL ∉ p :=
  fun hmem => h (hp.subset hmem)

/-! ## `skip_quotes` -/

theorem skipQuotesLoop_quote (s : CString) : skipQuotesLoop ('\"' :: s) = .ok s := by
  rw [skipQuotesLoop.eq_def]
  exact if_pos rfl

theorem skipQuotesLoop_nul (s : CString) : skipQuotesLoop (NUL :: s) = .ok (NUL :: s) := by
  rw [skipQuotesLoop.eq_def]
  exact (if_neg (by decide)).trans (if_pos rfl)

theorem skipQuotesLoop_char (h1 : c ≠ '\"') (h2 : c ≠ '\\') (h3 : c ≠ NUL) (s : CString) :
    skipQuotesLoop (c :: s) = skipQuotesLoop s := by
  rw [skipQuotesLoop.eq_def]
  exact (if_neg h1).trans ((if_neg h3).trans (if_neg h2))

theorem skipQuotesLoop_escape (h : c ≠ NUL) (s : CString) :
    skipQuotesLoop ('\\' :: c :: s) = skipQuotesLoop s := by
  rw [skipQuotesLoop.eq_def]
  exact (if_neg (by decide)).trans ((if_neg (by decide)).trans ((if_pos rfl).trans (if_neg h)))

theorem Body.append (hs : Body s) (ht : Body t) : Body (s ++ t) := by
  induction hs with
  | nil => exact ht
  | char h1 h2 h3 _ ih => exact .char h1 h2 h3 ih
  | escape h _ ih => exact .escape h ih

theorem Body.nul (h : Body s) : NUL ∉ s := by
  induction h with
  | nil => exact List.not_mem_nil
  | char _ _ h3 _ ih => simp [ih, Ne.symm h3]
  | escape h _ ih => simp [ih, Ne.symm h, show NUL ≠ '\\' by decide]

/-- A string ends at its quotation mark. -/
theorem skipQuotesLoop_body (h : Body s) (rest : CString) :
    skipQuotesLoop (s ++ '\"' :: rest) = .ok rest := by
  induction h with
  | nil => exact skipQuotesLoop_quote rest
  | char h1 h2 h3 _ ih => exact (skipQuotesLoop_char h1 h2 h3 _).trans ih
  | escape h _ ih => exact (skipQuotesLoop_escape h _).trans ih

/-- **`skip_quotes`** stops behind a string, or at the terminator. -/
theorem skipQuotesLoop_memory (h : NUL ∉ s) :
    (∃ body rest, s = body ++ '\"' :: rest ∧ Body body ∧ skipQuotesLoop (memory s) = .ok (memory rest)) ∨
      skipQuotesLoop (memory s) = .ok (memory []) := by
  induction hn : s.length using Nat.strong_induction_on generalizing s with
  | _ n ih =>
    subst hn
    cases s with
    | nil => exact .inr (skipQuotesLoop_nul [])
    | cons c s =>
      simp only [List.mem_cons, not_or] at h
      obtain ⟨hc, hs⟩ := h
      by_cases hq : c = '\"'
      · subst hq
        exact .inl ⟨[], s, rfl, .nil, skipQuotesLoop_quote _⟩
      by_cases hb : c = '\\'
      · subst hb
        cases s with
        | nil => exact .inr rfl
        | cons e s =>
          -- a pair
          simp only [List.mem_cons, not_or] at hs
          obtain ⟨he, hs⟩ := hs
          have hstep : skipQuotesLoop (memory ('\\' :: e :: s)) = skipQuotesLoop (memory s) :=
            skipQuotesLoop_escape (Ne.symm he) _
          rw [hstep]
          have hlen : s.length < ('\\' :: e :: s).length := by
            simp only [List.length_cons]
            omega
          rcases ih s.length hlen hs rfl with ⟨body, rest, rfl, hbody, hskip⟩ | hskip
          · exact .inl ⟨'\\' :: e :: body, rest, rfl, .escape (Ne.symm he) hbody, hskip⟩
          · exact .inr hskip
      · have hstep : skipQuotesLoop (memory (c :: s)) = skipQuotesLoop (memory s) :=
          skipQuotesLoop_char hq hb (Ne.symm hc) _
        rw [hstep]
        rcases ih s.length (by simp) hs rfl with ⟨body, rest, rfl, hbody, hskip⟩ | hskip
        · exact .inl ⟨c :: body, rest, rfl, .char hq hb (Ne.symm hc) hbody, hskip⟩
        · exact .inr hskip

end

/-! ## `process_string` -/

section
variable {input left rest : CString} {len fuel : ℕ} {out : CString} {room : Buffer} {c e : Char}

/-- The test of the loop, with `left` of the string to come. -/
theorem test_iff (hinput : input.length = len + rest.length + 1) (hle : left.length ≤ len) :
    input.length - (left ++ '\"' :: rest).length < len ↔ left ≠ [] := by
  rw [← List.length_pos_iff, List.length_append, List.length_cons]
  omega

/-- A character is written. -/
theorem store_char (c : Char) (hroom : 0 < room.length) :
    inBounds (store (out.map some ++ room) out.length [c]) = .ok ((out ++ [c]).map some ++ room.drop 1) := by
  rw [store_next out [c] hroom]
  rfl

variable (hinput : input.length = len + rest.length + 1)
include hinput

/-- The loop ends with the string. -/
theorem processLoop_end : processLoop input len (fuel + 1) ('\"' :: rest) (out.map some ++ room) out.length =
    .ok (some (out.map some ++ room, out.length)) := by
  have htest := @test_iff input [] rest len hinput (Nat.zero_le len)
  rw [processLoop, deref_cons]
  exact if_neg fun h => htest.1 h.2 rfl

/-- A character that stands for itself. -/
theorem processLoop_char (hle : (c :: left).length ≤ len) (hc : 0x20 ≤ c.toNat) (hb : c ≠ '\\')
    (hroom : 0 < room.length) :
    processLoop input len (fuel + 1) (c :: left ++ '\"' :: rest) (out.map some ++ room) out.length =
      processLoop input len fuel (left ++ '\"' :: rest) ((out ++ [c]).map some ++ room.drop 1)
        (out ++ [c]).length := by
  have hnul : c ≠ NUL := by
    rintro rfl
    exact absurd hc (by decide)
  rw [processLoop, List.cons_append, deref_cons]
  refine (if_pos ⟨hnul, (test_iff hinput hle).2 (List.cons_ne_nil c left)⟩).trans ?_
  rw [if_neg hb, if_neg (not_lt.2 hc), store_char c hroom, List.length_append]
  rfl

/-- A character that may not stand in a string. -/
theorem processLoop_control (hle : (c :: left).length ≤ len) (hc : c.toNat < 0x20) (hnul : c ≠ NUL) :
    processLoop input len (fuel + 1) (c :: left ++ '\"' :: rest) (out.map some ++ room) out.length =
      .ok none := by
  have hb : c ≠ '\\' := by
    rintro rfl
    exact absurd hc (by decide)
  rw [processLoop, List.cons_append, deref_cons]
  refine (if_pos ⟨hnul, (test_iff hinput hle).2 (List.cons_ne_nil c left)⟩).trans ?_
  rw [if_neg hb, if_pos hc]

/-- A character behind a backslash. -/
theorem processLoop_escape (hle : ('\\' :: c :: left).length ≤ len) (hc : unescape c = some e)
    (hroom : 0 < room.length) :
    processLoop input len (fuel + 1) ('\\' :: c :: left ++ '\"' :: rest) (out.map some ++ room) out.length =
      processLoop input len fuel (left ++ '\"' :: rest) ((out ++ [e]).map some ++ room.drop 1)
        (out ++ [e]).length := by
  have hu : c ≠ 'u' := by
    rintro rfl
    cases hc
  rw [processLoop, List.cons_append, deref_cons]
  refine (if_pos ⟨by decide, (test_iff hinput hle).2 (List.cons_ne_nil _ _)⟩).trans ?_
  rw [if_pos rfl, List.tail_cons, List.cons_append, deref_cons]
  refine (if_neg hu).trans ?_
  rw [hc]
  dsimp only
  rw [store_char e hroom, List.length_append]
  rfl

/-- A character that may not stand behind a backslash. -/
theorem processLoop_noEscape (hle : ('\\' :: c :: left).length ≤ len) (hu : c ≠ 'u')
    (hc : unescape c = none) :
    processLoop input len (fuel + 1) ('\\' :: c :: left ++ '\"' :: rest) (out.map some ++ room) out.length =
      .ok none := by
  rw [processLoop, List.cons_append, deref_cons]
  refine (if_pos ⟨by decide, (test_iff hinput hle).2 (List.cons_ne_nil _ _)⟩).trans ?_
  rw [if_pos rfl, List.tail_cons, List.cons_append, deref_cons]
  refine (if_neg hu).trans ?_
  rw [hc]

end

/-! ## `parse_utf_16` -/

/-- The bytes of a character, as they are written. -/
def utf8 (c : Char) : CString := (encode c).map byte

/-- Four hexadecimal digits. -/
structure Hex (w : CString) : Prop where
  length : w.length = 4
  digits : ∀ c ∈ w, isxdigit c = true

section
variable {w v s left rest out : CString} {room : Buffer} {c : Char} {cp : ℕ}

theorem utf8_length_pos (c : Char) : 0 < (utf8 c).length := by
  rw [utf8, List.length_map, encode, List.length_map, String.length_utf8EncodeChar]
  exact c.utf8Size_pos

theorem hexDigit_lt (h : isxdigit c = true) : hexDigit c < 16 := by
  have hdigit : c.isDigit = true → c.toNat - 48 < 16 := by
    intro hd
    have hle := digit_le hd
    have hzero : ('0' : Char).toNat = 48 := rfl
    omega
  unfold isxdigit at h
  unfold hexDigit
  split_ifs with hd ha
  · exact hdigit hd
  · simp only [hd, Bool.false_or, Bool.or_eq_true, Bool.and_eq_true, decide_eq_true_eq] at h
    rcases h with h | h
    · have hle : c.toNat ≤ 102 := h.2
      omega
    · have hle : c.toNat ≤ 70 := h.2
      omega
  · simp only [hd, Bool.false_or, Bool.or_eq_true, Bool.and_eq_true, decide_eq_true_eq] at h
    rcases h with h | h
    · exact absurd h.1 ha
    · have hle : c.toNat ≤ 70 := h.2
      omega

theorem hexValue_append (hw : w.length = 4) (s : CString) : hexValue (w ++ s) = hexValue w := by
  rw [hexValue, hexValue, List.take_left' hw, List.take_of_length_le hw.le]

theorem Hex.lt (hw : Hex w) : hexValue w < 0x10000 := by
  obtain ⟨hlen, hdigits⟩ := hw
  match w, hlen, hdigits with
  | [a, b, c, d], _, hdigits =>
    simp only [List.forall_mem_cons] at hdigits
    obtain ⟨ha, hb, hc, hd, -⟩ := hdigits
    have ha := hexDigit_lt ha
    have hb := hexDigit_lt hb
    have hc := hexDigit_lt hc
    have hd := hexDigit_lt hd
    simp only [hexValue, List.take, List.foldl_cons, List.foldl_nil]
    omega

theorem isHex_append (hw : ∀ c ∈ w, isxdigit c = true) (s : CString) : isHex w.length (w ++ s) = .ok true := by
  induction w with
  | nil => rfl
  | cons c w ih =>
    rw [List.forall_mem_cons] at hw
    rw [List.length_cons, isHex, List.cons_append, deref_cons, ok_bind, if_pos hw.1]
    exact ih hw.2

theorem Hex.isHex (hw : Hex w) (s : CString) : isHex 4 (w ++ s) = .ok true := by
  rw [← hw.length]
  exact isHex_append hw.digits s

/-- In a string, all that is looked at belongs to it. -/
theorem isHex_body (n : ℕ) (h : Body left) (rest : CString) : isHex n (left ++ '\"' :: rest) = .ok false ∨
    isHex n (left ++ '\"' :: rest) = .ok true ∧ ∃ w left', left = w ++ left' ∧ w.length = n ∧
      (∀ c ∈ w, isxdigit c = true) ∧ Body left' := by
  induction n generalizing left with
  | zero => exact .inr ⟨rfl, [], left, rfl, rfl, nofun, h⟩
  | succ n ih =>
    rw [isHex]
    cases h with
    | nil => exact .inl rfl
    | @escape c s hc hs => exact .inl rfl
    | @char c s hq hb hnul hs =>
      rw [List.cons_append, deref_cons, ok_bind]
      by_cases hx : isxdigit c = true
      · rw [if_pos hx]
        rcases ih hs with hfalse | ⟨htrue, w, left', rfl, hlen, hdigits, hbody⟩
        · exact .inl hfalse
        · refine .inr ⟨htrue, c :: w, left', rfl, by rw [List.length_cons, hlen], ?_, hbody⟩
          exact List.forall_mem_cons.2 ⟨hx, hdigits⟩
      · rw [if_neg hx]
        exact .inl rfl

/-! ### The bytes that are written -/

theorem utf8_one (h : cp < 0x80) : [byte cp] = utf8 (Char.ofNat cp) := by
  have hcp : (Char.ofNat cp).toNat = cp := toNat_ofNat (.inl (by omega))
  rw [utf8, encode_one (by omega), hcp]
  rfl

theorem utf8_two (h1 : 0x80 ≤ cp) (h2 : cp < 0x800) :
    [byte ((cp >>> 6 &&& 0x1F) ||| 0xC0), byte ((cp &&& 0x3F) ||| 0x80)] = utf8 (Char.ofNat cp) := by
  have hcp : (Char.ofNat cp).toNat = cp := toNat_ofNat (.inl (by omega))
  have hlead : cp / 64 % 32 = cp / 64 := Nat.mod_eq_of_lt (by omega)
  rw [utf8, encode_two (by omega) (by omega), hcp, two_or, tail_or, Nat.shiftRight_eq_div_pow]
  norm_num
  rw [hlead]

theorem utf8_three (h1 : 0x800 ≤ cp) (h2 : cp < 0x10000) (hs : cp < 0xD800 ∨ 0xDFFF < cp) :
    [byte ((cp >>> 12 &&& 0x0F) ||| 0xE0), byte ((cp >>> 6 &&& 0x3F) ||| 0x80),
      byte ((cp &&& 0x3F) ||| 0x80)] = utf8 (Char.ofNat cp) := by
  have hcp : (Char.ofNat cp).toNat = cp := toNat_ofNat (hs.imp_right fun h => ⟨h, by omega⟩)
  have hlead : cp / 4096 % 16 = cp / 4096 := Nat.mod_eq_of_lt (by omega)
  rw [utf8, encode_three (by omega) (by omega), hcp, three_or, tail_or, tail_or,
    Nat.shiftRight_eq_div_pow, Nat.shiftRight_eq_div_pow]
  norm_num
  rw [hlead]

theorem utf8_four (h1 : 0x10000 ≤ cp) (h2 : cp < 0x110000) :
    [byte ((cp >>> 18 &&& 0x07) ||| 0xF0), byte ((cp >>> 12 &&& 0x3F) ||| 0x80),
      byte ((cp >>> 6 &&& 0x3F) ||| 0x80), byte ((cp &&& 0x3F) ||| 0x80)] = utf8 (Char.ofNat cp) := by
  have hcp : (Char.ofNat cp).toNat = cp := toNat_ofNat (.inr ⟨by omega, h2⟩)
  have hlead : cp / 262144 % 8 = cp / 262144 := Nat.mod_eq_of_lt (by omega)
  rw [utf8, encode_four (by omega), hcp, four_or, tail_or, tail_or, tail_or,
    Nat.shiftRight_eq_div_pow, Nat.shiftRight_eq_div_pow, Nat.shiftRight_eq_div_pow]
  norm_num
  rw [hlead]

/-- The code point of two surrogates. -/
theorem surrogates_eq {lead trail : ℕ} (h1 : 0xD800 ≤ lead) (h2 : lead ≤ 0xDBFF) (h3 : 0xDC00 ≤ trail)
    (h4 : trail ≤ 0xDFFF) :
    (((lead - 0xD800) &&& 0x3FF) <<< 10 ||| ((trail - 0xDC00) &&& 0x3FF)) + 0x010000 =
      (lead - 0xD800) * 0x400 + (trail - 0xDC00) + 0x10000 := by
  rw [show (0x3FF : ℕ) = 2 ^ 10 - 1 from rfl, Nat.and_two_pow_sub_one_eq_mod, Nat.and_two_pow_sub_one_eq_mod,
    ← Nat.shiftLeft_add_eq_or_of_lt (Nat.mod_lt _ (Nat.two_pow_pos 10)), Nat.shiftLeft_eq,
    Nat.mod_eq_of_lt (by omega), Nat.mod_eq_of_lt (by omega)]

/-! ### Escapes -/

/-- The escapes of a character behind its first backslash: a code point, or two surrogates. -/
inductive Utf16 : CString → Char → Prop
  | one {w : CString} {c : Char} : Hex w → hexValue w = c.toNat → Utf16 ('u' :: w) c
  | pair {w v : CString} {c : Char} : Hex w → Hex v → 0x10000 ≤ c.toNat →
    hexValue w = 0xD800 + (c.toNat - 0x10000) / 0x400 →
    hexValue v = 0xDC00 + (c.toNat - 0x10000) % 0x400 → Utf16 ('u' :: (w ++ '\\' :: 'u' :: v)) c

theorem store_bytes (bs : CString) (hroom : bs.length ≤ room.length) :
    inBounds (store (out.map some ++ room) out.length bs) =
      .ok ((out ++ bs).map some ++ room.drop bs.length) := by
  rw [store_next out bs hroom]
  rfl

/-- Two surrogates in a row. -/
theorem trailSurrogate_some (hv : Hex v) (h1 : 0xDC00 ≤ hexValue v) (h2 : hexValue v ≤ 0xDFFF) (s : CString) :
    trailSurrogate ('\\' :: 'u' :: (v ++ s)) = .ok (some (hexValue v)) := by
  rw [trailSurrogate, deref_cons, ok_bind, if_neg (by decide), List.tail_cons, deref_cons, ok_bind,
    if_neg (by decide), List.tail_cons, hv.isHex, ok_bind, hexValue_append hv.length]
  dsimp only
  rw [if_neg (by simp only [Bool.not_true, Bool.false_eq_true, false_or]; omega)]

/-- **`parse_utf_16`** writes the UTF-8 encoding of the character. -/
theorem parseUtf16_utf16 (h : Utf16 w c) (hroom : (utf8 c).length ≤ room.length) (s : CString) :
    ∃ p, p.tail = s ∧ parseUtf16 (w ++ s) (out.map some ++ room) out.length =
      .ok (some (p, (out ++ utf8 c).map some ++ room.drop (utf8 c).length,
        out.length + ((utf8 c).length - 1))) := by
  have hc : Char.ofNat c.toNat = c := Char.ofNat_toNat c
  have hlt := toNat_lt c
  cases h with
  | @one w _ hw hcp =>
    have hscalar := not_surrogate c
    have hlt' : c.toNat < 0x10000 := hcp ▸ hw.lt
    refine ⟨(w ++ s).drop 3, ?_, ?_⟩
    · rw [List.tail_drop, show 3 + 1 = w.length by rw [hw.length], List.drop_left]
    rw [parseUtf16, List.cons_append, List.tail_cons, hw.isHex, ok_bind, hexValue_append hw.length, hcp]
    dsimp only
    rw [if_neg (by decide)]
    by_cases h1 : c.toNat < 0x80
    · rw [if_pos h1, utf8_one h1, hc, store_bytes _ hroom, ok_bind, ← hc, ← utf8_one h1]
      rfl
    by_cases h2 : c.toNat < 0x800
    · rw [if_neg h1, if_pos h2, utf8_two (not_lt.1 h1) h2, hc, store_bytes _ hroom, ok_bind, ← hc,
        ← utf8_two (not_lt.1 h1) h2]
      rfl
    · rw [if_neg h1, if_neg h2, if_pos hscalar, utf8_three (not_lt.1 h2) hlt' hscalar, hc,
        store_bytes _ hroom, ok_bind, ← hc, ← utf8_three (not_lt.1 h2) hlt' hscalar]
      rfl
  | @pair w v _ hw hv hge hlead htrail =>
    refine ⟨(w ++ '\\' :: 'u' :: v ++ s).drop 9, ?_, ?_⟩
    · have hlen : (w ++ '\\' :: 'u' :: v).length = 10 := by
        rw [List.length_append, List.length_cons, List.length_cons, hw.length, hv.length]
      rw [List.tail_drop, show 9 + 1 = (w ++ '\\' :: 'u' :: v).length by rw [hlen], List.drop_left]
    have hdrop : (w ++ '\\' :: 'u' :: v ++ s).drop 4 = '\\' :: 'u' :: (v ++ s) := by
      rw [← hw.length, List.append_assoc, List.drop_left]
      rfl
    have hsum : (hexValue w - 0xD800) * 0x400 + (hexValue v - 0xDC00) + 0x10000 = c.toNat := by omega
    have hutf := @surrogates_eq (hexValue w) (hexValue v) (by omega) (by omega) (by omega) (by omega)
    rw [hsum] at hutf
    rw [parseUtf16, List.cons_append, List.tail_cons, List.append_assoc, hw.isHex, ok_bind,
      hexValue_append hw.length, ← List.append_assoc, hdrop,
      trailSurrogate_some hv (by omega) (by omega)]
    dsimp only
    rw [if_neg (by decide), if_neg (by omega), if_neg (by omega), if_neg (by omega), if_pos (by omega),
      ok_bind]
    dsimp only
    rw [hutf, utf8_four hge hlt, hc, store_bytes _ hroom, ok_bind]
    rw [← hc, ← utf8_four hge hlt]
    rfl

/-- The encoding is shorter than the escapes. -/
theorem Utf16.length (h : Utf16 w c) : (utf8 c).length + 2 ≤ w.length := by
  have hlen : (utf8 c).length = (encode c).length := List.length_map _
  cases h with
  | one hw hcp =>
    have hlt : c.toNat < 0x10000 := hcp ▸ hw.lt
    rw [List.length_cons, hw.length, hlen]
    by_cases h1 : c.toNat < 0x80
    · rw [encode_one h1]
      simp
    by_cases h2 : c.toNat < 0x800
    · rw [encode_two (not_lt.1 h1) h2]
      simp
    · rw [encode_three (not_lt.1 h2) hlt]
      simp
  | pair hw hv hge =>
    rw [List.length_cons, List.length_append, List.length_cons, List.length_cons, hw.length, hv.length, hlen,
      encode_four hge]
    simp

theorem trailSurrogate_cases (h : Body left) (rest : CString) :
    trailSurrogate (left ++ '\"' :: rest) = .ok none ∨ ∃ v left', left = '\\' :: 'u' :: (v ++ left') ∧
      Hex v ∧ 0xDC00 ≤ hexValue v ∧ hexValue v ≤ 0xDFFF ∧ Body left' := by
  rw [trailSurrogate]
  cases h with
  | nil => exact .inl rfl
  | @char c s hq hb hnul hs =>
    rw [List.cons_append, deref_cons, ok_bind]
    exact .inl (if_pos hb)
  | @escape c s hnul hs =>
    rw [List.cons_append, deref_cons, ok_bind, if_neg (by decide), List.tail_cons, List.cons_append,
      deref_cons, ok_bind]
    by_cases hu : c = 'u'
    · subst hu
      rw [if_neg (by decide), List.tail_cons]
      rcases isHex_body 4 hs rest with hfalse | ⟨htrue, v, left, rfl, hlen, hdigits, hbody⟩
      · rw [hfalse]
        exact .inl rfl
      · rw [htrue, ok_bind, List.append_assoc, hexValue_append hlen]
        dsimp only
        by_cases hrange : 0xDC00 ≤ hexValue v ∧ hexValue v ≤ 0xDFFF
        · exact .inr ⟨v, left, rfl, ⟨hlen, hdigits⟩, hrange.1, hrange.2, hbody⟩
        · rw [if_pos (by right; omega)]
          exact .inl rfl
    · rw [if_pos hu]
      exact .inl rfl

/-- The characters behind `\u` are hexadecimal digits, which are no surrogate, or nothing is written. -/
theorem parseUtf16_cases (h : Body left) (rest : CString) (output : Buffer) (processed : ℕ) :
    parseUtf16 ('u' :: left ++ '\"' :: rest) output processed = .ok none ∨
      ∃ w c left', 'u' :: left = w ++ left' ∧ Utf16 w c ∧ Body left' := by
  rcases isHex_body 4 h rest with hfalse | ⟨htrue, w, left, rfl, hlen, hdigits, hbody⟩
  · left
    rw [parseUtf16, List.cons_append, List.tail_cons, hfalse]
    rfl
  have hw : Hex w := ⟨hlen, hdigits⟩
  have hlt := hw.lt
  by_cases hscalar : hexValue w < 0xD800 ∨ 0xDFFF < hexValue w
  · refine .inr ⟨'u' :: w, Char.ofNat (hexValue w), left, rfl, .one hw ?_, hbody⟩
    exact (toNat_ofNat (hscalar.imp_right fun h => ⟨h, by omega⟩)).symm
  -- from here on it is a surrogate
  have hdrop : (w ++ left ++ '\"' :: rest).drop 4 = left ++ '\"' :: rest := by
    rw [← hlen, List.append_assoc, List.drop_left]
  rw [parseUtf16, List.cons_append, List.tail_cons, htrue, ok_bind, hdrop,
    show hexValue (w ++ left ++ '\"' :: rest) = hexValue w by rw [List.append_assoc, hexValue_append hlen]]
  dsimp only
  rw [if_neg (by decide), if_neg (by omega), if_neg (by omega), if_neg hscalar]
  by_cases hlead : hexValue w ≥ 0xD800 ∧ hexValue w ≤ 0xDBFF
  · rw [if_pos hlead]
    rcases trailSurrogate_cases hbody rest with hnone | ⟨v, left, rfl, hv, h1, h2, hbody⟩
    · rw [hnone]
      exact .inl rfl
    · obtain ⟨c, hc⟩ : ∃ c : Char,
          c.toNat = (hexValue w - 0xD800) * 0x400 + (hexValue v - 0xDC00) + 0x10000 :=
        ⟨_, toNat_ofNat (.inr ⟨by omega, by omega⟩)⟩
      refine .inr ⟨_, c, left, ?_, .pair hw hv (by omega) (by omega) (by omega), hbody⟩
      simp only [List.cons_append, List.append_assoc]
  · exact .inl (if_neg hlead)

end

/-! ## What a string stands for -/

/-- The text between quotation marks stands for these bytes. -/
inductive Decodes : CString → CString → Prop
  | nil : Decodes [] []
  | char {c : Char} {s t : CString} : 0x20 ≤ c.toNat → c ≠ '\"' → c ≠ '\\' → Decodes s t →
    Decodes (c :: s) (c :: t)
  | escape {c e : Char} {s t : CString} : unescape c = some e → Decodes s t →
    Decodes ('\\' :: c :: s) (e :: t)
  | utf16 {w s t : CString} {c : Char} : Utf16 w c → Decodes s t →
    Decodes ('\\' :: (w ++ s)) (utf8 c ++ t)

section
variable {input left rest s t w : CString} {len fuel : ℕ} {out : CString} {room : Buffer} {c : Char}

theorem Decodes.length (h : Decodes s t) : t.length ≤ s.length := by
  induction h with
  | nil => exact le_rfl
  | char _ _ _ _ ih => exact Nat.succ_le_succ ih
  | escape _ _ ih =>
    simp only [List.length_cons]
    omega
  | utf16 hw _ ih =>
    have hlen := hw.length
    simp only [List.length_cons, List.length_append]
    omega

theorem unescape_ne {c e : Char} (h : unescape c = some e) : c ≠ NUL := by
  rintro rfl
  cases h

theorem isxdigit_plain (h : isxdigit c = true) : c ≠ '\"' ∧ c ≠ '\\' ∧ c ≠ NUL := by
  refine ⟨?_, ?_, ?_⟩
  all_goals
    rintro rfl
    exact absurd h (by decide)

theorem Body.hex (hw : Hex w) (hs : Body s) : Body (w ++ s) := by
  have hplain : ∀ c ∈ w, isxdigit c = true := hw.digits
  clear hw
  induction w with
  | nil => exact hs
  | cons c w ih =>
    rw [List.forall_mem_cons] at hplain
    obtain ⟨h1, h2, h3⟩ := isxdigit_plain hplain.1
    exact .char h1 h2 h3 (ih hplain.2)

theorem Body.utf16 (hw : Utf16 w c) (hs : Body s) : Body ('\\' :: (w ++ s)) := by
  cases hw with
  | one hw _ => exact .escape (by decide) (.hex hw hs)
  | pair hw hv =>
    rw [List.cons_append, List.append_assoc]
    exact .escape (by decide) (.hex hw (.escape (by decide) (.hex hv hs)))

theorem Decodes.body (h : Decodes s t) : Body s := by
  induction h with
  | nil => exact .nil
  | @char c s t hc hq hb _ ih =>
    refine .char hq hb ?_ ih
    rintro rfl
    exact absurd hc (by decide)
  | escape hc _ ih => exact .escape (unescape_ne hc) ih
  | utf16 hw _ ih => exact .utf16 hw ih

section
variable (hinput : input.length = len + rest.length + 1)
include hinput

/-- A character of which the code point is given. -/
theorem processLoop_utf16 (hw : Utf16 w c) (hle : ('\\' :: (w ++ left)).length ≤ len)
    (hroom : (utf8 c).length ≤ room.length) :
    processLoop input len (fuel + 1) ('\\' :: (w ++ left) ++ '\"' :: rest) (out.map some ++ room) out.length =
      processLoop input len fuel (left ++ '\"' :: rest)
        ((out ++ utf8 c).map some ++ room.drop (utf8 c).length) (out ++ utf8 c).length := by
  obtain ⟨p, hp, hparse⟩ := @parseUtf16_utf16 w out room c hw hroom (left ++ '\"' :: rest)
  obtain ⟨w', hu⟩ : ∃ w', w = 'u' :: w' := by
    cases hw with
    | one => exact ⟨_, rfl⟩
    | pair => exact ⟨_, rfl⟩
  have hpos := utf8_length_pos c
  rw [processLoop, List.cons_append, deref_cons]
  refine (if_pos ⟨by decide, (test_iff hinput hle).2 (List.cons_ne_nil _ _)⟩).trans ?_
  rw [if_pos rfl, List.tail_cons, List.append_assoc, hparse, hu, List.cons_append, deref_cons, ok_bind]
  refine (if_pos rfl).trans ?_
  rw [ok_bind]
  dsimp only
  rw [hp, List.length_append, Nat.add_assoc, Nat.sub_add_cancel hpos]

/-- **The loop of `process_string`** writes what the string stands for. -/
theorem processLoop_decodes (h : Decodes left t) (hle : left.length ≤ len) (hroom : t.length < room.length)
    (hfuel : left.length < fuel) :
    processLoop input len fuel (left ++ '\"' :: rest) (out.map some ++ room) out.length =
      .ok (some ((out ++ t).map some ++ room.drop t.length, (out ++ t).length)) := by
  induction h generalizing fuel out room with
  | nil =>
    obtain ⟨fuel, rfl⟩ := Nat.exists_eq_succ_of_ne_zero (Nat.ne_zero_of_lt hfuel)
    rw [List.append_nil]
    exact processLoop_end hinput
  | @char c s t hc hq hb hs ih =>
    obtain ⟨fuel, rfl⟩ := Nat.exists_eq_succ_of_ne_zero (Nat.ne_zero_of_lt hfuel)
    simp only [List.length_cons] at hle hroom hfuel
    rw [processLoop_char hinput hle hc hb (by omega),
      ih (by omega) (by rw [List.length_drop]; omega) (by omega)]
    simp only [List.append_assoc, List.singleton_append, List.drop_drop, List.length_cons, Nat.add_comm 1]
  | @escape c e s t hc hs ih =>
    obtain ⟨fuel, rfl⟩ := Nat.exists_eq_succ_of_ne_zero (Nat.ne_zero_of_lt hfuel)
    simp only [List.length_cons] at hle hroom hfuel
    rw [processLoop_escape hinput hle hc (by omega), ih (by omega) (by rw [List.length_drop]; omega) (by omega)]
    simp only [List.append_assoc, List.singleton_append, List.drop_drop, List.length_cons, Nat.add_comm 1]
  | @utf16 w s t c hw hs ih =>
    obtain ⟨fuel, rfl⟩ := Nat.exists_eq_succ_of_ne_zero (Nat.ne_zero_of_lt hfuel)
    simp only [List.length_cons, List.length_append] at hle hroom hfuel
    rw [processLoop_utf16 hinput hw (by simpa using hle) (by omega),
      ih (by omega) (by rw [List.length_drop]; omega) (by omega)]
    simp only [List.append_assoc, List.drop_drop, List.length_append]

/-- The loop gives up, or the string stands for something. -/
theorem processLoop_cases (h : Body left) (hle : left.length ≤ len) (hroom : left.length < room.length)
    (hfuel : left.length < fuel) :
    processLoop input len fuel (left ++ '\"' :: rest) (out.map some ++ room) out.length = .ok none ∨
      ∃ t, Decodes left t := by
  induction hn : left.length using Nat.strong_induction_on generalizing left fuel out room with
  | _ n ih =>
    subst hn
    obtain ⟨fuel, rfl⟩ := Nat.exists_eq_succ_of_ne_zero (Nat.ne_zero_of_lt hfuel)
    cases h with
    | nil => exact .inr ⟨[], .nil⟩
    | @char c s hq hb hnul hs =>
      by_cases hc : c.toNat < 0x20
      · exact .inl (processLoop_control hinput hle hc hnul)
      · simp only [List.length_cons] at hle hroom hfuel
        rw [processLoop_char hinput hle (not_lt.1 hc) hb (by omega)]
        refine (ih s.length (by simp) hs (by omega) (by rw [List.length_drop]; omega) (by omega) rfl).imp_right ?_
        rintro ⟨t, ht⟩
        exact ⟨c :: t, .char (not_lt.1 hc) hq hb ht⟩
    | @escape c s hnul hs =>
      by_cases hu : c = 'u'
      · subst hu
        rcases parseUtf16_cases hs rest (out.map some ++ room) out.length with hnone | ⟨w, c, s', hw, hutf, hs'⟩
        · left
          rw [processLoop, List.cons_append, deref_cons]
          refine (if_pos ⟨by decide, (test_iff hinput hle).2 (List.cons_ne_nil _ _)⟩).trans ?_
          rw [if_pos rfl, List.tail_cons, hnone, List.cons_append, deref_cons]
          rfl
        · rw [hw] at hle hroom hfuel ih ⊢
          have hlen := hutf.length
          simp only [List.length_cons, List.length_append] at hle hroom hfuel ih
          rw [processLoop_utf16 hinput hutf (by simpa using hle) (by omega)]
          refine (ih s'.length (by omega) hs' (by omega) (by rw [List.length_drop]; omega) (by omega) rfl).imp_right ?_
          rintro ⟨t, ht⟩
          exact ⟨utf8 c ++ t, .utf16 hutf ht⟩
      · cases he : unescape c with
        | none => exact .inl (processLoop_noEscape hinput hle hu he)
        | some e =>
          simp only [List.length_cons] at hle hroom hfuel ih
          rw [processLoop_escape hinput hle he (by omega)]
          refine (ih s.length (by omega) hs (by omega) (by rw [List.length_drop]; omega) (by omega) rfl).imp_right ?_
          rintro ⟨t, ht⟩
          exact ⟨e :: t, .escape he ht⟩

end

/-- The string in a buffer that is terminated. -/
theorem string_cstring (t : CString) (rest : Buffer) :
    string (t.map some ++ some NUL :: rest) = some (t.takeWhile (· ≠ NUL)) := by
  induction t with
  | nil => rfl
  | cons c t ih =>
    rw [List.map_cons, List.cons_append, string, List.takeWhile_cons]
    by_cases hc : c = NUL
    · rw [if_pos hc, if_neg (by simpa using hc)]
    · rw [if_neg hc, ih, if_pos (by simpa using hc)]
      rfl

/-- **`process_string`** stays in its buffers. -/
theorem processString_decodes (h : Decodes s t) (rest : CString) :
    processString (s ++ '\"' :: rest) s.length = .ok (some (t.takeWhile (· ≠ NUL))) := by
  have hlen := h.length
  have hinput : (s ++ '\"' :: rest).length = s.length + rest.length + 1 := by
    rw [List.length_append, List.length_cons]
    omega
  have hloop := @processLoop_decodes _ _ _ _ _ _ [] (fresh (s.length + 1)) hinput h le_rfl
    (by rw [fresh_length]; omega) (Nat.lt_succ_self _)
  simp only [List.map_nil, List.nil_append, List.length_nil] at hloop
  have hroom : [NUL].length ≤ ((fresh (s.length + 1)).drop t.length).length := by
    rw [List.length_drop, fresh_length, List.length_singleton]
    omega
  have htake : ((t ++ [NUL]).map some ++ ((fresh (s.length + 1)).drop t.length).drop [NUL].length).take
      (t.length + 1) = t.map some ++ [some NUL] := by
    rw [List.take_left' (by simp), List.map_append]
    rfl
  rw [processString, hloop, ok_bind]
  dsimp only
  rw [store_next t [NUL] hroom, inBounds, ok_bind, htake, string_cstring]
  rfl

theorem processString_cases (h : Body s) (rest : CString) :
    processString (s ++ '\"' :: rest) s.length = .ok none ∨ ∃ t, Decodes s t := by
  have hinput : (s ++ '\"' :: rest).length = s.length + rest.length + 1 := by
    rw [List.length_append, List.length_cons]
    omega
  have hcases := @processLoop_cases _ _ _ _ _ [] (fresh (s.length + 1)) hinput h le_rfl
    (by rw [fresh_length]; omega) (Nat.lt_succ_self _)
  refine hcases.imp_left fun hnone => ?_
  simp only [List.map_nil, List.nil_append, List.length_nil] at hnone
  rw [processString, hnone]
  rfl

/-! ## `get_quoted_string` -/

/-- A string that is followed by something. -/
theorem getQuotedString_body (h : Body s) {rest : CString} (hne : rest ≠ []) (hnul : NUL ∉ rest) (c : Char) :
    getQuotedString (memory (c :: (s ++ '\"' :: rest))) =
      (do .ok (← processString (s ++ '\"' :: memory rest) s.length, memory rest)) := by
  obtain ⟨e, rest, rfl⟩ := List.exists_cons_of_ne_nil hne
  have he : e ≠ NUL := fun heq => hnul (heq ▸ List.mem_cons_self)
  have hskip : skipQuotes (memory (c :: (s ++ '\"' :: e :: rest))) = .ok (memory (e :: rest)) := by
    rw [skipQuotes, memory_cons, List.tail_cons, memory_append, memory_cons]
    exact skipQuotesLoop_body h _
  have hlen : (memory (c :: (s ++ '\"' :: e :: rest))).length - (memory (e :: rest)).length - 2 =
      s.length := by
    simp only [memory_length, List.length_cons, List.length_append]
    omega
  rw [getQuotedString, hskip, ok_bind, memory_cons e, deref_cons, ok_bind, if_neg he, ← memory_cons e, hlen,
    memory_cons, List.tail_cons, memory_append, memory_cons]

/-- Nothing is read of a string at the very end. -/
theorem getQuotedString_end (h : Body s) (c : Char) :
    getQuotedString (memory (c :: (s ++ ['\"']))) = .ok (none, memory []) := by
  have hskip : skipQuotes (memory (c :: (s ++ ['\"']))) = .ok (memory []) := by
    rw [skipQuotes, memory_cons, List.tail_cons, memory_append, memory_cons]
    exact skipQuotesLoop_body h _
  rw [getQuotedString, hskip]
  rfl

/-- **`get_quoted_string`** neither leaves the memory nor runs on, and is behind a string or at the
    terminator afterwards. -/
theorem getQuotedString_total (h : NUL ∉ s) (c : Char) : ∃ value rest, rest <:+ s ∧
    getQuotedString (memory (c :: s)) = .ok (value, memory rest) ∧
    ∀ t, value = some t → NUL ∉ t ∧ rest ≠ [] := by
  have hnil : ∀ p, skipQuotesLoop (memory s) = .ok (memory []) → p = memory (c :: s) →
      getQuotedString p = .ok (none, memory []) := by
    rintro p hskip rfl
    rw [getQuotedString, skipQuotes, memory_cons, List.tail_cons, hskip]
    rfl
  rcases skipQuotesLoop_memory h with ⟨body, rest, rfl, hbody, hskip⟩ | hskip
  · have hsuffix : rest <:+ body ++ '\"' :: rest := ⟨body ++ ['\"'], by simp⟩
    have hrest := notMem_of_suffix h hsuffix
    by_cases hne : rest = []
    · subst hne
      exact ⟨none, [], hsuffix, hnil _ hskip rfl, nofun⟩
    · rw [getQuotedString_body hbody hne hrest]
      rcases processString_cases hbody (memory rest) with hnone | ⟨t, ht⟩
      · rw [hnone]
        exact ⟨none, rest, hsuffix, rfl, nofun⟩
      · rw [processString_decodes ht]
        refine ⟨some (t.takeWhile (· ≠ NUL)), rest, hsuffix, rfl, fun t' ht' => ?_⟩
        obtain rfl := Option.some.inj ht'
        refine ⟨fun hmem => ?_, hne⟩
        exact absurd (List.mem_takeWhile_imp hmem) (by decide)
  · exact ⟨none, [], List.nil_suffix, hnil _ hskip rfl, nofun⟩

end

end NFStash.JSON
