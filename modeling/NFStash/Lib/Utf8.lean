/-
  UTF-8, with octets as natural numbers.

  The encoding is that of the core library.  `encode_one` to `encode_four` are its octets, for
  programs that compute them or compute with them, and `and_or_eq` puts them together from bits.
-/
import NFStash.Lib.CString

namespace Utf8

/-- The octets of a character. -/
def encode (c : Char) : List ℕ := (String.utf8EncodeChar c).map UInt8.toNat

section
variable {c : Char} {n : ℕ}

/-! ## Characters -/

theorem toNat_lt (c : Char) : c.toNat < 0x110000 := by
  have hvalid : c.toNat.isValidChar := c.valid
  rcases hvalid with h | h
  · exact h.trans (by decide)
  · exact h.2

theorem toNat_ofNat (h : n < 0xD800 ∨ 0xDFFF < n ∧ n < 0x110000) : (Char.ofNat n).toNat = n := by
  have hvalid : n.isValidChar := h
  rw [Char.ofNat, dif_pos hvalid]
  rfl

/-- No character is a surrogate. -/
theorem not_surrogate (c : Char) : c.toNat < 0xD800 ∨ 0xDFFF < c.toNat := by
  have hvalid : c.toNat.isValidChar := c.valid
  exact hvalid.imp_right And.left

/-! ## Encoding -/

theorem encode_one (h : c.toNat < 0x80) : encode c = [c.toNat] := by
  have hle : c.toNat ≤ 0x7f := Nat.le_of_lt_succ h
  have hn : c.val.toNat = c.toNat := rfl
  rw [encode, String.utf8EncodeChar]
  simp only [hn, if_pos hle, List.map_cons, List.map_nil, UInt8.toNat_ofNat']
  rw [Nat.mod_eq_of_lt (by omega)]

theorem encode_two (h1 : 0x80 ≤ c.toNat) (h2 : c.toNat < 0x800) :
    encode c = [c.toNat / 64 + 0xC0, c.toNat % 64 + 0x80] := by
  have hle : ¬ c.toNat ≤ 0x7f := not_le.2 h1
  have hle' : c.toNat ≤ 0x7ff := Nat.le_of_lt_succ h2
  have hn : c.val.toNat = c.toNat := rfl
  rw [encode, String.utf8EncodeChar]
  simp only [hn, if_neg hle, if_pos hle', List.map_cons, List.map_nil, UInt8.toNat_ofNat']
  congr 1
  · omega
  · congr 1
    omega

theorem encode_three (h1 : 0x800 ≤ c.toNat) (h2 : c.toNat < 0x10000) :
    encode c = [c.toNat / 4096 + 0xE0, c.toNat / 64 % 64 + 0x80, c.toNat % 64 + 0x80] := by
  have hle : ¬ c.toNat ≤ 0x7f := not_le.2 (lt_of_lt_of_le (by decide) h1)
  have hle' : ¬ c.toNat ≤ 0x7ff := not_le.2 h1
  have hle'' : c.toNat ≤ 0xffff := Nat.le_of_lt_succ h2
  have hn : c.val.toNat = c.toNat := rfl
  rw [encode, String.utf8EncodeChar]
  simp only [hn, if_neg hle, if_neg hle', if_pos hle'', List.map_cons, List.map_nil, UInt8.toNat_ofNat']
  refine List.cons_eq_cons.2 ⟨by omega, List.cons_eq_cons.2 ⟨by omega, ?_⟩⟩
  congr 1
  omega

theorem encode_four (h : 0x10000 ≤ c.toNat) : encode c =
    [c.toNat / 262144 + 0xF0, c.toNat / 4096 % 64 + 0x80, c.toNat / 64 % 64 + 0x80, c.toNat % 64 + 0x80] := by
  have hle : ¬ c.toNat ≤ 0x7f := not_le.2 (lt_of_lt_of_le (by decide) h)
  have hle' : ¬ c.toNat ≤ 0x7ff := not_le.2 (lt_of_lt_of_le (by decide) h)
  have hle'' : ¬ c.toNat ≤ 0xffff := not_le.2 h
  have hn : c.val.toNat = c.toNat := rfl
  have hlt := toNat_lt c
  rw [encode, String.utf8EncodeChar]
  simp only [hn, if_neg hle, if_neg hle', if_neg hle'', List.map_cons, List.map_nil, UInt8.toNat_ofNat']
  refine List.cons_eq_cons.2 ⟨by omega, List.cons_eq_cons.2 ⟨by omega, List.cons_eq_cons.2 ⟨by omega, ?_⟩⟩⟩
  congr 1
  omega

/-- The bytes of a character that is not ASCII. -/
theorem encode_high (h : 0x80 ≤ c.toNat) : ∀ b ∈ encode c, 0x80 ≤ b ∧ b < 256 := by
  have hlt := toNat_lt c
  by_cases h2 : c.toNat < 0x800
  · rw [encode_two h h2]
    exact List.forall_mem_cons.2 ⟨by omega, List.forall_mem_singleton.2 (by omega)⟩
  · by_cases h3 : c.toNat < 0x10000
    · rw [encode_three (not_lt.1 h2) h3]
      exact List.forall_mem_cons.2 ⟨by omega, List.forall_mem_cons.2 ⟨by omega,
        List.forall_mem_singleton.2 (by omega)⟩⟩
    · rw [encode_four (not_lt.1 h3)]
      exact List.forall_mem_cons.2 ⟨by omega, List.forall_mem_cons.2 ⟨by omega,
        List.forall_mem_cons.2 ⟨by omega, List.forall_mem_singleton.2 (by omega)⟩⟩⟩

/-! ## Bits -/

/-- Bits that are set above others. -/
theorem and_or_eq (n : ℕ) {k high : ℕ} (hk : 2 ^ k ∣ high) :
    (n &&& (2 ^ k - 1)) ||| high = n % 2 ^ k + high := by
  obtain ⟨m, rfl⟩ := hk
  rw [Nat.and_two_pow_sub_one_eq_mod, Nat.or_comm, Nat.add_comm,
    Nat.two_pow_add_eq_or_of_lt (Nat.mod_lt n (Nat.two_pow_pos k))]

theorem tail_or (n : ℕ) : (n &&& 0x3F) ||| 0x80 = n % 64 + 0x80 := and_or_eq n (k := 6) (by decide)

theorem two_or (n : ℕ) : (n &&& 0x1F) ||| 0xC0 = n % 32 + 0xC0 := and_or_eq n (k := 5) (by decide)

theorem three_or (n : ℕ) : (n &&& 0x0F) ||| 0xE0 = n % 16 + 0xE0 := and_or_eq n (k := 4) (by decide)

theorem four_or (n : ℕ) : (n &&& 0x07) ||| 0xF0 = n % 8 + 0xF0 := and_or_eq n (k := 3) (by decide)

/-- Six more bits. -/
theorem shift_or (n b : ℕ) : n <<< 6 ||| (b &&& 0x3F) = n * 64 + b % 64 := by
  rw [show (0x3F : ℕ) = 2 ^ 6 - 1 from rfl, Nat.and_two_pow_sub_one_eq_mod,
    ← Nat.shiftLeft_add_eq_or_of_lt (Nat.mod_lt b (Nat.two_pow_pos 6)), Nat.shiftLeft_eq]

end

end Utf8
