/-
  Codecs into buffers of a given size, and buffers that grow in fixed steps.

  A codec writes a value to the start of a buffer and reads it back; it succeeds on the buffers that
  are long enough, and leaves their length.  `growth step base size` is the least number of steps
  that make a buffer of `base` bytes long enough (`growth_isLeast`).
-/
import NFStash.Lib.Words
import Mathlib.Order.Bounds.Defs

namespace Codecs

structure Codec (α : Type) where
  /-- the length of the encoding -/
  size : α → ℕ
  /-- whether the value could be encoded, and the buffer after that -/
  encode : α → List UInt8 → Bool × List UInt8
  decode : List UInt8 → Option α
  encode_length : ∀ v buf, (encode v buf).2.length = buf.length
  encode_iff : ∀ v buf, (encode v buf).1 = true ↔ size v ≤ buf.length
  decode_encode : ∀ v buf, (encode v buf).1 = true → decode (encode v buf).2 = some v

/-- A value of which nothing but the length of its encoding matters. -/
def Codec.padding (n : ℕ) : Codec Unit where
  size _ := n
  encode _ buf := (decide (n ≤ buf.length), buf)
  decode _ := some ()
  encode_length _ _ := rfl
  encode_iff _ _ := decide_eq_true_iff
  decode_encode _ _ _ := rfl

/-- A word of four bytes, the most significant first. -/
def Codec.word : Codec UInt32 where
  size _ := 4
  encode v buf :=
    if 4 ≤ buf.length then (true, (Words.bytes 4 v.toNat).reverse ++ buf.drop 4) else (false, buf)
  decode buf := some (.ofNat (Words.ofBytes (buf.take 4).reverse))
  encode_length v buf := by
    split_ifs with h
    · simp only [List.length_append, List.length_reverse, Words.bytes_length, List.length_drop]
      omega
    · rfl
  encode_iff v buf := by
    split_ifs with h
    · exact iff_of_true rfl h
    · simpa using h
  decode_encode v buf hv := by
    split_ifs at hv ⊢ with h
    have hlen : (Words.bytes 4 v.toNat).reverse.length = 4 := by simp
    have hword : Words.ofBytes (Words.bytes 4 v.toNat) = v.toNat := by
      have htake := Words.ofBytes_take_bytes (w := 4) (k := 4) (n := v.toNat)
      rw [List.take_of_length_le Words.bytes_length.le] at htake
      exact htake.trans (Nat.mod_eq_of_lt v.toNat_lt)
    rw [List.take_left' hlen, List.reverse_reverse, hword, UInt32.ofNat_toNat]

/-! ## Growth -/

/-- The number of steps from `base` to at least `size`. -/
def growth (step base size : ℕ) : ℕ := (size - base + (step - 1)) / step

section
variable {step base size : ℕ}

theorem growth_le_iff (h : 0 < step) {k : ℕ} : growth step base size ≤ k ↔ size ≤ base + step * k := by
  rw [growth, Nat.div_le_iff_le_mul_add_pred h]
  omega

theorem growth_isLeast (h : 0 < step) :
    IsLeast {k | size ≤ base + step * k} (growth step base size) :=
  ⟨(growth_le_iff h).1 le_rfl, fun _ hk => (growth_le_iff h).2 hk⟩

theorem growth_eq_zero (h : 0 < step) : growth step base size = 0 ↔ size ≤ base := by
  rw [← Nat.le_zero, growth_le_iff h, Nat.mul_zero, Nat.add_zero]

/-- One step less from a buffer that has grown by one. -/
theorem growth_succ (h : 0 < step) (hlt : base < size) :
    growth step base size = growth step (base + step) size + 1 := by
  refine eq_of_forall_ge_iff fun k => ?_
  cases k with
  | zero =>
    rw [Nat.le_zero, growth_eq_zero h]
    omega
  | succ k =>
    rw [growth_le_iff h, Nat.add_le_add_iff_right, growth_le_iff h, Nat.mul_succ]
    omega

end

end Codecs
