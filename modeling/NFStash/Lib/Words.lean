/-
  Arrays of machine words, copied byte by byte.

  A word is stored as its bytes, the least significant first.  `copied w k xs` are the words that
  are read back after the first `k` bytes of the words `xs`, of `w` bytes each, have been copied
  to zeroed memory (`load_memcpy`); `copied_eq_iff` tells when these are the same words.
-/
import NFStash.Lib.CString

namespace Words

open CLib

/-! ## Bytes of words -/

/-- The `w` bytes of a word. -/
def bytes : ℕ → ℕ → List UInt8
  | 0, _ => []
  | w + 1, n => .ofNat n :: bytes w (n / 256)

/-- The word that some bytes make. -/
def ofBytes : List UInt8 → ℕ
  | [] => 0
  | b :: bs => b.toNat + 256 * ofBytes bs

/-- The memory of an array of words. -/
def store (w : ℕ) (xs : List ℕ) : List UInt8 := xs.flatMap (bytes w)

/-- The array of `n` words in memory. -/
def load (w : ℕ) : ℕ → List UInt8 → List ℕ
  | 0, _ => []
  | n + 1, bs => ofBytes (bs.take w) :: load w n (bs.drop w)

/-- What is read of words of which `k` bytes have been copied. -/
def copied (w : ℕ) : ℕ → List ℕ → List ℕ
  | _, [] => []
  | k, x :: xs => x % 256 ^ min k w :: copied w (k - w) xs

section
variable {w k m n x : ℕ} {xs : List ℕ} {bs : List UInt8}

@[simp]
theorem bytes_length : (bytes w n).length = w := by
  induction w generalizing n with
  | zero => rfl
  | succ w ih => rw [bytes, List.length_cons, ih]

@[simp]
theorem store_length : (store w xs).length = w * xs.length := by
  induction xs with
  | nil => rfl
  | cons x xs ih =>
    rw [store, List.flatMap_cons, List.length_append, bytes_length, List.length_cons, Nat.mul_succ,
      Nat.add_comm]
    exact congrArg (· + w) ih

theorem mod_pow_mod_pow (m n : ℕ) : x % 256 ^ m % 256 ^ n = x % 256 ^ min m n := by
  rcases Nat.le_total m n with h | h
  · have hlt : x % 256 ^ m < 256 ^ m := Nat.mod_lt _ (by positivity)
    rw [Nat.min_eq_left h, Nat.mod_eq_of_lt (hlt.trans_le (Nat.pow_le_pow_right (by decide) h))]
  · rw [Nat.min_eq_right h, Nat.mod_mod_of_dvd _ (pow_dvd_pow 256 h)]

/-- Zeroed memory adds nothing. -/
theorem ofBytes_zeros : ofBytes (bs ++ List.replicate m 0) = ofBytes bs := by
  induction bs with
  | nil =>
    induction m with
    | zero => rfl
    | succ m ih =>
      rw [List.nil_append] at ih ⊢
      simp [List.replicate_succ, ofBytes, ih]
  | cons b bs ih => rw [List.cons_append, ofBytes, ih, ofBytes]

/-- The first bytes of a word. -/
theorem ofBytes_take_bytes : ofBytes ((bytes w n).take k) = n % 256 ^ min k w := by
  induction w generalizing n k with
  | zero => simp [bytes, ofBytes, Nat.mod_one]
  | succ w ih =>
    cases k with
    | zero => simp [ofBytes, Nat.mod_one]
    | succ k =>
      rw [bytes, List.take_succ_cons, ofBytes, ih, Nat.succ_min_succ, pow_succ', Nat.mod_mul,
        UInt8.toNat_ofNat']

/-- A copy to zeroed memory, word by word. -/
theorem memcpy_store_cons : memcpy (List.replicate (w * (x :: xs).length) 0) (store w (x :: xs)) k =
    ((bytes w x).take k ++ List.replicate (w - k) 0) ++
      memcpy (List.replicate (w * xs.length) 0) (store w xs) (k - w) := by
  have hstore : store w (x :: xs) = bytes w x ++ store w xs := rfl
  simp only [memcpy, hstore, List.take_append, bytes_length, List.drop_replicate, List.length_cons,
    Nat.mul_succ, List.append_assoc]
  refine congrArg ((bytes w x).take k ++ ·) ?_
  rcases Nat.le_total k w with hle | hle
  · -- the copy ends in this word
    rw [Nat.sub_eq_zero_of_le hle, List.take_zero, List.nil_append, List.nil_append,
      List.replicate_append_replicate, Nat.sub_zero]
    congr 1
    omega
  · rw [Nat.sub_eq_zero_of_le hle, List.replicate_zero, List.nil_append]
    congr 2
    omega

/-- **What a copy of some bytes gives.** -/
theorem load_memcpy : load w xs.length (memcpy (List.replicate (w * xs.length) 0) (store w xs) k) =
    copied w k xs := by
  induction xs generalizing k with
  | nil => rfl
  | cons x xs ih =>
    have hlen : ((bytes w x).take k ++ List.replicate (w - k) 0).length = w := by
      rw [List.length_append, List.length_take, bytes_length, List.length_replicate]
      omega
    rw [memcpy_store_cons, List.length_cons, load, List.take_left' hlen, List.drop_left' hlen, ih, copied,
      ofBytes_zeros, ofBytes_take_bytes]

/-- A copied word. -/
theorem copied_getElem? (i : ℕ) :
    (copied w k xs)[i]? = xs[i]?.map (· % 256 ^ min (k - w * i) w) := by
  induction xs generalizing k i with
  | nil => rfl
  | cons x xs ih =>
    cases i with
    | zero => rfl
    | succ i =>
      rw [copied, List.getElem?_cons_succ, ih, List.getElem?_cons_succ, Nat.mul_succ, Nat.sub_sub,
        Nat.add_comm w]

/-- **When a copy is complete**: what has not been copied of a word is zero. -/
theorem copied_eq_iff (h : ∀ x ∈ xs, x < 256 ^ w) :
    copied w k xs = xs ↔ ∀ i x, xs[i]? = some x → x < 256 ^ (k - w * i) := by
  constructor
  · intro he i x hx
    have hi : (copied w k xs)[i]? = xs[i]?.map (· % 256 ^ min (k - w * i) w) := copied_getElem? i
    rw [he, hx, Option.map_some, Option.some.injEq] at hi
    have hlt : x < 256 ^ min (k - w * i) w := hi ▸ Nat.mod_lt _ (by positivity)
    exact hlt.trans_le (Nat.pow_le_pow_right (by decide) (Nat.min_le_left ..))
  · intro hall
    refine List.ext_getElem? ?_
    intro i
    rw [copied_getElem?]
    cases hx : xs[i]? with
    | none => rfl
    | some x =>
      have hw := h x (List.mem_of_getElem? hx)
      have hi := hall i x hx
      rw [Option.map_some, Nat.mod_eq_of_lt]
      rcases Nat.le_total (k - w * i) w with hle | hle
      · rwa [Nat.min_eq_left hle]
      · rwa [Nat.min_eq_right hle]

end

end Words
