/-
  `ls.c`: the type and the permissions of an entry in a long listing.

  Three special bits are shown in the places of the three execute bits.  The sticky bit is shown
  with the owner's execute bit, where the others' should be: `lsperms_lossless_iff`.
-/
import NFStash.Types
import Mathlib.Data.Nat.Bitwise

namespace NFStash

open CLib

/-! ## Model -/

def S_ISUID : UInt32 := 0o4000
def S_ISGID : UInt32 := 0o2000
def S_ISVTX : UInt32 := 0o1000
def S_IXUSR : UInt32 := 0o100
def S_IXGRP : UInt32 := 0o10
def S_IXOTH : UInt32 := 0o1

def rwx : List CString :=
  [['-', '-', '-'], ['-', '-', 'x'], ['-', 'w', '-'], ['-', 'w', 'x'],
    ['r', '-', '-'], ['r', '-', 'x'], ['r', 'w', '-'], ['r', 'w', 'x']]

/-- The characters for the types of files. -/
def ftypes : CString := ['-', 'd', 'b', 'c', 'l', 's', 'p']

/-- `lsperms`: the string in `bits`. -/
def lsperms (type : Ftype3) (mode : UInt32) : CString :=
  let ftype := if 0 < type ∧ type < 8 then ftypes.getD (type - 1).toNat '?' else '?'
  let bits := ftype :: (rwx.getD ((mode >>> 6) &&& 7).toNat [] ++
    rwx.getD ((mode >>> 3) &&& 7).toNat [] ++ rwx.getD (mode &&& 7).toNat [])
  let bits := if mode &&& S_ISUID ≠ 0 then
    bits.set 3 (if mode &&& S_IXUSR ≠ 0 then 's' else 'S') else bits
  let bits := if mode &&& S_ISGID ≠ 0 then
    bits.set 6 (if mode &&& S_IXGRP ≠ 0 then 's' else 'l') else bits
  if mode &&& S_ISVTX ≠ 0 then
    bits.set 9 (if mode &&& S_IXUSR ≠ 0 then 't' else 'T') else bits

example : lsperms 2 0o40755 = "drwxr-xr-x".toList ∧ lsperms 1 0o4711 = "-rws--x--x".toList ∧
    lsperms 2 0o1777 = "drwxrwxrwt".toList ∧ lsperms 0 0 = "?---------".toList := by decide

/-! ## The bits of a mode -/

/-- A bit of a mode. -/
abbrev HasBit (bit mode : UInt32) : Prop := mode &&& bit ≠ 0

theorem hasBit_iff {bit mode : UInt32} (i : ℕ) (hbit : bit.toNat = 2 ^ i) :
    HasBit bit mode ↔ mode.toNat / 2 ^ i % 2 = 1 := by
  have hand : (mode &&& bit).toNat = (mode.toNat.testBit i).toNat * 2 ^ i := by
    rw [UInt32.toNat_and, hbit, Nat.and_two_pow]
  rw [HasBit, ne_eq, ← UInt32.toNat_inj, hand, UInt32.toNat_zero, Nat.testBit_eq_decide_div_mod_eq]
  by_cases h : mode.toNat / 2 ^ i % 2 = 1
  · simp [h]
  · simp [h]

section
variable {mode : UInt32}

theorem isuid_iff : HasBit S_ISUID mode ↔ mode.toNat / 2048 % 2 = 1 := hasBit_iff 11 rfl
theorem isgid_iff : HasBit S_ISGID mode ↔ mode.toNat / 1024 % 2 = 1 := hasBit_iff 10 rfl
theorem isvtx_iff : HasBit S_ISVTX mode ↔ mode.toNat / 512 % 2 = 1 := hasBit_iff 9 rfl

/-- An execute bit is the last of its three bits. -/
theorem ixusr_iff : HasBit S_IXUSR mode ↔ mode.toNat / 64 % 8 % 2 = 1 := by
  rw [Nat.mod_mod_of_dvd _ (by decide)]
  exact hasBit_iff 6 rfl

theorem ixgrp_iff : HasBit S_IXGRP mode ↔ mode.toNat / 8 % 8 % 2 = 1 := by
  rw [Nat.mod_mod_of_dvd _ (by decide)]
  exact hasBit_iff 3 rfl

theorem ixoth_iff : HasBit S_IXOTH mode ↔ mode.toNat % 8 % 2 = 1 := by
  rw [hasBit_iff 0 rfl, Nat.mod_mod_of_dvd _ (by decide), pow_zero, Nat.div_one]

end

/-- Three bits of a mode. -/
theorem toNat_and_seven (n : UInt32) : (n &&& 7).toNat = n.toNat % 8 := by
  rw [UInt32.toNat_and]
  exact Nat.and_two_pow_sub_one_eq_mod n.toNat 3

/-! ## Triples -/

/-- Three permissions, with a special bit shown in the place of the last: `on` if the execute bit that
    is looked at is set, else `off`. -/
def permTriple (on off : Char) (special exec : Bool) (n : ℕ) : CString :=
  if special then (rwx.getD n []).set 2 (if exec then on else off) else rwx.getD n []

theorem rwx_eq {n : ℕ} (h : n < 8) : ∃ a b c, rwx.getD n [] = [a, b, c] := by
  have hlen : ∀ m < 8, (rwx.getD m []).length = 3 := by decide
  exact List.length_eq_three.1 (hlen n h)

theorem permTriple_length (on off : Char) (special exec : Bool) (n : ℕ) :
    (permTriple on off special exec (n % 8)).length = 3 := by
  obtain ⟨a, b, c, hn⟩ := rwx_eq (Nat.mod_lt n (by decide : 0 < 8))
  simp only [permTriple, hn]
  split_ifs <;> rfl

/-- The string in parts. -/
theorem lsperms_eq (type : Ftype3) (mode : UInt32) :
    lsperms type mode = (if 0 < type ∧ type < 8 then ftypes.getD (type - 1).toNat '?' else '?') ::
      (permTriple 's' 'S' (HasBit S_ISUID mode) (HasBit S_IXUSR mode) (mode.toNat / 64 % 8) ++
        permTriple 's' 'l' (HasBit S_ISGID mode) (HasBit S_IXGRP mode) (mode.toNat / 8 % 8) ++
        permTriple 't' 'T' (HasBit S_ISVTX mode) (HasBit S_IXUSR mode) (mode.toNat % 8)) := by
  have hu : ((mode >>> 6) &&& 7).toNat = mode.toNat / 64 % 8 := by
    rw [toNat_and_seven, UInt32.toNat_shiftRight]
    exact congrArg (· % 8) (Nat.shiftRight_eq_div_pow ..)
  have hg : ((mode >>> 3) &&& 7).toNat = mode.toNat / 8 % 8 := by
    rw [toNat_and_seven, UInt32.toNat_shiftRight]
    exact congrArg (· % 8) (Nat.shiftRight_eq_div_pow ..)
  have ho : (mode &&& 7).toNat = mode.toNat % 8 := toNat_and_seven mode
  obtain ⟨a, b, c, habc⟩ := rwx_eq (Nat.mod_lt (mode.toNat / 64) (by decide : 0 < 8))
  obtain ⟨d, e, f, hdef⟩ := rwx_eq (Nat.mod_lt (mode.toNat / 8) (by decide : 0 < 8))
  obtain ⟨g, h, i, hghi⟩ := rwx_eq (Nat.mod_lt mode.toNat (by decide : 0 < 8))
  simp only [lsperms, hu, hg, ho, permTriple, habc, hdef, hghi, decide_eq_true_eq]
  split_ifs <;> rfl

/-! ## What is shown -/

/-- A type of file that has a character. -/
def IsFtype (type : Ftype3) : Prop := 1 ≤ type.toNat ∧ type.toNat ≤ 7

/-- The set-id, sticky and permission bits of a mode. -/
def lowTwelve (mode : UInt32) : ℕ := mode.toNat % 2 ^ 12

/-- The special bits are shown with the execute bits of the owner, of the group and of the others. -/
structure ShowsSpecial (type : Ftype3) (mode : UInt32) : Prop where
  setUid : HasBit S_ISUID mode →
    (lsperms type mode)[3]? = some (if HasBit S_IXUSR mode then 's' else 'S')
  setGid : HasBit S_ISGID mode →
    (lsperms type mode)[6]? = some (if HasBit S_IXGRP mode then 's' else 'l')
  sticky : HasBit S_ISVTX mode →
    (lsperms type mode)[9]? = some (if HasBit S_IXOTH mode then 't' else 'T')

/-- Nothing is lost in the strings for two files. -/
structure LosslessPerms (t₁ t₂ : Ftype3) (m₁ m₂ : UInt32) : Prop where
  injective : IsFtype t₁ → IsFtype t₂ → lsperms t₁ m₁ = lsperms t₂ m₂ →
    t₁ = t₂ ∧ lowTwelve m₁ = lowTwelve m₂
  shows₁ : ShowsSpecial t₁ m₁
  shows₂ : ShowsSpecial t₂ m₂
  unknown₁ : ¬ IsFtype t₁ → (lsperms t₁ m₁).head? = some '?'
  unknown₂ : ¬ IsFtype t₂ → (lsperms t₂ m₂).head? = some '?'

/-- If the sticky bit is set, the owner and the others have the same execute bit. -/
def StickyAgrees (mode : UInt32) : Prop :=
  HasBit S_ISVTX mode → (HasBit S_IXUSR mode ↔ HasBit S_IXOTH mode)

section
variable {type t₁ t₂ : Ftype3} {mode m₁ m₂ : UInt32}

theorem isFtype_iff : IsFtype type ↔ 0 < type ∧ type < 8 := by
  rw [IsFtype, UInt32.lt_iff_toNat_lt, UInt32.lt_iff_toNat_lt]
  show _ ↔ 0 < type.toNat ∧ type.toNat < 8
  omega

/-- **Other types** are shown as `?`. -/
theorem lsperms_unknown (h : ¬ IsFtype type) : (lsperms type mode).head? = some '?' := by
  rw [lsperms_eq, if_neg (isFtype_iff.not.1 h)]
  rfl

/-- The characters for the types differ. -/
theorem ftypes_injective (h₁ : IsFtype t₁) (h₂ : IsFtype t₂)
    (h : ftypes.getD (t₁ - 1).toNat '?' = ftypes.getD (t₂ - 1).toNat '?') : t₁ = t₂ := by
  have hinj : ∀ i < 7, ∀ j < 7, ftypes.getD i '?' = ftypes.getD j '?' → i = j := by decide
  have hsub (t : Ftype3) (ht : IsFtype t) : (t - 1).toNat = t.toNat - 1 := by
    have hle : (1 : UInt32) ≤ t := UInt32.le_iff_toNat_le.2 ht.1
    rw [UInt32.toNat_sub_of_le _ _ hle]
    rfl
  rw [hsub _ h₁, hsub _ h₂] at h
  obtain ⟨h₁, h₁'⟩ := h₁
  obtain ⟨h₂, h₂'⟩ := h₂
  have hij := hinj _ (by omega) _ (by omega) h
  exact UInt32.toNat_inj.1 (by omega)

/-- The triples of the owner and of the group: nothing is lost. -/
theorem permTriple_own_inj {on off : Char} (h : (on, off) = ('s', 'S') ∨ (on, off) = ('s', 'l')) :
    ∀ special special' : Bool, ∀ n < 8, ∀ n' < 8,
      permTriple on off special (n % 2 = 1) n = permTriple on off special' (n' % 2 = 1) n' →
        special = special' ∧ n = n' := by
  rcases h with h | h
  · obtain ⟨rfl, rfl⟩ := Prod.mk.inj h
    decide
  · obtain ⟨rfl, rfl⟩ := Prod.mk.inj h
    decide

/-- The triple of the others: with the sticky bit, the bit that is looked at replaces theirs. -/
theorem permTriple_sticky_iff : ∀ special special' exec exec' : Bool, ∀ n < 8, ∀ n' < 8,
    permTriple 't' 'T' special exec n = permTriple 't' 'T' special' exec' n' ↔
      special = special' ∧ n / 2 = n' / 2 ∧ if special then exec = exec' else n = n' := by
  decide

theorem mod_two_eq {m n : ℕ} (h : decide (m % 2 = 1) = decide (n % 2 = 1)) : m % 2 = n % 2 := by
  rw [decide_eq_decide] at h
  omega

/-- **When two strings are equal**: all is the same but, with the sticky bit, the execute bit of the
    others. -/
theorem lsperms_eq_iff (h₁ : IsFtype t₁) (h₂ : IsFtype t₂) :
    lsperms t₁ m₁ = lsperms t₂ m₂ ↔ t₁ = t₂ ∧ lowTwelve m₁ / 2 = lowTwelve m₂ / 2 ∧
      (HasBit S_ISVTX m₁ ∨ lowTwelve m₁ = lowTwelve m₂) := by
  have hlt (n : ℕ) : n % 8 < 8 := Nat.mod_lt n (by decide)
  rw [lsperms_eq, lsperms_eq, if_pos (isFtype_iff.1 h₁), if_pos (isFtype_iff.1 h₂), List.cons.injEq]
  simp only [isuid_iff, isgid_iff, isvtx_iff, ixusr_iff, ixgrp_iff, lowTwelve]
  constructor
  · rintro ⟨ht, h⟩
    obtain ⟨h, ho⟩ := List.append_inj h (by simp [permTriple_length])
    obtain ⟨hu, hg⟩ := List.append_inj h (by simp [permTriple_length])
    obtain ⟨hsu, hu⟩ := permTriple_own_inj (.inl rfl) _ _ _ (hlt _) _ (hlt _) hu
    obtain ⟨hsg, hg⟩ := permTriple_own_inj (.inr rfl) _ _ _ (hlt _) _ (hlt _) hg
    obtain ⟨hsv, ho, hx⟩ := (permTriple_sticky_iff _ _ _ _ _ (hlt _) _ (hlt _)).1 ho
    replace hsu := mod_two_eq hsu
    replace hsg := mod_two_eq hsg
    replace hsv := mod_two_eq hsv
    refine ⟨ftypes_injective h₁ h₂ ht, by omega, ?_⟩
    by_cases hs : m₁.toNat / 512 % 2 = 1
    · exact .inl hs
    · rw [if_neg (by simpa using hs)] at hx
      exact .inr (by omega)
  · rintro ⟨rfl, hlow, hx⟩
    have hsu : m₁.toNat / 2048 % 2 = m₂.toNat / 2048 % 2 := by omega
    have hsg : m₁.toNat / 1024 % 2 = m₂.toNat / 1024 % 2 := by omega
    have hsv : m₁.toNat / 512 % 2 = m₂.toNat / 512 % 2 := by omega
    have hu : m₁.toNat / 64 % 8 = m₂.toNat / 64 % 8 := by omega
    have hg : m₁.toNat / 8 % 8 = m₂.toNat / 8 % 8 := by omega
    have ho : permTriple 't' 'T' (m₁.toNat / 512 % 2 = 1) (m₁.toNat / 64 % 8 % 2 = 1) (m₁.toNat % 8) =
        permTriple 't' 'T' (m₂.toNat / 512 % 2 = 1) (m₂.toNat / 64 % 8 % 2 = 1) (m₂.toNat % 8) := by
      rw [permTriple_sticky_iff _ _ _ _ _ (hlt _) _ (hlt _), hsv, hu]
      refine ⟨rfl, by omega, ?_⟩
      split_ifs with hs
      · rfl
      · rw [decide_eq_true_eq] at hs
        omega
    rw [ho, hsu, hsg, hu, hg]
    exact ⟨rfl, rfl⟩

variable (type mode) in
/-- The execute bits that are shown in place of the special bits. -/
theorem lsperms_special :
    (HasBit S_ISUID mode → (lsperms type mode)[3]? = some (if HasBit S_IXUSR mode then 's' else 'S')) ∧
    (HasBit S_ISGID mode → (lsperms type mode)[6]? = some (if HasBit S_IXGRP mode then 's' else 'l')) ∧
    (HasBit S_ISVTX mode →
      (lsperms type mode)[9]? = some (if HasBit S_IXUSR mode then 't' else 'T')) := by
  have hget (on off : Char) (exec : Bool) (n : ℕ) :
      (permTriple on off true exec (n % 8))[2]? = some (if exec then on else off) := by
    obtain ⟨a, b, c, hn⟩ := rwx_eq (Nat.mod_lt n (by decide : 0 < 8))
    rw [permTriple, if_pos rfl, hn]
    rfl
  rw [lsperms_eq]
  simp only [List.getElem?_cons_succ, List.getElem?_append, List.length_append, permTriple_length]
  refine ⟨?_, ?_, ?_⟩
  · intro h
    simp [h, hget]
  · intro h
    simp [h, hget]
  · intro h
    simp [h, hget]

theorem showsSpecial_iff : ShowsSpecial type mode ↔ StickyAgrees mode := by
  obtain ⟨hu, hg, hv⟩ := lsperms_special type mode
  have hchar : (if HasBit S_IXUSR mode then 't' else 'T') = (if HasBit S_IXOTH mode then 't' else 'T') ↔
      (HasBit S_IXUSR mode ↔ HasBit S_IXOTH mode) := by
    split_ifs with hx ho ho <;> simp [hx, ho]
  constructor
  · intro h hs
    exact hchar.1 (Option.some.inj ((hv hs).symm.trans (h.sticky hs)))
  · intro h
    exact ⟨hu, hg, fun hs => (hv hs).trans (congrArg some (hchar.2 (h hs)))⟩

/-- The last bit of the permissions is that of the others. -/
theorem lowTwelve_ext (hs : HasBit S_ISVTX m₁) (h₁ : StickyAgrees m₁) (h₂ : StickyAgrees m₂)
    (h : lowTwelve m₁ / 2 = lowTwelve m₂ / 2) : lowTwelve m₁ = lowTwelve m₂ := by
  simp only [StickyAgrees, isvtx_iff, ixusr_iff, ixoth_iff, lowTwelve] at *
  have hs' : m₂.toNat / 512 % 2 = 1 := by omega
  have hx₁ := h₁ hs
  have hx₂ := h₂ hs'
  omega

end

/-- **What a long listing shows of the permissions.**  Nothing is lost iff the owner and the others
    have the same execute bit where the sticky bit is set; two strings are equal for different
    permissions iff these have the sticky bit and differ in the execute bit of the others only. -/
theorem lsperms_lossless_iff (t₁ t₂ : Ftype3) (m₁ m₂ : UInt32) :
    (LosslessPerms t₁ t₂ m₁ m₂ ↔ StickyAgrees m₁ ∧ StickyAgrees m₂) ∧
      (IsFtype t₁ → IsFtype t₂ →
        ((lsperms t₁ m₁ = lsperms t₂ m₂ → t₁ = t₂ ∧ lowTwelve m₁ = lowTwelve m₂) ↔
          ¬ (t₁ = t₂ ∧ HasBit S_ISVTX m₁ ∧ lowTwelve m₁ / 2 = lowTwelve m₂ / 2 ∧
            lowTwelve m₁ ≠ lowTwelve m₂))) := by
  refine ⟨⟨?_, ?_⟩, ?_⟩
  · intro h
    exact ⟨showsSpecial_iff.1 h.shows₁, showsSpecial_iff.1 h.shows₂⟩
  · rintro ⟨hs₁, hs₂⟩
    refine ⟨?_, showsSpecial_iff.2 hs₁, showsSpecial_iff.2 hs₂, lsperms_unknown, lsperms_unknown⟩
    intro h₁ h₂ h
    obtain ⟨ht, hlow, hs | heq⟩ := (lsperms_eq_iff h₁ h₂).1 h
    · exact ⟨ht, lowTwelve_ext hs hs₁ hs₂ hlow⟩
    · exact ⟨ht, heq⟩
  · intro h₁ h₂
    rw [lsperms_eq_iff h₁ h₂]
    constructor
    · rintro h ⟨ht, hs, hlow, hne⟩
      exact hne (h ⟨ht, hlow, .inl hs⟩).2
    · rintro h ⟨ht, hlow, hs | heq⟩
      · exact ⟨ht, by_contra fun hne => h ⟨ht, hs, hlow, hne⟩⟩
      · exact ⟨ht, heq⟩

/-- The others' execute bit of a directory with the sticky bit is not shown. -/
theorem lsperms_sticky_lost : lsperms 2 0o1776 = lsperms 2 0o1777 ∧ lowTwelve 0o1776 ≠ lowTwelve 0o1777 ∧
    ¬ LosslessPerms 2 2 0o1776 0o1777 := by
  refine ⟨by decide, by decide, ?_⟩
  intro h
  exact absurd (h.injective (by unfold IsFtype; decide) (by unfold IsFtype; decide) (by decide)).2
    (by decide)

end NFStash
