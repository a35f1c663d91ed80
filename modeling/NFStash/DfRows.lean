/-
  `df.c`: the numbers in a row.

  What is used is the difference of two numbers from the server, and a percentage is computed from
  their quotient, without a look at either: `dfRows_iff`.
-/
import NFStash.Df
import Mathlib.Algebra.Order.Field.Basic
import Mathlib.Data.Rat.Cast.Order
import Mathlib.Tactic.Linarith

namespace NFStash

open CLib

/-! ## Model -/

/-- A total with its parts, and the percentage that is printed, if its divisor is not zero. -/
structure Usage where
  total : UInt64
  used : UInt64
  free : UInt64
  capacity : Option ℚ

/-- `(1 - ((double)free / total)) * 100`. -/
def capacityOf (free total : UInt64) : Option ℚ :=
  if total = 0 then none else some ((1 - (free.toNat : ℚ) / total.toNat) * 100)

def usageOf (total free : UInt64) : Usage where
  total := total
  used := total - free
  free := free
  capacity := capacityOf free total

/-- The bytes in the row of `print_df`. -/
def dfBytes (res : Fsstat3res) : Usage := usageOf res.tbytes res.fbytes

/-- The inodes in the row of `print_df`; their total is not printed. -/
def dfInodes (res : Fsstat3res) : Usage := usageOf res.tfiles res.ffiles

/-- The inodes in the row of `print_inodes`. -/
def inodesInodes (res : Fsstat3res) : Usage := usageOf res.tfiles res.ffiles

/-! ## Consistent rows -/

/-- The parts add up, and the percentage is one. -/
structure Usage.Consistent (u : Usage) : Prop where
  used : u.used ≤ u.total
  parts : u.used.toNat + u.free.toNat = u.total.toNat
  capacity : ∃ p, u.capacity = some p ∧ 0 ≤ p ∧ p ≤ 100

/-- The row of `print_df`. -/
structure DfRowRight (cfg : DfConfig) (res : Fsstat3res) : Prop where
  printed : ∀ offset host path usec, printDf cfg offset host path res usec =
    .df host offset path (prefixPrint (dfBytes res).total cfg.bytePrefix)
      (prefixPrint (dfBytes res).used cfg.bytePrefix) (prefixPrint (dfBytes res).free cfg.bytePrefix)
      (dfInodes res).used (dfInodes res).free usec
  bytes : (dfBytes res).Consistent
  inodes : (dfInodes res).Consistent

/-- The row of `print_inodes`, which agrees with that of `print_df`. -/
structure InodesRowRight (res : Fsstat3res) : Prop where
  printed : ∀ offset host path usec, printInodes offset host path res usec =
    .inodes host offset path (inodesInodes res).total (inodesInodes res).used (inodesInodes res).free usec
  inodes : (inodesInodes res).Consistent
  agrees : inodesInodes res = dfInodes res

/-- There is something, and not more of it is free. -/
def FreeInTotal (total free : UInt64) : Prop := total ≠ 0 ∧ free ≤ total

section
variable {total free : UInt64}

/-- The parts add up iff nothing wraps. -/
theorem parts_iff : (total - free).toNat + free.toNat = total.toNat ↔ free ≤ total := by
  have htotal := total.toNat_lt
  have hfree := free.toNat_lt
  rw [UInt64.toNat_sub, UInt64.le_iff_toNat_le]
  omega

theorem capacityOf_bounds (h : FreeInTotal total free) :
    ∃ p, capacityOf free total = some p ∧ 0 ≤ p ∧ p ≤ 100 := by
  obtain ⟨hne, hle⟩ := h
  have hpos : (0 : ℚ) < total.toNat := by
    rw [Nat.cast_pos, Nat.pos_iff_ne_zero, ne_eq, ← UInt64.toNat_zero, UInt64.toNat_inj]
    exact hne
  have hle' : (free.toNat : ℚ) / total.toNat ≤ 1 := by
    rw [div_le_one hpos]
    exact_mod_cast UInt64.le_iff_toNat_le.1 hle
  have hnonneg : (0 : ℚ) ≤ free.toNat / total.toNat := div_nonneg (Nat.cast_nonneg _) hpos.le
  exact ⟨_, if_neg hne, by linarith, by linarith⟩

theorem consistent_iff : (usageOf total free).Consistent ↔ FreeInTotal total free := by
  constructor
  · rintro ⟨-, hparts, p, hp, -, -⟩
    refine ⟨?_, parts_iff.1 hparts⟩
    rintro rfl
    cases hp
  · intro h
    have hparts := parts_iff.2 h.2
    refine ⟨?_, hparts, capacityOf_bounds h⟩
    rw [UInt64.le_iff_toNat_le]
    exact (Nat.le_add_right _ _).trans hparts.le

end

/-- **The rows of `nfsdf`** are consistent iff the server's totals are not zero and not more than that is
    free: both for `print_df`, the inodes for `print_inodes`. -/
theorem dfRows_iff (cfg : DfConfig) (res : Fsstat3res) :
    (DfRowRight cfg res ↔ FreeInTotal res.tbytes res.fbytes ∧ FreeInTotal res.tfiles res.ffiles) ∧
      (InodesRowRight res ↔ FreeInTotal res.tfiles res.ffiles) := by
  refine ⟨⟨?_, ?_⟩, ?_, ?_⟩
  · intro h
    exact ⟨consistent_iff.1 h.bytes, consistent_iff.1 h.inodes⟩
  · rintro ⟨hbytes, hinodes⟩
    exact ⟨fun _ _ _ _ => rfl, consistent_iff.2 hbytes, consistent_iff.2 hinodes⟩
  · intro h
    exact consistent_iff.1 h.inodes
  · intro hinodes
    exact ⟨fun _ _ _ _ => rfl, consistent_iff.2 hinodes, rfl⟩

/-- A filesystem without inodes, and one with more free than it has. -/
theorem dfRows_corners :
    (dfInodes { tbytes := 4096, fbytes := 1024 }).capacity = none ∧
      (dfBytes { tbytes := 1, fbytes := 2, tfiles := 1 }).used = 18446744073709551615 ∧
      ¬ DfRowRight {} { tbytes := 4096, fbytes := 1024 } ∧
      ¬ InodesRowRight { tbytes := 4096, fbytes := 1024 } ∧
      ¬ DfRowRight {} { tbytes := 1, fbytes := 2, tfiles := 1 } := by
  refine ⟨rfl, by decide, ?_, ?_, ?_⟩
  · intro h
    exact (consistent_iff.1 h.inodes).1 rfl
  · intro h
    exact (consistent_iff.1 h.inodes).1 rfl
  · intro h
    exact absurd (consistent_iff.1 h.bytes).2 (by decide)

end NFStash
