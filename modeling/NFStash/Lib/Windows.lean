/-
  Counting over windows of equal length.

  Outcomes come one after the other.  They are counted in a tally, which is closed
  with every outcome whose number is a multiple of the period `P`, and then starts
  again from nothing.  `closed` are the tallies closed so far, `pending` is the open one;
  `closed_concat` and `pending_concat` say what the next outcome does to them, and
  `closed_total`, `closed_hits` that every outcome is counted once.  A period of 0 is never over.
-/
import Mathlib.Data.List.Induction
import Mathlib.Algebra.BigOperators.Group.List.Basic
import Mathlib.Algebra.Ring.Nat
import Mathlib.Tactic.Common

namespace Windows

/-- How many outcomes have been counted, and how many of them were hits. -/
structure Tally where
  total : ℕ := 0
  hits : ℕ := 0
deriving DecidableEq

def Tally.add (w : Tally) (hit : Bool) : Tally := ⟨w.total + 1, w.hits + hit.toNat⟩

def tally (outs : List Bool) : Tally := ⟨outs.length, outs.count true⟩

/-- The tally of the outcomes since the last one that closed a window. -/
def pending (P : ℕ) (outs : List Bool) : Tally := tally (outs.drop (outs.length / P * P))

/-- The tallies of the windows that are over, with the number of the last outcome of each. -/
def closed (P : ℕ) (outs : List Bool) : List (ℕ × Tally) :=
  (List.range (outs.length / P)).map fun i => ((i + 1) * P, tally ((outs.drop (i * P)).take P))

theorem tally_concat (outs : List Bool) (hit : Bool) : tally (outs ++ [hit]) = (tally outs).add hit := by
  cases hit with
  | false => simp [tally, Tally.add]
  | true => simp [tally, Tally.add]

theorem tally_le (outs : List Bool) : (tally outs).hits ≤ (tally outs).total := List.count_le_length

section
variable {P : ℕ} {outs : List Bool} {hit : Bool}

theorem div_mul_le_length (P : ℕ) (outs : List Bool) : outs.length / P * P ≤ outs.length :=
  Nat.div_mul_le_self outs.length P

/-- The number of outcomes in the open window. -/
theorem pending_total : (pending P outs).total = outs.length % P := by
  have h := Nat.div_add_mod' outs.length P
  simp only [pending, tally, List.length_drop]
  omega

theorem pending_le : (pending P outs).hits ≤ (pending P outs).total := tally_le _

theorem pending_nil : pending P [] = {} := by simp [pending, tally]

theorem closed_nil : closed P [] = [] := by simp [closed]

/-- The next outcome is added to the open window. -/
theorem pending_add : tally ((outs ++ [hit]).drop (outs.length / P * P)) = (pending P outs).add hit := by
  rw [List.drop_append_of_le_length (div_mul_le_length P outs), tally_concat, pending]

/-- **The open window** after the next outcome. -/
theorem pending_concat : pending P (outs ++ [hit]) =
    if P ∣ outs.length + 1 then {} else (pending P outs).add hit := by
  rw [← pending_add]
  simp only [pending, List.length_append, List.length_singleton, Nat.succ_div]
  split_ifs with hd
  · have hend : (outs.length / P + 1) * P = outs.length + 1 := by
      rw [← Nat.succ_div_of_dvd hd, Nat.div_mul_cancel hd]
    rw [hend, List.drop_of_length_le (by simp)]
    rfl
  · rw [Nat.add_zero]

/-- The windows that are over stay as they are. -/
theorem window_concat {i : ℕ} (hi : i < outs.length / P) :
    ((outs ++ [hit]).drop (i * P)).take P = (outs.drop (i * P)).take P := by
  have hle : (i + 1) * P ≤ outs.length :=
    (Nat.mul_le_mul_right P hi).trans (div_mul_le_length P outs)
  rw [Nat.add_mul, Nat.one_mul] at hle
  rw [List.drop_append_of_le_length (by omega), List.take_append_of_le_length]
  rw [List.length_drop]
  omega

/-- **The windows that are over** after the next outcome. -/
theorem closed_concat : closed P (outs ++ [hit]) = closed P outs ++
    if P ∣ outs.length + 1 then [(outs.length + 1, (pending P outs).add hit)] else [] := by
  have hold : ∀ i ∈ List.range (outs.length / P),
      ((i + 1) * P, tally (((outs ++ [hit]).drop (i * P)).take P)) =
        ((i + 1) * P, tally ((outs.drop (i * P)).take P)) := fun i hi => by
    rw [window_concat (List.mem_range.1 hi)]
  simp only [closed, List.length_append, List.length_singleton, Nat.succ_div]
  split_ifs with hd
  · have hend : (outs.length / P + 1) * P = outs.length + 1 := by
      rw [← Nat.succ_div_of_dvd hd, Nat.div_mul_cancel hd]
    have hlen : ((outs ++ [hit]).drop (outs.length / P * P)).length ≤ P := by
      rw [Nat.add_mul, Nat.one_mul] at hend
      rw [List.length_drop, List.length_append, List.length_singleton]
      omega
    rw [List.range_succ, List.map_append, List.map_congr_left hold, List.map_singleton, hend,
      List.take_of_length_le hlen, pending_add]
  · rw [Nat.add_zero, List.append_nil, List.map_congr_left hold]

/-- A window that is over has `P` outcomes. -/
theorem closed_length {w : ℕ × Tally} (h : w ∈ closed P outs) : w.2.total = P := by
  obtain ⟨i, hi, rfl⟩ := List.mem_map.1 h
  have hle : (i + 1) * P ≤ outs.length :=
    (Nat.mul_le_mul_right P (List.mem_range.1 hi)).trans (div_mul_le_length P outs)
  rw [Nat.add_mul, Nat.one_mul] at hle
  simp only [tally, List.length_take, List.length_drop]
  omega

theorem closed_le {w : ℕ × Tally} (h : w ∈ closed P outs) : w.2.hits ≤ w.2.total := by
  obtain ⟨i, -, rfl⟩ := List.mem_map.1 h
  exact tally_le _

/-- Every outcome is counted in one window. -/
theorem closed_total (P : ℕ) (outs : List Bool) :
    ((closed P outs).map (·.2.total)).sum + (pending P outs).total = outs.length := by
  induction outs using List.reverseRecOn with
  | nil => simp [closed_nil, pending_nil]
  | append_singleton outs hit ih =>
    rw [closed_concat, pending_concat]
    split_ifs
    · simp [Tally.add, ← ih, Nat.add_assoc]
    · simp [Tally.add, ← ih, Nat.add_assoc]

/-- Every hit is counted in one window. -/
theorem closed_hits (P : ℕ) (outs : List Bool) :
    ((closed P outs).map (·.2.hits)).sum + (pending P outs).hits = outs.count true := by
  induction outs using List.reverseRecOn with
  | nil => simp [closed_nil, pending_nil]
  | append_singleton outs hit ih =>
    rw [closed_concat, pending_concat]
    have hcount : (outs ++ [hit]).count true = outs.count true + hit.toNat :=
      congrArg Tally.hits (tally_concat outs hit)
    rw [hcount, ← ih]
    split_ifs
    · simp [Tally.add, Nat.add_assoc]
    · simp [Tally.add, Nat.add_assoc]

end

end Windows
