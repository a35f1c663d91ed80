/-
  Order statistics, from the values themselves and from a table of counts.

  `rank xs k` is the value with `k` values before it once they are sorted.  A program that keeps only
  how many values there are in each of finitely many classes (`table`) finds the class of it by
  adding the counts up (`reach`): `reach_table`.
-/
import Mathlib.Data.List.Sort
import Mathlib.Algebra.BigOperators.Group.List.Basic
import Mathlib.Tactic.Ring

namespace Ranks

/-! ## Values -/

section
variable {α : Type} [LinearOrder α]

/-- The value with `k` values before it in sorted order. -/
def rank (xs : List α) (k : ℕ) : Option α := (xs.insertionSort (· ≤ ·))[k]?

/-- In a sorted list a property of all smaller values is one of the first values. -/
theorem sorted_iff_lt_countP {l : List α} (hl : l.Pairwise (· ≤ ·)) {p : α → Bool}
    (hp : ∀ a b, a ≤ b → p b → p a) {k : ℕ} {x : α} (hx : l[k]? = some x) : p x ↔ k < l.countP p := by
  induction l generalizing k with
  | nil => cases hx
  | cons a l ih =>
    obtain ⟨ha, hl⟩ := List.pairwise_cons.1 hl
    have hrest : p a = false → l.countP p = 0 := by
      intro hpa
      refine List.countP_eq_zero.2 fun b hb hpb => ?_
      exact Bool.false_ne_true (hpa.symm.trans (hp a b (ha b hb) hpb))
    cases k with
    | zero =>
      obtain rfl := Option.some.inj hx
      cases hpa : p a with
      | true => simp [hpa]
      | false => simp [hpa, hrest hpa]
    | succ k =>
      rw [List.getElem?_cons_succ] at hx
      rw [ih hl hx, List.countP_cons]
      cases hpa : p a with
      | true => simp
      | false => simp [hrest hpa]

theorem rank_eq_none {xs : List α} {k : ℕ} : rank xs k = none ↔ xs.length ≤ k := by
  rw [rank, List.getElem?_eq_none_iff, List.length_insertionSort]

theorem mem_of_rank {xs : List α} {k : ℕ} {x : α} (h : rank xs k = some x) : x ∈ xs :=
  (List.mem_insertionSort _).1 (List.mem_of_getElem? h)

/-- **A rank** is below a bound iff there are enough values below it. -/
theorem rank_iff_lt_countP {xs : List α} {k : ℕ} {x : α} (h : rank xs k = some x) {p : α → Bool}
    (hp : ∀ a b, a ≤ b → p b → p a) : p x ↔ k < xs.countP p := by
  rw [sorted_iff_lt_countP (List.pairwise_insertionSort (· ≤ ·) xs) hp h,
    (List.perm_insertionSort (· ≤ ·) xs).countP_eq]

theorem rank_mono {xs : List α} {j k : ℕ} {x y : α} (hj : rank xs j = some x) (hk : rank xs k = some y)
    (h : j ≤ k) : x ≤ y := by
  have hcount := (rank_iff_lt_countP hk (p := (· ≤ y)) fun a b hab hb =>
    decide_eq_true (hab.trans (of_decide_eq_true hb))).1 (decide_eq_true le_rfl)
  have hx := (rank_iff_lt_countP hj (p := (· ≤ y)) fun a b hab hb =>
    decide_eq_true (hab.trans (of_decide_eq_true hb))).2 (h.trans_lt hcount)
  exact of_decide_eq_true hx

end

/-! ## Counts -/

/-- How many values there are in each of the classes below `n`. -/
def table {α : Type} (index : α → ℕ) (n : ℕ) (xs : List α) : List ℕ :=
  (List.range n).map fun i => xs.countP fun x => index x = i

/-- The first place up to which the counts add up to `k`. -/
def reach (k : ℕ) : List ℕ → Option ℕ
  | [] => none
  | c :: cs => if k ≤ c then some 0 else (reach (k - c) cs).map (· + 1)

section
variable {α : Type} {index : α → ℕ} {n : ℕ} {xs : List α}

theorem table_length (index : α → ℕ) (n : ℕ) (xs : List α) : (table index n xs).length = n := by
  rw [table, List.length_map, List.length_range]

theorem table_nil (index : α → ℕ) (n : ℕ) : table index n [] = List.replicate n 0 := by
  simp [table]

/-- One more value. -/
theorem table_concat (index : α → ℕ) (n : ℕ) (xs : List α) (x : α) :
    table index n (xs ++ [x]) = (table index n xs).modify (index x) (· + 1) := by
  refine List.ext_getElem (by simp [table]) fun i hi _ => ?_
  rw [List.getElem_modify]
  simp only [table, List.getElem_map, List.getElem_range, List.countP_append, List.countP_singleton,
    decide_eq_true_eq]
  split_ifs <;> rfl

theorem countP_lt_succ (index : α → ℕ) (i : ℕ) (xs : List α) :
    (xs.countP fun x => index x < i + 1) =
      (xs.countP fun x => index x < i) + xs.countP fun x => index x = i := by
  induction xs with
  | nil => rfl
  | cons x xs ih =>
    simp only [List.countP_cons, decide_eq_true_eq, ih]
    split_ifs <;> omega

/-- The counts up to a class. -/
theorem sum_take_table {i : ℕ} (hi : i ≤ n) :
    ((table index n xs).take i).sum = xs.countP fun x => index x < i := by
  induction i with
  | zero => simp
  | succ i ih =>
    have hget : (table index n xs)[i]? = some (xs.countP fun x => index x = i) := by
      rw [table, List.getElem?_map, List.getElem?_range hi]
      rfl
    rw [List.take_add_one, hget, List.sum_append, ih (Nat.le_of_succ_le hi), Option.toList_some,
      List.sum_singleton, countP_lt_succ]

theorem sum_range_single {R : Type} [AddMonoid R] (f : ℕ → R) (a n : ℕ) :
    ((List.range n).map fun i => if a = i then f i else 0).sum = if a < n then f a else 0 := by
  induction n with
  | zero => rfl
  | succ n ih =>
    rw [List.range_succ, List.map_append, List.sum_append, ih, List.map_singleton, List.sum_singleton]
    rcases lt_trichotomy a n with hlt | rfl | hgt
    · rw [if_pos hlt, if_neg hlt.ne, if_pos (by omega), add_zero]
    · rw [if_neg (lt_irrefl a), if_pos rfl, if_pos (by omega), zero_add]
    · rw [if_neg (by omega), if_neg hgt.ne', if_neg (by omega), add_zero]

/-- A sum over the values, from the counts. -/
theorem sum_table {R : Type} [Semiring R] (f : ℕ → R) (hlt : ∀ x ∈ xs, index x < n) :
    ((table index n xs).zipIdx.map fun c => (c.1 : R) * f c.2).sum = (xs.map fun x => f (index x)).sum := by
  have hzip : (table index n xs).zipIdx.map (fun c => (c.1 : R) * f c.2) =
      (List.range n).map fun i => ((xs.countP fun x => index x = i : ℕ) : R) * f i := by
    refine List.ext_getElem (by simp [table]) fun i hi _ => ?_
    simp [table]
  rw [hzip]
  clear hzip
  induction xs with
  | nil => simp
  | cons x xs ih =>
    have hx : index x < n := hlt x (List.mem_cons_self ..)
    have hone : ((List.range n).map fun i => if index x = i then f i else 0).sum = f (index x) := by
      rw [sum_range_single, if_pos hx]
    rw [List.map_cons, List.sum_cons, ← ih fun y hy => hlt y (List.mem_cons_of_mem _ hy), ← hone,
      ← List.sum_map_add]
    refine congrArg List.sum (List.map_congr_left fun i _ => ?_)
    simp only [List.countP_cons, decide_eq_true_eq]
    split_ifs
    · rw [Nat.cast_add, Nat.cast_one, add_mul, one_mul, add_comm]
    · rw [Nat.add_zero, zero_add]

theorem reach_eq_some {k i : ℕ} (hk : 0 < k) {cs : List ℕ} :
    reach k cs = some i ↔ i < cs.length ∧ (cs.take i).sum < k ∧ k ≤ (cs.take (i + 1)).sum := by
  induction cs generalizing k i with
  | nil => simp [reach]
  | cons c cs ih =>
    rw [reach]
    split_ifs with hle
    · cases i with
      | zero => simp [hle, hk]
      | succ i =>
        refine iff_of_false (by simp) ?_
        rintro ⟨-, hlt, -⟩
        simp only [List.take_succ_cons, List.sum_cons] at hlt
        omega
    · cases i with
      | zero =>
        refine iff_of_false (by simp) ?_
        rintro ⟨-, -, hsum⟩
        simp only [List.take_succ_cons, List.sum_cons, List.take_zero, List.sum_nil] at hsum
        omega
      | succ i =>
        simp only [Option.map_eq_some_iff, Nat.add_right_cancel_iff, exists_eq_right,
          ih (Nat.sub_pos_of_lt (not_le.1 hle)), List.length_cons, List.take_succ_cons, List.sum_cons]
        omega

/-- **The class of a rank**, from the counts. -/
theorem reach_table [LinearOrder α] (hmono : Monotone index) (hlt : ∀ x ∈ xs, index x < n) {k : ℕ}
    {x : α} (h : rank xs k = some x) : reach (k + 1) (table index n xs) = some (index x) := by
  have hx := hlt x (mem_of_rank h)
  have hcount : ∀ i, index x < i ↔ k < xs.countP fun y => index y < i := fun i => by
    rw [← rank_iff_lt_countP h (p := fun y => index y < i) fun a b hab hb =>
      decide_eq_true ((hmono hab).trans_lt (of_decide_eq_true hb)), decide_eq_true_eq]
  rw [reach_eq_some (Nat.succ_pos k), table_length, sum_take_table hx.le, sum_take_table hx]
  refine ⟨hx, ?_, ?_⟩
  · exact Nat.lt_succ_iff.2 (not_lt.1 ((hcount (index x)).not.1 (lt_irrefl _)))
  · exact (hcount (index x + 1)).1 (Nat.lt_succ_self _)

end

end Ranks
