/-
  Lists read from left to right, where what comes before decides whether the next element is allowed.

  `Guarded allows l`: every element of `l` is allowed after those before it.  A list can be put in an
  order by rank (`exists_ranked`), and one of two elements comes before the other (`before_or_before`).
-/
import Mathlib.Data.List.Sort

namespace Orders

section
variable {α : Type} {allows : List α → α → Prop} {l l' : List α} {a b : α}

/-- Every element is allowed after the ones before it. -/
def Guarded (allows : List α → α → Prop) (l : List α) : Prop :=
  ∀ before a after, l = before ++ a :: after → allows before a

theorem guarded_nil : Guarded allows [] := by
  intro before a after h
  simp at h

theorem Guarded.left (h : Guarded allows (l ++ l')) : Guarded allows l := by
  rintro before a after rfl
  exact h before a (after ++ l') (by simp)

theorem guarded_concat : Guarded allows (l ++ [a]) ↔ Guarded allows l ∧ allows l a := by
  constructor
  · exact fun h => ⟨h.left, h l a [] rfl⟩
  · rintro ⟨hl, ha⟩ before b after h
    rcases List.eq_nil_or_concat after with rfl | ⟨after, c, rfl⟩
    · obtain ⟨rfl, heq⟩ := List.append_inj' h rfl
      obtain rfl := List.head_eq_of_cons_eq heq
      exact ha
    · rw [List.concat_eq_append, ← List.cons_append, ← List.append_assoc] at h
      exact hl before b after (List.append_inj' h rfl).1

/-- The elements of a guarded list are allowed after some of the others. -/
theorem Guarded.of_mem (h : Guarded allows l) (ha : a ∈ l) :
    ∃ before after, l = before ++ a :: after ∧ allows before a := by
  obtain ⟨before, after, rfl⟩ := List.append_of_mem ha
  exact ⟨before, after, rfl, h before a after rfl⟩

/-- One of two elements comes before the other. -/
theorem before_or_before (ha : a ∈ l) (hb : b ∈ l) (hne : a ≠ b) :
    (∃ before after, l = before ++ b :: after ∧ a ∈ before) ∨
      ∃ before after, l = before ++ a :: after ∧ b ∈ before := by
  obtain ⟨before, after, rfl⟩ := List.append_of_mem ha
  rcases List.mem_append.1 hb with hb | hb
  · exact .inr ⟨before, after, rfl, hb⟩
  · obtain ⟨mid, after, rfl⟩ := List.append_of_mem ((List.mem_cons.1 hb).resolve_left (Ne.symm hne))
    exact .inl ⟨before ++ a :: mid, after, by simp, by simp⟩

/-- **An order by rank**: those of a lower rank come first. -/
theorem exists_ranked (rank : α → ℕ) (l : List α) : ∃ l' : List α, l'.Perm l ∧
    ∀ before a after, l' = before ++ a :: after →
      (∀ b ∈ before, rank b ≤ rank a) ∧ ∀ b ∈ l, rank b < rank a → b ∈ before := by
  have hperm := List.perm_insertionSort (fun a b => rank a ≤ rank b) l
  have hsorted : (l.insertionSort fun a b => rank a ≤ rank b).Pairwise fun a b => rank a ≤ rank b :=
    haveI : Std.Total fun a b : α => rank a ≤ rank b := ⟨fun a b => le_total (rank a) (rank b)⟩
    haveI : IsTrans α fun a b : α => rank a ≤ rank b := ⟨fun _ _ _ => le_trans⟩
    List.pairwise_insertionSort _ l
  refine ⟨_, hperm, ?_⟩
  intro before a after h
  rw [h, List.pairwise_append, List.pairwise_cons] at hsorted
  obtain ⟨-, ⟨hafter, -⟩, hbefore⟩ := hsorted
  refine ⟨fun b hb => hbefore b hb a (by simp), ?_⟩
  intro b hb hlt
  rw [← hperm.mem_iff, h, List.mem_append, List.mem_cons] at hb
  rcases hb with hb | rfl | hb
  · exact hb
  · exact absurd hlt (lt_irrefl _)
  · exact absurd hlt (not_lt.2 (hafter b hb))

end

end Orders
