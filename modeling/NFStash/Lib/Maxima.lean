/-
  Maxima that a loop keeps in its state.

  `most b f l` is the greatest of `b` and the values of `f` on a list, as a
  loop computes it that compares each value with the greatest one so far;
  `most_le_iff` and `le_most_iff` say what is above and below it.  `foldlM_proj`
  is the rule for a component of the state of such a loop, which may fault: the
  component is computed by a loop of its own; and `foldlM_ends` that for its end.
-/
import NFStash.Lib.Loops
import Mathlib.Order.MinMax

namespace Maxima

section
variable {α β : Type} [LinearOrder β]

/-- The greatest of `b` and the values of `f`. -/
def most (b : β) (f : α → β) (l : List α) : β := l.foldl (fun m a => max m (f a)) b

variable {b c : β} {f : α → β} {l : List α}

theorem most_cons {a : α} : most b f (a :: l) = most (max b (f a)) f l := rfl

theorem most_concat {a : α} : most b f (l ++ [a]) = max (most b f l) (f a) := List.foldl_concat ..

theorem most_congr {f' : α → β} (h : ∀ a ∈ l, f a = f' a) : most b f l = most b f' l := by
  induction l generalizing b with
  | nil => rfl
  | cons a l ih =>
    rw [most_cons, most_cons, h a List.mem_cons_self]
    exact ih fun c hc => h c (List.mem_cons_of_mem _ hc)

theorem most_le_iff : most b f l ≤ c ↔ b ≤ c ∧ ∀ a ∈ l, f a ≤ c := by
  induction l generalizing b with
  | nil => simp [most]
  | cons a l ih => rw [most_cons, ih, max_le_iff, List.forall_mem_cons, and_assoc]

theorem most_base_le : b ≤ most b f l := (most_le_iff.1 le_rfl).1

theorem most_mem_le {a : α} (h : a ∈ l) : f a ≤ most b f l := (most_le_iff.1 le_rfl).2 a h

theorem le_most_iff : c ≤ most b f l ↔ c ≤ b ∨ ∃ a ∈ l, c ≤ f a := by
  induction l generalizing b with
  | nil => simp [most]
  | cons a l ih => rw [most_cons, ih, le_max_iff, List.exists_mem_cons_iff, or_assoc]

/-- Every value has one above it. -/
theorem most_le_most {γ : Type} {f' : γ → β} {l' : List γ} (h : ∀ a ∈ l, ∃ c ∈ l', f a ≤ f' c) :
    most b f l ≤ most b f' l' := by
  rw [most_le_iff]
  refine ⟨most_base_le, ?_⟩
  intro a ha
  exact le_most_iff.2 (.inr (h a ha))

/-- The greatest value of some of the members is that of all. -/
theorem most_comp_eq_iff {g : α → α} (hg : ∀ a ∈ l, g a ∈ l) (hb : ∀ a, b ≤ f a) :
    most b (f ∘ g) l = most b f l ↔ ∀ a ∈ l, ∃ c ∈ l, f a ≤ f (g c) := by
  have hle : most b (f ∘ g) l ≤ most b f l := most_le_most fun a ha => ⟨g a, hg a ha, le_rfl⟩
  rw [hle.ge_iff_eq.symm, most_le_iff, and_iff_right most_base_le]
  refine forall₂_congr fun a ha => ?_
  rw [le_most_iff]
  -- a value that is not above `b` is not above any other
  refine or_iff_right_of_imp fun hab => ?_
  exact ⟨a, ha, hab.trans (hb _)⟩

end

/-! ## Loops that may fault -/

section
variable {ε σ α β : Type} {step : σ → α → Except ε σ}

theorem foldlM_cons_eq_ok {a : α} {l : List α} {s s' : σ} :
    (a :: l).foldlM step s = .ok s' ↔ ∃ t, step s a = .ok t ∧ l.foldlM step t = .ok s' := by
  rw [List.foldlM_cons, Loops.bind_eq_ok]

/-- A component of the state that each step computes from itself. -/
theorem foldlM_proj {p : σ → β} {g : β → α → β}
    (hstep : ∀ s a s', step s a = .ok s' → p s' = g (p s) a) {l : List α} {s s' : σ}
    (h : l.foldlM step s = .ok s') : p s' = l.foldl g (p s) := by
  induction l generalizing s with
  | nil =>
    cases h
    rfl
  | cons a l ih =>
    obtain ⟨t, ht, h⟩ := foldlM_cons_eq_ok.1 h
    rw [ih h, hstep s a t ht]
    rfl

/-- A loop whose steps end on the same elements in every state. -/
theorem foldlM_ends {P : α → Prop} (hstep : ∀ s a, (∃ s', step s a = .ok s') ↔ P a) {l : List α}
    {s : σ} : (∃ s', l.foldlM step s = .ok s') ↔ ∀ a ∈ l, P a := by
  induction l generalizing s with
  | nil => exact iff_of_true ⟨s, rfl⟩ (List.forall_mem_nil _)
  | cons a l ih =>
    rw [List.forall_mem_cons, ← hstep s a]
    constructor
    · rintro ⟨s', h⟩
      obtain ⟨t, ht, h⟩ := foldlM_cons_eq_ok.1 h
      exact ⟨⟨t, ht⟩, ih.1 ⟨s', h⟩⟩
    · rintro ⟨⟨t, ht⟩, hl⟩
      obtain ⟨s', h⟩ := ih.2 hl
      exact ⟨s', foldlM_cons_eq_ok.2 ⟨t, ht, h⟩⟩

end

end Maxima
