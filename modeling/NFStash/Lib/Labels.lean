/-
  Names that consist of labels with a delimiter between them.

  `labels d s` are the non-empty labels of a name, and what `strtok` returns (`tokens_eq_labels`).
  A name is `Plain` if it has no empty label: it is its labels, joined (`plain_iff`).
-/
import NFStash.Lib.CString

namespace Labels

open CLib

/-- The non-empty labels. -/
def labels (d : Char) (s : CString) : List CString := (s.splitOn d).filter (· ≠ [])

/-- No leading, trailing or repeated delimiter. -/
structure Plain (d : Char) (s : CString) : Prop where
  noLeading : s.head? ≠ some d
  noTrailing : s.getLast? ≠ some d
  noRepeat : ¬ [d, d] <:+: s

section
variable {d : Char} {s l r : CString} {ls : List CString}

/-- **Names by their first label**: there is no delimiter, or the name begins with one, or there is
    one behind the first label. -/
theorem labels_induction {P : CString → Prop} (hnil : P []) (hlast : ∀ l, l ≠ [] → d ∉ l → P l)
    (hskip : ∀ r, P r → P (d :: r)) (hcons : ∀ l r, l ≠ [] → d ∉ l → P r → P (l ++ d :: r))
    (s : CString) :
    P s := by
  induction hn : s.length using Nat.strong_induction_on generalizing s with
  | _ n ih =>
    by_cases hd : d ∈ s
    · obtain ⟨l, r, rfl, hl⟩ := List.eq_append_cons_of_mem hd
      have hr : P r := ih r.length (by rw [← hn, List.length_append, List.length_cons]; omega) r rfl
      rcases eq_or_ne l [] with rfl | hne
      · exact hskip r hr
      · exact hcons l r hne hl hr
    · rcases eq_or_ne s [] with rfl | hne
      · exact hnil
      · exact hlast s hne hd

theorem tokens_cons_delim : tokens d (d :: s) = tokens d s := by
  rw [tokens, if_pos rfl]

/-- `strtok` returns the labels. -/
theorem tokens_eq_labels : tokens d s = labels d s := by
  induction s using labels_induction (d := d) with
  | hnil => rfl
  | hlast l hne hl =>
    rw [tokens_self hne hl, labels, List.splitOn_eq_singleton hl]
    simp [hne]
  | hskip r ih =>
    rw [tokens_cons_delim, ih, labels, labels]
    have hsplit : (d :: r).splitOn d = [] :: r.splitOn d :=
      List.splitOn_append_cons_self_of_not_mem List.not_mem_nil r
    rw [hsplit]
    rfl
  | hcons l r hne hl ih =>
    rw [tokens_append hne hl, ih, labels, labels, List.splitOn_append_cons_self_of_not_mem hl]
    simp [hne]

/-- A label is not empty and has no delimiter. -/
theorem mem_tokens (h : l ∈ tokens d s) : l ≠ [] ∧ d ∉ l := by
  induction s using labels_induction (d := d) with
  | hnil => simp [tokens] at h
  | hlast l' hne hl =>
    rw [tokens_self hne hl, List.mem_singleton] at h
    exact h ▸ ⟨hne, hl⟩
  | hskip r ih => exact ih (tokens_cons_delim ▸ h)
  | hcons l' r hne hl ih =>
    rw [tokens_append hne hl] at h
    rcases List.mem_cons.1 h with rfl | h
    · exact ⟨hne, hl⟩
    · exact ih h

/-- The labels of joined labels. -/
theorem tokens_intercalate (h : ∀ l ∈ ls, l ≠ [] ∧ d ∉ l) : tokens d ([d].intercalate ls) = ls := by
  induction ls with
  | nil => rfl
  | cons l ls ih =>
    obtain ⟨⟨hne, hl⟩, hls⟩ := List.forall_mem_cons.1 h
    rcases eq_or_ne ls [] with rfl | hnil
    · rw [List.intercalate_singleton, tokens_self hne hl]
    · rw [List.intercalate_cons_of_ne_nil hnil, List.append_assoc, List.singleton_append,
        tokens_append hne hl, ih hls]

/-- A label is joined to the others at their end. -/
theorem intercalate_concat (h : ls ≠ []) :
    [d].intercalate (ls ++ [l]) = [d].intercalate ls ++ d :: l := by
  induction ls with
  | nil => exact absurd rfl h
  | cons l' ls ih =>
    rcases eq_or_ne ls [] with rfl | hnil
    · simp
    · rw [List.cons_append, List.intercalate_cons_of_ne_nil (by simp), ih hnil,
        List.intercalate_cons_of_ne_nil hnil]
      simp

theorem intercalate_reverse_length (d : Char) (ls : List CString) :
    ([d].intercalate ls.reverse).length = ([d].intercalate ls).length := by
  induction ls with
  | nil => rfl
  | cons l ls ih =>
    rcases eq_or_ne ls [] with rfl | hnil
    · rfl
    · rw [List.reverse_cons, intercalate_concat (by simpa using hnil), List.length_append, ih,
        List.intercalate_cons_of_ne_nil hnil]
      simp only [List.length_append, List.length_cons, List.length_nil]
      omega

/-- The labels, joined, are what is left of a name without the delimiters that are too many. -/
theorem intercalate_tokens_sublist (d : Char) (s : CString) :
    ([d].intercalate (tokens d s)).Sublist s := by
  induction s using labels_induction (d := d) with
  | hnil => exact List.Sublist.refl _
  | hlast l hne hl => rw [tokens_self hne hl, List.intercalate_singleton]
  | hskip r ih =>
    rw [tokens_cons_delim]
    exact ih.cons d
  | hcons l r hne hl ih =>
    rw [tokens_append hne hl]
    rcases eq_or_ne (tokens d r) [] with hnil | hnil
    · rw [hnil, List.intercalate_singleton]
      exact List.sublist_append_left ..
    · rw [List.intercalate_cons_of_ne_nil hnil, List.append_assoc]
      exact (ih.cons_cons d).append_left l

/-- A repeated delimiter is not in the first label. -/
theorem infix_append_cons (hl : d ∉ l) (h : [d, d] <:+: l ++ d :: r) :
    r.head? = some d ∨ [d, d] <:+: r := by
  induction l with
  | nil =>
    rcases List.infix_cons_iff.1 h with hp | hi
    · obtain ⟨t, ht⟩ := (List.cons_prefix_cons.1 hp).2
      exact .inl (by rw [← ht]; rfl)
    · exact .inr hi
  | cons c l ih =>
    obtain ⟨hc, hl⟩ := not_or.1 (List.mem_cons.not.1 hl)
    rcases List.infix_cons_iff.1 h with hp | hi
    · exact absurd (List.cons_prefix_cons.1 hp).1 hc
    · exact ih hl hi

/-- A plain name, by its first label. -/
theorem plain_cons_iff (hne : l ≠ []) (hl : d ∉ l) : Plain d (l ++ d :: r) ↔ r ≠ [] ∧ Plain d r := by
  obtain ⟨c, l', rfl⟩ := List.exists_cons_of_ne_nil hne
  have hlast (hr : r ≠ []) : (c :: l' ++ d :: r).getLast? = r.getLast? := by
    rw [List.getLast?_append_of_ne_nil _ (List.cons_ne_nil d r), List.getLast?_cons_of_ne_nil hr]
  constructor
  · intro h
    have hr : r ≠ [] := by
      rintro rfl
      exact h.noTrailing List.getLast?_concat
    refine ⟨hr, ?_, hlast hr ▸ h.noTrailing, ?_⟩
    · intro hd
      obtain ⟨t, rfl⟩ := List.head?_eq_some_iff.1 hd
      exact h.noRepeat ⟨c :: l', t, by simp⟩
    · intro hi
      exact h.noRepeat (hi.trans ⟨c :: l' ++ [d], [], by simp⟩)
  · rintro ⟨hr, h⟩
    refine ⟨?_, (hlast hr).symm ▸ h.noTrailing, ?_⟩
    · intro hc
      exact hl (Option.some.inj hc ▸ List.mem_cons_self)
    · intro hi
      exact (infix_append_cons hl hi).elim h.noLeading h.noRepeat

/-- **A plain name** is its labels, joined. -/
theorem plain_iff : Plain d s ↔ [d].intercalate (tokens d s) = s := by
  induction s using labels_induction (d := d) with
  | hnil => exact ⟨fun _ => rfl, fun _ => ⟨by simp, by simp, by simp⟩⟩
  | hlast l hne hl =>
    refine ⟨fun _ => by rw [tokens_self hne hl, List.intercalate_singleton], fun _ => ⟨?_, ?_, ?_⟩⟩
    · exact fun h => hl (List.mem_of_head? h)
    · exact fun h => hl (List.mem_of_getLast? h)
    · exact fun h => hl (h.subset List.mem_cons_self)
  | hskip r ih =>
    constructor
    · exact fun h => absurd rfl h.noLeading
    · intro h
      have hle := (intercalate_tokens_sublist d r).length_le
      rw [tokens_cons_delim] at h
      rw [h, List.length_cons] at hle
      omega
  | hcons l r hne hl ih =>
    rw [plain_cons_iff hne hl, ih, tokens_append hne hl]
    rcases eq_or_ne (tokens d r) [] with hnil | hnil
    · rw [hnil, List.intercalate_singleton, List.intercalate_nil]
      simp [eq_comm]
    · rw [List.intercalate_cons_of_ne_nil hnil, List.append_assoc, List.append_cancel_left_eq,
        List.singleton_append, List.cons.injEq]
      constructor
      · exact fun h => ⟨rfl, h.2⟩
      · rintro ⟨-, h⟩
        refine ⟨?_, h⟩
        rintro rfl
        exact hnil rfl

end

end Labels
