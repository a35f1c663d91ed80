/-
  Grouping a list by a key.

  `keys` are the keys of the members in the order of their first appearance, `group k`
  the members with key `k` in order.  `table build` has an entry for each key, made
  from its group.  `table_concat_old` and `table_concat_new` say how the table is kept up to
  date when a member is appended: the entry of its key is replaced, or there is a new
  one at the end.  `groups_perm`: nothing is lost.
-/
import Mathlib.Data.List.Induction
import Mathlib.Data.List.Nodup
import Mathlib.Tactic.Common

namespace Grouping

variable {α κ β : Type} [DecidableEq κ] (key : α → κ)

/-- The keys, in the order of first appearance. -/
def keys (l : List α) : List κ := (l.map key).eraseDups

/-- The members with this key. -/
def group (k : κ) (l : List α) : List α := l.filter (key · = k)

/-- An entry for each key. -/
def table (build : κ → List α → β) (l : List α) : List β :=
  (keys key l).map fun k => build k (group key k l)

section
variable {key} {l : List α} {a : α} {k : κ}

theorem mem_keys : k ∈ keys key l ↔ ∃ b ∈ l, key b = k := by
  rw [keys, List.mem_eraseDups, List.mem_map]

theorem keys_concat : keys key (l ++ [a]) =
    if key a ∈ keys key l then keys key l else keys key l ++ [key a] := by
  have hmem : key a ∈ keys key l ↔ key a ∈ l.map key := List.mem_eraseDups
  rw [keys, List.map_append, List.eraseDups_append]
  split_ifs with h
  · rw [show [a].map key = [key a] from rfl, List.removeAll,
      List.filter_cons_of_neg (by simpa using hmem.1 h)]
    exact List.append_nil _
  · rw [show [a].map key = [key a] from rfl, List.removeAll,
      List.filter_cons_of_pos (by simpa using fun h' => h (hmem.2 h'))]
    rfl

theorem keys_nodup (l : List α) : (keys key l).Nodup := by
  induction l using List.reverseRecOn with
  | nil => simp [keys]
  | append_singleton l a ih =>
    rw [keys_concat]
    split_ifs with h
    · exact ih
    · exact List.nodup_append.2 ⟨ih, List.nodup_singleton _, fun k hk k' hk' => by
        obtain rfl := List.mem_singleton.1 hk'
        rintro rfl
        exact h hk⟩

theorem group_concat_self : group key (key a) (l ++ [a]) = group key (key a) l ++ [a] := by
  simp [group]

theorem group_concat_ne (h : k ≠ key a) : group key k (l ++ [a]) = group key k l := by
  simp [group, Ne.symm h]

/-- A map that keeps the keys. -/
theorem group_map {g : α → α} (hg : ∀ a, key (g a) = key a) :
    group key k (l.map g) = (group key k l).map g := by
  rw [group, group, List.filter_map]
  simp only [Function.comp_def, hg]

theorem group_eq_nil (h : k ∉ keys key l) : group key k l = [] := by
  refine List.filter_eq_nil_iff.2 ?_
  intro b hb hk
  exact h (mem_keys.2 ⟨b, hb, by simpa using hk⟩)

/-- The groups that a member is not in stay as they are. -/
theorem table_map_ne {ks : List κ} (build : κ → List α → β) (h : key a ∉ ks) :
    (ks.map fun k => build k (group key k (l ++ [a]))) = ks.map fun k => build k (group key k l) := by
  refine List.map_congr_left ?_
  intro k hk
  have hne : k ≠ key a := by
    rintro rfl
    exact h hk
  rw [group_concat_ne hne]

/-- **Every member is in one group.** -/
theorem groups_perm (l : List α) : ((keys key l).flatMap fun k => group key k l).Perm l := by
  have hothers : ∀ (l : List α) (a : α) (ks : List κ), key a ∉ ks →
      (ks.flatMap fun k => group key k (l ++ [a])) = ks.flatMap fun k => group key k l := by
    intro l a ks h
    refine List.flatMap_congr fun k hk => group_concat_ne ?_
    rintro rfl
    exact h hk
  induction l using List.reverseRecOn with
  | nil => exact List.Perm.nil
  | append_singleton l a ih =>
    rw [keys_concat]
    split_ifs with h
    · obtain ⟨before, after, hsplit⟩ := List.append_of_mem h
      have hnodup : (keys key l).Nodup := keys_nodup l
      rw [hsplit] at hnodup ih ⊢
      obtain ⟨-, hafter, hdisjoint⟩ := List.nodup_append.1 hnodup
      have hbefore : key a ∉ before := fun hmem => hdisjoint _ hmem _ List.mem_cons_self rfl
      rw [List.flatMap_append, List.flatMap_cons] at ih ⊢
      rw [hothers l a before hbefore, hothers l a after (List.nodup_cons.1 hafter).1, group_concat_self]
      -- the member moves behind the later groups
      have hmove : (group key (key a) l ++ [a] ++ after.flatMap fun k => group key k l).Perm
          (group key (key a) l ++ (after.flatMap fun k => group key k l) ++ [a]) := by
        rw [List.append_assoc, List.append_assoc]
        exact List.perm_append_comm.append_left _
      refine (hmove.append_left _).trans ?_
      rw [← List.append_assoc]
      exact ih.append_right _
    · rw [List.flatMap_append, hothers l a _ h, List.flatMap_singleton, group_concat_self, group_eq_nil h]
      exact ih.append_right _

/-- A member with a new key. -/
theorem table_concat_new (build : κ → List α → β) (h : key a ∉ keys key l) :
    table key build (l ++ [a]) = table key build l ++ [build (key a) [a]] := by
  rw [table, keys_concat, if_neg h, List.map_append, table_map_ne build h, List.map_singleton,
    group_concat_self, group_eq_nil h]
  rfl

/-- A member whose key has an entry, the one at place `i`. -/
theorem table_concat_old {i : ℕ} (build : κ → List α → β) (h : (keys key l)[i]? = some (key a)) :
    table key build (l ++ [a]) =
      (table key build l).set i (build (key a) (group key (key a) l ++ [a])) := by
  have hi : i < (keys key l).length := (List.getElem?_eq_some_iff.1 h).1
  rw [table, keys_concat, if_pos (List.mem_of_getElem? h)]
  refine List.ext_getElem? fun j => ?_
  rw [List.getElem?_map, List.getElem?_set, table, List.getElem?_map, List.length_map]
  by_cases hij : i = j
  · subst hij
    rw [if_pos rfl, if_pos hi, h, Option.map_some, group_concat_self]
  · rw [if_neg hij]
    cases hj : (keys key l)[j]? with
    | none => rfl
    | some k =>
      have hne : k ≠ key a := by
        rintro rfl
        exact hij ((List.getElem?_inj hi (keys_nodup l)).1 (h.trans hj.symm))
      rw [Option.map_some, Option.map_some, group_concat_ne hne]

end

end Grouping
