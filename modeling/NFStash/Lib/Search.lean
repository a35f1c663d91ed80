/-
  Searching a string and replacing what is found.

  `strstr` is that of libc.  `Replaces old new s t n` says what it is to replace all occurrences: they
  are found from left to right, without overlap, and there are `n` of them.
-/
import NFStash.Lib.CString

namespace Search

open CLib

/-- `strstr(s, old) - s`: where `old` is first found. -/
def strstr (old : CString) : CString → Option ℕ
  | [] => if old = [] then some 0 else none
  | c :: cs => if old <+: c :: cs then some 0 else (strstr old cs).map (· + 1)

/-- `t` is `s` with the `n` occurrences of `old` replaced. -/
inductive Replaces (old new : CString) : CString → CString → ℕ → Prop
  | done {s : CString} (h : ¬ old <:+: s) : Replaces old new s s 0
  | next {a s t : CString} {n : ℕ} (hfirst : ∀ k < a.length, ¬ old <+: (a ++ old ++ s).drop k)
      (h : Replaces old new s t n) : Replaces old new (a ++ old ++ s) (a ++ new ++ t) (n + 1)

section
variable {old new s t t' : CString} {l n n' : ℕ}

theorem strstr_eq_none_iff (hold : old ≠ []) : strstr old s = none ↔ ¬ old <:+: s := by
  induction s with
  | nil => simp [strstr, hold]
  | cons c s ih =>
    rw [strstr, List.infix_cons_iff]
    split_ifs with hp
    · simp [hp]
    · rw [Option.map_eq_none_iff, ih, not_or]
      exact ⟨fun h => ⟨hp, h⟩, fun h => h.2⟩

/-- The first place where a string is found. -/
theorem strstr_eq_some_iff (hold : old ≠ []) :
    strstr old s = some l ↔ old <+: s.drop l ∧ ∀ k < l, ¬ old <+: s.drop k := by
  induction s generalizing l with
  | nil => simp [strstr, hold]
  | cons c s ih =>
    rw [strstr]
    split_ifs with hp
    · constructor
      · intro h
        obtain rfl := Option.some.inj h
        exact ⟨hp, fun k hk => absurd hk (Nat.not_lt_zero k)⟩
      · rintro ⟨-, h⟩
        cases l with
        | zero => rfl
        | succ l => exact absurd hp (h 0 (Nat.succ_pos l))
    · cases l with
      | zero => simp [hp]
      | succ l =>
        simp only [Option.map_eq_some_iff, Nat.add_right_cancel_iff, exists_eq_right, ih,
          List.drop_succ_cons]
        refine and_congr_right fun _ => ⟨fun h k hk => ?_, fun h k hk => h (k + 1) (by omega)⟩
        cases k with
        | zero => exact hp
        | succ k => exact h k (by omega)

/-- The string is cut at the first place. -/
theorem strstr_cut (hold : old ≠ []) (h : strstr old s = some l) :
    ∃ a r, s = a ++ old ++ r ∧ a.length = l ∧ ∀ k < a.length, ¬ old <+: (a ++ old ++ r).drop k := by
  obtain ⟨⟨r, hr⟩, hfirst⟩ := (strstr_eq_some_iff hold).1 h
  have hle : l ≤ s.length := by
    by_contra hlt
    rw [List.drop_eq_nil_of_le (by omega)] at hr
    exact hold (List.append_eq_nil_iff.1 hr).1
  have hs : s = s.take l ++ old ++ r := by
    rw [List.append_assoc, hr, List.take_append_drop]
  have hlen : (s.take l).length = l := List.length_take_of_le hle
  refine ⟨s.take l, r, hs, hlen, ?_⟩
  rwa [hlen, ← hs]

/-- It is found where it was cut. -/
theorem strstr_append {a r : CString} (hold : old ≠ [])
    (hfirst : ∀ k < a.length, ¬ old <+: (a ++ old ++ r).drop k) :
    strstr old (a ++ old ++ r) = some a.length := by
  rw [strstr_eq_some_iff hold]
  refine ⟨?_, hfirst⟩
  rw [List.append_assoc, List.drop_left]
  exact List.prefix_append old r

/-- **Everything can be replaced.** -/
theorem exists_replaces (hold : old ≠ []) (new s : CString) : ∃ t n, Replaces old new s t n := by
  induction hn : s.length using Nat.strong_induction_on generalizing s with
  | _ n ih =>
    cases hs : strstr old s with
    | none => exact ⟨s, 0, .done ((strstr_eq_none_iff hold).1 hs)⟩
    | some l =>
      obtain ⟨a, r, rfl, -, hfirst⟩ := strstr_cut hold hs
      have hpos := List.length_pos_iff.2 hold
      rw [List.length_append, List.length_append] at hn
      obtain ⟨t, m, ht⟩ := ih r.length (by omega) r rfl
      exact ⟨_, _, .next hfirst ht⟩

/-- There is one result. -/
theorem Replaces.unique (hold : old ≠ []) (h : Replaces old new s t n) (h' : Replaces old new s t' n') :
    t = t' ∧ n = n' := by
  induction h generalizing t' n' with
  | done hno =>
    cases h' with
    | done => exact ⟨rfl, rfl⟩
    | next => exact absurd ⟨_, _, rfl⟩ hno
  | @next a s t n hfirst h ih =>
    generalize hs : a ++ old ++ s = s' at h'
    cases h' with
    | done hno => exact absurd ⟨_, _, hs⟩ hno
    | @next a' s' t' n' hfirst' h' =>
      have hstr := strstr_append hold hfirst
      rw [hs, strstr_append hold hfirst', Option.some.injEq] at hstr
      obtain ⟨ha, rfl⟩ := List.append_inj hs (by simp [hstr])
      obtain ⟨rfl, -⟩ := List.append_inj ha hstr.symm
      obtain ⟨rfl, rfl⟩ := ih h'
      exact ⟨rfl, rfl⟩

/-- What the lengths add up to. -/
theorem Replaces.length (h : Replaces old new s t n) :
    t.length + n * old.length = s.length + n * new.length := by
  induction h with
  | done => rw [Nat.zero_mul, Nat.zero_mul]
  | next _ _ ih =>
    simp only [List.length_append, Nat.succ_mul]
    omega

/-- There are at most as many occurrences as characters. -/
theorem Replaces.count_le (hold : old ≠ []) (h : Replaces old new s t n) : n ≤ s.length := by
  have hpos := List.length_pos_iff.2 hold
  induction h with
  | done => exact Nat.zero_le _
  | next _ _ ih =>
    simp only [List.length_append]
    omega

end

/-! ## Single characters -/

section
variable {c : Char} {new s t : CString} {n : ℕ}

theorem notMem_of_first {a r : CString} (h : ∀ k < a.length, ¬ [c] <+: (a ++ [c] ++ r).drop k) :
    c ∉ a := by
  intro hc
  obtain ⟨k, hk, hget⟩ := List.getElem_of_mem hc
  refine h k hk ?_
  rw [List.append_assoc, List.drop_append_of_le_length hk.le, List.drop_eq_getElem_cons hk, hget]
  exact List.prefix_append [c] _

theorem notMem_of_none (h : ¬ [c] <:+: s) : c ∉ s := by
  intro hc
  obtain ⟨a, r, rfl⟩ := List.append_of_mem hc
  exact h ⟨a, r, by simp⟩

/-- One character for another. -/
theorem Replaces.map {c' : Char} (h : Replaces [c] [c'] s t n) :
    t = s.map fun x => if x = c then c' else x := by
  have hid {a : CString} (ha : c ∉ a) : a.map (fun x => if x = c then c' else x) = a := by
    have hcongr : a.map (fun x => if x = c then c' else x) = a.map id :=
      List.map_congr_left fun x hx => if_neg fun e : x = c => ha (e ▸ hx)
    rw [hcongr, List.map_id]
  induction h with
  | done hno => exact (hid (notMem_of_none hno)).symm
  | next hfirst _ ih =>
    rw [ih, List.map_append, List.map_append, hid (notMem_of_first hfirst)]
    simp

/-- The occurrences of a character. -/
theorem Replaces.count (h : Replaces [c] new s t n) : n = s.count c := by
  induction h with
  | done hno => exact (List.count_eq_zero.2 (notMem_of_none hno)).symm
  | next hfirst _ ih =>
    rw [List.count_append, List.count_append, List.count_eq_zero.2 (notMem_of_first hfirst),
      List.count_singleton_self, ← ih]
    omega

end

end Search
