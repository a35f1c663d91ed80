/-
  Reading a sequence page by page.

  A run is a prefix of what remains, with a flag that is set when nothing remains
  after it (`IsRun`); a page is a run that is empty only then (`IsPage`).  What
  remains is given by an offset (`content.drop off`) or by a cursor, the key of
  an entry (`after`).

  `cursor` is the cursor of a client that shows only some of the entries and
  remembers the key of the last one shown: hidden entries at the end of a page are
  asked for again.  `after_cursor_filter`: this loses no shown entry and
  repeats none.  `after_cursor_length`: the client gets on iff it was shown an entry.

  `climb` is what a client keeps that stops at the first key which does not exceed the one
  before it, but keeps this entry as well.
-/
import Mathlib.Data.List.Chain
import Mathlib.Data.List.DropRight
import Mathlib.Data.List.Sort
import Mathlib.Order.Lattice

namespace Paging

variable {α K : Type}

/-- A run of the entries that remain. -/
structure IsRun (rest page : List α) (eof : Bool) : Prop where
  isPrefix : page <+: rest
  eof_iff : eof = true ↔ page = rest

/-- A run that gets on. -/
structure IsPage (rest page : List α) (eof : Bool) : Prop extends IsRun rest page eof where
  ne_nil : rest ≠ [] → page ≠ []

section
variable {rest page : List α} {eof : Bool}

theorem IsRun.last (h : IsRun rest page true) : page = rest := h.eof_iff.1 rfl

/-- Only the last page can be empty. -/
theorem IsPage.ne_nil_of_more (h : IsPage rest page false) : page ≠ [] := by
  intro hp
  by_cases hr : rest = []
  · simpa using h.eof_iff.2 (hp.trans hr.symm)
  · exact h.ne_nil hr hp

end

/-! ## Offsets -/

section
variable {content data : List α} {off : ℕ} {eof : Bool}

/-- A run and what remains after it are what remained before. -/
theorem IsRun.append_drop (h : IsRun (content.drop off) data eof) :
    data ++ content.drop (off + data.length) = content.drop off := by
  obtain ⟨t, ht⟩ := h.isPrefix
  rw [← List.drop_drop, ← ht]
  simp

/-- A run does not lead past the end. -/
theorem IsRun.off_le (h : IsRun (content.drop off) data eof) :
    off + data.length ≤ max off content.length := by
  have hl : data.length ≤ (content.drop off).length := h.isPrefix.length_le
  simp only [List.length_drop] at hl
  omega

/-- The offset after the last run. -/
theorem IsRun.off_last (h : IsRun (content.drop off) data true) :
    off + data.length = max off content.length := by
  rw [h.last, List.length_drop]
  omega

end

/-! ## Cursors -/

section
variable (key : α → K) (shown : α → Bool)

/-- The cursor after the entries `q`: the key of the last one shown. -/
def cursor (c : K) (q : List α) : K := (((q.filter shown).getLast?).map key).getD c

variable {key shown} {c : K} {q : List α} {e : α}

theorem cursor_cons : cursor key shown c (e :: q) =
    if shown e then cursor key shown (key e) q else cursor key shown c q := by
  cases h : shown e with
  | false => simp [cursor, h]
  | true =>
    simp only [cursor, List.filter_cons, h, if_true, List.getLast?_cons, Option.map_some,
      Option.getD_some]
    cases (q.filter shown).getLast? with
    | none => rfl
    | some e' => rfl

/-- All entries are shown. -/
theorem cursor_true_cons :
    cursor key (fun _ => true) c (e :: q) = cursor key (fun _ => true) (key e) q := by
  rw [cursor_cons, if_pos rfl]

theorem cursor_filter : cursor key (fun _ => true) c (q.filter shown) = cursor key shown c q := by
  simp [cursor]

theorem cursor_shown (h : shown e = true) : cursor key shown c (q ++ [e]) = key e := by
  simp [cursor, List.filter_append, h]

theorem cursor_hidden (h : shown e = false) : cursor key shown c (q ++ [e]) = cursor key shown c q := by
  simp [cursor, List.filter_append, h]

/-- The cursor only moves when an entry is shown, and then to the last of these. -/
theorem cursor_cases (key : α → K) (shown : α → Bool) (c : K) (q : List α) :
    (q.filter shown = [] ∧ cursor key shown c q = c) ∨
    ∃ q₁ e q₂, q = q₁ ++ e :: q₂ ∧ shown e = true ∧ q₂.filter shown = [] ∧
      cursor key shown c q = key e := by
  induction q using List.reverseRecOn with
  | nil => exact .inl ⟨rfl, rfl⟩
  | append_singleton q e ih =>
    cases he : shown e with
    | true => exact .inr ⟨q, e, [], rfl, he, rfl, cursor_shown he⟩
    | false =>
      rw [cursor_hidden he, List.filter_append]
      rcases ih with ⟨hq, hc⟩ | ⟨q₁, e', q₂, rfl, he', hq₂, hc⟩
      · exact .inl ⟨by simp [hq, he], hc⟩
      · exact .inr ⟨q₁, e', q₂ ++ [e], by simp, he', by simp [List.filter_append, hq₂, he], hc⟩
end

section
variable [LinearOrder K] (key : α → K) (shown : α → Bool)

/-- The entries after a cursor. -/
def after (c : K) (dir : List α) : List α := dir.filter fun e => c < key e

variable {key shown} {c : K} {dir q rest : List α} {e : α}

theorem after_of_lt (h : ∀ e ∈ dir, c < key e) : after key c dir = dir :=
  List.filter_eq_self.2 (by simpa using h)

/-- In a sorted sequence, what comes after an entry is what has a larger key. -/
theorem after_key (h : (q ++ e :: rest).Pairwise (key · < key ·)) :
    after key (key e) (q ++ e :: rest) = rest := by
  obtain ⟨-, her, hq⟩ := List.pairwise_append.1 h
  obtain ⟨her, -⟩ := List.pairwise_cons.1 her
  have hq' : q.filter (fun x => key e < key x) = [] :=
    List.filter_eq_nil_iff.2 fun x hx => by simpa using (hq x hx e List.mem_cons_self).le
  simp only [after, List.filter_append, hq', List.nil_append]
  rw [List.filter_cons_of_neg (by simp), List.filter_eq_self.2 (by simpa using her)]

theorem after_sorted (h : dir.Pairwise (key · < key ·)) : (after key c dir).Pairwise (key · < key ·) :=
  h.filter _

/-- A later cursor sees only what an earlier one sees. -/
theorem after_after {c' : K} (h : c ≤ c') : after key c' (after key c dir) = after key c' dir := by
  simp only [after, List.filter_filter]
  refine List.filter_congr ?_
  intro e _
  by_cases he : c' < key e
  · simp [he, h.trans_lt he]
  · simp [he]

/-- The entries after the cursor, once the entries `q` have been processed. -/
theorem after_cursor (shown : α → Bool) (hs : dir.Pairwise (key · < key ·))
    (hq : after key c dir = q ++ rest) :
    ∃ q₂, q₂ <:+ q ∧ q₂.filter shown = [] ∧ after key (cursor key shown c q) dir = q₂ ++ rest ∧
      (q₂.length = q.length ↔ q.filter shown = []) := by
  rcases cursor_cases key shown c q with
    ⟨hf, hc⟩ | ⟨q₁, e, q₂, rfl, he, hf, hc⟩
  · exact ⟨q, List.suffix_rfl, hf, by rw [hc, hq], by simp [hf]⟩
  · refine ⟨q₂, ⟨q₁ ++ [e], by simp⟩, hf, ?_, ?_⟩
    · have hsort := after_sorted (c := c) hs
      have hlt : c < key e := by
        have hm : e ∈ after key c dir := by simp [hq]
        simpa using (List.mem_filter.1 hm).2
      rw [hc, ← after_after hlt.le, hq, List.append_assoc, List.cons_append]
      exact after_key (by simpa [hq] using hsort)
    · have hne : (q₁ ++ e :: q₂).filter shown ≠ [] := by simp [List.filter_append, he]
      simp only [hne, iff_false, List.length_append, List.length_cons]
      omega

/-- **No shown entry is lost or repeated** when the cursor moves past the entries `q`. -/
theorem after_cursor_filter (hs : dir.Pairwise (key · < key ·)) (hq : after key c dir = q ++ rest) :
    (after key (cursor key shown c q) dir).filter shown = rest.filter shown := by
  obtain ⟨q₂, -, hf, ha, -⟩ := after_cursor shown hs hq
  rw [ha, List.filter_append, hf, List.nil_append]

/-- **When the client gets on**: fewer entries remain iff one of the entries `q` was shown. -/
theorem after_cursor_length (hs : dir.Pairwise (key · < key ·)) (hq : after key c dir = q ++ rest) :
    (after key (cursor key shown c q) dir).length < (after key c dir).length ↔ q.filter shown ≠ [] := by
  obtain ⟨q₂, hsuf, -, ha, hl⟩ := after_cursor shown hs hq
  have hle := hsuf.length_le
  rw [ha, hq, ne_eq, ← hl]
  simp only [List.length_append]
  omega

/-- The cursor never moves back. -/
theorem le_cursor (hq : after key c dir = q ++ rest) :
    c ≤ cursor key shown c q ∧ (q.filter shown ≠ [] → c < cursor key shown c q) := by
  rcases cursor_cases key shown c q with
    ⟨hf, hc⟩ | ⟨q₁, e, q₂, rfl, -, -, hc⟩
  · exact ⟨hc.ge, fun h => absurd hf h⟩
  · have hm : e ∈ after key c dir := by simp [hq]
    have hlt : c < key e := by simpa using (List.mem_filter.1 hm).2
    exact ⟨hc ▸ hlt.le, fun _ => hc ▸ hlt⟩

end

/-! ## Keys that have to increase -/

section
variable [LT K] (key : α → K)

/-- The keys increase, from a cursor on. -/
def Rising (c : K) (q : List α) : Prop := (c :: q.map key).IsChain (· < ·)

variable {key} {c : K} {e : α} {q q' : List α}

theorem rising_nil : Rising key c [] := List.isChain_singleton _

theorem rising_cons : Rising key c (e :: q) ↔ c < key e ∧ Rising key (key e) q :=
  List.isChain_cons_cons

/-- Sorted entries after the cursor. -/
theorem rising_of_pairwise (h : q.Pairwise (key · < key ·)) (hc : ∀ e ∈ q, c < key e) :
    Rising key c q :=
  (List.pairwise_cons.2 ⟨by simpa using hc, List.pairwise_map.2 h⟩).isChain

variable [DecidableLT K]

variable (key) in
/-- The entries up to the first whose key does not exceed the one before it, this one included. -/
def climb (c : K) : List α → List α
  | [] => []
  | e :: es => if c < key e then e :: climb (key e) es else [e]

/-- While the keys increase, nothing is left out, and what follows goes on from the last of them. -/
theorem climb_append (h : Rising key c q) :
    climb key c (q ++ q') = q ++ climb key (cursor key (fun _ => true) c q) q' := by
  induction q generalizing c with
  | nil => rfl
  | cons e q ih =>
    obtain ⟨hlt, h⟩ := rising_cons.1 h
    rw [List.cons_append, climb, if_pos hlt, ih h, cursor_true_cons]
    rfl

theorem climb_subset (key : α → K) (c : K) (q : List α) : climb key c q ⊆ q := by
  induction q generalizing c with
  | nil => exact List.Subset.refl _
  | cons e q ih =>
    rw [climb]
    split_ifs
    · exact List.cons_subset_cons e (ih (key e))
    · simp

theorem climb_eq (h : Rising key c q) : climb key c q = q := by
  have happend : climb key c (q ++ []) = q ++ climb key (cursor key (fun _ => true) c q) [] :=
    climb_append h
  rwa [List.append_nil, climb, List.append_nil] at happend

theorem rising_climb_iff : Rising key c (climb key c q) ↔ Rising key c q := by
  induction q generalizing c with
  | nil => rfl
  | cons e q ih =>
    rw [climb]
    split_ifs with hlt
    · rw [rising_cons, rising_cons, ih]
    · rw [rising_cons, rising_cons]
      exact ⟨fun h => absurd h.1 hlt, fun h => absurd h.1 hlt⟩

variable [Trans (· < · : K → K → Prop) (· < ·) (· < ·)]

/-- **When what is kept increases**: all of it does, or the first key did not exceed the cursor. -/
theorem climb_pairwise_iff : ((climb key c q).map key).Pairwise (· < ·) ↔
    (∃ e, q.head? = some e ∧ ¬ c < key e) ∨ (q.map key).Pairwise (· < ·) := by
  cases q with
  | nil => simp [climb]
  | cons e q =>
    rw [climb]
    split_ifs with hlt
    · have hc : Rising key (key e) (climb key (key e) q) ↔ Rising key (key e) q := rising_climb_iff
      rw [← List.isChain_iff_pairwise, ← List.isChain_iff_pairwise]
      simp only [List.head?_cons, Option.some.injEq, exists_eq_left', hlt, not_true_eq_false, false_or]
      exact hc
    · simp [hlt]

end

end Paging
