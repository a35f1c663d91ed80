/-
  `reverse_fqdn`: the labels of a name in reverse order.

  The new string is filled from its end.  Each position is written once if the name is plain, that
  is, if there is one dot between two labels and none elsewhere (`reverseFqdn_plain`), and its length with
  the terminator is an `int`; else the characters at the start are a dot, or not written at all, or
  there is no string: `reverseFqdn_iff`.
-/
import NFStash.Lib.Buffers
import NFStash.Lib.Labels
import NFStash.Util

namespace NFStash

open CLib Labels Buffers

/-! ## Writes -/

/-- `text` is written from `lo` on, each character once. -/
def Fills (writes : List (ℤ × Char)) (lo : ℕ) (text : CString) : Prop :=
  writes.Perm (text.zipIdx.map fun p => ((lo : ℤ) + p.2, p.1))

section
variable {writes writes' : List (ℤ × Char)} {lo n : ℕ} {text text' : CString}

theorem Fills.append (h : Fills writes (lo + text'.length) text) (h' : Fills writes' lo text') :
    Fills (writes ++ writes') lo (text' ++ text) := by
  have hshift : ((text.zipIdx text'.length).map fun p => ((lo : ℤ) + p.2, p.1)) =
      text.zipIdx.map fun p => (((lo + text'.length : ℕ) : ℤ) + p.2, p.1) := by
    rw [List.zipIdx_eq_map_add, List.map_map]
    refine List.map_congr_left ?_
    intro p _
    simp only [Function.comp_apply, Nat.cast_add, Prod.mk.injEq, and_true]
    omega
  rw [Fills, List.zipIdx_append, List.map_append, Nat.zero_add, hshift]
  exact (List.Perm.append h h').trans List.perm_append_comm

theorem Fills.mem_iff (h : Fills writes lo text) {p : ℤ} {c : Char} :
    (p, c) ∈ writes ↔ ∃ k : ℕ, text[k]? = some c ∧ p = lo + k := by
  rw [List.Perm.mem_iff h, List.mem_map]
  constructor
  · rintro ⟨⟨c', k⟩, hk, heq⟩
    obtain ⟨rfl, rfl⟩ := Prod.mk.inj heq
    exact ⟨k, List.mem_zipIdx_iff_getElem?.1 hk, rfl⟩
  · rintro ⟨k, hk, rfl⟩
    exact ⟨(c, k), List.mem_zipIdx_iff_getElem?.2 hk, rfl⟩

/-- The positions that are written. -/
theorem Fills.positions (h : Fills writes lo text) :
    (writes.map (·.1)).Perm ((List.range text.length).map fun k : ℕ => (lo : ℤ) + k) := by
  have hpos := List.Perm.map Prod.fst h
  rw [List.map_map] at hpos
  refine hpos.trans (List.Perm.of_eq ?_)
  rw [List.range_eq_range', ← List.zipIdx_map_snd, List.map_map]
  rfl

/-- What is read after the writes. -/
theorem Fills.read (h : Fills writes lo text) :
    ((List.range (lo + text.length)).map fun i : ℕ =>
      ((writes.filter (·.1 = (i : ℤ))).getLast?).map (·.2)) =
      List.replicate lo none ++ text.map some := by
  refine List.ext_getElem? ?_
  intro i
  rw [List.getElem?_map]
  rcases Nat.lt_or_ge i lo with hlt | hge
  · -- the position has been left out
    have hnone : writes.filter (·.1 = (i : ℤ)) = [] := by
      refine List.filter_eq_nil_iff.2 ?_
      rintro ⟨p, c⟩ hp
      obtain ⟨k, -, rfl⟩ := h.mem_iff.1 hp
      simp only [decide_eq_true_eq]
      omega
    rw [List.getElem?_append_left (by simpa using hlt), List.getElem?_replicate, if_pos hlt,
      List.getElem?_range (by omega), Option.map_some, hnone]
    rfl
  · obtain ⟨k, rfl⟩ := Nat.exists_eq_add_of_le hge
    rw [List.getElem?_append_right (by simp), List.length_replicate, Nat.add_sub_cancel_left,
      List.getElem?_map]
    cases hk : text[k]? with
    | none =>
      have hle := List.getElem?_eq_none_iff.1 hk
      rw [List.getElem?_eq_none (by rw [List.length_range]; omega)]
      rfl
    | some c =>
      obtain ⟨hlt, -⟩ := List.getElem?_eq_some_iff.1 hk
      rw [List.getElem?_range (by omega), Option.map_some, Option.map_some]
      refine congrArg some ?_
      have hmem : (((lo + k : ℕ) : ℤ), c) ∈ writes.filter (·.1 = ((lo + k : ℕ) : ℤ)) :=
        List.mem_filter.2 ⟨h.mem_iff.2 ⟨k, hk, by push_cast; rfl⟩, by simp⟩
      have hne := List.ne_nil_of_mem hmem
      rw [List.getLast?_eq_some_getLast hne, Option.map_some]
      obtain ⟨hlast, hpos⟩ := List.mem_filter.1 (List.getLast_mem hne)
      generalize (writes.filter (·.1 = ((lo + k : ℕ) : ℤ))).getLast hne = last at hlast hpos
      obtain ⟨k', hk', hp⟩ := h.mem_iff.1 (show (last.1, last.2) ∈ writes from hlast)
      obtain rfl : k' = k := by
        rw [decide_eq_true_eq, hp] at hpos
        omega
      exact congrArg some (Option.some.inj (hk'.symm.trans hk))

end

/-! ## The loop over the labels -/

theorem asInt_of_lt {n : ℕ} (h : n < 2 ^ 31) : asInt n = n :=
  (BitVec.toInt_ofInt _).trans (Int.bmod_eq_of_le (by omega) (by omega))

/-- An `int` is some value modulo `2 ^ 32`. -/
theorem asInt_eq_ofNat {n m : ℕ} : asInt n = m ↔ n % 2 ^ 32 = m ∧ m < 2 ^ 31 := by
  rw [asInt, BitVec.toInt_ofInt, Int.bmod_eq_iff (by decide)]
  omega

/-- A label, written in front of `pos`. -/
theorem label_fills (label : CString) (lo : ℕ) :
    Fills (label.zipIdx.map fun p => ((lo : ℤ) + p.2, p.1)) lo label :=
  List.Perm.refl _

theorem dot_fills (lo : ℕ) : Fills [((lo : ℤ), '.')] lo ['.'] := by
  refine List.Perm.of_eq ?_
  simp

/-- **What the loop writes**, if it starts `slack` places behind the length of the labels: with slack
    there is a dot in front of the last label, and the places before that are left out. -/
theorem reverseFqdnWrites_fills {labels : List CString} (hne : labels ≠ []) (slack : ℕ)
    (hint : slack + (['.'].intercalate labels).length < 2 ^ 31) :
    Fills (reverseFqdnWrites labels ((slack + (['.'].intercalate labels).length : ℕ) : ℤ)) (slack - 1)
      ((if slack = 0 then [] else ['.']) ++ ['.'].intercalate labels.reverse) := by
  induction labels with
  | nil => exact absurd rfl hne
  | cons label labels ih =>
    rcases eq_or_ne labels [] with rfl | hnil
    · -- the last label
      rw [List.intercalate_singleton] at hint
      rw [List.intercalate_singleton, List.reverse_singleton, List.intercalate_singleton]
      have hpos : ((slack + label.length : ℕ) : ℤ) - label.length = slack := by
        push_cast
        omega
      simp only [reverseFqdnWrites, hpos, asInt_of_lt (Nat.lt_of_le_of_lt (Nat.le_add_right ..) hint)]
      cases slack with
      | zero => simpa using label_fills label 0
      | succ slack =>
        have hdot : ((slack + 1 : ℕ) : ℤ) - 1 = slack := by
          push_cast
          omega
        rw [if_pos (by omega), hdot, asInt_of_lt (by omega), if_neg (Nat.succ_ne_zero slack),
          Nat.add_sub_cancel]
        exact (label_fills label (slack + 1)).append (dot_fills slack)
    · have hlen : (['.'].intercalate (label :: labels)).length =
          label.length + (1 + (['.'].intercalate labels).length) := by
        rw [List.intercalate_cons_of_ne_nil hnil, List.length_append, List.length_append,
          List.length_singleton, Nat.add_assoc]
      have hpos : ((slack + (['.'].intercalate (label :: labels)).length : ℕ) : ℤ) - label.length =
          ((slack + (['.'].intercalate labels).length + 1 : ℕ) : ℤ) := by
        rw [hlen]
        push_cast
        omega
      have hdot : ((slack + (['.'].intercalate labels).length + 1 : ℕ) : ℤ) - 1 =
          ((slack + (['.'].intercalate labels).length : ℕ) : ℤ) := by
        push_cast
        omega
      rw [hlen] at hint
      have hrest := ih hnil (by omega)
      rw [List.reverse_cons, intercalate_concat (by simpa using hnil)]
      simp only [reverseFqdnWrites, hpos, asInt_of_lt (show slack + (['.'].intercalate labels).length + 1 <
        2 ^ 31 by omega), hdot, asInt_of_lt (show slack + (['.'].intercalate labels).length < 2 ^ 31 by omega)]
      rw [if_pos (by omega)]
      -- what the rest of the loop writes, and the dot and the label behind it
      generalize htext : (if slack = 0 then [] else ['.']) ++ ['.'].intercalate labels.reverse = text
        at hrest
      have hlo : slack + (['.'].intercalate labels).length = slack - 1 + text.length := by
        rw [← htext, List.length_append, intercalate_reverse_length]
        split_ifs with h0
        · simp [h0]
        · simp only [List.length_singleton]
          omega
      have hdots : Fills [(((slack + (['.'].intercalate labels).length : ℕ) : ℤ), '.')]
          (slack - 1 + text.length) ['.'] := hlo ▸ dot_fills _
      have hlabel : Fills (label.zipIdx.map fun p =>
          (((slack + (['.'].intercalate labels).length + 1 : ℕ) : ℤ) + p.2, p.1))
          (slack - 1 + (text ++ ['.']).length) label := by
        rw [List.length_append, List.length_singleton, ← Nat.add_assoc, ← hlo]
        exact label_fills label _
      have hall := hlabel.append (hdots.append hrest)
      rw [← List.append_assoc, htext]
      rwa [List.append_assoc] at hall

/-! ## The reversed name -/

section
variable {fqdn : CString}

/-- The new string is what is read after the writes. -/
theorem newNdqf_succ (fqdn : CString) (pos : ℕ) : newNdqf fqdn ((pos + 1 : ℕ) : ℤ) =
    .str ((List.range pos).map fun i : ℕ =>
      (((reverseFqdnWrites (tokens '.' fqdn) pos).filter (·.1 = (i : ℤ))).getLast?).map (·.2)) := rfl

theorem reverseFqdn_str (hip : inetPton fqdn = none) :
    reverseFqdn fqdn = newNdqf fqdn (asInt ((fqdn.length + 1 : ℕ) : ℤ)) := by
  rw [reverseFqdn, if_neg (by simp [hip])]
  push_cast
  rfl

/-- The new string of any size has that many characters. -/
theorem newNdqf_length {size : ℤ} {ndqf : List (Option Char)} (h : newNdqf fqdn size = .str ndqf) :
    ndqf = [none] ∨ size = ((ndqf.length + 1 : ℕ) : ℤ) := by
  rcases size with (_ | pos) | n
  · exact .inl (Ndqf.str.inj h).symm
  · obtain rfl := Ndqf.str.inj h
    rw [List.length_map, List.length_range]
    exact .inr rfl
  · cases h

/-- **The new string**, if its size leaves `slack` places besides the labels and single dots between
    them. -/
theorem newNdqf_eq (hne : tokens '.' fqdn ≠ []) (slack : ℕ)
    (hint : slack + (['.'].intercalate (tokens '.' fqdn)).length < 2 ^ 31) :
    newNdqf fqdn ((slack + (['.'].intercalate (tokens '.' fqdn)).length + 1 : ℕ) : ℤ) =
      .str (List.replicate (slack - 1) none ++
        ((if slack = 0 then [] else ['.']) ++ ['.'].intercalate (tokens '.' fqdn).reverse).map some) := by
  have hread := (reverseFqdnWrites_fills hne slack hint).read
  have hlen : slack - 1 + ((if slack = 0 then [] else ['.']) ++
      ['.'].intercalate (tokens '.' fqdn).reverse).length =
        slack + (['.'].intercalate (tokens '.' fqdn)).length := by
    rw [List.length_append, intercalate_reverse_length]
    split_ifs with h0
    · simp [h0]
    · simp only [List.length_singleton]
      omega
  rw [hlen] at hread
  rw [newNdqf_succ, hread]

/-- A name without labels: nothing is written. -/
theorem newNdqf_dots (hnil : tokens '.' fqdn = []) (pos : ℕ) :
    newNdqf fqdn ((pos + 1 : ℕ) : ℤ) = .str (List.replicate pos none) := by
  rw [newNdqf_succ, hnil]
  refine congrArg Ndqf.str (List.eq_replicate_iff.2 ⟨by simp, ?_⟩)
  intro c hc
  obtain ⟨i, -, rfl⟩ := List.mem_map.1 hc
  rfl

/-- A size for the labels and single dots between them. -/
theorem newNdqf_labels (hint : (['.'].intercalate (tokens '.' fqdn)).length + 1 < 2 ^ 31) :
    newNdqf fqdn (((['.'].intercalate (tokens '.' fqdn)).length + 1 : ℕ) : ℤ) =
      .str ((['.'].intercalate (tokens '.' fqdn).reverse).map some) := by
  by_cases hne : tokens '.' fqdn = []
  · rw [newNdqf_dots hne, hne]
    rfl
  · have hstr := newNdqf_eq hne 0 (by omega)
    rw [Nat.zero_add] at hstr
    exact hstr

/-- **A plain name** whose size is an `int` is reversed label by label. -/
theorem reverseFqdn_plain (hip : inetPton fqdn = none) (hp : Plain '.' fqdn)
    (hint : fqdn.length + 1 < 2 ^ 31) :
    reverseFqdn fqdn = .str ((['.'].intercalate (tokens '.' fqdn).reverse).map some) := by
  have hjoin := plain_iff.1 hp
  have hstr : newNdqf fqdn ((fqdn.length + 1 : ℕ) : ℤ) =
      .str ((['.'].intercalate (tokens '.' fqdn).reverse).map some) := by
    have hlabels := newNdqf_labels (hjoin.symm ▸ hint)
    rwa [hjoin] at hlabels
  rw [reverseFqdn_str hip, asInt_of_lt hint, hstr]

end

/-- What the string is meant to be: all of it has been written, it is the labels of the name in reverse
    order, and it has no empty label. -/
def IsReversed (fqdn : CString) : Prop :=
  ∃ ndqf : CString, reverseFqdn fqdn = .str (ndqf.map some) ∧
    (labels '.' fqdn ≠ [] → ndqf = ['.'].intercalate (labels '.' fqdn).reverse ∧ [] ∉ ndqf.splitOn '.')

/-- The length of the labels, with single dots between them. -/
def labelsLength (fqdn : CString) : ℕ := (['.'].intercalate (labels '.' fqdn)).length

/-- A name that is reversed has, as an `int`, the length of its labels. -/
theorem IsReversed.length {fqdn : CString} (hip : inetPton fqdn = none) (h : IsReversed fqdn) :
    asInt ((fqdn.length + 1 : ℕ) : ℤ) = ((labelsLength fqdn + 1 : ℕ) : ℤ) := by
  obtain ⟨ndqf, hret, hndqf⟩ := h
  rw [reverseFqdn_str hip] at hret
  have hsize : asInt ((fqdn.length + 1 : ℕ) : ℤ) = ((ndqf.length + 1 : ℕ) : ℤ) := by
    rcases newNdqf_length hret with hnone | hsize
    · cases ndqf <;> simp at hnone
    · rwa [List.length_map] at hsize
  rw [hsize] at hret ⊢
  rw [labelsLength]
  rw [← tokens_eq_labels] at hndqf ⊢
  by_cases hne : tokens '.' fqdn = []
  · rw [newNdqf_dots hne, Ndqf.str.injEq] at hret
    rw [hne]
    cases ndqf with
    | nil => rfl
    | cons c ndqf =>
      rw [List.length_cons, List.replicate_succ] at hret
      simp at hret
  · rw [(hndqf hne).1, intercalate_reverse_length]

/-- A name of that length is reversed. -/
theorem IsReversed.of_length {fqdn : CString} (hip : inetPton fqdn = none)
    (hint : labelsLength fqdn + 1 < 2 ^ 31)
    (h : asInt ((fqdn.length + 1 : ℕ) : ℤ) = ((labelsLength fqdn + 1 : ℕ) : ℤ)) : IsReversed fqdn := by
  rw [labelsLength, ← tokens_eq_labels] at hint h
  refine ⟨_, by rw [reverseFqdn_str hip, h, newNdqf_labels hint], fun hne => ⟨by rw [tokens_eq_labels], ?_⟩⟩
  have hlabels : ∀ l ∈ (tokens '.' fqdn).reverse, l ≠ [] ∧ '.' ∉ l :=
    fun l hl => mem_tokens (List.mem_reverse.1 hl)
  rw [List.splitOn_intercalate '.' (fun l hl => (hlabels l hl).2)
    (by rw [tokens_eq_labels]; simpa using hne)]
  exact fun h => (hlabels [] h).1 rfl

/-- A name is plain iff it is as long as its labels. -/
theorem plain_iff_length {fqdn : CString} : Plain '.' fqdn ↔ fqdn.length = labelsLength fqdn := by
  rw [plain_iff, labelsLength, ← tokens_eq_labels]
  exact ⟨fun h => by rw [h], fun h => (intercalate_tokens_sublist '.' fqdn).eq_of_length h.symm⟩

/-- **When a name is reversed**: iff it has no leading, trailing or repeated dot and its size is an `int`, or
    it has so many dots that its length wraps around to that of its labels. -/
theorem reverseFqdn_iff (fqdn : CString) (hip : inetPton fqdn = none) :
    IsReversed fqdn ↔ Plain '.' fqdn ∧ fqdn.length + 1 < 2 ^ 31 ∨
      2 ^ 32 ≤ fqdn.length ∧ fqdn.length % 2 ^ 32 = labelsLength fqdn ∧ labelsLength fqdn + 1 < 2 ^ 31 := by
  have hlen : IsReversed fqdn ↔
      (fqdn.length + 1) % 2 ^ 32 = labelsLength fqdn + 1 ∧ labelsLength fqdn + 1 < 2 ^ 31 := by
    rw [← asInt_eq_ofNat]
    exact ⟨fun h => h.length hip, fun h => .of_length hip (asInt_eq_ofNat.1 h).2 h⟩
  rw [hlen, plain_iff_length]
  omega

theorem reverseFqdn_iff_test : IsReversed "www.test.com".toList ↔
    Plain '.' "www.test.com".toList ∧ "www.test.com".toList.length + 1 < 2 ^ 31 ∨
      2 ^ 32 ≤ "www.test.com".toList.length ∧
        "www.test.com".toList.length % 2 ^ 32 = labelsLength "www.test.com".toList ∧
        labelsLength "www.test.com".toList + 1 < 2 ^ 31 :=
  reverseFqdn_iff "www.test.com".toList (by decide)

/-- The first character of an absolute name is a dot when it is reversed; with two leading dots
    it is not written at all. -/
theorem reverseFqdn_absolute : reverseFqdn "test.com.".toList = .str (".com.test".toList.map some) ∧
    reverseFqdn "..com".toList = .str (none :: ".com".toList.map some) ∧
    ¬ IsReversed "test.com.".toList ∧ ¬ IsReversed "..com".toList := by
  refine ⟨by decide, by decide, ?_, ?_⟩
  · exact fun h => absurd (h.length (by decide)) (by decide)
  · exact fun h => absurd (h.length (by decide)) (by decide)

/-! ## Names of single dots -/

/-- All stores to the new string: the terminator, and the writes of the loop. -/
def reverseFqdnStores (fqdn : CString) : List (ℤ × Char) :=
  let pos := asInt (fqdn.length + 1) - 1
  -- without memory there are none
  if pos + 1 < 0 then [] else (pos, NUL) :: reverseFqdnWrites (tokens '.' fqdn) pos

section
variable {labels : List CString} (hlabels : ∀ label ∈ labels, label ≠ [] ∧ '.' ∉ label)
include hlabels

theorem reverseFqdn_intercalate (hip : inetPton (['.'].intercalate labels) = none)
    (hint : (['.'].intercalate labels).length + 1 < 2 ^ 31) :
    reverseFqdn (['.'].intercalate labels) = .str ((['.'].intercalate labels.reverse).map some) := by
  have htokens := tokens_intercalate hlabels
  rw [reverseFqdn_plain hip (plain_iff.2 (by rw [htokens])) hint, htokens]

/-- Each position is written once. -/
theorem reverseFqdnStores_positions (hne : labels ≠ [])
    (hint : (['.'].intercalate labels).length + 1 < 2 ^ 31) :
    ((reverseFqdnStores (['.'].intercalate labels)).map (·.1)).Perm
      ((List.range ((['.'].intercalate labels).length + 1)).map fun i : ℕ => (i : ℤ)) := by
  have hpos := (reverseFqdnWrites_fills hne 0 (by omega)).positions
  rw [if_pos rfl, List.nil_append, intercalate_reverse_length, Nat.zero_add] at hpos
  simp only [Nat.zero_sub, Nat.cast_zero, zero_add] at hpos
  have hstart : asInt ((['.'].intercalate labels).length + 1) - 1 = (['.'].intercalate labels).length := by
    have hsize := asInt_of_lt hint
    push_cast at hsize
    omega
  simp only [reverseFqdnStores, hstart]
  rw [if_neg (by omega), tokens_intercalate hlabels, List.map_cons, List.range_succ, List.map_append]
  exact (hpos.cons _).trans (List.perm_append_singleton _ _).symm

end

/-- **`reverse_fqdn`.**  The labels of a name whose size is an `int` come back in reverse order, each position
    of the new string is written once, and a second call gives the name back. -/
theorem reverseFqdn_labels (labels : List CString) (hne : labels ≠ [])
    (hlabels : ∀ label ∈ labels, label ≠ [] ∧ '.' ∉ label)
    (hint : (['.'].intercalate labels).length < 2 ^ 31 - 1)
    (hip : inetPton (['.'].intercalate labels) = none) :
    reverseFqdn (['.'].intercalate labels) = .str ((['.'].intercalate labels.reverse).map some) ∧
      ((reverseFqdnStores (['.'].intercalate labels)).map (·.1)).Perm
        ((List.range ((['.'].intercalate labels).length + 1)).map fun i : ℕ => (i : ℤ)) ∧
      (inetPton (['.'].intercalate labels.reverse) = none →
        reverseFqdn (['.'].intercalate labels.reverse) = .str ((['.'].intercalate labels).map some)) := by
  have hsize : (['.'].intercalate labels).length + 1 < 2 ^ 31 := by omega
  refine ⟨reverseFqdn_intercalate hlabels hip hsize, reverseFqdnStores_positions hlabels hne hsize, ?_⟩
  intro hip'
  have hrev := reverseFqdn_intercalate (fun l hl => hlabels l (List.mem_reverse.1 hl)) hip'
    (by rwa [intercalate_reverse_length])
  rwa [List.reverse_reverse] at hrev

theorem reverseFqdn_labels_test :
    reverseFqdn "www.test.com".toList = .str ("com.test.www".toList.map some) ∧
    ((reverseFqdnStores "www.test.com".toList).map (·.1)).Perm
      ((List.range 13).map fun i : ℕ => (i : ℤ)) ∧
    (inetPton "com.test.www".toList = none →
      reverseFqdn "com.test.www".toList = .str ("www.test.com".toList.map some)) :=
  reverseFqdn_labels ["www".toList, "test".toList, "com".toList] (by decide) (by decide) (by decide)
    (by decide)

/-- A long string is no address. -/
theorem inetPton_long (n : ℕ) (c : Char) (h : 15 < n) : inetPton (List.replicate n c) = none := by
  by_contra hne
  have hle := inetPton_length (Option.isSome_iff_ne_none.2 hne)
  rw [List.length_replicate] at hle
  omega

/-- With the size of a label of `2 ^ 31 - 1` characters the `int` wraps around, and there is no string. -/
theorem reverseFqdn_long :
    inetPton (['.'].intercalate [List.replicate (2 ^ 31 - 1) 'a']) = none ∧
    reverseFqdn (['.'].intercalate [List.replicate (2 ^ 31 - 1) 'a']) = .null ∧
    reverseFqdnStores (['.'].intercalate [List.replicate (2 ^ 31 - 1) 'a']) = [] := by
  rw [List.intercalate_singleton]
  have hip := inetPton_long (2 ^ 31 - 1) 'a' (by decide)
  have hsize : asInt ((List.replicate (2 ^ 31 - 1) 'a').length + 1) = -2 ^ 31 := by
    rw [List.length_replicate]
    decide
  refine ⟨hip, ?_, ?_⟩
  · rw [reverseFqdn, if_neg (by rw [hip]; decide), hsize]
    rfl
  · simp only [reverseFqdnStores, hsize]
    exact if_pos (by decide)

end NFStash
