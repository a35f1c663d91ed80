/-
  `replace_char`: all occurrences of a string in another are replaced.

  The first pass counts the occurrences, for the size of the new string; the second copies.
  `replaceChar_iff`: the new string fills the memory that has been allocated for it, unless its size is
  too large for a `size_t` or `malloc` refuses it.  `print_format` replaces four characters of a path by
  underscores, one after the other (`formatPath_ok`).
-/
import NFStash.Lib.Buffers
import NFStash.Lib.Search
import NFStash.Df
import Mathlib.Data.Nat.ModEq

namespace NFStash

open CLib Loops Buffers Search

/-! ## Model -/

/-- The count of the first pass, which is at most the length of the string, and `p` at its end. -/
def countLoop (old : CString) : ℕ → ℕ → CString → Except Fault (ℕ × CString)
  | 0, _, _ => .error .fuel
  | fuel + 1, count, p => match strstr old p with
    | none => .ok (count, p)
    | some q => countLoop old fuel (count + 1) (p.drop (q + old.length))

/-- The variables of the second pass: `r` is an index of `ret`. -/
structure ReplaceState where
  count : ℕ
  ret : Buffer
  r : ℕ := 0
  p : CString

/-- A write outside of the memory of a buffer is a fault. -/
def inBounds {α : Type} : Option α → Except Fault α
  | none => .error .outOfBounds
  | some a => .ok a

/-- The second pass: strings of the same size are replaced until there are no more. -/
def replaceLoop (old new : CString) : ℕ → ReplaceState → Except Fault ReplaceState
  | 0, _ => .error .fuel
  | fuel + 1, s =>
    if old.length ≠ new.length ∧ s.count = 0 then .ok s
    else match strstr old s.p with
      | none => .ok s
      | some l => do
        let ret ← inBounds (store s.ret s.r (s.p.take l))
        let ret ← inBounds (store ret (s.r + l) new)
        replaceLoop old new fuel
          { count := s.count - 1, ret, r := s.r + l + new.length, p := s.p.drop (l + old.length) }

/-- The count, and the length of the new string in a `size_t`. -/
def replaceLength (fuel : ℕ) (str old new : CString) : Except Fault (ℕ × ℕ) :=
  if old.length = new.length then .ok (0, wrap64 str.length)
  else do
    let (count, p) ← countLoop old fuel 0 str
    let grow := wrap64 (new.length + (2 ^ 64 - wrap64 old.length))
    .ok (count, wrap64 (str.length - p.length + p.length + count * grow))

/-- `replace_char`: the memory that has been allocated, with what is written there, or NULL if `malloc`
    does not grant a memory of this size. -/
def replaceChar (grants : ℕ → Bool) (fuel : ℕ) (str old new : CString) :
    Except Fault (Option Buffer) := do
  let (count, retlen) ← replaceLength fuel str old new
  if grants (wrap64 (retlen + 1)) then
    let s ← replaceLoop old new fuel { count, ret := fresh (wrap64 (retlen + 1)), p := str }
    let ret ← inBounds (strcpy s.ret s.r s.p)
    .ok (some ret)
  else .ok none

/-- `bad_characters`. -/
def badCharacters : List CString := [[' '], ['.'], ['-'], ['/']]

/-- One pass of the loop in `print_format`: a path that is NULL is read. -/
def formatPass (grants : ℕ → Bool) (fuel : ℕ) (path : Option CString) (bad : CString) :
    Except Fault (Option CString) :=
  match path with
  | none => .error .nullDeref
  | some path => do
    match ← replaceChar grants fuel path bad ['_'] with
    | none => .ok none
    | some ret => some <$> inBounds (string ret)

/-- The path in `print_format`, after its loop; `grants` is asked once in each pass. -/
def formatPath (grants : ℕ → ℕ → Bool) (fuel : ℕ) (path : CString) : Except Fault (Option CString) :=
  badCharacters.zipIdx.foldlM (fun path pass => formatPass (grants pass.2) fuel path pass.1) (some path)

example : replaceChar (fun _ => true) 8 "a.bc".toList ".".toList "::".toList =
    .ok (some (("a::bc".toList ++ [NUL]).map some)) := by decide

/-! ## The two passes -/

section
variable {old new s t cs : CString} {rest : Buffer} {n fuel count : ℕ}

theorem inBounds_eq_ok {α : Type} {o : Option α} {a : α} : inBounds o = .ok a ↔ o = some a := by
  cases o <;> simp [inBounds]

variable (count) in
/-- The first pass counts the occurrences. -/
theorem countLoop_ok (hold : old ≠ []) (h : Replaces old new s t n) (hf : n < fuel) :
    ∃ p, countLoop old fuel count s = .ok (count + n, p) ∧ p.length ≤ s.length := by
  induction h generalizing fuel count with
  | @done s hno =>
    obtain ⟨fuel, rfl⟩ := Nat.exists_eq_succ_of_ne_zero (Nat.ne_zero_of_lt hf)
    refine ⟨s, ?_, le_rfl⟩
    rw [countLoop, (strstr_eq_none_iff hold).2 hno]
    rfl
  | @next a s t n hfirst h ih =>
    obtain ⟨fuel, rfl⟩ := Nat.exists_eq_succ_of_ne_zero (Nat.ne_zero_of_lt hf)
    obtain ⟨p, hp, hle⟩ := @ih fuel (count + 1) (by omega)
    refine ⟨p, ?_, hle.trans (List.length_append ▸ Nat.le_add_left ..)⟩
    rw [countLoop, strstr_append hold hfirst]
    simp only [← List.length_append, List.drop_left, hp]
    rw [Nat.add_assoc, Nat.add_comm 1]

variable (cs) in
/-- **The second pass** fills the memory, if it is as large as the new string. -/
theorem replaceLoop_ok (hold : old ≠ []) (h : Replaces old new s t n) (hf : n < fuel)
    (hcount : old.length ≠ new.length → count = n) (hrest : rest.length = t.length + 1) :
    ∃ s', replaceLoop old new fuel { count, ret := cs.map some ++ rest, r := cs.length, p := s } =
        .ok s' ∧
      strcpy s'.ret s'.r s'.p = some ((cs ++ t ++ [NUL]).map some) := by
  induction h generalizing fuel count cs rest with
  | @done s hno =>
    obtain ⟨fuel, rfl⟩ := Nat.exists_eq_succ_of_ne_zero (Nat.ne_zero_of_lt hf)
    refine ⟨{ count, ret := cs.map some ++ rest, r := cs.length, p := s }, ?_, ?_⟩
    · rw [replaceLoop, (strstr_eq_none_iff hold).2 hno, ite_self]
    · have hlen : (s ++ [NUL]).length = rest.length := by simp [hrest]
      rw [strcpy, store_next _ _ hlen.le, hlen, List.drop_length, List.append_nil, List.append_assoc]
  | @next a s t n hfirst h ih =>
    obtain ⟨fuel, rfl⟩ := Nat.exists_eq_succ_of_ne_zero (Nat.ne_zero_of_lt hf)
    simp only [List.length_append] at hrest
    have htake : (a ++ old ++ s).take a.length = a := by
      rw [List.append_assoc, List.take_left]
    have hroom : a.length ≤ rest.length := by omega
    have hroom' : new.length ≤ (rest.drop a.length).length := by
      rw [List.length_drop]
      omega
    have hstore := store_next cs a hroom
    have hstore' := store_next (cs ++ a) new hroom'
    obtain ⟨s', hs', hend⟩ := @ih (cs ++ a ++ new) ((rest.drop a.length).drop new.length) fuel (count - 1)
      (by omega) (fun hne => by rw [hcount hne, Nat.add_sub_cancel]) (by
        rw [List.length_drop, List.length_drop]
        omega)
    refine ⟨s', ?_, by rw [hend]; simp⟩
    rw [replaceLoop, if_neg fun hc => Nat.succ_ne_zero n ((hcount hc.1).symm.trans hc.2),
      strstr_append hold hfirst]
    simp only [htake, hstore, inBounds, bind, Except.bind, ← List.length_append, hstore', List.drop_left]
    exact hs'

/-- The length of the new string, in a `size_t`. -/
theorem replaceLength_ok (hold : old ≠ []) (h : Replaces old new s t n) (hf : n < fuel) :
    ∃ count, replaceLength fuel s old new = .ok (count, wrap64 t.length) ∧
      (old.length ≠ new.length → count = n) := by
  have hlen := h.length
  unfold replaceLength
  split_ifs with hsame
  · refine ⟨0, ?_, fun hne => absurd hsame hne⟩
    rw [hsame, Nat.add_right_cancel_iff] at hlen
    rw [hlen]
  · obtain ⟨p, hp, hle⟩ := countLoop_ok 0 hold h hf
    refine ⟨n, ?_, fun _ => rfl⟩
    simp only [hp, bind, Except.bind, Nat.zero_add, Nat.sub_add_cancel hle]
    refine congrArg (fun m => Except.ok (n, m)) ?_
    -- the difference of the lengths is taken modulo the word size
    generalize hg : wrap64 (new.length + (2 ^ 64 - wrap64 old.length)) = grow
    have hgrow : grow + old.length ≡ new.length [MOD 2 ^ 64] := by
      simp only [← hg, wrap64, Nat.ModEq]
      omega
    have hsum : s.length + n * grow + n * old.length ≡ t.length + n * old.length [MOD 2 ^ 64] := by
      rw [hlen, Nat.add_assoc, ← Nat.mul_add]
      exact (hgrow.mul_left n).add_left s.length
    exact hsum.add_right_cancel'

/-- The size of the memory does not change. -/
theorem replaceLoop_length {s s' : ReplaceState} (h : replaceLoop old new fuel s = .ok s') :
    s'.ret.length = s.ret.length := by
  induction fuel generalizing s with
  | zero => cases h
  | succ fuel ih =>
    rw [replaceLoop] at h
    split_ifs at h with hc
    · obtain rfl := Except.ok.inj h
      rfl
    · cases hstr : strstr old s.p with
      | none =>
        rw [hstr] at h
        obtain rfl := Except.ok.inj h
        rfl
      | some l =>
        rw [hstr] at h
        obtain ⟨ret, hret, h⟩ := bind_eq_ok.1 h
        obtain ⟨ret', hret', h⟩ := bind_eq_ok.1 h
        rw [ih h, store_length (inBounds_eq_ok.1 hret'), store_length (inBounds_eq_ok.1 hret)]

/-- What has been allocated has a size of 64 bits, and has been granted. -/
theorem replaceChar_granted {grants : ℕ → Bool} {ret : Buffer}
    (h : replaceChar grants fuel s old new = .ok (some ret)) :
    ret.length < 2 ^ 64 ∧ grants ret.length = true := by
  obtain ⟨⟨count, retlen⟩, -, h⟩ := bind_eq_ok.1 h
  dsimp only at h
  by_cases hg : grants (wrap64 (retlen + 1)) = true
  · rw [if_pos hg] at h
    obtain ⟨s', hs', h⟩ := bind_eq_ok.1 h
    obtain ⟨ret', hret, h⟩ := bind_eq_ok.1 h
    obtain rfl := Option.some.inj (Except.ok.inj h)
    have hlen := replaceLoop_length hs'
    rw [fresh_length] at hlen
    rw [store_length (inBounds_eq_ok.1 hret), hlen]
    exact ⟨Nat.mod_lt _ (by decide), hg⟩
  · rw [if_neg hg] at h
    cases h

/-- The size that is asked for. -/
theorem replaceChar_refused {grants : ℕ → Bool} (hold : old ≠ []) (h : Replaces old new s t n)
    (hf : n < fuel) (hlt : t.length + 1 < 2 ^ 64) (hg : grants (t.length + 1) = false) :
    replaceChar grants fuel s old new = .ok none := by
  obtain ⟨count, hlen, -⟩ := replaceLength_ok hold h hf
  have hwrap : wrap64 (wrap64 t.length + 1) = t.length + 1 := by
    simp only [wrap64]
    omega
  refine bind_eq_ok.2 ⟨(count, wrap64 t.length), hlen, ?_⟩
  dsimp only
  rw [hwrap, if_neg (by rw [hg]; decide)]

end

/-- **`replace_char`.**  It returns the string with all occurrences replaced, in memory of just that
    size, iff the size fits a `size_t` and is granted. -/
theorem replaceChar_iff {grants : ℕ → Bool} {old new str t : CString} {n fuel : ℕ} (hold : old ≠ [])
    (h : Replaces old new str t n) (hf : n < fuel) :
    replaceChar grants fuel str old new = .ok (some ((t ++ [NUL]).map some)) ↔
      t.length + 1 < 2 ^ 64 ∧ grants (t.length + 1) = true := by
  constructor
  · intro hret
    simpa using replaceChar_granted hret
  · rintro ⟨hlt, hg⟩
    obtain ⟨count, hlen, hcount⟩ := replaceLength_ok hold h hf
    have hwrap : wrap64 (wrap64 t.length + 1) = t.length + 1 := by
      simp only [wrap64]
      omega
    obtain ⟨s', hs', hend⟩ := replaceLoop_ok [] hold h hf hcount (fresh_length (t.length + 1))
    rw [List.nil_append] at hend
    refine bind_eq_ok.2 ⟨(count, wrap64 t.length), hlen, ?_⟩
    dsimp only
    rw [hwrap, if_pos hg]
    exact bind_eq_ok.2 ⟨s', hs', bind_eq_ok.2 ⟨_, inBounds_eq_ok.2 hend, rfl⟩⟩

/-- The result of two strings of 8 GiB would have 2 ^ 66 characters; its size wraps around, whatever
    `malloc` grants.  Without memory there is no result at all. -/
theorem replaceChar_wraps : (∀ grants : ℕ → Bool, ¬ ∃ t n, Replaces ['a'] (List.replicate (2 ^ 33) 'b')
    (List.replicate (2 ^ 33) 'a') t n ∧ ∃ N, ∀ fuel, N ≤ fuel →
      replaceChar grants fuel (List.replicate (2 ^ 33) 'a') ['a'] (List.replicate (2 ^ 33) 'b') =
        .ok (some ((t ++ [NUL]).map some))) ∧
    ∀ fuel, 1 ≤ fuel → replaceChar (fun _ => false) fuel ['a'] ['a'] ['b'] = .ok none := by
  refine ⟨?_, fun fuel _ => rfl⟩
  rintro grants ⟨t, n, h, N, hN⟩
  have hcount := h.count
  have hlen := h.length
  rw [List.count_replicate_self] at hcount
  rw [List.length_replicate, List.length_replicate, List.length_singleton, hcount] at hlen
  have hlt := ((replaceChar_iff (by simp) h (Nat.lt_succ_of_le (Nat.le_max_left n N))).1
    (hN _ ((Nat.le_max_right n N).trans (Nat.le_succ _)))).1
  omega

/-! ## Paths -/

section
variable {path : CString} {fuel : ℕ} {c : Char}

theorem notMem_underscores (hnul : NUL ∉ path) : NUL ∉ path.map fun x => if x = c then '_' else x := by
  intro hmem
  obtain ⟨x, hx, heq⟩ := List.mem_map.1 hmem
  split_ifs at heq
  · exact absurd heq (by decide)
  · exact hnul (heq ▸ hx)

/-- One pass over a path. -/
theorem formatPass_ok {grants : ℕ → Bool} (c : Char) (hnul : NUL ∉ path) (hlen : path.length + 1 < 2 ^ 64)
    (hg : grants (path.length + 1) = true) (hf : path.length < fuel) :
    formatPass grants fuel (some path) [c] = .ok (some (path.map fun x => if x = c then '_' else x)) := by
  have hold : [c] ≠ [] := List.cons_ne_nil c []
  obtain ⟨t, n, h⟩ := exists_replaces hold ['_'] path
  have hn := h.count_le (by simp)
  have ht := h.map
  have hsize : t.length = path.length := by rw [ht, List.length_map]
  have hret : replaceChar grants fuel path [c] ['_'] = .ok (some ((t ++ [NUL]).map some)) :=
    (replaceChar_iff hold h (hn.trans_lt hf)).2 (by rw [hsize]; exact ⟨hlen, hg⟩)
  have hstring : string ((t ++ [NUL]).map some) = some (path.map fun x => if x = c then '_' else x) := by
    rw [List.map_append, ht]
    exact string_terminated (notMem_underscores hnul)
  rw [formatPass]
  refine bind_eq_ok.2 ⟨_, hret, ?_⟩
  simp only [inBounds_eq_ok.2 hstring]
  rfl

/-- The passes for several characters. -/
theorem foldlM_formatPass {grants : ℕ → ℕ → Bool} {bad : List Char} (i : ℕ) (hbad : '_' ∉ bad)
    (hnul : NUL ∉ path) (hlen : path.length + 1 < 2 ^ 64) (hg : ∀ i, grants i (path.length + 1) = true)
    (hf : path.length < fuel) :
    ((bad.map ([·])).zipIdx i).foldlM (fun path pass => formatPass (grants pass.2) fuel path pass.1)
      (some path) = .ok (some (path.map fun x => if x ∈ bad then '_' else x)) := by
  induction bad generalizing path i with
  | nil => simp [pure, Except.pure]
  | cons c bad ih =>
    obtain ⟨hc, hbad⟩ := not_or.1 (List.mem_cons.not.1 hbad)
    have hpass := formatPass_ok c hnul hlen (hg i) hf
    have hrest := ih (i + 1) hbad (notMem_underscores (c := c) hnul) (by rwa [List.length_map])
      (by rwa [List.length_map]) (by rwa [List.length_map])
    rw [List.map_cons, List.zipIdx_cons, List.foldlM_cons]
    refine bind_eq_ok.2 ⟨_, hpass, ?_⟩
    rw [hrest, List.map_map]
    refine congrArg (fun path => Except.ok (some path)) (List.map_congr_left ?_)
    intro x _
    by_cases hx : x = c
    · simp [hx]
    · simp [hx]

/-- **The passes of `print_format`** replace the bad characters. -/
theorem formatPath_ok {grants : ℕ → ℕ → Bool} (hnul : NUL ∉ path) (hlen : path.length + 1 < 2 ^ 64)
    (hg : ∀ i, grants i (path.length + 1) = true) (hf : path.length < fuel) :
    formatPath grants fuel path = .ok (some (replaceChars path)) := by
  have hbad : '_' ∉ [' ', '.', '-', '/'] := by decide
  have h := foldlM_formatPass 0 hbad hnul hlen hg hf
  have hchars : (path.map fun x => if x ∈ [' ', '.', '-', '/'] then '_' else x) = replaceChars path := by
    refine List.map_congr_left ?_
    intro x _
    simp
  rw [← hchars]
  exact h

/-- What is left of a path. -/
theorem replaceChars_spec (path : CString) : (replaceChars path).length = path.length ∧
    (∀ c ∈ [' ', '.', '-', '/'], c ∉ replaceChars path) ∧
    ∀ (i : ℕ) (c : Char), path[i]? = some c → c ∉ [' ', '.', '-', '/'] →
      (replaceChars path)[i]? = some c := by
  refine ⟨List.length_map _, ?_, ?_⟩
  · intro c hc hmem
    obtain ⟨x, -, rfl⟩ := List.mem_map.1 hmem
    split_ifs at hc with hx
    · exact absurd hc (by decide)
    · simp only [List.mem_cons, List.not_mem_nil, or_false] at hc
      exact hx hc
  · intro i c hi hc
    simp only [List.mem_cons, List.not_mem_nil, or_false] at hc
    rw [replaceChars, List.getElem?_map, hi, Option.map_some, if_neg hc]

end

/-- The most that `malloc` grants. -/
def PTRDIFF_MAX : ℕ := 2 ^ 63 - 1

/-- **Replacing in strings and paths.**  `replace_char` ends and returns the string with all occurrences
    replaced, in memory of just that size, if that is granted, and NULL if it is refused.  A path keeps its
    length and its other characters, and has no bad ones. -/
theorem replaceChar_ok (grants : ℕ → ℕ → Bool)
    (hgrants : ∀ i size, grants i size = true → size ≤ PTRDIFF_MAX) (old new str path : CString)
    (hold : old ≠ []) (hnul : NUL ∉ path) :
    (∃ t n, Replaces old new str t n ∧ (grants 0 (t.length + 1) = true → ∀ fuel, str.length < fuel →
        replaceChar (grants 0) fuel str old new = .ok (some ((t ++ [NUL]).map some))) ∧
      (t.length < PTRDIFF_MAX → grants 0 (t.length + 1) = false → ∀ fuel, str.length < fuel →
        replaceChar (grants 0) fuel str old new = .ok none)) ∧
    ((∀ i, grants i (path.length + 1) = true) → ∃ path',
      (∀ fuel, path.length < fuel → formatPath grants fuel path = .ok (some path')) ∧
      path' = replaceChars path ∧ path'.length = path.length ∧
      (∀ c ∈ [' ', '.', '-', '/'], c ∉ path') ∧
      ∀ (i : ℕ) (c : Char), path[i]? = some c → c ∉ [' ', '.', '-', '/'] → path'[i]? = some c) := by
  have hsize : ∀ i size, grants i size = true → size < 2 ^ 64 := fun i size hg =>
    (hgrants i size hg).trans_lt (by decide)
  obtain ⟨t, n, h⟩ := exists_replaces hold new str
  refine ⟨⟨t, n, h, fun hg fuel hf => ?_, fun hlt hg fuel hf => ?_⟩, fun hg => ⟨replaceChars path,
    fun fuel hf => formatPath_ok hnul (hsize 0 _ (hg 0)) hg hf, rfl, replaceChars_spec path⟩⟩
  · exact (replaceChar_iff hold h ((h.count_le hold).trans_lt hf)).2 ⟨hsize 0 _ hg, hg⟩
  · exact replaceChar_refused hold h ((h.count_le hold).trans_lt hf)
      ((Nat.succ_lt_succ hlt).trans (by decide)) hg

/-- A `malloc` that grants whatever it may. -/
theorem replaceChar_ok_export : ∃ t n, Replaces ['a'] ['b', 'b'] "banana".toList t n ∧
    (t.length + 1 ≤ PTRDIFF_MAX → ∀ fuel, 6 < fuel →
      replaceChar (fun size => size ≤ PTRDIFF_MAX) fuel "banana".toList ['a'] ['b', 'b'] =
        .ok (some ((t ++ [NUL]).map some))) ∧
    ∃ path', (∀ fuel, 10 < fuel →
        formatPath (fun _ size => size ≤ PTRDIFF_MAX) fuel "/srv/a.b-c".toList = .ok (some path')) ∧
      path' = replaceChars "/srv/a.b-c".toList ∧ path'.length = 10 ∧
      (∀ c ∈ [' ', '.', '-', '/'], c ∉ path') ∧
      ∀ (i : ℕ) (c : Char), "/srv/a.b-c".toList[i]? = some c → c ∉ [' ', '.', '-', '/'] →
        path'[i]? = some c := by
  obtain ⟨⟨t, n, h, hret, -⟩, hpath⟩ := replaceChar_ok (fun _ size => size ≤ PTRDIFF_MAX)
    (fun _ size hg => of_decide_eq_true hg) ['a'] ['b', 'b'] "banana".toList "/srv/a.b-c".toList (by decide)
    (by decide)
  exact ⟨t, n, h, fun hg => hret (decide_eq_true hg), hpath fun _ => rfl⟩

end NFStash
