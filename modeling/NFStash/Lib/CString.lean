/-
  C strings and the libc functions on them.

  A C string is the list of its characters, without the terminating NUL.
  `tokens` is what repeated calls of `strtok` return, `basename` and `dirname`
  are those of `libgen.h`, `inetPton` and `inetNtop` those for `AF_INET`.
-/
import Mathlib.Data.List.DropRight
import Mathlib.Data.List.Infix
import Mathlib.Data.Nat.Digits.Defs

namespace CLib

/-- A C string: its characters up to the terminating NUL. -/
abbrev CString := List Char

/-- `strncpy(dst, src, n)` into an array of `n` characters: what `dst` holds up to its first
    NUL.  The array is terminated iff the result is shorter than `n`. -/
def strncpy (n : ℕ) (src : CString) : CString := src.take n

/-- `memcmp(a, b, n) != 0`. -/
def memcmpNe (a b : List UInt8) (n : ℕ) : Bool := a.take n != b.take n

/-- `memcpy(dst, src, n)`. -/
def memcpy (dst src : List UInt8) (n : ℕ) : List UInt8 := src.take n ++ dst.drop n

theorem strncpy_length (n : ℕ) (src : CString) : (strncpy n src).length = min n src.length :=
  List.length_take

theorem strncpy_of_lt {n : ℕ} {src : CString} (h : src.length ≤ n) : strncpy n src = src :=
  List.take_of_length_le h

/-! ## `strtok` -/

/-- The tokens `strtok` returns for the delimiter `d`: the non-empty runs of other characters. -/
def tokens (d : Char) : CString → List CString
  | [] => []
  | c :: cs =>
    if c = d then tokens d cs
    else if cs.head? = none ∨ cs.head? = some d then [c] :: tokens d cs
    else match tokens d cs with
      | [] => [[c]]
      | t :: ts => (c :: t) :: ts

/-- A token ends at the first delimiter. -/
theorem tokens_append {d : Char} {h : CString} (hne : h ≠ []) (hd : d ∉ h) (cs : CString) :
    tokens d (h ++ d :: cs) = h :: tokens d cs := by
  induction h with
  | nil => exact absurd rfl hne
  | cons c h ih =>
    simp only [List.mem_cons, not_or] at hd
    have hc : c ≠ d := fun e => hd.1 e.symm
    cases h with
    | nil => simp [tokens, hc]
    | cons c' h =>
      have hc' : c' ≠ d := fun e => hd.2 (e ▸ List.mem_cons_self ..)
      rw [List.cons_append, tokens, if_neg hc, ih (by simp) hd.2]
      simp [hc']

/-- A string without delimiters is its own token. -/
theorem tokens_self {d : Char} {h : CString} (hne : h ≠ []) (hd : d ∉ h) : tokens d h = [h] := by
  induction h with
  | nil => exact absurd rfl hne
  | cons c h ih =>
    simp only [List.mem_cons, not_or] at hd
    have hc : c ≠ d := fun e => hd.1 e.symm
    cases h with
    | nil => simp [tokens, hc]
    | cons c' h =>
      have hc' : c' ≠ d := fun e => hd.2 (e ▸ List.mem_cons_self ..)
      rw [tokens, if_neg hc, ih (by simp) hd.2]
      simp [hc']

theorem ne_of_notMem {d : Char} {l : CString} (hd : d ∉ l) : ∀ a ∈ l, (a != d) = true :=
  fun _ ha => bne_iff_ne.2 fun e => hd (e ▸ ha)

/-- The first token of a string that does not start with a delimiter. -/
theorem tokens_head? {d c : Char} (hc : c ≠ d) (cs : CString) :
    (tokens d (c :: cs)).head? = some ((c :: cs).takeWhile (· != d)) := by
  by_cases hd : d ∈ c :: cs
  · obtain ⟨l, r, hl, hn⟩ := List.eq_append_cons_of_mem hd
    have hne : l ≠ [] := by
      rintro rfl
      exact hc (List.cons.inj hl).1
    rw [hl, tokens_append hne hn, List.head?_cons, List.takeWhile_append_of_pos (ne_of_notMem hn)]
    simp
  · rw [tokens_self (by simp) hd, List.head?_cons, List.takeWhile_eq_self_iff.2 (ne_of_notMem hd)]

/-! ## `basename` and `dirname` -/

/-- `basename` of `libgen.h`: trailing slashes do not count. -/
def basename (s : CString) : CString :=
  if s = [] then ['.']
  else
    let t := s.rdropWhile (· == '/')
    if t = [] then ['/'] else t.rtakeWhile (· != '/')

/-- Drop the slashes that separate a directory from the last component; the root keeps its
    slash, and a path of exactly two slashes keeps both. -/
def stripSlashes (s : CString) : CString :=
  let t := s.rdropWhile (· == '/')
  if t ≠ [] then t else if s = ['/', '/'] then s else ['/']

/-- `dirname` of `libgen.h`. -/
def dirname (s : CString) : CString :=
  let t := s.rdropWhile (· == '/')
  if t = [] then if s = [] then ['.'] else stripSlashes s
  else if '/' ∈ t then stripSlashes (t.rdropWhile (· != '/')) else ['.']

/-- A trailing slash does not count. -/
theorem basename_concat_slash {p : CString} (hp : p ≠ []) : basename (p ++ ['/']) = basename p := by
  unfold basename
  rw [List.rdropWhile_concat_pos _ _ _ (by simp), if_neg (by simp), if_neg hp]

theorem dirname_concat_slash {p : CString} (hp : p ≠ []) (hl : p.getLast? ≠ some '/') :
    dirname (p ++ ['/']) = dirname p := by
  have hne : p.rdropWhile (· == '/') ≠ [] := by
    obtain ⟨q, c, rfl⟩ := (List.eq_nil_or_concat' p).resolve_left hp
    have hc : c ≠ '/' := fun e => hl (by simp [e])
    rw [List.rdropWhile_concat_neg _ _ _ (by simpa using hc)]
    simp
  unfold dirname
  rw [List.rdropWhile_concat_pos _ _ _ (by simp), if_neg hne, if_neg hne]

/-- An absolute path other than `/`, without trailing or repeated slashes. -/
structure AbsPath (p : CString) : Prop where
  head : p.head? = some '/'
  noTrailing : p.getLast? ≠ some '/'
  noRepeat : ¬ ['/', '/'] <:+: p

/-- The last component of an absolute path, and the directory before it (empty for the root). -/
theorem AbsPath.split {p : CString} (h : AbsPath p) :
    ∃ d b : CString, p = d ++ '/' :: b ∧ b ≠ [] ∧ '/' ∉ b ∧ (d = [] ∨ AbsPath d) := by
  have hm : '/' ∈ p.reverse := List.mem_reverse.2 (List.mem_of_head? h.head)
  obtain ⟨as, bs, he, hn⟩ := List.eq_append_cons_of_mem hm
  have hp : p = bs.reverse ++ '/' :: as.reverse := by
    rw [← List.reverse_reverse p, he]; simp
  refine ⟨bs.reverse, as.reverse, hp, ?_, by simpa using hn, ?_⟩
  · intro ha
    exact h.noTrailing (by rw [hp, ha]; simp)
  · rcases hd : bs.reverse with _ | ⟨c, d⟩
    · exact Or.inl rfl
    rw [hd] at hp
    refine Or.inr ⟨by simpa [hp] using h.head, fun hl => h.noRepeat ?_, fun hr => h.noRepeat ?_⟩
    · obtain ⟨d', hd'⟩ := List.getLast?_eq_some_iff.1 hl
      exact ⟨d', as.reverse, by rw [hp, hd']; simp⟩
    · exact hr.trans ⟨[], '/' :: as.reverse, by rw [hp]; simp⟩

section
variable {d b : CString} (hb : b ≠ []) (hs : '/' ∉ b)
include hb hs

theorem rdropWhile_slash : (d ++ '/' :: b).rdropWhile (· == '/') = d ++ '/' :: b := by
  obtain ⟨b', x, rfl⟩ := (List.eq_nil_or_concat' b).resolve_left hb
  have hx : x ≠ '/' := fun e => hs (by simp [e])
  rw [show d ++ '/' :: (b' ++ [x]) = (d ++ '/' :: b') ++ [x] by simp]
  exact List.rdropWhile_concat_neg _ _ _ (by simpa using hx)

theorem basename_split : basename (d ++ '/' :: b) = b := by
  have ht : ∀ a ∈ b.reverse, (a != '/') = true := ne_of_notMem (by simpa using hs)
  simp only [basename, rdropWhile_slash hb hs]
  simp [List.rtakeWhile, List.takeWhile_append_of_pos ht]

theorem dirname_split : dirname (d ++ '/' :: b) = stripSlashes (d ++ ['/']) := by
  have ht : ∀ a ∈ b.reverse, (a != '/') = true := ne_of_notMem (by simpa using hs)
  simp only [dirname, rdropWhile_slash hb hs]
  simp [List.rdropWhile, List.dropWhile_append_of_pos ht]

end

/-- The directory of a file in the root. -/
theorem dirname_root {b : CString} (hb : b ≠ []) (hs : '/' ∉ b) : dirname ('/' :: b) = ['/'] := by
  rw [← List.nil_append ('/' :: b), dirname_split hb hs]
  decide

/-- The directory of a file elsewhere. -/
theorem dirname_dir {d b : CString} (hne : d ≠ []) (hl : d.getLast? ≠ some '/') (hb : b ≠ [])
    (hs : '/' ∉ b) : dirname (d ++ '/' :: b) = d := by
  have hr : (d ++ ['/']).rdropWhile (· == '/') = d := by
    obtain ⟨d', x, rfl⟩ := (List.eq_nil_or_concat' d).resolve_left hne
    have hx : x ≠ '/' := fun e => hl (by simp [e])
    rw [List.rdropWhile_concat_pos _ _ _ (by simp),
      List.rdropWhile_concat_neg _ _ _ (by simpa using hx)]
  rw [dirname_split hb hs, stripSlashes, hr, if_pos hne]

theorem dirname_abs {d b : CString} (hd : AbsPath d) (hb : b ≠ []) (hs : '/' ∉ b) :
    dirname (d ++ '/' :: b) = d := by
  have hne : d ≠ [] := by
    rintro rfl
    simpa using hd.head
  exact dirname_dir hne hd.noTrailing hb hs

/-! ## IPv4 addresses -/

/-- An IPv4 address, most significant octet first. -/
structure InAddr where
  a : UInt8
  b : UInt8
  c : UInt8
  d : UInt8
deriving DecidableEq, Repr

/-- `INADDR_ANY`, 0.0.0.0. -/
def InAddr.any : InAddr := ⟨0, 0, 0, 0⟩

/-- The loop of `inet_pton(AF_INET, ..)` over the characters: `octs` are the octets before the
    current one (`cur`), which has a digit iff `digit`. -/
def inetPtonLoop (octs : List ℕ) (cur : ℕ) (digit : Bool) : CString → Option (List ℕ)
  | [] => if digit then some (octs ++ [cur]) else none
  | ch :: cs =>
    if ch.isDigit then
      let new := cur * 10 + (ch.toNat - '0'.toNat)
      if digit && cur == 0 then none
      else if new > 255 then none
      else inetPtonLoop octs new true cs
    else if ch = '.' ∧ digit then
      if octs.length = 3 then none else inetPtonLoop (octs ++ [cur]) 0 false cs
    else none

/-- `inet_pton(AF_INET, s, &addr)`: the address, if the return value is 1. -/
def inetPton (s : CString) : Option InAddr :=
  match inetPtonLoop [] 0 false s with
  | some [a, b, c, d] => some ⟨.ofNat a, .ofNat b, .ofNat c, .ofNat d⟩
  | _ => none

/-- `inet_ntop(AF_INET, ..)`. -/
def inetNtop (i : InAddr) : CString :=
  let dec (o : UInt8) : CString := Nat.toDigits 10 o.toNat
  dec i.a ++ '.' :: dec i.b ++ '.' :: dec i.c ++ '.' :: dec i.d

example : inetPton "10.0.0.255".toList = some ⟨10, 0, 0, 255⟩ ∧ inetPton "10.0.0.256".toList = none ∧
    inetPton "10.0.01.2".toList = none ∧ inetNtop ⟨10, 0, 0, 255⟩ = "10.0.0.255".toList := by decide

/-- A digit of an octet, as `inetPtonLoop` reads it. -/
def octetStep (p : ℕ × Bool) (ch : Char) : Option (ℕ × Bool) :=
  let new := p.1 * 10 + (ch.toNat - '0'.toNat)
  if ch.isDigit = false ∨ (p.2 && p.1 == 0) ∨ new > 255 then none else some (new, true)

/-- The digits of an octet are read one by one. -/
theorem inetPtonLoop_digits (octs : List ℕ) {ds : CString} {p q : ℕ × Bool}
    (h : ds.foldlM octetStep p = some q) (cs : CString) :
    inetPtonLoop octs p.1 p.2 (ds ++ cs) = inetPtonLoop octs q.1 q.2 cs := by
  induction ds generalizing p with
  | nil =>
    obtain rfl := Option.some.inj h
    rfl
  | cons d ds ih =>
    rw [List.foldlM_cons] at h
    obtain ⟨r, hr, hq⟩ := Option.bind_eq_some_iff.1 h
    simp only [octetStep] at hr
    split_ifs at hr with hc
    simp only [not_or, Bool.not_eq_false, Bool.not_eq_true] at hc
    obtain ⟨hd, hz, hle⟩ := hc
    obtain rfl := Option.some.inj hr
    rw [List.cons_append, inetPtonLoop, if_pos hd]
    simp only [hz, hle, if_false]
    exact ih hq

theorem toDigits_octet : ∀ n < 256, (Nat.toDigits 10 n).foldlM octetStep (0, false) = some (n, true) := by
  decide +kernel

/-- An address that is printed is read back. -/
theorem inetPton_inetNtop (i : InAddr) : inetPton (inetNtop i) = some i := by
  have hoct (octs : List ℕ) (o : UInt8) (cs : CString) :
      inetPtonLoop octs 0 false (Nat.toDigits 10 o.toNat ++ cs) = inetPtonLoop octs o.toNat true cs :=
    inetPtonLoop_digits octs (toDigits_octet o.toNat o.toNat_lt) cs
  have hdot (octs : List ℕ) (n : ℕ) (hlt : octs.length < 3) (cs : CString) :
      inetPtonLoop octs n true ('.' :: cs) = inetPtonLoop (octs ++ [n]) 0 false cs := by
    rw [inetPtonLoop, if_neg (by decide), if_pos ⟨rfl, rfl⟩, if_neg hlt.ne]
  have hend := hoct [i.a.toNat, i.b.toNat, i.c.toNat] i.d []
  rw [List.append_nil] at hend
  have hall : inetPtonLoop [] 0 false (inetNtop i) =
      some [i.a.toNat, i.b.toNat, i.c.toNat, i.d.toNat] := by
    simp only [inetNtop, List.append_assoc, List.cons_append]
    rw [hoct, hdot _ _ (by decide), hoct, hdot _ _ (by simp), hoct, hdot _ _ (by simp)]
    exact hend
  simp [inetPton, hall]

/-- The digits that may still come in an octet. -/
def octetRoom (cur : ℕ) (digit : Bool) : ℕ :=
  if digit then if cur = 0 then 0 else if cur < 10 then 2 else if cur < 100 then 1 else 0 else 3

theorem digit_le {ch : Char} (h : ch.isDigit = true) : ch.toNat - '0'.toNat ≤ 9 := by
  simp only [Char.isDigit, Bool.and_eq_true, decide_eq_true_eq] at h
  have hle : ch.val.toNat ≤ 57 := UInt32.le_iff_toNat_le.1 h.2
  show ch.val.toNat - 48 ≤ 9
  omega

/-- What is left of an address is bounded by the octets that are left. -/
theorem inetPtonLoop_length {octs res : List ℕ} {cur : ℕ} {digit : Bool} {s : CString}
    (hcur : digit = false → cur = 0) (hocts : octs.length ≤ 3)
    (h : inetPtonLoop octs cur digit s = some res) :
    s.length ≤ 4 * (3 - octs.length) + octetRoom cur digit := by
  induction s generalizing octs cur digit with
  | nil => exact Nat.zero_le _
  | cons ch s ih =>
    simp only [inetPtonLoop] at h
    split_ifs at h with hd hz hlt hdot
    · -- a digit takes one place in the octet
      have hle := digit_le hd
      have hs := ih (by simp) hocts h
      have hroom : octetRoom (cur * 10 + (ch.toNat - '0'.toNat)) true + 1 ≤ octetRoom cur digit := by
        cases digit with
        | false =>
          obtain rfl : cur = 0 := hcur rfl
          simp only [octetRoom, if_true, Bool.false_eq_true, if_false]
          split_ifs <;> omega
        | true =>
          have hne : cur ≠ 0 := by simpa using hz
          simp only [octetRoom, if_true]
          split_ifs <;> omega
      rw [List.length_cons]
      omega
    · -- a dot begins the next octet
      have hs := ih (fun _ => rfl) (by rw [List.length_append, List.length_singleton]; omega) h
      simp only [octetRoom, List.length_append, List.length_singleton, Bool.false_eq_true,
        if_false] at hs
      rw [List.length_cons]
      omega

/-- An address has at most 15 characters. -/
theorem inetPton_length {s : CString} (h : (inetPton s).isSome) : s.length ≤ 15 := by
  unfold inetPton at h
  cases hl : inetPtonLoop [] 0 false s with
  | none => simp [hl] at h
  | some octs => simpa [octetRoom] using inetPtonLoop_length (fun _ => rfl) (by simp) hl

end CLib
