/-
  Character buffers that are filled piece by piece.

  A place that has not been written holds no character.  A write that leaves the buffer fails
  (`none`).  `store_next` is the rule for a program that writes one piece after the other.
-/
import NFStash.Lib.CString

namespace Buffers

open CLib

abbrev Buffer := List (Option Char)

/-- What `malloc(n)` returns, or the array of a function that has just been called. -/
def fresh (n : ℕ) : Buffer := List.replicate n none

/-- `memcpy(&buf[i], cs, strlen(cs))`. -/
def store (buf : Buffer) (i : ℕ) (cs : CString) : Option Buffer :=
  if i + cs.length ≤ buf.length then some (buf.take i ++ cs.map some ++ buf.drop (i + cs.length))
  else none

/-- The terminating NUL. -/
def NUL : Char := '\x00'

/-- `strcpy(&buf[i], cs)`. -/
def strcpy (buf : Buffer) (i : ℕ) (cs : CString) : Option Buffer := store buf i (cs ++ [NUL])

/-- `snprintf(&buf[i], width, ..)` of a text: its length, and the buffer with as much of it as there
    is room for, and a NUL. -/
def snprintf (buf : Buffer) (i width : ℕ) (text : CString) : Option (ℕ × Buffer) :=
  (if width = 0 then some buf else strcpy buf i (text.take (width - 1))).map (text.length, ·)

/-- `strncpy(buf, src, n)`: what is left of `n` characters is filled with NULs. -/
def strncpyInto (buf : Buffer) (n : ℕ) (src : CString) : Option Buffer :=
  store buf 0 (src.take n ++ List.replicate (n - src.length) NUL)

/-- The string in a buffer, up to its first NUL. -/
def string : Buffer → Option CString
  | [] => none
  | none :: _ => none
  | some c :: buf => if c = NUL then some [] else (string buf).map (c :: ·)

section
variable {buf buf' rest : Buffer} {cs ds : CString} {i width : ℕ}

@[simp]
theorem fresh_length (n : ℕ) : (fresh n).length = n := List.length_replicate

theorem store_length (h : store buf i cs = some buf') : buf'.length = buf.length := by
  unfold store at h
  split_ifs at h with hle
  obtain rfl := Option.some.inj h
  simp only [List.length_append, List.length_take, List.length_map, List.length_drop]
  omega

variable (cs ds) in
/-- **The next piece** goes behind what has been written. -/
theorem store_next (h : ds.length ≤ rest.length) :
    store (cs.map some ++ rest) cs.length ds = some ((cs ++ ds).map some ++ rest.drop ds.length) := by
  have htake : (cs.map some ++ rest).take cs.length = cs.map some := List.take_left' (List.length_map _)
  have hdrop : (cs.map some ++ rest).drop (cs.length + ds.length) = rest.drop ds.length := by
    rw [← List.drop_drop, List.drop_left' (List.length_map _)]
  rw [store, if_pos (by simpa using h), htake, hdrop, List.map_append]

variable (cs) in
/-- A text that is shorter than `width` is printed in full. -/
theorem snprintf_next (hw : ds.length < width) (h : ds.length < rest.length) :
    snprintf (cs.map some ++ rest) cs.length width ds =
      some (ds.length, (cs ++ ds ++ [NUL]).map some ++ rest.drop (ds.length + 1)) := by
  have hlen : (ds ++ [NUL]).length = ds.length + 1 := List.length_append
  rw [snprintf, if_neg (by omega), List.take_of_length_le (by omega), strcpy, store_next _ _ (by omega),
    hlen, List.append_assoc]
  rfl

/-- A character in place of the terminator. -/
theorem store_over (h : ds.length = 1) : store ((cs ++ [NUL]).map some ++ rest) cs.length ds =
    some ((cs ++ ds).map some ++ rest) := by
  have hsplit : (cs ++ [NUL]).map some ++ rest = cs.map some ++ some NUL :: rest := by simp
  rw [hsplit, store_next _ _ (by simp [h]), h, List.drop_succ_cons, List.drop_zero]

/-- A string that has been written. -/
theorem string_terminated (h : NUL ∉ cs) : string (cs.map some ++ some NUL :: rest) = some cs := by
  induction cs with
  | nil => rfl
  | cons c cs ih =>
    obtain ⟨hc, hcs⟩ := not_or.1 (List.mem_cons.not.1 h)
    rw [List.map_cons, List.cons_append, string, if_neg (Ne.symm hc), ih hcs]
    rfl

/-- Without a NUL there is no string. -/
theorem string_unterminated (h : NUL ∉ cs) : string (cs.map some) = none := by
  induction cs with
  | nil => rfl
  | cons c cs ih =>
    obtain ⟨hc, hcs⟩ := not_or.1 (List.mem_cons.not.1 h)
    rw [List.map_cons, string, if_neg (Ne.symm hc), ih hcs]
    rfl

variable (buf) in
/-- A copy that may fill the whole buffer is a string iff it does not. -/
theorem strncpyInto_eq (h : NUL ∉ cs) : ∃ field, strncpyInto buf buf.length cs = some field ∧
    field.length = buf.length ∧
      string field = if cs.length < buf.length then some cs else none := by
  have hlen : (cs.take buf.length ++ List.replicate (buf.length - cs.length) NUL).length =
      buf.length := by
    rw [List.length_append, List.length_take, List.length_replicate]
    omega
  have hstore : strncpyInto buf buf.length cs =
      some ((cs.take buf.length ++ List.replicate (buf.length - cs.length) NUL).map some) := by
    rw [strncpyInto, store, if_pos (by omega), hlen, Nat.zero_add, List.drop_length, List.take_zero,
      List.nil_append, List.append_nil]
  refine ⟨_, hstore, (List.length_map _).trans hlen, ?_⟩
  split_ifs with hlt
  · obtain ⟨k, hk⟩ := Nat.exists_eq_add_of_lt hlt
    have hpad : buf.length - cs.length = k + 1 := by omega
    rw [List.take_of_length_le hlt.le, hpad, List.map_append, List.replicate_succ, List.map_cons,
      string_terminated h]
  · rw [Nat.sub_eq_zero_of_le (not_lt.1 hlt), List.replicate_zero, List.append_nil]
    exact string_unterminated fun hmem => h (List.mem_of_mem_take hmem)

end

end Buffers
