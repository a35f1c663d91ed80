/-
  Reading the options of a command.

  `getopt` gives the options in order, with their arguments; each of them changes the settings of the
  command, or stops it with a message and the usage (`readOptions`).  `readOptions_inv` is the
  rule for what holds of the settings in terms of the options that have been read.
-/
import NFStash.Lib.Loops
import NFStash.Util
import Mathlib.Data.List.Induction

namespace NFStash

open CLib Loops

/-! ## `strtoul` -/

/-- The number the digits at the start of a string make. -/
def decimal (s : CString) : ℕ :=
  (s.takeWhile Char.isDigit).foldl (fun n c => 10 * n + (c.toNat - '0'.toNat)) 0

/-- `strtoul(s, NULL, 10)`: a number with a minus sign is negated as an unsigned one. -/
def strtoul (s : CString) : ℕ :=
  match s.dropWhile isSpace with
  | '-' :: s => if decimal s > ULONG_MAX then ULONG_MAX else wrap64 (2 ^ 64 - decimal s)
  | '+' :: s => min (decimal s) ULONG_MAX
  | s => min (decimal s) ULONG_MAX

theorem strtoul_le (s : CString) : strtoul s ≤ ULONG_MAX := by
  unfold strtoul
  split
  · split_ifs
    · exact le_refl _
    · simp only [wrap64, ULONG_MAX]
      omega
  · exact min_le_right _ _
  · exact min_le_right _ _

/-! ## `getopt` -/

/-- What stops a command while it reads its options. -/
inductive OptionError where
  | usage
  /-- a message, and the usage after it -/
  | fatal (message : String)
deriving DecidableEq

/-- Two options that exclude each other. -/
def bothOptions (first second : String) : OptionError :=
  .fatal ("Can't specify both -" ++ first ++ " and -" ++ second ++ "!\n")

/-- The argument of `-c` and `-C`. -/
def countArg (optarg : CString) : Except OptionError ℕ :=
  let count := strtoul optarg
  if count = 0 ∨ count = ULONG_MAX then .error (.fatal "Zero count, nothing to do!\n") else .ok count

theorem countArg_ok {optarg : CString} {count : ℕ} (h : countArg optarg = .ok count) :
    count ≠ 0 ∧ count < ULONG_MAX := by
  simp only [countArg] at h
  split_ifs at h with hcount
  obtain rfl := Except.ok.inj h
  push Not at hcount
  exact ⟨hcount.1, lt_of_le_of_ne (strtoul_le optarg) hcount.2⟩

section
variable {α σ : Type} {option : α → σ → Except OptionError σ} {opts : List α} {s s' : σ}

/-- The loop over the options. -/
def readOptions (option : α → σ → Except OptionError σ) : List α → σ → Except OptionError σ
  | [], s => .ok s
  | o :: opts, s => option o s >>= readOptions option opts

/-- The last option is another one. -/
theorem mem_concat_of_ne {o o' : α} (h : o ≠ o') : o' ∈ opts ++ [o] ↔ o' ∈ opts := by
  rw [List.mem_append, List.mem_singleton, or_iff_left (Ne.symm h)]

/-- **What holds of the settings** once the options have been read. -/
theorem readOptions_inv {P : List α → σ → Prop}
    (hstep : ∀ done o s s', P done s → option o s = .ok s' → P (done ++ [o]) s') (h₀ : P [] s)
    (h : readOptions option opts s = .ok s') : P opts s' := by
  suffices hfrom : ∀ done, P done s → P (done ++ opts) s' from hfrom [] h₀
  clear h₀
  induction opts generalizing s with
  | nil =>
    intro done hd
    obtain rfl := Except.ok.inj h
    rwa [List.append_nil]
  | cons o opts ih =>
    intro done hd
    obtain ⟨t, ht, h⟩ := bind_eq_ok.1 h
    rw [← List.concat_append, List.concat_eq_append]
    exact ih h _ (hstep done o s t hd ht)

end

end NFStash
