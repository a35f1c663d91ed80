/-
  The polling period of the commands.

  Each command computes `sleep_time` from the frequency that `-H` sets, in one of two ways.  Only `nfsping`
  refuses a frequency of 0, which three of the others divide by (`samePeriod_iff`).
-/
import NFStash.Lock
import NFStash.LsOptions
import NFStash.MountOptions
import NFStash.PingOptions
import NFStash.Timespec

namespace NFStash

open CLib Loops

/-! ## `-H` -/

/-- `-H` in `df.c`. -/
def dfHertz (optarg : CString) : Except OptionError ℕ := .ok (strtoul optarg)

/-- `-H` in `cat.c`. -/
def catHertz (optarg : CString) : Except OptionError ℕ := .ok (strtoul optarg)

/-- `-H` in `lock.c`. -/
def lockHertz (optarg : CString) : Except OptionError ℕ := .ok (strtoul optarg)

/-! ## `sleep_time` -/

/-- `sleep_time` where it is a second to start with. -/
def sleepTimeFromOne (hertz : ℕ) : Except Fault Timespec :=
  if hertz > 1 then nsecPerRound hertz else .ok ⟨1, 0⟩

/-- The commands that take `-H`. -/
inductive Command where
  | nfsping
  | nfsmount
  | nfsdf
  | nfsls
  | nfscat
  | nfslock
deriving DecidableEq

/-- The frequency that `-H` sets. -/
def Command.hertz (optarg : CString) : Command → Except OptionError ℕ
  | .nfsping => do
    let s ← pingOption (.H optarg) {}
    .ok s.hertz
  | .nfsmount => do
    let s ← mountOption (.H optarg) {}
    .ok s.hertz
  | .nfsdf => dfHertz optarg
  | .nfsls => do
    let s ← lsOption (.H optarg) {}
    .ok s.hertz
  | .nfscat => catHertz optarg
  | .nfslock => lockHertz optarg

/-- `sleep_time`, from the frequency. -/
def Command.sleepTime (hertz : ℕ) : Command → Except Fault Timespec
  | .nfsping => sleepTimeOrOne hertz
  | .nfsmount => sleepTimeOrOne hertz
  | .nfsdf => sleepTimeFromOne hertz
  | .nfsls => sleepTimeFromOne hertz
  | .nfscat => sleepTimeOrOne hertz
  | .nfslock => sleepTimeOrOne hertz

/-- All commands that accept the argument compute the same period: a second for one Hertz, and
    `10 ^ 9 / hertz` nanoseconds, rounded down, for more. -/
structure SamePeriod (optarg : CString) (t : Timespec) : Prop where
  normalised : t.Normalised
  one : strtoul optarg = 1 → t = ⟨1, 0⟩
  more : 1 < strtoul optarg → t = ⟨0, (1000000000 / strtoul optarg : ℕ)⟩
  same : ∀ command : Command, ∀ hertz, command.hertz optarg = .ok hertz → command.sleepTime hertz = .ok t

section
variable {optarg : CString} {hertz : ℕ} {command : Command}

/-- What is accepted is the number. -/
theorem Command.hertz_ok (h : command.hertz optarg = .ok hertz) : hertz = strtoul optarg := by
  cases command with
  | nfsping =>
    obtain ⟨s, hs, hhertz⟩ := bind_eq_ok.1 h
    obtain rfl := Except.ok.inj hhertz
    rw [pingOption] at hs
    split_ifs at hs
    obtain rfl := Except.ok.inj hs
    rfl
  | nfsmount | nfsdf | nfsls | nfscat | nfslock => exact (Except.ok.inj h).symm

/-- **The period** is the same for both ways to compute it. -/
theorem Command.sleepTime_eq (hpos : hertz ≠ 0) : command.sleepTime hertz = .ok (period hertz) := by
  have horone : sleepTimeOrOne hertz = .ok (period hertz) := sleepTimeOrOne_eq hpos
  have hfromone : sleepTimeFromOne hertz = .ok (period hertz) := by
    unfold sleepTimeFromOne nsecPerRound period
    by_cases h1 : hertz = 1
    · rw [if_neg (by omega), if_pos h1]
    · rw [if_pos (by omega), if_neg hpos, if_neg h1]
  cases command with
  | nfsping | nfsmount | nfscat | nfslock => exact horone
  | nfsdf | nfsls => exact hfromone

/-- A period that has been computed is normalised, and at most a second. -/
theorem Command.sleepTime_ok {t : Timespec} (h : command.sleepTime hertz = .ok t) :
    t.Normalised ∧ 0 ≤ t.nanos ∧ t.nanos ≤ 1000000000 := by
  by_cases hpos : hertz = 0
  · subst hpos
    cases command with
    | nfsping | nfsmount | nfscat | nfslock => cases h
    | nfsdf | nfsls =>
      obtain rfl := Except.ok.inj h
      decide
  · rw [Command.sleepTime_eq hpos] at h
    obtain rfl := Except.ok.inj h
    have hle : 1000000000 / hertz ≤ 1000000000 := Nat.div_le_self _ _
    rw [period_nanos]
    exact ⟨period_normalised hpos, Int.natCast_nonneg _, Int.ofNat_le.2 hle⟩

/-- The period of `nfslock`, as it is kept there. -/
theorem lockSleepTime_eq (hertz : ℕ) : lockSleepTime hertz =
    (sleepTimeOrOne hertz).map fun t => (t.tvSec.toNat, t.tvNsec.toNat) := by
  unfold lockSleepTime sleepTimeOrOne nsecPerRound
  split_ifs <;> rfl

end

/-- **The polling period** is the same for all commands iff the frequency is not 0. -/
theorem samePeriod_iff (optarg : CString) : (∃ t, SamePeriod optarg t) ↔ strtoul optarg ≠ 0 := by
  constructor
  · rintro ⟨t, h⟩ hzero
    have hmount := h.same .nfsmount 0 (congrArg Except.ok hzero)
    cases hmount
  · intro hpos
    refine ⟨period (strtoul optarg), period_normalised hpos, ?_, ?_, ?_⟩
    · intro h1
      rw [period, if_pos h1]
    · intro h1
      rw [period, if_neg (Nat.ne_of_gt h1)]
    · intro command hertz h
      rw [Command.hertz_ok h]
      exact Command.sleepTime_eq hpos

/-- With `-H 0`, `nfsmount`, `nfscat` and `nfslock` divide by zero, while `nfsping` refuses it and `nfsdf` and
    `nfsls` poll once in a second. -/
theorem samePeriod_zero :
    (∃ e, Command.hertz "0".toList .nfsping = .error e) ∧
      (∀ command ∈ [Command.nfsmount, .nfscat, .nfslock],
        command.hertz "0".toList = .ok 0 ∧ command.sleepTime 0 = .error .divisionByZero) ∧
      (∀ command ∈ [Command.nfsdf, .nfsls],
        command.hertz "0".toList = .ok 0 ∧ command.sleepTime 0 = .ok ⟨1, 0⟩) ∧
      ¬ ∃ t, SamePeriod "0".toList t := by
  have hzero : strtoul "0".toList = 0 := rfl
  refine ⟨⟨_, rfl⟩, ?_, ?_, ?_⟩
  · simp only [List.forall_mem_cons, List.not_mem_nil, IsEmpty.forall_iff, implies_true, and_true]
    exact ⟨⟨rfl, rfl⟩, ⟨rfl, rfl⟩, rfl, rfl⟩
  · simp only [List.forall_mem_cons, List.not_mem_nil, IsEmpty.forall_iff, implies_true, and_true]
    exact ⟨⟨rfl, rfl⟩, rfl, rfl⟩
  · rintro ⟨t, h⟩
    have hmount := h.same .nfsmount 0 (congrArg Except.ok hzero)
    cases hmount

end NFStash
