/-
  `copy_mountres3` and `copy_target`: copies with arrays of their own.

  Both copy as many bytes of an array as it has elements.  Handles are arrays of bytes and are
  copied in full; flavors and results only if what is left out is zero (`copies_iff`).
-/
import NFStash.Lib.Words
import NFStash.Mount

namespace NFStash

open CLib Loops

/-- `copy_target`: with a `count`, that many bytes of the results are copied to zeroed memory. -/
def copyTarget (target : Target) (count : ℕ) : Target :=
  if count = 0 then target
  else { target with
    results := Words.load 8 count
      (memcpy (List.replicate (8 * count) 0) (Words.store 8 target.results) count) }

/-- Of an array of words of `w` bytes, all that is not zero is in the first bytes, one for each
    element. -/
def ShortWords (w : ℕ) (xs : List ℕ) : Prop :=
  ∀ i x, xs[i]? = some x → x < 256 ^ (xs.length - w * i)

section
variable {mountres : Mountres3} {target : Target}

/-- The flavors of a copy. -/
theorem copyMountres3_flavors : (copyMountres3 mountres).authFlavors.map UInt32.toNat =
    Words.copied 4 mountres.authFlavors.length (mountres.authFlavors.map UInt32.toNat) := by
  refine List.ext_getElem? ?_
  intro i
  rw [Words.copied_getElem?]
  simp only [copyMountres3, List.getElem?_map, List.getElem?_zipIdx, Nat.zero_add, Option.map_map]
  cases mountres.authFlavors[i]? with
  | none => rfl
  | some flavor =>
    have hpow : 2 ^ (8 * (mountres.authFlavors.length - 4 * i)) =
        256 ^ (mountres.authFlavors.length - 4 * i) := Nat.pow_mul 2 8 _
    simp only [Option.map_some, Function.comp_apply, UInt32.toNat_ofNat', hpow]
    exact congrArg some (Words.mod_pow_mod_pow _ 4)

/-- **`copy_mountres3`** keeps everything iff the flavors are short. -/
theorem copyMountres3_eq_iff :
    copyMountres3 mountres = mountres ↔ ShortWords 4 (mountres.authFlavors.map UInt32.toNat) := by
  have hlt : ∀ x ∈ mountres.authFlavors.map UInt32.toNat, x < 256 ^ 4 := by
    intro x hx
    obtain ⟨flavor, -, rfl⟩ := List.mem_map.1 hx
    exact flavor.toNat_lt
  have heq : copyMountres3 mountres = mountres ↔
      (copyMountres3 mountres).authFlavors = mountres.authFlavors := by
    cases mountres
    simp [copyMountres3]
  have hinj : Function.Injective (List.map UInt32.toNat) :=
    List.map_injective_iff.2 fun _ _ => UInt32.toNat_inj.1
  rw [heq, ← hinj.eq_iff, copyMountres3_flavors, Words.copied_eq_iff hlt, ShortWords, List.length_map]

/-- **`copy_target`** keeps the results iff they are short. -/
theorem copyTarget_results_iff (h : ∀ us ∈ target.results, us < 2 ^ 64) :
    (copyTarget target target.results.length).results = target.results ↔
      ShortWords 8 target.results := by
  have hcopy : (copyTarget target target.results.length).results =
      Words.copied 8 target.results.length target.results := by
    unfold copyTarget
    split_ifs with h0
    · simp [List.length_eq_zero_iff.1 h0, Words.copied]
    · exact Words.load_memcpy
  rw [hcopy, Words.copied_eq_iff h, ShortWords]

end

/-- **When the copies are complete.**  A reply is returned as it came, and a target is copied with its
    results, iff all that is not zero in the flavors and the results is in the first bytes. -/
theorem copies_iff (cfg : MountConfig) (env : MountEnv) (r j k : ℕ) (mountres : Mountres3)
    (target : Target) (hv : cfg.version = .v3) (hmnt : env.mountres3 r j k = some mountres)
    (hus : ∀ us ∈ target.results, us < 2 ^ 64) :
    (copyMountres3 mountres = mountres ↔ ShortWords 4 (mountres.authFlavors.map UInt32.toNat)) ∧
      ((copyTarget target target.results.length).results = target.results ↔
        ShortWords 8 target.results) ∧
      (mountprocMntX cfg env r j k = .ok (some mountres) ↔
        ShortWords 4 (mountres.authFlavors.map UInt32.toNat)) := by
  refine ⟨copyMountres3_eq_iff, copyTarget_results_iff hus, ?_⟩
  have hret : mountprocMntX cfg env r j k = .ok (some (copyMountres3 mountres)) := by
    unfold mountprocMntX
    rw [hv]
    simp only [hmnt]
  rw [hret, Except.ok.injEq, Option.some.injEq, copyMountres3_eq_iff]

/-- One flavor of one byte, and one result of one byte. -/
theorem copies_iff_short : (copyMountres3 { authFlavors := [AUTH_SYS] } = { authFlavors := [AUTH_SYS] } ↔
      ShortWords 4 [1]) ∧
    ((copyTarget { results := [200] } 1).results = [200] ↔ ShortWords 8 [200]) ∧
    (mountprocMntX {} { connect := fun _ _ => true
                        mountres3 := fun _ _ _ => some { authFlavors := [AUTH_SYS] } } 0 0 0 =
        .ok (some { authFlavors := [AUTH_SYS] }) ↔ ShortWords 4 [1]) :=
  copies_iff {} { connect := fun _ _ => true
                  mountres3 := fun _ _ _ => some { authFlavors := [AUTH_SYS] } } 0 0 0
    { authFlavors := [AUTH_SYS] } { results := [200] } rfl rfl (by decide)

/-- The flavor 390003 of Kerberos becomes 115, the second of two flavors 0, and a result of 300
    microseconds 44. -/
theorem copies_lost : (copyMountres3 { authFlavors := [390003] }).authFlavors = [115] ∧
    (copyMountres3 { authFlavors := [AUTH_SYS, 390003] }).authFlavors = [AUTH_SYS, 0] ∧
    (copyTarget { results := [300] } 1).results = [44] ∧
    mountprocMntX {} { connect := fun _ _ => true
                       mountres3 := fun _ _ _ => some { authFlavors := [390003] } } 0 0 0 ≠
      .ok (some { authFlavors := [390003] }) := by
  refine ⟨by decide, by decide, by decide, ?_⟩
  decide

end NFStash
