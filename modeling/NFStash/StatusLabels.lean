/-
  The tables of labels for the status of a reply.

  A status is 32 bits from the server.  `nfs_perror`, `mount_perror` and `do_nlm_test` use it as the place
  of a label in an array, which is as long as its last initializer makes it, and in which a place without
  one is a null pointer (`readLabel`).  `statusLabels_iff` says for which statuses there is a label
  wherever one is read.
-/
import NFStash.Df
import NFStash.Lock
import NFStash.Mount

namespace NFStash

open CLib Loops

/-! ## Tables -/

/-- The label at a place of an array. -/
def readLabel (size : ℕ) (label : ℕ → Option String) (i : ℕ) : Except Fault String :=
  if i < size then
    match label i with
    | none => .error .nullDeref
    | some text => .ok text
  else .error .outOfBounds

/-- `enum nfsstat3`. -/
def nfsstat3 : List Nfsstat3 :=
  [0, 1, 2, 5, 6, 13, 17, 18, 19, 20, 21, 22, 27, 28, 30, 31, 63, 66, 69, 70, 71, 10001, 10002, 10003,
    10004, 10005, 10006, 10007, 10008]

/-- The length of `labels_low`. -/
def labelsLowSize : ℕ := NFS3ERR_REMOTE.toNat + 1

/-- The length of `labels_high`. -/
def labelsHighSize : ℕ := NFS3ERR_JUKEBOX.toNat - 10000 + 1

/-- `nfs_perror`: the text, if there is one, and what is returned.  The enum has no negative value, so a
    status is unsigned, and -1 only once it is returned. -/
def nfsPerrorReturn (status : Nfsstat3) : Except Fault (Option String × ℤ) :=
  if status = NFS3_OK then .ok (none, 0)
  else if status > 10000 then
    if status > NFS3ERR_JUKEBOX then .ok (some "UNKNOWN", -1)
    else do
      let label ← readLabel labelsHighSize labelHigh (status.toNat - 10000)
      .ok (some label, status.toNat)
  else if status > NFS3ERR_REMOTE then .ok (some "UNKNOWN", -1)
  else do
    -- the check for a missing label reads its first character
    let label ← readLabel labelsLowSize labelLow status.toNat
    if label = "" then .ok (some "UNKNOWN", -1) else .ok (some label, status.toNat)

/-- The label that `mount_perror` prints, if it prints one. -/
def mountPerrorLabel (fhsStatus : UInt32) : Except Fault (Option String) :=
  if fhsStatus = MNT3_OK then .ok none
  else do
    match ← mountLabel fhsStatus with
    | none => .error .nullDeref
    | some label => .ok (some label)

/-- The statuses that `mount_perror` has a label for, and `MNT3_OK`. -/
def mountLabelled : List UInt32 := [0, 2, 13, 20, 22, 63, 10004, 10006]

/-- `nfs_perror` returns what it should, and reads no label that is not there. -/
def NfsPerrorRight (status : Nfsstat3) : Prop :=
  ∃ text, nfsPerrorReturn status = .ok (text, if status ∈ nfsstat3 then (status.toNat : ℤ) else -1)

section
variable {size i : ℕ} {label : ℕ → Option String} {text : String}

theorem readLabel_ok : readLabel size label i = .ok text ↔ i < size ∧ label i = some text := by
  unfold readLabel
  split_ifs with hi
  · cases hl : label i with
    | none => simp [hi]
    | some l => simp [hi]
  · simp [hi]

/-! ## `nfs_perror` -/

theorem labelLow_ne_empty (n : ℕ) : labelLow n ≠ some "" := by
  unfold labelLow
  split <;> simp

theorem labelLow_isSome : ∀ n < labelsLowSize, n ≠ 0 → ((labelLow n).isSome ↔ UInt32.ofNat n ∈ nfsstat3) := by
  decide

theorem labelHigh_isSome : ∀ n < labelsHighSize, n ≠ 0 →
    (labelHigh n).isSome ∧ UInt32.ofNat (10000 + n) ∈ nfsstat3 := by
  decide

/-- The statuses are in two ranges. -/
theorem nfsstat3_range : ∀ status ∈ nfsstat3, status.toNat ≤ 71 ∨
    10000 < status.toNat ∧ status.toNat ≤ 10008 := by
  simp [nfsstat3]

variable {status : Nfsstat3}

theorem gt_high : status > 10000 ↔ 10000 < status.toNat := UInt32.lt_iff_toNat_lt
theorem gt_jukebox : status > NFS3ERR_JUKEBOX ↔ 10008 < status.toNat := UInt32.lt_iff_toNat_lt
theorem gt_remote : status > NFS3ERR_REMOTE ↔ 71 < status.toNat := UInt32.lt_iff_toNat_lt

/-- A status in the range of the lower table. -/
theorem nfsPerrorRight_low (hpos : status.toNat ≠ 0) (hle : status.toNat ≤ 71) :
    NfsPerrorRight status ↔ status ∈ nfsstat3 := by
  have hok : status ≠ NFS3_OK := fun h => hpos (by rw [h]; rfl)
  have hhigh : ¬ status > 10000 := gt_high.not.2 (by omega)
  have hremote : ¬ status > NFS3ERR_REMOTE := gt_remote.not.2 (by omega)
  have hlabel := labelLow_isSome status.toNat (Nat.lt_succ_of_le hle) hpos
  rw [UInt32.ofNat_toNat] at hlabel
  unfold NfsPerrorRight nfsPerrorReturn
  rw [if_neg hok, if_neg hhigh, if_neg hremote]
  cases hl : labelLow status.toNat with
  | none =>
    have hnot : status ∉ nfsstat3 := fun h => by simpa [hl] using hlabel.2 h
    refine iff_of_false ?_ hnot
    rintro ⟨text, h⟩
    obtain ⟨label, hread, -⟩ := bind_eq_ok.1 h
    have hsome := (readLabel_ok.1 hread).2
    rw [hl] at hsome
    cases hsome
  | some text =>
    have hmem : status ∈ nfsstat3 := hlabel.1 (by rw [hl]; rfl)
    have hread : readLabel labelsLowSize labelLow status.toNat = .ok text :=
      readLabel_ok.2 ⟨Nat.lt_succ_of_le hle, hl⟩
    have hne : text ≠ "" := fun h => labelLow_ne_empty _ (h ▸ hl)
    refine iff_of_true ⟨some text, ?_⟩ hmem
    rw [if_pos hmem]
    exact bind_eq_ok.2 ⟨text, hread, if_neg hne⟩

/-- No label is missing above it. -/
theorem nfsPerrorRight_high (hgt : 71 < status.toNat) : NfsPerrorRight status := by
  have hok : status ≠ NFS3_OK := fun h => by simp [h, NFS3_OK] at hgt
  have hrange := nfsstat3_range status
  unfold NfsPerrorRight nfsPerrorReturn
  rw [if_neg hok]
  by_cases hhigh : 10000 < status.toNat
  · rw [if_pos (gt_high.2 hhigh)]
    by_cases hjukebox : 10008 < status.toNat
    · have hnot : status ∉ nfsstat3 := fun h => by have := hrange h; omega
      rw [if_pos (gt_jukebox.2 hjukebox), if_neg hnot]
      exact ⟨_, rfl⟩
    · have hlt : status.toNat - 10000 < labelsHighSize := by
        have hsize : labelsHighSize = 9 := rfl
        omega
      obtain ⟨hsome, hmem⟩ := labelHigh_isSome _ hlt (by omega)
      rw [Nat.add_sub_cancel' hhigh.le, UInt32.ofNat_toNat] at hmem
      obtain ⟨text, htext⟩ := Option.isSome_iff_exists.1 hsome
      rw [if_neg (gt_jukebox.not.2 hjukebox), if_pos hmem]
      exact ⟨some text, bind_eq_ok.2 ⟨text, readLabel_ok.2 ⟨hlt, htext⟩, rfl⟩⟩
  · have hnot : status ∉ nfsstat3 := fun h => by have := hrange h; omega
    rw [if_neg (gt_high.not.2 hhigh), if_pos (gt_remote.2 hgt), if_neg hnot]
    exact ⟨_, rfl⟩

/-- **`nfs_perror`** is right iff the status is one of the enum, or above the lower table. -/
theorem nfsPerrorRight_iff : NfsPerrorRight status ↔ status ∈ nfsstat3 ∨ 71 < status.toNat := by
  by_cases hgt : 71 < status.toNat
  · exact iff_of_true (nfsPerrorRight_high hgt) (.inr hgt)
  rw [or_iff_left hgt]
  by_cases hpos : status.toNat = 0
  · obtain rfl : status = 0 := UInt32.toNat_inj.1 hpos
    exact iff_of_true ⟨none, rfl⟩ (by decide)
  · exact nfsPerrorRight_low hpos (not_lt.1 hgt)

/-- The text is that of `nfsPerror`. -/
theorem nfsPerror_eq (status : Nfsstat3) : nfsPerror status = (nfsPerrorReturn status).map Prod.fst := by
  unfold nfsPerror nfsPerrorReturn
  split_ifs with hok hhigh hjukebox hremote
  · rfl
  · rfl
  · have hgt := gt_high.1 hhigh
    have hlt : status.toNat - 10000 < labelsHighSize := by
      have hsize : labelsHighSize = 9 := rfl
      have hle := gt_jukebox.not.1 hjukebox
      omega
    obtain ⟨text, htext⟩ := Option.isSome_iff_exists.1 (labelHigh_isSome _ hlt (by omega)).1
    rw [htext, readLabel_ok.2 ⟨hlt, htext⟩]
    rfl
  · rfl
  · have hlt : status.toNat < labelsLowSize := Nat.lt_succ_of_le (not_lt.1 (gt_remote.not.1 hremote))
    cases hl : labelLow status.toNat with
    | none =>
      rw [readLabel, if_pos hlt, hl]
      rfl
    | some text =>
      have hne : text ≠ "" := fun h => labelLow_ne_empty _ (h ▸ hl)
      rw [readLabel_ok.2 ⟨hlt, hl⟩]
      simp [bind, Except.bind, hne, Except.map]

/-! ## `mount_perror` and `do_nlm_test` -/

theorem mem_mountLabelled {fhsStatus : UInt32} : fhsStatus ∈ mountLabelled ↔
    fhsStatus.toNat ∈ [0, 2, 13, 20, 22, 63, 10004, 10006] := by
  simp [mountLabelled, ← UInt32.toNat_inj]

/-- The labels of the array. -/
theorem mountLabel_some {fhsStatus : UInt32} : (∃ label, mountLabel fhsStatus = .ok (some label)) ↔
    fhsStatus.toNat ∈ [2, 13, 20, 22, 63, 10004, 10006] := by
  unfold mountLabel
  have hgt : fhsStatus > MNT3ERR_SERVERFAULT ↔ 10006 < fhsStatus.toNat := UInt32.lt_iff_toNat_lt
  split_ifs with h
  · have hlt := hgt.1 h
    simp
    omega
  · split
    all_goals simp_all

theorem mountPerrorLabel_iff (fhsStatus : UInt32) :
    (∃ text, mountPerrorLabel fhsStatus = .ok text) ↔ fhsStatus ∈ mountLabelled := by
  have hzero : fhsStatus = MNT3_OK ↔ fhsStatus.toNat = 0 := UInt32.toNat_inj.symm
  rw [mem_mountLabelled, List.mem_cons, ← mountLabel_some, ← hzero]
  unfold mountPerrorLabel
  split_ifs with hok
  · exact iff_of_true ⟨none, rfl⟩ (.inl hok)
  · rw [or_iff_right hok, exists_bind_eq_ok]
    constructor
    · rintro ⟨label, hlabel, text, htext⟩
      cases label with
      | none => cases htext
      | some label => exact ⟨label, hlabel⟩
    · rintro ⟨label, hlabel⟩
      exact ⟨some label, hlabel, some label, rfl⟩

theorem doNlmTest_iff {env : LockEnv} {r j k : ℕ} {stat : Nlm4Stats} (nodename host : CString)
    (fh : NfsFhList) (h : env.test r j k = some stat) :
    (∃ res, doNlmTest env r j k nodename host fh = .ok res) ↔ stat.toNat < nlm4StatsLabels.length := by
  unfold doNlmTest
  rw [h]
  dsimp only
  cases hl : nlm4StatsLabels[stat.toNat]? with
  | none =>
    have hle : nlm4StatsLabels.length ≤ stat.toNat := List.getElem?_eq_none_iff.1 hl
    simpa using hle
  | some text =>
    obtain ⟨hlt, -⟩ := List.getElem?_eq_some_iff.1 hl
    exact iff_of_true ⟨_, rfl⟩ hlt

end

/-- **Which statuses have a label.**  `nfs_perror` is right iff the status is one of the enum, or above
    the lower table; `mount_perror` and `do_nlm_test` read a label that is there iff they have one for
    the status. -/
theorem statusLabels_iff (status : UInt32) (env : LockEnv) (r j k : ℕ) (nodename host : CString)
    (fh : NfsFhList) :
    (NfsPerrorRight status ↔ status ∈ nfsstat3 ∨ 71 < status.toNat) ∧
      ((∃ text, mountPerrorLabel status = .ok text) ↔ status ∈ mountLabelled) ∧
      ((∃ res, doNlmTest { env with test := fun _ _ _ => some status } r j k nodename host fh = .ok res) ↔
        status.toNat < nlm4StatsLabels.length) :=
  ⟨nfsPerrorRight_iff, mountPerrorLabel_iff status, doNlmTest_iff nodename host fh rfl⟩

/-- The status 3 has no label, `MNT3ERR_PERM` (1) and `MNT3ERR_IO` (5) have none in `mount_perror`, and 10007
    and a status of 10 in a TEST reply are outside. -/
theorem statusLabels_missing :
    nfsPerrorReturn 3 = .error .nullDeref ∧ ¬ NfsPerrorRight 3 ∧
      mountPerrorLabel 1 = .error .nullDeref ∧ mountPerrorLabel 5 = .error .nullDeref ∧
      mountPerrorLabel 10007 = .error .outOfBounds ∧
      doNlmTest { test := fun _ _ _ => some 10 } 0 0 0 [] [] {} = .error .outOfBounds := by
  refine ⟨rfl, ?_, rfl, rfl, rfl, rfl⟩
  rintro ⟨text, h⟩
  cases h

end NFStash
