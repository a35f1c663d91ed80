/-
  `xdr_copy.c`: a deep copy through a buffer that persists between the calls.

  The value is encoded into a static buffer and decoded from it; while it does not fit, the buffer
  grows by 10 KiB.  Its size is kept apart from the pointer, in 32 bits.  After earlier calls the
  pointer and the size agree (`Usable`), unless the size has wrapped to 0: `xdrCopy_right` and
  `xdrCopy_wrapped`.

  The memory comes from outside: for each call of `realloc`, the bytes of a new block, or nothing.
-/
import NFStash.Lib.Codecs
import NFStash.Types
import Mathlib.Data.Nat.GCD.Basic

namespace NFStash

open Codecs

/-! ## Model -/

def XDR_BUFFER_SIZE : ℕ := 100 * 1024
def XDR_BUFFER_DELTA : ℕ := 10 * 1024

/-- The static variables; `freed` tells whether the block that `xdr_buffer` points to has been. -/
structure XdrState where
  xdrBuffer : Option (List UInt8) := none
  xdrBufferSize : ℕ := 0
  freed : Bool := false

/-- What each call of `realloc` gets. -/
abbrev Grants := ℕ → Option (ℕ → UInt8)

/-- `realloc(p, n)`, for an `n` that is not 0. -/
def realloc (p : Option (List UInt8)) (n : ℕ) (grant : Option (ℕ → UInt8)) : Option (List UInt8) :=
  grant.map fun junk => (List.range n).map fun i => ((p.getD [])[i]?).getD (junk i)

/-- `xdr_buffer_realloc`: whether it returns a buffer.  A block of size 0 is freed. -/
def xdrBufferRealloc (delta : ℕ) (grant : Option (ℕ → UInt8)) (s : XdrState) : Bool × XdrState :=
  let n := wrap32 (s.xdrBufferSize + delta)
  if n = 0 ∧ s.xdrBuffer.isSome then (false, { s with freed := true })
  else match realloc s.xdrBuffer n grant with
    | none => (false, s)
    | some rv => (true, { s with xdrBuffer := some rv, xdrBufferSize := n })

/-- `get_xdr_buffer`, with the calls of `realloc` that are left. -/
def getXdrBuffer (grants : Grants) (s : XdrState) : XdrState × Grants :=
  match s.xdrBuffer with
  | none => ((xdrBufferRealloc XDR_BUFFER_SIZE (grants 0) s).2, fun k => grants (k + 1))
  | some _ => (s, grants)

/-- The destination: whether it has been cleared, and the value that has been decoded into it. -/
structure Dest (α : Type) where
  zeroed : Bool := false
  copy : Option α := none

/-- What a call returns, what it leaves, and how often the buffer has grown. -/
structure XdrResult (α : Type) where
  ret : Bool
  d : Dest α
  steps : ℕ
  state : XdrState

section
variable {α : Type} (codec : Codec α) (s : α) (d : Dest α) (grants : Grants)

/-- The loop of `xdr_copy`, after `k` steps. -/
def xdrLoop : ℕ → ℕ → XdrState → Except Fault (XdrResult α)
  | 0, _, _ => .error .fuel
  | fuel + 1, k, state =>
    if state.freed then .error .useAfterFree
    else match state.xdrBuffer with
    | none => .ok { ret := false, d, steps := k, state }
    | some buffer =>
      if buffer.length < state.xdrBufferSize then .error .outOfBounds
      else
        let x := codec.encode s (buffer.take state.xdrBufferSize)
        let state := { state with xdrBuffer := some (x.2 ++ buffer.drop state.xdrBufferSize) }
        if x.1 then
          .ok { ret := true, d := { d with copy := codec.decode x.2 }, steps := k, state }
        else
          let rv := xdrBufferRealloc XDR_BUFFER_DELTA (grants k) state
          if rv.1 then xdrLoop fuel (k + 1) rv.2
          else .ok { ret := false, d, steps := k, state := rv.2 }

/-- `xdr_copy`. -/
def xdrCopy (fuel : ℕ) (state : XdrState) : Except Fault (XdrResult α) :=
  let (state, grants) := getXdrBuffer grants state
  xdrLoop codec s d grants fuel 0 state

/-- `xdr_copy_`, which `XDR_COPY` stands for. -/
def xdrCopy_ (fuel : ℕ) (state : XdrState) : Except Fault (XdrResult α) :=
  xdrCopy codec s { d with zeroed := true } grants fuel state

end

/-! ## Histories -/

/-- A call of `xdr_copy`, for a value of any type. -/
structure XdrCall where
  {type : Type}
  codec : Codec type
  s : type
  d : Dest type
  grants : Grants

/-- The length of the encoding. -/
def XdrCall.size (c : XdrCall) : ℕ := c.codec.size c.s

/-- The static variables after these calls, which have all returned. -/
inductive Reached : List XdrCall → XdrState → Prop where
  | nil : Reached [] {}
  | call {cs c state fuel r} (h : Reached cs state)
      (hc : xdrCopy c.codec c.s c.d c.grants fuel state = .ok r) : Reached (cs ++ [c]) r.state

/-- A buffer of the size that is kept for it. -/
def XdrState.live (buffer : List UInt8) : XdrState where
  xdrBuffer := some buffer
  xdrBufferSize := buffer.length

/-- There is no buffer yet, or one of the size that is kept for it. -/
def XdrState.Usable (state : XdrState) : Prop := state = {} ∨ ∃ buffer, state = .live buffer

/-- The size of the buffer a call starts with, if it gets one. -/
def XdrState.firstSize (state : XdrState) : ℕ :=
  if state.xdrBuffer.isSome then state.xdrBufferSize else XDR_BUFFER_SIZE

/-- How often the buffer has to grow. -/
def XdrState.needed (state : XdrState) (size : ℕ) : ℕ := growth XDR_BUFFER_DELTA state.firstSize size

/-- How often memory is asked for, if it is always there. -/
def XdrState.asked (state : XdrState) (size : ℕ) : ℕ :=
  (if state.xdrBuffer.isSome then 0 else 1) + state.needed size

/-- The result `r` of a copy. -/
structure XdrCopyRight {α : Type} (codec : Codec α) (s : α) (d : Dest α) (grants : Grants)
    (state : XdrState) (r : XdrResult α) : Prop where
  /-- it has not failed iff no memory it has asked for was refused -/
  returns : r.ret = true ↔ ∀ k < state.asked (codec.size s), (grants k).isSome
  /-- the least number of steps that makes the value fit -/
  least : r.ret = true →
    IsLeast {k | codec.size s ≤ state.firstSize + XDR_BUFFER_DELTA * k} r.steps
  copied : r.ret = true ↔ r.d.copy = some s
  failed : r.ret = false → r.d = d
  grown : state.xdrBufferSize ≤ r.state.xdrBufferSize
  usable : r.state.Usable

/-! ## One step -/

section
variable {α : Type} {codec : Codec α} {s : α} {d : Dest α} {grants : Grants} {buffer : List UInt8}
  {delta k fuel : ℕ} {state : XdrState}

theorem realloc_refused (state : XdrState) (delta : ℕ)
    (hn : wrap32 (state.xdrBufferSize + delta) ≠ 0) :
    xdrBufferRealloc delta none state = (false, state) :=
  if_neg fun h => hn h.1

theorem realloc_granted (state : XdrState) (delta : ℕ) (hf : state.freed = false)
    (hn : wrap32 (state.xdrBufferSize + delta) ≠ 0) (junk : ℕ → UInt8) : ∃ rv : List UInt8,
      rv.length = wrap32 (state.xdrBufferSize + delta) ∧
        xdrBufferRealloc delta (some junk) state = (true, .live rv) := by
  have hlen : ((List.range (wrap32 (state.xdrBufferSize + delta))).map fun i =>
      ((state.xdrBuffer.getD [])[i]?).getD (junk i)).length = wrap32 (state.xdrBufferSize + delta) := by
    rw [List.length_map, List.length_range]
  refine ⟨_, hlen, (if_neg fun h => hn h.1).trans ?_⟩
  rw [XdrState.live, hlen, ← hf]

theorem realloc_zero (buffer : List UInt8) (delta : ℕ) (grant : Option (ℕ → UInt8))
    (hn : wrap32 (buffer.length + delta) = 0) :
    xdrBufferRealloc delta grant (.live buffer) =
      (false, { XdrState.live buffer with freed := true }) :=
  if_pos ⟨hn, rfl⟩

/-- The value is encoded into the whole buffer. -/
theorem xdrLoop_live (fuel k : ℕ) : xdrLoop codec s d grants (fuel + 1) k (.live buffer) =
    if codec.size s ≤ buffer.length then
      .ok ⟨true, { d with copy := some s }, k, .live (codec.encode s buffer).2⟩
    else
      let rv := xdrBufferRealloc XDR_BUFFER_DELTA (grants k) (.live (codec.encode s buffer).2)
      if rv.1 then xdrLoop codec s d grants fuel (k + 1) rv.2 else .ok ⟨false, d, k, rv.2⟩ := by
  have hencoded := codec.encode_iff s buffer
  rw [xdrLoop]
  simp only [XdrState.live, Bool.false_eq_true, if_false, lt_irrefl, List.take_length,
    List.drop_length, List.append_nil, codec.encode_length, hencoded]
  split_ifs with hle
  · rw [codec.decode_encode s buffer (hencoded.2 hle)]
  · rfl
  · rfl

/-- There is no memory for a step. -/
theorem xdrLoop_refused (hlt : buffer.length < codec.size s)
    (hn : wrap32 (buffer.length + XDR_BUFFER_DELTA) ≠ 0) (hg : grants k = none) (fuel : ℕ) :
    xdrLoop codec s d grants (fuel + 1) k (.live buffer) =
      .ok ⟨false, d, k, .live (codec.encode s buffer).2⟩ := by
  rw [← codec.encode_length s buffer] at hn
  rw [xdrLoop_live, if_neg (not_le.2 hlt), hg]
  dsimp only
  rw [realloc_refused (.live (codec.encode s buffer).2) _ hn]
  rfl

/-- The size wraps to 0. -/
theorem xdrLoop_zero (hlt : buffer.length < codec.size s)
    (hn : wrap32 (buffer.length + XDR_BUFFER_DELTA) = 0) (fuel : ℕ) :
    xdrLoop codec s d grants (fuel + 1) k (.live buffer) =
      .ok ⟨false, d, k, { XdrState.live (codec.encode s buffer).2 with freed := true }⟩ := by
  rw [← codec.encode_length s buffer] at hn
  rw [xdrLoop_live, if_neg (not_le.2 hlt)]
  dsimp only
  rw [realloc_zero (codec.encode s buffer).2 _ _ hn]
  rfl

/-- The buffer grows. -/
theorem xdrLoop_granted (hlt : buffer.length < codec.size s)
    (hn : wrap32 (buffer.length + XDR_BUFFER_DELTA) ≠ 0) (hg : (grants k).isSome) :
    ∃ rv : List UInt8, rv.length = wrap32 (buffer.length + XDR_BUFFER_DELTA) ∧
      ∀ fuel, xdrLoop codec s d grants (fuel + 1) k (.live buffer) =
        xdrLoop codec s d grants fuel (k + 1) (.live rv) := by
  obtain ⟨junk, hjunk⟩ := Option.isSome_iff_exists.1 hg
  rw [← codec.encode_length s buffer] at hn
  obtain ⟨rv, hlen, hrv⟩ := realloc_granted (.live (codec.encode s buffer).2) _ rfl hn junk
  refine ⟨rv, hlen.trans (congrArg (wrap32 <| · + _) (codec.encode_length s buffer)), fun fuel => ?_⟩
  rw [xdrLoop_live, if_neg (not_le.2 hlt), hjunk, hrv]
  rfl

/-! ## The loop -/

/-- What the loop has done with a buffer, if it has to grow `n` times. -/
structure LoopEnds (codec : Codec α) (s : α) (d : Dest α) (grants : Grants) (buffer : List UInt8)
    (n k : ℕ) (r : XdrResult α) : Prop where
  returns : r.ret = true ↔ ∀ j < n, (grants (k + j)).isSome
  returned : r.ret = true → r.steps = k + n ∧ r.d = { d with copy := some s }
  failed : r.ret = false → r.d = d
  live : ∃ bytes, r.state = .live bytes ∧ buffer.length ≤ bytes.length

/-- A step has been granted, and the loop has ended after it. -/
theorem LoopEnds.step {rv : List UInt8} {n : ℕ} {r : XdrResult α} (hg : (grants k).isSome)
    (hle : buffer.length ≤ rv.length) (h : LoopEnds codec s d grants rv n (k + 1) r) :
    LoopEnds codec s d grants buffer (n + 1) k r := by
  obtain ⟨bytes, hstate, hbytes⟩ := h.live
  refine ⟨?_, fun hret => ?_, h.failed, bytes, hstate, hle.trans hbytes⟩
  · rw [h.returns]
    constructor
    · rintro h (_ | j) hj
      · exact hg
      · rw [← Nat.succ_add_eq_add_succ]
        exact h j (by omega)
    · intro h j hj
      rw [Nat.add_assoc, Nat.add_comm 1 j]
      exact h (j + 1) (by omega)
  · obtain ⟨hsteps, hd⟩ := h.returned hret
    exact ⟨by omega, hd⟩

/-- **The loop ends** when the value fits, or when there is no memory: an induction on the number of
    steps that are needed. -/
theorem xdrLoop_ends (d : Dest α) (grants : Grants) (buffer : List UInt8) (k : ℕ)
    (hs : codec.size s < 2 ^ 31) {n : ℕ}
    (hn : growth XDR_BUFFER_DELTA buffer.length (codec.size s) = n) :
    ∃ r, (∀ fuel, n < fuel → xdrLoop codec s d grants fuel k (.live buffer) = .ok r) ∧
      LoopEnds codec s d grants buffer n k r := by
  have hdelta : 0 < XDR_BUFFER_DELTA := by decide
  have hsucc : ∀ n fuel : ℕ, n < fuel → ∃ m, fuel = m + 1 ∧ n ≤ m :=
    fun n fuel h => ⟨fuel - 1, by omega, by omega⟩
  induction n generalizing buffer k with
  | zero =>
    have hle := (growth_eq_zero hdelta).1 hn
    refine ⟨⟨true, { d with copy := some s }, k, .live (codec.encode s buffer).2⟩, ?_,
      iff_of_true rfl nofun, fun _ => ⟨rfl, rfl⟩, nofun, _, rfl, (codec.encode_length s buffer).ge⟩
    intro fuel hfuel
    obtain ⟨m, rfl, -⟩ := hsucc 0 fuel hfuel
    rw [xdrLoop_live, if_pos hle]
  | succ n ih =>
    have hlt : buffer.length < codec.size s := by
      by_contra hle
      rw [(growth_eq_zero hdelta).2 (not_lt.1 hle)] at hn
      cases hn
    rw [growth_succ hdelta hlt, Nat.add_right_cancel_iff] at hn
    -- a value of less than 2^31 bytes does not make the size wrap
    have hwrap : wrap32 (buffer.length + XDR_BUFFER_DELTA) = buffer.length + XDR_BUFFER_DELTA := by
      unfold wrap32 XDR_BUFFER_DELTA
      omega
    have hne : wrap32 (buffer.length + XDR_BUFFER_DELTA) ≠ 0 := by omega
    by_cases hg : (grants k).isSome
    · obtain ⟨rv, hlen, hrv⟩ := xdrLoop_granted (d := d) hlt hne hg
      rw [hwrap] at hlen
      rw [← hlen] at hn
      obtain ⟨r, hr, hends⟩ := ih rv (k + 1) hn
      refine ⟨r, ?_, hends.step hg (by omega)⟩
      intro fuel hfuel
      obtain ⟨m, rfl, hm⟩ := hsucc (n + 1) fuel hfuel
      rw [hrv]
      exact hr m hm
    · refine ⟨⟨false, d, k, .live (codec.encode s buffer).2⟩, ?_, iff_of_false nofun ?_, nofun,
        fun _ => rfl, _, rfl, (codec.encode_length s buffer).ge⟩
      · intro fuel hfuel
        obtain ⟨m, rfl, -⟩ := hsucc (n + 1) fuel hfuel
        exact xdrLoop_refused hlt hne (Option.not_isSome_iff_eq_none.1 hg) m
      · intro h
        exact hg (h 0 (Nat.succ_pos n))

/-! ## A call -/

/-- The first buffer. -/
theorem getXdrBuffer_first (junk : ℕ → UInt8) (hg : grants 0 = some junk) : ∃ rv : List UInt8,
    rv.length = XDR_BUFFER_SIZE ∧ getXdrBuffer grants {} = (.live rv, fun k => grants (k + 1)) := by
  have hwrap : wrap32 (0 + XDR_BUFFER_SIZE) = XDR_BUFFER_SIZE := by decide
  obtain ⟨rv, hlen, hrv⟩ := realloc_granted {} XDR_BUFFER_SIZE rfl (by decide) junk
  refine ⟨rv, hlen.trans hwrap, ?_⟩
  rw [getXdrBuffer, hg, hrv]

/-- Without a first buffer there is nothing to do. -/
theorem xdrCopy_refused (hg : grants 0 = none) (fuel : ℕ) :
    xdrCopy codec s d grants (fuel + 1) {} = .ok ⟨false, d, 0, {}⟩ := by
  have hrefused : xdrBufferRealloc XDR_BUFFER_SIZE none {} = (false, {}) :=
    realloc_refused {} _ (by decide)
  rw [xdrCopy, getXdrBuffer, hg, hrefused]
  rfl

theorem LoopEnds.right {state : XdrState} {zeroed : Bool} {grants' : Grants} {r : XdrResult α}
    (hle : state.xdrBufferSize ≤ buffer.length)
    (hg : (∀ k < state.asked (codec.size s), (grants k).isSome) ↔
      ∀ j < state.needed (codec.size s), (grants' j).isSome)
    (h : LoopEnds codec s { zeroed } grants' buffer (state.needed (codec.size s)) 0 r) :
    XdrCopyRight codec s { zeroed } grants state r := by
  obtain ⟨bytes, hstate, hbytes⟩ := h.live
  refine ⟨?_, fun hret => ?_, ?_, h.failed, ?_, .inr ⟨bytes, hstate⟩⟩
  · rw [h.returns, hg]
    simp only [Nat.zero_add]
  · rw [(h.returned hret).1, Nat.zero_add]
    exact growth_isLeast (by decide)
  · cases hret : r.ret with
    | true => exact iff_of_true rfl (congrArg Dest.copy (h.returned hret).2)
    | false =>
      rw [h.failed hret]
      exact iff_of_false nofun nofun
  · rw [hstate]
    exact hle.trans hbytes

/-- **A call** from a usable state. -/
theorem XdrState.Usable.copy (hu : state.Usable) (hs : codec.size s < 2 ^ 31) (zeroed : Bool)
    (grants : Grants) : ∃ r, (∀ fuel, state.needed (codec.size s) < fuel →
        xdrCopy codec s { zeroed } grants fuel state = .ok r) ∧
      XdrCopyRight codec s { zeroed } grants state r := by
  obtain rfl | ⟨buffer, rfl⟩ := hu
  · cases hg : grants 0 with
    | none =>
      refine ⟨⟨false, { zeroed }, 0, {}⟩, ?_, ?_, nofun, iff_of_false nofun nofun, fun _ => rfl,
        le_rfl, .inl rfl⟩
      · intro fuel hfuel
        obtain ⟨m, rfl⟩ := Nat.exists_eq_succ_of_ne_zero (Nat.ne_zero_of_lt hfuel)
        exact xdrCopy_refused hg m
      · refine iff_of_false nofun fun h => ?_
        have h0 := h 0 (Nat.add_pos_left Nat.one_pos _)
        rw [hg] at h0
        cases h0
    | some junk =>
      obtain ⟨rv, hlen, hrv⟩ := getXdrBuffer_first junk hg
      obtain ⟨r, hr, hends⟩ := xdrLoop_ends { zeroed } (fun k => grants (k + 1)) rv 0 hs rfl
      rw [hlen] at hr hends
      refine ⟨r, ?_, hends.right (Nat.zero_le _) ?_⟩
      · intro fuel hfuel
        rw [xdrCopy, hrv]
        exact hr fuel hfuel
      · constructor
        · intro h j hj
          exact h (j + 1) ((Nat.add_comm j 1).trans_lt (Nat.add_lt_add_left hj 1))
        · rintro h (_ | k) hk
          · rw [hg]
            rfl
          · exact h k (Nat.lt_of_add_lt_add_left (n := 1) ((Nat.add_comm 1 k).trans_lt hk))
  · obtain ⟨r, hr, hends⟩ := xdrLoop_ends { zeroed } grants buffer 0 hs rfl
    refine ⟨r, hr, hends.right le_rfl ?_⟩
    have hasked : (XdrState.live buffer).asked (codec.size s) =
        (XdrState.live buffer).needed (codec.size s) := Nat.zero_add _
    rw [hasked]

/-! ## Any number of calls -/

/-- The largest size that the buffer can have, in its third round through the numbers of 32 bits. -/
def LARGEST : ℕ := 2 ^ 32 - 2048

/-- There is no buffer yet, or its size has been reached by steps of 10 KiB before or at the
    largest. -/
def XdrState.Grown (state : XdrState) : Prop :=
  state = {} ∨ ∃ buffer j, state = .live buffer ∧ 10 ≤ j ∧ j ≤ 1258291 ∧
    buffer.length = wrap32 (XDR_BUFFER_DELTA * j)

theorem XdrState.Grown.usable (h : state.Grown) : state.Usable := by
  rcases h with h | ⟨buffer, -, h, -⟩
  · exact .inl h
  · exact .inr ⟨buffer, h⟩

/-- The size after one more step. -/
theorem wrap32_delta (j : ℕ) :
    wrap32 (wrap32 (XDR_BUFFER_DELTA * j) + XDR_BUFFER_DELTA) = wrap32 (XDR_BUFFER_DELTA * (j + 1)) :=
  Nat.mod_add_mod _ _ _

/-- The size is 0 again after 2^21 steps. -/
theorem wrap32_delta_eq_zero (j : ℕ) : wrap32 (XDR_BUFFER_DELTA * j) = 0 ↔ 2 ^ 21 ∣ j := by
  have hscale : XDR_BUFFER_DELTA * j = 2048 * (5 * j) ∧ 2 ^ 32 = 2048 * 2 ^ 21 := by
    constructor
    · exact Nat.mul_assoc 2048 5 j
    · decide
  have hcoprime : Nat.Coprime (2 ^ 21) 5 := by decide
  rw [wrap32, ← Nat.dvd_iff_mod_eq_zero, hscale.1, hscale.2, Nat.mul_dvd_mul_iff_left (by decide)]
  exact Nat.Coprime.dvd_mul_left hcoprime

/-- A step from a size below the largest. -/
theorem wrap32_step {j : ℕ} (hhi : j ≤ 1258291) (hlt : wrap32 (XDR_BUFFER_DELTA * j) < LARGEST) :
    wrap32 (XDR_BUFFER_DELTA * (j + 1)) ≠ 0 ∧ j + 1 ≤ 1258291 := by
  have hlast : j ≠ 1258291 := by
    rintro rfl
    exact absurd hlt (by decide)
  refine ⟨fun h => ?_, by omega⟩
  have hle := Nat.le_of_dvd (Nat.succ_pos j) ((wrap32_delta_eq_zero (j + 1)).1 h)
  omega

theorem xdrLoop_grown {j : ℕ} {r : XdrResult α} (hs : codec.size s ≤ LARGEST) (hlo : 10 ≤ j)
    (hhi : j ≤ 1258291) (hlen : buffer.length = wrap32 (XDR_BUFFER_DELTA * j))
    (h : xdrLoop codec s d grants fuel k (.live buffer) = .ok r) : r.state.Grown := by
  have hbytes := codec.encode_length s buffer
  induction fuel generalizing buffer j k with
  | zero => cases h
  | succ fuel ih =>
    by_cases hle : codec.size s ≤ buffer.length
    · rw [xdrLoop_live, if_pos hle] at h
      obtain rfl := Except.ok.inj h
      exact .inr ⟨_, j, rfl, hlo, hhi, hbytes.trans hlen⟩
    · have hlt := not_le.1 hle
      obtain ⟨hne, hnext⟩ := wrap32_step hhi (hlen ▸ hlt.trans_le hs)
      have hstep := wrap32_delta j
      rw [← hlen] at hstep
      rw [← hstep] at hne
      by_cases hg : (grants k).isSome
      · obtain ⟨rv, hrv, hloop⟩ := xdrLoop_granted (d := d) hlt hne hg
        rw [hloop] at h
        exact ih (by omega) hnext (hrv.trans hstep) h (codec.encode_length s rv)
      · rw [xdrLoop_refused hlt hne (Option.not_isSome_iff_eq_none.1 hg)] at h
        obtain rfl := Except.ok.inj h
        exact .inr ⟨_, j, rfl, hlo, hhi, hbytes.trans hlen⟩

theorem XdrState.Grown.copy {r : XdrResult α} (hst : state.Grown) (hs : codec.size s ≤ LARGEST)
    (h : xdrCopy codec s d grants fuel state = .ok r) : r.state.Grown := by
  rcases hst with rfl | ⟨buffer, j, rfl, hlo, hhi, hlen⟩
  · cases fuel with
    | zero => cases h
    | succ fuel => cases hg : grants 0 with
      | none =>
        rw [xdrCopy_refused hg] at h
        obtain rfl := Except.ok.inj h
        exact .inl rfl
      | some junk =>
        obtain ⟨rv, hlen, hrv⟩ := getXdrBuffer_first junk hg
        rw [xdrCopy, hrv] at h
        exact xdrLoop_grown (j := 10) hs le_rfl (by decide) (hlen.trans (by decide)) h
  · exact xdrLoop_grown hs hlo hhi hlen h

/-- **All calls** keep the buffer usable. -/
theorem Reached.grown {cs : List XdrCall} (h : Reached cs state)
    (hs : ∀ c ∈ cs, c.size ≤ LARGEST) : state.Grown := by
  induction h with
  | nil => exact .inl rfl
  | @call cs c state fuel r _ hc ih =>
    have hst := ih fun c hc => hs c (List.mem_append_left _ hc)
    exact hst.copy (hs c (List.mem_append_right _ (List.mem_singleton_self c))) hc

/-- A value that never fits: the size wraps to 0 in the end, and the buffer is freed. -/
theorem xdrLoop_frees {d : Dest Unit} (hg : ∀ k, (grants k).isSome) {m j : ℕ} (hj : j + m + 1 = 2 ^ 21)
    (hpos : 1 ≤ j) (hlen : buffer.length = wrap32 (XDR_BUFFER_DELTA * j)) (hfuel : m < fuel) :
    ∃ bytes r, xdrLoop (.padding (2 ^ 32)) () d grants fuel k (.live buffer) = .ok r ∧
      r.state = { XdrState.live bytes with freed := true } := by
  induction m generalizing buffer j k fuel with
  | zero =>
    have hlt : buffer.length < (Codec.padding (2 ^ 32)).size () := hlen ▸ Nat.mod_lt _ (by decide)
    have hzero : wrap32 (buffer.length + XDR_BUFFER_DELTA) = 0 := by
      rw [hlen, wrap32_delta, wrap32_delta_eq_zero]
      exact hj.symm.dvd
    obtain ⟨fuel, rfl⟩ := Nat.exists_eq_succ_of_ne_zero hfuel.ne'
    exact ⟨_, _, xdrLoop_zero hlt hzero fuel, rfl⟩
  | succ m ih =>
    have hlt : buffer.length < (Codec.padding (2 ^ 32)).size () := hlen ▸ Nat.mod_lt _ (by decide)
    have hstep : wrap32 (buffer.length + XDR_BUFFER_DELTA) = wrap32 (XDR_BUFFER_DELTA * (j + 1)) := by
      rw [hlen, wrap32_delta]
    have hne : wrap32 (buffer.length + XDR_BUFFER_DELTA) ≠ 0 := by
      rw [hstep]
      intro h
      have hle := Nat.le_of_dvd (Nat.succ_pos j) ((wrap32_delta_eq_zero (j + 1)).1 h)
      omega
    obtain ⟨rv, hrv, hloop⟩ := xdrLoop_granted (d := d) hlt hne (hg k)
    obtain ⟨fuel, rfl⟩ := Nat.exists_eq_succ_of_ne_zero (Nat.ne_zero_of_lt hfuel)
    rw [Nat.succ_eq_add_one, hloop]
    exact ih (by omega) (by omega) (hrv.trans hstep) (by omega)

/-- A buffer that has been freed is used. -/
theorem xdrCopy_freed (hf : state.freed = true) (hb : state.xdrBuffer.isSome) {r : XdrResult α} :
    xdrCopy codec s d grants fuel state ≠ .ok r := by
  obtain ⟨buffer, hb⟩ := Option.isSome_iff_exists.1 hb
  rw [xdrCopy, getXdrBuffer, hb]
  cases fuel with
  | zero => nofun
  | succ fuel =>
    dsimp only
    rw [xdrLoop, if_pos hf]
    nofun

end

/-- **The copy.**  After earlier calls for values of at most 2^32 - 2048 bytes, a value of less than 2^31
    bytes is copied after the least number of steps, unless there is no memory for one of them. -/
theorem xdrCopy_right (cs : List XdrCall) (state : XdrState) (h : Reached cs state)
    (hcs : ∀ c ∈ cs, c.size ≤ LARGEST) {α : Type} (codec : Codec α) (s : α)
    (hs : codec.size s < 2 ^ 31) (zeroed : Bool) (grants : Grants) :
    ∃ r, (∀ fuel, state.needed (codec.size s) < fuel →
        xdrCopy codec s { zeroed } grants fuel state = .ok r) ∧
      XdrCopyRight codec s { zeroed } grants state r :=
  (h.grown hcs).usable.copy hs zeroed grants

/-- Memory is always there, and cleared. -/
def allGranted : Grants := fun _ => some fun _ => 0

/-- A second call, for another word. -/
theorem xdrCopy_right_word : ∃ state, Reached [⟨.word, 5, {}, allGranted⟩] state ∧ ∃ r,
    (∀ fuel, state.needed 4 < fuel → xdrCopy_ .word 7 {} allGranted fuel state = .ok r) ∧
      r.ret = true ∧ r.d.copy = some 7 := by
  obtain ⟨r, hr, -⟩ := xdrCopy_right [] {} .nil nofun .word 5 (by decide) false allGranted
  have hfirst : Reached [⟨.word, 5, {}, allGranted⟩] r.state := .call .nil (hr 1 (by decide))
  have hsize : ∀ c ∈ [XdrCall.mk .word 5 {} allGranted], c.size ≤ LARGEST := by
    rintro c hc
    rw [List.mem_singleton.1 hc]
    decide
  obtain ⟨r', hr', hright⟩ := xdrCopy_right _ _ hfirst hsize .word 7 (by decide) true allGranted
  have hret := hright.returns.2 fun _ _ => rfl
  exact ⟨r.state, hfirst, r', hr', hret, hright.copied.1 hret⟩

/-- An earlier call for a value of 2^32 bytes has made the size wrap to 0. -/
theorem xdrCopy_wrapped : ∃ c state, Reached [c] state ∧
    ∀ fuel r, xdrCopy Codec.word 1 {} allGranted fuel state ≠ .ok r := by
  obtain ⟨rv, hlen, hrv⟩ := getXdrBuffer_first (fun _ => 0) (rfl : allGranted 0 = _)
  obtain ⟨bytes, r, hr, hstate⟩ : ∃ bytes r, xdrLoop (.padding (2 ^ 32)) () {}
      (fun k => allGranted (k + 1)) (2 ^ 21) 0 (.live rv) = .ok r ∧
        r.state = { XdrState.live bytes with freed := true } :=
    xdrLoop_frees (m := 2 ^ 21 - 11) (j := 10) (fun _ => rfl) (by decide) (by decide)
      (hlen.trans (by decide)) (by decide)
  have hc : xdrCopy (.padding (2 ^ 32)) () {} allGranted (2 ^ 21) {} = .ok r := by
    rw [xdrCopy, hrv]
    exact hr
  refine ⟨⟨.padding (2 ^ 32), (), {}, allGranted⟩, r.state, .call .nil hc, ?_⟩
  intro fuel r'
  exact xdrCopy_freed (by rw [hstate]) (by rw [hstate]; rfl)

end NFStash
