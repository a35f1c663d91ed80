/-
  `parse_fh` and the lines it rejects.

  A line without an address leaves the target list alone (`parseFh_noAddress`).
  A line that is rejected later has found or appended its target by then, and
  the cleanup frees the target in either case (`parseFh_freed`).
-/
import NFStash.Util

namespace NFStash

open CLib

variable (lookup : CString → String → Option CString) (junk : ℕ → UInt8) (port : UInt16) (count : ℕ)

/-- The line is rejected before there is a target for it. -/
def NoAddress (input : CString) : Prop :=
  input = [] ∨ (lookup input "ip").bind inetPton = none

/-- The fields after the address are all there, and the filehandle is hexadecimal text of one to
    64 bytes. -/
def HasFields (input : CString) : Prop :=
  (lookup input "host").isSome ∧ (lookup input "path").isSome ∧
    ∃ tmp, lookup input "filehandle" = some tmp ∧
      wrap32 (tmp.length / 2) ≠ 0 ∧ wrap32 (tmp.length / 2) ≤ FHSIZE3 ∧ tmp.length % 2 = 0

/-- No node of the list has been freed. -/
def Allocated (ts : List Target) : Prop := ∀ t ∈ ts, t.freed = false

/-! ## The target of a line -/

section
variable {ip : InAddr} {ts ts' : List Target} {i : ℕ}

/-- A search that succeeds has read an allocated node, and gone on if it was not the one. -/
theorem findTargetByIp_cons {t : Target} {r : Option ℕ} :
    findTargetByIp ip (t :: ts) = .ok r ↔ t.freed = false ∧
      ((t.addr = some ip ∧ r = some 0) ∨
        (t.addr ≠ some ip ∧ ∃ r', findTargetByIp ip ts = .ok r' ∧ r = r'.map (· + 1))) := by
  rw [findTargetByIp]
  split_ifs with hf ha
  · simp [hf]
  · have hr : some 0 = r ↔ r = some 0 := eq_comm
    simp [hf, ha, hr]
  · cases findTargetByIp ip ts with
    | error e => simp [ha, Functor.map, Except.map]
    | ok r' =>
      have hr : r'.map (· + 1) = r ↔ r = r'.map (· + 1) := eq_comm
      simp [hf, ha, Functor.map, Except.map, hr]

theorem findTargetByIp_some (h : findTargetByIp ip ts = .ok (some i)) :
    ∃ t, ts[i]? = some t ∧ t.freed = false ∧ t.addr = some ip := by
  induction ts generalizing i with
  | nil => simp [findTargetByIp] at h
  | cons t ts ih =>
    obtain ⟨hf, ⟨ha, hi⟩ | ⟨-, r, hr, hi⟩⟩ := findTargetByIp_cons.1 h
    · obtain rfl : i = 0 := by simpa using hi
      exact ⟨t, rfl, hf, ha⟩
    · cases r with
      | none => simp at hi
      | some j =>
        obtain rfl : i = j + 1 := by simpa using hi
        simpa using ih hr

/-- A list without freed nodes can be searched. -/
theorem findTargetByIp_total (ip : InAddr) (h : Allocated ts) : ∃ r, findTargetByIp ip ts = .ok r := by
  induction ts with
  | nil => exact ⟨none, rfl⟩
  | cons t ts ih =>
    obtain ⟨ht, hts⟩ := List.forall_mem_cons.1 h
    obtain ⟨r, hr⟩ := ih hts
    by_cases ha : t.addr = some ip
    · exact ⟨some 0, findTargetByIp_cons.2 ⟨ht, .inl ⟨ha, rfl⟩⟩⟩
    · exact ⟨r.map (· + 1), findTargetByIp_cons.2 ⟨ht, .inr ⟨ha, r, hr, rfl⟩⟩⟩

/-- The target is found, or made. -/
theorem findOrMakeTarget_cases (h : findOrMakeTarget ts ip port count = .ok (i, ts')) :
    findTargetByIp ip ts = .ok (some i) ∧ ts' = ts ∨
      findTargetByIp ip ts = .ok none ∧ i = ts.length ∧ ts' = ts ++ [newTarget ip port count] := by
  unfold findOrMakeTarget at h
  cases hr : findTargetByIp ip ts with
  | error e => simp [hr, bind, Except.bind] at h
  | ok r =>
    cases r with
    | some j =>
      simp only [hr, bind, Except.bind, Except.ok.injEq, Prod.mk.injEq] at h
      obtain ⟨rfl, rfl⟩ := h
      exact .inl ⟨rfl, rfl⟩
    | none =>
      simp only [hr, bind, Except.bind, Except.ok.injEq, Prod.mk.injEq] at h
      exact .inr ⟨rfl, h.1.symm, h.2.symm⟩

/-- The list is the one searched, or it has grown by a new target. -/
theorem findOrMakeTarget_ok (h : findOrMakeTarget ts ip port count = .ok (i, ts')) :
    (ts' = ts ∧ ∃ t, ts[i]? = some t ∧ t.freed = false ∧ t.addr = some ip) ∨
      (i = ts.length ∧ ts' = ts ++ [newTarget ip port count]) := by
  rcases findOrMakeTarget_cases port count h with ⟨hfound, rfl⟩ | ⟨-, hi, hts⟩
  · exact .inl ⟨rfl, findTargetByIp_some hfound⟩
  · exact .inr ⟨hi, hts⟩

/-- The index returned is that of a target of the new list. -/
theorem findOrMakeTarget_get (h : findOrMakeTarget ts ip port count = .ok (i, ts')) :
    ∃ t, ts'[i]? = some t ∧ t.freed = false ∧ t.addr = some ip := by
  rcases findOrMakeTarget_ok port count h with ⟨rfl, ht⟩ | ⟨rfl, rfl⟩
  · exact ht
  · exact ⟨newTarget ip port count, by simp, rfl, rfl⟩

theorem findOrMakeTarget_total (ip : InAddr) (h : Allocated ts) :
    ∃ r, findOrMakeTarget ts ip port count = .ok r := by
  obtain ⟨r, hr⟩ := findTargetByIp_total ip h
  unfold findOrMakeTarget
  rw [hr]
  cases r with
  | none => exact ⟨_, rfl⟩
  | some j => exact ⟨_, rfl⟩

/-- A new target is not freed. -/
theorem findOrMakeTarget_allocated (hts : Allocated ts)
    (h : findOrMakeTarget ts ip port count = .ok (i, ts')) : Allocated ts' := by
  rcases findOrMakeTarget_ok port count h with ⟨rfl, -⟩ | ⟨-, rfl⟩
  · exact hts
  · intro t ht
    rcases List.mem_append.1 ht with ht | ht
    · exact hts t ht
    · obtain rfl := List.mem_singleton.1 ht
      rfl

end

/-! ## The outcomes of a line -/

section
variable {input : CString} {current : Target}

/-- Whether the fields of a line are accepted does not depend on the target. -/
theorem parseFields_accepts (input : CString) (current : Target) :
    (parseFields lookup junk input count current).1 = none ↔ HasFields lookup input := by
  unfold parseFields HasFields
  cases hh : lookup input "host" with
  | none => simp
  | some host =>
    cases hp : lookup input "path" with
    | none => simp
    | some path =>
      cases hf : lookup input "filehandle" with
      | none => simp
      | some tmp =>
        simp only [Option.isSome_some, Option.some.injEq, exists_eq_left', true_and]
        split_ifs with hc
        · simpa using hc
        · simpa using hc

theorem parseFields_freed (input : CString) (current : Target) :
    (parseFields lookup junk input count current).2.freed = current.freed := by
  unfold parseFields
  cases lookup input "host" with
  | none => rfl
  | some host =>
    cases lookup input "path" with
    | none => rfl
    | some path =>
      cases lookup input "filehandle" with
      | none => rfl
      | some tmp =>
        dsimp only
        split_ifs
        · rfl
        · rfl

variable {head ts : List Target}

/-- A line without an address is rejected, and nothing else happens. -/
theorem parseFh_noAddress (head : List Target) (h : NoAddress lookup input) :
    ∃ e, parseFh lookup junk head input port count = .ok (.error e, head) := by
  unfold parseFh
  by_cases hi : input = []
  · exact ⟨.noInput, by simp [hi]⟩
  · have hb : (lookup input "ip").bind inetPton = none := h.resolve_left hi
    rw [if_neg hi]
    cases hl : lookup input "ip" with
    | none => exact ⟨.noIp, rfl⟩
    | some ip =>
      have hp : inetPton ip = none := by simpa [hl] using hb
      exact ⟨.invalidIp ip, by simp [hp]⟩

/-- A line with an address works on the target for it. -/
theorem parseFh_address (head : List Target) (h : ¬ NoAddress lookup input) : ∃ addr,
    parseFh lookup junk head input port count = parseTarget lookup junk head input addr port count := by
  simp only [NoAddress, not_or] at h
  obtain ⟨hi, hb⟩ := h
  cases hl : lookup input "ip" with
  | none => simp [hl] at hb
  | some ip =>
    cases ha : inetPton ip with
    | none => simp [hl, ha] at hb
    | some addr => exact ⟨addr, by unfold parseFh; rw [if_neg hi]; simp [hl, ha]⟩

/-- **What a line with an address does.**  It is accepted iff its other fields are good; if it
    is not, the target found or appended for it is freed. -/
theorem parseFh_cases {r : Except ParseFhError ℕ} (h : ¬ NoAddress lookup input)
    (hp : parseFh lookup junk head input port count = .ok (r, ts)) :
    ∃ addr i ts' t, findOrMakeTarget head addr port count = .ok (i, ts') ∧ ts'[i]? = some t ∧
      ((r = .ok i ∧ HasFields lookup input ∧
          ts = ts'.set i (parseFields lookup junk input count t).2) ∨
        ∃ e t', r = .error e ∧ ¬ HasFields lookup input ∧ ts = ts'.set i t' ∧
          t' = { (parseFields lookup junk input count t).2 with freed := true }) := by
  obtain ⟨addr, ha⟩ := parseFh_address lookup junk port count head h
  rw [ha, parseTarget] at hp
  cases hf : findOrMakeTarget head addr port count with
  | error e => simp [hf, bind, Except.bind] at hp
  | ok p =>
    obtain ⟨i, ts'⟩ := p
    obtain ⟨t, ht, -, -⟩ := findOrMakeTarget_get port count hf
    refine ⟨addr, i, ts', t, hf, ht, ?_⟩
    simp only [hf, bind, Except.bind, ht] at hp
    cases hq : parseFields lookup junk input count t with
    | mk err current =>
      have hacc := parseFields_accepts lookup junk count input t
      cases err with
      | none =>
        simp only [hq, Except.ok.injEq, Prod.mk.injEq] at hp hacc
        exact .inl ⟨hp.1.symm, hacc.1 trivial, hp.2.symm⟩
      | some e =>
        simp only [hq, Except.ok.injEq, Prod.mk.injEq, reduceCtorEq, false_iff] at hp hacc
        exact .inr ⟨e, _, hp.1.symm, hacc, hp.2.symm, rfl⟩

/-- A rejected line that has an address changes the list: it frees a target. -/
theorem parseFh_freed {e : ParseFhError} (h : ¬ NoAddress lookup input)
    (hp : parseFh lookup junk head input port count = .ok (.error e, ts)) :
    ∃ t ∈ ts, t.freed = true ∧ ts ≠ head := by
  obtain ⟨addr, i, ts', t, hf, ht, hr⟩ := parseFh_cases lookup junk port count h hp
  rcases hr with ⟨hr, -⟩ | ⟨-, t', -, -, rfl, hmade⟩
  · cases hr
  have hfr : t'.freed = true := congrArg Target.freed hmade
  have hi : i < ts'.length := (List.getElem?_eq_some_iff.1 ht).1
  have hg : (ts'.set i t')[i]? = some t' := by simp [hi]
  refine ⟨t', List.mem_of_getElem? hg, hfr, ?_⟩
  intro heq
  rcases findOrMakeTarget_ok port count hf with ⟨rfl, u, hu, hu', -⟩ | ⟨rfl, rfl⟩
  · rw [heq, hu] at hg
    obtain rfl := Option.some.inj hg
    simp [hu'] at hfr
  · simpa using congrArg List.length heq

/-- A line that is not rejected after its target was found keeps all nodes allocated. -/
theorem parseFh_allocated (hh : Allocated head) (hl : NoAddress lookup input ∨ HasFields lookup input) :
    ∃ r ts, parseFh lookup junk head input port count = .ok (r, ts) ∧ Allocated ts := by
  by_cases hn : NoAddress lookup input
  · obtain ⟨e, he⟩ := parseFh_noAddress lookup junk port count head hn
    exact ⟨_, _, he, hh⟩
  · obtain ⟨addr, ha⟩ := parseFh_address lookup junk port count head hn
    obtain ⟨⟨i, ts'⟩, hf⟩ := findOrMakeTarget_total port count addr hh
    obtain ⟨t, ht, htf, -⟩ := findOrMakeTarget_get port count hf
    have hacc := (parseFields_accepts lookup junk count input t).2 (hl.resolve_left hn)
    have hfr := parseFields_freed lookup junk count input t
    refine ⟨.ok i, ts'.set i (parseFields lookup junk input count t).2, ?_, ?_⟩
    · rw [ha, parseTarget]
      simp only [hf, bind, Except.bind, ht]
      generalize parseFields lookup junk input count t = q at hacc ⊢
      obtain ⟨err, current⟩ := q
      obtain rfl : err = none := hacc
      rfl
    · intro u hu
      rcases List.mem_or_eq_of_mem_set hu with hu | rfl
      · exact findOrMakeTarget_allocated port count hh hf u hu
      · rw [hfr, htf]

end

/-! ## Runs -/

theorem parseLines_cons {head ts : List Target} {input : CString} {inputs : List CString} :
    parseLines lookup junk port count head (input :: inputs) = .ok ts ↔
      ∃ r ts', parseFh lookup junk head input port count = .ok (r, ts') ∧
        parseLines lookup junk port count ts' inputs = .ok ts := by
  cases h : parseFh lookup junk head input port count with
  | error e => simp [parseLines, h, bind, Except.bind]
  | ok p =>
    obtain ⟨r, ts'⟩ := p
    simp [parseLines, h, bind, Except.bind]

/-- A run over lines that are each accepted or without an address completes without freeing a
    node. -/
theorem parseLines_allocated {head : List Target} {inputs : List CString} (hh : Allocated head)
    (hl : ∀ input ∈ inputs, NoAddress lookup input ∨ HasFields lookup input) :
    ∃ ts, parseLines lookup junk port count head inputs = .ok ts ∧ Allocated ts := by
  induction inputs generalizing head with
  | nil => exact ⟨head, rfl, hh⟩
  | cons input inputs ih =>
    obtain ⟨r, ts', hp, hts'⟩ := parseFh_allocated lookup junk port count hh (hl input List.mem_cons_self)
    obtain ⟨ts, hr, hts⟩ := ih hts' fun i hi => hl i (List.mem_cons_of_mem _ hi)
    exact ⟨ts, (parseLines_cons lookup junk port count).2 ⟨r, ts', hp, hr⟩, hts⟩

theorem dummyTargets_allocated : Allocated dummyTargets := by
  intro t ht
  obtain rfl := List.mem_singleton.1 ht
  rfl

/-- **When a rejected line leaves the target list alone.**  After any earlier lines, a rejected
    line leaves the list as it was iff it is rejected for want of an address; and while every
    line is accepted or rejected so, no target is ever freed or read after it was freed. -/
theorem parseFh_unchanged_iff :
    (∀ inputs head input e ts, parseLines lookup junk port count dummyTargets inputs = .ok head →
      parseFh lookup junk head input port count = .ok (.error e, ts) →
      (ts = head ↔ NoAddress lookup input)) ∧
    (∀ inputs, (∀ input ∈ inputs, NoAddress lookup input ∨ HasFields lookup input) →
      ∃ ts, parseLines lookup junk port count dummyTargets inputs = .ok ts ∧ Allocated ts) := by
  constructor
  · intro inputs head input e ts _ hp
    constructor
    · intro heq
      by_contra hn
      obtain ⟨t, -, -, hne⟩ := parseFh_freed lookup junk port count hn hp
      exact hne heq
    · intro hn
      obtain ⟨e', he'⟩ := parseFh_noAddress lookup junk port count head hn
      rw [hp] at he'
      simp only [Except.ok.injEq, Prod.mk.injEq] at he'
      exact he'.2
  · intro inputs hl
    exact parseLines_allocated lookup junk port count dummyTargets_allocated hl

/-- A line with all the fields. -/
def fullLine : CString :=
  "\x7b\"ip\": \"10.0.0.1\", \"host\": \"a\", \"path\": \"/x\", \"filehandle\": \"0a\"\x7d".toList

/-- A line for another file of the same host. -/
def secondLine : CString :=
  "\x7b\"ip\": \"10.0.0.1\", \"host\": \"a\", \"path\": \"/y\", \"filehandle\": \"0b\"\x7d".toList

/-- A line with the same address and nothing else. -/
def ipLine : CString := "\x7b\"ip\": \"10.0.0.1\"\x7d".toList

/-- Field lookup for these lines. -/
def sampleLookup (input : CString) (key : String) : Option CString :=
  let fields :=
    if input = fullLine then [("ip", "10.0.0.1"), ("host", "a"), ("path", "/x"), ("filehandle", "0a")]
    else if input = secondLine then
      [("ip", "10.0.0.1"), ("host", "a"), ("path", "/y"), ("filehandle", "0b")]
    else if input = ipLine then [("ip", "10.0.0.1")]
    else []
  (fields.lookup key).map (·.toList)

/-- A line without a host frees the target of the line before it, which stays in the list. -/
theorem parseFh_noHost_frees : ∃ head t t' ts,
    parseLines sampleLookup (fun _ => 0) 2049 0 dummyTargets [fullLine] = .ok head ∧
    parseFh sampleLookup (fun _ => 0) head ipLine 2049 0 = .ok (.error .noHost, ts) ∧
    head[1]? = some t ∧ t.freed = false ∧ t.filehandles ≠ [] ∧ ts[1]? = some t' ∧ t'.freed = true :=
  ⟨_, _, _, _, rfl, rfl, rfl, rfl, by simp, rfl, rfl⟩

end NFStash
