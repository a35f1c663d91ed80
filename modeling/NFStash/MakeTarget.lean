/-
  `make_target` and the target list.

  A call finds or appends a target for each address it uses and updates it
  (`makeTarget_makes`, `makeTarget_touches`).  From this follow the two views of the list that the callers
  need: what holds of every target after the dummy entry (`Touches.headed`), and
  which target an address leads to (`Touches.lookup`).
-/
import NFStash.Lib.Loops
import NFStash.ParseFh

namespace NFStash

open CLib

/-- The addresses `make_target` makes targets for. -/
def hostAddrs (res : Resolver) (multiple : Bool) (targetName : CString) : List InAddr :=
  match inetPton targetName with
  | some ip => [ip]
  | none => match res.getaddrinfo targetName with
    | none => []
    | some (ip, addrs) => if multiple then ip :: addrs else [ip]

/-- What `make_target` makes of the target that is found or appended for the address `ip`. -/
def madeTarget (res : Resolver) (dns displayIps : Bool) (path : Option CString) (count : ℕ)
    (targetName : CString) (ip : InAddr) (target : Target) : Target :=
  let target := setExport path count target
  if (inetPton targetName).isSome then
    if dns then { target with ndqf := reverseFqdn target.name } else literalTarget targetName target
  else resolvedTarget res dns displayIps targetName ip target

/-- The targets for these addresses are found or appended, one after the other, and each is made
    into something. -/
inductive Makes (port : UInt16) (count : ℕ) (made : InAddr → Target → Target) :
    List InAddr → List Target → List Target → Prop where
  | nil {ts} : Makes port count made [] ts ts
  | cons {ip ips i ts ts' ts'' t} (hf : findOrMakeTarget ts ip port count = .ok (i, ts'))
      (ht : ts'[i]? = some t) (h : Makes port count made ips (ts'.set i (made ip t)) ts'') :
      Makes port count made (ip :: ips) ts ts''

/-- What `make_target` changes in a target. -/
structure Update (path : Option CString) (count : ℕ) (t t' : Target) : Prop where
  addr : t'.addr = t.addr
  results : t'.results = t.results
  sent : t'.sent = t.sent
  received : t'.received = t.received
  freed : t'.freed = t.freed
  client : t'.client = t.client
  exports : t'.exports = (setExport path count t).exports

/-- The targets for these addresses are found or appended, and updated, one after the other. -/
inductive Touches (port : UInt16) (path : Option CString) (count : ℕ) :
    List InAddr → List Target → List Target → Prop where
  | nil {ts} : Touches port path count [] ts ts
  | cons {ip ips i ts ts' ts'' t t'} (hf : findOrMakeTarget ts ip port count = .ok (i, ts'))
      (ht : ts'[i]? = some t) (hu : Update path count t t')
      (h : Touches port path count ips (ts'.set i t') ts'') :
      Touches port path count (ip :: ips) ts ts''

section
variable {res : Resolver} {port : UInt16} {dns displayIps multiple : Bool} {path : Option CString}
  {count : ℕ}

theorem setExport_update (path : Option CString) (count : ℕ) (t : Target) :
    Update path count t (setExport path count t) := by
  cases path with
  | none => exact ⟨rfl, rfl, rfl, rfl, rfl, rfl, rfl⟩
  | some path => exact ⟨rfl, rfl, rfl, rfl, rfl, rfl, rfl⟩

/-- Besides the exports, only the names are changed. -/
theorem madeTarget_eq (targetName : CString) (ip : InAddr) (t : Target) :
    ∃ name displayName ndqf, madeTarget res dns displayIps path count targetName ip t =
      { setExport path count t with name, displayName, ndqf } := by
  unfold madeTarget
  dsimp only
  split_ifs
  · exact ⟨_, _, _, rfl⟩
  · exact ⟨_, _, _, rfl⟩
  · unfold resolvedTarget
    cases dns with
    | false => exact ⟨_, _, _, rfl⟩
    | true =>
      cases res.getnameinfo ip with
      | none => exact ⟨_, _, _, rfl⟩
      | some name => exact ⟨_, _, _, rfl⟩

theorem madeTarget_update (targetName : CString) (ip : InAddr) (t : Target) :
    Update path count t (madeTarget res dns displayIps path count targetName ip t) := by
  obtain ⟨name, displayName, ndqf, heq⟩ := madeTarget_eq targetName ip t
  rw [heq]
  obtain ⟨h1, h2, h3, h4, h5, h6, h7⟩ := setExport_update path count t
  exact ⟨h1, h2, h3, h4, h5, h6, h7⟩

/-- The counters and times of the target stay as they are. -/
theorem madeTarget_stats (targetName : CString) (ip : InAddr) (t : Target) :
    (madeTarget res dns displayIps path count targetName ip t).toStats = t.toStats := by
  obtain ⟨name, displayName, ndqf, heq⟩ := madeTarget_eq targetName ip t
  rw [heq]
  cases path with
  | none => rfl
  | some path => rfl

theorem makeTargets_makes {name : CString} {addrs : List InAddr} {created : ℕ} {head : List Target}
    {r : MakeTargetRes} (hname : inetPton name = none)
    (h : makeTargets res port dns displayIps multiple path count name addrs created head = .ok r) :
    Makes port count (madeTarget res dns displayIps path count name)
        (if multiple then addrs else addrs.take 1) head r.targets ∧
      r.created = created + (if multiple then addrs else addrs.take 1).length := by
  have hmade : ∀ ip t, resolvedTarget res dns displayIps name ip (setExport path count t) =
      madeTarget res dns displayIps path count name ip t := by
    intro ip t
    simp [madeTarget, hname]
  induction addrs generalizing created head with
  | nil =>
    obtain rfl := Except.ok.inj h
    cases multiple
    · exact ⟨.nil, rfl⟩
    · exact ⟨.nil, rfl⟩
  | cons ip addrs ih =>
    unfold makeTargets at h
    obtain ⟨⟨i, ts⟩, hf, h⟩ := Loops.bind_eq_ok.1 h
    obtain ⟨t, ht, -, -⟩ := findOrMakeTarget_get port count hf
    simp only [ht, hmade] at h
    split_ifs at h with hm
    · obtain rfl := Except.ok.inj h
      have hmul : multiple = false := by simpa using hm.2
      rw [hmul]
      exact ⟨.cons hf ht .nil, rfl⟩
    · obtain ⟨hrest, hcreated⟩ := ih h
      rcases Bool.eq_false_or_eq_true multiple with hmul | hmul
      · rw [hmul] at hrest hcreated ⊢
        refine ⟨.cons hf ht hrest, ?_⟩
        simp only [if_true, List.length_cons] at hcreated ⊢
        omega
      · have haddrs : addrs = [] := by
          by_contra hne
          exact hm ⟨hne, by simp [hmul]⟩
        rw [hmul, haddrs] at hrest hcreated
        rw [hmul, haddrs]
        exact ⟨.cons hf ht hrest, hcreated⟩

/-- **What `make_target` does** to the target list, and what it returns. -/
theorem makeTarget_makes {head : List Target} {name : CString} {room : ℕ} {r : MakeTargetRes}
    (h : makeTarget res port dns displayIps multiple path count head name room = .ok r) :
    Makes port count (madeTarget res dns displayIps path count name) (hostAddrs res multiple name) head
      r.targets ∧ r.created = (hostAddrs res multiple name).length := by
  unfold makeTarget at h
  unfold hostAddrs
  cases hp : inetPton name with
  | some ip =>
    simp only [hp] at h
    obtain ⟨⟨i, ts⟩, hf, h⟩ := Loops.bind_eq_ok.1 h
    obtain ⟨t, ht, -, -⟩ := findOrMakeTarget_get port count hf
    simp only [ht] at h
    have hmade : madeTarget res dns displayIps path count name ip t = if dns then
        { setExport path count t with ndqf := reverseFqdn (setExport path count t).name }
        else literalTarget name (setExport path count t) := by
      simp [madeTarget, hp]
    cases dns with
    | false =>
      obtain rfl := Except.ok.inj h
      refine ⟨.cons hf ht ?_, rfl⟩
      rw [hmade]
      exact .nil
    | true =>
      cases hn : res.getnameinfo ip with
      | none => simp [hn] at h
      | some found =>
        simp only [hn, if_true] at h
        split_ifs at h
        obtain rfl := Except.ok.inj h
        refine ⟨.cons hf ht ?_, rfl⟩
        rw [hmade]
        exact .nil
  | none =>
    simp only [hp] at h
    cases hg : res.getaddrinfo name with
    | none => simp [hg] at h
    | some addrs =>
      simp only [hg] at h
      simpa using makeTargets_makes hp h

theorem Makes.touches {made : InAddr → Target → Target} {ips : List InAddr} {ts ts' : List Target}
    (hmade : ∀ ip t, Update path count t (made ip t)) (h : Makes port count made ips ts ts') :
    Touches port path count ips ts ts' := by
  induction h with
  | nil => exact .nil
  | cons hf ht _ ih => exact .cons hf ht (hmade _ _) ih

theorem makeTarget_touches {head : List Target} {name : CString} {room : ℕ} {r : MakeTargetRes}
    (h : makeTarget res port dns displayIps multiple path count head name room = .ok r) :
    Touches port path count (hostAddrs res multiple name) head r.targets :=
  (makeTarget_makes h).1.touches fun ip t => madeTarget_update name ip t

/-! ## Outcomes -/

/-- The name that is looked up for an address literal fits the memory of the literal. -/
def LookupFits (res : Resolver) (dns : Bool) (targetName : CString) (room : ℕ) : Prop :=
  dns = true → ∀ ip, inetPton targetName = some ip → ∀ name, res.getnameinfo ip = some name →
    name.length < room

/-- An update keeps the targets allocated. -/
theorem Allocated.set {ts : List Target} {t t' : Target} {i : ℕ} (hall : Allocated ts) (ht : ts[i]? = some t)
    (hu : Update path count t t') : Allocated (ts.set i t') := by
  intro u hmem
  rcases List.mem_or_eq_of_mem_set hmem with hmem | rfl
  · exact hall u hmem
  · exact hu.freed.trans (hall t (List.mem_of_getElem? ht))

theorem makeTargets_total {name : CString} {addrs : List InAddr} {created : ℕ} {head : List Target}
    (hname : inetPton name = none) (hall : Allocated head) :
    ∃ r, makeTargets res port dns displayIps multiple path count name addrs created head = .ok r ∧
      Allocated r.targets := by
  induction addrs generalizing created head with
  | nil => exact ⟨_, rfl, hall⟩
  | cons ip addrs ih =>
    obtain ⟨⟨i, ts⟩, hf⟩ := findOrMakeTarget_total port count ip hall
    obtain ⟨t, ht, -, -⟩ := findOrMakeTarget_get port count hf
    have hu : Update path count t (madeTarget res dns displayIps path count name ip t) :=
      madeTarget_update name ip t
    have hset := (findOrMakeTarget_allocated port count hall hf).set ht hu
    simp only [madeTarget, hname, Option.isSome_none, Bool.false_eq_true, if_false] at hset
    rw [makeTargets, hf]
    dsimp only [bind, Except.bind]
    rw [ht]
    dsimp only
    split_ifs
    · exact ⟨_, rfl, hset⟩
    · exact ih hset

/-- **What `make_target` can come to**, for a list without freed targets. -/
theorem makeTarget_cases {head : List Target} {name : CString} {room : ℕ} (hall : Allocated head) :
    (∃ r, makeTarget res port dns displayIps multiple path count head name room = .ok r ∧
        Allocated r.targets ∧ LookupFits res dns name room) ∨
      makeTarget res port dns displayIps multiple path count head name room = .error (.exit 2) ∨
      makeTarget res port dns displayIps multiple path count head name room = .error .outOfBounds ∧
        ¬ LookupFits res dns name room := by
  unfold makeTarget LookupFits
  cases hp : inetPton name with
  | some ip =>
    obtain ⟨⟨i, ts⟩, hf⟩ := findOrMakeTarget_total port count ip hall
    obtain ⟨t, ht, -, -⟩ := findOrMakeTarget_get port count hf
    have hts := findOrMakeTarget_allocated port count hall hf
    have hu : Update path count t (madeTarget res dns displayIps path count name ip t) :=
      madeTarget_update name ip t
    simp only [madeTarget, hp, Option.isSome_some, if_true] at hu
    dsimp only
    rw [hf]
    dsimp only [bind, Except.bind]
    rw [ht]
    dsimp only
    split_ifs at hu ⊢ with hdns
    · cases hg : res.getnameinfo ip with
      | none => exact .inr (.inl rfl)
      | some host =>
        dsimp only
        split_ifs with hroom
        · refine .inr (.inr ⟨rfl, fun hfits => ?_⟩)
          exact absurd (hfits hdns ip rfl host hg) (Nat.not_lt.2 hroom)
        · refine .inl ⟨_, rfl, hts.set ht hu, fun _ ip' hip name' hname' => ?_⟩
          obtain rfl := Option.some.inj hip
          obtain rfl := Option.some.inj (hg.symm.trans hname')
          exact Nat.lt_of_not_le hroom
    · exact .inl ⟨_, rfl, hts.set ht hu, fun h => absurd h hdns⟩
  | none =>
    dsimp only
    cases hg : res.getaddrinfo name with
    | none => exact .inr (.inl rfl)
    | some addrs =>
      obtain ⟨r, hr, hrall⟩ : ∃ r, makeTargets res port dns displayIps multiple path count name
          (addrs.1 :: addrs.2) 0 head = .ok r ∧ Allocated r.targets := makeTargets_total hp hall
      exact .inl ⟨r, hr, hrall, fun _ ip hip => absurd hip (by simp)⟩

/-! ## All targets -/

/-- A dummy entry without an address, and targets with one, of which `Q` holds. -/
def Headed (Q : Target → Prop) (ts : List Target) : Prop :=
  ∃ d rest, ts = d :: rest ∧ d.addr = none ∧ d.freed = false ∧
    ∀ t ∈ rest, t.addr ≠ none ∧ t.freed = false ∧ Q t

theorem headed_dummyTargets (Q : Target → Prop) : Headed Q dummyTargets :=
  ⟨{}, [], rfl, rfl, rfl, by simp⟩

/-- An update of the target that is found or made for an address. -/
theorem Headed.update {Q : Target → Prop} {ip : InAddr} {i : ℕ} {ts ts' : List Target} {t t' : Target}
    (hts : Headed Q ts) (hf : findOrMakeTarget ts ip port count = .ok (i, ts')) (ht : ts'[i]? = some t)
    (haddr : t'.addr = t.addr) (hfreed : t'.freed = t.freed)
    (hQ : Q t ∨ t = newTarget ip port count → Q t') : Headed Q (ts'.set i t') := by
  obtain ⟨d, rest, rfl, hd, hdf, hrest⟩ := hts
  rcases findOrMakeTarget_ok port count hf with ⟨rfl, u, hu, -, hua⟩ | ⟨rfl, rfl⟩
  · obtain rfl : u = t := Option.some.inj (hu.symm.trans ht)
    cases i with
    | zero =>
      obtain rfl : d = u := by simpa using ht
      simp [hd] at hua
    | succ i =>
      have hmem : u ∈ rest := List.mem_of_getElem? (by simpa using ht)
      obtain ⟨h1, h2, h3⟩ := hrest u hmem
      refine ⟨d, rest.set i t', rfl, hd, hdf, ?_⟩
      intro v hv
      rcases List.mem_or_eq_of_mem_set hv with hv | rfl
      · exact hrest v hv
      · exact ⟨haddr ▸ h1, hfreed.trans h2, hQ (.inl h3)⟩
  · obtain rfl : newTarget ip port count = t := by simpa using ht
    refine ⟨d, rest ++ [t'], by simp, hd, hdf, ?_⟩
    intro v hv
    rcases List.mem_append.1 hv with hv | hv
    · exact hrest v hv
    · obtain rfl := List.mem_singleton.1 hv
      exact ⟨by rw [haddr]; simp [newTarget, Target.addr], hfreed.trans rfl, hQ (.inr rfl)⟩

/-- The targets an update leads to keep a property that updates keep and new targets have. -/
theorem Touches.headed {Q : Target → Prop} {ips : List InAddr} {ts ts' : List Target}
    (h : Touches port path count ips ts ts') (hnew : ∀ ip, Q (newTarget ip port count))
    (hupd : ∀ t t', Update path count t t' → Q t → Q t') (hts : Headed Q ts) : Headed Q ts' := by
  induction h with
  | nil => exact hts
  | @cons ip ips i ts ts₁ ts₂ t t' hf ht hu h ih =>
    refine ih (hts.update hf ht hu.addr hu.freed ?_)
    rintro (hQ | rfl)
    · exact hupd t t' hu hQ
    · exact hupd _ t' hu (hnew ip)

/-- The targets that are made keep a property that new targets have. -/
theorem Makes.headed {Q : Target → Prop} {made : InAddr → Target → Target} {ips : List InAddr}
    {ts ts' : List Target} (h : Makes port count made ips ts ts')
    (hnew : ∀ ip, Q (newTarget ip port count)) (hmade : ∀ ip t, Update path count t (made ip t))
    (hupd : ∀ ip t, Q t → Q (made ip t)) (hts : Headed Q ts) : Headed Q ts' := by
  induction h with
  | nil => exact hts
  | @cons ip ips i ts ts₁ ts₂ t hf ht h ih =>
    refine ih (hts.update hf ht (hmade ip t).addr (hmade ip t).freed ?_)
    rintro (hQ | rfl)
    · exact hupd ip t hQ
    · exact hupd ip _ (hnew ip)

/-! ## The target of an address -/

/-- The target with the address `a`. -/
def lookupAddr (a : InAddr) (ts : List Target) : Option Target := ts.find? (·.addr = some a)

theorem findTargetByIp_none {ip : InAddr} {ts : List Target} (h : findTargetByIp ip ts = .ok none) :
    lookupAddr ip ts = none := by
  induction ts with
  | nil => rfl
  | cons t ts ih =>
    obtain ⟨-, ⟨-, hr⟩ | ⟨ha, r, hr, hr'⟩⟩ := findTargetByIp_cons.1 h
    · simp at hr
    · obtain rfl : r = none := by simpa using hr'.symm
      simpa [lookupAddr, ha] using ih hr

/-- Updating the target found changes what its address leads to, and nothing else. -/
theorem lookupAddr_set_found {ip : InAddr} {ts : List Target} {i : ℕ} {t : Target}
    (h : findTargetByIp ip ts = .ok (some i)) (ht : t.addr = some ip) (a : InAddr) :
    lookupAddr a (ts.set i t) = if a = ip then some t else lookupAddr a ts := by
  induction ts generalizing i with
  | nil => simp [findTargetByIp] at h
  | cons u ts ih =>
    obtain ⟨-, ⟨hu, hi⟩ | ⟨hu, r, hr, hi⟩⟩ := findTargetByIp_cons.1 h
    · obtain rfl : i = 0 := by simpa using hi
      by_cases ha : a = ip
      · simp [lookupAddr, ht, ha]
      · have hne : ¬ ip = a := fun e => ha e.symm
        simp [lookupAddr, ht, ha, hu, hne]
    · cases r with
      | none => simp at hi
      | some j =>
        obtain rfl : i = j + 1 := by simpa using hi
        have ih := ih hr
        by_cases hua : u.addr = some a
        · have hne : a ≠ ip := by
            rintro rfl
            exact hu hua
          simp [lookupAddr, hua, hne]
        · simpa [lookupAddr, hua] using ih

/-- Whether found or made: after the update the address leads to the updated target, and every
    other address to what it led to before. -/
theorem lookupAddr_set {ip : InAddr} {ts ts' : List Target} {i : ℕ} {t : Target}
    (hf : findOrMakeTarget ts ip port count = .ok (i, ts')) (ht : t.addr = some ip) (a : InAddr) :
    lookupAddr a (ts'.set i t) = if a = ip then some t else lookupAddr a ts := by
  rcases findOrMakeTarget_cases port count hf with ⟨hfound, rfl⟩ | ⟨hr, rfl, rfl⟩
  · exact lookupAddr_set_found hfound ht a
  · have hnone := findTargetByIp_none hr
    rw [List.set_append_right _ _ (le_refl _), Nat.sub_self, List.set_cons_zero]
    by_cases ha : a = ip
    · subst ha
      simp only [lookupAddr] at hnone ⊢
      simp [List.find?_append, hnone, ht]
    · have hne : ¬ ip = a := fun e => ha e.symm
      simp [lookupAddr, List.find?_append, ht, ha, hne]

/-- The paths of the exports of the target with address `a`. -/
def pathsAt (a : InAddr) (ts : List Target) : Option (List CString) :=
  (lookupAddr a ts).map fun t => t.exports.map (·.path)

/-- **Only the last path counts**: a call with a path replaces the exports of every target it
    touches. -/
theorem Touches.pathsAt {p : CString} {ips : List InAddr} {ts ts' : List Target}
    (h : Touches port (some p) count ips ts ts') (a : InAddr) :
    pathsAt a ts' = if a ∈ ips then some [strncpy MNTPATHLEN p] else pathsAt a ts := by
  induction h with
  | nil => simp
  | @cons ip ips i ts ts₁ ts₂ t t' hf ht hu h ih =>
    obtain ⟨t₁, ht₁, -, haddr⟩ := findOrMakeTarget_get port count hf
    obtain rfl : t₁ = t := Option.some.inj (ht₁.symm.trans ht)
    rw [ih]
    by_cases ha : a ∈ ips
    · simp [ha]
    · rw [if_neg ha, NFStash.pathsAt, lookupAddr_set hf (hu.addr.trans haddr)]
      by_cases hip : a = ip
      · simp [hip, hu.exports, setExport, initExport]
      · simp [ha, hip, NFStash.pathsAt]

end

end NFStash
