/-
  The names of a target.

  `make_target` fills in the name, the name for output and the reversed name of a target on several
  branches.  All of them leave the target `NamedTarget`, except that for an address literal with reverse
  lookups, which sets `ndqf` only: the name that is found is written over the argument.  So the
  targets of a call are named unless it makes a target for such a literal, or finds one
  without names (`makeTarget_named_iff`).
-/
import NFStash.MakeTarget

namespace NFStash

open CLib Loops

/-- The names that the callers print: one that is not empty, a name for output, and the reversed
    name, which for an address is the name itself. -/
structure NamedTarget (t : Target) : Prop where
  name : t.name ≠ []
  displayName : t.displayName = .name ∨ t.displayName = .ipAddress
  ndqf : t.ndqf = reverseFqdn t.name

/-- The address strings are those of the socket addresses. -/
def Addressed (ts : List Target) : Prop := ∀ t ∈ ts, ∀ ip, t.addr = some ip → t.ipAddress = inetNtop ip

/-- No empty names in either direction. -/
structure NonemptyNames (res : Resolver) : Prop where
  getaddrinfo : res.getaddrinfo [] = none
  getnameinfo : ∀ ip, res.getnameinfo ip ≠ some []

section
variable {res : Resolver} {port : UInt16} {dns displayIps multiple : Bool} {path : Option CString}
  {count room i : ℕ} {targetName : CString} {ip : InAddr} {t : Target} {ts ts' head : List Target}

/-! ## One target -/

theorem reverseFqdn_addr {s : CString} (h : (inetPton s).isSome) : reverseFqdn s = .name := by
  rw [reverseFqdn, if_pos h]

theorem setExport_name : (setExport path count t).name = t.name := by
  cases path with
  | none => rfl
  | some path => rfl

theorem setExport_displayName : (setExport path count t).displayName = t.displayName := by
  cases path with
  | none => rfl
  | some path => rfl

theorem setExport_ipAddress : (setExport path count t).ipAddress = t.ipAddress := by
  cases path with
  | none => rfl
  | some path => rfl

theorem literalTarget_named (h : inetPton targetName = some ip) :
    NamedTarget (literalTarget targetName t) := by
  have haddr : (inetPton targetName).isSome := by rw [h, Option.isSome_some]
  have hlen : targetName.length ≤ INET_ADDRSTRLEN := (inetPton_length haddr).trans (by decide)
  have hname : (literalTarget targetName t).name = targetName := strncpy_of_lt hlen
  refine ⟨?_, .inl rfl, ?_⟩
  · rw [hname]
    rintro rfl
    cases h
  · rw [hname, reverseFqdn_addr haddr]
    rfl

theorem resolvedTarget_named (hres : NonemptyNames res) (hname : targetName ≠ [])
    (hip : t.ipAddress = inetNtop ip) :
    NamedTarget (resolvedTarget res dns displayIps targetName ip t) := by
  have hdisplay : ∀ b : Bool, (if b then DisplayName.ipAddress else .name) = .name ∨
      (if b then DisplayName.ipAddress else .name) = .ipAddress := by decide
  unfold resolvedTarget
  cases dns with
  | false =>
    have hne : strncpy NI_MAXHOST targetName ≠ [] := by
      obtain ⟨c, cs, rfl⟩ := List.exists_cons_of_ne_nil hname
      exact List.cons_ne_nil c _
    exact ⟨hne, hdisplay displayIps, rfl⟩
  | true =>
    cases hn : res.getnameinfo ip with
    | none =>
      have haddr : (inetPton (inetNtop ip)).isSome := by rw [inetPton_inetNtop, Option.isSome_some]
      have hcopy : strncpy INET_ADDRSTRLEN (inetNtop ip) = inetNtop ip :=
        strncpy_of_lt ((inetPton_length haddr).trans (by decide))
      refine ⟨?_, hdisplay displayIps, ?_⟩
      · change strncpy INET_ADDRSTRLEN t.ipAddress ≠ []
        rw [hip, hcopy]
        intro hnil
        rw [hnil] at haddr
        cases haddr
      · change Ndqf.name = reverseFqdn (strncpy INET_ADDRSTRLEN t.ipAddress)
        rw [hip, hcopy, reverseFqdn_addr haddr]
    | some name =>
      have hne : name ≠ [] := by
        rintro rfl
        exact hres.getnameinfo ip hn
      exact ⟨hne, hdisplay displayIps, rfl⟩

theorem madeTarget_ipAddress :
    (madeTarget res dns displayIps path count targetName ip t).ipAddress = t.ipAddress := by
  obtain ⟨name, displayName, ndqf, heq⟩ := madeTarget_eq targetName ip t
  rw [heq]
  exact setExport_ipAddress

/-! ## The targets of a call -/

/-- The target that is found, or the one that is made. -/
theorem findOrMakeTarget_lookup (hf : findOrMakeTarget ts ip port count = .ok (i, ts'))
    (ht : ts'[i]? = some t) : t = (lookupAddr ip ts).getD (newTarget ip port count) := by
  obtain ⟨u, hu, -, haddr⟩ := findOrMakeTarget_get port count hf
  obtain rfl : u = t := Option.some.inj (hu.symm.trans ht)
  have hset : ts'.set i u = ts' := by
    obtain ⟨hi, hget⟩ := List.getElem?_eq_some_iff.1 ht
    rw [← hget, List.set_getElem_self]
  have hlookup := lookupAddr_set hf haddr ip
  rw [hset, if_pos rfl] at hlookup
  rcases findOrMakeTarget_cases port count hf with ⟨-, rfl⟩ | ⟨hr, rfl, rfl⟩
  · rw [hlookup, Option.getD_some]
  · rw [findTargetByIp_none hr, Option.getD_none]
    rw [List.getElem?_concat_length] at ht
    exact (Option.some.inj ht).symm

theorem Addressed.findOrMake (hts : Addressed ts)
    (hf : findOrMakeTarget ts ip port count = .ok (i, ts')) : Addressed ts' := by
  rcases findOrMakeTarget_ok port count hf with ⟨rfl, -⟩ | ⟨-, rfl⟩
  · exact hts
  · intro t ht a ha
    rcases List.mem_append.1 ht with ht | ht
    · exact hts t ht a ha
    · obtain rfl := List.mem_singleton.1 ht
      obtain rfl : ip = a := Option.some.inj ha
      rfl

theorem Addressed.set {t' : Target} (hts : Addressed ts) (ht : ts[i]? = some t)
    (haddr : t'.addr = t.addr) (hip : t'.ipAddress = t.ipAddress) : Addressed (ts.set i t') := by
  intro u hu a ha
  rcases List.mem_or_eq_of_mem_set hu with hu | rfl
  · exact hts u hu a ha
  · rw [hip]
    exact hts t (List.mem_of_getElem? ht) a (haddr ▸ ha)

/-- What holds of every target that is made holds of the targets the addresses lead to; the other
    addresses lead to what they led to before. -/
theorem Makes.lookup {P : Target → Prop} {made : InAddr → Target → Target} {ips : List InAddr}
    (haddr : ∀ ip t, (made ip t).addr = t.addr) (hip : ∀ ip t, (made ip t).ipAddress = t.ipAddress)
    (hP : ∀ ip t, t.ipAddress = inetNtop ip → P (made ip t)) (hts : Addressed ts)
    (h : Makes port count made ips ts ts') :
    Addressed ts' ∧ ∀ a, (a ∈ ips → ∃ t, lookupAddr a ts' = some t ∧ P t) ∧
      (a ∉ ips → lookupAddr a ts' = lookupAddr a ts) := by
  induction h with
  | nil => exact ⟨hts, fun a => ⟨fun ha => (List.not_mem_nil ha).elim, fun _ => rfl⟩⟩
  | @cons ip ips i ts ts₁ ts₂ t hf ht h ih =>
    have hts₁ := hts.findOrMake hf
    obtain ⟨u, hu, -, hua⟩ := findOrMakeTarget_get port count hf
    obtain rfl : u = t := Option.some.inj (hu.symm.trans ht)
    obtain ⟨hts₂, hlookup⟩ := ih (hts₁.set ht (haddr ip u) (hip ip u))
    have hset := lookupAddr_set hf ((haddr ip u).trans hua)
    refine ⟨hts₂, fun a => ⟨fun ha => ?_, fun ha => ?_⟩⟩
    · by_cases hmem : a ∈ ips
      · exact (hlookup a).1 hmem
      · obtain rfl : a = ip := (List.mem_cons.1 ha).resolve_right hmem
        refine ⟨made a u, ?_, hP a u (hts₁ u (List.mem_of_getElem? ht) a hua)⟩
        rw [(hlookup a).2 hmem, hset, if_pos rfl]
    · obtain ⟨hne, hmem⟩ := not_or.1 (List.mem_cons.not.1 ha)
      rw [(hlookup a).2 hmem, hset, if_neg hne]

/-- With `ndqf` set only, the names have to be there. -/
theorem named_ndqf :
    NamedTarget { setExport path count t with ndqf := reverseFqdn (setExport path count t).name } ↔
      t.name ≠ [] ∧ t.displayName ≠ .null := by
  constructor
  · rintro ⟨hname, hdisplay, -⟩
    dsimp only at hname hdisplay
    rw [setExport_name] at hname
    rw [setExport_displayName] at hdisplay
    refine ⟨hname, fun hnull => ?_⟩
    rw [hnull] at hdisplay
    rcases hdisplay with h | h
    · cases h
    · cases h
  · rintro ⟨hname, hdisplay⟩
    refine ⟨?_, ?_, rfl⟩
    · dsimp only
      rwa [setExport_name]
    · dsimp only
      rw [setExport_displayName]
      cases hd : t.displayName with
      | null => exact absurd hd hdisplay
      | name => exact .inl rfl
      | ipAddress => exact .inr rfl

/-- One address: it leads to what is made of the target it led to before, or of a new one. -/
theorem Makes.lookup_single {made : InAddr → Target → Target} (haddr : ∀ ip t, (made ip t).addr = t.addr)
    (h : Makes port count made [ip] ts ts') :
    lookupAddr ip ts' = some (made ip ((lookupAddr ip ts).getD (newTarget ip port count))) := by
  cases h with
  | cons hf ht hnil =>
    cases hnil
    obtain ⟨u, hu, -, hua⟩ := findOrMakeTarget_get port count hf
    obtain rfl := Option.some.inj (hu.symm.trans ht)
    rw [lookupAddr_set hf ((haddr ip u).trans hua) ip, if_pos rfl, findOrMakeTarget_lookup hf ht]

/-- **When the targets of a call are named**: with reverse lookups, the target of an address literal
    has to be in the list already, with names. -/
theorem makeTarget_named_iff {r : MakeTargetRes} (hres : NonemptyNames res) (hhead : Addressed head)
    (h : makeTarget res port dns displayIps multiple path count head targetName room = .ok r) :
    Addressed r.targets ∧
      ((∀ a ∈ hostAddrs res multiple targetName, ∃ t, lookupAddr a r.targets = some t ∧ NamedTarget t) ↔
        (dns = true → ∀ ip, inetPton targetName = some ip →
          ∃ t, lookupAddr ip head = some t ∧ t.name ≠ [] ∧ t.displayName ≠ .null)) := by
  obtain ⟨hmakes, -⟩ := makeTarget_makes h
  have haddr : ∀ ip t, (madeTarget res dns displayIps path count targetName ip t).addr = t.addr :=
    fun ip t => (madeTarget_update targetName ip t).addr
  have hip : ∀ ip t,
      (madeTarget res dns displayIps path count targetName ip t).ipAddress = t.ipAddress :=
    fun ip t => madeTarget_ipAddress
  refine ⟨(hmakes.lookup (P := fun _ => True) haddr hip (fun _ _ _ => trivial) hhead).1, ?_⟩
  cases hp : inetPton targetName with
  | none =>
    have hname : targetName ≠ [] := by
      rintro rfl
      unfold makeTarget at h
      simp only [hp, hres.getaddrinfo] at h
      cases h
    refine ⟨fun _ _ ip hsome => absurd hsome (Option.some_ne_none ip).symm, fun _ a ha => ?_⟩
    refine ((hmakes.lookup haddr hip (fun ip t ht => ?_) hhead).2 a).1 ha
    have hmade : madeTarget res dns displayIps path count targetName ip t =
        resolvedTarget res dns displayIps targetName ip (setExport path count t) := by
      rw [madeTarget, if_neg (by rw [hp]; exact Bool.false_ne_true)]
    rw [hmade]
    exact resolvedTarget_named hres hname (setExport_ipAddress.trans ht)
  | some ip =>
    have hsome : (inetPton targetName).isSome := by rw [hp, Option.isSome_some]
    have haddrs : hostAddrs res multiple targetName = [ip] := by simp only [hostAddrs, hp]
    cases dns with
    | false =>
      refine ⟨fun _ hdns => absurd hdns Bool.false_ne_true, fun _ a ha => ?_⟩
      refine ((hmakes.lookup haddr hip (fun ip' t ht => ?_) hhead).2 a).1 ha
      rw [madeTarget, if_pos hsome, if_neg Bool.false_ne_true]
      exact literalTarget_named hp
    | true =>
      rw [haddrs] at hmakes ⊢
      have hmade : ∀ t, madeTarget res true displayIps path count targetName ip t =
          { setExport path count t with ndqf := reverseFqdn (setExport path count t).name } := by
        intro t
        rw [madeTarget, if_pos hsome, if_pos rfl]
      have hlookup := hmakes.lookup_single haddr
      rw [hmade] at hlookup
      constructor
      · rintro hall - ip' hip'
        obtain rfl := Option.some.inj hip'
        obtain ⟨t, ht, hnamed⟩ := hall ip (List.mem_singleton_self ip)
        rw [← Option.some.inj (hlookup.symm.trans ht), named_ndqf] at hnamed
        cases hfound : lookupAddr ip head with
        | none =>
          rw [hfound] at hnamed
          exact absurd rfl hnamed.1
        | some u =>
          rw [hfound] at hnamed
          exact ⟨u, rfl, hnamed⟩
      · intro hfound a ha
        obtain rfl := List.mem_singleton.1 ha
        obtain ⟨t, ht, hnames⟩ := hfound rfl a rfl
        refine ⟨_, hlookup, named_ndqf.2 ?_⟩
        rwa [ht]

end

/-- One host, in both directions. -/
private def oneHost : Resolver where
  getaddrinfo name := if name = "h".toList then some (⟨10, 0, 0, 1⟩, []) else none
  getnameinfo _ := some "h".toList

private def hostCall (head : List Target) (targetName : CString) : Except Fault MakeTargetRes :=
  makeTarget oneHost 2049 true false false none 0 head targetName 9

/-- The name and then the address: the target is found, with its names. -/
theorem makeTarget_named_iff_found : ∃ r r', hostCall dummyTargets "h".toList = .ok r ∧
    hostCall r.targets "10.0.0.1".toList = .ok r' ∧
      ∃ t, lookupAddr ⟨10, 0, 0, 1⟩ r'.targets = some t ∧ NamedTarget t := by
  have hruns : ∃ r r', hostCall dummyTargets "h".toList = .ok r ∧
      hostCall r.targets "10.0.0.1".toList = .ok r' := ⟨_, _, rfl, rfl⟩
  obtain ⟨r, r', h, h'⟩ := hruns
  have hres : NonemptyNames oneHost := ⟨rfl, fun _ hnil => by cases hnil⟩
  have hdummy : Addressed dummyTargets := by
    intro t ht ip hip
    obtain rfl := List.mem_singleton.1 ht
    cases hip
  obtain ⟨haddr, hnamed⟩ := makeTarget_named_iff hres hdummy h
  obtain ⟨t, ht, hnames⟩ := hnamed.2 (fun _ ip hip => by cases hip) ⟨10, 0, 0, 1⟩ (by decide)
  refine ⟨r, r', h, h', ?_⟩
  refine (makeTarget_named_iff hres haddr h').2.2 (fun _ ip hip => ?_) ⟨10, 0, 0, 1⟩ (by decide)
  obtain rfl : ⟨10, 0, 0, 1⟩ = ip := Option.some.inj (Eq.trans (by decide) hip)
  refine ⟨t, ht, hnames.name, fun hnull => ?_⟩
  rcases hnames.displayName with hd | hd
  · cases hnull.symm.trans hd
  · cases hnull.symm.trans hd

/-- The address alone: no name, and no name for output. -/
theorem makeTarget_unnamed : ∃ r t, hostCall dummyTargets "10.0.0.1".toList = .ok r ∧
    lookupAddr ⟨10, 0, 0, 1⟩ r.targets = some t ∧ t.name = [] ∧ t.displayName = .null ∧
      ¬ ∀ a ∈ hostAddrs oneHost false "10.0.0.1".toList,
        ∃ t, lookupAddr a r.targets = some t ∧ NamedTarget t := by
  refine ⟨_, _, rfl, rfl, rfl, rfl, fun hall => ?_⟩
  obtain ⟨t, ht, hnamed⟩ := hall ⟨10, 0, 0, 1⟩ (by decide)
  obtain rfl := Option.some.inj ht
  exact hnamed.name rfl

end NFStash
