/-
  The arguments of `nfsmount`.

  An argument is `host:path`; `strtok` splits it at every colon, and `make_target` gives each
  target of the host an export with the path, in place of the export it has.  So the path is
  cut off at a colon, and of the arguments with a common address the last one counts.  With `-d` the name
  of an address literal is looked up into the argument itself, and a longer one is written over the
  arguments after it.  `mountArgs_keeps_iff` says that all paths are kept iff there is none of these.
-/
import NFStash.MakeTarget
import NFStash.Mount

namespace NFStash

open CLib

/-- An argument of the form `host:path`. -/
structure HostPath where
  host : CString
  path : CString
  host_ne : host ≠ []
  noColon : ':' ∉ host
  abs : path.head? = some '/'
  fits : path.length < MNTPATHLEN

namespace HostPath
variable (x : HostPath)

/-- The text of the argument. -/
def arg : CString := x.host ++ ':' :: x.path

/-- The path up to the next colon. -/
def token : CString := x.path.takeWhile (· != ':')

/-- The name that `-d` finds for an address literal fits the memory of the argument. -/
def LookupFits (cfg : MountConfig) (res : Resolver) : Prop :=
  NFStash.LookupFits res cfg.dns x.host (x.arg.length + 1)

/-- The addresses of the host. -/
def addrs (cfg : MountConfig) (res : Resolver) : List InAddr := hostAddrs res cfg.multiple x.host

/-- `strtok` finds the host, and the path up to the next colon. -/
theorem tokens_arg : ∃ rest, tokens ':' x.arg = x.host :: rest ∧ rest.head? = some x.token := by
  refine ⟨_, tokens_append x.host_ne x.noColon x.path, ?_⟩
  obtain ⟨cs, hcs⟩ : ∃ cs, x.path = '/' :: cs := List.head?_eq_some_iff.1 x.abs
  rw [token, hcs]
  exact tokens_head? (by decide) cs

/-- The host is at the start of the argument. -/
theorem dropWhile_arg : x.arg.dropWhile (· == ':') = x.arg := by
  obtain ⟨c, cs, hc⟩ := List.exists_cons_of_ne_nil x.host_ne
  have hne : c ≠ ':' := ne_of_mem_of_not_mem (hc ▸ List.mem_cons_self) x.noColon
  rw [arg, hc, List.cons_append, List.dropWhile_cons_of_neg (by simpa using hne)]

theorem token_eq_iff : x.token = x.path ↔ ':' ∉ x.path := by
  rw [token, List.takeWhile_eq_self_iff]
  constructor
  · intro h hm
    simpa using h _ hm
  · exact ne_of_notMem

theorem colon_notMem_token : ':' ∉ x.token := fun h => by
  simpa using List.mem_takeWhile_imp h

theorem strncpy_token : strncpy MNTPATHLEN x.token = x.token :=
  strncpy_of_lt ((List.takeWhile_sublist _).length_le.trans x.fits.le)

end HostPath

/-! ## The loop over the arguments -/

section
variable {cfg : MountConfig} {res : Resolver} {ts ts' : List Target} {x : HostPath}
  {items : List HostPath}

/-- A host for which `make_target` returns has an address. -/
theorem makeTarget_hostAddrs_ne {port : UInt16} {dns displayIps multiple : Bool} {path : Option CString}
    {count room : ℕ} {name : CString} {r : MakeTargetRes}
    (h : makeTarget res port dns displayIps multiple path count ts name room = .ok r) :
    hostAddrs res multiple name ≠ [] := by
  unfold hostAddrs
  unfold makeTarget at h
  cases hp : inetPton name with
  | some ip => simp
  | none =>
    cases hg : res.getaddrinfo name with
    | none => simp [hp, hg] at h
    | some addrs => cases multiple <;> simp

/-- One argument: the targets of its host get the token for a path. -/
theorem mountArgs_cons {args : List CString} (h : mountArgs cfg res ts (x.arg :: args) = .ok ts') :
    ∃ ts₁, x.addrs cfg res ≠ [] ∧ Touches cfg.port (some x.token) cfg.count (x.addrs cfg res) ts ts₁ ∧
      mountArgs cfg res ts₁ args = .ok ts' := by
  obtain ⟨rest, htok, hrest⟩ := x.tokens_arg
  simp only [mountArgs, htok, hrest, Loops.bind_eq_ok] at h
  obtain ⟨-, -, r, hr, h⟩ := h
  exact ⟨r.targets, makeTarget_hostAddrs_ne hr, makeTarget_touches hr, h⟩

/-- A path is accepted, or the program exits. -/
theorem checkPath_cases (path : Option CString) :
    checkPath cfg path = .ok () ∨ checkPath cfg path = .error (.exit 3) := by
  cases path with
  | none => exact .inl rfl
  | some path =>
    unfold checkPath
    dsimp only
    split_ifs
    · exact .inr rfl
    · exact .inl rfl

/-- **What the loop can come to**: it exits, it writes past an argument, or all names fit. -/
theorem mountArgs_cases (hall : Allocated ts) :
    (∃ ts', mountArgs cfg res ts (items.map HostPath.arg) = .ok ts' ∧ ∀ x ∈ items, x.LookupFits cfg res) ∨
      (∃ status, mountArgs cfg res ts (items.map HostPath.arg) = .error (.exit status)) ∨
      mountArgs cfg res ts (items.map HostPath.arg) = .error .outOfBounds ∧
        ¬ ∀ x ∈ items, x.LookupFits cfg res := by
  induction items generalizing ts with
  | nil => exact .inl ⟨ts, rfl, by simp⟩
  | cons x items ih =>
    obtain ⟨rest, htok, hrest⟩ := x.tokens_arg
    have hx : mountArgs cfg res ts ((x :: items).map HostPath.arg) = (do
        checkPath cfg (some x.token)
        let r ← makeTarget res cfg.port cfg.dns cfg.ip cfg.multiple (some x.token) cfg.count ts x.host
          (x.arg.length + 1)
        mountArgs cfg res r.targets (items.map HostPath.arg)) := by
      simp only [List.map_cons, mountArgs, htok, hrest, x.dropWhile_arg]
    rw [hx, List.forall_mem_cons]
    rcases checkPath_cases (some x.token) with hp | hp
    · rw [hp]
      rcases makeTarget_cases hall with ⟨r, hr, hrall, hfits⟩ | hr | ⟨hr, hfits⟩
      · rw [hr]
        rcases ih hrall with ⟨ts', h, hall'⟩ | ⟨status, h⟩ | ⟨h, hnot⟩
        · exact .inl ⟨ts', h, hfits, hall'⟩
        · exact .inr (.inl ⟨status, h⟩)
        · exact .inr (.inr ⟨h, fun hfit => hnot hfit.2⟩)
      · rw [hr]
        exact .inr (.inl ⟨2, rfl⟩)
      · rw [hr]
        exact .inr (.inr ⟨rfl, fun hfit => hfits hfit.1⟩)
    · rw [hp]
      exact .inr (.inl ⟨3, rfl⟩)

/-- **One argument wins** at each address that any of them has. -/
theorem mountArgs_pathsAt (h : mountArgs cfg res ts (items.map HostPath.arg) = .ok ts') (a : InAddr) :
    ((∀ x ∈ items, a ∉ x.addrs cfg res) ∧ pathsAt a ts' = pathsAt a ts) ∨
      ∃ x ∈ items, a ∈ x.addrs cfg res ∧ pathsAt a ts' = some [x.token] := by
  induction items generalizing ts with
  | nil =>
    obtain rfl := Except.ok.inj h
    exact .inl ⟨by simp, rfl⟩
  | cons x items ih =>
    obtain ⟨ts₁, -, htouch, hrest⟩ := mountArgs_cons h
    have hx := htouch.pathsAt a
    rw [x.strncpy_token] at hx
    rcases ih hrest with ⟨hnone, heq⟩ | ⟨y, hy, ha, heq⟩
    · by_cases ha : a ∈ x.addrs cfg res
      · exact .inr ⟨x, List.mem_cons_self .., ha, by rw [heq, hx, if_pos ha]⟩
      · exact .inl ⟨List.forall_mem_cons.2 ⟨ha, hnone⟩, by rw [heq, hx, if_neg ha]⟩
    · exact .inr ⟨y, List.mem_cons_of_mem _ hy, ha, heq⟩

theorem mountArgs_addrs_ne (h : mountArgs cfg res ts (items.map HostPath.arg) = .ok ts') :
    ∀ x ∈ items, x.addrs cfg res ≠ [] := by
  induction items generalizing ts with
  | nil => simp
  | cons x items ih =>
    obtain ⟨ts₁, hne, -, hrest⟩ := mountArgs_cons h
    exact List.forall_mem_cons.2 ⟨hne, ih hrest⟩

end

/-! ## Which paths are kept -/

/-- At every address of the host there is an export with the path of the argument. -/
def HostPath.Kept (cfg : MountConfig) (res : Resolver) (ts : List Target) (x : HostPath) : Prop :=
  ∀ a ∈ x.addrs cfg res, ∃ paths, pathsAt a ts = some paths ∧ x.path ∈ paths

/-- After the loop all paths are there iff there is no colon in any of them, and arguments that share an
    address have the same path. -/
theorem mountArgs_kept {cfg : MountConfig} {res : Resolver} {items : List HostPath} {ts : List Target}
    (h : mountArgs cfg res dummyTargets (items.map HostPath.arg) = .ok ts) :
    (∀ x ∈ items, x.Kept cfg res ts) ↔
      (∀ x ∈ items, ':' ∉ x.path) ∧
      ∀ x ∈ items, ∀ y ∈ items, ∀ a, a ∈ x.addrs cfg res → a ∈ y.addrs cfg res → x.path = y.path := by
  -- what an address of one of the arguments leads to
  have hat : ∀ x ∈ items, ∀ a ∈ x.addrs cfg res,
      ∃ z ∈ items, a ∈ z.addrs cfg res ∧ pathsAt a ts = some [z.token] := by
    intro x hx a ha
    rcases mountArgs_pathsAt h a with ⟨hnone, -⟩ | hz
    · exact absurd ha (hnone x hx)
    · exact hz
  constructor
  · intro hkept
    have htok : ∀ x ∈ items, ∀ a ∈ x.addrs cfg res, ∀ z, pathsAt a ts = some [HostPath.token z] →
        x.path = z.token := by
      intro x hx a ha z hz
      obtain ⟨paths, hp, hm⟩ := hkept x hx a ha
      obtain rfl := Option.some.inj (hz.symm.trans hp)
      exact List.mem_singleton.1 hm
    constructor
    · intro x hx
      obtain ⟨a, ha⟩ := List.exists_mem_of_ne_nil _ (mountArgs_addrs_ne h x hx)
      obtain ⟨z, -, -, hz⟩ := hat x hx a ha
      rw [htok x hx a ha z hz]
      exact z.colon_notMem_token
    · intro x hx y hy a hax hay
      obtain ⟨z, -, -, hz⟩ := hat x hx a hax
      rw [htok x hx a hax z hz, htok y hy a hay z hz]
  · rintro ⟨hcolon, hsame⟩ x hx a ha
    obtain ⟨z, hz, haz, hp⟩ := hat x hx a ha
    refine ⟨_, hp, List.mem_singleton.2 ?_⟩
    rw [hsame x hx z hz a ha haz]
    exact (z.token_eq_iff.2 (hcolon z hz)).symm

/-- **All paths are kept** iff there is no colon in any of them, arguments that share an address have the
    same path, and no name that is looked up for an address literal is longer than its argument. -/
theorem mountArgs_keeps_iff (cfg : MountConfig) (res : Resolver) (items : List HostPath)
    (h : ∀ status, mountArgs cfg res dummyTargets (items.map HostPath.arg) ≠ .error (.exit status)) :
    (∃ ts, mountArgs cfg res dummyTargets (items.map HostPath.arg) = .ok ts ∧
        ∀ x ∈ items, x.Kept cfg res ts) ↔
      (∀ x ∈ items, x.LookupFits cfg res) ∧ (∀ x ∈ items, ':' ∉ x.path) ∧
      ∀ x ∈ items, ∀ y ∈ items, ∀ a, a ∈ x.addrs cfg res → a ∈ y.addrs cfg res → x.path = y.path := by
  rcases mountArgs_cases dummyTargets_allocated with ⟨ts, hts, hfits⟩ | ⟨status, hexit⟩ | ⟨hover, hnot⟩
  · have hkept := mountArgs_kept hts
    constructor
    · rintro ⟨ts', hts', hall⟩
      obtain rfl := Except.ok.inj (hts.symm.trans hts')
      exact ⟨hfits, hkept.1 hall⟩
    · rintro ⟨-, hpaths⟩
      exact ⟨ts, hts, hkept.2 hpaths⟩
  · exact absurd hexit (h status)
  · constructor
    · rintro ⟨ts, hts, -⟩
      rw [hover] at hts
      exact absurd hts (by simp)
    · rintro ⟨hfits, -⟩
      exact absurd hfits hnot

/-- `10.0.0.1:path`. -/
def onHost (path : CString) (abs : path.head? = some '/') (fits : path.length < MNTPATHLEN) :
    HostPath where
  host := "10.0.0.1".toList
  path := path
  host_ne := by decide
  noColon := by decide
  abs := abs
  fits := fits

/-- Two arguments for one address. -/
def sameHost : List HostPath :=
  [onHost "/a".toList (by decide) (by decide), onHost "/b".toList (by decide) (by decide)]

/-- A path with a colon. -/
def colonPath : List HostPath := [onHost "/a:b".toList (by decide) (by decide)]

theorem mountArgs_keeps_iff_sameHost :
    (∃ ts, mountArgs {} noNames dummyTargets (sameHost.map HostPath.arg) = .ok ts ∧
        ∀ x ∈ sameHost, x.Kept {} noNames ts) ↔
      (∀ x ∈ sameHost, x.LookupFits {} noNames) ∧ (∀ x ∈ sameHost, ':' ∉ x.path) ∧
      ∀ x ∈ sameHost, ∀ y ∈ sameHost, ∀ a,
        a ∈ x.addrs {} noNames → a ∈ y.addrs {} noNames → x.path = y.path :=
  mountArgs_keeps_iff {} noNames sameHost fun status h => by
    have hok : ∃ ts, mountArgs {} noNames dummyTargets (sameHost.map HostPath.arg) = .ok ts := ⟨_, rfl⟩
    obtain ⟨ts, hts⟩ := hok
    rw [hts] at h
    exact absurd h (by simp)

/-- Of `10.0.0.1:/a 10.0.0.1:/b` only `/b` is left, and of `10.0.0.1:/a:b` only `/a`. -/
theorem mountArgs_lost :
    (∃ ts, mountArgs {} noNames dummyTargets (sameHost.map HostPath.arg) = .ok ts ∧
      pathsAt ⟨10, 0, 0, 1⟩ ts = some ["/b".toList] ∧ ¬ ∀ x ∈ sameHost, x.Kept {} noNames ts) ∧
    ∃ ts, mountArgs {} noNames dummyTargets (colonPath.map HostPath.arg) = .ok ts ∧
      pathsAt ⟨10, 0, 0, 1⟩ ts = some ["/a".toList] ∧ ¬ ∀ x ∈ colonPath, x.Kept {} noNames ts := by
  refine ⟨⟨_, rfl, by decide, ?_⟩, ⟨_, rfl, by decide, ?_⟩⟩
  · intro h
    obtain ⟨paths, hp, hm⟩ := h _ (List.mem_cons_self ..) ⟨10, 0, 0, 1⟩ (by decide)
    obtain rfl := Option.some.inj hp
    exact absurd hm (by decide)
  · intro h
    obtain ⟨paths, hp, hm⟩ := h _ (List.mem_cons_self ..) ⟨10, 0, 0, 1⟩ (by decide)
    obtain rfl := Option.some.inj hp
    exact absurd hm (by decide)

end NFStash
