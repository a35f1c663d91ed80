/-
  Lists of targets made by `make_target`.

  `addresses_makes`: a call appends the addresses that are new, in order, so that after any calls the
  addresses are those that have been used, in the order of their first appearance (`makeCalls_targets`).
-/
import NFStash.Lib.Grouping
import NFStash.MakeTarget

namespace NFStash

open CLib Loops

/-! ## Addresses -/

/-- The addresses of the targets. -/
def addresses (ts : List Target) : List InAddr := ts.filterMap (·.addr)

/-- A call of `make_target`. -/
structure MakeCall where
  res : Resolver
  port : UInt16
  dns : Bool
  displayIps : Bool
  multiple : Bool
  path : Option CString
  count : ℕ
  targetName : CString
  room : ℕ

def MakeCall.run (c : MakeCall) (head : List Target) : Except Fault MakeTargetRes :=
  makeTarget c.res c.port c.dns c.displayIps c.multiple c.path c.count head c.targetName c.room

/-- The addresses a call uses: that of a literal, or all of an answer, or its first one. -/
def MakeCall.used (c : MakeCall) : List InAddr := hostAddrs c.res c.multiple c.targetName

/-- Calls one after the other: the values returned, and the list after them. -/
def makeCalls : List MakeCall → List Target → Except Fault (List ℕ × List Target)
  | [], head => .ok ([], head)
  | c :: calls, head => do
    let r ← c.run head
    let (created, targets) ← makeCalls calls r.targets
    .ok (r.created :: created, targets)

section
variable {port : UInt16} {count : ℕ} {made : InAddr → Target → Target} {ip : InAddr} {i : ℕ}
  {ips used : List InAddr} {ts ts' : List Target} {t t' : Target} {calls : List MakeCall}
  {created : List ℕ}

theorem addresses_set (ht : ts[i]? = some t) (haddr : t'.addr = t.addr) :
    addresses (ts.set i t') = addresses ts := by
  have hmap : (ts.set i t').map Target.addr = ts.map Target.addr := by
    refine List.ext_getElem? fun j => ?_
    rw [List.getElem?_map, List.getElem?_map, List.getElem?_set]
    split_ifs with hij hlt
    · subst hij
      rw [ht, Option.map_some, Option.map_some, haddr]
    · subst hij
      rw [List.getElem?_eq_none (not_lt.1 hlt)]
    · rfl
  have hid : ∀ l : List Target, addresses l = (l.map Target.addr).filterMap id := fun l => by
    rw [List.filterMap_map]
    rfl
  rw [hid, hmap, ← hid]

theorem lookupAddr_eq_none : lookupAddr ip ts = none ↔ ip ∉ addresses ts := by
  simp only [lookupAddr, List.find?_eq_none, addresses, List.mem_filterMap, decide_eq_true_eq,
    not_exists, not_and]

/-- An address is appended if it is new. -/
theorem addresses_findOrMake (h : findOrMakeTarget ts ip port count = .ok (i, ts')) :
    addresses ts' = if ip ∈ addresses ts then addresses ts else addresses ts ++ [ip] := by
  rcases findOrMakeTarget_cases port count h with ⟨hfound, rfl⟩ | ⟨hr, rfl, rfl⟩
  · obtain ⟨t, ht, -, haddr⟩ := findTargetByIp_some hfound
    exact (if_pos (List.mem_filterMap.2 ⟨t, List.mem_of_getElem? ht, haddr⟩)).symm
  · rw [if_neg (lookupAddr_eq_none.1 (findTargetByIp_none hr)), addresses, List.filterMap_append]
    rfl

/-- **One call.** -/
theorem addresses_makes (hmade : ∀ ip t, (made ip t).addr = t.addr)
    (hts : addresses ts = Grouping.keys id used) (h : Makes port count made ips ts ts') :
    addresses ts' = Grouping.keys id (used ++ ips) := by
  induction h generalizing used with
  | nil => rwa [List.append_nil]
  | @cons ip ips i ts ts₁ ts₂ t hf ht _ ih =>
    rw [← List.concat_append, List.concat_eq_append]
    refine ih ?_
    rw [addresses_set ht (hmade ip t), addresses_findOrMake hf, Grouping.keys_concat, hts]
    rfl

theorem makeCalls_cons {c : MakeCall} : makeCalls (c :: calls) ts = .ok (created, ts') ↔
    ∃ r created', c.run ts = .ok r ∧ makeCalls calls r.targets = .ok (created', ts') ∧
      created = r.created :: created' := by
  simp only [makeCalls, bind_eq_ok, Prod.exists]
  constructor
  · rintro ⟨r, hr, created', targets, h, heq⟩
    obtain ⟨rfl, rfl⟩ := Prod.mk.inj (Except.ok.inj heq)
    exact ⟨r, created', hr, h, rfl⟩
  · rintro ⟨r, created', hr, h, rfl⟩
    exact ⟨r, hr, created', ts', h, rfl⟩

/-- **All calls.** -/
theorem makeCalls_addresses (hts : addresses ts = Grouping.keys id used)
    (hhead : Headed (fun _ => True) ts) (h : makeCalls calls ts = .ok (created, ts')) :
    addresses ts' = Grouping.keys id (used ++ calls.flatMap MakeCall.used) ∧
      created = calls.map (·.used.length) ∧ Headed (fun _ => True) ts' := by
  induction calls generalizing ts used created with
  | nil =>
    obtain ⟨rfl, rfl⟩ := Prod.mk.inj (Except.ok.inj h)
    exact ⟨by rw [List.flatMap_nil, List.append_nil, hts], rfl, hhead⟩
  | cons c calls ih =>
    obtain ⟨r, created', hr, hrest, rfl⟩ := makeCalls_cons.1 h
    obtain ⟨hmakes, hcreated⟩ := makeTarget_makes hr
    have hupd : ∀ ip t, Update c.path c.count t
        (madeTarget c.res c.dns c.displayIps c.path c.count c.targetName ip t) :=
      fun ip t => madeTarget_update c.targetName ip t
    obtain ⟨haddr, hcreated', hhead'⟩ := ih (addresses_makes (fun ip t => (hupd ip t).addr) hts hmakes)
      (hmakes.headed (fun _ => trivial) hupd (fun _ _ _ => trivial) hhead) hrest
    refine ⟨?_, ?_, hhead'⟩
    · rw [haddr, List.flatMap_cons, List.append_assoc]
      rfl
    · rw [hcreated', hcreated]
      rfl

theorem makeCalls_append {before after : List MakeCall} :
    makeCalls (before ++ after) ts = .ok (created, ts') ↔
      ∃ c₁ c₂ ts₁, makeCalls before ts = .ok (c₁, ts₁) ∧ makeCalls after ts₁ = .ok (c₂, ts') ∧
        created = c₁ ++ c₂ := by
  induction before generalizing ts created with
  | nil =>
    constructor
    · exact fun h => ⟨[], created, ts, rfl, h, rfl⟩
    · rintro ⟨c₁, c₂, ts₁, hnil, h, rfl⟩
      obtain ⟨rfl, rfl⟩ := Prod.mk.inj (Except.ok.inj hnil)
      exact h
  | cons c before ih =>
    rw [List.cons_append, makeCalls_cons]
    constructor
    · rintro ⟨r, created', hr, h, rfl⟩
      obtain ⟨c₁, c₂, ts₁, hbefore, hafter, rfl⟩ := ih.1 h
      exact ⟨r.created :: c₁, c₂, ts₁, makeCalls_cons.2 ⟨r, c₁, hr, hbefore, rfl⟩, hafter, rfl⟩
    · rintro ⟨c₁, c₂, ts₁, hbefore, hafter, rfl⟩
      obtain ⟨r, c₁', hr, hbefore', rfl⟩ := makeCalls_cons.1 hbefore
      exact ⟨r, c₁' ++ c₂, hr, ih.2 ⟨c₁', c₂, ts₁, hbefore', hafter, rfl⟩, rfl⟩

/-- The addresses behind the dummy entry are those of the list. -/
theorem Headed.addresses_tail (hts : Headed (fun _ => True) ts) :
    ts.tail.map Target.addr = (addresses ts).map some := by
  obtain ⟨d, rest, rfl, hd, -, hrest⟩ := hts
  rw [addresses, List.filterMap_cons, hd]
  induction rest with
  | nil => rfl
  | cons t rest ih =>
    obtain ⟨ip, hip⟩ := Option.ne_none_iff_exists'.1 (hrest t List.mem_cons_self).1
    have hrest' := ih fun u hu => hrest u (List.mem_cons_of_mem t hu)
    simpa [hip] using hrest'

/-- **The list that calls make**: behind the dummy entry there is one target for each address used,
    in the order of their first appearance; what earlier calls made stays in its place; with
    `multiple` all addresses of an answer are used, else the first one; and each call returns
    the number of addresses it has used. -/
theorem makeCalls_targets (h : makeCalls calls dummyTargets = .ok (created, ts)) :
    ts.tail.map Target.addr = ((calls.flatMap MakeCall.used).eraseDups).map some ∧
      (ts.tail.map Target.addr).Nodup ∧
      (∀ before after, calls = before ++ after → ∃ created' ts',
        makeCalls before dummyTargets = .ok (created', ts') ∧
          ts'.map Target.addr <+: ts.map Target.addr) ∧
      (∀ c ∈ calls, ∀ ip, inetPton c.targetName = some ip →
        c.used = [ip] ∧ some ip ∈ ts.tail.map Target.addr) ∧
      (∀ c ∈ calls, ∀ ip addrs, inetPton c.targetName = none →
        c.res.getaddrinfo c.targetName = some (ip, addrs) →
          (c.multiple = true → ∀ a ∈ ip :: addrs, some a ∈ ts.tail.map Target.addr) ∧
          (c.multiple = false → c.used = [ip] ∧ some ip ∈ ts.tail.map Target.addr)) ∧
      created = calls.map (·.used.length) := by
  have hdummy := headed_dummyTargets fun _ => True
  have hkeys : ∀ {calls created ts}, makeCalls calls dummyTargets = .ok (created, ts) →
      ts.tail.map Target.addr = ((calls.flatMap MakeCall.used).eraseDups).map some ∧
        created = calls.map (·.used.length) ∧ Headed (fun _ => True) ts := by
    intro calls created ts h
    have hnil : addresses dummyTargets = Grouping.keys id ([] : List InAddr) := rfl
    obtain ⟨haddr, hcreated, hhead⟩ := makeCalls_addresses hnil hdummy h
    refine ⟨?_, hcreated, hhead⟩
    rw [hhead.addresses_tail, haddr, List.nil_append, Grouping.keys, List.map_id]
  obtain ⟨haddr, hcreated, hhead⟩ := hkeys h
  have hused : ∀ c ∈ calls, ∀ a ∈ c.used, some a ∈ ts.tail.map Target.addr := by
    intro c hc a ha
    rw [haddr]
    exact List.mem_map_of_mem (List.mem_eraseDups.2 (List.mem_flatMap.2 ⟨c, hc, ha⟩))
  refine ⟨haddr, ?_, ?_, ?_, ?_, hcreated⟩
  · have hnodup : (Grouping.keys id (calls.flatMap MakeCall.used)).Nodup := Grouping.keys_nodup _
    rw [Grouping.keys, List.map_id] at hnodup
    rw [haddr]
    exact hnodup.map (Option.some_injective _)
  · rintro before after rfl
    obtain ⟨c₁, c₂, ts₁, hbefore, -, -⟩ := makeCalls_append.1 h
    obtain ⟨haddr₁, -, hhead₁⟩ := hkeys hbefore
    refine ⟨c₁, ts₁, hbefore, ?_⟩
    obtain ⟨d, rest, rfl, hd, -, -⟩ := hhead
    obtain ⟨d₁, rest₁, rfl, hd₁, -, -⟩ := hhead₁
    rw [List.tail_cons] at haddr haddr₁
    rw [List.map_cons, List.map_cons, hd, hd₁, haddr, haddr₁, List.flatMap_append, List.eraseDups_append,
      List.map_append, ← List.cons_append]
    exact List.prefix_append _ _
  · intro c hc ip hip
    have huse : c.used = [ip] := by simp only [MakeCall.used, hostAddrs, hip]
    exact ⟨huse, hused c hc ip (huse ▸ List.mem_singleton_self ip)⟩
  · intro c hc ip addrs hname hans
    have huse : c.used = if c.multiple then ip :: addrs else [ip] := by
      simp only [MakeCall.used, hostAddrs, hname, hans]
    refine ⟨fun hm a ha => hused c hc a ?_, fun hm => ?_⟩
    · rwa [huse, if_pos hm]
    · rw [hm, if_neg Bool.false_ne_true] at huse
      exact ⟨huse, hused c hc ip (huse ▸ List.mem_singleton_self ip)⟩

end

/-- Any name has the same two addresses. -/
private def twoAddrs : Resolver where
  getaddrinfo _ := some (⟨10, 0, 0, 2⟩, [⟨10, 0, 0, 1⟩])
  getnameinfo _ := none

private def targetCall (multiple : Bool) (targetName : CString) : MakeCall where
  res := twoAddrs
  port := 2049
  dns := false
  displayIps := false
  multiple := multiple
  path := none
  count := 0
  targetName := targetName
  room := 0

/-- A literal and a host name that has its address too, without and with `multiple`. -/
private def overlapCalls : List MakeCall :=
  [targetCall false "10.0.0.1".toList, targetCall false "a".toList, targetCall true "a".toList]

theorem makeCalls_targets_overlap : ∃ created ts,
    makeCalls overlapCalls dummyTargets = .ok (created, ts) ∧
      ts.tail.map Target.addr = [some ⟨10, 0, 0, 1⟩, some ⟨10, 0, 0, 2⟩] ∧ created = [1, 1, 2] := by
  have hok : ∃ res, makeCalls overlapCalls dummyTargets = .ok res := ⟨_, rfl⟩
  obtain ⟨⟨created, ts⟩, h⟩ := hok
  obtain ⟨haddr, -, -, -, -, hcreated⟩ := makeCalls_targets h
  exact ⟨created, ts, h, haddr.trans rfl, hcreated.trans rfl⟩

end NFStash
