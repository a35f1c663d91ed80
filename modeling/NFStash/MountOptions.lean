/-
  The options of `nfsmount`, and what its exports are made with.

  An export has a JSON object or an array for results, depending on the count (`initExport`), while
  the format decides which of them is used (`HasStorage`).  `MountSet` is what the options set; by
  `mountStorage_iff` an export has what it needs, in every round, unless `-J` and `-c` are given
  together.
-/
import NFStash.MountRequests
import NFStash.Options

namespace NFStash

open CLib Loops

/-! ## Options -/

/-- The options, with their arguments. -/
inductive MountOption where
  | A
  | c (optarg : CString)
  | C (optarg : CString)
  | d
  | D
  | e
  | E
  | G
  | h
  | H (optarg : CString)
  | J
  | l
  | m
  | q
  | R
  | S (optarg : CString)
  | T
  | u
  | v
  | V (optarg : CString)
  /-- an option that `getopt` does not know, or without its argument -/
  | unknown
deriving DecidableEq

/-- What the options set; a format of `none` is `unset`. -/
structure MountSettings where
  format : Option MountFormat := none
  version : MountVersion := .v3
  count : ℕ := 0
  dns : Bool := false
  ip : Bool := false
  loop : Bool := false
  multiple : Bool := false
  quiet : Bool := false
  reconnect : Bool := true
  unmount : Bool := true
  hertz : ℕ := 10
  srcIp : InAddr := .any
  tcp : Bool := false
  verbose : Bool := false
deriving DecidableEq

/-- The option for a format. -/
def MountFormat.option : MountFormat → String
  | .ping => "c"
  | .fping => "C"
  | .unixtime => "D"
  | .json => "J"
  | .graphite => "G"
  | .statsd => "E"
  | .showmount => "e"

/-- Two options that exclude each other, with the one to use instead. -/
def useInstead (first : String) : OptionError :=
  .fatal ("Can't specify both -" ++ first ++ " and -C, use -c instead!\n")

/-- `-D`, `-E` and `-G`. -/
def mountFormat (format : MountFormat) (s : MountSettings) : Except OptionError MountSettings :=
  match s.format with
  | none | some .ping => .ok { s with format := some format }
  | some f => if f = format then .ok s else .error (bothOptions f.option format.option)

/-- `-c` and `-C`, with the format that is set. -/
def mountCount (format : Option MountFormat) (optarg : CString) (s : MountSettings) :
    Except OptionError MountSettings := do
  let count ← countArg optarg
  .ok { s with format, count }

/-- The body of the loop over the options. -/
def mountOption : MountOption → MountSettings → Except OptionError MountSettings
  | .A, s => if s.dns then .error (bothOptions "d" "A") else .ok { s with ip := true }
  | .c optarg, s =>
    if s.loop then .error (bothOptions "l" "c")
    else match s.format with
      | none => mountCount (some .ping) optarg s
      | some .fping => .error (bothOptions "C" "c")
      | some .showmount => .error (bothOptions "e" "c")
      | some f => mountCount (some f) optarg s
  | .C optarg, s =>
    if s.loop then .error (bothOptions "l" "C")
    else match s.format with
      | none | some .fping => mountCount (some .fping) optarg s
      | some .json => .error (useInstead "J")
      | some .graphite => .error (useInstead "G")
      | some .statsd => .error (useInstead "E")
      | some f => .error (bothOptions f.option "C")
  | .d, s =>
    if s.ip then
      if s.multiple then .ok { s with ip := false, dns := true } else .error (bothOptions "A" "d")
    else .ok { s with dns := true }
  | .D, s => mountFormat .unixtime s
  | .e, s =>
    match s.format with
    | none | some .showmount => .ok { s with format := some .showmount }
    | some f => .error (bothOptions f.option "e")
  | .E, s => mountFormat .statsd s
  | .G, s => mountFormat .graphite s
  | .H optarg, s => .ok { s with hertz := strtoul optarg }
  | .J, s => if s.format = some .fping then .error (useInstead "J") else mountFormat .json s
  | .l, s =>
    if s.count ≠ 0 ∧ (s.format = some .ping ∨ s.format = some .unixtime) then
      .error (bothOptions "c" "l")
    else if s.count ≠ 0 ∧ s.format = some .fping then .error (bothOptions "C" "l")
    else .ok { s with
      loop := true
      format := if s.count = 0 ∧ s.format = none then some .ping else s.format }
  | .m, s => .ok { s with multiple := true, ip := if s.dns then s.ip else true }
  | .q, s => .ok { s with quiet := true }
  | .R, s => .ok { s with reconnect := false }
  | .S optarg, s =>
    match inetPton optarg with
    | some srcIp => .ok { s with srcIp }
    | none => .error (.fatal "Invalid source IP address!\n")
  | .T, s => .ok { s with tcp := true }
  | .u, s => .ok { s with unmount := false }
  | .v, s => .ok { s with verbose := true }
  | .V optarg, s =>
    match strtoul optarg with
    | 1 => .ok { s with version := .v1 }
    | 2 => .ok { s with version := .v2 }
    | 3 => .ok { s with version := .v3 }
    | version => .error (.fatal ("Illegal version " ++ toString version ++ "!\n"))
  | .h, _ | .unknown, _ => .error .usage

/-- What the rest of `main` reads of the settings, with the default for the format. -/
def MountSettings.config (s : MountSettings) : MountConfig where
  format := s.format.getD .json
  version := s.version
  count := s.count
  dns := s.dns
  ip := s.ip
  loop := s.loop
  multiple := s.multiple
  quiet := s.quiet
  reconnect := s.reconnect
  unmount := s.unmount

/-- The configuration for a list of options. -/
def mountOptions (opts : List MountOption) : Except OptionError MountConfig := do
  let settings ← readOptions mountOption opts {}
  .ok settings.config

/-! ## What the options have set -/

/-- The settings after these options. -/
structure MountSet (opts : List MountOption) (s : MountSettings) : Prop where
  count : s.count ≠ 0 ↔ ∃ n, .c n ∈ opts ∨ .C n ∈ opts
  json : s.format = some .json ↔ .J ∈ opts
  fping : ∀ n, .C n ∈ opts → s.format = some .fping
  unset : s.format = none → s.count = 0

section
variable {o : MountOption} {opts : List MountOption} {s s' : MountSettings} {cfg : MountConfig}

/-- Neither a count nor `-J`. -/
def MountOption.Other (o : MountOption) : Prop := o ≠ .J ∧ ∀ n, o ≠ .c n ∧ o ≠ .C n

/-- Another option, which changes at most the format, from one that is not used for a list of options
    with a count or `-J`. -/
theorem MountSet.other (h : MountSet opts s) (ho : o.Other) (hcount : s'.count = s.count)
    (hformat : s'.format = s.format ∨
      s.format ≠ some .json ∧ s.format ≠ some .fping ∧ s'.format ≠ some .json ∧ s'.format ≠ none) :
    MountSet (opts ++ [o]) s' := by
  obtain ⟨hJ, hn⟩ := ho
  refine ⟨?_, ?_, ?_, ?_⟩
  · rw [hcount, h.count]
    exact exists_congr fun n => by rw [mem_concat_of_ne (hn n).1, mem_concat_of_ne (hn n).2]
  · rw [mem_concat_of_ne hJ, ← h.json]
    rcases hformat with heq | ⟨hjson, -, hjson', -⟩
    · rw [heq]
    · exact iff_of_false hjson' hjson
  · intro n hC
    have hfping := h.fping n ((mem_concat_of_ne (hn n).2).1 hC)
    rcases hformat with heq | ⟨-, hnot, -⟩
    · rw [heq, hfping]
    · exact absurd hfping hnot
  · intro hnone
    rcases hformat with heq | ⟨-, -, -, hne⟩
    · rw [hcount]
      exact h.unset (heq ▸ hnone)
    · exact absurd hnone hne

theorem MountSet.formatted {format : MountFormat} (h : MountSet opts s) (ho : o.Other)
    (hjson : format ≠ .json) (hs : mountFormat format s = .ok s') : MountSet (opts ++ [o]) s' := by
  have hset : some format ≠ some MountFormat.json := fun heq => hjson (Option.some.inj heq)
  unfold mountFormat at hs
  split at hs
  · rename_i hf
    obtain rfl := Except.ok.inj hs
    exact h.other ho rfl (.inr ⟨by simp [hf], by simp [hf], hset, by simp⟩)
  · rename_i hf
    obtain rfl := Except.ok.inj hs
    exact h.other ho rfl (.inr ⟨by simp [hf], by simp [hf], hset, by simp⟩)
  · split_ifs at hs
    obtain rfl := Except.ok.inj hs
    exact h.other ho rfl (.inl rfl)

/-- `-c` and `-C`. -/
theorem MountSet.counted {format : MountFormat} {optarg : CString} (h : MountSet opts s)
    (ho : o = .c optarg ∧ (∀ n, .C n ∉ opts) ∨ o = .C optarg ∧ format = .fping)
    (hjson : format = .json ↔ s.format = some .json) (hs : mountCount (some format) optarg s = .ok s') :
    MountSet (opts ++ [o]) s' := by
  obtain ⟨count, hcount, hs⟩ := bind_eq_ok.1 hs
  obtain rfl := Except.ok.inj hs
  have hJ : o ≠ .J := by
    rcases ho with ⟨rfl, -⟩ | ⟨rfl, -⟩
    · simp
    · simp
  refine ⟨iff_of_true (countArg_ok hcount).1 ⟨optarg, ?_⟩, ?_, ?_, fun hnone => by simp at hnone⟩
  · rcases ho with ⟨rfl, -⟩ | ⟨rfl, -⟩
    · exact .inl (by simp)
    · exact .inr (by simp)
  · rw [mem_concat_of_ne hJ, ← h.json, ← hjson]
    exact Option.some_inj
  · intro n hC
    rcases ho with ⟨rfl, hnone⟩ | ⟨rfl, rfl⟩
    · rw [mem_concat_of_ne (by simp)] at hC
      exact absurd hC (hnone n)
    · rfl

/-- `-J`. -/
theorem MountSet.jsonOption (h : MountSet opts s) (hs : mountOption .J s = .ok s') :
    MountSet (opts ++ [.J]) s' := by
  simp only [mountOption] at hs
  split_ifs at hs with hfping
  have hkeeps : s'.count = s.count ∧ s'.format = some .json := by
    unfold mountFormat at hs
    split at hs
    · obtain rfl := Except.ok.inj hs
      exact ⟨rfl, rfl⟩
    · obtain rfl := Except.ok.inj hs
      exact ⟨rfl, rfl⟩
    · rename_i f _ hf
      split_ifs at hs with heq
      obtain rfl := Except.ok.inj hs
      exact ⟨rfl, heq ▸ hf⟩
  refine ⟨?_, iff_of_true hkeeps.2 (by simp), ?_, fun hnone => ?_⟩
  · rw [hkeeps.1, h.count]
    simp
  · intro n hC
    rw [mem_concat_of_ne (by simp)] at hC
    exact absurd (h.fping n hC) hfping
  · rw [hkeeps.2] at hnone
    cases hnone

/-- **One option.** -/
theorem MountSet.option (h : MountSet opts s) (hs : mountOption o s = .ok s') :
    MountSet (opts ++ [o]) s' := by
  have hnoC : ∀ {f}, s.format = f → f ≠ some .fping → ∀ n, MountOption.C n ∉ opts := by
    rintro f rfl hne n hC
    exact hne (h.fping n hC)
  cases o with
  | D | E | G => exact h.formatted (by simp [MountOption.Other]) (by decide) hs
  | J => exact h.jsonOption hs
  | c optarg =>
    simp only [mountOption] at hs
    split_ifs at hs
    split at hs
    · rename_i hf
      exact h.counted (.inl ⟨rfl, hnoC hf (by simp)⟩) (by simp [hf]) hs
    · cases hs
    · cases hs
    · rename_i f hne _ hf
      exact h.counted (.inl ⟨rfl, hnoC hf (by simpa using hne)⟩) (by simp [hf]) hs
  | C optarg =>
    simp only [mountOption] at hs
    split_ifs at hs
    split at hs
    · rename_i hf
      exact h.counted (.inr ⟨rfl, rfl⟩) (by simp [hf]) hs
    · rename_i hf
      exact h.counted (.inr ⟨rfl, rfl⟩) (by simp [hf]) hs
    all_goals cases hs
  | e =>
    simp only [mountOption] at hs
    split at hs
    · rename_i hf
      obtain rfl := Except.ok.inj hs
      exact h.other (by simp [MountOption.Other]) rfl
        (.inr ⟨by simp [hf], by simp [hf], by simp, by simp⟩)
    · rename_i hf
      obtain rfl := Except.ok.inj hs
      exact h.other (by simp [MountOption.Other]) rfl (.inl hf.symm)
    · cases hs
  | l =>
    simp only [mountOption] at hs
    by_cases hping : s.count ≠ 0 ∧ (s.format = some .ping ∨ s.format = some .unixtime)
    · rw [if_pos hping] at hs
      cases hs
    rw [if_neg hping] at hs
    by_cases hfping : s.count ≠ 0 ∧ s.format = some .fping
    · rw [if_pos hfping] at hs
      cases hs
    rw [if_neg hfping] at hs
    obtain rfl := Except.ok.inj hs
    refine h.other (by simp [MountOption.Other]) rfl ?_
    by_cases hnone : s.count = 0 ∧ s.format = none
    · exact .inr ⟨by simp [hnone.2], by simp [hnone.2], by simp [hnone], by simp [hnone]⟩
    · exact .inl (if_neg hnone)
  | S optarg =>
    simp only [mountOption] at hs
    split at hs
    · obtain rfl := Except.ok.inj hs
      exact h.other (by simp [MountOption.Other]) rfl (.inl rfl)
    · cases hs
  | V optarg =>
    simp only [mountOption] at hs
    split at hs
    · obtain rfl := Except.ok.inj hs
      exact h.other (by simp [MountOption.Other]) rfl (.inl rfl)
    · obtain rfl := Except.ok.inj hs
      exact h.other (by simp [MountOption.Other]) rfl (.inl rfl)
    · obtain rfl := Except.ok.inj hs
      exact h.other (by simp [MountOption.Other]) rfl (.inl rfl)
    · cases hs
  | h => cases hs
  | unknown => cases hs
  | A | d =>
    simp only [mountOption] at hs
    split_ifs at hs
    all_goals
      obtain rfl := Except.ok.inj hs
      exact h.other (by simp [MountOption.Other]) rfl (.inl rfl)
  | H | m | q | R | T | u | v =>
    obtain rfl := Except.ok.inj hs
    exact h.other (by simp [MountOption.Other]) rfl (.inl rfl)

theorem mountOptions_set (h : mountOptions opts = .ok cfg) :
    ∃ s, MountSet opts s ∧ cfg = s.config := by
  obtain ⟨s, hs, h⟩ := bind_eq_ok.1 h
  obtain rfl := Except.ok.inj h
  exact ⟨s, readOptions_inv (fun _ _ _ _ hset hstep => hset.option hstep)
    ⟨by simp, by simp, by simp, by simp⟩ hs, rfl⟩

/-- The format is JSON and there is a count. -/
theorem mountOptions_json_iff (h : mountOptions opts = .ok cfg) :
    cfg.format = .json ∧ cfg.count ≠ 0 ↔ .J ∈ opts ∧ ∃ n, .c n ∈ opts := by
  obtain ⟨s, hset, rfl⟩ := mountOptions_set h
  have hformat : s.config.format = .json ↔ s.format = none ∨ s.format = some .json := by
    simp only [MountSettings.config]
    cases s.format with
    | none => simp
    | some f => simp
  rw [hformat]
  constructor
  · rintro ⟨hf | hf, hcount⟩
    · exact absurd (hset.unset hf) hcount
    · refine ⟨hset.json.1 hf, ?_⟩
      obtain ⟨n, hn | hn⟩ := hset.count.1 hcount
      · exact ⟨n, hn⟩
      · rw [hset.fping n hn] at hf
        cases hf
  · rintro ⟨hJ, n, hn⟩
    exact ⟨.inr (hset.json.2 hJ), hset.count.2 ⟨n, .inl hn⟩⟩

end

/-! ## Storage -/

/-- An export has what its output needs: an object for format `json`, and results for `fping`. -/
structure HasStorage (cfg : MountConfig) (e : MountExports) : Prop where
  json : cfg.format = .json → e.jsonRoot.isSome
  fping : cfg.format = .fping → cfg.count ≤ e.results.length

/-- The output of an object that is not there: a null pointer, dereferenced or printed. -/
def MissingObject (output : Except Fault (MountExports × MountLine)) : Prop :=
  output = .error .nullDeref ∨ ∃ e, output = .ok (e, .json none)

/-- What the count allocates: an array with so many results, or an object. -/
structure Storage (cfg : MountConfig) (e : MountExports) : Prop where
  results : e.results.length = cfg.count
  jsonRoot : e.jsonRoot.isSome ↔ cfg.count = 0

section
variable {cfg : MountConfig} {env : MountEnv} {r j k n : ℕ} {target t : Target} {e e' : MountExports}
  {run run' : MountRun} {s s' : MountState}

/-- There is a missing object only for the format `json` with a count. -/
theorem Storage.stored_iff (h : Storage cfg e) :
    HasStorage cfg e ↔ ¬ (cfg.format = .json ∧ cfg.count ≠ 0) := by
  constructor
  · rintro hs ⟨hjson, hcount⟩
    exact hcount (h.jsonRoot.1 (hs.json hjson))
  · intro hnot
    refine ⟨fun hjson => ?_, fun _ => h.results.ge⟩
    by_contra hnone
    exact hnot ⟨hjson, fun hcount => hnone (h.jsonRoot.2 hcount)⟩

theorem initExport_storage {path : CString} : Storage cfg (initExport target path cfg.count) := by
  refine ⟨List.length_replicate, ?_⟩
  by_cases hcount : cfg.count = 0
  · simp [initExport, hcount]
  · simp [initExport, hcount]

theorem mountRecord_storage {usec sent received : ℕ} (he : Storage cfg e)
    (h : mountRecord cfg usec { e with sent, received } = .ok e') : Storage cfg e' := by
  rcases mountRecord_ok h with ⟨-, -, rfl⟩ | ⟨results, rfl, hlength⟩
  · exact ⟨he.results, he.jsonRoot⟩
  · exact ⟨hlength.trans he.results, he.jsonRoot⟩

/-- The output changes an object, if there is one. -/
theorem printOutput_storage {root : Root} {clock : ℕ × ℕ} {usec : ℕ} {line : MountLine}
    (he : Storage cfg e) (h : printOutput cfg env target e root clock usec = .ok (e', line)) :
    Storage cfg e' := by
  rcases printOutput_ok h with ⟨rfl, -⟩ | ⟨obj, hobj, rfl, -⟩
  · exact he
  · refine ⟨he.results, ?_⟩
    rw [← he.jsonRoot, hobj]
    rfl

/-- One request. -/
theorem mountExport_storage (he : Storage cfg e)
    (h : mountExport cfg env r j target k e run = .ok (e', run')) : Storage cfg e' := by
  obtain ⟨res, run₁, -, -, ⟨-, rfl, -⟩ | ⟨-, hsuccess⟩⟩ := mountExport_ok h
  · exact ⟨he.results, he.jsonRoot⟩
  · obtain ⟨e₁, hrecord, houtput⟩ := mountSuccess_ok.1 hsuccess
    have he₁ : Storage cfg e₁ := mountRecord_storage he hrecord
    rcases mountOutput_ok houtput with ⟨rfl, -⟩ | ⟨line, hprint, -⟩
    · exact he₁
    · exact printOutput_storage he₁ hprint

/-- **Every export**, before the first round and after any number of rounds. -/
theorem rounds_storage {res : Resolver} {args : List CString}
    (hs : mountTargets cfg env res args = .ok s) (h : rounds (mountRound cfg env) n 0 s = .ok s')
    (ht : t ∈ s'.targets) (he : e ∈ t.exports) : Storage cfg e := by
  have hall := rounds_stand (Q := fun _ _ _ => Storage cfg)
    (fun r => ⟨fun _ _ _ _ _ _ _ _ _ _ he => mountExport_storage he, fun _ _ _ _ _ _ he => he⟩)
    (fun j t ht k e he => mountTargets_exports (fun _ _ => initExport_storage) hs t
      (List.mem_of_getElem? ht) e (List.mem_of_getElem? he)) h
  obtain ⟨j, hj⟩ := List.mem_iff_getElem?.1 ht
  obtain ⟨k, hk⟩ := List.mem_iff_getElem?.1 he
  obtain ⟨t₀, -, hstands⟩ := hall.get_before hj
  exact hstands.each k e hk

/-- `print_output` does not work on a missing object. -/
theorem HasStorage.output (h : HasStorage cfg e) (target : Target) (root : Root) (clock : ℕ × ℕ)
    (usec : ℕ) : ¬ MissingObject (printOutput cfg env target e root clock usec) := by
  unfold printOutput mountLoss
  by_cases hsent : e.sent = 0
  · simp [MissingObject, hsent, bind, Except.bind]
  · cases hf : cfg.format with
    | json =>
      obtain ⟨obj, hobj⟩ := Option.isSome_iff_exists.1 (h.json hf)
      simp [MissingObject, hsent, hobj, bind, Except.bind]
    | _ => simp [MissingObject, hsent, bind, Except.bind]

end

/-- **The storage of an export**, made for an argument or listed by the server: it has what its output
    needs iff not both `-J` and `-c` are given; and then no output works on a missing object. -/
theorem mountStorage_iff (opts : List MountOption) (cfg : MountConfig) (env : MountEnv) (res : Resolver)
    (args : List CString) (s s' : MountState) (n : ℕ) (hopts : mountOptions opts = .ok cfg)
    (hs : mountTargets cfg env res args = .ok s) (h : rounds (mountRound cfg env) n 0 s = .ok s')
    (t : Target) (ht : t ∈ s'.targets) (e : MountExports) (he : e ∈ t.exports) :
    (HasStorage cfg e ↔ ¬ (.J ∈ opts ∧ ∃ n, .c n ∈ opts)) ∧
      (HasStorage cfg e → ∀ target root clock usec,
        ¬ MissingObject (printOutput cfg env target e root clock usec)) := by
  refine ⟨?_, fun hstorage => hstorage.output⟩
  rw [(rounds_storage hs h ht he).stored_iff, mountOptions_json_iff hopts]

/-- `-C 1` -/
def columnsOnce : List MountOption := [.C "1".toList]

/-- Every request is answered with a filehandle of two bytes. -/
def answersBytes : MountEnv where
  connect _ _ := true
  mountres3 _ _ _ := some { fhandle := ⟨[8, 8], by decide⟩ }

/-- `-c 1 -J` -/
def jsonOnce : List MountOption := [.c "1".toList, .J]

theorem mountStorage_iff_columnsOnce : ∃ cfg s s' t e, mountOptions columnsOnce = .ok cfg ∧
    mountTargets cfg answersBytes noNames ["10.0.0.1:/a".toList] = .ok s ∧
    rounds (mountRound cfg answersBytes) 1 0 s = .ok s' ∧ t ∈ s'.targets ∧ e ∈ t.exports ∧
    HasStorage cfg e := by
  have hrun : ∃ cfg s s' t e, mountOptions columnsOnce = .ok cfg ∧
      mountTargets cfg answersBytes noNames ["10.0.0.1:/a".toList] = .ok s ∧
      rounds (mountRound cfg answersBytes) 1 0 s = .ok s' ∧ s'.targets = [t] ∧ t.exports = [e] :=
    ⟨_, _, _, _, _, rfl, rfl, rfl, rfl, rfl⟩
  obtain ⟨cfg, s, s', t, e, hopts, hs, h, ht, he⟩ := hrun
  have ht : t ∈ s'.targets := ht ▸ List.mem_singleton_self t
  have he : e ∈ t.exports := he ▸ List.mem_singleton_self e
  refine ⟨cfg, s, s', t, e, hopts, hs, h, ht, he, ?_⟩
  exact (mountStorage_iff columnsOnce cfg answersBytes noNames _ s s' 1 hopts hs h t ht e he).1.2
    (by simp [columnsOnce])

/-- With a count and format `json` there is no object, and the output works on a null pointer. -/
theorem mountStorage_jsonOnce : ∃ cfg s t e, mountOptions jsonOnce = .ok cfg ∧
    mountTargets cfg answersBytes noNames ["10.0.0.1:/a".toList] = .ok s ∧ s.targets = [t] ∧
    t.exports = [e] ∧ ¬ HasStorage cfg e ∧
    rounds (mountRound cfg answersBytes) 1 0 s = .error .nullDeref := by
  refine ⟨_, _, _, _, rfl, rfl, rfl, rfl, ?_, rfl⟩
  intro h
  exact absurd (h.json rfl) (by decide)

end NFStash
