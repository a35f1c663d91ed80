/-
  `json_parse_string` on every string.

  The parser stays in the memory of the string and ends (`jsonParseString_total`), and what it returns is
  well formed and within the limits of the library: the names of an object differ, no string has a NUL,
  nothing is nested too deep, and no object or array has grown too large.
-/
import NFStash.ParsonStrings

namespace NFStash.JSON

open CLib Buffers Loops

/-! ## Values -/

section
variable {Number : Type}

/-- The values that the library makes. -/
inductive Value.WellFormed : Value Number → Prop
  | null : WellFormed .null
  | boolean (b : Bool) : WellFormed (.boolean b)
  | number (x : Number) : WellFormed (.number x)
  | string {s : CString} : NUL ∉ s → WellFormed (.string s)
  | array {items : List (Value Number)} : (∀ v ∈ items, WellFormed v) → WellFormed (.array items)
  | object {names : List CString} {values : List (Value Number)} : names.length = values.length →
    names.Nodup → (∀ name ∈ names, NUL ∉ name) → (∀ v ∈ values, WellFormed v) →
    WellFormed (.object names values)

/-- A value that is nested so many times is within the limits. -/
inductive Value.Within : ℕ → Value Number → Prop
  | null {n : ℕ} : n ≤ MAX_NESTING → Within n .null
  | boolean {n : ℕ} (b : Bool) : n ≤ MAX_NESTING → Within n (.boolean b)
  | number {n : ℕ} (x : Number) : n ≤ MAX_NESTING → Within n (.number x)
  | string {n : ℕ} (s : CString) : n ≤ MAX_NESTING → Within n (.string s)
  | array {n : ℕ} {items : List (Value Number)} : n ≤ MAX_NESTING → items.length ≤ ARRAY_MAX_CAPACITY →
    (∀ v ∈ items, Within (n + 1) v) → Within n (.array items)
  | object {n : ℕ} {names : List CString} {values : List (Value Number)} : n ≤ MAX_NESTING →
    names.length ≤ OBJECT_MAX_CAPACITY → (∀ v ∈ values, Within (n + 1) v) → Within n (.object names values)

/-- An object that is being filled, for fields that are nested so many times. -/
structure Object.Filling (n : ℕ) (object : Object Number) : Prop where
  lengths : object.names.length = object.values.length
  nodup : object.names.Nodup
  nul : ∀ name ∈ object.names, NUL ∉ name
  wellFormed : ∀ v ∈ object.values, v.WellFormed
  within : ∀ v ∈ object.values, v.Within n
  room : object.names.length ≤ object.capacity
  capacity : object.capacity ≤ OBJECT_MAX_CAPACITY

/-- An array that is being filled. -/
structure Array.Filling (n : ℕ) (array : Array Number) : Prop where
  wellFormed : ∀ v ∈ array.items, v.WellFormed
  within : ∀ v ∈ array.items, v.Within n
  room : array.items.length ≤ array.capacity
  capacity : array.capacity ≤ ARRAY_MAX_CAPACITY

variable {n : ℕ} {object object' : Object Number} {array array' : Array Number} {name : CString}
  {names : List CString} {values : List (Value Number)} {value : Value Number}

theorem Object.filling_nil : ({} : Object Number).Filling n :=
  ⟨rfl, List.nodup_nil, nofun, nofun, nofun, le_rfl, Nat.zero_le _⟩

theorem Array.filling_nil : ({} : Array Number).Filling n := ⟨nofun, nofun, le_rfl, Nat.zero_le _⟩

/-- A name is found iff it is one. -/
theorem jsonObjectGetValue_isSome (h : names.length = values.length) :
    (jsonObjectGetValue names values name).isSome ↔ name ∈ names := by
  rw [jsonObjectGetValue]
  induction names generalizing values with
  | nil => simp
  | cons key names ih =>
    cases values with
    | nil => simp at h
    | cons value values =>
      rw [List.zip_cons_cons, List.lookup_cons, List.mem_cons]
      by_cases heq : name = key
      · simp [heq]
      · have hne : (name == key) = false := by simpa using heq
        rw [hne]
        simp only [heq, false_or]
        exact ih (Nat.succ.inj h)

/-- Room for another field, up to the limit. -/
theorem objectRoom_eq (hroom : object.names.length ≤ object.capacity)
    (hcap : object.capacity ≤ OBJECT_MAX_CAPACITY) (h : objectRoom object = some object') :
    object'.names = object.names ∧ object'.values = object.values ∧
      object.names.length < object'.capacity ∧ object'.capacity ≤ OBJECT_MAX_CAPACITY := by
  unfold objectRoom jsonObjectResize at h
  dsimp only at h
  split_ifs at h with hge hlarge hzero
  · obtain rfl := Option.some.inj h
    have hmax := le_max_left (object.capacity * 2) STARTING_CAPACITY
    have hmax' := le_max_right (object.capacity * 2) STARTING_CAPACITY
    have hstart : STARTING_CAPACITY = 15 := rfl
    refine ⟨rfl, rfl, ?_, not_lt.1 hlarge⟩
    dsimp only
    omega
  · obtain rfl := Option.some.inj h
    exact ⟨rfl, rfl, not_le.1 hge, hcap⟩

theorem arrayRoom_eq (hroom : array.items.length ≤ array.capacity)
    (hcap : array.capacity ≤ ARRAY_MAX_CAPACITY) (h : arrayRoom array = some array') :
    array'.items = array.items ∧ array.items.length < array'.capacity ∧
      array'.capacity ≤ ARRAY_MAX_CAPACITY := by
  unfold arrayRoom jsonArrayResize at h
  dsimp only at h
  split_ifs at h with hge hlarge hzero
  · obtain rfl := Option.some.inj h
    have hmax := le_max_left (array.capacity * 2) STARTING_CAPACITY
    have hmax' := le_max_right (array.capacity * 2) STARTING_CAPACITY
    have hstart : STARTING_CAPACITY = 15 := rfl
    refine ⟨rfl, ?_, not_lt.1 hlarge⟩
    dsimp only
    omega
  · obtain rfl := Option.some.inj h
    exact ⟨rfl, not_le.1 hge, hcap⟩

/-- **A field is added** with a name of its own. -/
theorem Object.Filling.add (ho : object.Filling n) (hname : NUL ∉ name) (hwf : value.WellFormed)
    (hwithin : value.Within n) (h : jsonObjectAdd object name value = some object') :
    object'.Filling n ∧ name ∉ object.names ∧ object'.names = object.names ++ [name] ∧
      object'.values = object.values ++ [value] := by
  obtain ⟨roomy, hroom, h⟩ := Option.bind_eq_some_iff.1 h
  obtain ⟨hnames, hvalues, hlt, hcap⟩ := objectRoom_eq ho.room ho.capacity hroom
  split_ifs at h with hsome
  obtain rfl := Option.some.inj h
  rw [hnames, hvalues, jsonObjectGetValue_isSome ho.lengths] at hsome
  rw [hnames, hvalues]
  refine ⟨⟨?_, ?_, ?_, ?_, ?_, ?_, hcap⟩, hsome, rfl, rfl⟩
  · simp [ho.lengths]
  · exact List.nodup_append.2 ⟨ho.nodup, by simp, by
      rintro a ha b hb rfl
      exact hsome (List.mem_singleton.1 hb ▸ ha)⟩
  · exact List.forall_mem_append.2 ⟨ho.nul, List.forall_mem_singleton.2 hname⟩
  · exact List.forall_mem_append.2 ⟨ho.wellFormed, List.forall_mem_singleton.2 hwf⟩
  · exact List.forall_mem_append.2 ⟨ho.within, List.forall_mem_singleton.2 hwithin⟩
  · rw [List.length_append, List.length_singleton]
    exact hlt

theorem Array.Filling.add (ha : array.Filling n) (hwf : value.WellFormed) (hwithin : value.Within n)
    (h : jsonArrayAdd array value = some array') :
    array'.Filling n ∧ array'.items = array.items ++ [value] := by
  obtain ⟨roomy, hroom, h⟩ := Option.bind_eq_some_iff.1 h
  obtain ⟨hitems, hlt, hcap⟩ := arrayRoom_eq ha.room ha.capacity hroom
  obtain rfl := Option.some.inj h
  rw [hitems]
  refine ⟨⟨?_, ?_, ?_, hcap⟩, rfl⟩
  · exact List.forall_mem_append.2 ⟨ha.wellFormed, List.forall_mem_singleton.2 hwf⟩
  · exact List.forall_mem_append.2 ⟨ha.within, List.forall_mem_singleton.2 hwithin⟩
  · rw [List.length_append, List.length_singleton]
    exact hlt

theorem Object.Filling.made (ho : object.Filling (n + 1)) (hn : n ≤ MAX_NESTING) :
    (Value.object object.names object.values).WellFormed ∧
      (Value.object object.names object.values).Within n :=
  ⟨.object ho.lengths ho.nodup ho.nul ho.wellFormed, .object hn (ho.room.trans ho.capacity) ho.within⟩

theorem Array.Filling.made (ha : array.Filling (n + 1)) (hn : n ≤ MAX_NESTING) :
    (Value.array array.items).WellFormed ∧ (Value.array array.items).Within n :=
  ⟨.array ha.wellFormed, .array hn (ha.room.trans ha.capacity) ha.within⟩

end

/-! ## One value -/

section
variable {d : Doubles} {n fuel : ℕ} {s : CString} {c : Char} {object : Object d.Double}
  {array : Array d.Double}

/-- The parser has stayed in the memory of a string; what it returns is well formed and within the
    limits, and it is behind its text. -/
def Fine (n : ℕ) (s : CString) (r : Except Fault (Option (Value d.Double × CString))) : Prop :=
  ∃ o, r = .ok o ∧ ∀ v p, o = some (v, p) → v.WellFormed ∧ v.Within n ∧
    ∃ rest, p = memory rest ∧ rest <:+ s

theorem fine_none (n : ℕ) (s : CString) : Fine (d := d) n s (.ok none) := ⟨none, rfl, nofun⟩

theorem fine_some {v : Value d.Double} {rest : CString} (hwf : v.WellFormed) (hwithin : v.Within n)
    (hrest : rest <:+ s) : Fine n s (.ok (some (v, memory rest))) := by
  refine ⟨_, rfl, ?_⟩
  rintro _ _ heq
  obtain ⟨rfl, rfl⟩ := Prod.mk.inj (Option.some.inj heq)
  exact ⟨hwf, hwithin, rest, rfl, hrest⟩

theorem Fine.suffix {t : CString} {r : Except Fault (Option (Value d.Double × CString))} (h : Fine n s r)
    (hst : s <:+ t) : Fine n t r := by
  obtain ⟨o, ho, hall⟩ := h
  refine ⟨o, ho, fun v p heq => ?_⟩
  obtain ⟨hwf, hwithin, rest, hp, hrest⟩ := hall v p heq
  exact ⟨hwf, hwithin, rest, hp, hrest.trans hst⟩

/-- A token is there. -/
theorem strncmp_memory {token : CString} (htoken : NUL ∉ token) (h : strncmp token (memory s) = true) :
    (memory s).drop token.length = memory (s.drop token.length) ∧ s.drop token.length <:+ s := by
  have hprefix : token <+: s ++ [NUL] := List.isPrefixOf_iff_prefix.1 h
  have hle : token.length ≤ s.length := by
    by_contra hlt
    have hlen := hprefix.length_le
    rw [List.length_append, List.length_singleton] at hlen
    have heq : token = s ++ [NUL] := hprefix.eq_of_length (by simp; omega)
    exact htoken (heq ▸ List.mem_append_right _ (List.mem_singleton_self _))
  exact ⟨List.drop_append_of_le_length hle, List.drop_suffix ..⟩

theorem parseBooleanValue_fine (hn : n ≤ MAX_NESTING) : Fine n s (.ok (parseBooleanValue d (memory s))) := by
  unfold parseBooleanValue
  split_ifs with htrue hfalse
  · obtain ⟨hdrop, hsuffix⟩ := strncmp_memory (by decide) htrue
    exact hdrop ▸ fine_some (.boolean true) (.boolean true hn) hsuffix
  · obtain ⟨hdrop, hsuffix⟩ := strncmp_memory (by decide) hfalse
    exact hdrop ▸ fine_some (.boolean false) (.boolean false hn) hsuffix
  · exact fine_none n s

theorem parseNullValue_fine (hn : n ≤ MAX_NESTING) : Fine n s (.ok (parseNullValue d (memory s))) := by
  unfold parseNullValue
  split_ifs with hnull
  · obtain ⟨hdrop, hsuffix⟩ := strncmp_memory (by decide) hnull
    exact hdrop ▸ fine_some .null (.null hn) hsuffix
  · exact fine_none n s

theorem takeWhile_memory (h : NUL ∉ s) : (memory s).takeWhile (· ≠ NUL) = s := by
  rw [memory, List.takeWhile_append_of_pos]
  · simp
  · intro c hc
    exact decide_eq_true fun heq => h (heq ▸ hc)

theorem parseNumberValue_fine (hs : NUL ∉ s) (hn : n ≤ MAX_NESTING) :
    Fine n s (.ok (parseNumberValue d (memory s))) := by
  unfold parseNumberValue
  rw [takeWhile_memory hs]
  dsimp only
  split_ifs
  · have hdrop : (memory s).drop (d.strtod s).2 = memory (s.drop (d.strtod s).2) :=
      List.drop_append_of_le_length (d.strtod_le s)
    exact hdrop ▸ fine_some (.number _) (.number _ hn) (List.drop_suffix ..)
  · exact fine_none n s

theorem parseStringValue_fine (hs : NUL ∉ s) (hn : n ≤ MAX_NESTING) (c : Char) :
    Fine n (c :: s) (parseStringValue d (memory (c :: s))) := by
  obtain ⟨value, rest, hsuffix, hget, hvalue⟩ := getQuotedString_total hs c
  rw [parseStringValue, hget, ok_bind]
  dsimp only
  cases value with
  | none => exact fine_none n _
  | some t => exact fine_some (.string (hvalue t rfl).1) (.string t hn) (hsuffix.trans (List.suffix_cons c s))

/-! ## Objects and arrays -/

theorem dropWhile_suffix (s : CString) : s.dropWhile isspace <:+ s := List.dropWhile_suffix _

theorem objectEnd_fine (ho : object.Filling (n + 1)) (hn : n ≤ MAX_NESTING) (s : CString) :
    Fine n s (objectEnd d object (memory s)) := by
  rw [objectEnd, skipWhitespaces_memory, ok_bind]
  have hsuffix := dropWhile_suffix s
  cases hs : s.dropWhile isspace with
  | nil => exact fine_none n s
  | cons c s' =>
    rw [memory_cons, deref_cons, ok_bind]
    split_ifs with hend
    · exact fine_none n s
    · obtain ⟨hwf, hwithin⟩ := ho.made hn
      exact fine_some hwf hwithin ((List.suffix_cons c s').trans (hs ▸ hsuffix))

theorem arrayEnd_fine (ha : array.Filling (n + 1)) (hn : n ≤ MAX_NESTING) (s : CString) :
    Fine n s (arrayEnd d array (memory s)) := by
  rw [arrayEnd, skipWhitespaces_memory, ok_bind]
  have hsuffix := dropWhile_suffix s
  cases hs : s.dropWhile isspace with
  | nil => exact fine_none n s
  | cons c s' =>
    rw [memory_cons, deref_cons, ok_bind]
    split_ifs with hend
    · exact fine_none n s
    · obtain ⟨hwf, hwithin⟩ := ha.made hn
      exact fine_some hwf hwithin ((List.suffix_cons c s').trans (hs ▸ hsuffix))

variable (d) in
/-- With so much fuel the functions of the parser are fine on what is left of a string. -/
structure FineUpTo (fuel : ℕ) : Prop where
  value : ∀ n s, NUL ∉ s → 3 * (s.length + 1) < fuel → Fine n s (parseValue d fuel n (memory s))
  object : ∀ n c s, n ≤ MAX_NESTING → NUL ∉ s → 3 * (s.length + 2) ≤ fuel →
    Fine n (c :: s) (parseObjectValue d fuel (n + 1) (memory (c :: s)))
  objectLoop : ∀ n s object, n ≤ MAX_NESTING → NUL ∉ s → object.Filling (n + 1) →
    3 * (s.length + 1) + 2 ≤ fuel → Fine n s (objectLoop d fuel (n + 1) object (memory s))
  array : ∀ n c s, n ≤ MAX_NESTING → NUL ∉ s → 3 * (s.length + 2) ≤ fuel →
    Fine n (c :: s) (parseArrayValue d fuel (n + 1) (memory (c :: s)))
  arrayLoop : ∀ n s array, n ≤ MAX_NESTING → NUL ∉ s → array.Filling (n + 1) →
    3 * (s.length + 1) + 2 ≤ fuel → Fine n s (arrayLoop d fuel (n + 1) array (memory s))

theorem parseValue_fine (h : FineUpTo d fuel) (hs : NUL ∉ s) (hfuel : 3 * (s.length + 1) < fuel + 1) :
    Fine n s (parseValue d (fuel + 1) n (memory s)) := by
  have hsuffix := dropWhile_suffix s
  have hlen := hsuffix.length_le
  rw [parseValue]
  split_ifs with hdeep
  · exact fine_none n s
  have hn : n ≤ MAX_NESTING := not_lt.1 hdeep
  rw [skipWhitespaces_memory, ok_bind]
  cases hd : s.dropWhile isspace with
  | nil => exact fine_none n s
  | cons c s' =>
    rw [hd] at hsuffix hlen
    have hs' : NUL ∉ c :: s' := notMem_of_suffix hs hsuffix
    have hs'' : NUL ∉ s' := fun hmem => hs' (List.mem_cons_of_mem c hmem)
    rw [List.length_cons] at hlen
    refine Fine.suffix ?_ hsuffix
    rw [memory_cons, deref_cons, ok_bind, ← memory_cons]
    split_ifs
    · exact h.object n c s' hn hs'' (by omega)
    · exact h.array n c s' hn hs'' (by omega)
    · exact parseStringValue_fine hs'' hn c
    · exact parseBooleanValue_fine hn
    · exact parseNumberValue_fine hs' hn
    · exact parseNullValue_fine hn
    · exact fine_none n _

theorem parseObjectValue_fine (h : FineUpTo d fuel) (hn : n ≤ MAX_NESTING) (hs : NUL ∉ s)
    (hfuel : 3 * (s.length + 2) ≤ fuel + 1) (c : Char) :
    Fine n (c :: s) (parseObjectValue d (fuel + 1) (n + 1) (memory (c :: s))) := by
  have hsuffix := dropWhile_suffix s
  have hlen := hsuffix.length_le
  have hs' := notMem_of_suffix hs hsuffix
  rw [parseObjectValue, memory_cons, List.tail_cons, skipWhitespaces_memory, ok_bind]
  obtain ⟨e, he, -, -⟩ := deref_memory (s.dropWhile isspace)
  have hloop := h.objectLoop n _ {} hn hs' Object.filling_nil (by omega)
  have hcs : s.dropWhile isspace <:+ c :: s := hsuffix.trans (List.suffix_cons c s)
  rw [he, ok_bind]
  split_ifs with hend
  · cases hd : s.dropWhile isspace with
    | nil =>
      rw [hd] at he
      obtain rfl := Except.ok.inj he
      exact absurd hend (by decide)
    | cons e' s' =>
      have ho : ({} : Object d.Double).Filling (n + 1) := Object.filling_nil
      obtain ⟨hwf, hwithin⟩ := ho.made hn
      exact fine_some hwf hwithin ((List.suffix_cons e' s').trans (hd ▸ hcs))
  · exact hloop.suffix hcs

/-- Behind a field there is another one, or the end of the object. -/
theorem objectNext_fine (h : FineUpTo d fuel) (hn : n ≤ MAX_NESTING) (hs : NUL ∉ s)
    (ho : object.Filling (n + 1)) (hfuel : 3 * (s.length + 1) ≤ fuel + 1) :
    Fine n s (do
      let string ← skipWhitespaces (memory s)
      let c ← deref string
      if c ≠ ',' then objectEnd d object string
      else do
        let string ← skipWhitespaces string.tail
        objectLoop d fuel (n + 1) object string) := by
  have hsuffix := dropWhile_suffix s
  have hlen := hsuffix.length_le
  rw [skipWhitespaces_memory, ok_bind]
  cases hd : s.dropWhile isspace with
  | nil =>
    rw [memory_nil, deref_cons, ok_bind, if_pos (by decide)]
    exact (objectEnd_fine ho hn []).suffix List.nil_suffix
  | cons c t =>
    rw [hd] at hsuffix hlen
    rw [memory_cons, deref_cons, ok_bind, ← memory_cons]
    split_ifs with hcomma
    · exact (objectEnd_fine ho hn (c :: t)).suffix hsuffix
    · have htail : t.dropWhile isspace <:+ s :=
        ((dropWhile_suffix t).trans (List.suffix_cons c t)).trans hsuffix
      have hshort := (dropWhile_suffix t).length_le
      rw [List.length_cons] at hlen
      rw [memory_cons, List.tail_cons, skipWhitespaces_memory, ok_bind]
      exact (h.objectLoop n _ object hn (notMem_of_suffix hs htail) ho (by omega)).suffix htail

theorem objectLoop_fine (h : FineUpTo d fuel) (hn : n ≤ MAX_NESTING) (hs : NUL ∉ s)
    (ho : object.Filling (n + 1)) (hfuel : 3 * (s.length + 1) + 2 ≤ fuel + 1) :
    Fine n s (objectLoop d (fuel + 1) (n + 1) object (memory s)) := by
  rw [objectLoop]
  cases s with
  | nil =>
    rw [memory_nil, deref_cons, ok_bind, if_pos rfl]
    exact objectEnd_fine ho hn []
  | cons c s =>
    have hs' : NUL ∉ s := fun hmem => hs (List.mem_cons_of_mem c hmem)
    have hc : c ≠ NUL := fun heq => hs (heq ▸ List.mem_cons_self)
    obtain ⟨newKey, rest, hrest, hget, hkey⟩ := getQuotedString_total hs' c
    have hrest' := (dropWhile_suffix rest).trans hrest
    obtain ⟨e, he, -, -⟩ := deref_memory (rest.dropWhile isspace)
    rw [memory_cons, deref_cons, ok_bind, if_neg hc, ← memory_cons, hget, ok_bind]
    dsimp only
    rw [skipWhitespaces_memory, ok_bind, he, ok_bind]
    cases newKey with
    | none => exact fine_none n _
    | some newKey =>
      dsimp only
      split_ifs with hcolon
      · exact fine_none n _
      -- a colon, so there is a character
      cases hd : rest.dropWhile isspace with
      | nil =>
        rw [hd] at he
        obtain rfl := Except.ok.inj he
        exact absurd (not_not.1 hcolon) (by decide)
      | cons e' t =>
        have ht : t <:+ s := (List.suffix_cons e' t).trans (hd ▸ hrest')
        have htlen : t.length + 1 ≤ s.length := by
          have hle := hrest'.length_le
          rwa [hd, List.length_cons] at hle
        rw [List.length_cons] at hfuel
        obtain ⟨o, hvalue, hall⟩ := h.value (n + 1) t (notMem_of_suffix hs' ht) (by omega)
        rw [memory_cons, List.tail_cons, hvalue, ok_bind]
        rcases o with _ | ⟨newValue, string⟩
        · exact fine_none n _
        · obtain ⟨hwf, hwithin, left, rfl, hleft⟩ := hall newValue string rfl
          dsimp only
          cases hadd : jsonObjectAdd object newKey newValue with
          | none => exact fine_none n _
          | some object' =>
            obtain ⟨ho', -, -, -⟩ := ho.add (hkey newKey rfl).1 hwf hwithin hadd
            have hsuffix : left <:+ s := hleft.trans ht
            have hle := hsuffix.length_le
            dsimp only
            exact (objectNext_fine h hn (notMem_of_suffix hs' hsuffix) ho' (by omega)).suffix
              (hsuffix.trans (List.suffix_cons c s))

theorem parseArrayValue_fine (h : FineUpTo d fuel) (hn : n ≤ MAX_NESTING) (hs : NUL ∉ s)
    (hfuel : 3 * (s.length + 2) ≤ fuel + 1) (c : Char) :
    Fine n (c :: s) (parseArrayValue d (fuel + 1) (n + 1) (memory (c :: s))) := by
  have hsuffix := dropWhile_suffix s
  have hlen := hsuffix.length_le
  have hs' := notMem_of_suffix hs hsuffix
  rw [parseArrayValue, memory_cons, List.tail_cons, skipWhitespaces_memory, ok_bind]
  obtain ⟨e, he, -, -⟩ := deref_memory (s.dropWhile isspace)
  have hloop := h.arrayLoop n _ {} hn hs' Array.filling_nil (by omega)
  have hcs : s.dropWhile isspace <:+ c :: s := hsuffix.trans (List.suffix_cons c s)
  rw [he, ok_bind]
  split_ifs with hend
  · cases hd : s.dropWhile isspace with
    | nil =>
      rw [hd] at he
      obtain rfl := Except.ok.inj he
      exact absurd hend (by decide)
    | cons e' s' =>
      have ha : ({} : Array d.Double).Filling (n + 1) := Array.filling_nil
      obtain ⟨hwf, hwithin⟩ := ha.made hn
      exact fine_some hwf hwithin ((List.suffix_cons e' s').trans (hd ▸ hcs))
  · exact hloop.suffix hcs

/-- Behind an item there is another one, or the end of the array. -/
theorem arrayNext_fine (h : FineUpTo d fuel) (hn : n ≤ MAX_NESTING) (hs : NUL ∉ s)
    (ha : array.Filling (n + 1)) (hfuel : 3 * (s.length + 1) ≤ fuel + 1) :
    Fine n s (do
      let string ← skipWhitespaces (memory s)
      let c ← deref string
      if c ≠ ',' then arrayEnd d array string
      else do
        let string ← skipWhitespaces string.tail
        arrayLoop d fuel (n + 1) array string) := by
  have hsuffix := dropWhile_suffix s
  have hlen := hsuffix.length_le
  rw [skipWhitespaces_memory, ok_bind]
  cases hd : s.dropWhile isspace with
  | nil =>
    rw [memory_nil, deref_cons, ok_bind, if_pos (by decide)]
    exact (arrayEnd_fine ha hn []).suffix List.nil_suffix
  | cons c t =>
    rw [hd] at hsuffix hlen
    rw [memory_cons, deref_cons, ok_bind, ← memory_cons]
    split_ifs with hcomma
    · exact (arrayEnd_fine ha hn (c :: t)).suffix hsuffix
    · have htail : t.dropWhile isspace <:+ s :=
        ((dropWhile_suffix t).trans (List.suffix_cons c t)).trans hsuffix
      have hshort := (dropWhile_suffix t).length_le
      rw [List.length_cons] at hlen
      rw [memory_cons, List.tail_cons, skipWhitespaces_memory, ok_bind]
      exact (h.arrayLoop n _ array hn (notMem_of_suffix hs htail) ha (by omega)).suffix htail

theorem arrayLoop_fine (h : FineUpTo d fuel) (hn : n ≤ MAX_NESTING) (hs : NUL ∉ s)
    (ha : array.Filling (n + 1)) (hfuel : 3 * (s.length + 1) + 2 ≤ fuel + 1) :
    Fine n s (arrayLoop d (fuel + 1) (n + 1) array (memory s)) := by
  rw [arrayLoop]
  obtain ⟨c, hc, -, -⟩ := deref_memory s
  rw [hc, ok_bind]
  split_ifs with hnul
  · exact arrayEnd_fine ha hn s
  obtain ⟨o, hvalue, hall⟩ := h.value (n + 1) s hs (by omega)
  rw [hvalue, ok_bind]
  rcases o with _ | ⟨newArrayValue, string⟩
  · exact fine_none n s
  · obtain ⟨hwf, hwithin, left, rfl, hleft⟩ := hall newArrayValue string rfl
    dsimp only
    cases hadd : jsonArrayAdd array newArrayValue with
    | none => exact fine_none n s
    | some array' =>
      have hle := hleft.length_le
      dsimp only
      exact (arrayNext_fine h hn (notMem_of_suffix hs hleft) (ha.add hwf hwithin hadd).1 (by omega)).suffix hleft

/-- The functions of the parser are fine, by induction on the fuel. -/
theorem fineUpTo (d : Doubles) (fuel : ℕ) : FineUpTo d fuel := by
  induction fuel with
  | zero =>
    refine ⟨?_, ?_, ?_, ?_, ?_⟩
    all_goals
      intros
      omega
  | succ fuel ih =>
    exact
      { value := fun _ _ hs hfuel => parseValue_fine ih hs hfuel
        object := fun _ c _ hn hs hfuel => parseObjectValue_fine ih hn hs hfuel c
        objectLoop := fun _ _ _ hn hs ho hfuel => objectLoop_fine ih hn hs ho hfuel
        array := fun _ c _ hn hs hfuel => parseArrayValue_fine ih hn hs hfuel c
        arrayLoop := fun _ _ _ hn hs ha hfuel => arrayLoop_fine ih hn hs ha hfuel }

/-- **`json_parse_string`** stays in the memory of every string and ends; a value that it returns is well
    formed and within the limits. -/
theorem jsonParseString_total (d : Doubles) (hs : NUL ∉ s) :
    ∃ value, jsonParseString d s = .ok value ∧ ∀ v, value = some v → v.WellFormed ∧ v.Within 0 := by
  have hsuffix := dropWhile_suffix s
  obtain ⟨c, hc, -, -⟩ := deref_memory (s.dropWhile isspace)
  rw [jsonParseString, skipWhitespaces_memory, ok_bind, hc, ok_bind]
  split_ifs
  · exact ⟨none, rfl, nofun⟩
  · obtain ⟨o, hvalue, hall⟩ := (fineUpTo d (3 * (memory (s.dropWhile isspace)).length + 1)).value 0
      (s.dropWhile isspace) (notMem_of_suffix hs hsuffix) (by rw [memory_length]; omega)
    rw [hvalue, ok_bind]
    refine ⟨_, rfl, ?_⟩
    rintro v hv
    obtain ⟨⟨v', p⟩, ho, rfl⟩ := Option.map_eq_some_iff.1 hv
    obtain ⟨hwf, hwithin, -⟩ := hall v' p ho
    exact ⟨hwf, hwithin⟩

/-- Numbers that are natural. -/
def Doubles.naturals : Doubles where
  Double := ℕ
  strtod s := (Nat.ofDigitChars 10 (s.takeWhile Char.isDigit) 0, (s.takeWhile Char.isDigit).length)
  sprintf n := (Nat.toDigits 10 n).take 100
  strtod_le s := (List.takeWhile_sublist _).length_le
  sprintf_lt n := by
    rw [List.length_take]
    omega
  sprintf_nul n hnul := by
    have hdigit := Nat.isDigit_of_mem_toDigits (by decide) le_rfl (List.mem_of_mem_take hnul)
    exact absurd hdigit (by decide)

/-- An object is returned. -/
theorem jsonParseString_total_export : ∃ v,
    jsonParseString .naturals "\x7b\"path\":\"\\/a\", \"usec\": [12]\x7d".toList = .ok (some v) ∧
      v.WellFormed ∧ v.Within 0 := by
  obtain ⟨value, hparse, hall⟩ := jsonParseString_total .naturals
    (s := "\x7b\"path\":\"\\/a\", \"usec\": [12]\x7d".toList) (by decide)
  have hsome : (jsonParseString .naturals "\x7b\"path\":\"\\/a\", \"usec\": [12]\x7d".toList).map
      Option.isSome = .ok true := by decide +kernel
  rw [hparse] at hsome
  obtain ⟨v, rfl⟩ := Option.isSome_iff_exists.1 (Except.ok.inj hsome)
  exact ⟨v, hparse, hall v rfl⟩

end

end NFStash.JSON
