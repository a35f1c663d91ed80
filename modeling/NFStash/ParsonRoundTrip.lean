/-
  What `parson.c` writes and reads again.

  A value is read back from its own text, or it is not read at all (`jsonParseString_text`): the serializer
  writes control characters as they are, which the parser does not take, and it writes values that are
  nested deeper or have more members than the parser allows.
-/
import NFStash.ParsonText

namespace NFStash.JSON

open CLib Buffers Utf8

/-! ## Strings -/

/-- No character but those that are escaped is a control character. -/
def Printable (s : CString) : Prop := ∀ c ∈ s, 0x20 ≤ c.toNat ∨ (escape c).isSome

instance (s : CString) : Decidable (Printable s) :=
  List.decidableBAll (fun c : Char => 0x20 ≤ c.toNat ∨ ((escape c).isSome : Prop)) s

section
variable {s rest input : CString} {c : Char} {len fuel : ℕ} {out : CString} {room : Buffer}

/-- A character is written with a backslash, or as it is. -/
theorem escaped_cases (c : Char) :
    (∃ e, escaped c = ['\\', e] ∧ unescape e = some c ∧ (escape c).isSome) ∨
      escaped c = [c] ∧ escape c = none ∧ c ≠ '\"' ∧ c ≠ '\\' := by
  unfold escaped escape
  split
  case h_9 hq hb _ _ _ _ _ _ => exact .inr ⟨rfl, rfl, hq, hb⟩
  all_goals exact .inl ⟨_, rfl, rfl, rfl⟩

theorem body_escaped (h : NUL ∉ s) : Body (s.flatMap escaped) := by
  induction s with
  | nil => exact .nil
  | cons c s ih =>
    simp only [List.mem_cons, not_or] at h
    rw [List.flatMap_cons]
    rcases escaped_cases c with ⟨e, he, hun, -⟩ | ⟨he, -, hq, hb⟩
    · rw [he]
      exact .escape (unescape_ne hun) (ih h.2)
    · rw [he]
      exact .char hq hb (Ne.symm h.1) (ih h.2)

theorem decodes_escaped (h : Printable s) : Decodes (s.flatMap escaped) s := by
  induction s with
  | nil => exact .nil
  | cons c s ih =>
    rw [Printable, List.forall_mem_cons] at h
    rw [List.flatMap_cons]
    rcases escaped_cases c with ⟨e, he, hun, -⟩ | ⟨he, hnone, hq, hb⟩
    · rw [he]
      exact .escape hun (ih h.2)
    · rw [he]
      refine .char (h.1.resolve_right ?_) hq hb (ih h.2)
      simp [hnone]

/-- A control character that is written as it is ends the loop. -/
theorem processLoop_unprintable (hinput : input.length = len + rest.length + 1) (h : ¬ Printable s)
    (hnul : NUL ∉ s) (hle : (s.flatMap escaped).length ≤ len) (hroom : (s.flatMap escaped).length < room.length)
    (hfuel : (s.flatMap escaped).length < fuel) :
    processLoop input len fuel (s.flatMap escaped ++ '\"' :: rest) (out.map some ++ room) out.length =
      .ok none := by
  induction s generalizing fuel out room with
  | nil => exact absurd nofun h
  | cons c s ih =>
    obtain ⟨fuel, rfl⟩ := Nat.exists_eq_succ_of_ne_zero (Nat.ne_zero_of_lt hfuel)
    simp only [List.mem_cons, not_or] at hnul
    rw [Printable, List.forall_mem_cons, not_and_or] at h
    rw [List.flatMap_cons] at hle hroom hfuel ⊢
    rcases escaped_cases c with ⟨e, he, hun, hsome⟩ | ⟨he, hnone, hq, hb⟩
    · rw [he] at hle hroom hfuel ⊢
      simp only [List.cons_append, List.nil_append, List.length_cons] at hle hroom hfuel
      have hrest : ¬ Printable s := h.resolve_left (not_not.2 (.inr hsome))
      exact (processLoop_escape hinput hle hun (by omega)).trans
        (ih hrest hnul.2 (by omega) (by rw [List.length_drop]; omega) (by omega))
    · rw [he] at hle hroom hfuel ⊢
      simp only [List.singleton_append, List.length_cons] at hle hroom hfuel
      by_cases hc : 0x20 ≤ c.toNat
      · have hrest : ¬ Printable s := h.resolve_left (not_not.2 (.inl hc))
        exact (processLoop_char hinput hle hc hb (by omega)).trans
          (ih hrest hnul.2 (by omega) (by rw [List.length_drop]; omega) (by omega))
      · exact processLoop_control hinput hle (not_le.1 hc) (Ne.symm hnul.1)

theorem takeWhile_nul (h : NUL ∉ s) : s.takeWhile (· ≠ NUL) = s := by
  rw [List.takeWhile_eq_self_iff]
  exact fun c hc => decide_eq_true fun heq => h (heq ▸ hc)

/-- **A string is read back** iff it is printable. -/
theorem getQuotedString_quoted (hs : NUL ∉ s) (hne : rest ≠ []) (hrest : NUL ∉ rest) :
    getQuotedString (memory (quoted s ++ rest)) =
      .ok (if Printable s then some s else none, memory rest) := by
  have heq : quoted s ++ rest = '\"' :: (s.flatMap escaped ++ '\"' :: rest) := by simp [quoted]
  rw [heq, getQuotedString_body (body_escaped hs) hne hrest]
  split_ifs with hp
  · rw [processString_decodes (decodes_escaped hp), takeWhile_nul hs]
    rfl
  · have hinput : (s.flatMap escaped ++ '\"' :: memory rest).length =
        (s.flatMap escaped).length + (memory rest).length + 1 := by
      rw [List.length_append, List.length_cons]
      omega
    have hloop : processLoop (s.flatMap escaped ++ '\"' :: memory rest) (s.flatMap escaped).length
        ((s.flatMap escaped).length + 1) (s.flatMap escaped ++ '\"' :: memory rest)
        (([] : CString).map some ++ fresh ((s.flatMap escaped).length + 1)) ([] : CString).length = .ok none :=
      processLoop_unprintable hinput hp hs le_rfl (by rw [fresh_length]; omega) (Nat.lt_succ_self _)
    rw [List.map_nil, List.nil_append, List.length_nil] at hloop
    rw [processString, hloop]
    rfl

end

/-! ## Values -/

section
variable {Number : Type}

inductive Value.Printable : Value Number → Prop
  | null : Printable .null
  | boolean (b : Bool) : Printable (.boolean b)
  | number (x : Number) : Printable (.number x)
  | string {s : CString} : JSON.Printable s → Printable (.string s)
  | array {items : List (Value Number)} : (∀ v ∈ items, Printable v) → Printable (.array items)
  | object {names : List CString} {values : List (Value Number)} :
    (∀ name ∈ names, JSON.Printable name) → (∀ v ∈ values, Printable v) → Printable (.object names values)

/-- A value that the parser takes, nested so many times. -/
structure Value.Readable (n : ℕ) (v : Value Number) : Prop where
  within : v.Within n
  printable : v.Printable

variable {n : ℕ} {s : CString} {items values : List (Value Number)} {names : List CString}

theorem Value.Within.le {v : Value Number} (h : v.Within n) : n ≤ MAX_NESTING := by
  cases h <;> assumption

theorem Value.readable_string : 
    (Value.string s : Value Number).Readable n ↔ n ≤ MAX_NESTING ∧ JSON.Printable s := by
  constructor
  · rintro ⟨hwithin, hprint⟩
    cases hprint with
    | string hs => exact ⟨hwithin.le, hs⟩
  · rintro ⟨hn, hs⟩
    exact ⟨.string s hn, .string hs⟩

theorem Value.readable_array : (Value.array items).Readable n ↔
    n ≤ MAX_NESTING ∧ items.length ≤ ARRAY_MAX_CAPACITY ∧ ∀ v ∈ items, v.Readable (n + 1) := by
  constructor
  · rintro ⟨hwithin, hprint⟩
    cases hwithin with
    | array hn hlen hitems =>
      cases hprint with
      | array hprint => exact ⟨hn, hlen, fun v hv => ⟨hitems v hv, hprint v hv⟩⟩
  · rintro ⟨hn, hlen, h⟩
    exact ⟨.array hn hlen fun v hv => (h v hv).within, .array fun v hv => (h v hv).printable⟩

theorem Value.readable_object : (Value.object names values).Readable n ↔
    n ≤ MAX_NESTING ∧ names.length ≤ OBJECT_MAX_CAPACITY ∧ (∀ name ∈ names, JSON.Printable name) ∧
      ∀ v ∈ values, v.Readable (n + 1) := by
  constructor
  · rintro ⟨hwithin, hprint⟩
    cases hwithin with
    | object hn hlen hvalues =>
      cases hprint with
      | object hnames hprint => exact ⟨hn, hlen, hnames, fun v hv => ⟨hvalues v hv, hprint v hv⟩⟩
  · rintro ⟨hn, hlen, hnames, h⟩
    exact ⟨.object hn hlen fun v hv => (h v hv).within, .object hnames fun v hv => (h v hv).printable⟩

end

/-! ## Room -/

/-- The capacities that an array goes through. -/
def Doubling (K capacity : ℕ) : Prop := capacity = 0 ∨ ∃ k ≤ K, capacity = STARTING_CAPACITY * 2 ^ k

theorem Doubling.grow {K capacity : ℕ} (h : Doubling K capacity) (hlt : capacity < STARTING_CAPACITY * 2 ^ K) :
    max (capacity * 2) STARTING_CAPACITY ≤ STARTING_CAPACITY * 2 ^ K ∧
      Doubling K (max (capacity * 2) STARTING_CAPACITY) ∧ capacity < max (capacity * 2) STARTING_CAPACITY := by
  have hstart : STARTING_CAPACITY = 15 := rfl
  rcases h with rfl | ⟨k, hk, rfl⟩
  · have hone : 1 ≤ 2 ^ K := Nat.one_le_two_pow
    rw [Nat.zero_mul, Nat.zero_max]
    exact ⟨Nat.le_mul_of_pos_right _ hone, .inr ⟨0, Nat.zero_le K, rfl⟩, by omega⟩
  · have hone : 1 ≤ 2 ^ k := Nat.one_le_two_pow
    have hkK : k < K := (Nat.pow_lt_pow_iff_right (by decide)).1 (Nat.lt_of_mul_lt_mul_left hlt)
    have hmax : max (STARTING_CAPACITY * 2 ^ k * 2) STARTING_CAPACITY = STARTING_CAPACITY * 2 ^ (k + 1) := by
      rw [Nat.mul_assoc, ← pow_succ, max_eq_left]
      exact Nat.le_mul_of_pos_right _ Nat.one_le_two_pow
    rw [hmax]
    refine ⟨Nat.mul_le_mul_left _ (Nat.pow_le_pow_right (by decide) hkK), .inr ⟨k + 1, hkK, rfl⟩, ?_⟩
    have hpos : 0 < STARTING_CAPACITY * 2 ^ k := Nat.mul_pos (by decide) (Nat.two_pow_pos k)
    rw [pow_succ, ← Nat.mul_assoc]
    omega

theorem Doubling.le {K capacity : ℕ} (h : Doubling K capacity) : capacity ≤ STARTING_CAPACITY * 2 ^ K := by
  rcases h with rfl | ⟨k, hk, rfl⟩
  · exact Nat.zero_le _
  · exact Nat.mul_le_mul_left _ (Nat.pow_le_pow_right (by decide) hk)

section
variable {Number : Type} {object : Object Number} {array : Array Number} {name : CString} {value : Value Number}

/-- An array of which the capacity has been doubled. -/
structure Array.Doubled (array : Array Number) : Prop where
  room : array.items.length ≤ array.capacity
  doubling : Doubling 13 array.capacity

structure Object.Doubled (object : Object Number) : Prop where
  lengths : object.names.length = object.values.length
  room : object.names.length ≤ object.capacity
  doubling : Doubling 6 object.capacity

theorem Array.doubled_nil : ({} : Array Number).Doubled := ⟨le_rfl, .inl rfl⟩

theorem Object.doubled_nil : ({} : Object Number).Doubled := ⟨rfl, le_rfl, .inl rfl⟩

/-- Items are added, up to the largest capacity. -/
theorem Array.Doubled.add (h : array.Doubled) (value : Value Number) :
    (array.items.length < ARRAY_MAX_CAPACITY → ∃ array', jsonArrayAdd array value = some array' ∧
      array'.Doubled ∧ array'.items = array.items ++ [value]) ∧
    (ARRAY_MAX_CAPACITY ≤ array.items.length → jsonArrayAdd array value = none) := by
  have hmax : STARTING_CAPACITY * 2 ^ 13 = ARRAY_MAX_CAPACITY := rfl
  have hstart : STARTING_CAPACITY = 15 := rfl
  obtain ⟨hroom, hdoubling⟩ := h
  unfold jsonArrayAdd arrayRoom jsonArrayResize
  dsimp only
  constructor
  · intro hlt
    by_cases hge : array.items.length ≥ array.capacity
    · obtain ⟨hle, hdoubling', hgrow⟩ := hdoubling.grow (by omega)
      rw [if_pos hge, if_neg (by omega), if_neg (by omega)]
      refine ⟨_, rfl, ⟨?_, hdoubling'⟩, rfl⟩
      rw [List.length_append, List.length_singleton]
      exact lt_of_le_of_lt hroom hgrow
    · rw [if_neg hge]
      refine ⟨_, rfl, ⟨?_, hdoubling⟩, rfl⟩
      rw [List.length_append, List.length_singleton]
      exact not_le.1 hge
  · intro hfull
    have hcap : array.capacity ≤ ARRAY_MAX_CAPACITY := hdoubling.le
    have hpos : 0 < ARRAY_MAX_CAPACITY := by decide
    rw [if_pos (by omega), if_pos (by omega)]
    rfl

/-- Fields with names of their own are added, up to the largest capacity. -/
theorem Object.Doubled.add (h : object.Doubled) (hname : name ∉ object.names) (value : Value Number) :
    (object.names.length < OBJECT_MAX_CAPACITY → ∃ object', jsonObjectAdd object name value = some object' ∧
      object'.Doubled ∧ object'.names = object.names ++ [name] ∧ object'.values = object.values ++ [value]) ∧
    (OBJECT_MAX_CAPACITY ≤ object.names.length → jsonObjectAdd object name value = none) := by
  have hmax : STARTING_CAPACITY * 2 ^ 6 = OBJECT_MAX_CAPACITY := rfl
  have hstart : STARTING_CAPACITY = 15 := rfl
  obtain ⟨hlengths, hroom, hdoubling⟩ := h
  have hnew : ¬ (jsonObjectGetValue object.names object.values name).isSome := by
    rwa [jsonObjectGetValue_isSome hlengths]
  have hlengths' : (object.names ++ [name]).length = (object.values ++ [value]).length := by
    simp [hlengths]
  unfold jsonObjectAdd objectRoom jsonObjectResize
  dsimp only
  constructor
  · intro hlt
    by_cases hge : object.names.length ≥ object.capacity
    · obtain ⟨hle, hdoubling', hgrow⟩ := hdoubling.grow (by omega)
      rw [if_pos hge, if_neg (by omega), if_neg (by omega)]
      refine ⟨_, if_neg hnew, ⟨hlengths', ?_, hdoubling'⟩, rfl, rfl⟩
      rw [List.length_append, List.length_singleton]
      exact lt_of_le_of_lt hroom hgrow
    · rw [if_neg hge]
      refine ⟨_, if_neg hnew, ⟨hlengths', ?_, hdoubling⟩, rfl, rfl⟩
      rw [List.length_append, List.length_singleton]
      exact not_le.1 hge
  · intro hfull
    have hcap : object.capacity ≤ OBJECT_MAX_CAPACITY := hdoubling.le
    have hpos : 0 < OBJECT_MAX_CAPACITY := by decide
    rw [if_pos (by omega), if_pos (by omega)]
    rfl

end

/-! ## Reading a text -/

/-- What may follow a value in an array or an object. -/
def Ends (rest : CString) : Prop := ∃ c t, rest = c :: t ∧ (c = ',' ∨ c = '}' ∨ c = ']')

def Value.Compound {Number : Type} : Value Number → Prop
  | .array _ => True
  | .object _ _ => True
  | _ => False

section
variable (d : Doubles)

/-- A number that is read back from its text. -/
structure Exact (x : d.Double) : Prop where
  strtod : ∀ rest, Ends rest → d.strtod (d.sprintf x ++ rest) = (x, (d.sprintf x).length)
  decimal : isDecimal (d.sprintf x) (d.sprintf x).length = true
  head : ∃ c s, d.sprintf x = c :: s ∧ (c = '-' ∨ c.isDigit = true)

/-- A value of which the numbers are. -/
inductive Value.Exact : Value d.Double → Prop
  | null : Exact .null
  | boolean (b : Bool) : Exact (.boolean b)
  | number {x : d.Double} : JSON.Exact d x → Exact (.number x)
  | string (s : CString) : Exact (.string s)
  | array {items : List (Value d.Double)} : (∀ v ∈ items, Exact v) → Exact (.array items)
  | object (names : List CString) {values : List (Value d.Double)} : (∀ v ∈ values, Exact v) →
    Exact (.object names values)

open Classical in
/-- The text of a value is read as the value, if that is readable. -/
def Reads (v : Value d.Double) : Prop := ∀ n fuel rest, NUL ∉ rest → (v.Compound ∨ Ends rest) →
  3 * ((v.text d ++ rest).length + 1) < fuel → parseValue d fuel n (memory (v.text d ++ rest)) =
    .ok (if v.Readable n then some (v, memory rest) else none)

end

section
variable {d : Doubles} {n fuel : ℕ} {s t rest : CString} {c : Char}

theorem Ends.ne_nil (h : Ends rest) : rest ≠ [] := by
  obtain ⟨c, t, rfl, -⟩ := h
  exact List.cons_ne_nil c t

/-- A character that a value may begin with. -/
theorem parseValue_head (hn : n ≤ MAX_NESTING) (hc : isspace c = false) (s : CString) :
    parseValue d (fuel + 1) n (c :: s) =
      if c = '{' then parseObjectValue d fuel (n + 1) (c :: s)
      else if c = '[' then parseArrayValue d fuel (n + 1) (c :: s)
      else if c = '\"' then parseStringValue d (c :: s)
      else if c = 'f' ∨ c = 't' then .ok (parseBooleanValue d (c :: s))
      else if c = '-' ∨ c.isDigit then .ok (parseNumberValue d (c :: s))
      else if c = 'n' then .ok (parseNullValue d (c :: s))
      else .ok none := by
  rw [parseValue, if_neg (not_lt.2 hn), skipWhitespaces_of_not hc, ok_bind, deref_cons, ok_bind]

theorem parseValue_deep (hn : ¬ n ≤ MAX_NESTING) (p : CString) : parseValue d (fuel + 1) n p = .ok none := by
  rw [parseValue, if_pos (not_le.1 hn)]

theorem strncmp_append (token rest : CString) : strncmp token (memory (token ++ rest)) = true := by
  rw [strncmp, memory_append]
  exact List.isPrefixOf_iff_prefix.2 (List.prefix_append ..)

theorem drop_memory_append (s rest : CString) : (memory (s ++ rest)).drop s.length = memory rest := by
  rw [memory_append, List.drop_left]

/-- The digits of a number are those of its own text. -/
theorem isDecimal_append (s t : CString) : isDecimal (s ++ t) s.length = isDecimal s s.length := by
  unfold isDecimal
  rw [List.take_left, List.take_length]
  by_cases h1 : s.length > 1
  · rw [List.getElem?_append_left (by omega), List.getElem?_append_left (by omega)]
    by_cases h2 : s.length > 2
    · have hprefix : strncmp "-0".toList (s ++ t) = strncmp "-0".toList s := by
        rw [Bool.eq_iff_iff, strncmp, strncmp, List.isPrefixOf_iff_prefix, List.isPrefixOf_iff_prefix]
        exact ⟨fun h => List.prefix_of_prefix_length_le h (List.prefix_append s t) h2.le,
          fun h => h.trans (List.prefix_append s t)⟩
      rw [List.getElem?_append_left h2, hprefix]
    · simp only [h2, false_and]
  · have h2 : ¬ s.length > 2 := by omega
    simp only [h1, h2, false_and]

/-! ### Values without members -/

theorem readable_plain {v : Value d.Double} (hn : n ≤ MAX_NESTING → v.Within n) (hp : v.Printable) :
    v.Readable n ↔ n ≤ MAX_NESTING :=
  ⟨fun h => h.within.le, fun h => ⟨hn h, hp⟩⟩

theorem reads_null : Reads d .null := by
  intro n fuel rest _ _ hfuel
  obtain ⟨fuel, rfl⟩ := Nat.exists_eq_succ_of_ne_zero (Nat.ne_zero_of_lt hfuel)
  rw [readable_plain .null .null, Value.text]
  by_cases hn : n ≤ MAX_NESTING
  · have hnull : parseNullValue d (memory ("null".toList ++ rest)) = some (.null, memory rest) := by
      rw [parseNullValue, if_pos (strncmp_append ..)]
      rfl
    rw [if_pos hn, ← hnull]
    exact parseValue_head hn (by decide) _
  · rw [if_neg hn, parseValue_deep hn]

theorem reads_boolean (b : Bool) : Reads d (.boolean b) := by
  intro n fuel rest _ _ hfuel
  obtain ⟨fuel, rfl⟩ := Nat.exists_eq_succ_of_ne_zero (Nat.ne_zero_of_lt hfuel)
  rw [readable_plain (.boolean b) (.boolean b), Value.text]
  by_cases hn : n ≤ MAX_NESTING
  · rw [if_pos hn]
    cases b with
    | true =>
      have htrue : parseBooleanValue d (memory ("true".toList ++ rest)) =
          some (.boolean true, memory rest) := by
        rw [parseBooleanValue, if_pos (strncmp_append ..)]
        rfl
      rw [← htrue]
      exact parseValue_head hn (by decide) _
    | false =>
      have hfalse : parseBooleanValue d (memory ("false".toList ++ rest)) =
          some (.boolean false, memory rest) := by
        rw [parseBooleanValue, if_neg (by simp [strncmp]), if_pos (strncmp_append ..)]
        rfl
      rw [← hfalse]
      exact parseValue_head hn (by decide) _
  · rw [if_neg hn, parseValue_deep hn]

/-- A number begins like no other value. -/
theorem number_head (h : c = '-' ∨ c.isDigit = true) :
    isspace c = false ∧ c ≠ '{' ∧ c ≠ '[' ∧ c ≠ '\"' ∧ ¬ (c = 'f' ∨ c = 't') := by
  rcases h with rfl | hdigit
  · decide
  · have hge : 48 ≤ c.toNat := by
      simp only [Char.isDigit, Bool.and_eq_true, decide_eq_true_eq] at hdigit
      exact hdigit.1
    have hspace : isspace c = false := by
      simp only [isspace, Bool.or_eq_false_iff, decide_eq_false_iff_not, Bool.and_eq_false_iff]
      refine ⟨?_, .inr (by omega)⟩
      rintro rfl
      exact absurd hge (by decide)
    refine ⟨hspace, ?_, ?_, ?_, ?_⟩
    · rintro rfl
      exact absurd hdigit (by decide)
    · rintro rfl
      exact absurd hdigit (by decide)
    · rintro rfl
      exact absurd hdigit (by decide)
    · rintro (rfl | rfl)
      · exact absurd hdigit (by decide)
      · exact absurd hdigit (by decide)

theorem reads_number {x : d.Double} (hx : Exact d x) : Reads d (.number x) := by
  intro n fuel rest hrest hends hfuel
  obtain ⟨fuel, rfl⟩ := Nat.exists_eq_succ_of_ne_zero (Nat.ne_zero_of_lt hfuel)
  rw [readable_plain (.number x) (.number x), Value.text]
  by_cases hn : n ≤ MAX_NESTING
  · obtain ⟨c, s, hcs, hc⟩ := hx.head
    have hnul : NUL ∉ d.sprintf x ++ rest := List.mem_append.not.2 (not_or.2 ⟨d.sprintf_nul x, hrest⟩)
    have hnumber : parseNumberValue d (memory (d.sprintf x ++ rest)) = some (.number x, memory rest) := by
      unfold parseNumberValue
      rw [takeWhile_memory hnul, hx.strtod rest (hends.resolve_left id)]
      dsimp only
      rw [memory_append, isDecimal_append, if_pos hx.decimal, ← memory_append, drop_memory_append]
    obtain ⟨hspace, h1, h2, h3, h4⟩ := number_head hc
    rw [if_pos hn, ← hnumber, hcs]
    refine (parseValue_head hn hspace _).trans ?_
    rw [if_neg h1, if_neg h2, if_neg h3, if_neg h4, if_pos hc]
    rfl
  · rw [if_neg hn, parseValue_deep hn]

theorem reads_string (hs : NUL ∉ s) : Reads d (.string s) := by
  intro n fuel rest hrest hends hfuel
  obtain ⟨fuel, rfl⟩ := Nat.exists_eq_succ_of_ne_zero (Nat.ne_zero_of_lt hfuel)
  rw [Value.readable_string, Value.text]
  by_cases hn : n ≤ MAX_NESTING
  · have hget := getQuotedString_quoted hs (hends.resolve_left id).ne_nil hrest
    refine (parseValue_head hn (by decide) _).trans ?_
    rw [if_neg (by decide), if_neg (by decide), if_pos rfl]
    refine (congrArg (· >>= _) hget).trans ?_
    by_cases hp : Printable s
    · rw [if_pos hp, if_pos ⟨hn, hp⟩]
      rfl
    · rw [if_neg hp, if_neg fun h => hp h.2]
      rfl
  · rw [if_neg (fun h => hn h.1), parseValue_deep hn]

/-! ### Arrays -/

/-- A value begins with a character that is neither whitespace nor the end of something. -/
theorem Value.Exact.head {v : Value d.Double} (h : v.Exact d) :
    ∃ c s, v.text d = c :: s ∧ isspace c = false ∧ c ≠ NUL ∧ c ≠ ']' := by
  cases h with
  | null => exact ⟨'n', _, by rw [Value.text]; rfl, by decide⟩
  | boolean b =>
    cases b with
    | true => exact ⟨'t', _, by rw [Value.text]; rfl, by decide⟩
    | false => exact ⟨'f', _, by rw [Value.text]; rfl, by decide⟩
  | @number x hx =>
    obtain ⟨c, s, hcs, hc⟩ := hx.head
    refine ⟨c, s, by rw [Value.text, hcs], (number_head hc).1, ?_, ?_⟩
    · rintro rfl
      exact absurd hc (by decide)
    · rintro rfl
      exact absurd hc (by decide)
  | string s => exact ⟨'\"', _, by rw [Value.text, quoted], by decide⟩
  | array => exact ⟨'[', _, by rw [Value.text], by decide⟩
  | object => exact ⟨'{', _, by rw [Value.text], by decide⟩

/-- What follows an item or a field: the others, and the end. -/
def following (text : CString) (more : Bool) (close : Char) (rest : CString) : CString :=
  comma more ++ (text ++ close :: rest)

theorem following_ends {text : CString} {more : Bool} {close : Char} (hclose : close = '}' ∨ close = ']')
    (htext : more = false → text = []) (rest : CString) : Ends (following text more close rest) := by
  cases more with
  | true => exact ⟨',', text ++ close :: rest, rfl, .inl rfl⟩
  | false =>
    rw [following, htext rfl]
    exact ⟨close, rest, rfl, .inr hclose⟩

theorem following_nul {text : CString} {close : Char} (hclose : close = '}' ∨ close = ']')
    (htext : NUL ∉ text) (hrest : NUL ∉ rest) (more : Bool) : NUL ∉ following text more close rest := by
  simp only [following, List.mem_append, List.mem_cons, not_or]
  refine ⟨comma_nul more, htext, ?_, hrest⟩
  rcases hclose with rfl | rfl <;> decide

theorem itemsText_isEmpty {items : List (Value d.Double)} (h : (!items.isEmpty) = false) :
    itemsText d items = [] := by
  have hnil : items = [] := by simpa using h
  rw [hnil, itemsText]

theorem itemsText_head {items : List (Value d.Double)} (hne : items ≠ []) (h : ∀ v ∈ items, v.Exact d) :
    ∃ c s, itemsText d items = c :: s ∧ isspace c = false ∧ c ≠ ']' := by
  obtain ⟨item, items, rfl⟩ := List.exists_cons_of_ne_nil hne
  obtain ⟨c, s, hcs, hspace, -, hend⟩ := (h item List.mem_cons_self).head
  exact ⟨c, _, by rw [itemsText, hcs]; rfl, hspace, hend⟩

theorem arrayEnd_text {array : Array d.Double} (hne : array.items ≠ []) (rest : CString) :
    arrayEnd d array (memory (']' :: rest)) = .ok (some (.array array.items, memory rest)) := by
  have hresize : (jsonArrayResize array array.items.length).isNone = false := by
    rw [jsonArrayResize, if_neg (by simpa using hne)]
    rfl
  rw [arrayEnd, memory_cons, skipWhitespaces_of_not (by decide), ok_bind, deref_cons, ok_bind,
    if_neg (by simp [hresize])]
  rfl

open Classical in
/-- The items of an array, in its loop. -/
theorem arrayLoop_text {items : List (Value d.Double)} (hne : items ≠ []) (hreads : ∀ v ∈ items, Reads d v)
    (hexact : ∀ v ∈ items, v.Exact d) (hnul : ∀ v ∈ items, NUL ∉ v.text d) (hrest : NUL ∉ rest)
    {array : Array d.Double} (hroom : array.Doubled)
    (hfuel : 3 * ((itemsText d items ++ ']' :: rest).length + 1) + 2 ≤ fuel) :
    arrayLoop d fuel n array (memory (itemsText d items ++ ']' :: rest)) =
      .ok (if array.items.length + items.length ≤ ARRAY_MAX_CAPACITY ∧ ∀ v ∈ items, v.Readable n then
        some (.array (array.items ++ items), memory rest) else none) := by
  induction items generalizing array fuel with
  | nil => exact absurd rfl hne
  | cons item items ih =>
    rw [List.forall_mem_cons] at hreads hexact hnul
    obtain ⟨fuel, rfl⟩ : ∃ k, fuel = k + 1 := ⟨fuel - 1, by omega⟩
    have htext : itemsText d (item :: items) ++ ']' :: rest =
        item.text d ++ following (itemsText d items) (!items.isEmpty) ']' rest := by
      rw [itemsText, following, List.append_assoc, List.append_assoc]
    have hends := following_ends (.inr rfl) (@itemsText_isEmpty d items) rest
    have hfollow := following_nul (.inr rfl) (itemsText_nul hnul.2) hrest (!items.isEmpty)
    obtain ⟨c, s, hcs, -, hcnul, -⟩ := hexact.1.head
    have hderef : deref (memory (itemsText d (item :: items) ++ ']' :: rest)) = .ok c := by
      rw [htext, hcs]
      rfl
    rw [htext] at hfuel
    rw [arrayLoop, hderef, ok_bind, if_neg hcnul, htext, hreads.1 n fuel _ hfollow (.inr hends) (by omega),
      ok_bind]
    simp only [List.length_cons, List.forall_mem_cons]
    by_cases hr : item.Readable n
    · obtain ⟨hadd, hfull⟩ := hroom.add item
      rw [if_pos hr]
      dsimp only
      by_cases hlt : array.items.length < ARRAY_MAX_CAPACITY
      · obtain ⟨array', hadd, hroom', hitems⟩ := hadd hlt
        have hlen : array'.items.length = array.items.length + 1 := by simp [hitems]
        rw [hadd]
        dsimp only
        by_cases hmore : items = []
        · -- the last item
          subst hmore
          have hlast : following (itemsText d []) (!([] : List (Value d.Double)).isEmpty) ']' rest =
              ']' :: rest := by rw [itemsText]; rfl
          rw [hlast, memory_cons, skipWhitespaces_of_not (by decide), ok_bind, deref_cons, ok_bind,
            if_pos (by decide), ← memory_cons, arrayEnd_text (by simp [hitems]), hitems,
            if_pos ⟨hlt, hr, List.forall_mem_nil _⟩]
        · have hcomma : following (itemsText d items) (!items.isEmpty) ']' rest =
              ',' :: (itemsText d items ++ ']' :: rest) := by
            rw [following, List.isEmpty_eq_false_iff.2 hmore]
            rfl
          obtain ⟨e, t, het, hspace, -⟩ := itemsText_head hmore hexact.2
          have hlonger : (itemsText d items ++ ']' :: rest).length + 1 ≤
              (item.text d ++ ',' :: (itemsText d items ++ ']' :: rest)).length := by
            simp only [List.length_append, List.length_cons]
            omega
          rw [hcomma] at hfuel
          have hskip : skipWhitespaces (memory (itemsText d items ++ ']' :: rest)) =
              .ok (memory (itemsText d items ++ ']' :: rest)) := by
            rw [het]
            exact skipWhitespaces_of_not hspace _
          rw [hcomma, memory_cons, skipWhitespaces_of_not (by decide), ok_bind, deref_cons, ok_bind,
            if_neg (by decide), List.tail_cons, hskip, ok_bind,
            ih hmore hreads.2 hexact.2 hnul.2 hroom' (by omega), hitems, List.append_assoc]
          refine congrArg _ (if_congr ?_ rfl rfl)
          rw [hitems] at hlen
          rw [hlen, Nat.add_assoc, Nat.add_comm 1, and_iff_right hr]
      · rw [hfull (not_lt.1 hlt)]
        dsimp only
        rw [if_neg fun h => by omega]
    · rw [if_neg hr]
      dsimp only
      rw [if_neg fun h => hr h.2.1]

open Classical in
/-- An array is read back, whatever follows it. -/
theorem reads_array {items : List (Value d.Double)} (hreads : ∀ v ∈ items, Reads d v)
    (hexact : ∀ v ∈ items, v.Exact d) (hnul : ∀ v ∈ items, NUL ∉ v.text d) : Reads d (.array items) := by
  intro n fuel rest hrest _ hfuel
  obtain ⟨fuel, rfl⟩ : ∃ k, fuel = k + 2 := ⟨fuel - 2, by omega⟩
  have htext : (Value.array items).text d ++ rest = '[' :: (itemsText d items ++ ']' :: rest) := by
    simp [Value.text]
  rw [htext] at hfuel ⊢
  simp only [Value.readable_array]
  by_cases hn : n ≤ MAX_NESTING
  · rw [memory_cons, parseValue_head hn (by decide), if_neg (by decide), if_pos rfl, parseArrayValue,
      List.tail_cons]
    by_cases hmore : items = []
    · subst hmore
      rw [itemsText, List.nil_append, memory_cons, skipWhitespaces_of_not (by decide), ok_bind, deref_cons,
        ok_bind, if_pos rfl, if_pos ⟨hn, Nat.zero_le _, List.forall_mem_nil _⟩]
      rfl
    · obtain ⟨c, s, hcs, hspace, hend⟩ := itemsText_head hmore hexact
      have hcs' : memory (itemsText d items ++ ']' :: rest) = c :: memory (s ++ ']' :: rest) := by
        rw [hcs]
        rfl
      rw [hcs', skipWhitespaces_of_not hspace, ok_bind, deref_cons, ok_bind, if_neg hend, ← hcs',
        arrayLoop_text hmore hreads hexact hnul hrest Array.doubled_nil
          (by rw [List.length_cons] at hfuel; omega)]
      refine congrArg _ (if_congr ?_ rfl rfl)
      rw [List.length_nil, Nat.zero_add, and_iff_right hn]
  · rw [parseValue_deep hn, if_neg fun h => hn h.1]

/-! ### Objects -/

variable (d) in
theorem fieldsText_isEmpty (names : List CString) (values : List (Value d.Double))
    (h : (!values.isEmpty) = false) : fieldsText d names values = [] := by
  have hnil : values = [] := by simpa using h
  rw [hnil]
  cases names <;> rfl

theorem fieldsText_head {names : List CString} {values : List (Value d.Double)}
    (hlen : names.length = values.length) (hne : values ≠ []) :
    ∃ s, fieldsText d names values = '\"' :: s := by
  obtain ⟨value, values, rfl⟩ := List.exists_cons_of_ne_nil hne
  cases names with
  | nil => simp at hlen
  | cons key names => exact ⟨_, by rw [fieldsText, quoted]; rfl⟩

theorem objectEnd_text {object : Object d.Double} (hne : object.names ≠ []) (rest : CString) :
    objectEnd d object (memory ('}' :: rest)) =
      .ok (some (.object object.names object.values, memory rest)) := by
  have hresize : (jsonObjectResize object object.names.length).isNone = false := by
    rw [jsonObjectResize, if_neg (by simpa using hne)]
    rfl
  rw [objectEnd, memory_cons, skipWhitespaces_of_not (by decide), ok_bind, deref_cons, ok_bind,
    if_neg (by simp [hresize])]
  rfl

open Classical in
/-- The fields of an object, in its loop. -/
theorem objectLoop_text {names : List CString} {values : List (Value d.Double)}
    (hlen : names.length = values.length) (hne : values ≠ []) (hreads : ∀ v ∈ values, Reads d v)
    (hexact : ∀ v ∈ values, v.Exact d) (hnames : ∀ name ∈ names, NUL ∉ name)
    (hnul : ∀ v ∈ values, NUL ∉ v.text d) (hrest : NUL ∉ rest) {object : Object d.Double}
    (hroom : object.Doubled) (hnodup : (object.names ++ names).Nodup)
    (hfuel : 3 * ((fieldsText d names values ++ '}' :: rest).length + 1) + 2 ≤ fuel) :
    objectLoop d fuel n object (memory (fieldsText d names values ++ '}' :: rest)) =
      .ok (if object.names.length + names.length ≤ OBJECT_MAX_CAPACITY ∧
          (∀ name ∈ names, Printable name) ∧ ∀ v ∈ values, v.Readable n then
        some (.object (object.names ++ names) (object.values ++ values), memory rest) else none) := by
  induction values generalizing names object fuel with
  | nil => exact absurd rfl hne
  | cons value values ih =>
    cases names with
    | nil => simp at hlen
    | cons key names =>
    rw [List.forall_mem_cons] at hreads hexact hnul hnames
    obtain ⟨fuel, rfl⟩ : ∃ k, fuel = k + 1 := ⟨fuel - 1, by omega⟩
    have htext : fieldsText d (key :: names) (value :: values) ++ '}' :: rest =
        quoted key ++
          ':' :: (value.text d ++ following (fieldsText d names values) (!values.isEmpty) '}' rest) := by
      simp [fieldsText, following]
    have hends := following_ends (.inl rfl) (fieldsText_isEmpty d names values) rest
    have hfollow := following_nul (.inl rfl) (fieldsText_nul hnames.2 hnul.2) hrest (!values.isEmpty)
    have hvnul :
        NUL ∉ ':' :: (value.text d ++ following (fieldsText d names values) (!values.isEmpty) '}' rest) := by
      simp only [List.mem_cons, List.mem_append, not_or]
      exact ⟨by decide, hnul.1, hfollow⟩
    have hderef : deref (memory (fieldsText d (key :: names) (value :: values) ++ '}' :: rest)) = .ok '\"' := by
      rw [htext]
      rfl
    have hquoted : 2 ≤ (quoted key).length := by
      rw [quoted, List.length_cons, List.length_append, List.length_singleton]
      omega
    have hvfuel :
        (value.text d ++ following (fieldsText d names values) (!values.isEmpty) '}' rest).length + 3 ≤
        (fieldsText d (key :: names) (value :: values) ++ '}' :: rest).length := by
      rw [htext, List.length_append, List.length_append, List.length_cons, List.length_append]
      omega
    rw [objectLoop, hderef, ok_bind, if_neg (by decide), htext,
      getQuotedString_quoted hnames.1 (List.cons_ne_nil _ _) hvnul, ok_bind]
    dsimp only
    rw [memory_cons, skipWhitespaces_of_not (by decide), ok_bind, deref_cons, ok_bind]
    simp only [List.length_cons, List.forall_mem_cons]
    by_cases hp : Printable key
    · rw [if_pos hp]
      dsimp only
      rw [if_neg (by decide), List.tail_cons, hreads.1 n fuel _ hfollow (.inr hends) (by omega), ok_bind]
      by_cases hr : value.Readable n
      · have hnew : key ∉ object.names := fun hmem =>
          (List.nodup_append.1 hnodup).2.2 key hmem key List.mem_cons_self rfl
        obtain ⟨hadd, hfull⟩ := hroom.add hnew value
        rw [if_pos hr]
        dsimp only
        by_cases hlt : object.names.length < OBJECT_MAX_CAPACITY
        · obtain ⟨object', hadd, hroom', hnames', hvalues'⟩ := hadd hlt
          rw [hadd]
          dsimp only
          by_cases hmore : values = []
          · -- the last field
            subst hmore
            obtain rfl : names = [] := by simpa using hlen
            have hlast : following (fieldsText d [] []) (!([] : List (Value d.Double)).isEmpty) '}' rest =
                '}' :: rest := rfl
            rw [hlast, memory_cons, skipWhitespaces_of_not (by decide), ok_bind, deref_cons, ok_bind,
              if_pos (by decide), ← memory_cons, objectEnd_text (by simp [hnames']), hnames', hvalues',
              if_pos ⟨hlt, ⟨hp, List.forall_mem_nil _⟩, hr, List.forall_mem_nil _⟩]
          · have hcomma : following (fieldsText d names values) (!values.isEmpty) '}' rest =
                ',' :: (fieldsText d names values ++ '}' :: rest) := by
              rw [following, List.isEmpty_eq_false_iff.2 hmore]
              rfl
            have hlen' : names.length = values.length := Nat.succ.inj hlen
            obtain ⟨t, ht⟩ := fieldsText_head (d := d) hlen' hmore
            have hskip : skipWhitespaces (memory (fieldsText d names values ++ '}' :: rest)) =
                .ok (memory (fieldsText d names values ++ '}' :: rest)) := by
              rw [ht]
              exact skipWhitespaces_of_not (by decide) _
            have hshorter : (fieldsText d names values ++ '}' :: rest).length ≤
                (value.text d ++ following (fieldsText d names values) (!values.isEmpty) '}' rest).length := by
              rw [hcomma, List.length_append, List.length_append, List.length_cons, List.length_cons,
                List.length_append]
              simp only [List.length_cons]
              omega
            have hcount : object'.names.length = object.names.length + 1 := by simp [hnames']
            rw [hcomma, memory_cons, skipWhitespaces_of_not (by decide), ok_bind, deref_cons, ok_bind,
              if_neg (by decide), List.tail_cons, hskip, ok_bind,
              ih hlen' hmore hreads.2 hexact.2 hnames.2 hnul.2 hroom' (by simpa [hnames'] using hnodup)
                (by omega),
              hnames', hvalues', List.append_assoc, List.append_assoc]
            refine congrArg _ (if_congr ?_ rfl rfl)
            rw [hnames'] at hcount
            rw [hcount, Nat.add_assoc, Nat.add_comm 1, and_iff_right hp, and_iff_right hr]
        · rw [hfull (not_lt.1 hlt)]
          dsimp only
          rw [if_neg fun h => by omega]
      · rw [if_neg hr]
        dsimp only
        rw [if_neg fun h => hr h.2.2.1]
    · rw [if_neg hp]
      dsimp only
      rw [if_neg fun h => hp h.2.1.1]

open Classical in
/-- An object is read back, whatever follows it. -/
theorem reads_object {names : List CString} {values : List (Value d.Double)}
    (hlen : names.length = values.length) (hnodup : names.Nodup) (hnames : ∀ name ∈ names, NUL ∉ name)
    (hreads : ∀ v ∈ values, Reads d v) (hexact : ∀ v ∈ values, v.Exact d)
    (hnul : ∀ v ∈ values, NUL ∉ v.text d) :
    Reads d (.object names values) := by
  intro n fuel rest hrest _ hfuel
  obtain ⟨fuel, rfl⟩ : ∃ k, fuel = k + 2 := ⟨fuel - 2, by omega⟩
  have htext : (Value.object names values).text d ++ rest =
      '{' :: (fieldsText d names values ++ '}' :: rest) := by
    simp [Value.text]
  rw [htext] at hfuel ⊢
  simp only [Value.readable_object]
  by_cases hn : n ≤ MAX_NESTING
  · rw [memory_cons, parseValue_head hn (by decide), if_pos rfl, parseObjectValue, List.tail_cons]
    by_cases hmore : values = []
    · subst hmore
      obtain rfl : names = [] := List.length_eq_zero_iff.1 hlen
      rw [fieldsText_isEmpty d [] [] rfl, List.nil_append, memory_cons, skipWhitespaces_of_not (by decide),
        ok_bind, deref_cons, ok_bind, if_pos rfl, 
        if_pos ⟨hn, Nat.zero_le _, List.forall_mem_nil _, List.forall_mem_nil _⟩]
      rfl
    · obtain ⟨s, hs⟩ := fieldsText_head (d := d) hlen hmore
      have hs' : memory (fieldsText d names values ++ '}' :: rest) = '\"' :: memory (s ++ '}' :: rest) := by
        rw [hs]
        rfl
      rw [hs', skipWhitespaces_of_not (by decide), ok_bind, deref_cons, ok_bind, if_neg (by decide), ← hs',
        objectLoop_text hlen hmore hreads hexact hnames hnul hrest Object.doubled_nil hnodup
          (by rw [List.length_cons] at hfuel; omega)]
      refine congrArg _ (if_congr ?_ rfl rfl)
      rw [List.length_nil, Nat.zero_add, and_iff_right hn]
  · rw [parseValue_deep hn, if_neg fun h => hn h.1]

/-! ### Every value -/

/-- **The text of a value** is read back, if the value is readable, and else not read at all. -/
theorem Value.WellFormed.reads {v : Value d.Double} (h : v.WellFormed) (hexact : v.Exact d) : Reads d v := by
  induction h with
  | null => exact reads_null
  | boolean b => exact reads_boolean b
  | number x =>
    cases hexact with
    | number hx => exact reads_number hx
  | string hs => exact reads_string hs
  | @array items hitems ih =>
    cases hexact with
    | array hexact =>
      exact reads_array (fun v hv => ih v hv (hexact v hv)) hexact fun v hv => (hitems v hv).text_nul
  | @object names values hlen hnodup hnames hvalues ih =>
    cases hexact with
    | object _ hexact =>
      exact reads_object hlen hnodup hnames (fun v hv => ih v hv (hexact v hv)) hexact
        fun v hv => (hvalues v hv).text_nul

/-- Only arrays and objects begin like them. -/
theorem Value.Exact.compound {v : Value d.Double} (h : v.Exact d) : ∃ c s, v.text d = c :: s ∧
    isspace c = false ∧ (v.Compound ↔ c = '{' ∨ c = '[') := by
  cases h with
  | null => exact ⟨'n', _, by rw [Value.text]; rfl, by decide, by simp [Value.Compound]⟩
  | boolean b =>
    cases b with
    | true => exact ⟨'t', _, by rw [Value.text]; rfl, by decide, by simp [Value.Compound]⟩
    | false => exact ⟨'f', _, by rw [Value.text]; rfl, by decide, by simp [Value.Compound]⟩
  | @number x hx =>
    obtain ⟨c, s, hcs, hc⟩ := hx.head
    obtain ⟨hspace, h1, h2, -⟩ := number_head hc
    exact ⟨c, s, by rw [Value.text, hcs], hspace, by simp [Value.Compound, h1, h2]⟩
  | string s => exact ⟨'\"', _, by rw [Value.text, quoted], by decide, by simp [Value.Compound]⟩
  | array => exact ⟨'[', _, by rw [Value.text], by decide, by simp [Value.Compound]⟩
  | object => exact ⟨'{', _, by rw [Value.text], by decide, by simp [Value.Compound]⟩

open Classical in
/-- The parser ignores what follows an object or an array. -/
theorem jsonParseString_append {v : Value d.Double} (hwf : v.WellFormed) (hexact : v.Exact d)
    (hrest : NUL ∉ rest) : jsonParseString d (v.text d ++ rest) =
      .ok (if v.Compound ∧ v.Readable 0 then some v else none) := by
  obtain ⟨c, s, hcs, hspace, hcompound⟩ := hexact.compound
  have hmemory : memory (v.text d ++ rest) = c :: memory (s ++ rest) := by
    rw [hcs]
    rfl
  rw [jsonParseString, hmemory, skipWhitespaces_of_not hspace, ok_bind, deref_cons, ok_bind, ← hmemory]
  by_cases hc : v.Compound
  · have hread := hwf.reads hexact 0 (3 * (memory (v.text d ++ rest)).length + 1) rest hrest (.inl hc)
      (by rw [memory_length]; omega)
    rw [if_neg (by rw [← not_or, not_not]; exact hcompound.1 hc), hread, ok_bind]
    by_cases hr : v.Readable 0
    · rw [if_pos hr, if_pos ⟨hc, hr⟩]
      rfl
    · rw [if_neg hr, if_neg fun h => hr h.2]
      rfl
  · rw [if_pos (by rw [← not_or]; exact fun h => hc (hcompound.2 h)), if_neg fun h => hc h.1]

open Classical in
/-- **What is written is read back**, if it is an object or an array, printable and within the limits of
    the parser, and nothing is read else.  The text is one that can be counted in an `int`. -/
theorem jsonParseString_text (v : Value d.Double) (hwf : v.WellFormed) (hexact : v.Exact d)
    (hint : (v.text d).length < INT_MAX) :
    ∃ text, jsonSerializeToString d v = .ok (some text) ∧ text.length < INT_MAX ∧
      jsonParseString d text = .ok (if v.Compound ∧ v.Readable 0 then some v else none) := by
  refine ⟨v.text d, jsonSerializeToString_text hwf, hint, ?_⟩
  have hread := jsonParseString_append hwf hexact List.not_mem_nil
  rwa [List.append_nil] at hread

/-! ### Natural numbers -/

theorem toDigits_head {k : ℕ} (h : 0 < k) : ∃ c s, Nat.toDigits 10 k = c :: s ∧ c ≠ '0' := by
  induction k using Nat.strong_induction_on with
  | _ k ih =>
    by_cases hlt : k < 10
    · refine ⟨_, [], Nat.toDigits_of_lt_base hlt, ?_⟩
      rw [Ne, Nat.digitChar_eq_zero]
      exact h.ne'
    · obtain ⟨c, s, hcs, hc⟩ := ih (k / 10) (Nat.div_lt_self h (by decide)) (by omega)
      exact ⟨c, _, by rw [Nat.toDigits_of_base_le (by decide) (not_lt.1 hlt), hcs]; rfl, hc⟩

/-- A natural number that is printed in full is read back. -/
theorem exact_naturals {k : ℕ} (h : k < 10 ^ 100) : Exact .naturals k := by
  have hlen : (Nat.toDigits 10 k).length ≤ 100 := (Nat.length_toDigits_le_iff (by decide) (by decide)).2 h
  have hprint : Doubles.naturals.sprintf k = Nat.toDigits 10 k := List.take_of_length_le hlen
  have hdigit : ∀ c ∈ Nat.toDigits 10 k, c.isDigit = true := fun c hc =>
    Nat.isDigit_of_mem_toDigits (by decide) le_rfl hc
  obtain ⟨c, s, hcs⟩ := List.exists_cons_of_ne_nil (Nat.toDigits_ne_nil (n := k) (b := 10))
  have hc : c.isDigit = true := hdigit c (hcs ▸ List.mem_cons_self)
  refine ⟨?_, ?_, ⟨c, s, hprint.trans hcs, .inr hc⟩⟩
  · rintro _ ⟨e, t, rfl, he⟩
    have hend : e.isDigit = false := by
      rcases he with rfl | rfl | rfl <;> decide
    have htake : (Nat.toDigits 10 k ++ e :: t).takeWhile Char.isDigit = Nat.toDigits 10 k := by
      rw [List.takeWhile_append_of_pos hdigit, List.takeWhile_cons_of_neg (by simp [hend]), List.append_nil]
    rw [hprint]
    change (Nat.ofDigitChars 10 _ 0, List.length _) = _
    rw [htake, Nat.ofDigitChars_ten_toDigits]
    rfl
  · have hplain : ∀ c ∈ Nat.toDigits 10 k, (c ≠ 'x' && c ≠ 'X') = true := by
      intro c hc
      have hc := hdigit c hc
      simp only [Bool.and_eq_true, decide_eq_true_eq]
      constructor
      · rintro rfl
        exact absurd hc (by decide)
      · rintro rfl
        exact absurd hc (by decide)
    have hzero : ¬ ((Nat.toDigits 10 k).length > 1 ∧ (Nat.toDigits 10 k)[0]? = some '0' ∧
        (Nat.toDigits 10 k)[1]? ≠ some '.') := by
      rintro ⟨hlong, hhead, -⟩
      have hpos : 0 < k := by
        rcases Nat.eq_zero_or_pos k with rfl | hpos
        · exact absurd hlong (by decide)
        · exact hpos
      obtain ⟨c', s', hcs', hc'⟩ := toDigits_head hpos
      rw [hcs'] at hhead
      exact hc' (Option.some.inj hhead)
    have hminus : strncmp "-0".toList (Nat.toDigits 10 k) = false := by
      rw [hcs, strncmp]
      have hne : ('-' == c) = false := by
        rw [beq_eq_false_iff_ne]
        rintro rfl
        exact absurd hc (by decide)
      simp [List.isPrefixOf, hne]
    rw [hprint, isDecimal, if_neg hzero, if_neg (fun hm => Bool.false_ne_true (hminus.symm.trans hm.2.1)),
      List.take_length]
    exact List.all_eq_true.2 hplain

theorem exported_exact : exported.Exact .naturals :=
  .object _ (List.forall_mem_cons.2 ⟨.string _, List.forall_mem_singleton.2
    (.array (List.forall_mem_singleton.2 (.number (exact_naturals (by norm_num)))))⟩)

open Classical in
theorem jsonParseString_text_exported : ∃ text, jsonSerializeToString .naturals exported = .ok (some text) ∧
    text.length < INT_MAX ∧ jsonParseString .naturals text =
      .ok (if exported.Compound ∧ exported.Readable 0 then some exported else none) :=
  jsonParseString_text exported exported_wellFormed exported_exact (by rw [exported_text]; decide)

end

end NFStash.JSON
