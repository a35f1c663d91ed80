/-
  `json_serialize_to_string` on every value.

  The serializer runs once without a buffer, for the size, and once with one: both times it goes through
  the same text (`Value.text`, `Writes`), so the buffer is as large as it has to be.
-/
import NFStash.ParsonParse

namespace NFStash.JSON

open CLib Buffers

/-! ## Texts -/

/-- A property of all values, as they are nested. -/
@[elab_as_elim]
theorem Value.induction {Number : Type} {P : Value Number → Prop} (null : P .null)
    (boolean : ∀ b, P (.boolean b)) (number : ∀ x, P (.number x)) (string : ∀ s, P (.string s))
    (array : ∀ items, (∀ v ∈ items, P v) → P (.array items))
    (object : ∀ names values, (∀ v ∈ values, P v) → P (.object names values)) (v : Value Number) : P v :=
  @Value.rec _ P (fun values => ∀ v ∈ values, P v) null boolean number string array object nofun
    (fun _ _ hv hvs => List.forall_mem_cons.2 ⟨hv, hvs⟩) v

/-- A character in a string. -/
def escaped (c : Char) : CString := (escape c).getD [c]

/-- A string, between its quotation marks. -/
def quoted (s : CString) : CString := '\"' :: (s.flatMap escaped ++ ['\"'])

def comma (more : Bool) : CString := if more then [','] else []

section
variable (d : Doubles)

mutual

/-- The text of a value. -/
def Value.text : Value d.Double → CString
  | .array items => '[' :: (itemsText items ++ [']'])
  | .object names values => '{' :: (fieldsText names values ++ ['}'])
  | .string s => quoted s
  | .boolean b => if b then "true".toList else "false".toList
  | .number x => d.sprintf x
  | .null => "null".toList

def itemsText : List (Value d.Double) → CString
  | [] => []
  | item :: items => item.text ++ comma (!items.isEmpty) ++ itemsText items

def fieldsText : List CString → List (Value d.Double) → CString
  | key :: names, value :: values =>
    quoted key ++ [':'] ++ value.text ++ comma (!values.isEmpty) ++ fieldsText names values
  | _, _ => []

end

end

/-! ## Writing -/

/-- A function of the serializer: without a buffer it counts the characters of a text, and with one it
    writes them; its last character may be the last one of an `APPEND_STRING`, with a terminator. -/
structure Writes (w : Writer → Except Fault (Writer × ℕ)) (text : CString) (ended : Bool) : Prop where
  count : w none = .ok (none, text.length)
  write : ∀ (out : CString) (room : Buffer), text.length < room.length → ∃ room' : Buffer,
    w (some (out.map some ++ room, out.length)) =
      .ok (some ((out ++ text).map some ++ room', (out ++ text).length), text.length) ∧
    room'.length + text.length = room.length ∧ (ended → room'.head? = some (some NUL))

/-- One after the other. -/
def andThen (w v : Writer → Except Fault (Writer × ℕ)) (buf : Writer) : Except Fault (Writer × ℕ) := do
  let (buf, m) ← w buf
  let (buf, n) ← v buf
  .ok (buf, m + n)

section
variable {w v : Writer → Except Fault (Writer × ℕ)} {s t : CString} {e f : Bool}

theorem Writes.andThen (hw : Writes w s e) (hv : Writes v t f) : Writes (andThen w v) (s ++ t) f where
  count := by
    rw [JSON.andThen, hw.count, ok_bind]
    dsimp only
    rw [hv.count, ok_bind, List.length_append]
  write out room hroom := by
    have hst : (s ++ t).length = s.length + t.length := List.length_append
    rw [hst] at hroom ⊢
    obtain ⟨room', hwrite, hlen, -⟩ := hw.write out room (by omega)
    obtain ⟨room'', hwrite', hlen', hended⟩ := hv.write (out ++ s) room' (by omega)
    refine ⟨room'', ?_, by omega, hended⟩
    rw [JSON.andThen, hwrite, ok_bind]
    dsimp only
    rw [hwrite', ok_bind, List.append_assoc]

theorem Writes.congr (hw : Writes w s e) (h : ∀ buf, v buf = w buf) (hst : t = s) : Writes v t e := by
  obtain rfl : v = w := funext h
  exact hst ▸ hw

/-- What is written with a terminator need not have one. -/
theorem Writes.weaken (hw : Writes w s e) : Writes w s false :=
  ⟨hw.count, fun out room hroom => by
    obtain ⟨room', hwrite, hlen, -⟩ := hw.write out room hroom
    exact ⟨room', hwrite, hlen, nofun⟩⟩

theorem writes_nothing : Writes (fun buf => .ok (buf, 0)) [] false :=
  ⟨rfl, fun out room _ => ⟨room, by rw [List.append_nil]; rfl, rfl, nofun⟩⟩

theorem appendString_writes (text : CString) : Writes (appendString · text) text true where
  count := rfl
  write out room hroom := by
    have hlen : (text ++ [NUL]).length = text.length + 1 := List.length_append
    refine ⟨some NUL :: room.drop (text.length + 1), ?_, ?_, fun _ => rfl⟩
    · rw [appendString, strcpy, store_next _ _ (by omega), inBounds, ok_bind, hlen]
      simp
    · rw [List.length_cons, List.length_drop]
      omega

theorem appendChar_writes (c : Char) : Writes (appendChar · c) [c] false where
  count := rfl
  write out room hroom := by
    refine ⟨room.drop 1, ?_, ?_, nofun⟩
    · rw [appendChar, store_next _ _ hroom.le, inBounds, ok_bind]
      simp
    · rw [List.length_singleton] at hroom ⊢
      rw [List.length_drop]
      omega

theorem serializeChar_writes (c : Char) : Writes (serializeChar c) (escaped c) false := by
  unfold serializeChar escaped
  cases escape c with
  | none => exact appendChar_writes c
  | some text => exact (appendString_writes text).weaken

theorem stringLoop_writes (s : CString) : Writes (stringLoop s) (s.flatMap escaped) false := by
  induction s with
  | nil => exact writes_nothing.congr (fun _ => rfl) rfl
  | cons c s ih => exact ((serializeChar_writes c).andThen ih).congr (fun _ => rfl) rfl

theorem appendComma_writes (more : Bool) : Writes (appendComma more) (comma more) false := by
  cases more with
  | false => exact writes_nothing.congr (fun _ => rfl) rfl
  | true => exact (appendString_writes [',']).weaken

/-- Three pieces are two and another one. -/
theorem andThen_three (u w v : Writer → Except Fault (Writer × ℕ)) (buf : Writer) :
    (do
      let (buf, a) ← u buf
      let (buf, b) ← w buf
      let (buf, c) ← v buf
      .ok (buf, a + b + c)) = andThen (andThen u w) v buf := by
  unfold andThen
  cases u buf with
  | error => rfl
  | ok r =>
    simp only [ok_bind]
    cases w r.1 with
    | error => rfl
    | ok r' => rfl

theorem jsonSerializeString_writes (s : CString) : Writes (jsonSerializeString s) (quoted s) true := by
  refine (((appendString_writes ['\"']).andThen (stringLoop_writes s)).andThen
    (appendString_writes ['\"'])).congr (fun buf => ?_) rfl
  exact andThen_three (appendString · ['\"']) _ (appendString · ['\"']) buf

end

section
variable {d : Doubles}

theorem serializeItems_writes {items : List (Value d.Double)}
    (h : ∀ v ∈ items, Writes (jsonSerializeToBufferR d v) (v.text d) true) :
    Writes (serializeItems d items) (itemsText d items) false := by
  induction items with
  | nil => exact writes_nothing.congr (fun _ => rfl) rfl
  | cons item items ih =>
    rw [List.forall_mem_cons] at h
    refine ((h.1.andThen (appendComma_writes (!items.isEmpty))).andThen (ih h.2)).congr (fun buf => ?_) rfl
    exact andThen_three _ _ _ buf

theorem serializeFields_writes {names : List CString} {values : List (Value d.Double)}
    (h : ∀ v ∈ values, Writes (jsonSerializeToBufferR d v) (v.text d) true) :
    Writes (serializeFields d names values) (fieldsText d names values) false := by
  induction values generalizing names with
  | nil =>
    cases names with
    | nil => exact writes_nothing.congr (fun _ => rfl) rfl
    | cons => exact writes_nothing.congr (fun _ => rfl) rfl
  | cons value values ih =>
    rw [List.forall_mem_cons] at h
    cases names with
    | nil => exact writes_nothing.congr (fun _ => rfl) rfl
    | cons key names =>
      refine (((((jsonSerializeString_writes key).andThen (appendString_writes [':'])).andThen h.1).andThen
        (appendComma_writes (!values.isEmpty))).andThen (ih h.2)).congr (fun buf => ?_) rfl
      rw [serializeFields]
      unfold andThen
      cases jsonSerializeString key buf with
      | error => rfl
      | ok r =>
        simp only [ok_bind]
        cases appendString r.1 [':'] with
        | error => rfl
        | ok r =>
          simp only [ok_bind]
          cases jsonSerializeToBufferR d value r.1 with
          | error => rfl
          | ok r =>
            simp only [ok_bind]
            cases appendComma (!values.isEmpty) r.1 with
            | error => rfl
            | ok r => rfl

/-- **`json_serialize_to_buffer_r`** writes the text of the value. -/
theorem jsonSerializeToBufferR_writes (v : Value d.Double) :
    Writes (jsonSerializeToBufferR d v) (v.text d) true := by
  induction v using Value.induction with
  | null => exact (appendString_writes "null".toList).congr (fun _ => by rw [jsonSerializeToBufferR]) rfl
  | boolean b =>
    exact (appendString_writes (if b then "true".toList else "false".toList)).congr
      (fun _ => by rw [jsonSerializeToBufferR]) (by rw [Value.text])
  | number x =>
    have hlen := d.sprintf_lt x
    have hroom : (d.sprintf x ++ [NUL]).length ≤ (fresh 1100).length := by
      rw [List.length_append, fresh_length, List.length_singleton]
      omega
    rw [Value.text]
    refine ⟨?_, fun out room hroom => ?_⟩
    · obtain ⟨buf', hstore⟩ : ∃ buf', strcpy (fresh 1100) 0 (d.sprintf x) = some buf' :=
        ⟨_, store_next [] _ hroom⟩
      rw [jsonSerializeToBufferR, hstore]
      rfl
    · obtain ⟨room', hwrite, hroom', hended⟩ := (appendString_writes (d.sprintf x)).write out room hroom
      exact ⟨room', hwrite ▸ by rw [jsonSerializeToBufferR], hroom', hended⟩
  | string s =>
    exact (jsonSerializeString_writes s).congr (fun _ => by rw [jsonSerializeToBufferR]) (by rw [Value.text])
  | array items ih =>
    refine (((appendString_writes ['[']).andThen (serializeItems_writes ih)).andThen
      (appendString_writes [']'])).congr (fun buf => ?_) (by rw [Value.text]; rfl)
    rw [jsonSerializeToBufferR]
    exact andThen_three (appendString · ['[']) _ (appendString · [']']) buf
  | object names values ih =>
    refine (((appendString_writes ['{']).andThen (serializeFields_writes ih)).andThen
      (appendString_writes ['}'])).congr (fun buf => ?_) (by rw [Value.text]; rfl)
    rw [jsonSerializeToBufferR]
    exact andThen_three (appendString · ['{']) _ (appendString · ['}']) buf

/-! ## The string -/

theorem quoted_nul {s : CString} (h : NUL ∉ s) : NUL ∉ quoted s := by
  have hchar : ∀ c, c ≠ NUL → NUL ∉ escaped c := by
    intro c hc
    unfold escaped escape
    split
    all_goals simp [NUL]
    exact Ne.symm hc
  simp only [quoted, List.mem_cons, List.mem_append, List.mem_flatMap, List.not_mem_nil, or_false]
  rintro (hmem | ⟨c, hc, hmem⟩ | hmem)
  · exact absurd hmem (by decide)
  · exact hchar c (fun heq => h (heq ▸ hc)) hmem
  · exact absurd hmem (by decide)

theorem comma_nul (more : Bool) : NUL ∉ comma more := by
  cases more <;> decide

theorem itemsText_nul {items : List (Value d.Double)} (h : ∀ v ∈ items, NUL ∉ v.text d) :
    NUL ∉ itemsText d items := by
  induction items with
  | nil => exact List.not_mem_nil
  | cons item items ih =>
    rw [List.forall_mem_cons] at h
    rw [itemsText, List.mem_append, List.mem_append]
    exact not_or.2 ⟨not_or.2 ⟨h.1, comma_nul _⟩, ih h.2⟩

theorem fieldsText_nul {names : List CString} {values : List (Value d.Double)}
    (hnames : ∀ name ∈ names, NUL ∉ name) (h : ∀ v ∈ values, NUL ∉ v.text d) :
    NUL ∉ fieldsText d names values := by
  induction values generalizing names with
  | nil => cases names <;> exact List.not_mem_nil
  | cons value values ih =>
    cases names with
    | nil => exact List.not_mem_nil
    | cons key names =>
      rw [List.forall_mem_cons] at h hnames
      rw [fieldsText, List.mem_append, List.mem_append, List.mem_append, List.mem_append]
      exact not_or.2 ⟨not_or.2 ⟨not_or.2 ⟨not_or.2 ⟨quoted_nul hnames.1, by decide⟩, h.1⟩,
        comma_nul _⟩, ih hnames.2 h.2⟩

/-- The text of a value that is well formed is a string. -/
theorem Value.WellFormed.text_nul {v : Value d.Double} (h : v.WellFormed) : NUL ∉ v.text d := by
  induction h with
  | null => exact (by decide : NUL ∉ "null".toList)
  | boolean b =>
    rw [Value.text]
    cases b <;> decide
  | number x =>
    rw [Value.text]
    exact d.sprintf_nul x
  | string hs =>
    rw [Value.text]
    exact quoted_nul hs
  | @array items _ ih =>
    rw [Value.text, List.mem_cons, List.mem_append]
    exact not_or.2 ⟨by decide, not_or.2 ⟨itemsText_nul ih, by decide⟩⟩
  | @object names values _ _ hnames _ ih =>
    rw [Value.text, List.mem_cons, List.mem_append]
    exact not_or.2 ⟨by decide, not_or.2 ⟨fieldsText_nul hnames ih, by decide⟩⟩

/-- **`json_serialization_size`** is the room for the text and its terminator. -/
theorem jsonSerializationSize_text (v : Value d.Double) :
    jsonSerializationSize d v = .ok ((v.text d).length + 1) := by
  rw [jsonSerializationSize, (jsonSerializeToBufferR_writes v).count]
  rfl

/-- **`json_serialize_to_buffer`** writes the text into a buffer that has the room, and into no other. -/
theorem jsonSerializeToBuffer_text {v : Value d.Double} (hv : v.WellFormed) (buf : Buffer) :
    ∃ o, jsonSerializeToBuffer d v buf = .ok o ∧ (o = none ↔ buf.length ≤ (v.text d).length) ∧
      ∀ buf', o = some buf' → buf'.length = buf.length ∧ string buf' = some (v.text d) := by
  rw [jsonSerializeToBuffer, jsonSerializationSize_text, ok_bind]
  by_cases hroom : buf.length ≤ (v.text d).length
  · rw [if_pos (by omega)]
    exact ⟨none, rfl, by simpa using hroom, nofun⟩
  · obtain ⟨room, hwrite, hlen, hended⟩ := (jsonSerializeToBufferR_writes v).write [] buf (by omega)
    obtain ⟨room, rfl⟩ : ∃ rest, room = some NUL :: rest := List.head?_eq_some_iff.1 (hended rfl)
    simp only [List.map_nil, List.nil_append, List.length_nil] at hwrite
    rw [if_neg (by omega), hwrite, ok_bind]
    refine ⟨_, rfl, by simpa using hroom, ?_⟩
    rintro buf' heq
    obtain rfl := Option.some.inj heq
    refine ⟨?_, string_terminated hv.text_nul⟩
    rw [List.length_append, List.length_map]
    omega

/-- **`json_serialize_to_string`** returns the text. -/
theorem jsonSerializeToString_text {v : Value d.Double} (hv : v.WellFormed) :
    jsonSerializeToString d v = .ok (some (v.text d)) := by
  obtain ⟨o, hbuf, hnone, hsome⟩ := jsonSerializeToBuffer_text hv (fresh ((v.text d).length + 1))
  rw [fresh_length] at hnone
  rw [jsonSerializeToString, jsonSerializationSize_text, ok_bind, hbuf, ok_bind]
  cases o with
  | none => exact absurd (hnone.1 rfl) (by omega)
  | some buf =>
    obtain ⟨-, hstring⟩ := hsome buf rfl
    dsimp only
    rw [hstring]
    rfl

/-- **The two runs agree**, for a text that can be counted in an `int`: the size that the first one counts is
    what the second one needs, and what is returned has been written up to its end. -/
theorem jsonSerializationSize_needed (v : Value d.Double) (hv : v.WellFormed)
    (hint : (v.text d).length < INT_MAX) :
    ∃ size text, jsonSerializationSize d v = .ok size ∧ size ≤ INT_MAX ∧
      jsonSerializeToString d v = .ok (some text) ∧ text.length + 1 = size ∧
      ∀ buf, ∃ o, jsonSerializeToBuffer d v buf = .ok o ∧ (o.isSome ↔ size ≤ buf.length) ∧
        ∀ buf', o = some buf' → buf'.length = buf.length ∧ string buf' = some text := by
  refine ⟨_, _, jsonSerializationSize_text v, hint, jsonSerializeToString_text hv, rfl, fun buf => ?_⟩
  obtain ⟨o, hbuf, hnone, hsome⟩ := jsonSerializeToBuffer_text hv buf
  refine ⟨o, hbuf, ?_, hsome⟩
  rw [← Option.ne_none_iff_isSome, Ne, hnone, not_le]
  exact Iff.rfl

/-- An object with a string, and a number in an array. -/
def exported : Value Doubles.naturals.Double :=
  .object ["path".toList, "usec".toList] [.string "/a\n".toList, .array [.number (12 : ℕ)]]

theorem exported_wellFormed : exported.WellFormed :=
  .object rfl (by decide) (by decide) (List.forall_mem_cons.2 ⟨.string (by decide), List.forall_mem_singleton.2
    (.array (List.forall_mem_singleton.2 (.number _)))⟩)

theorem exported_text : exported.text .naturals = "\x7b\"path\":\"\\/a\\n\",\"usec\":[12]\x7d".toList := by
  decide +kernel

/-- The text has 28 characters. -/
theorem jsonSerializationSize_needed_exported : ∃ text, jsonSerializationSize .naturals exported = .ok 29 ∧
    jsonSerializeToString .naturals exported = .ok (some text) ∧ text.length = 28 ∧
      ∀ buf, ∃ o, jsonSerializeToBuffer .naturals exported buf = .ok o ∧ (o.isSome ↔ 29 ≤ buf.length) ∧
        ∀ buf', o = some buf' → buf'.length = buf.length ∧ string buf' = some text := by
  have hlen : (exported.text .naturals).length = 28 := by
    rw [exported_text]
    rfl
  obtain ⟨size, text, hsize, -, htext, hroom, hbuf⟩ :=
    jsonSerializationSize_needed exported exported_wellFormed (by rw [hlen]; decide)
  obtain rfl : (exported.text .naturals).length + 1 = size :=
    Except.ok.inj ((jsonSerializationSize_text exported).symm.trans hsize)
  rw [hlen] at hsize hroom hbuf
  exact ⟨text, hsize, htext, Nat.succ.inj hroom, hbuf⟩

end

end NFStash.JSON
