/-
  JSON objects as text.

  A command prints an object as a line, and another one reads the strings in it.  A
  `Parson` is a pair of functions for this that agree on all objects.  `parson.c` is one on the objects
  that it neither shortens nor rejects (`LegibleObject`); `parsonOf` is the library with lines of its own
  for the others.
-/
import Mathlib.Data.Countable.Basic
import Mathlib.Logic.Equiv.List
import NFStash.JsonLines

namespace NFStash

open CLib

/-- JSON objects as text: from the line that is printed for an object its strings can be read. -/
structure Parson where
  line : JsonObject → CString
  getString : CString → String → Option CString
  line_ne_nil : ∀ obj, line obj ≠ []
  getString_line : ∀ obj key s, obj.lookup key = some (.string s) → getString (line obj) key = some s

end NFStash

namespace NFStash.JSON

open CLib Buffers

/-! ## Objects that are neither shortened nor rejected -/

/-- A string that is printed and read back. -/
structure Legible (s : CString) : Prop where
  utf8 : IsUtf8 s
  printable : Printable s
  nul : NUL ∉ s

/-- Every string of an object is. -/
structure LegibleObject (obj : JsonObject) : Prop where
  names : PlainNames obj
  nodup : (obj.map Prod.fst).Nodup
  length : obj.length ≤ OBJECT_MAX_CAPACITY
  strings : ∀ field ∈ obj, ∀ s, field.2 = .string s → Legible s

theorem Ascii.legible {s : CString} (h : Ascii s) : Legible s := ⟨h.utf8, h.printable, h.nul⟩

theorem Legible.append {s t : CString} (hs : Legible s) (ht : Legible t) : Legible (s ++ t) where
  utf8 := by
    obtain ⟨text, htext⟩ := hs.utf8
    obtain ⟨text', htext'⟩ := ht.utf8
    refine ⟨text ++ text', ?_⟩
    rw [octets, List.map_append, List.flatMap_append, ← htext, ← htext']
    rfl
  printable := List.forall_mem_append.2 ⟨hs.printable, ht.printable⟩
  nul := List.mem_append.not.2 (not_or.2 ⟨hs.nul, ht.nul⟩)

section
variable (num : Numbers)

/-- The line that a command prints for these fields. -/
def commandLine (obj : JsonObject) : Except Fault (Option CString) := do
  printLine num (← obj.foldlM (setField num) {})

/-- The line of an object that is legible. -/
def textLine (obj : JsonObject) : CString :=
  (Value.object (obj.map fun field => field.1.toList) (obj.map fun field => value num field.2)).text
    num.toDoubles ++ ['\n']

variable {obj : JsonObject}

theorem LegibleObject.line (h : LegibleObject obj) : commandLine num obj = .ok (some (textLine num obj)) ∧
    textLine num obj ≠ [] ∧ (textLine num obj).head? = some '{' ∧ ∀ key,
      jsonObjectGetString num.toDoubles (textLine num obj) key = (obj.lookup key).bind string? := by
  have hlen : ([] : JsonObject).length + obj.length ≤ OBJECT_MAX_CAPACITY := by
    rw [List.length_nil, Nat.zero_add]
    exact h.length
  have hkept : kept obj = obj := by
    refine kept_eq fun field hfield => ?_
    obtain ⟨name, v⟩ := field
    cases v with
    | number n => trivial
    | string s => exact (h.strings _ hfield s rfl).utf8
  obtain ⟨object, hset, hholds⟩ := (holds_nil num).setFields obj hlen
  rw [hkept, foldl_jsonSet (by simpa using h.nodup), List.nil_append] at hholds
  obtain ⟨line, hline, hne, hget⟩ := jsonObjectGetString_line hholds h.names
    fun field hfield s hs => (h.strings field hfield s hs).nul
  have hwf := hholds.wellFormed h.names fun field hfield s hs => (h.strings field hfield s hs).nul
  have htext : line = textLine num obj := by
    rw [printLine, jsonSerializeToString_text hwf, hholds.names, hholds.values] at hline
    exact (Option.some.inj (Except.ok.inj hline)).symm
  subst htext
  refine ⟨?_, hne, ?_, fun key => ?_⟩
  · rw [commandLine, hset, ok_bind, hline]
  · rw [textLine, Value.text]
    rfl
  · have hall : AllPrintable obj := fun field hfield s hs => (h.strings field hfield s hs).printable
    rw [hget key, if_pos hall]

/-! ## The library as a `Parson` -/

instance : Countable JsonValue := by
  have hchar : Countable Char := Function.Injective.countable (f := Char.toNat) fun _ _ => Char.toNat_inj.1
  let code : JsonValue → CString ⊕ ℕ
    | .string s => .inl s
    | .number n => .inr n
  refine Function.Injective.countable (f := code) fun v w h => ?_
  cases v <;> cases w <;> cases h <;> rfl

/-- There are lines for all objects that the library does not write. -/
theorem exists_spare : ∃ spare : JsonObject → CString, spare.Injective ∧ ∀ obj, (spare obj).head? = some 'x' := by
  have hchar : Countable Char := Function.Injective.countable (f := Char.toNat) fun _ _ => Char.toNat_inj.1
  have hname : Countable String :=
    Function.Injective.countable (f := String.toList) fun _ _ => String.toList_inj.1
  obtain ⟨number, hnumber⟩ := exists_injective_nat (List (String × JsonValue))
  refine ⟨fun obj => List.replicate (number obj + 1) 'x', fun obj obj' h => hnumber ?_, fun obj => ?_⟩
  · have hlen := congrArg List.length h
    simpa only [List.length_replicate, Nat.add_right_cancel_iff] using hlen
  · rfl

noncomputable def spare : JsonObject → CString := exists_spare.choose

theorem spare_injective : spare.Injective := exists_spare.choose_spec.1

theorem spare_head (obj : JsonObject) : (spare obj).head? = some 'x' := exists_spare.choose_spec.2 obj

open Classical in
/-- The library, with lines of another kind for objects that it does not give back. -/
noncomputable def parsonOf : Parson where
  line obj := if LegibleObject obj then textLine num obj else spare obj
  getString input key :=
    if input.head? = some 'x' then ((Function.invFun spare input).lookup key).bind string?
    else jsonObjectGetString num.toDoubles input key
  line_ne_nil obj := by
    split_ifs with h
    · exact (h.line num).2.1
    · intro hnil
      have hhead := spare_head obj
      rw [hnil] at hhead
      cases hhead
  getString_line obj key s hs := by
    by_cases h : LegibleObject obj
    · obtain ⟨-, -, hhead, hget⟩ := h.line num
      rw [if_pos h, hhead, if_neg (by decide), hget, hs]
      rfl
    · rw [if_neg h, if_pos (spare_head obj), Function.leftInverse_invFun spare_injective obj, hs]
      rfl

variable {num}

theorem parsonOf_line (h : LegibleObject obj) : (parsonOf num).line obj = textLine num obj := if_pos h

theorem parsonOf_getString (h : LegibleObject obj) (key : String) :
    (parsonOf num).getString (textLine num obj) key =
      jsonObjectGetString num.toDoubles (textLine num obj) key := by
  have hhead : (textLine num obj).head? ≠ some 'x' := by
    rw [(h.line num).2.2.1]
    decide
  simp only [parsonOf, if_neg hhead]

theorem parsonOf_lines {objs : List JsonObject} (h : ∀ obj ∈ objs, LegibleObject obj) :
    objs.map (parsonOf num).line = objs.map (textLine num) :=
  List.map_congr_left fun obj hobj => parsonOf_line (h obj hobj)

/-! ## Lines are all that is read -/

section
variable {lookup lookup' : CString → String → Option CString}

theorem parseFh_agree {input : CString} (h : lookup input = lookup' input) (junk : ℕ → UInt8)
    (head : List Target) (port : UInt16) (count : ℕ) :
    parseFh lookup junk head input port count = parseFh lookup' junk head input port count := by
  have hfields : ∀ current, parseFields lookup junk input count current =
      parseFields lookup' junk input count current := by
    intro current
    unfold parseFields
    rw [h]
  unfold parseFh parseTarget
  simp only [h, hfields]

theorem parseLines_agree {inputs : List CString} (h : ∀ input ∈ inputs, lookup input = lookup' input)
    (junk : ℕ → UInt8) (port : UInt16) (count : ℕ) (head : List Target) :
    parseLines lookup junk port count head inputs = parseLines lookup' junk port count head inputs := by
  induction inputs generalizing head with
  | nil => rfl
  | cons input inputs ih =>
    rw [List.forall_mem_cons] at h
    simp only [parseLines, parseFh_agree h.1, ih h.2]

theorem lsMain_agree {inputs : List CString} (h : ∀ input ∈ inputs, lookup input = lookup' input)
    (cfg : LsConfig) (env : LsEnv) (pages depth : ℕ) (junk : ℕ → UInt8) (fuel : ℕ) :
    lsMain cfg env pages depth lookup junk inputs fuel =
      lsMain cfg env pages depth lookup' junk inputs fuel := by
  unfold lsMain
  simp only [parseLines_agree h]

/-- A run over lines of legible objects is one with the library itself. -/
theorem lsMain_parsonOf {objs : List JsonObject} (h : ∀ obj ∈ objs, LegibleObject obj) (cfg : LsConfig)
    (env : LsEnv) (pages depth : ℕ) (junk : ℕ → UInt8) (fuel : ℕ) :
    lsMain cfg env pages depth (parsonOf num).getString junk (objs.map (parsonOf num).line) fuel =
      lsMain cfg env pages depth (jsonObjectGetString num.toDoubles) junk (objs.map (textLine num)) fuel := by
  rw [parsonOf_lines h]
  refine lsMain_agree (fun input hinput => ?_) cfg env pages depth junk fuel
  obtain ⟨obj, hobj, rfl⟩ := List.mem_map.1 hinput
  exact funext (parsonOf_getString (h obj hobj))

end

end

/-! ## Objects of the commands -/

theorem legible_given {p : Printed} (hhost : Legible p.target.name) (hip : Legible p.target.ipAddress)
    (hpath : Legible p.path) : LegibleObject p.given := by
  have hstring (name : String) (s : CString) (hs : Legible s) (t : CString)
      (heq : (name, JsonValue.string s).2 = .string t) : Legible t := by
    obtain rfl := JsonValue.string.inj heq
    exact hs
  refine ⟨?_, p.given_nodup, ?_, ?_⟩
  · intro field hfield
    rcases Printed.mem_given hfield with rfl | rfl | rfl | hplain
    · exact (by decide : Ascii "host".toList)
    · exact (by decide : Ascii "ip".toList)
    · exact (by decide : Ascii "path".toList)
    · exact hplain.1
  · have hmax : OBJECT_MAX_CAPACITY = 960 := rfl
    cases p with
    | mount => exact show 7 ≤ 960 by decide
    | ls target path e usec =>
      rw [Printed.given, Printed.rest]
      cases e.nameAttributes with
      | none => exact show 6 ≤ 960 by decide
      | some => exact show 13 ≤ 960 by decide
  · intro field hfield
    rcases Printed.mem_given hfield with rfl | rfl | rfl | hplain
    · exact hstring _ _ hhost
    · exact hstring _ _ hip
    · exact hstring _ _ hpath
    · exact fun s hs => (hplain.2 s hs).legible

theorem printEntrypluslink3_given (host ip path : CString) (e : Entrypluslink3) (usec : ℕ) :
    NFStash.printEntrypluslink3 host e ip path usec =
      (Printed.ls { name := host, ipAddress := ip } path e usec).given := by
  rw [NFStash.printEntrypluslink3, Printed.given, Printed.rest]
  cases e.nameAttributes <;> rfl

example : textLine .naturals [("path", .string "/x".toList), ("usec", .number 70)] =
    "\x7b\"path\":\"\\/x\",\"usec\":70\x7d\n".toList := by decide +kernel

end NFStash.JSON
