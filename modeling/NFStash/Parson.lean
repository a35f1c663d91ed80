/-
  `parson.c`: values of JSON, and their text.

  `parse_fh` reads the lines of its input with this library, and `nfsmount` and `nfsls` print theirs
  with it.  The parser works on the memory of a string (`memory`), which it may not leave; the
  serializer runs twice, for the size and for the text.

  Memory allocations do not fail, sizes fit in an `int`, and numbers are a parameter (`Doubles`).  A
  name of an object is found at its own index, as the names differ (`Value.WellFormed`).
-/
import NFStash.Lib.Utf8
import NFStash.ReplaceChar

namespace NFStash.JSON

open CLib Buffers

/-! ## Values -/

/-- `double`, and the functions of the standard library for it. -/
structure Doubles where
  Double : Type
  /-- `strtod`: the number, and how many characters it has -/
  strtod : CString → Double × ℕ
  /-- `sprintf` with `%d` if the number is an integer, and else with `%f` -/
  sprintf : Double → CString
  strtod_le : ∀ s, (strtod s).2 ≤ s.length
  sprintf_lt : ∀ x, (sprintf x).length < 1100
  sprintf_nul : ∀ x, NUL ∉ sprintf x

/-- `JSON_Value`; the names and the values of an object are two arrays. -/
inductive Value (Number : Type) where
  | null
  | boolean (b : Bool)
  | number (x : Number)
  | string (s : CString)
  | array (items : List (Value Number))
  | object (names : List CString) (values : List (Value Number))

/-- `JSON_Object`. -/
structure Object (Number : Type) where
  names : List CString := []
  values : List (Value Number) := []
  capacity : ℕ := 0

/-- `JSON_Array`. -/
structure Array (Number : Type) where
  items : List (Value Number) := []
  capacity : ℕ := 0

def STARTING_CAPACITY : ℕ := 15
def ARRAY_MAX_CAPACITY : ℕ := 122880
def OBJECT_MAX_CAPACITY : ℕ := 960
def MAX_NESTING : ℕ := 19

section
variable {Number : Type}

/-- `json_object_get_value`, with the names and the values of an object. -/
def jsonObjectGetValue (names : List CString) (values : List (Value Number)) (name : CString) :
    Option (Value Number) :=
  (names.zip values).lookup name

/-- `json_object_resize`. -/
def jsonObjectResize (object : Object Number) (newCapacity : ℕ) : Option (Object Number) :=
  if newCapacity = 0 then none else some { object with capacity := newCapacity }

/-- An object with room for another field. -/
def objectRoom (object : Object Number) : Option (Object Number) :=
  if object.names.length ≥ object.capacity then
    let newCapacity := max (object.capacity * 2) STARTING_CAPACITY
    if newCapacity > OBJECT_MAX_CAPACITY then none else jsonObjectResize object newCapacity
  else some object

/-- `json_object_add`. -/
def jsonObjectAdd (object : Object Number) (name : CString) (value : Value Number) :
    Option (Object Number) := do
  let object ← objectRoom object
  if (jsonObjectGetValue object.names object.values name).isSome then none
  else some { object with names := object.names ++ [name], values := object.values ++ [value] }

/-- `json_array_resize`. -/
def jsonArrayResize (array : Array Number) (newCapacity : ℕ) : Option (Array Number) :=
  if newCapacity = 0 then none else some { array with capacity := newCapacity }

/-- An array with room for another item. -/
def arrayRoom (array : Array Number) : Option (Array Number) :=
  if array.items.length ≥ array.capacity then
    let newCapacity := max (array.capacity * 2) STARTING_CAPACITY
    if newCapacity > ARRAY_MAX_CAPACITY then none else jsonArrayResize array newCapacity
  else some array

/-- `json_array_add`. -/
def jsonArrayAdd (array : Array Number) (value : Value Number) : Option (Array Number) := do
  let array ← arrayRoom array
  some { array with items := array.items ++ [value] }

end

/-! ## Memory -/

/-- The memory of a string, with its terminator. -/
def memory (s : CString) : CString := s ++ [NUL]

/-- `*p`, where the memory goes on from `p` like this. -/
def deref : CString → Except Fault Char
  | [] => .error .outOfBounds
  | c :: _ => .ok c

/-- `isspace`, in the C locale. -/
def isspace (c : Char) : Bool := c = ' ' || (9 ≤ c.toNat && c.toNat ≤ 13)

def skipWhitespaces : CString → Except Fault CString
  | [] => .error .outOfBounds
  | c :: cs => if isspace c then skipWhitespaces cs else .ok (c :: cs)

/-! ## UTF-8 -/

/-- A character as an `unsigned char`. -/
def octet (c : Char) : ℕ := c.toNat % 256

def isCont (b : ℕ) : Bool := b &&& 0xC0 = 0x80

def numBytesInUtf8Sequence (c : ℕ) : ℕ :=
  if c = 0xC0 ∨ c = 0xC1 ∨ c > 0xF4 ∨ isCont c then 0
  else if c &&& 0x80 = 0 then 1
  else if c &&& 0xE0 = 0xC0 then 2
  else if c &&& 0xF0 = 0xE0 then 3
  else if c &&& 0xF8 = 0xF0 then 4
  else 0

/-- The code point, after this many continuation bytes; one is read if those before it are some. -/
def continued : ℕ → ℕ → CString → Except Fault (Option ℕ)
  | 0, cp, _ => .ok (some cp)
  | n + 1, cp, string => do
    let b := octet (← deref string)
    if isCont b then continued n (cp <<< 6 ||| (b &&& 0x3F)) string.tail else .ok none

/-- The code point of a sequence of this length with the first byte `b`, if it has the other bytes. -/
def codePoint (len b : ℕ) (string : CString) : Except Fault (Option ℕ) :=
  if len = 1 then .ok (some b)
  else if len = 2 then continued 1 (b &&& 0x1F) string.tail
  else if len = 3 then continued 2 (b &&& 0xF) string.tail
  else if len = 4 then continued 3 (b &&& 0x7) string.tail
  else .ok none

/-- `verify_utf8_sequence`: the length, if there is one. -/
def verifyUtf8Sequence (string : CString) : Except Fault (Option ℕ) := do
  let b := octet (← deref string)
  let len := numBytesInUtf8Sequence b
  match ← codePoint len b string with
  | none => .ok none
  | some cp =>
    if (cp < 0x80 ∧ len > 1) ∨ (cp < 0x800 ∧ len > 2) ∨ (cp < 0x10000 ∧ len > 3) then .ok none
    else if cp > 0x10FFFF then .ok none
    else if cp ≥ 0xD800 ∧ cp ≤ 0xDFFF then .ok none
    else .ok (some len)

/-- The loop of `is_valid_utf8`, with what is left of the length. -/
def isValidUtf8Loop : ℕ → CString → ℕ → Except Fault Bool
  | 0, _, _ => .error .fuel
  | fuel + 1, string, left =>
    if left = 0 then .ok true
    else do
      match ← verifyUtf8Sequence string with
      | none => .ok false
      | some len => isValidUtf8Loop fuel (string.drop len) (left - len)

/-- `is_valid_utf8`. -/
def isValidUtf8 (string : CString) (stringLen : ℕ) : Except Fault Bool :=
  isValidUtf8Loop (stringLen + 1) string stringLen

/-! ## Strings -/

/-- The loop of `skip_quotes`. -/
def skipQuotesLoop : CString → Except Fault CString
  | [] => .error .outOfBounds
  | c :: string =>
    if c = '\"' then .ok string
    else if c = NUL then .ok (c :: string)
    else if c = '\\' then
      match string with
      | [] => .error .outOfBounds
      | d :: string => if d = NUL then .ok (d :: string) else skipQuotesLoop string
    else skipQuotesLoop string

/-- `skip_quotes`: the first character may be any. -/
def skipQuotes (string : CString) : Except Fault CString := skipQuotesLoop string.tail

def isxdigit (c : Char) : Bool := c.isDigit || ('a' ≤ c && c ≤ 'f') || ('A' ≤ c && c ≤ 'F')

def hexDigit (c : Char) : ℕ :=
  if c.isDigit then c.toNat - 48 else if 'a' ≤ c then c.toNat - 87 else c.toNat - 55

/-- `is_utf16_hex`; a character is read if those before it are digits. -/
def isHex : ℕ → CString → Except Fault Bool
  | 0, _ => .ok true
  | n + 1, s => do
    let c ← deref s
    if isxdigit c then isHex n s.tail else .ok false

/-- `sscanf` with `%4x`, at four digits. -/
def hexValue (s : CString) : ℕ := (s.take 4).foldl (fun n c => n * 16 + hexDigit c) 0

/-- A byte that is written. -/
def byte (n : ℕ) : Char := Char.ofNat (n % 256)

/-- The trail surrogate behind a lead surrogate. -/
def trailSurrogate (unprocessed : CString) : Except Fault (Option ℕ) := do
  let c ← deref unprocessed
  if c ≠ '\\' then .ok none
  else do
    let c ← deref unprocessed.tail
    if c ≠ 'u' then .ok none
    else do
      let hex ← isHex 4 unprocessed.tail.tail
      let trail := hexValue unprocessed.tail.tail
      .ok (if !hex ∨ trail < 0xDC00 ∨ trail > 0xDFFF then none else some trail)

/-- `parse_utf_16`: both pointers are at the last character then. -/
def parseUtf16 (unprocessed : CString) (output : Buffer) (processed : ℕ) :
    Except Fault (Option (CString × Buffer × ℕ)) := do
  let unprocessed := unprocessed.tail
  let hex ← isHex 4 unprocessed
  let cp := hexValue unprocessed
  if !hex then .ok none
  else if cp < 0x80 then do
    let output ← inBounds (store output processed [byte cp])
    .ok (some (unprocessed.drop 3, output, processed))
  else if cp < 0x800 then do
    let output ← inBounds (store output processed
      [byte ((cp >>> 6 &&& 0x1F) ||| 0xC0), byte ((cp &&& 0x3F) ||| 0x80)])
    .ok (some (unprocessed.drop 3, output, processed + 1))
  else if cp < 0xD800 ∨ cp > 0xDFFF then do
    let output ← inBounds (store output processed
      [byte ((cp >>> 12 &&& 0x0F) ||| 0xE0), byte ((cp >>> 6 &&& 0x3F) ||| 0x80),
        byte ((cp &&& 0x3F) ||| 0x80)])
    .ok (some (unprocessed.drop 3, output, processed + 2))
  else if cp ≥ 0xD800 ∧ cp ≤ 0xDBFF then do
    match ← trailSurrogate (unprocessed.drop 4) with
    | none => .ok none
    | some trail =>
      let cp := (((cp - 0xD800) &&& 0x3FF) <<< 10 ||| ((trail - 0xDC00) &&& 0x3FF)) + 0x010000
      let output ← inBounds (store output processed
        [byte ((cp >>> 18 &&& 0x07) ||| 0xF0), byte ((cp >>> 12 &&& 0x3F) ||| 0x80),
          byte ((cp >>> 6 &&& 0x3F) ||| 0x80), byte ((cp &&& 0x3F) ||| 0x80)])
      .ok (some (unprocessed.drop 9, output, processed + 3))
  else .ok none

/-- The character after a backslash. -/
def unescape : Char → Option Char
  | '\"' => some '\"'
  | '\\' => some '\\'
  | '/' => some '/'
  | 'b' => some '\x08'
  | 'f' => some '\x0c'
  | 'n' => some '\n'
  | 'r' => some '\r'
  | 't' => some '\t'
  | _ => none

/-- The loop of `process_string`: the output, and how much of it has been written. -/
def processLoop (input : CString) (len : ℕ) :
    ℕ → CString → Buffer → ℕ → Except Fault (Option (Buffer × ℕ))
  | 0, _, _, _ => .error .fuel
  | fuel + 1, inputPtr, output, outputPtr => do
    let c ← deref inputPtr
    if c ≠ NUL ∧ input.length - inputPtr.length < len then
      if c = '\\' then do
        let c ← deref inputPtr.tail
        if c = 'u' then do
          match ← parseUtf16 inputPtr.tail output outputPtr with
          | none => .ok none
          | some (inputPtr, output, outputPtr) =>
            processLoop input len fuel inputPtr.tail output (outputPtr + 1)
        else match unescape c with
          | none => .ok none
          | some d => do
            let output ← inBounds (store output outputPtr [d])
            processLoop input len fuel inputPtr.tail.tail output (outputPtr + 1)
      else if c.toNat < 0x20 then .ok none
      else do
        let output ← inBounds (store output outputPtr [c])
        processLoop input len fuel inputPtr.tail output (outputPtr + 1)
    else .ok (some (output, outputPtr))

/-- `process_string`: the string that is returned ends at its first NUL. -/
def processString (input : CString) (len : ℕ) : Except Fault (Option CString) := do
  match ← processLoop input len (len + 1) input (fresh (len + 1)) 0 with
  | none => .ok none
  | some (output, outputPtr) => do
    let output ← inBounds (store output outputPtr [NUL])
    let s ← inBounds (string (output.take (outputPtr + 1)))
    .ok (some s)

def getQuotedString (string : CString) : Except Fault (Option CString × CString) := do
  let stringStart := string
  let string ← skipQuotes string
  let c ← deref string
  if c = NUL then .ok (none, string)
  else do
    let s ← processString stringStart.tail (stringStart.length - string.length - 2)
    .ok (s, string)

/-! ## Parser -/

/-- `strncmp(token, p, strlen(token)) == 0`; the terminator differs from the characters of a token. -/
def strncmp (token : CString) (p : CString) : Bool := token.isPrefixOf p

/-- `is_decimal`, with a string that goes on behind its end. -/
def isDecimal (string : CString) (length : ℕ) : Bool :=
  if length > 1 ∧ string[0]? = some '0' ∧ string[1]? ≠ some '.' then false
  else if length > 2 ∧ strncmp "-0".toList string ∧ string[2]? ≠ some '.' then false
  else (string.take length).all fun c => c ≠ 'x' && c ≠ 'X'

section
variable (d : Doubles)

/-! ### Values, and what follows them -/

def parseStringValue (string : CString) : Except Fault (Option (Value d.Double × CString)) := do
  let (newString, string) ← getQuotedString string
  .ok (newString.map fun s => (.string s, string))

def parseBooleanValue (string : CString) : Option (Value d.Double × CString) :=
  if strncmp "true".toList string then some (.boolean true, string.drop 4)
  else if strncmp "false".toList string then some (.boolean false, string.drop 5)
  else none

def parseNumberValue (string : CString) : Option (Value d.Double × CString) :=
  let (number, length) := d.strtod (string.takeWhile (· ≠ NUL))
  if isDecimal string length then some (.number number, string.drop length) else none

def parseNullValue (string : CString) : Option (Value d.Double × CString) :=
  if strncmp "null".toList string then some (.null, string.drop 4) else none

/-- The end of `parse_object_value`. -/
def objectEnd (object : Object d.Double) (string : CString) : Except Fault (Option (Value d.Double × CString)) := do
  let string ← skipWhitespaces string
  let c ← deref string
  if c ≠ '}' ∨ (jsonObjectResize object object.names.length).isNone then .ok none
  else .ok (some (.object object.names object.values, string.tail))

/-- The end of `parse_array_value`. -/
def arrayEnd (array : Array d.Double) (string : CString) : Except Fault (Option (Value d.Double × CString)) := do
  let string ← skipWhitespaces string
  let c ← deref string
  if c ≠ ']' ∨ (jsonArrayResize array array.items.length).isNone then .ok none
  else .ok (some (.array array.items, string.tail))

mutual

def parseValue : ℕ → ℕ → CString → Except Fault (Option (Value d.Double × CString))
  | 0, _, _ => .error .fuel
  | fuel + 1, nesting, string =>
    if nesting > MAX_NESTING then .ok none
    else do
      let string ← skipWhitespaces string
      let c ← deref string
      if c = '{' then parseObjectValue fuel (nesting + 1) string
      else if c = '[' then parseArrayValue fuel (nesting + 1) string
      else if c = '\"' then parseStringValue d string
      else if c = 'f' ∨ c = 't' then .ok (parseBooleanValue d string)
      else if c = '-' ∨ c.isDigit then .ok (parseNumberValue d string)
      else if c = 'n' then .ok (parseNullValue d string)
      else .ok none

def parseObjectValue : ℕ → ℕ → CString → Except Fault (Option (Value d.Double × CString))
  | 0, _, _ => .error .fuel
  | fuel + 1, nesting, string => do
    let string ← skipWhitespaces string.tail
    let c ← deref string
    if c = '}' then .ok (some (.object [] [], string.tail))
    else objectLoop fuel nesting {} string

/-- The loop of `parse_object_value`. -/
def objectLoop : ℕ → ℕ → Object d.Double → CString → Except Fault (Option (Value d.Double × CString))
  | 0, _, _, _ => .error .fuel
  | fuel + 1, nesting, object, string => do
    let c ← deref string
    if c = NUL then objectEnd d object string
    else do
      let (newKey, string) ← getQuotedString string
      let string ← skipWhitespaces string
      let c ← deref string
      match newKey with
      | none => .ok none
      | some newKey =>
        if c ≠ ':' then .ok none
        else do
          match ← parseValue fuel nesting string.tail with
          | none => .ok none
          | some (newValue, string) =>
            match jsonObjectAdd object newKey newValue with
            | none => .ok none
            | some object => do
              let string ← skipWhitespaces string
              let c ← deref string
              if c ≠ ',' then objectEnd d object string
              else do
                let string ← skipWhitespaces string.tail
                objectLoop fuel nesting object string

def parseArrayValue : ℕ → ℕ → CString → Except Fault (Option (Value d.Double × CString))
  | 0, _, _ => .error .fuel
  | fuel + 1, nesting, string => do
    let string ← skipWhitespaces string.tail
    let c ← deref string
    if c = ']' then .ok (some (.array [], string.tail))
    else arrayLoop fuel nesting {} string

/-- The loop of `parse_array_value`. -/
def arrayLoop : ℕ → ℕ → Array d.Double → CString → Except Fault (Option (Value d.Double × CString))
  | 0, _, _, _ => .error .fuel
  | fuel + 1, nesting, array, string => do
    let c ← deref string
    if c = NUL then arrayEnd d array string
    else do
      match ← parseValue fuel nesting string with
      | none => .ok none
      | some (newArrayValue, string) =>
        match jsonArrayAdd array newArrayValue with
        | none => .ok none
        | some array => do
          let string ← skipWhitespaces string
          let c ← deref string
          if c ≠ ',' then arrayEnd d array string
          else do
            let string ← skipWhitespaces string.tail
            arrayLoop fuel nesting array string

end

/-- `json_parse_string`. -/
def jsonParseString (string : CString) : Except Fault (Option (Value d.Double)) := do
  let start ← skipWhitespaces (memory string)
  let c ← deref start
  if c ≠ '{' ∧ c ≠ '[' then .ok none
  else do
    let value ← parseValue d (3 * start.length + 1) 0 start
    .ok (value.map Prod.fst)

/-! ## Serializer -/

end

/-- `buf`: without one there is only a count; or the memory, and how much of it has been written. -/
abbrev Writer := Option (Buffer × ℕ)

/-- `APPEND_STRING`: `buf`, moved on, and how many characters have been written. -/
def appendString (buf : Writer) (text : CString) : Except Fault (Writer × ℕ) :=
  match buf with
  | none => .ok (none, text.length)
  | some (mem, pos) => do
    let mem ← inBounds (strcpy mem pos text)
    .ok (some (mem, pos + text.length), text.length)

/-- A character that is written as it is, without a terminator. -/
def appendChar (buf : Writer) (c : Char) : Except Fault (Writer × ℕ) :=
  match buf with
  | none => .ok (none, 1)
  | some (mem, pos) => do
    let mem ← inBounds (store mem pos [c])
    .ok (some (mem, pos + 1), 1)

/-- The text of a character that is not written as it is. -/
def escape : Char → Option CString
  | '\"' => some "\\\"".toList
  | '\\' => some "\\\\".toList
  | '/' => some "\\/".toList
  | '\x08' => some "\\b".toList
  | '\x0c' => some "\\f".toList
  | '\n' => some "\\n".toList
  | '\r' => some "\\r".toList
  | '\t' => some "\\t".toList
  | _ => none

def serializeChar (c : Char) (buf : Writer) : Except Fault (Writer × ℕ) :=
  match escape c with
  | some text => appendString buf text
  | none => appendChar buf c

/-- The loop of `json_serialize_string`. -/
def stringLoop : CString → Writer → Except Fault (Writer × ℕ)
  | [], buf => .ok (buf, 0)
  | c :: string, buf => do
    let (buf, written) ← serializeChar c buf
    let (buf, writtenTotal) ← stringLoop string buf
    .ok (buf, written + writtenTotal)

/-- The comma, if there is more to come. -/
def appendComma (more : Bool) (buf : Writer) : Except Fault (Writer × ℕ) :=
  if more then appendString buf [','] else .ok (buf, 0)

def jsonSerializeString (string : CString) (buf : Writer) : Except Fault (Writer × ℕ) := do
  let (buf, first) ← appendString buf ['\"']
  let (buf, written) ← stringLoop string buf
  let (buf, last) ← appendString buf ['\"']
  .ok (buf, first + written + last)

section
variable (d : Doubles)

mutual

/-- `json_serialize_to_buffer_r`, as it is used here: not pretty.  What it counts is an `int` in the source,
    which is the same for a text of fewer than `INT_MAX` characters: no count exceeds that of the text. -/
def jsonSerializeToBufferR : Value d.Double → Writer → Except Fault (Writer × ℕ)
  | .array items, buf => do
    let (buf, first) ← appendString buf ['[']
    let (buf, written) ← serializeItems items buf
    let (buf, last) ← appendString buf [']']
    .ok (buf, first + written + last)
  | .object names values, buf => do
    let (buf, first) ← appendString buf ['{']
    let (buf, written) ← serializeFields names values buf
    let (buf, last) ← appendString buf ['}']
    .ok (buf, first + written + last)
  | .string s, buf => jsonSerializeString s buf
  | .boolean b, buf => appendString buf (if b then "true".toList else "false".toList)
  | .number x, buf =>
    match buf with
    | none => do
      let _ ← inBounds (strcpy (fresh 1100) 0 (d.sprintf x))
      .ok (none, (d.sprintf x).length)
    | some _ => appendString buf (d.sprintf x)
  | .null, buf => appendString buf "null".toList

/-- The loop over the items of an array. -/
def serializeItems : List (Value d.Double) → Writer → Except Fault (Writer × ℕ)
  | [], buf => .ok (buf, 0)
  | item :: items, buf => do
    let (buf, written) ← jsonSerializeToBufferR item buf
    let (buf, comma) ← appendComma (!items.isEmpty) buf
    let (buf, rest) ← serializeItems items buf
    .ok (buf, written + comma + rest)

/-- The loop over the fields of an object. -/
def serializeFields : List CString → List (Value d.Double) → Writer → Except Fault (Writer × ℕ)
  | key :: names, value :: values, buf => do
    let (buf, name) ← jsonSerializeString key buf
    let (buf, colon) ← appendString buf [':']
    let (buf, written) ← jsonSerializeToBufferR value buf
    let (buf, comma) ← appendComma (!values.isEmpty) buf
    let (buf, rest) ← serializeFields names values buf
    .ok (buf, name + colon + written + comma + rest)
  | _, _, buf => .ok (buf, 0)

end

/-- `json_serialization_size`, as long as the text and its terminator can be counted in an `int`. -/
def jsonSerializationSize (value : Value d.Double) : Except Fault ℕ := do
  let (_, res) ← jsonSerializeToBufferR d value none
  .ok (res + 1)

/-- `json_serialize_to_buffer`. -/
def jsonSerializeToBuffer (value : Value d.Double) (buf : Buffer) : Except Fault (Option Buffer) := do
  let neededSizeInBytes ← jsonSerializationSize d value
  if neededSizeInBytes = 0 ∨ buf.length < neededSizeInBytes then .ok none
  else do
    let (buf, _) ← jsonSerializeToBufferR d value (some (buf, 0))
    .ok (buf.map Prod.fst)

/-- `json_serialize_to_string`: the string in the memory that is returned. -/
def jsonSerializeToString (value : Value d.Double) : Except Fault (Option CString) := do
  let bufSizeBytes ← jsonSerializationSize d value
  match ← jsonSerializeToBuffer d value (fresh bufSizeBytes) with
  | none => .ok none
  | some buf => do
    let s ← inBounds (string buf)
    .ok (some s)

end

/-! ## Objects -/

section
variable {Number : Type}

/-- `json_value_init_string`. -/
def jsonValueInitString (string : CString) : Except Fault (Option (Value Number)) := do
  let valid ← isValidUtf8 (memory string) string.length
  .ok (if valid then some (.string string) else none)

/-- `json_object_set_value`; `none` is `JSONFailure`. -/
def jsonObjectSetValue (object : Object Number) (name : CString) (value : Option (Value Number)) :
    Option (Object Number) := do
  let value ← value
  if (jsonObjectGetValue object.names object.values name).isSome then
    some { object with values := object.values.set (object.names.idxOf name) value }
  else jsonObjectAdd object name value

/-- `json_object_set_string`, as the commands call it: nothing happens after a failure. -/
def jsonObjectSetString (object : Object Number) (name : String) (string : CString) :
    Except Fault (Object Number) := do
  let value ← jsonValueInitString string
  .ok ((jsonObjectSetValue object name.toList value).getD object)

/-- `json_object_set_number`. -/
def jsonObjectSetNumber (object : Object Number) (name : String) (number : Number) : Object Number :=
  (jsonObjectSetValue object name.toList (some (.number number))).getD object

/-- `json_value_get_string`. -/
def jsonValueGetString : Value Number → Option CString
  | .string s => some s
  | _ => none

end

/-- `json_object_get_string` on the object in a line. -/
def jsonObjectGetString (d : Doubles) (input : CString) (name : String) : Option CString :=
  match jsonParseString d input with
  | .ok (some (.object names values)) =>
    (jsonObjectGetValue names values name.toList).bind jsonValueGetString
  | _ => none

end NFStash.JSON
