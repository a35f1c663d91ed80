/-
  Filehandles as hexadecimal text.

  `nfs_fh3_to_string` and `print_fhandle3` write the text into an array, two digits
  for each byte (`nfsFh3ToStringBuf`, `printFhandle3Buf`); `parse_fh` reads it back.
  `filehandle_roundtrip`: on handles of 1 to 64 bytes the three agree.
  `parseFh_grammar_iff`: what `parse_fh` accepts is the even number of digits that
  it should be, iff the text is refused for its length or consists of digits.
-/
import NFStash.Mount
import NFStash.ParseFh

namespace NFStash

open CLib

/-! ## Digits -/

section
variable {c d : Char} {m n : ℕ}

/-- A digit is an ASCII character. -/
theorem hexDigit?_lt (h : hexDigit? c = some m) : c.toNat < 128 := by
  unfold hexDigit? at h
  split_ifs at h with h1 h2 h3
  · simp only [Char.isDigit, Bool.and_eq_true, decide_eq_true_eq, UInt32.le_iff_toNat_le] at h1
    have hhi : c.toNat ≤ 57 := h1.2
    omega
  · have hhi : c.toNat ≤ 102 := h2.2
    omega
  · have hhi : c.toNat ≤ 70 := h3.2
    omega

/-- What is not white space and not a sign, and what is printed for the digit. -/
def DigitFacts (c : Char) : Prop :=
  isSpace c = false ∧ c ≠ '+' ∧ c ≠ '-' ∧
    ∀ m ∈ hexDigit? c, m < 16 ∧ Nat.digitChar m = c.toLower

instance (c : Char) : Decidable (DigitFacts c) := inferInstanceAs (Decidable (_ ∧ _))

theorem ascii_digitFacts : ∀ n < 128, (hexDigit? (Char.ofNat n)).isSome → DigitFacts (Char.ofNat n) := by
  decide

theorem hexDigit?_facts (h : hexDigit? c = some m) :
    isSpace c = false ∧ c ≠ '+' ∧ c ≠ '-' ∧ m < 16 ∧ Nat.digitChar m = c.toLower := by
  have hf := ascii_digitFacts c.toNat (hexDigit?_lt h)
  rw [Char.ofNat_toNat] at hf
  obtain ⟨hs, hp, hm, hv⟩ := hf (by simp [h])
  exact ⟨hs, hp, hm, hv m h⟩

theorem hexDigit?_digitChar : ∀ n < 16, hexDigit? (Nat.digitChar n) = some n := by decide

theorem toLower_digitChar : ∀ n < 16, (Nat.digitChar n).toLower = Nat.digitChar n := by decide

/-- A pair of digits is a byte, whatever follows. -/
theorem scanHex2_pair (hc : hexDigit? c = some m) (hd : hexDigit? d = some n) (cs : CString) :
    scanHex2 (c :: d :: cs) = some (.ofNat (16 * m + n)) := by
  obtain ⟨hs, hp, hm, -⟩ := hexDigit?_facts hc
  unfold scanHex2
  rw [List.dropWhile_cons_of_neg (by simp [hs])]
  simp [hp, hm, hc, hd]

end

/-! ## Decoding -/

/-- The bytes of hexadecimal text. -/
def hexBytes : CString → List UInt8
  | c :: d :: cs => .ofNat (16 * (hexDigit? c).getD 0 + (hexDigit? d).getD 0) :: hexBytes cs
  | _ => []

/-- The text consists of hexadecimal digits. -/
def HexText (tmp : CString) : Prop := ∀ c ∈ tmp, (hexDigit? c).isSome

instance (tmp : CString) : Decidable (HexText tmp) :=
  decidable_of_iff (tmp.all fun c => (hexDigit? c).isSome) List.all_eq_true

/-- What `parse_fh` takes for the length of the handle. -/
def fhLen (tmp : CString) : ℕ := wrap32 (tmp.length / 2)

/-- The check of the length. -/
def LengthOk (tmp : CString) : Prop := fhLen tmp ≠ 0 ∧ fhLen tmp ≤ FHSIZE3 ∧ tmp.length % 2 = 0

instance (tmp : CString) : Decidable (LengthOk tmp) := inferInstanceAs (Decidable (_ ∧ _))

/-- The bytes in the handle after the conversion loop. -/
def stored (junk : ℕ → UInt8) (tmp : CString) : List UInt8 :=
  (List.range (fhLen tmp)).map fun i => ((hexWrites tmp (fhLen tmp)).lookup i).getD (junk i)

theorem hexBytes_length (tmp : CString) : (hexBytes tmp).length = tmp.length / 2 := by
  induction tmp using hexBytes.induct with
  | case1 c d cs ih =>
    simp only [hexBytes, List.length_cons, ih]
    omega
  | case2 tmp h =>
    rcases tmp with _ | ⟨c, _ | ⟨d, cs⟩⟩
    · rfl
    · simp [hexBytes]
    · exact absurd rfl (h c d cs)

/-- At most one write for each index. -/
theorem lookup_writes (f : ℕ → Option UInt8) (n i : ℕ) :
    ((List.range n).filterMap fun i => (f i).map (i, ·)).lookup i = if i < n then f i else none := by
  induction n with
  | zero => simp
  | succ n ih =>
    rw [List.range_succ, List.filterMap_append, List.lookup_append, ih]
    by_cases he : i = n
    · subst he
      cases hf : f i <;> simp [hf]
    · have hb : (i == n) = false := beq_false_of_ne he
      have hlast : List.lookup i ([n].filterMap fun i => (f i).map (i, ·)) = none := by
        cases hn : f n <;> simp [hn, List.lookup_cons, hb]
      have hlt : i < n + 1 ↔ i < n := by omega
      rw [hlast, Option.or_none]
      simp only [hlt]

/-- The loop converts the pairs of the text one by one; what it does not convert is left as it was. -/
theorem stored_eq (junk : ℕ → UInt8) (tmp : CString) :
    stored junk tmp = (List.range (fhLen tmp)).map fun i =>
      (scanHex2 (tmp.drop (2 * i))).getD (junk i) := by
  unfold stored hexWrites
  refine List.map_congr_left fun i hi => ?_
  rw [lookup_writes, if_pos (Nat.lt_succ_of_lt (List.mem_range.1 hi))]

/-- **Hexadecimal text** is converted pair by pair. -/
theorem scan_hexText (junk : ℕ → UInt8) {n : ℕ} {tmp : CString} (h : HexText tmp)
    (hn : 2 * n ≤ tmp.length) :
    ((List.range n).map fun i => (scanHex2 (tmp.drop (2 * i))).getD (junk i)) =
      hexBytes (tmp.take (2 * n)) := by
  induction n generalizing tmp junk with
  | zero => simp [hexBytes]
  | succ n ih =>
    rcases tmp with _ | ⟨c, _ | ⟨d, cs⟩⟩
    · simp at hn
    · simp only [List.length_cons, List.length_nil] at hn
      omega
    · obtain ⟨m, hm⟩ := Option.isSome_iff_exists.1 (h c (by simp))
      obtain ⟨k, hk⟩ := Option.isSome_iff_exists.1 (h d (by simp))
      have hcs : HexText cs := fun x hx => h x (by simp [hx])
      have hlen : 2 * n ≤ cs.length := by
        simp only [List.length_cons] at hn
        omega
      have htail := ih (fun i => junk (i + 1)) hcs hlen
      rw [List.range_succ_eq_map, List.map_cons, List.map_map,
        show 2 * (n + 1) = 2 * n + 1 + 1 by omega, List.take_succ_cons, List.take_succ_cons, hexBytes,
        ← htail]
      simp only [Nat.mul_zero, List.drop_zero, scanHex2_pair hm hk, Option.getD_some, hm, hk,
        List.cons.injEq, true_and]
      refine List.map_congr_left fun i _ => ?_
      rw [Function.comp_apply, show 2 * i.succ = 2 * i + 1 + 1 by omega, List.drop_succ_cons,
        List.drop_succ_cons]

/-- The handle that a digit text is decoded to does not depend on what was in memory. -/
theorem stored_hexText (junk : ℕ → UInt8) {tmp : CString} (h : HexText tmp) :
    stored junk tmp = hexBytes (tmp.take (2 * fhLen tmp)) := by
  rw [stored_eq, scan_hexText junk h]
  have hle : fhLen tmp ≤ tmp.length / 2 := Nat.mod_le _ _
  omega

/-- Nothing is converted after the last pair. -/
theorem scanHex2_end {tmp : CString} (he : tmp.length % 2 = 0) (hl : tmp.length / 2 < 2 ^ 32) :
    scanHex2 (tmp.drop (2 * fhLen tmp)) = none := by
  have hlen : 2 * fhLen tmp = tmp.length := by
    rw [fhLen, wrap32, Nat.mod_eq_of_lt hl]
    omega
  rw [hlen, List.drop_length]
  rfl

/-! ## Encoding -/

theorem toString_cons (b : UInt8) (bs : List UInt8) : nfsFh3ToString ⟨b :: bs⟩ =
    Nat.digitChar (b.toNat / 16) :: Nat.digitChar (b.toNat % 16) :: nfsFh3ToString ⟨bs⟩ := rfl

theorem toString_length (data : List UInt8) : (nfsFh3ToString ⟨data⟩).length = 2 * data.length := by
  induction data with
  | nil => rfl
  | cons b bs ih =>
    rw [toString_cons, List.length_cons, List.length_cons, ih, List.length_cons]
    omega

theorem mem_toString {data : List UInt8} {c : Char} (h : c ∈ nfsFh3ToString ⟨data⟩) :
    ∃ n < 16, c = Nat.digitChar n := by
  obtain ⟨b, -, hb⟩ := List.mem_flatMap.1 h
  have hlt := b.toNat_lt
  rcases List.mem_pair.1 hb with rfl | rfl
  · exact ⟨_, by omega, rfl⟩
  · exact ⟨_, by omega, rfl⟩

theorem hexText_toString (data : List UInt8) : HexText (nfsFh3ToString ⟨data⟩) := by
  intro c hc
  obtain ⟨n, hn, rfl⟩ := mem_toString hc
  rw [hexDigit?_digitChar n hn]
  rfl

/-- What is written is read back. -/
theorem hexBytes_toString (data : List UInt8) : hexBytes (nfsFh3ToString ⟨data⟩) = data := by
  induction data with
  | nil => rfl
  | cons b bs ih =>
    have hlt := b.toNat_lt
    rw [toString_cons, hexBytes, ih, hexDigit?_digitChar _ (by omega), hexDigit?_digitChar _ (by omega),
      Option.getD_some, Option.getD_some, Nat.div_add_mod, UInt8.ofNat_toNat]

/-- A handle of at most 64 bytes has as many as its text says. -/
theorem fhLen_toString {data : List UInt8} (hle : data.length ≤ FHSIZE3) :
    fhLen (nfsFh3ToString ⟨data⟩) = data.length := by
  unfold FHSIZE3 at hle
  rw [fhLen, toString_length, wrap32]
  omega

theorem lengthOk_toString {data : List UInt8} (hne : data ≠ []) (hle : data.length ≤ FHSIZE3) :
    LengthOk (nfsFh3ToString ⟨data⟩) := by
  have hlen := toString_length data
  have hpos : data.length ≠ 0 := fun h => hne (List.length_eq_zero_iff.1 h)
  refine ⟨?_, ?_, by omega⟩
  · rwa [fhLen_toString hle]
  · rwa [fhLen_toString hle]

/-- **What is written is read back**, with the length that it has. -/
theorem hexBytes_take_toString {data : List UInt8} (hle : data.length ≤ FHSIZE3) :
    hexBytes ((nfsFh3ToString ⟨data⟩).take (2 * fhLen (nfsFh3ToString ⟨data⟩))) = data := by
  rw [fhLen_toString hle, ← toString_length, List.take_length, hexBytes_toString]

/-- What is read is written back, in lower case. -/
theorem toString_hexBytes {tmp : CString} (h : HexText tmp) (he : tmp.length % 2 = 0) :
    nfsFh3ToString ⟨hexBytes tmp⟩ = tmp.map Char.toLower := by
  induction tmp using hexBytes.induct with
  | case1 c d cs ih =>
    obtain ⟨m, hm⟩ := Option.isSome_iff_exists.1 (h c (by simp))
    obtain ⟨n, hn⟩ := Option.isSome_iff_exists.1 (h d (by simp))
    obtain ⟨-, -, -, hm16, hmc⟩ := hexDigit?_facts hm
    obtain ⟨-, -, -, hn16, hnd⟩ := hexDigit?_facts hn
    have hb : (UInt8.ofNat (16 * m + n)).toNat = 16 * m + n :=
      UInt8.toNat_ofNat_of_lt (show 16 * m + n < 256 by omega)
    have ih := ih (fun x hx => h x (by simp [hx])) (by
      simp only [List.length_cons] at he
      omega)
    rw [hexBytes, toString_cons, ih, hm, hn, Option.getD_some, Option.getD_some, hb,
      show (16 * m + n) / 16 = m by omega, show (16 * m + n) % 16 = n by omega, hmc, hnd]
    rfl
  | case2 tmp hne =>
    rcases tmp with _ | ⟨c, _ | ⟨d, cs⟩⟩
    · rfl
    · simp at he
    · exact absurd rfl (hne c d cs)

/-! ### Into an array -/

/-- The value of a `char`, which is signed. -/
def signedChar (b : UInt8) : ℤ := if b.toNat < 128 then b.toNat else b.toNat - 256

/-- The text of `"%02hhx"` for an argument, which is converted to `unsigned char`. -/
def hhx (arg : ℤ) : CString :=
  let n := (arg % 256).toNat
  [Nat.digitChar (n / 16), Nat.digitChar (n % 16)]

/-- `sprintf(&str[i], ..)` with this text: it is terminated. -/
def sprintfAt (str : List Char) (i : ℕ) (text : CString) : Except Fault (List Char) :=
  if i + text.length < str.length then
    .ok (str.take i ++ text ++ '\x00' :: str.drop (i + text.length + 1))
  else .error .outOfBounds

/-- The loop over the bytes of a handle, from index `i` on. -/
def sprintfBytes : ℕ → List UInt8 → List Char → Except Fault (List Char)
  | _, [], str => .ok str
  | i, b :: bs, str => do
    let str ← sprintfAt str (i * 2) (hhx (signedChar b))
    sprintfBytes (i + 1) bs str

/-- The C string in an array. -/
def cString (str : List Char) : CString := str.takeWhile (· != '\x00')

/-- `nfs_fh3_to_string`: the array is zeroed memory. -/
def nfsFh3ToStringBuf (fileHandle : NfsFh3) : Except Fault CString := do
  let str ← sprintfBytes 0 fileHandle.data (List.replicate (fileHandle.data.length * 2 + 1) '\x00')
  if fileHandle.data.length * 2 < str.length then
    .ok (cString (str.set (fileHandle.data.length * 2) '\x00'))
  else .error .outOfBounds

/-- The text `print_fhandle3` makes; `fhString` is what was in the array before. -/
def printFhandle3Buf (fhString : Vector Char (FHSIZE3 * 2 + 1)) (fileHandle : List UInt8) :
    Except Fault CString := do
  let str ← sprintfBytes 0 fileHandle fhString.toList
  .ok (cString str)

/-- The sign does not matter. -/
theorem hhx_signedChar (b : UInt8) :
    hhx (signedChar b) = [Nat.digitChar (b.toNat / 16), Nat.digitChar (b.toNat % 16)] := by
  have hlt := b.toNat_lt
  have hn : (signedChar b % 256).toNat = b.toNat := by
    unfold signedChar
    split_ifs
    · omega
    · omega
  simp only [hhx, hn]

/-- **The loop** writes the digits of the bytes and a terminator, and nothing after it. -/
theorem sprintfBytes_eq {i : ℕ} {bs : List UInt8} {done rest : List Char} (hd : done.length = i * 2)
    (hr : 2 * bs.length < rest.length) (hne : bs ≠ []) :
    sprintfBytes i bs (done ++ rest) =
      .ok (done ++ nfsFh3ToString ⟨bs⟩ ++ '\x00' :: rest.drop (2 * bs.length + 1)) := by
  induction bs generalizing i done rest with
  | nil => exact absurd rfl hne
  | cons b bs ih =>
    have hstep : sprintfAt (done ++ rest) (i * 2) (hhx (signedChar b)) =
        .ok (done ++ hhx (signedChar b) ++ '\x00' :: rest.drop 3) := by
      have hlt : i * 2 + (hhx (signedChar b)).length < (done ++ rest).length := by
        simp only [hhx, List.length_append, List.length_cons, List.length_nil] at hr ⊢
        omega
      rw [sprintfAt, if_pos hlt, ← hd, List.take_left, Nat.add_assoc, List.drop_length_add_append]
      rfl
    rw [sprintfBytes, hstep]
    change sprintfBytes (i + 1) bs _ = _
    rw [toString_cons, hhx_signedChar]
    by_cases hbs : bs = []
    · subst hbs
      simp [sprintfBytes, nfsFh3ToString]
    · rw [ih (by simp [hd]; omega) (by simp at hr ⊢; omega) hbs]
      have hdrop : ('\x00' :: rest.drop 3).drop (2 * bs.length + 1) =
          rest.drop (2 * (b :: bs).length + 1) := by
        rw [List.drop_succ_cons, List.drop_drop, List.length_cons]
        congr 1
        omega
      rw [hdrop]
      simp

/-- A text without NUL in a larger array. -/
theorem cString_append {text : CString} (h : '\x00' ∉ text) (rest : List Char) :
    cString (text ++ '\x00' :: rest) = text := by
  rw [cString, List.takeWhile_append_of_pos (ne_of_notMem h)]
  simp

theorem nul_notMem_toString (data : List UInt8) : '\x00' ∉ nfsFh3ToString ⟨data⟩ := by
  intro h
  have hd := hexText_toString data _ h
  revert hd
  decide

/-- `nfs_fh3_to_string` keeps inside its array. -/
theorem nfsFh3ToStringBuf_eq {data : List UInt8} (hne : data ≠ []) :
    nfsFh3ToStringBuf ⟨data⟩ = .ok (nfsFh3ToString ⟨data⟩) := by
  have hloop := @sprintfBytes_eq 0 data [] (List.replicate (data.length * 2 + 1) '\x00') rfl
    (by rw [List.length_replicate]; omega) hne
  rw [List.nil_append, List.nil_append] at hloop
  have hlen := toString_length data
  rw [nfsFh3ToStringBuf, hloop]
  change (if data.length * 2 < (nfsFh3ToString ⟨data⟩ ++ '\x00' :: _).length then _ else _) = _
  rw [if_pos (by rw [List.length_append, List.length_cons]; omega), ← Nat.mul_comm 2, ← hlen,
    List.set_append_right _ _ le_rfl, Nat.sub_self, List.set_cons_zero,
    cString_append (nul_notMem_toString data)]

/-- `print_fhandle3` keeps inside its array, whatever was in it. -/
theorem printFhandle3Buf_eq (fhString : Vector Char (FHSIZE3 * 2 + 1)) {data : List UInt8}
    (hne : data ≠ []) (hle : data.length ≤ FHSIZE3) :
    printFhandle3Buf fhString data = .ok (nfsFh3ToString ⟨data⟩) := by
  have hloop := @sprintfBytes_eq 0 data [] fhString.toList rfl
    (by rw [Vector.length_toList]; omega) hne
  rw [List.nil_append, List.nil_append] at hloop
  rw [printFhandle3Buf, hloop]
  exact congrArg Except.ok (cString_append (nul_notMem_toString data) _)

theorem jsonSet_lookup (name : String) (value : JsonValue) (obj : JsonObject) :
    (jsonSet name value obj).lookup name = some value := by
  induction obj with
  | nil => simp [jsonSet]
  | cons field obj ih =>
    rw [jsonSet]
    split_ifs with hn
    · simp
    · rw [List.lookup_cons, beq_false_of_ne (Ne.symm hn)]
      exact ih

theorem jsonSet_lookup_ne {name key : String} (h : key ≠ name) (value : JsonValue) (obj : JsonObject) :
    (jsonSet name value obj).lookup key = obj.lookup key := by
  induction obj with
  | nil => simp [jsonSet, List.lookup_cons, beq_false_of_ne h]
  | cons field obj ih =>
    obtain ⟨name', value'⟩ := field
    rw [jsonSet]
    split_ifs with hn
    · subst hn
      rw [List.lookup_cons, List.lookup_cons]
      simp only [beq_false_of_ne h]
    · rw [List.lookup_cons, List.lookup_cons, ih]

/-- The text is that of the JSON object `nfsmount` prints. -/
theorem printFhandle3_filehandle (cfg : MountConfig) (root : Root) (usec timestamp : ℕ)
    (obj : JsonObject) : (printFhandle3 cfg root usec timestamp obj).lookup "filehandle" =
      some (.string (nfsFh3ToString ⟨root.val.take root.len⟩)) := by
  rw [printFhandle3]
  rw [jsonSet_lookup_ne (by decide), jsonSet_lookup]

/-! ## Lines -/

section
variable (lookup : CString → String → Option CString) (junk : ℕ → UInt8) (port : UInt16) (count : ℕ)

/-- A line whose other fields are valid, with this text in the field of the filehandle. -/
structure HandleLine (input tmp : CString) : Prop where
  address : ¬ NoAddress lookup input
  host : (lookup input "host").isSome
  path : (lookup input "path").isSome
  filehandle : lookup input "filehandle" = some tmp

/-- `parse_fh` returns a target for the line. -/
def Accepts (head : List Target) (input : CString) : Prop :=
  ∃ i ts, parseFh lookup junk head input port count = .ok (.ok i, ts)

/-- `parse_fh` returns a target, to which it has added this handle. -/
def Adds (head : List Target) (input : CString) (h : NfsFh3) : Prop :=
  ∃ i ts t fh, parseFh lookup junk head input port count = .ok (.ok i, ts) ∧ ts[i]? = some t ∧
    t.filehandles.getLast? = some fh ∧ fh.nfsFh = h

/-- What an accepted line does to its target. -/
def addLine (host path : CString) (h : NfsFh3) (current : Target) : Target :=
  { current with
    name := strncpy NI_MAXHOST host
    displayName := .name
    ndqf := reverseFqdn (strncpy NI_MAXHOST host)
    filehandles := current.filehandles ++
      [{ nfsFhListNew count with path := strncpy MNTPATHLEN path, nfsFh := h }] }

variable {lookup junk port count} {head ts : List Target} {input host path tmp : CString}
  {addr : InAddr} {i : ℕ} {t : Target}

theorem parseFields_accepted (hh : lookup input "host" = some host)
    (hp : lookup input "path" = some path) (hf : lookup input "filehandle" = some tmp)
    (hl : LengthOk tmp) (current : Target) : parseFields lookup junk input count current =
      (none, addLine count host path ⟨stored junk tmp⟩ current) := by
  simp only [parseFields, hh, hp, hf]
  exact if_pos hl

/-- **An accepted line** adds its handle to the target that is found or made for its address. -/
theorem parseFh_accepted (hne : input ≠ []) (ha : (lookup input "ip").bind inetPton = some addr)
    (hh : lookup input "host" = some host) (hp : lookup input "path" = some path)
    (hf : lookup input "filehandle" = some tmp) (hl : LengthOk tmp)
    (hfind : findOrMakeTarget head addr port count = .ok (i, ts)) (ht : ts[i]? = some t) :
    parseFh lookup junk head input port count =
      .ok (.ok i, ts.set i (addLine count host path ⟨stored junk tmp⟩ t)) := by
  obtain ⟨ip, hip, haddr⟩ := Option.bind_eq_some_iff.1 ha
  rw [parseFh, if_neg hne]
  simp only [hip, haddr, parseTarget, hfind, bind, Except.bind, ht,
    parseFields_accepted hh hp hf hl]

theorem HandleLine.hasFields_iff (hl : HandleLine lookup input tmp) :
    HasFields lookup input ↔ LengthOk tmp := by
  constructor
  · rintro ⟨-, -, tmp', htmp', h⟩
    obtain rfl := Option.some.inj (hl.filehandle.symm.trans htmp')
    exact h
  · intro h
    exact ⟨hl.host, hl.path, tmp, hl.filehandle, h⟩

variable (junk port count) in
/-- A text of accepted length is accepted, whatever it consists of. -/
theorem HandleLine.adds (hh : Allocated head) (hl : HandleLine lookup input tmp)
    (hlen : LengthOk tmp) : Adds lookup junk port count head input ⟨stored junk tmp⟩ := by
  have hn := hl.address
  simp only [NoAddress, not_or, Option.ne_none_iff_exists'] at hn
  obtain ⟨hne, addr, ha⟩ := hn
  obtain ⟨host, hhost⟩ := Option.isSome_iff_exists.1 hl.host
  obtain ⟨path, hpath⟩ := Option.isSome_iff_exists.1 hl.path
  obtain ⟨⟨i, ts⟩, hfind⟩ := findOrMakeTarget_total port count addr hh
  obtain ⟨t, ht, -, -⟩ := findOrMakeTarget_get port count hfind
  have hi : i < ts.length := (List.getElem?_eq_some_iff.1 ht).1
  exact ⟨i, _, _, _, parseFh_accepted hne ha hhost hpath hl.filehandle hlen hfind ht,
    by rw [List.getElem?_set_self hi], by rw [addLine, List.getLast?_concat], rfl⟩

/-- The memory a handle is decoded into matters only through what is stored in the handle. -/
theorem parseFh_congr {junk' : ℕ → UInt8} (hl : HandleLine lookup input tmp)
    (h : stored junk tmp = stored junk' tmp) :
    parseFh lookup junk head input port count = parseFh lookup junk' head input port count := by
  obtain ⟨host, hhost⟩ := Option.isSome_iff_exists.1 hl.host
  obtain ⟨path, hpath⟩ := Option.isSome_iff_exists.1 hl.path
  have hfields : ∀ current, parseFields lookup junk input count current =
      parseFields lookup junk' input count current := by
    intro current
    by_cases hlen : LengthOk tmp
    · rw [parseFields_accepted hhost hpath hl.filehandle hlen,
        parseFields_accepted hhost hpath hl.filehandle hlen, h]
    · simp only [parseFields, hhost, hpath, hl.filehandle]
      exact (if_neg hlen).trans (if_neg hlen).symm
  simp only [parseFh, parseTarget, hfields]

theorem HandleLine.accepts_iff (hh : Allocated head) (hl : HandleLine lookup input tmp) :
    Accepts lookup junk port count head input ↔ LengthOk tmp := by
  constructor
  · rintro ⟨i, ts, h⟩
    obtain ⟨addr, i', ts', t, -, -, ⟨-, hf, -⟩ | ⟨e, t', he, -⟩⟩ :=
      parseFh_cases lookup junk port count hl.address h
    · exact hl.hasFields_iff.1 hf
    · cases he
  · intro hlen
    obtain ⟨i, ts, t, fh, h, -⟩ := hl.adds junk port count hh hlen
    exact ⟨i, ts, h⟩

end

/-! ## Round trips -/

/-- **The text round-trips.**  On handles of 1 to 64 bytes both encoders keep inside their arrays
    and make the same text, of two lower-case digits for each byte, and `parse_fh` reads the handle
    back; a text of 2 to 128 digits is read as a handle whose text it is in lower case, and the last
    iteration of the loop, which is one past the handle, writes nothing. -/
theorem filehandle_roundtrip (lookup : CString → String → Option CString) (port : UInt16) (count : ℕ) :
    (∀ data : List UInt8, data ≠ [] → data.length ≤ FHSIZE3 → ∃ text,
      nfsFh3ToStringBuf ⟨data⟩ = .ok text ∧ (∀ fhString, printFhandle3Buf fhString data = .ok text) ∧
      text.length = 2 * data.length ∧ (∀ c ∈ text, (hexDigit? c).isSome ∧ c.toLower = c) ∧
      ∀ junk head input, Allocated head → HandleLine lookup input text →
        Adds lookup junk port count head input ⟨data⟩) ∧
    (∀ text : CString, HexText text → text.length % 2 = 0 → 2 ≤ text.length → text.length ≤ 128 →
      (∀ b, (text.length / 2, b) ∉ hexWrites text (text.length / 2)) ∧
      ∀ junk head input, Allocated head → HandleLine lookup input text → ∃ h,
        Adds lookup junk port count head input h ∧
        nfsFh3ToStringBuf h = .ok (text.map Char.toLower)) := by
  constructor
  · intro data hne hle
    have hlen := toString_length data
    refine ⟨_, nfsFh3ToStringBuf_eq hne, fun fhString => printFhandle3Buf_eq fhString hne hle, hlen,
      ?_, ?_⟩
    · intro c hc
      obtain ⟨n, hn, rfl⟩ := mem_toString hc
      exact ⟨by rw [hexDigit?_digitChar n hn]; rfl, toLower_digitChar n hn⟩
    · intro junk head input hh hl
      have hadds := hl.adds junk port count hh (lengthOk_toString hne hle)
      rw [stored_hexText junk (hexText_toString data), hexBytes_take_toString hle] at hadds
      exact hadds
  · intro text hx he h2 h128
    have hfh : fhLen text = text.length / 2 := by
      rw [fhLen, wrap32]
      omega
    have hok : LengthOk text := ⟨by omega, by unfold FHSIZE3; omega, he⟩
    constructor
    · intro b hb
      obtain ⟨i, -, hi⟩ := List.mem_filterMap.1 hb
      obtain ⟨b', hb', heq⟩ := Option.map_eq_some_iff.1 hi
      obtain rfl : i = text.length / 2 := (Prod.mk.inj heq).1
      rw [← hfh, scanHex2_end he (by omega)] at hb'
      cases hb'
    · intro junk head input hh hl
      have hadds := hl.adds junk port count hh hok
      rw [stored_hexText junk hx, hfh, show 2 * (text.length / 2) = text.length by omega,
        List.take_length] at hadds
      refine ⟨_, hadds, ?_⟩
      have hne : hexBytes text ≠ [] := by
        intro h0
        have := hexBytes_length text
        rw [h0, List.length_nil] at this
        omega
      rw [nfsFh3ToStringBuf_eq hne, toString_hexBytes hx he]

/-- Field lookup in a table of lines. -/
def tableLookup (lines : List (CString × List (String × String))) (input : CString) (key : String) :
    Option CString :=
  (lines.lookup input).bind fun fields => (fields.lookup key).map (·.toList)

/-- Two lines for one handle, in lower case and in upper case. -/
def lowerLine : CString :=
  "\x7b\"ip\": \"10.0.0.1\", \"host\": \"a\", \"path\": \"/x\", \"filehandle\": \"0a\"\x7d".toList

def upperLine : CString :=
  "\x7b\"ip\": \"10.0.0.1\", \"host\": \"a\", \"path\": \"/x\", \"filehandle\": \"0A\"\x7d".toList

def caseLookup : CString → String → Option CString :=
  tableLookup [(lowerLine, [("ip", "10.0.0.1"), ("host", "a"), ("path", "/x"), ("filehandle", "0a")]),
    (upperLine, [("ip", "10.0.0.1"), ("host", "a"), ("path", "/x"), ("filehandle", "0A")])]

theorem lowerLine_handleLine : HandleLine caseLookup lowerLine "0a".toList where
  address := by rintro (h | h) <;> revert h <;> decide
  host := rfl
  path := rfl
  filehandle := rfl

theorem upperLine_handleLine : HandleLine caseLookup upperLine "0A".toList where
  address := by rintro (h | h) <;> revert h <;> decide
  host := rfl
  path := rfl
  filehandle := rfl

/-- The byte 10: its text is read back, and so is the one in upper case, whose handle has the same text. -/
theorem filehandle_roundtrip_ten :
    (∀ junk, Adds caseLookup junk 2049 0 dummyTargets lowerLine ⟨[10]⟩) ∧
    ∀ junk, ∃ h, Adds caseLookup junk 2049 0 dummyTargets upperLine h ∧
      nfsFh3ToStringBuf h = .ok "0a".toList := by
  obtain ⟨hencode, hdecode⟩ := filehandle_roundtrip caseLookup 2049 0
  constructor
  · intro junk
    obtain ⟨text, htext, -, -, -, hread⟩ := hencode [10] (by decide) (by decide)
    obtain rfl : "0a".toList = text := Except.ok.inj (htext.symm.trans rfl).symm
    exact hread junk dummyTargets lowerLine dummyTargets_allocated lowerLine_handleLine
  · intro junk
    have hx : HexText "0A".toList := fun c hc => by
      rcases List.mem_pair.1 hc with rfl | rfl
      · rfl
      · rfl
    exact (hdecode "0A".toList hx rfl le_rfl (by decide)).2 junk dummyTargets upperLine dummyTargets_allocated
      upperLine_handleLine

/-! ## The grammar -/

/-- An even number, from 2 to 128, of hexadecimal digits. -/
structure Grammar (tmp : CString) : Prop where
  hex : HexText tmp
  even : tmp.length % 2 = 0
  two_le : 2 ≤ tmp.length
  le : tmp.length ≤ 128

theorem Grammar.lengthOk {tmp : CString} (h : Grammar tmp) : LengthOk tmp := by
  obtain ⟨-, he, h2, h128⟩ := h
  refine ⟨?_, ?_, he⟩
  · rw [fhLen, wrap32]
    omega
  · rw [fhLen, wrap32, FHSIZE3]
    omega

/-- **What `parse_fh` accepts.**  Lines with valid other fields are accepted iff the filehandle
    follows the grammar, and then no byte of the handle depends on what was in memory, iff the text
    is refused for its length, or consists of 128 digits at most. -/
theorem parseFh_grammar_iff (lookup : CString → String → Option CString) (port : UInt16) (count : ℕ)
    (head : List Target) (input tmp : CString) (hh : Allocated head)
    (hl : HandleLine lookup input tmp) :
    ((∀ junk, Accepts lookup junk port count head input ↔ Grammar tmp) ∧
        ∀ junk junk', Accepts lookup junk port count head input →
          parseFh lookup junk head input port count = parseFh lookup junk' head input port count) ↔
      (LengthOk tmp → HexText tmp ∧ tmp.length ≤ 128) := by
  constructor
  · rintro ⟨hacc, -⟩ hlen
    have hg := (hacc fun _ => 0).1 ((hl.accepts_iff hh).2 hlen)
    exact ⟨hg.hex, hg.le⟩
  · intro h
    constructor
    · intro junk
      rw [hl.accepts_iff hh]
      constructor
      · intro hlen
        obtain ⟨hx, hle⟩ := h hlen
        have hpos : tmp.length / 2 ≠ 0 := by
          intro h0
          exact hlen.1 (by rw [fhLen, h0]; rfl)
        exact ⟨hx, hlen.2.2, by omega, hle⟩
      · exact Grammar.lengthOk
    · intro junk junk' hacc
      have hx := (h ((hl.accepts_iff hh).1 hacc)).1
      exact parseFh_congr hl (by rw [stored_hexText junk hx, stored_hexText junk' hx])

/-- A line whose filehandle is not hexadecimal. -/
def zzLine : CString :=
  "\x7b\"ip\": \"10.0.0.1\", \"host\": \"a\", \"path\": \"/x\", \"filehandle\": \"zz\"\x7d".toList

def zzLookup : CString → String → Option CString :=
  tableLookup [(zzLine, [("ip", "10.0.0.1"), ("host", "a"), ("path", "/x"), ("filehandle", "zz")])]

theorem zzLine_handleLine : HandleLine zzLookup zzLine "zz".toList where
  address := by rintro (h | h) <;> revert h <;> decide
  host := rfl
  path := rfl
  filehandle := rfl

theorem parseFh_grammar_iff_zz :
    ((∀ junk, Accepts zzLookup junk 2049 0 dummyTargets zzLine ↔ Grammar "zz".toList) ∧
        ∀ junk junk', Accepts zzLookup junk 2049 0 dummyTargets zzLine →
          parseFh zzLookup junk dummyTargets zzLine 2049 0 =
            parseFh zzLookup junk' dummyTargets zzLine 2049 0) ↔
      (LengthOk "zz".toList → HexText "zz".toList ∧ "zz".toList.length ≤ 128) :=
  parseFh_grammar_iff zzLookup 2049 0 dummyTargets zzLine _ dummyTargets_allocated zzLine_handleLine

/-- Text that is not hexadecimal is accepted, and the byte of the handle is what was in memory. -/
theorem parseFh_zz :
    (∀ junk, Accepts zzLookup junk 2049 0 dummyTargets zzLine ∧
      Adds zzLookup junk 2049 0 dummyTargets zzLine ⟨[junk 0]⟩) ∧ ¬ Grammar "zz".toList ∧
    ¬ ((∀ junk, Accepts zzLookup junk 2049 0 dummyTargets zzLine ↔ Grammar "zz".toList) ∧
        ∀ junk junk', Accepts zzLookup junk 2049 0 dummyTargets zzLine →
          parseFh zzLookup junk dummyTargets zzLine 2049 0 =
            parseFh zzLookup junk' dummyTargets zzLine 2049 0) := by
  have hacc : ∀ junk, Accepts zzLookup junk 2049 0 dummyTargets zzLine :=
    fun junk => (zzLine_handleLine.accepts_iff dummyTargets_allocated).2 (by decide)
  have hg : ¬ Grammar "zz".toList := by
    rintro ⟨hx, -⟩
    exact absurd (hx 'z' (by decide)) (by decide)
  refine ⟨fun junk => ⟨hacc junk, ?_⟩, hg, ?_⟩
  · have hadds := zzLine_handleLine.adds junk 2049 0 dummyTargets_allocated (by decide)
    exact hadds
  · rintro ⟨h, -⟩
    exact hg ((h fun _ => 0).1 (hacc _))

end NFStash
