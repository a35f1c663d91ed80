/-
  `util.c`: the target list.

  Targets are found by IP address or appended to the list (`findOrMakeTarget`);
  `parseFh` turns a line of JSON into a filehandle of a target, `makeTarget` an
  argument of the command line into one or more targets.  The list starts with the
  dummy entry of the callers, which has no socket address.

  JSON field lookup (parson), name resolution and the bytes `malloc` returns are
  parameters.
-/
import NFStash.Types

namespace NFStash

open CLib

/-! ## Targets, filehandles, exports -/

/-- `init_target`: with a `count` there is an array for the results, else there are histograms. -/
def initTarget (port : UInt16) (count : ℕ) : Target where
  min := ULONG_MAX
  results := List.replicate count 0
  clientSock := some { sinAddr := .any, sinPort := htons port }

/-- The node `nfs_fh_list_new` links to a target. -/
def nfsFhListNew (count : ℕ) : NfsFhList where
  min := ULONG_MAX
  results := List.replicate count 0

/-- `init_export`: with a `count` there is an array for the results, else a JSON object. -/
def initExport (target : Target) (path : CString) (count : ℕ) : MountExports where
  path := strncpy MNTPATHLEN path
  results := List.replicate count 0
  jsonRoot := if count = 0 then
      some [("host", .string target.name), ("ip", .string target.ipAddress), ("path", .string path)]
    else none

/-- `find_target_by_ip`: the index of the first target with this address. -/
def findTargetByIp (ip : InAddr) : List Target → Except Fault (Option ℕ)
  | [] => .ok none
  | t :: ts =>
    if t.freed then .error .useAfterFree
    else if t.addr = some ip then .ok (some 0)
    else (Option.map (· + 1)) <$> findTargetByIp ip ts

/-- The target `find_or_make_target` makes for a new address. -/
def newTarget (ip : InAddr) (port : UInt16) (count : ℕ) : Target :=
  { initTarget port count with
    clientSock := some { sinAddr := ip, sinPort := htons port }
    ipAddress := inetNtop ip }

/-- `find_or_make_target`: the index of the target with this address, and the list with it. -/
def findOrMakeTarget (head : List Target) (ip : InAddr) (port : UInt16) (count : ℕ) :
    Except Fault (ℕ × List Target) := do
  match ← findTargetByIp ip head with
  | some i => .ok (i, head)
  | none => .ok (head.length, head ++ [newTarget ip port count])

/-! ## `reverse_fqdn` -/

/-- The conversion to `int`. -/
def asInt (n : ℤ) : ℤ := (BitVec.ofInt 32 n).toInt

/-- What the loop of `reverse_fqdn` over the labels writes, starting at `pos`: positions and
    characters, in order. -/
def reverseFqdnWrites : List CString → ℤ → List (ℤ × Char)
  | [], _ => []
  | tmp :: toks, pos =>
    let pos := asInt (pos - tmp.length)
    let label := tmp.zipIdx.map fun p => (pos + p.2, p.1)
    if pos ≠ 0 then label ++ (asInt (pos - 1), '.') :: reverseFqdnWrites toks (asInt (pos - 1))
    else label ++ reverseFqdnWrites toks pos

/-- The new string of this size, terminator included: its characters up to the terminator at its end, one that
    was not written being `none`.  `malloc` refuses a negative size; one of zero leaves no room for
    the terminator. -/
def newNdqf (fqdn : CString) : ℤ → Ndqf
  | .negSucc _ => .null
  | .ofNat 0 => .str [none]
  | .ofNat (pos + 1) =>
    let writes := reverseFqdnWrites (tokens '.' fqdn) pos
    .str ((List.range pos).map fun i : ℕ => ((writes.filter (·.1 = (i : ℤ))).getLast?).map (·.2))

/-- `reverse_fqdn`: an IP address is not reversed. -/
def reverseFqdn (fqdn : CString) : Ndqf :=
  if (inetPton fqdn).isSome then .name else newNdqf fqdn (asInt (fqdn.length + 1))

/-! ## `parse_fh` -/

/-- The message printed before `parse_fh` returns NULL. -/
inductive ParseFhError where
  | noInput
  | noIp
  | invalidIp (s : CString)
  | noHost
  | noPath
  | noFilehandle
  | invalidFilehandle (s : CString)
deriving DecidableEq

def ParseFhError.text : ParseFhError → String
  | noInput => "No input!\n"
  | noIp => "No ip found!\n"
  | invalidIp s => "Invalid IP address: " ++ String.ofList s ++ "\n"
  | noHost => "No host found!\n"
  | noPath => "No path found!\n"
  | noFilehandle => "No filehandle found!\n"
  | invalidFilehandle s => "Invalid filehandle: " ++ String.ofList s ++ "\n"

/-- The value of a hexadecimal digit. -/
def hexDigit? (c : Char) : Option ℕ :=
  if c.isDigit then some (c.toNat - '0'.toNat)
  else if 'a' ≤ c ∧ c ≤ 'f' then some (c.toNat - 'a'.toNat + 10)
  else if 'A' ≤ c ∧ c ≤ 'F' then some (c.toNat - 'A'.toNat + 10)
  else none

/-- `isspace` in the C locale. -/
def isSpace (c : Char) : Bool := c = ' ' || ('\t' ≤ c && c ≤ '\r')

/-- `sscanf(s, "%2hhx", ..)`: the byte stored, if any.  White space is skipped and does not count for
    the width of two; a sign does, and so would a prefix `0x`, of which the `0` is left. -/
def scanHex2 (s : CString) : Option UInt8 :=
  match s.dropWhile isSpace with
  | [] => none
  | [c] => (hexDigit? c).map .ofNat
  | c :: d :: _ =>
    if c = '+' then (hexDigit? d).map .ofNat
    else if c = '-' then (hexDigit? d).map fun n => -.ofNat n
    else match hexDigit? c, hexDigit? d with
      | none, _ => none
      | some m, none => some (.ofNat m)
      | some m, some n => some (.ofNat (16 * m + n))

/-- What the conversion loop writes to `data_val`: its last index is `data_len`. -/
def hexWrites (tmp : CString) (fhLen : ℕ) : List (ℕ × UInt8) :=
  (List.range (fhLen + 1)).filterMap fun i => (scanHex2 (tmp.drop (2 * i))).map (i, ·)

section
variable (lookup : CString → String → Option CString) (junk : ℕ → UInt8)

/-- The fields of a line after the address, stored in the target for it. -/
def parseFields (input : CString) (count : ℕ) (current : Target) : Option ParseFhError × Target :=
  match lookup input "host" with
  | none => (some .noHost, current)
  | some host =>
    let name := strncpy NI_MAXHOST host
    let current := { current with name, displayName := .name, ndqf := reverseFqdn name }
    match lookup input "path" with
    | none => (some .noPath, current)
    | some path =>
      -- the node is linked before the rest of the line is checked
      let link (fh : NfsFhList) := { current with filehandles := current.filehandles ++ [fh] }
      let fh := { nfsFhListNew count with path := strncpy MNTPATHLEN path }
      match lookup input "filehandle" with
      | none => (some .noFilehandle, link fh)
      | some tmp =>
        let fhLen := wrap32 (tmp.length / 2)
        if fhLen ≠ 0 ∧ fhLen ≤ FHSIZE3 ∧ tmp.length % 2 = 0 then
          let data := (List.range fhLen).map fun i => ((hexWrites tmp fhLen).lookup i).getD (junk i)
          (none, link { fh with nfsFh := { data } })
        else (some (.invalidFilehandle tmp), link fh)

/-- The rest of `parse_fh`, once the address of the line is known. -/
def parseTarget (head : List Target) (input : CString) (addr : InAddr) (port : UInt16) (count : ℕ) :
    Except Fault (Except ParseFhError ℕ × List Target) := do
  let (i, targets) ← findOrMakeTarget head addr port count
  match targets[i]? with
  | none => .error .nullDeref
  | some current =>
    match parseFields lookup junk input count current with
    | (none, current) => .ok (.ok i, targets.set i current)
    -- cleanup: the target is freed, linked or not
    | (some e, current) => .ok (.error e, targets.set i { current with freed := true })

/-- `parse_fh`: the index of the target, or the message for a NULL result, and the target list
    after the call.  `lookup` is `json_object_get_string` on the parsed line, `junk` the bytes
    `malloc` returns. -/
def parseFh (head : List Target) (input : CString) (port : UInt16) (count : ℕ) :
    Except Fault (Except ParseFhError ℕ × List Target) :=
  if input = [] then .ok (.error .noInput, head)
  else match lookup input "ip" with
    | none => .ok (.error .noIp, head)
    | some ip => match inetPton ip with
      | none => .ok (.error (.invalidIp ip), head)
      | some addr => parseTarget lookup junk head input addr port count

/-- The loop of the callers over the lines of the input; a rejected line is skipped. -/
def parseLines (port : UInt16) (count : ℕ) : List Target → List CString → Except Fault (List Target)
  | head, [] => .ok head
  | head, input :: inputs => do
    let (_, head) ← parseFh lookup junk head input port count
    parseLines port count head inputs

/-- The target list of the callers before the first line. -/
def dummyTargets : List Target := [{}]

end

/-- `nfs_fh3_to_string`: two lower-case digits for each byte. -/
def nfsFh3ToString (fileHandle : NfsFh3) : CString :=
  fileHandle.data.flatMap fun b => [Nat.digitChar (b.toNat / 16), Nat.digitChar (b.toNat % 16)]

/-! ## `make_target` -/

/-- Name resolution. -/
structure Resolver where
  /-- `getaddrinfo` of a name: the first address and the others in order, or a failure -/
  getaddrinfo : CString → Option (InAddr × List InAddr)
  /-- `getnameinfo` of an address with `NI_NAMEREQD` -/
  getnameinfo : InAddr → Option CString

/-- No name is resolved. -/
def noNames : Resolver where
  getaddrinfo _ := none
  getnameinfo _ := none

/-- The number of targets `make_target` reports, the target list and a warning on stderr.  The number
    counts addresses of the list in memory that `getaddrinfo` returns, and an `unsigned int` holds it. -/
structure MakeTargetRes where
  created : ℕ
  targets : List Target
  warning : Option String := none

def multipleWarning (targetName ipAddress : CString) : String :=
  "Multiple addresses found for " ++ String.ofList targetName ++ ", using " ++
    String.ofList ipAddress ++ " (rerun with -m for all)\n"

section
variable (res : Resolver) (port : UInt16) (dns displayIps multiple : Bool)
  (path : Option CString) (count : ℕ)

/-- `target->exports = init_export(target, path, count)`, if there is a path. -/
def setExport (target : Target) : Target :=
  match path with
  | some path => { target with exports := [initExport target path count] }
  | none => target

/-- The target for an address literal, named by it. -/
def literalTarget (targetName : CString) (target : Target) : Target :=
  { target with
    name := strncpy INET_ADDRSTRLEN targetName
    displayName := .name
    ndqf := .name }

/-- The target for one address `ip` of a host name. -/
def resolvedTarget (targetName : CString) (ip : InAddr) (target : Target) : Target :=
  let target := if dns then
      match res.getnameinfo ip with
      | some name => { target with name, ndqf := reverseFqdn name }
      | none => { target with name := strncpy INET_ADDRSTRLEN target.ipAddress, ndqf := .name }
    else
      let name := strncpy NI_MAXHOST targetName
      { target with name, ndqf := reverseFqdn name }
  { target with displayName := if displayIps then .ipAddress else .name }

/-- The loop over the addresses of a host name. -/
def makeTargets (targetName : CString) : List InAddr → ℕ → List Target → Except Fault MakeTargetRes
  | [], created, head => .ok { created, targets := head }
  | ip :: addrs, created, head => do
    let (i, targets) ← findOrMakeTarget head ip port count
    match targets[i]? with
    | none => .error .nullDeref
    | some target =>
      let target := resolvedTarget res dns displayIps targetName ip (setExport path count target)
      let targets := targets.set i target
      if addrs ≠ [] ∧ !multiple then
        .ok { created := created + 1, targets
              warning := some (multipleWarning targetName target.ipAddress) }
      else makeTargets targetName addrs (created + 1) targets

/-- `make_target`; `room` is the size of the memory `target_name` points to, which the name of
    an address literal is looked up into.  A longer name is written over what comes after it, such as the
    next arguments. -/
def makeTarget (head : List Target) (targetName : CString) (room : ℕ) : Except Fault MakeTargetRes :=
  match inetPton targetName with
  | some ip => do
    let (i, targets) ← findOrMakeTarget head ip port count
    match targets[i]? with
    | none => .error .nullDeref
    | some target =>
      let target := setExport path count target
      if dns then
        match res.getnameinfo ip with
        | none => .error (.exit 2)
        | some name =>
          if room ≤ name.length then .error .outOfBounds
          else .ok { created := 1
                     targets := targets.set i { target with ndqf := reverseFqdn target.name } }
      else .ok { created := 1, targets := targets.set i (literalTarget targetName target) }
  | none =>
    match res.getaddrinfo targetName with
    | none => .error (.exit 2)
    | some (ip, addrs) =>
      makeTargets res port dns displayIps multiple path count targetName (ip :: addrs) 0 head

end

end NFStash
