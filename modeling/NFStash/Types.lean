/-
  The data of `nfsping.h` and of the protocols: filehandles, attributes and
  directory entries of NFS version 3, the lists of targets, filehandles and
  exports that all commands share, and the ways a run can go wrong.

  Machine words are natural numbers, wrapped explicitly (`wrap32`, `wrap64`)
  where the code can overflow them; a field that is only compared or copied
  has its fixed-width type.  A linked list is a `List`.
-/
import NFStash.Lib.CString
import Mathlib.Data.Rat.Defs

namespace NFStash

open CLib

/-! ## Words -/

/-- `unsigned int` arithmetic. -/
def wrap32 (n : ℕ) : ℕ := n % 2 ^ 32

/-- `unsigned long` arithmetic. -/
def wrap64 (n : ℕ) : ℕ := n % 2 ^ 64

/-- `ULONG_MAX`. -/
def ULONG_MAX : ℕ := 2 ^ 64 - 1

/-- `INT_MAX`. -/
def INT_MAX : ℕ := 2 ^ 31 - 1

theorem wrap64_succ {n : ℕ} (h : n < ULONG_MAX) : wrap64 (n + 1) = n + 1 := by
  simp only [wrap64, ULONG_MAX] at h ⊢
  omega

/-- The last index of `n + 1` places. -/
theorem wrap64_pred {n : ℕ} (h : n < ULONG_MAX) : wrap64 (n + 1 + ULONG_MAX) = n := by
  simp only [wrap64, ULONG_MAX] at h ⊢
  omega

/-- `htons` on a little-endian host. -/
def htons (p : UInt16) : UInt16 := (p <<< 8) ||| (p >>> 8)

/-- What stops a run other than its normal end. -/
inductive Fault where
  /-- a null pointer is dereferenced -/
  | nullDeref
  /-- an array is read or written outside its bounds -/
  | outOfBounds
  /-- a string that fills its array is read, and with it what comes after the array -/
  | unterminated
  /-- a freed node is read -/
  | useAfterFree
  /-- the divisor of a `%` is 0 -/
  | divisionByZero
  /-- `exit(status)`, directly or through `fatal` and `fatalx` -/
  | exit (status : ℕ)
  /-- a loop has not ended within its fuel -/
  | fuel
  /-- procedures have called each other deeper than they were given depth for -/
  | depth
deriving DecidableEq, Repr

/-! ## NFS version 3 -/

def FHSIZE3 : ℕ := 64
def MNTPATHLEN : ℕ := 1024
def NFS3_COOKIEVERFSIZE : ℕ := 8
/-- the size of `name` in `struct targets`, from `netdb.h` -/
def NI_MAXHOST : ℕ := 1025
/-- the size of `ip_address` in `struct targets`, from `netinet/in.h` -/
def INET_ADDRSTRLEN : ℕ := 16

/-- A filehandle: `data_len` opaque bytes. -/
structure NfsFh3 where
  data : List UInt8 := []
deriving DecidableEq, Repr

/-- `ftype3` as decoded: XDR does not check the values of an enum. -/
abbrev Ftype3 := UInt32

def NF3DIR : Ftype3 := 2
def NF3LNK : Ftype3 := 5

/-- `nfsstat3` as decoded. -/
abbrev Nfsstat3 := UInt32

def NFS3_OK : Nfsstat3 := 0
def NFS3ERR_NOTDIR : Nfsstat3 := 20

/-- The attributes the commands use. -/
structure Fattr3 where
  type : Ftype3 := 0
  mode : UInt32 := 0
  nlink : UInt32 := 0
  uid : UInt32 := 0
  gid : UInt32 := 0
  size : UInt64 := 0
  used : UInt64 := 0
  fsid : UInt64 := 0
  fileid : UInt64 := 0
  mtime : UInt32 := 0
deriving DecidableEq, Repr

/-- A directory entry of a READDIRPLUS reply; `nextentry` is the rest of the list it is in.
    `none` is a `post_op_attr` (`post_op_fh3`) without attributes (handle). -/
structure Entryplus3 where
  fileid : UInt64 := 0
  name : CString := []
  cookie : UInt64 := 0
  nameAttributes : Option Fattr3 := none
  nameHandle : Option NfsFh3 := none
deriving DecidableEq, Repr

/-- The attributes in the union of a `post_op_attr` over zeroed memory. -/
def Entryplus3.attributes (e : Entryplus3) : Fattr3 := e.nameAttributes.getD {}

/-- The handle in the union of a `post_op_fh3` over zeroed memory. -/
def Entryplus3.handle (e : Entryplus3) : NfsFh3 := e.nameHandle.getD {}

/-- An entry of a listing: a directory entry with the target of a symlink. -/
structure Entrypluslink3 extends Entryplus3 where
  symlink : Option CString := none
deriving DecidableEq, Repr

/-! ## Sizes -/

/-- `enum byte_prefix`, as far as there are options for it. -/
inductive BytePrefix where
  | byte
  | kilo
  | mega
  | giga
  | tera
  | human
deriving DecidableEq

/-! ## Targets -/

/-- The counters and times kept for a target, an export or a filehandle.  `avg` is `none` once it
    has been computed with a zero divisor (no later value of it is finite). -/
structure Stats where
  results : List ℕ := []
  sent : ℕ := 0
  received : ℕ := 0
  min : ℕ := 0
  max : ℕ := 0
  avg : Option ℚ := some 0
deriving DecidableEq

/-- `a[i] = v`. -/
def storeAt (a : List ℕ) (i v : ℕ) : Except Fault (List ℕ) :=
  if i < a.length then .ok (a.set i v) else .error .outOfBounds

theorem storeAt_ok {a : List ℕ} {i v : ℕ} (h : i < a.length) : storeAt a i v = .ok (a.set i v) :=
  if_pos h

/-- `(avg * (received - 1) + usec) / received`, where `received` has `w` bits. -/
def runningAvg (w : ℕ) (avg : Option ℚ) (received usec : ℕ) : Option ℚ :=
  if received = 0 then none
  else avg.map fun a => (a * ((received + 2 ^ w - 1) % 2 ^ w : ℕ) + usec) / received

/-- The minimum, maximum and average after a reply, which took `usec`. -/
def Stats.time (s : Stats) (usec : ℕ) : Stats :=
  { s with
    min := if usec < s.min then usec else s.min
    max := if usec > s.max then usec else s.max
    avg := runningAvg 64 s.avg s.received usec }

/-- `results[sent - 1] = usec`. -/
def Stats.store (s : Stats) (usec : ℕ) : Except Fault Stats := do
  let results ← storeAt s.results (wrap64 (s.sent + ULONG_MAX)) usec
  .ok { s with results }

/-- A time has been stored: its place is in the array, and nothing else changes. -/
theorem Stats.store_ok {s s' : Stats} {usec : ℕ} (h : s.store usec = .ok s') :
    wrap64 (s.sent + ULONG_MAX) < s.results.length ∧
      s' = { s with results := s.results.set (wrap64 (s.sent + ULONG_MAX)) usec } := by
  unfold Stats.store storeAt at h
  split_ifs at h with hlt
  · exact ⟨hlt, (Except.ok.inj h).symm⟩
  · cases h

/-- A column of the summary: `-`, or the time that is printed in milliseconds. -/
def column (us : ℕ) : Option ℕ := if us = 0 then none else some us

/-- `struct nfs_fh_list`. -/
structure NfsFhList extends Stats where
  path : CString := []
  nfsFh : NfsFh3 := {}
  entries : List Entrypluslink3 := []
deriving DecidableEq

/-- A value of a JSON object. -/
inductive JsonValue where
  | string (s : CString)
  | number (n : ℕ)
deriving DecidableEq

/-- `struct mount_exports`; `jsonRoot` is the JSON object for output, if there is one. -/
structure MountExports extends Stats where
  path : CString := []
  jsonRoot : Option (List (String × JsonValue)) := none
deriving DecidableEq

/-- `struct sockaddr_in`; the port is in network byte order. -/
structure SockaddrIn where
  sinAddr : InAddr := .any
  sinPort : UInt16 := 0
deriving DecidableEq, Repr

/-- `display_name` points to one of the name fields. -/
inductive DisplayName where
  | null
  | name
  | ipAddress
deriving DecidableEq, Repr

/-- `ndqf` points to the name field or to a string of its own; a character that was never written
    is `none`. -/
inductive Ndqf where
  | null
  | name
  | str (s : List (Option Char))
deriving DecidableEq

/-- `targets_t`.  `client` tells whether there is an RPC client, `results` is the array for the
    `fping` summary, the histograms are the values recorded in them.  `filehandles` and `exports`
    are members of one union; each command uses one of them only.  `freed` is not in the struct:
    the node has been passed to `free`. -/
structure Target extends Stats where
  client : Bool := false
  name : CString := []
  ndqf : Ndqf := .null
  ipAddress : CString := []
  displayName : DisplayName := .null
  clientSock : Option SockaddrIn := none
  intervalHistogram : List ℕ := []
  histogram : List ℕ := []
  exports : List MountExports := []
  filehandles : List NfsFhList := []
  freed : Bool := false
deriving DecidableEq

/-- The address of a target, if it has a socket address. -/
def Target.addr (t : Target) : Option InAddr := t.clientSock.map (·.sinAddr)

end NFStash
