import Machinen.Lib.Bytes
import Mathlib.Data.Nat.Bitwise

/-! The FUSE protocol as a live mount speaks it: request headers and names, error
numbers, attributes and replies. -/
namespace Machinen.Mount

open Bytes

def fuseKernelVersion : Nat := 7
def fuseKernelMinorVersion : Nat := 31
def fuseInHeaderSize : Nat := 40
def fuseOutHeaderSize : Nat := 16
def fuseWriteInSize : Nat := 40
def fuseCreateInSize : Nat := 16
def fuseReleaseInSize : Nat := 24

/-- Linux error numbers, as the guest kernel expects them in a reply. -/
inductive Errno where
  | perm | noent | io | badf | acces | busy | exist | notdir | isdir | inval | nospc | rofs | nosys
  | notempty | stale
deriving DecidableEq, Repr

def Errno.code : Errno → Nat
  | .perm => 1
  | .noent => 2
  | .io => 5
  | .badf => 9
  | .acces => 13
  | .busy => 16
  | .exist => 17
  | .notdir => 20
  | .isdir => 21
  | .inval => 22
  | .nospc => 28
  | .rofs => 30
  | .nosys => 38
  | .notempty => 39
  | .stale => 116

/-- mapFsError after errnoToZigError; the host's number for a directory that is
not empty depends on the platform. -/
def mapFsError (hostNotEmpty errno : Nat) : Errno :=
  if errno = 2 then .noent
  else if errno = 13 then .acces
  else if errno = 16 then .busy
  else if errno = 17 then .exist
  else if errno = 21 then .isdir
  else if errno = 20 then .notdir
  else if errno = 22 then .inval
  else if errno = 28 then .nospc
  else if errno = 1 then .perm
  else if errno = hostNotEmpty then .notempty
  else .io

inductive Op where
  | lookup | forget | getattr | setattr | readlink | symlink | mkdir | unlink | rmdir | rename | link
  | open_ | read | write | statfs | release | fsync | flush | init | opendir | readdir | releasedir
  | fsyncdir | access | create | interrupt | destroy | batchForget | other
deriving DecidableEq, Repr

def Op.ofCode : Nat → Op
  | 1 => .lookup
  | 2 => .forget
  | 3 => .getattr
  | 4 => .setattr
  | 5 => .readlink
  | 6 => .symlink
  | 9 => .mkdir
  | 10 => .unlink
  | 11 => .rmdir
  | 12 => .rename
  | 13 => .link
  | 14 => .open_
  | 15 => .read
  | 16 => .write
  | 17 => .statfs
  | 18 => .release
  | 20 => .fsync
  | 25 => .flush
  | 26 => .init
  | 27 => .opendir
  | 28 => .readdir
  | 29 => .releasedir
  | 30 => .fsyncdir
  | 34 => .access
  | 35 => .create
  | 36 => .interrupt
  | 38 => .destroy
  | 42 => .batchForget
  | _ => .other

def u32At (body : Bytes) (off : Nat) : Nat := toNat (slice body off 4)

def u64At (body : Bytes) (off : Nat) : Nat := toNat (slice body off 8)

structure InHeader where
  opcode : Nat
  unique : Nat
  nodeid : Nat

def readInHeader (msg : Bytes) : InHeader :=
  ⟨u32At msg 4, u64At msg 8, u64At msg 16⟩

def bodyOf (msg : Bytes) : Bytes := msg.drop fuseInHeaderSize

def slash : UInt8 := 0x2f
def dot : UInt8 := 0x2e

def decodeName (body : Bytes) : Bytes := body.takeWhile (· ≠ 0)

def validateName (name : Bytes) : Bool :=
  name ≠ [] && name ≠ [dot] && name ≠ [dot, dot] && name.all fun c => c ≠ slash && c ≠ 0

def joinRel (parentRel name : Bytes) : Bytes :=
  if parentRel = [] then name else parentRel ++ slash :: name

def linuxOWronly : Nat := 1
def linuxORdwr : Nat := 2
def linuxOTrunc : Nat := 0o1000

structure HostFlags where
  writes : Bool
  truncates : Bool
  creates : Bool
deriving DecidableEq, Repr

/-- A handle opened for writing is also readable, and none appends. -/
def linuxOpenToHost (flags : Nat) : HostFlags where
  writes := flags &&& 3 == linuxOWronly || flags &&& 3 == linuxORdwr
  truncates := flags &&& linuxOTrunc != 0
  creates := false

def fattrMode : Nat := 1
def fattrSize : Nat := 8
def fattrFh : Nat := 64

/-- MODE, UID, GID, SIZE, ATIME, MTIME, ATIME_NOW and MTIME_NOW. -/
def mutatingMask : Nat := 0x1bf

structure Stat where
  size : Int := 0
  blocks : Int := 0
  atime : Int := 0
  mtime : Int := 0
  ctime : Int := 0
  atimensec : Int := 0
  mtimensec : Int := 0
  ctimensec : Int := 0
  mode : Nat := 0
  nlink : Nat := 1
  uid : Nat := 0
  gid : Nat := 0
  rdev : Int := 0
  blksize : Int := 0
deriving DecidableEq, Repr

def Stat.isDir (st : Stat) : Bool := st.mode &&& 0o170000 == 0o040000

structure Attr where
  ino : Nat
  size : Nat
  blocks : Nat
  atime : Nat
  mtime : Nat
  ctime : Nat
  atimensec : Nat
  mtimensec : Nat
  ctimensec : Nat
  mode : Nat
  nlink : Nat
  uid : Nat
  gid : Nat
  rdev : Nat
  blksize : Nat
deriving DecidableEq, Repr

def intCast (width : Nat) (n : Int) : Option Nat :=
  if 0 ≤ n ∧ n < 2 ^ width then some n.toNat else none

/-- None where one of the casts traps. -/
def statToAttr (st : Stat) (ino : Nat) : Option Attr := do
  let size ← intCast 64 st.size
  let blocks ← intCast 64 st.blocks
  let atime ← intCast 64 st.atime
  let mtime ← intCast 64 st.mtime
  let ctime ← intCast 64 st.ctime
  let atimensec ← intCast 32 st.atimensec
  let mtimensec ← intCast 32 st.mtimensec
  let ctimensec ← intCast 32 st.ctimensec
  let nlink ← intCast 32 st.nlink
  let rdev ← intCast 32 st.rdev
  let blksize ← intCast 32 st.blksize
  some ⟨ino, size, blocks, atime, mtime, ctime, atimensec, mtimensec, ctimensec, st.mode, nlink,
    st.uid, st.gid, rdev, blksize⟩

def writeAttr (a : Attr) : Bytes :=
  le 8 a.ino ++ le 8 a.size ++ le 8 a.blocks ++ le 8 a.atime ++ le 8 a.mtime ++ le 8 a.ctime ++
    le 4 a.atimensec ++ le 4 a.mtimensec ++ le 4 a.ctimensec ++ le 4 a.mode ++ le 4 a.nlink ++
    le 4 a.uid ++ le 4 a.gid ++ le 4 a.rdev ++ le 4 a.blksize ++ le 4 0

def entryValidSec : Nat := 5
def attrValidSec : Nat := 1

inductive Reply where
  | none
  | error (errno : Errno)
  | ack
  | entry (attr : Attr)
  | created (attr : Attr) (fh : Nat)
  | attr (attr : Attr)
  | opened (fh : Nat)
  | data (payload : Bytes)
deriving DecidableEq, Repr

namespace Reply

def issued : Reply → Option Nat
  | .entry a => some a.ino
  | .created a _ => some a.ino
  | _ => Option.none

def entryOut (a : Attr) : Bytes :=
  le 8 a.ino ++ le 8 0 ++ le 8 entryValidSec ++ le 8 attrValidSec ++ le 4 0 ++ le 4 0 ++ writeAttr a

def openOut (fh : Nat) : Bytes := le 8 fh ++ le 4 0 ++ le 4 0

/-- The error field of the out-header, negated, and what follows the header. -/
def parts : Reply → Option (Nat × Bytes)
  | .none => Option.none
  | .error errno => some (errno.code, [])
  | .ack => some (0, [])
  | .entry a => some (0, entryOut a)
  | .created a fh => some (0, entryOut a ++ openOut fh)
  | .attr a => some (0, le 8 attrValidSec ++ le 4 0 ++ le 4 0 ++ writeAttr a)
  | .opened fh => some (0, openOut fh)
  | .data payload => some (0, payload)

/-- The reply frame; a negative error is its two's complement. -/
def encode (reply : Reply) (unique : Nat) : Option Bytes :=
  reply.parts.map fun (errno, payload) =>
    le 4 (fuseOutHeaderSize + payload.length) ++ le 4 ((2 ^ 32 - errno) % 2 ^ 32) ++ le 8 unique ++
      payload

end Reply

/-- The INIT reply; readahead and flags are only read from a long enough request. -/
def initOut (body : Bytes) : Bytes :=
  let maxReadahead := if 16 ≤ body.length then u32At body 8 else 0
  let flagsIn := if 16 ≤ body.length then u32At body 12 else 0
  le 4 fuseKernelVersion ++ le 4 (min (u32At body 4) fuseKernelMinorVersion) ++ le 4 maxReadahead ++
    le 4 (flagsIn &&& 0x450031) ++ le 2 16 ++ le 2 12 ++ le 4 131072 ++ le 4 1 ++ le 2 32 ++ le 2 0 ++
    le 4 0 ++ List.replicate 28 0

def statfsOut : Bytes :=
  le 8 1000000 ++ le 8 500000 ++ le 8 500000 ++ le 8 100000 ++ le 8 99000 ++ le 4 4096 ++ le 4 255 ++
    le 4 4096 ++ List.replicate 28 0

/-- The type byte of a directory entry, from the file type bits of a mode. -/
def modeToDt (mode : Nat) : Nat :=
  let kind := mode &&& 0o170000
  if kind = 0o040000 then 4
  else if kind = 0o100000 then 8
  else if kind = 0o120000 then 10
  else if kind = 0o020000 then 2
  else if kind = 0o060000 then 6
  else if kind = 0o010000 then 1
  else if kind = 0o140000 then 12
  else 0

def buildDirent (off dtype : Nat) (name : Bytes) : Bytes :=
  le 8 off ++ le 8 off ++ le 4 name.length ++ le 4 dtype ++ name ++
    List.replicate ((name.length + 7) / 8 * 8 - name.length) 0

/-- The whole entries that fit into what is left of a READDIR reply. -/
def fillDirents (room : Nat) : List Bytes → Bytes
  | [] => []
  | entry :: rest =>
    if room < entry.length then [] else entry ++ fillDirents (room - entry.length) rest

end Machinen.Mount
