import Machinen.CleanService.ProcScanner

/-! What a kernel holds, and the tables it shows of it under `/proc`: names as they are in the tables of
sockets, mappings and processes, and escaped in the table of mounts. -/
namespace Machinen.CleanService

def digits (upper : Bool) (radix n : Nat) : Text :=
  (Nat.toDigits radix n).map fun c => if upper then c.toUpper else c

def decimal (n : Nat) : Text := digits false 10 n

def padStart (width : Nat) (fill : Char) (text : Text) : Text := List.replicate (width - text.length) fill ++ text

def padEnd (width : Nat) (fill : Char) (text : Text) : Text := text ++ List.replicate (width - text.length) fill

def signed (n : Int) : Text := if n < 0 then '-' :: decimal n.natAbs else decimal n.natAbs

/-- `%0*X`. -/
def upperHex (width n : Nat) : Text := padStart width '0' (digits true 16 n)
/-- `%0*x`. -/
def lowerHex (width n : Nat) : Text := padStart width '0' (digits false 16 n)

def spaced (columns : List Text) : Text := [' '].intercalate columns

structure TcpSocket where
  slot : Nat
  localAddress : List UInt32
  localPort : UInt16
  remoteAddress : List UInt32
  remotePort : UInt16
  state : UInt8
  txQueue : UInt32
  rxQueue : UInt32
  timer : UInt8
  expires : UInt64
  retransmits : UInt32
  uid : UInt32
  timeout : Nat
  inode : UInt64
  refcount : Nat
  pointer : UInt64
  figures : List Int

namespace TcpSocket

def endpoint (address : List UInt32) (port : UInt16) : Text :=
  address.flatMap (upperHex 8 ·.toNat) ++ ':' :: upperHex 4 port.toNat

def columns (s : TcpSocket) : List Text :=
  [padStart 4 ' ' (decimal s.slot) ++ [':'],
    endpoint s.localAddress s.localPort,
    endpoint s.remoteAddress s.remotePort,
    upperHex 2 s.state.toNat,
    upperHex 8 s.txQueue.toNat ++ ':' :: upperHex 8 s.rxQueue.toNat,
    upperHex 2 s.timer.toNat ++ ':' :: upperHex 8 s.expires.toNat,
    upperHex 8 s.retransmits.toNat,
    padStart 5 ' ' (decimal s.uid.toNat),
    padStart 8 ' ' (decimal s.timeout),
    decimal s.inode.toNat,
    decimal s.refcount,
    lowerHex 16 s.pointer.toNat] ++ s.figures.map signed

def line (s : TcpSocket) : Text := padEnd 149 ' ' (spaced s.columns)

def row (s : TcpSocket) : TcpRow :=
  { localPort := some s.localPort.toNat
    state := upperHex 2 s.state.toNat
    inode := decimal s.inode.toNat }

def title : Text :=
  "  sl  local_address rem_address   st tx_queue rx_queue tr tm->when retrnsmt   uid  timeout inode".toList

end TcpSocket

structure UnixSocket where
  pointer : UInt64
  refcount : UInt32
  protocol : UInt32
  flags : UInt32
  type : UInt16
  state : UInt8
  inode : UInt64
  path : Option Text

namespace UnixSocket

def columns (s : UnixSocket) : List Text :=
  [lowerHex 16 s.pointer.toNat ++ [':'],
    upperHex 8 s.refcount.toNat,
    upperHex 8 s.protocol.toNat,
    upperHex 8 s.flags.toNat,
    upperHex 4 s.type.toNat,
    upperHex 2 s.state.toNat,
    padStart 5 ' ' (decimal s.inode.toNat)]

def shown (s : UnixSocket) : Text := spaced (s.columns ++ s.path.toList)

def row (s : UnixSocket) : UnixSocketRow :=
  { type := upperHex 4 s.type.toNat
    state := upperHex 2 s.state.toNat
    inode := decimal s.inode.toNat
    path := s.path }

def title : Text := "Num       RefCount Protocol Flags    Type St Inode Path".toList

end UnixSocket

structure Permissions where
  read : Bool
  write : Bool
  execute : Bool
  shared : Bool

def Permissions.text (p : Permissions) : Text :=
  [if p.read then 'r' else '-', if p.write then 'w' else '-', if p.execute then 'x' else '-',
    if p.shared then 's' else 'p']

structure Mapping where
  first : UInt64
  last : UInt64
  permissions : Permissions
  offset : UInt64
  major : Nat
  minor : Nat
  inode : UInt64
  path : Option Text

namespace Mapping

def columns (m : Mapping) : List Text :=
  [lowerHex 8 m.first.toNat ++ '-' :: lowerHex 8 m.last.toNat,
    m.permissions.text,
    lowerHex 8 m.offset.toNat,
    lowerHex 2 m.major ++ ':' :: lowerHex 2 m.minor,
    decimal m.inode.toNat]

def shown (m : Mapping) : Text :=
  let front := spaced m.columns ++ [' ']
  match m.path with
  | none => front
  | some path => padEnd 73 ' ' front ++ path

def row (m : Mapping) : MemoryMapRow := { path := m.path, permissions := m.permissions.text }

end Mapping

inductive ProcessState where
  | running
  | sleeping
  | waiting
  | zombie
  | stopped
  | tracing
  | dead
  | idle
  | parked

def ProcessState.letter : ProcessState → Char
  | .running => 'R'
  | .sleeping => 'S'
  | .waiting => 'D'
  | .zombie => 'Z'
  | .stopped => 'T'
  | .tracing => 't'
  | .dead => 'X'
  | .idle => 'I'
  | .parked => 'P'

structure Process where
  pid : UInt32
  comm : Text
  state : ProcessState
  ppid : UInt32
  pgrp : UInt32
  session : UInt32
  figures : List Int
  mappings : List Mapping

namespace Process

def stat (p : Process) : Text :=
  decimal p.pid.toNat ++ " (".toList ++ p.comm ++ ") ".toList ++
    spaced ([[p.state.letter], decimal p.ppid.toNat, decimal p.pgrp.toNat, decimal p.session.toNat] ++
      p.figures.map signed) ++ ['\n']

def maps (p : Process) : Text := p.mappings.flatMap fun m => m.shown ++ ['\n']

def info (p : Process) : ProcessStatInfo :=
  { pid := .finite p.pid.toNat
    ppid := .finite p.ppid.toNat
    pgrp := .finite p.pgrp.toNat
    session := .finite p.session.toNat }

end Process

/-- What stands between two slashes of a path. -/
abbrev Name := { text : Text // text ≠ [] ∧ '/' ∉ text }

/-- A path from the root, as a lookup has resolved it. -/
abbrev Path := List Name

def Path.text : Path → Text
  | [] => ['/']
  | path => path.flatMap fun name => '/' :: name.val

inductive MountFlag where
  | nosuid
  | nodev
  | noexec
  | noatime
  | nodiratime
  | relatime
  | nosymfollow
  | idmapped
  deriving DecidableEq, Repr

def MountFlag.text : MountFlag → Text
  | .nosuid => "nosuid".toList
  | .nodev => "nodev".toList
  | .noexec => "noexec".toList
  | .noatime => "noatime".toList
  | .nodiratime => "nodiratime".toList
  | .relatime => "relatime".toList
  | .nosymfollow => "nosymfollow".toList
  | .idmapped => "idmapped".toList

/-- How a mount takes part in the propagation of others. -/
inductive Propagation where
  | shared (group : Nat)
  | master (group : Nat)
  | propagateFrom (group : Nat)
  | unbindable
  deriving DecidableEq, Repr

def Propagation.text : Propagation → Text
  | .shared group => "shared:".toList ++ decimal group
  | .master group => "master:".toList ++ decimal group
  | .propagateFrom group => "propagate_from:".toList ++ decimal group
  | .unbindable => "unbindable".toList

/-- A character as the table of mounts shows it: by its octal number where it would break a row. -/
def escape (c : Char) : Text :=
  if c = ' ' then "\\040".toList
  else if c = '\t' then "\\011".toList
  else if c = '\n' then "\\012".toList
  else if c = '\\' then "\\134".toList
  else [c]

def mangle (name : Text) : Text := name.flatMap escape

structure Mount where
  id : Nat
  parent : Nat
  major : Nat
  minor : Nat
  /-- The directory of the filesystem that the mount shows. -/
  root : Path
  point : Path
  readOnly : Bool
  flags : List MountFlag
  propagation : List Propagation
  fsType : Text
  source : Text
  superReadOnly : Bool
  superOptions : Text
  deriving DecidableEq

namespace Mount

def options (m : Mount) : List Text :=
  (if m.readOnly then "ro".toList else "rw".toList) :: m.flags.map MountFlag.text

def columns (m : Mount) : List Text :=
  [decimal m.id, decimal m.parent, decimal m.major ++ ':' :: decimal m.minor,
    mangle m.root.text, mangle m.point.text, [','].intercalate m.options] ++ m.propagation.map Propagation.text ++
    ["-".toList, mangle m.fsType, mangle m.source, (if m.superReadOnly then "ro".toList else "rw".toList) ++
      mangle m.superOptions]

def line (m : Mount) : Text := spaced m.columns

def row (m : Mount) : MountInfoRow :=
  { mountPoint := m.point.text
    fsType := m.fsType
    options := m.options
    optionalFields := m.propagation.map Propagation.text }

end Mount

structure Kernel where
  tcp : List TcpSocket
  unix : List UnixSocket
  processes : List Process
  mounts : List Mount
  /-- The mount a lookup begins in. -/
  root : Mount
  root_mem : root ∈ mounts
  root_point : root.point = []

namespace Kernel

def tcpTable (k : Kernel) : Text :=
  padEnd 149 ' ' TcpSocket.title ++ '\n' :: k.tcp.flatMap fun s => s.line ++ ['\n']

def unixTable (k : Kernel) : Text := UnixSocket.title ++ '\n' :: k.unix.flatMap fun s => s.shown ++ ['\n']

def mountInfo (k : Kernel) : Text := k.mounts.flatMap fun m => m.line ++ ['\n']

/-- What lies on a directory of a mount, in front of it. -/
def Covers (k : Kernel) (child below : Mount) (at_ : Path) : Prop :=
  child ∈ k.mounts ∧ child.parent = below.id ∧ child.point = at_

/-- The mounts a lookup comes through, and where: it crosses into what is mounted where it stands, as
often as that is so, before it goes on to the next name. -/
inductive Lookup (k : Kernel) : Path → Mount → Prop where
  | root : Lookup k [] k.root
  | cross {at_ : Path} {below child : Mount} : Lookup k at_ below → k.Covers child below at_ → Lookup k at_ child
  | down {at_ : Path} {m : Mount} (name : Name) :
      Lookup k at_ m → (∀ child, ¬ k.Covers child m at_) → Lookup k (at_ ++ [name]) m

def Visible (k : Kernel) (path : Path) (m : Mount) : Prop := k.Lookup path m ∧ ∀ child, ¬ k.Covers child m path

end Kernel

end Machinen.CleanService
