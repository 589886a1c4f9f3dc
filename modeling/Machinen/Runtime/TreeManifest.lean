import Machinen.Lib.Decimal
import Machinen.Lib.Radix
import Machinen.Lib.RelPath

/-! The manifest of a host tree, a line for each path in it, and its hash. -/
namespace Machinen.Runtime.TreeManifest

open DirTree

structure Stat where
  mode : Nat
  mtimeNs : Int
  deriving DecidableEq

inductive HostFile where
  | file (st : Stat) (data : Bytes)
  | symLink (st : Stat) (target : Bytes)
  | other (st : Stat)
  deriving DecidableEq

abbrev HostTree := DirTree Bytes HostFile Stat

def modeBits (st : Stat) : Nat := st.mode &&& 0o7777

def manifestMtimeNs (st : Stat) : Int := st.mtimeNs / 1000000 * 1000000

def sequenceLength (first : UInt8) : Nat :=
  if 0xc0 ≤ first ∧ first ≤ 0xdf then 2
  else if 0xe0 ≤ first ∧ first ≤ 0xef then 3
  else if 0xf0 ≤ first ∧ first ≤ 0xf7 then 4
  else 1

/-- The units of a text some of whose bytes are to be passed over. -/
def unitsFrom : Nat → Bytes → Nat
  | _, [] => 0
  | skip + 1, _ :: rest => unitsFrom skip rest
  | 0, first :: rest =>
    if rest.length + 1 < sequenceLength first then 1
    else (if sequenceLength first = 4 then 2 else 1) + unitsFrom (sequenceLength first - 1) rest

def utf16CodeUnitCount (bytes : Bytes) : Nat := unitsFrom 0 bytes

def hexDigest (digest : Bytes) : Bytes :=
  digest.flatMap fun byte => [Radix.digit (byte.toNat / 16), Radix.digit (byte.toNat % 16)]

def signed : Int → Bytes
  | .ofNat n => Decimal.encode n
  | .negSucc n => 0x2d :: Decimal.encode (n + 1)

def terminated (fields : List Bytes) : Bytes := fields.flatMap fun field => field ++ [0]

/-- A line: its fields, and what stands behind them. -/
def manifestLine (kind : UInt8) (childRel : Bytes) (st : Stat) (size rest : Bytes) : Bytes :=
  terminated [childRel, [kind], Radix.encode 8 (modeBits st), size, signed (manifestMtimeNs st)] ++ rest

def symlinkManifestLine (childRel : Bytes) (st : Stat) (target : Bytes) : Bytes :=
  manifestLine 0x4c childRel st (Decimal.encode (utf16CodeUnitCount target)) target

def fileManifestLine (sha : Bytes → Bytes) (childRel : Bytes) (st : Stat) (data : Bytes) : Bytes :=
  manifestLine 0x46 childRel st (Decimal.encode data.length) (hexDigest (sha data))

def manifestLineForStat (sha : Bytes → Bytes) (childRel : Bytes) : HostFile ⊕ Stat → Bytes
  | .inl (.symLink st target) => symlinkManifestLine childRel st target
  | .inr st => manifestLine 0x44 childRel st [] []
  | .inl (.file st data) => fileManifestLine sha childRel st data
  | .inl (.other st) => manifestLine 0x3f childRel st [] []

/-- All that the walk meets below the root, each path with what stands there. -/
def walked (entries : List (Bytes × HostTree)) : List (List Bytes × (HostFile ⊕ Stat)) :=
  walkDirectory byName (fun _ => false) [] entries

def sortedLines (sha : Bytes → Bytes) (entries : List (Bytes × HostTree)) : List Bytes :=
  ((walked entries).map fun e => manifestLineForStat sha (joined e.1) e.2).mergeSort fun a b => decide (a ≤ b)

def stream (sha : Bytes → Bytes) (entries : List (Bytes × HostTree)) : Bytes :=
  (sortedLines sha entries).flatMap fun line => line ++ [0x0a]

def treeManifestHash (sha : Bytes → Bytes) : HostTree → Option Bytes
  | .leaf _ => none
  | .directory _ entries => some (hexDigest (sha (stream sha entries)))

end Machinen.Runtime.TreeManifest
