import Machinen.Vmm.StateFile
import Machinen.Runtime.VmstateFile

/-! The facts that the runtime reads of a state file when it plans a boot: by its native helper,
which takes a plain file, and in the process for a compressed one. -/
namespace Machinen.Runtime

open Bytes SectionStream Vmm Snapshot

namespace VcpuReader

end VcpuReader

inductive GuestArch where
  | arm64 | amd64
deriving DecidableEq, Repr

def hexText (bytes : Bytes) : String :=
  String.ofList (bytes.flatMap fun b => [Nat.digitChar (b.toNat / 16), Nat.digitChar (b.toNat % 16)])

def sctlrPauthMask : Nat := 2 ^ 31 ||| 2 ^ 30 ||| 2 ^ 27 ||| 2 ^ 13

structure VmstateFacts where
  arch : GuestArch
  topologyHash : String
  sectionCount : Nat
  guestPauthActive : Option Bool
  sctlrEl1 : Option String
deriving DecidableEq, Repr

def VmstateFacts.of (arch : GuestArch) (topologyHash : Bytes) (sectionCount : Nat) (sctlr : Option Nat) :
    VmstateFacts where
  arch
  topologyHash := hexText topologyHash
  sectionCount
  guestPauthActive := sctlr.map fun sctlr => sctlr &&& sctlrPauthMask ≠ 0
  sctlrEl1 := sctlr.map fun sctlr => "0x" ++ String.ofList (Nat.toDigits 16 sctlr)

end Machinen.Runtime
