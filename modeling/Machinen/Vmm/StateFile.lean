import Machinen.Vmm.VcpuDump

/-! The state file on disk: what is captured, written with or without compression, and read back
by a restore. Compression itself is code of the standard library of the VMM. -/
namespace Machinen.Snapshot

open Bytes SectionStream Vmm

inductive Compression where
  | none | gzip
deriving DecidableEq, Repr

def gzipMagic : Bytes := [0x1f, 0x8b]

/-- What is compressed is at least a header and a trailer, and begins with the magic. -/
def compress (deflate : Bytes → Bytes) (input : Bytes) : Option Bytes :=
  let out := deflate input
  if 18 ≤ out.length ∧ slice out 0 2 = gzipMagic then some out else none

def vcpuTag : UInt32 := 2

/-- A capture: the vCPU of a host, and the sections of the RAM and the devices. -/
structure Capture where
  backend : Backend
  topologyHash : Digest
  vcpu : Vcpu
  devices : List Section
  apart : ∀ s ∈ devices, s.tag ≠ vcpuTag

def Capture.sections (c : Capture) : Option (List Section) :=
  (encodeVcpuPayload (dump c.backend.registers c.vcpu)).map fun payload =>
    { tag := vcpuTag, id := 0, payload } :: c.devices

/-- The addresses of a process; a larger allocation fails. -/
def addressSpace : Nat := 2 ^ 52

def Capture.write (deflate : Bytes → Bytes) (compression : Compression) (c : Capture) : Option Bytes := do
  let sections ← c.sections
  let bytes ← encodeWithArch c.backend.arch c.topologyHash sections
  if bytes.length < addressSpace then
    match compression with
    | .none => some bytes
    | .gzip => compress deflate bytes
  else none

end Machinen.Snapshot
