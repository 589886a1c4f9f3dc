import Machinen.Vmm.Snapshot
import Machinen.Runtime.RootdiskApply

/-! The state file as the runtime reads and writes it, and its agreement with the VMM. -/
namespace Machinen.Runtime

open Bytes SectionStream Vmm Snapshot

def number (n : Nat) : Nat :=
  if isSafeInteger n then n
  else
    let unit := 2 ^ (n.log2 - 52)
    let low := n % unit
    if 2 * low < unit ∨ (2 * low = unit ∧ (n / unit) % 2 = 0) then n - low else n - low + unit

structure DecodedVmstate where
  arch : Option Nat
  topologyHash : Bytes
  sections : List Section
deriving DecidableEq, Repr

def GZIP_MAGIC : Bytes := [0x1f, 0x8b]

variable (gunzipSync : Bytes → Except String Bytes)

def maybeGunzip (raw : Bytes) : Except String Bytes :=
  if slice raw 0 2 = GZIP_MAGIC then gunzipSync raw else .ok raw

def vmstateReader : SectionStream.Reader String where
  truncated := "vmstate: truncated section header"
  check off len size :=
    if !isSafeInteger (number len) || decide (size < number (off + number len)) then
      some "vmstate: section overflows file"
    else none

def parseVmstate (bytes : Bytes) : Except String DecodedVmstate :=
  if bytes.length < HEADER_SIZE then .error s!"vmstate: truncated header ({bytes.length} bytes)"
  else if slice bytes 0 8 ≠ MAGIC then .error "vmstate: bad magic"
  else
    let version := toNat (slice bytes 8 4)
    if version ≠ 1 then .error s!"vmstate: unsupported version {version}"
    else
      let arch := toNat (slice bytes 12 4)
      if arch ≠ ARCH_AARCH64 ∧ arch ≠ ARCH_X86_64 then .error s!"vmstate: unsupported arch {arch}"
      else (readSections vmstateReader bytes (toNat (slice bytes 16 4)) HEADER_SIZE).map fun sections =>
        { arch := some arch, topologyHash := slice bytes 24 32, sections }

def readVmstate (raw : Bytes) : Except String DecodedVmstate :=
  (maybeGunzip gunzipSync raw).bind parseVmstate

def DecodedVmstate.of (v : Vmstate) : DecodedVmstate :=
  { arch := some v.arch, topologyHash := v.topologyHash, sections := v.sections }

def topology : Digest := ⟨List.replicate 32 0xab, by decide⟩

end Machinen.Runtime
