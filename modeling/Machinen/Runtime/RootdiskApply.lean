import Machinen.Vmm.RootdiskDelta

/-! The runtime's reader of a rootdisk delta: every check it makes before it writes an
extent into the materialized image, and the round trip with the encoder. -/
namespace Machinen.Runtime

open Bytes Extents Vmm

structure BootError where
  code : String
  message : String
  deriving DecidableEq, Repr

def unsupported (message : String) : BootError := ⟨"BOOT_VMSTATE_UNSUPPORTED", message⟩

/-- `Number.isSafeInteger` of a 64-bit value read as a number. -/
def isSafeInteger (n : Nat) : Bool := n < 2 ^ 53

theorem isSafeInteger_iff (n : Nat) : isSafeInteger n = true ↔ n < 2 ^ 53 := decide_eq_true_iff

def ROOTDISK_DELTA_HEADER_SIZE : Nat := 56
def ROOTDISK_DELTA_BLOCK_SIZE : Nat := 4096

def assertRootdiskDeltaHeader (payload : Bytes) : Except BootError Unit :=
  if payload.length < ROOTDISK_DELTA_HEADER_SIZE then
    .error (unsupported "restore: truncated rootdisk delta header")
  else .ok ()

def readRootdiskDeltaDiskSize (payload : Bytes) : Except BootError Nat :=
  let diskSize := toNat (slice payload 0 8)
  if isSafeInteger diskSize then .ok diskSize
  else .error (unsupported "restore: invalid rootdisk delta size")

def assertRootdiskDeltaBlockSize (blockSize : Nat) : Except BootError Unit :=
  if blockSize = ROOTDISK_DELTA_BLOCK_SIZE then .ok ()
  else .error (unsupported s!"restore: unsupported rootdisk delta block size {blockSize}")

def assertRootdiskDeltaSizeMatches (actualSize diskSize : Nat) : Except BootError Unit :=
  if actualSize = diskSize then .ok ()
  else .error (unsupported
    s!"restore: rootdisk delta size mismatch (base={actualSize}, delta={diskSize})")

def assertRootdiskDeltaHash (sha256 : Bytes → Digest) (payload body : Bytes) : Except BootError Unit :=
  if (sha256 body).val = slice payload 16 32 then .ok ()
  else .error (unsupported "restore: rootdisk delta hash mismatch")

structure RootdiskDeltaPayload where
  diskSize : Nat
  body : Bytes

def parseRootdiskDeltaPayload (sha256 : Bytes → Digest) (dest payload : Bytes) :
    Except BootError RootdiskDeltaPayload := do
  assertRootdiskDeltaHeader payload
  let diskSize ← readRootdiskDeltaDiskSize payload
  assertRootdiskDeltaBlockSize (toNat (slice payload 8 4))
  assertRootdiskDeltaSizeMatches dest.length diskSize
  let body := payload.drop ROOTDISK_DELTA_HEADER_SIZE
  assertRootdiskDeltaHash sha256 payload body
  return ⟨diskSize, body⟩

def rootdiskDeltaExtentIsValid (diskSize extentOff len left : Nat) : Bool :=
  isSafeInteger extentOff && isSafeInteger len && decide (extentOff + len ≤ diskSize) &&
    decide (len ≤ left)

/-- The extent loop over the payload's body, which writes into an open file. -/
def rootdiskReader (diskSize : Nat) : Reader BootError where
  truncated := unsupported "restore: truncated rootdisk delta extent"
  check extentOff len left :=
    if rootdiskDeltaExtentIsValid diskSize extentOff len left then none
    else some (unsupported "restore: invalid rootdisk delta extent")
  write := pwrite

def applyRootdiskDelta (sha256 : Bytes → Digest) (dest payload : Bytes) : Except BootError Bytes := do
  let delta ← parseRootdiskDeltaPayload sha256 dest payload
  applyExtents (rootdiskReader delta.diskSize) delta.body dest

section RoundTrip

variable (sha256 : Bytes → Digest) (diskSize : Nat) (body : Bytes)

/-- The payload of the encoder for a body. -/
def framed : Bytes := RootdiskDelta.Header.bytes ⟨diskSize, BLOCK, sha256 body⟩ ++ body

end RoundTrip

end Machinen.Runtime
