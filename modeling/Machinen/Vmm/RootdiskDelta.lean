import Machinen.Lib.Bitmap
import Machinen.Lib.ExtentStream

/-! The rootdisk delta payload: a fixed header and the extents of the marked blocks,
read from the image file while the vCPU is stopped. -/
namespace Machinen.Vmm

open Bytes Extents

def BLOCK : Nat := 4096

def Digest : Type := { bs : Bytes // bs.length = 32 }

def emptyDigest : Digest :=
  ⟨[0xe3, 0xb0, 0xc4, 0x42, 0x98, 0xfc, 0x1c, 0x14, 0x9a, 0xfb, 0xf4, 0xc8, 0x99, 0x6f, 0xb9, 0x24,
    0x27, 0xae, 0x41, 0xe4, 0x64, 0x9b, 0x93, 0x4c, 0xa4, 0x95, 0x99, 0x1b, 0x78, 0x52, 0xb8, 0x55],
    by decide⟩

namespace RootdiskDelta

def HEADER_SIZE : Nat := 56

structure Header where
  diskSize : Nat
  blockSize : Nat
  sha256 : Digest

/-- `reserved` and `reserved2` are zero. -/
def Header.bytes (h : Header) : Bytes :=
  le 8 h.diskSize ++ (le 4 h.blockSize ++ (le 4 0 ++ (h.sha256.val ++ zeros 8)))

theorem Header.bytes_length (h : Header) : h.bytes.length = HEADER_SIZE := by
  simp only [Header.bytes, List.length_append, le_length, h.sha256.property, zeros,
    List.length_replicate, HEADER_SIZE]

end RootdiskDelta
end Machinen.Vmm
