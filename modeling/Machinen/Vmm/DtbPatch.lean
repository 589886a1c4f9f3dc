import Machinen.Lib.Framing

/-! The patches of a flattened device tree: two walks over the structure block, of which one writes the
end of the initramfs and one the size of the memory. An assertion that fails and a slice that leaves the
blob stop the process: such a computation is `none`. -/
namespace Machinen.Vmm.DtbPatch

open Bytes Framing

def FDT_BEGIN_NODE : Nat := 1
def FDT_END_NODE : Nat := 2
def FDT_PROP : Nat := 3
def FDT_NOP : Nat := 4
def FDT_END : Nat := 9

def FDT_HEADER_BYTES : Nat := 40
def FDT_MAGIC : Nat := 0xd00dfeed
def MAX_FDT_DEPTH : Nat := 64
def MAX_NAME_BYTES : Nat := 256
def ROOT_CHILD_DEPTH : Nat := 2

inductive DtbError where
  | dtbTooSmall | dtbBadMagic | dtbOutOfBounds | dtbBadStrings | dtbBadStruct | dtbTruncated | dtbBadToken
  | dtbBadName | dtbTooDeep | initrdEndNotFound | initrdEndWrongSize | regPropNotFound | memorySizeZero
  | memoryRegNotFound | memoryRegWrongSize
  deriving DecidableEq, Repr

abbrev Checked (A : Type) := Option (Except DtbError A)

def ok {A : Type} (a : A) : Checked A := some (.ok a)
def fail {A : Type} (e : DtbError) : Checked A := some (.error e)
def assert (p : Prop) [Decidable p] : Checked Unit := if p then ok () else none

/-- `std.mem.readInt(u32, dtb[i..][0..4], .big)`. -/
def readU32 (dtb : Bytes) (i : Nat) : Checked Nat :=
  if i + 4 ≤ dtb.length then ok (ofBe (slice dtb i 4)) else none

/-- `std.mem.writeInt(.., dtb[i..], .., .big)`. -/
def writeInt (dtb : Bytes) (i width n : Nat) : Checked Bytes :=
  if i + width ≤ dtb.length then ok (store dtb i (be width n)) else none

def alignForward (i : Nat) : Nat := (i + 3) / 4 * 4

/-- `std.mem.indexOf`. -/
def indexOf (needle : Bytes) : Bytes → Option Nat
  | [] => if needle = [] then some 0 else none
  | b :: bs => if needle <+: b :: bs then some 0 else (indexOf needle bs).map (· + 1)

structure Header where
  offStruct : Nat
  offStrings : Nat
  sizeStrings : Nat
  deriving DecidableEq, Repr

namespace Header

def read (dtb : Bytes) : Checked Header :=
  andThen (assert (0 < dtb.length)) fun _ =>
  if dtb.length < FDT_HEADER_BYTES then fail .dtbTooSmall
  else andThen (readU32 dtb 0) fun magic =>
  if magic ≠ FDT_MAGIC then fail .dtbBadMagic
  else andThen (readU32 dtb 8) fun offStruct => andThen (readU32 dtb 12) fun offStrings =>
  andThen (readU32 dtb 32) fun sizeStrings =>
  if dtb.length < offStrings + sizeStrings then fail .dtbOutOfBounds
  else if dtb.length < offStruct then fail .dtbOutOfBounds
  else if sizeStrings = 0 then fail .dtbBadStrings
  else if offStruct < FDT_HEADER_BYTES then fail .dtbBadStruct
  else if offStrings < FDT_HEADER_BYTES then fail .dtbBadStrings
  else ok ⟨offStruct, offStrings, sizeStrings⟩

def stringOffset (h : Header) (dtb needle : Bytes) : Checked (Option Nat) :=
  andThen (assert (0 < needle.length ∧ h.offStrings + h.sizeStrings ≤ dtb.length)) fun _ =>
  match indexOf needle (slice dtb h.offStrings h.sizeStrings) with
  | none => ok none
  | some pos => andThen (assert (pos < h.sizeStrings)) fun _ => ok (some pos)

end Header

/-- The loop of `skip_name`, with the bytes that a name may still have. -/
def nameEnd (dtb : Bytes) : Nat → Nat → Except DtbError Nat
  | left, i =>
    match dtb[i]? with
    | none => .ok i
    | some b =>
      if b = 0 then .ok i
      else match left with
        | 0 => .error .dtbBadName
        | left + 1 => nameEnd dtb left (i + 1)

def skipName (dtb : Bytes) (start : Nat) : Checked Nat :=
  andThen (assert (start ≤ dtb.length)) fun _ =>
  andThen (some (nameEnd dtb MAX_NAME_BYTES start)) fun i =>
  if dtb.length ≤ i then fail .dtbTruncated
  else
    let aligned := alignForward (i + 1)
    if dtb.length < aligned then fail .dtbTruncated else ok aligned

def nameSlice (dtb : Bytes) (start : Nat) : Checked Bytes :=
  andThen (assert (start ≤ dtb.length)) fun _ =>
  let name := (dtb.drop start).takeWhile (· ≠ 0)
  andThen (assert (name.length ≤ MAX_NAME_BYTES)) fun _ => ok name

def ascii (text : String) : Bytes := text.toList.map fun c => UInt8.ofNat c.toNat

def isMemoryNodeName (name : Bytes) : Bool := name = ascii "memory" || (ascii "memory@").isPrefixOf name

def skipProp (dtb : Bytes) (i plen : Nat) : Checked Nat :=
  if dtb.length - i < plen then fail .dtbTruncated
  else
    let next := alignForward (i + plen)
    if dtb.length < next then fail .dtbTruncated else ok next

/-- The loop of `patch_initrd_end`, with the turns that are left. -/
def walkInitrd (dtb : Bytes) (nameOffset newEnd : Nat) : Nat → Nat → Checked Bytes
  | left, i =>
    if dtb.length < i + 4 then fail .dtbTruncated
    else match left with
    | 0 => fail .dtbTruncated
    | left + 1 =>
      andThen (readU32 dtb i) fun tok =>
      let i := i + 4
      if tok = FDT_BEGIN_NODE then andThen (skipName dtb i) (walkInitrd dtb nameOffset newEnd left)
      else if tok = FDT_END_NODE ∨ tok = FDT_NOP then walkInitrd dtb nameOffset newEnd left i
      else if tok = FDT_PROP then
        if dtb.length < i + 8 then fail .dtbTruncated
        else andThen (readU32 dtb i) fun plen => andThen (readU32 dtb (i + 4)) fun nameoff =>
        let i := i + 8
        if nameoff = nameOffset then
          if plen ≠ 4 then fail .initrdEndWrongSize
          else if dtb.length < i + 4 then fail .dtbTruncated
          else writeInt dtb i 4 newEnd
        else andThen (skipProp dtb i plen) (walkInitrd dtb nameOffset newEnd left)
      else if tok = FDT_END then fail .initrdEndNotFound
      else fail .dtbBadToken

def patchInitrdEnd (dtb : Bytes) (newEnd : Nat) : Checked Bytes :=
  andThen (assert (0 < dtb.length)) fun _ =>
  andThen (Header.read dtb) fun h =>
  andThen (h.stringOffset dtb (ascii "linux,initrd-end" ++ [0])) fun found =>
  match found with
  | none => fail .initrdEndNotFound
  | some nameOffset => walkInitrd dtb nameOffset newEnd (dtb.length / 4 + 1) h.offStruct

structure Walk where
  depth : Nat := 0
  inMemoryNode : Bool := false
  deriving DecidableEq, Repr

inductive Turn where
  | patched (dtb : Bytes)
  | onwards (i : Nat) (walk : Walk)

/-- One turn of the loop of `patch_memory_size`, after its checks. -/
def turnMemory (dtb : Bytes) (regOffset sizeBytes i : Nat) (w : Walk) : Checked Turn :=
  andThen (assert (w.depth < MAX_FDT_DEPTH)) fun _ =>
  andThen (readU32 dtb i) fun tok =>
  let i := i + 4
  if tok = FDT_BEGIN_NODE then
    if MAX_FDT_DEPTH ≤ w.depth then fail .dtbTooDeep
    else andThen (skipName dtb i) fun next =>
    let depth := w.depth + 1
    andThen (assert (0 < depth ∧ depth ≤ MAX_FDT_DEPTH)) fun _ =>
    if depth = ROOT_CHILD_DEPTH then
      andThen (nameSlice dtb i) fun name =>
      andThen (assert (name.length ≤ MAX_NAME_BYTES)) fun _ =>
      ok (.onwards next ⟨depth, isMemoryNodeName name⟩)
    else ok (.onwards next { w with depth })
  else if tok = FDT_END_NODE then
    if w.depth = 0 then fail .dtbBadToken
    else if w.inMemoryNode ∧ w.depth = ROOT_CHILD_DEPTH then fail .memoryRegNotFound
    else ok (.onwards i { w with depth := w.depth - 1 })
  else if tok = FDT_NOP then ok (.onwards i w)
  else if tok = FDT_PROP then
    if dtb.length < i + 8 then fail .dtbTruncated
    else andThen (readU32 dtb i) fun plen => andThen (readU32 dtb (i + 4)) fun nameoff =>
    let i := i + 8
    if w.inMemoryNode ∧ w.depth = ROOT_CHILD_DEPTH ∧ nameoff = regOffset then
      if plen ≠ 16 then fail .memoryRegWrongSize
      else if dtb.length < i + 16 then fail .dtbTruncated
      else andThen (writeInt dtb (i + 8) 8 sizeBytes) fun written => ok (.patched written)
    else andThen (skipProp dtb i plen) fun next => ok (.onwards next w)
  else if tok = FDT_END then fail .memoryRegNotFound
  else fail .dtbBadToken

/-- The loop of `patch_memory_size`, with the turns that are left. -/
def walkMemory (dtb : Bytes) (regOffset sizeBytes : Nat) : Nat → Nat → Walk → Checked Bytes
  | left, i, w =>
    if dtb.length < i + 4 then fail .dtbTruncated
    else match left with
    | 0 => fail .dtbTruncated
    | left + 1 =>
      andThen (turnMemory dtb regOffset sizeBytes i w) fun turn =>
      match turn with
      | .patched written => ok written
      | .onwards next w => walkMemory dtb regOffset sizeBytes left next w

def patchMemorySize (dtb : Bytes) (sizeBytes : Nat) : Checked Bytes :=
  andThen (assert (0 < dtb.length)) fun _ =>
  if sizeBytes = 0 then fail .memorySizeZero
  else andThen (Header.read dtb) fun h =>
  andThen (h.stringOffset dtb (ascii "reg" ++ [0])) fun found =>
  match found with
  | none => fail .regPropNotFound
  | some regOffset => walkMemory dtb regOffset sizeBytes (dtb.length / 4 + 1) h.offStruct {}

end Machinen.Vmm.DtbPatch
