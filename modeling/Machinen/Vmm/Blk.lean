import Machinen.Vmm.RootdiskDelta
import Machinen.Vmm.Virtio

/-! The virtio-blk backend over a host file, with the bitmap of blocks written since
the last checkpoint. What a system call returns is chosen by the host. -/
namespace Machinen.Vmm

open Bytes Extents

structure DirtyTracker where
  diskSize : Nat
  bits : List Word
  positive : 0 < diskSize
  words : bits.length = divCeil (divCeil diskSize BLOCK) 64

namespace DirtyTracker

def init (diskSize : Nat) (positive : 0 < diskSize) : DirtyTracker where
  diskSize := diskSize
  bits := List.replicate (divCeil (divCeil diskSize BLOCK) 64) 0#64
  positive := positive
  words := List.length_replicate

def clear (t : DirtyTracker) : DirtyTracker :=
  { t with bits := Bitmap.clearAll t.bits, words := by rw [Bitmap.clearAll_length, t.words] }

def mark (t : DirtyTracker) (offset len : Nat) : DirtyTracker :=
  if len = 0 ∨ t.diskSize ≤ offset then t
  else
    let stop := if t.diskSize - offset < len then t.diskSize else offset + len
    { t with
      bits := Bitmap.setRange t.bits (offset / BLOCK) (divCeil stop BLOCK)
      words := by rw [Bitmap.setRange_length, t.words] }

@[simp] theorem mark_diskSize (t : DirtyTracker) (offset len : Nat) :
    (t.mark offset len).diskSize = t.diskSize := by
  unfold mark
  split <;> rfl

theorem mark_mono (t : DirtyTracker) (offset len b : Nat) (marked : Bitmap.bitSet t.bits b = true) :
    Bitmap.bitSet (t.mark offset len).bits b = true := by
  unfold mark
  split
  · exact marked
  · simp only [Bitmap.bitSet_setRange, marked, Bool.true_or]

theorem mark_covers (t : DirtyTracker) (offset len i : Nat) (inside : i < t.diskSize)
    (clear : Bitmap.bitSet (t.mark offset len).bits (i / BLOCK) = false) :
    Bitmap.bitSet t.bits (i / BLOCK) = false ∧ (i < offset ∨ offset + len ≤ i) := by
  unfold mark at clear
  split at clear
  · rename_i nothing
    exact ⟨clear, by omega⟩
  · rename_i something
    simp only [Bitmap.bitSet_setRange, Bool.or_eq_false_iff, Bool.and_eq_false_iff,
      decide_eq_false_iff_not] at clear
    refine ⟨clear.1, ?_⟩
    have block_inside : i / BLOCK < divCeil t.diskSize BLOCK :=
      (lt_divCeil_iff (by decide) _).mpr (Nat.lt_of_le_of_lt (Nat.div_mul_le_self i BLOCK) inside)
    have word_inside : i / BLOCK / 64 < t.bits.length := by
      rw [t.words, lt_divCeil_iff (by decide)]
      exact Nat.lt_of_le_of_lt (Nat.div_mul_le_self _ 64) block_inside
    have outside_blocks := clear.2.resolve_right (fun no_room => no_room word_inside)
    by_contra within
    refine outside_blocks ⟨Nat.div_le_div_right (by omega), ?_⟩
    rw [lt_divCeil_iff (by decide)]
    refine Nat.lt_of_le_of_lt (Nat.div_mul_le_self i BLOCK) ?_
    split <;> omega

end DirtyTracker

/-- A backend whose capacity came from the size of the file it holds. -/
structure Backend where
  capacitySectors : Nat
  readOnly : Bool
  dirty : Option DirtyTracker
  image : Bytes
  positive : 0 < capacitySectors
  word : capacitySectors * 512 < 2 ^ 64
  held : capacitySectors * 512 ≤ image.length
  tracks : ∀ t ∈ dirty, t.diskSize = capacitySectors * 512

namespace Backend

def diskSize (b : Backend) : Nat := b.capacitySectors * 512

def markDirtyBytes (b : Backend) (offset len : Nat) : Backend :=
  { b with
    dirty := b.dirty.map fun t => t.mark offset len
    tracks := by
      intro t found
      obtain ⟨old, known, rfl⟩ := Option.map_eq_some_iff.mp found
      rw [DirtyTracker.mark_diskSize]
      exact b.tracks old known }

def pwriteAt (b : Backend) (offset : Nat) (bytes : Bytes) : Backend :=
  { b with
    image := pwrite b.image offset bytes
    held := by
      have := b.held
      rw [pwrite_length]
      split <;> omega }

/-- `fallocate` with PUNCH_HOLE and KEEP_SIZE: the range reads as zeros afterwards. -/
def punchHole (b : Backend) (offset len : Nat) : Backend :=
  { b with
    image := store b.image offset (zeros (min len (b.image.length - offset)))
    held := by rw [store_length]; exact b.held }

def marked (b : Backend) : Nat → Bool :=
  match b.dirty with
  | some t => Bitmap.bitSet t.bits
  | none => fun _ => false

/-- What a backend may become while its disk is in use: the image never gets shorter,
marks stay, and a byte of the disk that changed lies in a marked block. -/
structure Follows (b b' : Backend) : Prop where
  capacity_eq : b'.capacitySectors = b.capacitySectors
  tracked_eq : b'.dirty.isSome = b.dirty.isSome
  longer : b.image.length ≤ b'.image.length
  marks : ∀ n, b.marked n = true → b'.marked n = true
  unchanged : b.dirty.isSome = true →
    ∀ i, i < b.diskSize → b'.marked (i / BLOCK) = false → b'.image[i]? = b.image[i]?

theorem Follows.refl (b : Backend) : b.Follows b :=
  ⟨rfl, rfl, Nat.le_refl _, fun _ h => h, fun _ _ _ _ => rfl⟩

theorem Follows.trans {a b c : Backend} (one : a.Follows b) (two : b.Follows c) : a.Follows c := by
  refine ⟨two.capacity_eq.trans one.capacity_eq, two.tracked_eq.trans one.tracked_eq,
    Nat.le_trans one.longer two.longer, fun n h => two.marks n (one.marks n h), ?_⟩
  intro tracked i inside clear
  have earlier : b.marked (i / BLOCK) = false := by
    cases marked : b.marked (i / BLOCK) with
    | false => rfl
    | true => rw [two.marks _ marked] at clear; contradiction
  have same_size : b.diskSize = a.diskSize := by simp only [diskSize, one.capacity_eq]
  rw [two.unchanged (one.tracked_eq.trans tracked) i (by omega) clear,
    one.unchanged tracked i inside earlier]

theorem follows_of_range {b b' : Backend} {offset len : Nat}
    (capacity_eq : b'.capacitySectors = b.capacitySectors)
    (dirty_eq : b'.dirty = b.dirty.map fun t => t.mark offset len)
    (longer : b.image.length ≤ b'.image.length)
    (outside : ∀ i, i < b.image.length → i < offset ∨ offset + len ≤ i → b'.image[i]? = b.image[i]?) :
    b.Follows b' := by
  refine ⟨capacity_eq, by rw [dirty_eq, Option.isSome_map], longer, ?_, ?_⟩
  · intro n marked
    unfold Backend.marked at marked ⊢
    rw [dirty_eq]
    cases tracker : b.dirty with
    | none => rw [tracker] at marked; contradiction
    | some t =>
      rw [tracker] at marked
      exact t.mark_mono offset len n marked
  · intro tracked i inside clear
    obtain ⟨t, tracker⟩ := Option.isSome_iff_exists.mp tracked
    have size_eq := b.tracks t tracker
    unfold Backend.marked at clear
    rw [dirty_eq, tracker] at clear
    have range := t.mark_covers offset len i (by rw [size_eq]; exact inside) clear
    exact outside i (Nat.lt_of_lt_of_le inside b.held) range.2

theorem pwrite_follows (b : Backend) (offset : Nat) (bytes : Bytes) :
    b.Follows ((b.pwriteAt offset bytes).markDirtyBytes offset bytes.length) := by
  refine follows_of_range rfl rfl ?_ ?_
  · simp only [markDirtyBytes, pwriteAt, pwrite_length]
    split <;> omega
  · intro i known outside
    exact pwrite_outside b.image offset bytes i known outside

theorem punch_follows (b : Backend) (offset len punched : Nat) (within : punched ≤ len) :
    b.Follows ((b.markDirtyBytes offset len).punchHole offset punched) := by
  refine follows_of_range rfl rfl ?_ ?_
  · simp only [punchHole, store_length, markDirtyBytes, Nat.le_refl]
  · intro i _ outside
    refine store_outside b.image offset _ i ?_
    simp only [zeros, List.length_replicate]
    omega

end Backend

def VIRTIO_BLK_S_OK : Nat := 0
def VIRTIO_BLK_S_IOERR : Nat := 1
def VIRTIO_BLK_S_UNSUPP : Nat := 2

/-- What the host answers to one system call of a request. A partial transfer or a hole
punched in part is a smaller count. -/
inductive HostResult where
  | failed
  | upTo (n : Nat)
  deriving DecidableEq, Repr

abbrev Host := Nat → HostResult

/-- The trace is switched off, but its two assertions on the kind stand before the switch. The kinds
of the other calls (`read`, `write`, `discard`) pass them. -/
def traceBlk (kind : String) : Option Unit :=
  if 0 < kind.length ∧ kind.length < 16 then some () else none

@[simp] theorem traceBlk_fallback : traceBlk "discard-fallback" = none := by decide

@[simp] theorem traceBlk_rejected : traceBlk "write-rejected-ro" = none := by decide

structure Chain where
  hdr : Option VringDesc := none
  data : List VringDesc := []
  statusDesc : Option VringDesc := none
  deriving DecidableEq, Repr

def Chain.add (c : Chain) (d : VringDesc) : Chain :=
  match c.hdr with
  | none => { c with hdr := some d }
  | some _ =>
    if !d.hasNext && d.len = 1 then { c with statusDesc := some d }
    else if c.data.length < 8 then { c with data := c.data ++ [d] }
    else c

def walkChain (m : Memory) (dev : Device) : Nat → Nat → Chain → Option Chain
  | 0, _, chain => some chain
  | steps + 1, idx, chain => do
    match ← queueDescriptor m dev 0 idx with
    | none => return chain
    | some d => if d.hasNext then walkChain m dev steps d.next (chain.add d) else return chain.add d

structure Progress where
  mem : Memory
  backend : Backend
  status : Nat
  bytesWritten : Nat

def doRead (b : Backend) (host : Host) : List VringDesc → Nat → Nat → Memory → Nat → Option Progress
  | [], _, _, m, written => some ⟨m, b, VIRTIO_BLK_S_OK, written⟩
  | d :: ds, call, sector, m, written => do
    match ← m.guestSlice d.addr d.len with
    | none => return ⟨m, b, VIRTIO_BLK_S_IOERR, written⟩
    | some off =>
      let start ← i64 sector
      let position ← i64 (start * 512)
      match host call with
      | .failed => return ⟨m, b, VIRTIO_BLK_S_IOERR, written⟩
      | .upTo n =>
        let got := slice b.image position (min n d.len)
        let total ← u32 (written + got.length)
        let next ← u64 (sector + d.len / 512)
        doRead b host ds (call + 1) next (m.write off got) total

def doWrite (m : Memory) (host : Host) : List VringDesc → Nat → Nat → Backend → Nat → Option Progress
  | [], _, _, b, _ => some ⟨m, b, VIRTIO_BLK_S_OK, 0⟩
  | d :: ds, call, sector, b, total => do
    match ← m.guestSlice d.addr d.len with
    | none => return ⟨m, b, VIRTIO_BLK_S_IOERR, 0⟩
    | some off =>
      let byteOff ← u64 (sector * 512)
      let position ← i64 byteOff
      match host call with
      | .failed => return ⟨m, b, VIRTIO_BLK_S_IOERR, 0⟩
      | .upTo n =>
        let src := (slice m.bytes off d.len).take n
        let total ← u32 (total + src.length)
        let next ← u64 (sector + d.len / 512)
        doWrite m host ds (call + 1) next ((b.pwriteAt position src).markDirtyBytes byteOff src.length)
          total

def discardSegments (m : Memory) (host : Host) (off : Nat) :
    Nat → Nat → Nat → Backend → Option (Backend × Nat)
  | 0, _, call, b => some (b, call)
  | left + 1, index, call, b => do
    let sector := toNat (slice m.bytes (off + index * 16) 8)
    let numSectors := toNat (slice m.bytes (off + index * 16 + 8) 4)
    let start ← i64 sector
    let offsetBytes ← i64 (start * 512)
    let lenBytes ← i64 (numSectors * 512)
    if lenBytes = 0 then discardSegments m host off left (index + 1) call b
    else
      let marked := b.markDirtyBytes offsetBytes lenBytes
      match host call with
      | .failed => do
        traceBlk "discard-fallback"
        discardSegments m host off left (index + 1) (call + 1) marked
      | .upTo n =>
        discardSegments m host off left (index + 1) (call + 1)
          (marked.punchHole offsetBytes (min n lenBytes))

def doDiscard (m : Memory) (host : Host) : List VringDesc → Nat → Backend → Option Progress
  | [], _, b => some ⟨m, b, VIRTIO_BLK_S_OK, 0⟩
  | d :: ds, call, b =>
    let segCount := d.len / 16
    if segCount = 0 then doDiscard m host ds call b
    else do
      match ← m.guestSlice d.addr (segCount * 16) with
      | none => return ⟨m, b, VIRTIO_BLK_S_IOERR, 0⟩
      | some off =>
        let (b, call) ← discardSegments m host off segCount 0 call b
        doDiscard m host ds call b

/-- `"machinen-vda"` padded to twenty bytes. -/
def blkId : Bytes :=
  [0x6d, 0x61, 0x63, 0x68, 0x69, 0x6e, 0x65, 0x6e, 0x2d, 0x76, 0x64, 0x61, 0, 0, 0, 0, 0, 0, 0, 0]

/-- A device id that does not fit leaves the request without any answer: no result. -/
def doGetId (m : Memory) (b : Backend) : List VringDesc → Option (Option Progress)
  | [] => some (some ⟨m, b, VIRTIO_BLK_S_OK, 0⟩)
  | d :: _ => do
    let len := min d.len 20
    match ← m.guestSlice d.addr len with
    | none => return none
    | some off => return some ⟨m.write off (blkId.take len), b, VIRTIO_BLK_S_OK, len⟩

def dispatch (m : Memory) (b : Backend) (host : Host) (type sector : Nat) (data : List VringDesc) :
    Option (Option Progress) :=
  match type with
  | 0 => (doRead b host data 0 sector m 0).map some
  | 1 =>
    if b.readOnly then do
      traceBlk "write-rejected-ro"
      return some ⟨m, b, VIRTIO_BLK_S_IOERR, 0⟩
    else (doWrite m host data 0 sector b 0).map some
  | 4 => some (some ⟨m, b, VIRTIO_BLK_S_OK, 0⟩)
  | 8 => doGetId m b data
  | 11 =>
    if b.readOnly then some (some ⟨m, b, VIRTIO_BLK_S_IOERR, 0⟩)
    else (doDiscard m host data 0 b).map some
  | _ => some (some ⟨m, b, VIRTIO_BLK_S_UNSUPP, 0⟩)

/-- The status byte, when its descriptor can be reached, and then the used element. -/
def finishRequest (dev : Device) (head : Nat) (statusDesc : VringDesc) (p : Progress) :
    Option (Memory × Backend) := do
  let found ← p.mem.guestSlice statusDesc.addr 1
  let m := match found with
    | none => p.mem
    | some off => p.mem.write off (le 1 p.status)
  let len ← u32 (p.bytesWritten + 1)
  let pushed ← queuePushUsed m dev 0 head len
  return (pushed, p.backend)

def handleRequest (m : Memory) (dev : Device) (b : Backend) (host : Host) (head : Nat) :
    Option (Memory × Backend) := do
  let chain ← walkChain m dev 32 head {}
  match chain.hdr, chain.statusDesc with
  | some hdr, some statusDesc =>
    match ← m.guestSlice hdr.addr 16 with
    | none => return (← queuePushUsed m dev 0 head 0, b)
    | some off =>
      let type := toNat (slice m.bytes off 4)
      let sector := toNat (slice m.bytes (off + 8) 8)
      match ← dispatch m b host type sector chain.data with
      | none => return (m, b)
      | some progress => finishRequest dev head statusDesc progress
  | _, _ => return (← queuePushUsed m dev 0 head 0, b)

end Machinen.Vmm
