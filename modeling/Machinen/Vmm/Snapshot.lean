import Machinen.Lib.SectionStream
import Machinen.Vmm.RootdiskDelta

/-! The state file of a VM: a fixed header and the sections, as the VMM writes and reads it. -/
namespace Machinen.Snapshot

open Bytes SectionStream Vmm

def MAGIC : Bytes := [0x56, 0x4d, 0x53, 0x54, 0x41, 0x54, 0x45, 0x00]
def VERSION : Nat := 1
def ARCH_AARCH64 : Nat := 1
def ARCH_X86_64 : Nat := 2
def HEADER_SIZE : Nat := 64

structure Vmstate where
  arch : Nat
  topologyHash : Bytes
  sections : List Section
deriving DecidableEq, Repr

inductive ParseError where
  | badMagic
  | unsupportedVersion
  | unsupportedArch
  | truncated
  | sectionOverflow
deriving DecidableEq, Repr

/-- `reserved` and `reserved2` are zero. -/
def headerBytes (arch sectionCount : Nat) (topologyHash : Digest) : Bytes :=
  MAGIC ++ (le 4 VERSION ++ (le 4 arch ++ (le 4 sectionCount ++ (le 4 0 ++ (topologyHash.val ++ zeros 8)))))

def totalSize (sections : List Section) : Nat :=
  HEADER_SIZE + (sections.map fun s => SECTION_HEADER_SIZE + s.payload.length).sum

/-- No result is a failed assertion, or a size that is not a word. -/
def encodeWithArch (arch : Nat) (topologyHash : Digest) (sections : List Section) : Option Bytes :=
  if (arch = ARCH_AARCH64 ∨ arch = ARCH_X86_64) ∧ sections.length < 2 ^ 32 ∧
    totalSize sections < 2 ^ 64 then
    some (headerBytes arch sections.length topologyHash ++ encodeSections sections)
  else none

def sectionReader : Reader ParseError where
  truncated := .truncated
  check off len size := if size < len ∨ size < off + len then some .sectionOverflow else none

def decode (bytes : Bytes) : Except ParseError Vmstate :=
  if bytes.length < HEADER_SIZE then .error .truncated
  else if slice bytes 0 8 ≠ MAGIC then .error .badMagic
  else if toNat (slice bytes 8 4) ≠ VERSION then .error .unsupportedVersion
  else
    let arch := toNat (slice bytes 12 4)
    if arch ≠ ARCH_AARCH64 ∧ arch ≠ ARCH_X86_64 then .error .unsupportedArch
    else (readSections sectionReader bytes (toNat (slice bytes 16 4)) HEADER_SIZE).map fun sections =>
      { arch, topologyHash := slice bytes 24 32, sections }

/-- The header that a state file begins with. -/
structure HasHeader (bytes : Bytes) (arch count : Nat) (topologyHash : Bytes) : Prop where
  long : HEADER_SIZE ≤ bytes.length
  magic : slice bytes 0 8 = MAGIC
  version : toNat (slice bytes 8 4) = VERSION
  machine : toNat (slice bytes 12 4) = arch
  known : arch = ARCH_AARCH64 ∨ arch = ARCH_X86_64
  count : toNat (slice bytes 16 4) = count
  topology : slice bytes 24 32 = topologyHash

/-- What the bytes of a state file say; what follows the sections says nothing. -/
structure Holds (bytes : Bytes) (v : Vmstate) : Prop where
  header : HasHeader bytes v.arch v.sections.length v.topologyHash
  sections : HoldsAt bytes HEADER_SIZE v.sections

theorem sectionReader_exact (size : Nat) : sectionReader.Exact size := by
  intro off len inside word
  unfold sectionReader
  dsimp only
  split
  · rename_i overflow
    exact iff_of_false nofun (by omega)
  · rename_i fits
    exact iff_of_true rfl (by omega)

theorem decode_iff (bytes : Bytes) (v : Vmstate) : decode bytes = .ok v ↔ Holds bytes v := by
  unfold decode
  constructor
  · intro decoded
    split at decoded
    · cases decoded
    · rename_i long
      split at decoded
      · cases decoded
      · rename_i magic
        split at decoded
        · cases decoded
        · rename_i version
          dsimp only at decoded
          split at decoded
          · cases decoded
          · rename_i known
            obtain ⟨sections, read, rfl⟩ := except_map_ok decoded
            have inside : HEADER_SIZE ≤ bytes.length := Nat.le_of_not_lt long
            obtain ⟨length, held⟩ := (readSections_iff (sectionReader_exact _) _ inside sections).mp read
            exact ⟨⟨inside, Classical.not_not.mp magic, Classical.not_not.mp version, rfl,
              Decidable.or_iff_not_not_and_not.mpr known, length.symm, rfl⟩, held⟩
  · rintro ⟨header, held⟩
    rw [if_neg (Nat.not_lt.mpr header.long), if_neg (not_not_intro header.magic),
      if_neg (not_not_intro header.version)]
    dsimp only
    rw [header.machine, if_neg (Decidable.or_iff_not_not_and_not.mp header.known), header.count,
      (readSections_iff (sectionReader_exact _) _ header.long v.sections).mpr ⟨rfl, held⟩, header.topology]
    rfl

theorem decode_unique {bytes : Bytes} {v w : Vmstate} (held : Holds bytes v) (other : Holds bytes w) :
    v = w :=
  Except.ok.inj (((decode_iff bytes v).mpr held).symm.trans ((decode_iff bytes w).mpr other))

theorem headerBytes_length (arch count : Nat) (topologyHash : Digest) :
    (headerBytes arch count topologyHash).length = HEADER_SIZE := by
  simp only [headerBytes, List.length_append, le_length, topologyHash.property, zeros_length, MAGIC,
    List.length_cons, List.length_nil, HEADER_SIZE]

theorem slice_append {xs ys : Bytes} {off len : Nat} (inside : off + len ≤ xs.length) :
    slice (xs ++ ys) off len = slice xs off len := by
  unfold slice
  rw [List.drop_append_of_le_length (by omega),
    List.take_append_of_le_length (by rw [List.length_drop]; omega)]

/-- A header that the encoder writes is one that the decoder reads. -/
theorem headerBytes_read {arch count : Nat} (known : arch = ARCH_AARCH64 ∨ arch = ARCH_X86_64)
    (word : count < 2 ^ 32) (topologyHash : Digest) (rest : Bytes) :
    HasHeader (headerBytes arch count topologyHash ++ rest) arch count topologyHash.val := by
  have length := headerBytes_length arch count topologyHash
  have small : arch < 256 ^ 4 := by
    rcases known with rfl | rfl
    · decide
    · decide
  have read : ∀ off len, off + len ≤ HEADER_SIZE →
    slice (headerBytes arch count topologyHash ++ rest) off len =
      slice (headerBytes arch count topologyHash) off len := fun off len inside =>
    slice_append (by rw [length]; exact inside)
  refine ⟨by rw [List.length_append, length]; exact Nat.le_add_right _ _, ?_, ?_, ?_, known, ?_, ?_⟩
  · rw [read 0 8 (by decide)]
    rfl
  · rw [read 8 4 (by decide)]
    exact toNat_le 4 _ (by decide)
  · rw [read 12 4 (by decide)]
    exact toNat_le 4 _ small
  · rw [read 16 4 (by decide)]
    exact toNat_le 4 _ word
  · rw [read 24 32 (by decide)]
    exact List.take_left' topologyHash.property

theorem encodeSections_length (sections : List Section) :
    HEADER_SIZE + (encodeSections sections).length = totalSize sections := by
  unfold totalSize encodeSections
  rw [List.length_flatMap]
  simp only [Section.bytes_length]

theorem sized_of_total {sections : List Section} (word : totalSize sections < 2 ^ 64) : Sized sections := by
  intro s listed
  rw [← encodeSections_length] at word
  have part : s.bytes.length ≤ (sections.map Section.bytes).flatten.length :=
    (List.sublist_flatten_of_mem (List.mem_map_of_mem listed)).length_le
  rw [Section.bytes_length] at part
  unfold encodeSections List.flatMap at word
  omega

variable {arch : Nat} {topologyHash : Digest} {sections : List Section} {bytes : Bytes}

theorem encode_holds (encoded : encodeWithArch arch topologyHash sections = some bytes) :
    Holds bytes { arch, topologyHash := topologyHash.val, sections } ∧
      bytes.length = HEADER_SIZE + (encodeSections sections).length := by
  unfold encodeWithArch at encoded
  split at encoded
  · rename_i fits
    obtain ⟨known, count, total⟩ := fits
    cases encoded
    have length := headerBytes_length arch sections.length topologyHash
    refine ⟨⟨headerBytes_read known count topologyHash _, sized_of_total total, [], ?_⟩, ?_⟩
    · rw [List.drop_left' length, List.append_nil]
    · rw [List.length_append, length]
  · cases encoded

theorem decode_encode (encoded : encodeWithArch arch topologyHash sections = some bytes) :
    decode bytes = .ok { arch, topologyHash := topologyHash.val, sections } :=
  (decode_iff _ _).mpr (encode_holds encoded).1

theorem HasHeader.append {count : Nat} {hash : Bytes} (header : HasHeader bytes arch count hash)
    (more : Bytes) : HasHeader (bytes ++ more) arch count hash := by
  have long := header.long
  have read : ∀ off len, off + len ≤ HEADER_SIZE → slice (bytes ++ more) off len = slice bytes off len :=
    fun off len inside => slice_append (by omega)
  refine ⟨by rw [List.length_append]; omega, ?_, ?_, ?_, header.known, ?_, ?_⟩
  · rw [read 0 8 (by decide), header.magic]
  · rw [read 8 4 (by decide), header.version]
  · rw [read 12 4 (by decide), header.machine]
  · rw [read 16 4 (by decide), header.count]
  · rw [read 24 32 (by decide), header.topology]

theorem Holds.append {v : Vmstate} (held : Holds bytes v) (more : Bytes) : Holds (bytes ++ more) v :=
  ⟨held.header.append more, holdsAt_append held.sections held.header.long more⟩

theorem decode_cut (encoded : encodeWithArch arch topologyHash sections = some bytes) {cut : Bytes}
    (begins : cut <+: bytes) (short : cut ≠ bytes) : ∃ e, decode cut = .error e := by
  cases decoded : decode cut with
  | error e => exact ⟨e, rfl⟩
  | ok v =>
    have held := (decode_iff cut v).mp decoded
    obtain ⟨more, rfl⟩ := begins
    obtain ⟨whole, length⟩ := encode_holds encoded
    cases decode_unique (held.append more) whole
    have needed := holdsAt_length held.sections held.header.long
    rw [List.length_append] at length
    have nothing : more = [] := List.length_eq_zero_iff.mp (by dsimp only at needed; omega)
    rw [nothing, List.append_nil] at short
    exact absurd rfl short

end Machinen.Snapshot
