import Machinen.Vmm.RootdiskDelta

/-! The RAM sections of a state file: the sparse image of a full capture and the delta
that a later one lays over its parent. -/
namespace Machinen.Vmm

open Bytes Extents

def PAGE : Nat := 4096

/-- Guest RAM has whole pages, and at least one. -/
structure Ram where
  bytes : Bytes
  nonempty : 0 < bytes.length
  paged : PAGE ∣ bytes.length
  word : bytes.length < 2 ^ 64

namespace RamDump

inductive DecodeError where
  | truncated
  | sizeMismatch
  | hashMismatch
  deriving DecidableEq, Repr

structure RamDeltaHeader where
  ramBase : Nat
  ramSize : Nat
  pageSize : Nat
  sha256 : Digest

def DELTA_HEADER_SIZE : Nat := 64

def RamDeltaHeader.bytes (h : RamDeltaHeader) : Bytes :=
  le 8 h.ramBase ++ (le 8 h.ramSize ++ (le 4 h.pageSize ++ (le 4 0 ++ (h.sha256.val ++ zeros 8))))

/-- The pages that `encode_delta` walks over, as extents. -/
def deltaExtents (fuel : Nat) (ram : Bytes) (dirtyBits : List Word) : Option (List Extent) :=
  extentsFrom PAGE ram.length (Bitmap.bitSet dirtyBits) fuel 0

def encodeDelta (sha256 : Bytes → Digest) (fuel ramBase : Nat) (ram : Bytes) (dirtyBits : List Word) :
    Option Bytes :=
  (deltaExtents fuel ram dirtyBits).map fun es =>
    let body := encodeExtents ram es
    RamDeltaHeader.bytes ⟨ramBase, ram.length, PAGE, sha256 body⟩ ++ body

/-- One extent of a RAM stream must be complete and land inside the declared size. -/
def ramReader (ramSize : Nat) : Reader DecodeError where
  truncated := .truncated
  check off len left :=
    if left < len then some .truncated
    else if ramSize < off ∨ ramSize - off < len then some .sizeMismatch
    else none
  write := store

def decodeDeltaInto (sha256 : Bytes → Digest) (payload dest : Bytes) : Except DecodeError Bytes :=
  if payload.length < DELTA_HEADER_SIZE then .error .truncated
  else if toNat (slice payload 16 4) ≠ PAGE then .error .sizeMismatch
  else
    let body := payload.drop DELTA_HEADER_SIZE
    if (sha256 body).val ≠ slice payload 24 32 then .error .hashMismatch
    else
      let ramSize := toNat (slice payload 8 8)
      if dest.length < ramSize then .error .sizeMismatch
      else applyExtents (ramReader ramSize) body dest

def HEADER_SIZE : Nat := 48

/-- A full section; the fresh RAM of a restore is zero already. -/
def decodeIntoMode (sha256 : Bytes → Digest) (zeroDestFirst : Bool) (payload dest : Bytes) :
    Except DecodeError Bytes :=
  if payload.length < HEADER_SIZE then .error .truncated
  else
    let body := payload.drop HEADER_SIZE
    if (sha256 body).val ≠ slice payload 16 32 then .error .hashMismatch
    else
      let ramSize := toNat (slice payload 8 8)
      if dest.length < ramSize then .error .sizeMismatch
      else applyExtents (ramReader ramSize) body
        (if zeroDestFirst then store dest 0 (zeros ramSize) else dest)

def decodeInto (sha256 : Bytes → Digest) : Bytes → Bytes → Except DecodeError Bytes :=
  decodeIntoMode sha256 true

def decodeIntoZeroed (sha256 : Bytes → Digest) : Bytes → Bytes → Except DecodeError Bytes :=
  decodeIntoMode sha256 false

theorem store_zeros {size n : Nat} (room : n ≤ size) : store (zeros size) 0 (zeros n) = zeros size := by
  refine List.ext_getElem? fun i => ?_
  by_cases inside : i < n
  · rw [store_inside _ _ _ _ (by simp only [zeros_length]; omega) (Nat.zero_le _)
      (by simp only [zeros_length]; omega)]
    simp only [zeros, List.getElem?_replicate, Nat.sub_zero, if_pos inside,
      if_pos (Nat.lt_of_lt_of_le inside room)]
  · exact store_outside _ _ _ _ (.inr (by simp only [zeros_length]; omega))

theorem decodeInto_zeros (sha256 : Bytes → Digest) (payload : Bytes) (size : Nat) :
    decodeInto sha256 payload (zeros size) = decodeIntoZeroed sha256 payload (zeros size) := by
  unfold decodeInto decodeIntoZeroed decodeIntoMode
  dsimp only
  split
  · rfl
  · split
    · rfl
    · split
      · rfl
      · rename_i room
        rw [if_pos rfl, store_zeros (by rw [zeros_length] at room; omega)]
        rfl

theorem store_writesInPlace : WritesInPlace store := fun _ _ _ _ => rfl

theorem ramReader_accepts {ramSize : Nat} {es : List Extent} (within : Within ramSize es) (e : Extent)
    (member : e ∈ es) (left : Nat) (enough : e.len ≤ left) :
    (ramReader ramSize).check e.start e.len left = none := by
  have bounds := within e member
  have len_eq : e.start + e.len = e.stop := by unfold Extent.len; omega
  simp only [ramReader]
  rw [if_neg (by omega), if_neg (by omega)]

section RoundTrip

variable (sha256 : Bytes → Digest) (ramBase ramSize : Nat) (body : Bytes)

def deltaPayload : Bytes := RamDeltaHeader.bytes ⟨ramBase, ramSize, PAGE, sha256 body⟩ ++ body

theorem deltaPayload_fields (word : ramSize < 2 ^ 64) :
    DELTA_HEADER_SIZE ≤ (deltaPayload sha256 ramBase ramSize body).length ∧
      toNat (slice (deltaPayload sha256 ramBase ramSize body) 8 8) = ramSize ∧
      toNat (slice (deltaPayload sha256 ramBase ramSize body) 16 4) = PAGE ∧
      slice (deltaPayload sha256 ramBase ramSize body) 24 32 = (sha256 body).val ∧
      (deltaPayload sha256 ramBase ramSize body).drop DELTA_HEADER_SIZE = body := by
  have digest_length := (sha256 body).property
  have layout : deltaPayload sha256 ramBase ramSize body = le 8 ramBase ++ (le 8 ramSize ++
      (le 4 PAGE ++ (le 4 0 ++ ((sha256 body).val ++ (zeros 8 ++ body))))) := by
    simp only [deltaPayload, RamDeltaHeader.bytes, List.append_assoc]
  have header_length : (RamDeltaHeader.bytes ⟨ramBase, ramSize, PAGE, sha256 body⟩).length =
      DELTA_HEADER_SIZE := by
    simp only [RamDeltaHeader.bytes, List.length_append, le_length, digest_length, zeros_length,
      DELTA_HEADER_SIZE]
  have after_base : (deltaPayload sha256 ramBase ramSize body).drop 8 = le 8 ramSize ++
      (le 4 PAGE ++ (le 4 0 ++ ((sha256 body).val ++ (zeros 8 ++ body)))) := by
    rw [layout, List.drop_left' (le_length 8 _)]
  have after_size : (deltaPayload sha256 ramBase ramSize body).drop 16 =
      le 4 PAGE ++ (le 4 0 ++ ((sha256 body).val ++ (zeros 8 ++ body))) := by
    rw [show 16 = 8 + 8 from rfl, ← List.drop_drop, after_base, List.drop_left' (le_length 8 _)]
  refine ⟨?_, ?_, ?_, ?_, ?_⟩
  · rw [deltaPayload, List.length_append, header_length]
    exact Nat.le_add_right _ _
  · rw [slice, after_base, List.take_left' (le_length 8 _)]
    exact toNat_le 8 _ word
  · rw [slice, after_size, List.take_left' (le_length 4 _)]
    exact toNat_le 4 _ (by decide)
  · rw [slice, show 24 = 16 + (4 + 4) from rfl, ← List.drop_drop, after_size, ← List.drop_drop,
      List.drop_left' (le_length 4 _), List.drop_left' (le_length 4 _), List.take_left' digest_length]
  · exact List.drop_left' header_length

theorem decode_deltaPayload (word : ramSize < 2 ^ 64) (dest : Bytes) (room : ramSize ≤ dest.length) :
    decodeDeltaInto sha256 (deltaPayload sha256 ramBase ramSize body) dest =
      applyExtents (ramReader ramSize) body dest := by
  obtain ⟨long, size_eq, page_eq, digest_eq, body_eq⟩ :=
    deltaPayload_fields sha256 ramBase ramSize body word
  simp only [decodeDeltaInto, if_neg (Nat.not_lt.mpr long), size_eq, page_eq, digest_eq, body_eq]
  rw [if_neg (by simp), if_neg (by simp), if_neg (by omega)]

end RoundTrip

theorem encodeDelta_returns (sha256 : Bytes → Digest) (ramBase : Nat) (ram : Ram)
    (dirtyBits : List Word) :
    ∃ fuel es, deltaExtents fuel ram.bytes dirtyBits = some es ∧ Within ram.bytes.length es ∧
      encodeDelta sha256 fuel ramBase ram.bytes dirtyBits =
        some (deltaPayload sha256 ramBase ram.bytes.length (encodeExtents ram.bytes es)) := by
  have clean : TailClean PAGE ram.bytes.length (Bitmap.bitSet dirtyBits) := .inl ram.paged
  obtain ⟨es, collected⟩ := extentsFrom_returns (by decide) clean
    (divCeil ram.bytes.length PAGE + 1) 0 (Nat.zero_le _) (by simp)
  have within := (extentsFrom_covered (by decide) clean _ 0 es (by simp) collected).1
  exact ⟨_, es, collected, within, by rw [encodeDelta, deltaExtents, collected]; rfl⟩

theorem decodeDelta_encodeDelta {sha256 : Bytes → Digest} {fuel ramBase : Nat} {ram : Ram}
    {dirtyBits : List Word} {payload parent : Bytes} (same_length : parent.length = ram.bytes.length)
    (encoded : encodeDelta sha256 fuel ramBase ram.bytes dirtyBits = some payload) :
    ∃ es, deltaExtents fuel ram.bytes dirtyBits = some es ∧ Within ram.bytes.length es ∧
      decodeDeltaInto sha256 payload parent = .ok (overlay store ram.bytes es parent) := by
  have clean : TailClean PAGE ram.bytes.length (Bitmap.bitSet dirtyBits) := .inl ram.paged
  obtain ⟨es, collected, payload_eq⟩ := Option.map_eq_some_iff.mp encoded
  have within := (extentsFrom_covered (by decide) clean fuel 0 es (by simp) collected).1
  refine ⟨es, collected, within, ?_⟩
  have framed : payload = deltaPayload sha256 ramBase ram.bytes.length (encodeExtents ram.bytes es) :=
    payload_eq.symm
  rw [framed, decode_deltaPayload sha256 ramBase _ _ ram.word parent (by omega)]
  exact applyExtents_encode (ramReader ram.bytes.length) ram.bytes es parent within (Nat.le_refl _)
    ram.word (ramReader_accepts within)

theorem decodeDelta_bytes {sha256 : Bytes → Digest} {fuel ramBase : Nat} {ram : Ram}
    {dirtyBits : List Word} {payload parent : Bytes} (same_length : parent.length = ram.bytes.length)
    (encoded : encodeDelta sha256 fuel ramBase ram.bytes dirtyBits = some payload) :
    ∃ restored, decodeDeltaInto sha256 payload parent = .ok restored ∧
      restored.length = ram.bytes.length ∧
      ∀ i, i < ram.bytes.length → restored[i]? =
        if Bitmap.bitSet dirtyBits (i / PAGE) = true then ram.bytes[i]? else parent[i]? := by
  have clean : TailClean PAGE ram.bytes.length (Bitmap.bitSet dirtyBits) := .inl ram.paged
  obtain ⟨es, collected, within, decoded⟩ := decodeDelta_encodeDelta same_length encoded
  have covers := (extentsFrom_covered (by decide) clean fuel 0 es (by simp) collected).2
  obtain ⟨length_eq, bytes⟩ := overlay_spec store_writesInPlace ram.bytes es parent within (Nat.le_refl _)
    (by omega)
  refine ⟨_, decoded, length_eq.trans same_length, ?_⟩
  intro i inside
  rw [bytes i]
  by_cases marked : Bitmap.bitSet dirtyBits (i / PAGE) = true
  · rw [if_pos marked, if_pos ((covers i).mpr ⟨Nat.zero_le i, inside, marked⟩)]
  · rw [if_neg marked, if_neg (fun covered => marked ((covers i).mp covered).2.2)]

end RamDump
end Machinen.Vmm
