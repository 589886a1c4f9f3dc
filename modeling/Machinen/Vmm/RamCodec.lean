import Machinen.Vmm.RamDump

/-! The sparse encoder of a full capture, and the codec as a whole: a full section restores
its RAM over anything, and the deltas after it restore every later one. -/
namespace Machinen.Vmm

open Bytes Extents

/-- Host memory that the encoder reads; its length is a `usize`. -/
structure HostSlice where
  bytes : Bytes
  word : bytes.length < 2 ^ 64

namespace RamDump

def isZero (buf : Bytes) : Bool :=
  if 8 ≤ buf.length then toNat (slice buf 0 8) = 0 && isZero (buf.drop 8)
  else buf.all (· == 0)
termination_by buf.length
decreasing_by
  simp only [List.length_drop]
  omega

/-- The page of RAM that starts at a position; the last one may be cut short. -/
def pageAt (ram : Bytes) (start : Nat) : Bytes := slice ram start (min (start + PAGE) ram.length - start)

/-- The loop `while (next_extent(cursor)) |e| cursor = e.end` of `encode`. -/
def fullExtents (fuel : Nat) (ram : Bytes) : Option (List Extent) :=
  runsFrom PAGE ram.length (fun i => !isZero (pageAt ram i)) fuel 0

structure RamHeader where
  ramBase : Nat
  ramSize : Nat
  sha256 : Digest

def RamHeader.bytes (h : RamHeader) : Bytes := le 8 h.ramBase ++ (le 8 h.ramSize ++ h.sha256.val)

def Encodable (ramBase : Nat) (ram : Bytes) : Prop := 0 < ram.length ∧ ramBase % PAGE = 0

instance (ramBase : Nat) (ram : Bytes) : Decidable (Encodable ramBase ram) :=
  inferInstanceAs (Decidable (_ ∧ _))

/-- A failed assertion, or no result within `fuel` rounds of the extent loop, is `none`. -/
def encode (sha256 : Bytes → Digest) (fuel ramBase : Nat) (ram : Bytes) : Option Bytes :=
  if Encodable ramBase ram then
    (fullExtents fuel ram).map fun es =>
      let body := encodeExtents ram es
      RamHeader.bytes ⟨ramBase, ram.length, sha256 body⟩ ++ body
  else none

/-- `encode_delta` from its assertions on. -/
def encodeDeltaAsserted (sha256 : Bytes → Digest) (fuel ramBase : Nat) (ram : Bytes)
    (dirtyBits : List Word) : Option Bytes :=
  if Encodable ramBase ram then encodeDelta sha256 fuel ramBase ram dirtyBits else none

theorem toNat_eq_zero (xs : Bytes) : toNat xs = 0 ↔ ∀ b ∈ xs, b = 0 := by
  induction xs with
  | nil => simp [Bytes.toNat]
  | cons b bs ih =>
    have first : b.toNat = 0 ↔ b = 0 := by rw [← UInt8.toNat_inj]; rfl
    unfold Bytes.toNat
    rw [List.forall_mem_cons, ← ih, ← first]
    omega

theorem isZero_iff (buf : Bytes) : isZero buf = true ↔ ∀ b ∈ buf, b = 0 := by
  induction buf using isZero.induct with
  | case1 buf whole ih =>
    rw [isZero, if_pos whole]
    simp only [Bool.and_eq_true, decide_eq_true_eq, toNat_eq_zero, ih]
    rw [slice, List.drop_zero, ← List.forall_mem_append, List.take_append_drop]
  | case2 buf short =>
    rw [isZero, if_neg short]
    simp

theorem zero_of_skipped {ram : Bytes} {a : Nat} (inside : a < ram.length)
    (zero : isZero (pageAt ram (a / PAGE * PAGE)) = true) : ram[a]? = some 0 := by
  have low : a / PAGE * PAGE ≤ a := Nat.div_mul_le_self a PAGE
  have high : a < a / PAGE * PAGE + PAGE := by
    have := Nat.lt_div_mul_add (a := a) (b := PAGE) (by decide)
    omega
  have here : (pageAt ram (a / PAGE * PAGE))[a - a / PAGE * PAGE]? = ram[a]? := by
    rw [pageAt, slice_getElem?, if_pos (by omega), Nat.add_sub_cancel' low]
  obtain ⟨b, found⟩ : ∃ b, ram[a]? = some b := ⟨ram[a], List.getElem?_eq_getElem inside⟩
  rw [found] at here ⊢
  rw [(isZero_iff _).mp zero b (List.mem_of_getElem? here)]

section Full

variable (sha256 : Bytes → Digest) (ramBase ramSize : Nat) (body : Bytes)

def fullPayload : Bytes := RamHeader.bytes ⟨ramBase, ramSize, sha256 body⟩ ++ body

theorem fullPayload_fields (word : ramSize < 2 ^ 64) :
    HEADER_SIZE ≤ (fullPayload sha256 ramBase ramSize body).length ∧
      toNat (slice (fullPayload sha256 ramBase ramSize body) 8 8) = ramSize ∧
      slice (fullPayload sha256 ramBase ramSize body) 16 32 = (sha256 body).val ∧
      (fullPayload sha256 ramBase ramSize body).drop HEADER_SIZE = body := by
  have digest_length := (sha256 body).property
  have layout : fullPayload sha256 ramBase ramSize body =
      le 8 ramBase ++ (le 8 ramSize ++ ((sha256 body).val ++ body)) := by
    simp only [fullPayload, RamHeader.bytes, List.append_assoc]
  have header_length : (RamHeader.bytes ⟨ramBase, ramSize, sha256 body⟩).length = HEADER_SIZE := by
    simp only [RamHeader.bytes, List.length_append, le_length, digest_length, HEADER_SIZE]
  have after_base : (fullPayload sha256 ramBase ramSize body).drop 8 =
      le 8 ramSize ++ ((sha256 body).val ++ body) := by
    rw [layout, List.drop_left' (le_length 8 _)]
  refine ⟨?_, ?_, ?_, ?_⟩
  · rw [fullPayload, List.length_append, header_length]
    exact Nat.le_add_right _ _
  · rw [slice, after_base, List.take_left' (le_length 8 _)]
    exact toNat_le 8 _ word
  · rw [slice, show 16 = 8 + 8 from rfl, ← List.drop_drop, after_base, List.drop_left' (le_length 8 _),
      List.take_left' digest_length]
  · exact List.drop_left' header_length

theorem decode_fullPayload (word : ramSize < 2 ^ 64) (dest : Bytes) (room : ramSize ≤ dest.length) :
    decodeInto sha256 (fullPayload sha256 ramBase ramSize body) dest =
      applyExtents (ramReader ramSize) body (store dest 0 (zeros ramSize)) := by
  obtain ⟨long, size_eq, digest_eq, body_eq⟩ := fullPayload_fields sha256 ramBase ramSize body word
  unfold decodeInto decodeIntoMode
  rw [if_neg (Nat.not_lt.mpr long)]
  simp only [size_eq, digest_eq, body_eq]
  rw [if_neg (by simp), if_neg (by omega), if_pos trivial]

end Full

theorem fullExtents_returns (ram : Bytes) : ∃ fuel es, fullExtents fuel ram = some es ∧
    Within ram.length es ∧
    ∀ a, Covered es a ↔ a < ram.length ∧ isZero (pageAt ram (a / PAGE * PAGE)) = false := by
  have start : OnBlock PAGE ram.length 0 := ⟨Nat.zero_le _, .inl ⟨0, rfl⟩⟩
  have positive : 0 < PAGE := by decide
  have returns : ∃ es, runsFrom PAGE ram.length (fun i => !isZero (pageAt ram i)) (ram.length + 1) 0 =
    some es :=
    runsFrom_returns positive (ram.length + 1) 0 start (by omega)
  obtain ⟨es, collected⟩ := returns
  obtain ⟨within, covers⟩ := runsFrom_covered positive _ 0 es start collected
  refine ⟨_, es, collected, within, fun a => ?_⟩
  rw [covers a]
  simp

theorem replaced {xs ys dest : Bytes} (front : ∀ i, i < ys.length → xs[i]? = ys[i]?)
    (back : ∀ i, ys.length ≤ i → xs[i]? = dest[i]?) : xs = ys ++ dest.drop ys.length := by
  apply List.ext_getElem?
  intro i
  by_cases inside : i < ys.length
  · rw [front i inside, List.getElem?_append_left inside]
  · rw [back i (by omega), List.getElem?_append_right (by omega), List.getElem?_drop,
      Nat.add_sub_cancel' (by omega)]

theorem decode_encode (sha256 : Bytes → Digest) (ramBase : Nat) (ram : HostSlice)
    (encodable : Encodable ramBase ram.bytes) : ∃ fuel payload,
    encode sha256 fuel ramBase ram.bytes = some payload ∧
      ∀ dest, ram.bytes.length ≤ dest.length →
        decodeInto sha256 payload dest = .ok (ram.bytes ++ dest.drop ram.bytes.length) := by
  obtain ⟨fuel, es, collected, within, covers⟩ := fullExtents_returns ram.bytes
  refine ⟨fuel, fullPayload sha256 ramBase ram.bytes.length (encodeExtents ram.bytes es),
    by rw [encode, if_pos encodable, collected]; rfl, fun dest room => ?_⟩
  have zeroed_length : (store dest 0 (zeros ram.bytes.length)).length = dest.length := store_length ..
  rw [decode_fullPayload sha256 ramBase _ _ ram.word dest room,
    applyExtents_encode (ramReader ram.bytes.length) ram.bytes es _ within (Nat.le_refl _) ram.word
      (ramReader_accepts within)]
  have bytes := (overlay_spec store_writesInPlace ram.bytes es
    (store dest 0 (zeros ram.bytes.length)) within (Nat.le_refl _) (by omega)).2
  refine congrArg Except.ok (replaced ?_ ?_)
  · intro i inside
    refine (bytes i).trans ?_
    split
    · rfl
    · rename_i uncovered
      have zero : isZero (pageAt ram.bytes (i / PAGE * PAGE)) = true := by
        cases kept : isZero (pageAt ram.bytes (i / PAGE * PAGE)) with
        | true => rfl
        | false => exact absurd ((covers i).mpr ⟨inside, kept⟩) uncovered
      rw [zero_of_skipped inside zero, store_inside _ _ _ _ (by simpa using room) (Nat.zero_le _)
        (by simpa using inside)]
      simp [zeros, inside]
  · intro i outside
    refine (bytes i).trans ?_
    rw [if_neg (fun covered => by have := ((covers i).mp covered).1; omega),
      store_outside _ _ _ _ (.inr (by simpa using outside))]

/-- The marked pages of a delta that the encoder gets through: whole pages, or a last one that
is not marked. -/
def EveryPageEnds (ram : Bytes) (dirtyBits : List Word) : Prop :=
  TailClean PAGE ram.length (Bitmap.bitSet dirtyBits)

instance (ram : Bytes) (dirtyBits : List Word) : Decidable (EveryPageEnds ram dirtyBits) :=
  inferInstanceAs (Decidable (TailClean ..))

def Covering (parent : Bytes) (ram : Bytes) (dirtyBits : List Word) : Prop :=
  parent.length = ram.length ∧
    ∀ i, parent[i]? ≠ ram[i]? → Bitmap.bitSet dirtyBits (i / PAGE) = true

theorem decode_encodeDelta (sha256 : Bytes → Digest) (ramBase : Nat) {parent : Bytes} (ram : HostSlice)
    {dirtyBits : List Word} (encodable : Encodable ramBase ram.bytes)
    (covering : Covering parent ram.bytes dirtyBits) (ends : EveryPageEnds ram.bytes dirtyBits) :
    ∃ fuel payload, encodeDeltaAsserted sha256 fuel ramBase ram.bytes dirtyBits = some payload ∧
      ∀ rest, decodeDeltaInto sha256 payload (parent ++ rest) = .ok (ram.bytes ++ rest) := by
  obtain ⟨es, collected⟩ := extentsFrom_returns (by decide) ends
    (divCeil ram.bytes.length PAGE + 1) 0 (Nat.zero_le _) (by simp)
  obtain ⟨within, covers⟩ := extentsFrom_covered (by decide) ends _ 0 es (by simp) collected
  refine ⟨divCeil ram.bytes.length PAGE + 1,
    deltaPayload sha256 ramBase ram.bytes.length (encodeExtents ram.bytes es),
    by rw [encodeDeltaAsserted, if_pos encodable, encodeDelta, deltaExtents, collected]; rfl,
    fun rest => ?_⟩
  have room : ram.bytes.length ≤ (parent ++ rest).length := by
    rw [List.length_append, covering.1]
    exact Nat.le_add_right _ _
  rw [decode_deltaPayload sha256 ramBase _ _ ram.word _ room,
    applyExtents_encode (ramReader ram.bytes.length) ram.bytes es _ within (Nat.le_refl _) ram.word
      (ramReader_accepts within)]
  have bytes := (overlay_spec store_writesInPlace ram.bytes es (parent ++ rest) within (Nat.le_refl _)
    room).2
  have restored := @replaced (overlay store ram.bytes es (parent ++ rest)) ram.bytes
    (parent ++ rest) ?_ ?_
  · rw [← covering.1, List.drop_left] at restored
    exact congrArg Except.ok restored
  · intro i inside
    refine (bytes i).trans ?_
    split
    · rfl
    · rename_i uncovered
      rw [List.getElem?_append_left (by rw [covering.1]; exact inside)]
      by_contra differs
      exact uncovered ((covers i).mpr ⟨Nat.zero_le i, inside, covering.2 i differs⟩)
  · intro i outside
    refine (bytes i).trans ?_
    rw [if_neg (fun covered => by have := ((covers i).mp covered).2.1; omega)]

theorem encodeDelta_stuck (sha256 : Bytes → Digest) (fuel ramBase : Nat) {ram : Bytes}
    {dirtyBits : List Word} (cut : ¬ EveryPageEnds ram dirtyBits) :
    encodeDeltaAsserted sha256 fuel ramBase ram dirtyBits = none := by
  unfold encodeDeltaAsserted encodeDelta deltaExtents
  rw [extentsFrom_diverges (by decide) cut fuel 0 (Nat.zero_le _)]
  split <;> rfl

structure Later where
  ram : HostSlice
  dirtyBits : List Word

def Chained : Bytes → List Later → Prop
  | _, [] => True
  | parent, d :: later => Covering parent d.ram.bytes d.dirtyBits ∧ Chained d.ram.bytes later

def newest : Bytes → List Later → Bytes
  | ram, [] => ram
  | _, d :: later => newest d.ram.bytes later

section Chain

variable (sha256 : Bytes → Digest) (ramBase : Nat)

def Encoded (later : List Later) (payloads : List Bytes) : Prop :=
  List.Forall₂ (fun d payload =>
    ∃ fuel, encodeDeltaAsserted sha256 fuel ramBase d.ram.bytes d.dirtyBits = some payload) later
      payloads

def decodeDeltas (payloads : List Bytes) (dest : Bytes) : Except DecodeError Bytes :=
  payloads.foldlM (fun ram payload => decodeDeltaInto sha256 payload ram) dest

def DeltasInvert : Bytes → List Later → Prop
  | _, [] => True
  | parent, d :: later =>
    (∃ fuel payload, encodeDeltaAsserted sha256 fuel ramBase d.ram.bytes d.dirtyBits = some payload ∧
      ∀ rest, decodeDeltaInto sha256 payload (parent ++ rest) = .ok (d.ram.bytes ++ rest)) ∧
    DeltasInvert d.ram.bytes later

/-- The codec restores what it encoded: a full section over any destination, over a zeroed
one without zeroing it again, each delta over its parent, and the deltas one after another. -/
structure Inverts (ram : HostSlice) (later : List Later) : Prop where
  full : ∃ fuel payload, encode sha256 fuel ramBase ram.bytes = some payload ∧
    (∀ dest, ram.bytes.length ≤ dest.length →
      decodeInto sha256 payload dest = .ok (ram.bytes ++ dest.drop ram.bytes.length)) ∧
    ∀ size, decodeIntoZeroed sha256 payload (zeros size) = decodeInto sha256 payload (zeros size)
  deltas : DeltasInvert sha256 ramBase ram.bytes later
  composed : ∃ payloads, Encoded sha256 ramBase later payloads ∧
    ∀ rest, decodeDeltas sha256 payloads (ram.bytes ++ rest) = .ok (newest ram.bytes later ++ rest)

variable {sha256 ramBase}

theorem deltas_invert {later : List Later} {parent : Bytes} (encodable : Encodable ramBase parent)
    (chained : Chained parent later) (ends : ∀ d ∈ later, EveryPageEnds d.ram.bytes d.dirtyBits) :
    DeltasInvert sha256 ramBase parent later := by
  induction later generalizing parent with
  | nil => trivial
  | cons d later ih =>
    have encodable' : Encodable ramBase d.ram.bytes := ⟨chained.1.1 ▸ encodable.1, encodable.2⟩
    exact ⟨decode_encodeDelta sha256 ramBase d.ram encodable' chained.1 (ends d List.mem_cons_self),
      ih encodable' chained.2 fun e member => ends e (List.mem_cons_of_mem _ member)⟩

theorem deltas_compose {later : List Later} {parent : Bytes}
    (invert : DeltasInvert sha256 ramBase parent later) : ∃ payloads,
    Encoded sha256 ramBase later payloads ∧
      ∀ rest, decodeDeltas sha256 payloads (parent ++ rest) = .ok (newest parent later ++ rest) := by
  induction later generalizing parent with
  | nil => exact ⟨[], .nil, fun _ => rfl⟩
  | cons d later ih =>
    obtain ⟨⟨fuel, payload, encoded, decodes⟩, deltas⟩ := invert
    obtain ⟨payloads, more, composed⟩ := ih deltas
    refine ⟨payload :: payloads, .cons ⟨fuel, encoded⟩ more, fun rest => ?_⟩
    unfold decodeDeltas
    rw [List.foldlM_cons, decodes rest]
    exact composed rest

theorem everyPageEnds_of_invert {later : List Later} {parent : Bytes}
    (invert : DeltasInvert sha256 ramBase parent later) (d : Later) (member : d ∈ later) :
    EveryPageEnds d.ram.bytes d.dirtyBits := by
  induction later generalizing parent with
  | nil => cases member
  | cons e later ih =>
    rcases List.mem_cons.mp member with rfl | member
    · obtain ⟨fuel, payload, encoded, _⟩ := invert.1
      by_contra cut
      rw [encodeDelta_stuck sha256 fuel ramBase cut] at encoded
      cases encoded
    · exact ih invert.2 member

end Chain

/-- A chain of captures comes back whole exactly when the encoders' assertions hold of its RAM
and no marked page is cut short by the end of it. -/
theorem ram_codec_inverts_iff (sha256 : Bytes → Digest) (ramBase : Nat) (ram : HostSlice)
    (later : List Later) (chained : Chained ram.bytes later) :
    Inverts sha256 ramBase ram later ↔
      Encodable ramBase ram.bytes ∧ ∀ d ∈ later, EveryPageEnds d.ram.bytes d.dirtyBits := by
  constructor
  · intro inverts
    obtain ⟨fuel, payload, encoded, _⟩ := inverts.full
    refine ⟨?_, everyPageEnds_of_invert inverts.deltas⟩
    by_contra unencodable
    rw [encode, if_neg unencodable] at encoded
    cases encoded
  · rintro ⟨encodable, ends⟩
    obtain ⟨fuel, payload, encoded, decodes⟩ := decode_encode sha256 ramBase ram encodable
    have deltas := @deltas_invert sha256 ramBase later ram.bytes encodable chained ends
    exact ⟨⟨fuel, payload, encoded, decodes, fun size => (decodeInto_zeros sha256 payload size).symm⟩,
      deltas, deltas_compose deltas⟩

theorem whole_page_comes_back : Inverts (fun _ => emptyDigest) 0 ⟨zeros 4096, by simp⟩
    [⟨⟨1 :: zeros 4095, by simp⟩, [1#64]⟩] := by
  have chained : Chained (zeros 4096) [⟨⟨1 :: zeros 4095, by simp⟩, [1#64]⟩] := by
    refine ⟨⟨by simp, fun i differs => ?_⟩, trivial⟩
    have early : i < 4096 := by
      by_contra late
      exact differs (by
        rw [List.getElem?_eq_none (by simp; omega), List.getElem?_eq_none (by simp; omega)])
    rw [show i / PAGE = 0 from Nat.div_eq_of_lt early]
    decide
  refine (ram_codec_inverts_iff _ 0 _ _ chained).mpr ⟨⟨by simp, by decide⟩, fun d member => ?_⟩
  obtain rfl := List.mem_singleton.mp member
  exact .inl ⟨1, by simp [PAGE]⟩

/-- A page and a half of RAM; the first byte after the whole page has changed. -/
def changedTail : Later := ⟨⟨zeros 4096 ++ 1 :: zeros 2047, by simp⟩, [2#64]⟩

/-- The encoder of the delta never returns for a changed last page that is cut short. -/
theorem changedTail_never_encoded : Chained (zeros 6144) [changedTail] ∧
    (∀ fuel, encodeDeltaAsserted (fun _ => emptyDigest) fuel 0 changedTail.ram.bytes
      changedTail.dirtyBits = none) ∧
    ¬ Inverts (fun _ => emptyDigest) 0 ⟨zeros 6144, by simp⟩ [changedTail] := by
  have long : changedTail.ram.bytes.length = 6144 := by simp [changedTail]
  have cut : ¬ EveryPageEnds changedTail.ram.bytes changedTail.dirtyBits := by
    unfold EveryPageEnds
    rw [long]
    decide
  refine ⟨⟨⟨by simp [long], fun i differs => ?_⟩, trivial⟩, fun fuel => encodeDelta_stuck _ fuel 0 cut,
    fun inverts => cut (everyPageEnds_of_invert inverts.deltas changedTail List.mem_cons_self)⟩
  have in_tail : 4096 ≤ i ∧ i < 6144 := by
    by_contra elsewhere
    refine differs ?_
    by_cases late : 6144 ≤ i
    · rw [List.getElem?_eq_none (by simpa using late), List.getElem?_eq_none (by rw [long]; exact late)]
    · have early : i < 4096 := by omega
      simp only [changedTail, zeros]
      rw [List.getElem?_append_left (by rw [List.length_replicate]; exact early),
        List.getElem?_replicate, List.getElem?_replicate, if_pos (by omega), if_pos early]
  have second : i / PAGE = 1 := Nat.div_eq_of_lt_le (by rw [PAGE]; omega) (by rw [PAGE]; omega)
  rw [second]
  decide

end RamDump
end Machinen.Vmm
