import Machinen.Runtime.RootdiskApply
import Machinen.Vmm.Memory
import Machinen.Vmm.RamCodec

/-! What the delta readers write, store by store and in the arithmetic of their languages:
checked 64-bit words in the VMM, double-precision numbers in the runtime. A reader that gives
up has made the stores before its complaint. -/
namespace Machinen

open Bytes Extents

structure Written (ε : Type) where
  stores : List Vmm.Store
  complaint : Option ε

namespace Written

variable {ε : Type}

def stop (complaint : Option ε) : Written ε := ⟨[], complaint⟩

def after (stores : List Vmm.Store) (w : Written ε) : Written ε := ⟨stores ++ w.stores, w.complaint⟩

def Inside (w : Written ε) (declared room : Nat) : Prop :=
  ∀ s ∈ w.stores, s.off + s.data.length ≤ declared ∧ declared ≤ room

def result (w : Written ε) (write : Bytes → Nat → Bytes → Bytes) (dest : Bytes) : Except ε Bytes :=
  match w.complaint with
  | some complaint => .error complaint
  | none => .ok (w.stores.foldl (fun d s => write d s.off s.data) dest)

theorem inside_stop (complaint : Option ε) (declared room : Nat) :
    Inside (stop complaint) declared room := by
  intro s member
  cases member

theorem inside_after {stores : List Vmm.Store} {w : Written ε} {declared room : Nat}
    (first : ∀ s ∈ stores, s.off + s.data.length ≤ declared ∧ declared ≤ room)
    (rest : w.Inside declared room) : (after stores w).Inside declared room := by
  intro s member
  rcases List.mem_append.mp member with early | late
  · exact first s early
  · exact rest s late

theorem result_after (stores : List Vmm.Store) (w : Written ε) (write : Bytes → Nat → Bytes → Bytes)
    (dest : Bytes) : (after stores w).result write dest =
      w.result write (stores.foldl (fun d s => write d s.off s.data) dest) := by
  unfold result after
  simp only [List.foldl_append]

end Written

namespace Vmm.RamDump

/-- The extent loop of the decoders from the cursor on. A failed assertion or an overflow
is the outer `none`. -/
def decodeExtents (body : Bytes) (ramSize room c : Nat) : Option (Written DecodeError) :=
  if c < body.length then
    if body.length - c < 16 then some (.stop (some .truncated))
    else do
      let off := toNat (slice body c 8)
      let len := toNat (slice body (c + 8) 8)
      let _ ← u64 (c + 16)
      if body.length - (c + 16) < len then return .stop (some .truncated)
      if ramSize < off ∨ ramSize - off < len then return .stop (some .sizeMismatch)
      let stop ← u64 (off + len)
      guard (stop ≤ ramSize ∧ ramSize ≤ room)
      let _ ← u64 (c + 16 + len)
      let rest ← decodeExtents body ramSize room (c + 16 + len)
      return .after [⟨off, slice body (c + 16) len⟩] rest
  else do
    guard (c = body.length)
    return .stop none
termination_by body.length - c

def decodeIntoWrites (sha256 : Bytes → Digest) (zeroDestFirst : Bool) (payload : Bytes) (room : Nat) :
    Option (Written DecodeError) :=
  if payload.length < HEADER_SIZE then some (.stop (some .truncated))
  else
    let body := payload.drop HEADER_SIZE
    if (sha256 body).val ≠ slice payload 16 32 then some (.stop (some .hashMismatch))
    else
      let ramSize := toNat (slice payload 8 8)
      if room < ramSize then some (.stop (some .sizeMismatch))
      else (decodeExtents body ramSize room 0).map
        (.after (if zeroDestFirst then [⟨0, zeros ramSize⟩] else []))

def decodeDeltaWrites (sha256 : Bytes → Digest) (payload : Bytes) (room : Nat) :
    Option (Written DecodeError) :=
  if payload.length < DELTA_HEADER_SIZE then some (.stop (some .truncated))
  else if toNat (slice payload 16 4) ≠ PAGE then some (.stop (some .sizeMismatch))
  else
    let body := payload.drop DELTA_HEADER_SIZE
    if (sha256 body).val ≠ slice payload 24 32 then some (.stop (some .hashMismatch))
    else
      let ramSize := toNat (slice payload 8 8)
      if room < ramSize then some (.stop (some .sizeMismatch))
      else decodeExtents body ramSize room 0

theorem decodeExtents_spec {body : Bytes} {ramSize room : Nat} (usize : body.length < 2 ^ 64)
    (word : ramSize < 2 ^ 64) (fits : ramSize ≤ room) (c : Nat) (start : c ≤ body.length) :
    ∃ w, decodeExtents body ramSize room c = some w ∧ w.Inside ramSize room ∧
      ∀ dest, applyExtents (ramReader ramSize) (body.drop c) dest = w.result store dest := by
  induction left : body.length - c using Nat.strongRecOn generalizing c with
  | _ n ih =>
    rw [decodeExtents]
    split
    · rename_i more
      split
      · rename_i short
        exact ⟨_, rfl, Written.inside_stop _ _ _, applyExtents_short _ more short⟩
      · rename_i long
        have unfolded := @applyExtents_at _ (ramReader ramSize) body c (by omega)
        generalize toNat (slice body c 8) = off at unfolded ⊢
        generalize toNat (slice body (c + 8) 8) = len at unfolded ⊢
        have cursor : u64 (c + 16) = some (c + 16) := if_pos (by omega)
        simp only [cursor, Option.bind_eq_bind, Option.bind_some]
        split
        · rename_i cut
          have refused : (ramReader ramSize).check off len (body.length - (c + 16)) = some .truncated :=
            if_pos cut
          refine ⟨_, rfl, Written.inside_stop _ _ _, fun dest => ?_⟩
          rw [unfolded, refused]
          rfl
        · rename_i enough
          split
          · rename_i outside
            have refused : (ramReader ramSize).check off len (body.length - (c + 16)) =
                some .sizeMismatch := (if_neg enough).trans (if_pos outside)
            refine ⟨_, rfl, Written.inside_stop _ _ _, fun dest => ?_⟩
            rw [unfolded, refused]
            rfl
          · rename_i inside
            have stop : u64 (off + len) = some (off + len) := if_pos (by omega)
            have next : u64 (c + 16 + len) = some (c + 16 + len) := if_pos (by omega)
            have asserted : off + len ≤ ramSize ∧ ramSize ≤ room := by omega
            obtain ⟨rest, ran, rest_inside, applied⟩ := ih (body.length - (c + 16 + len)) (by omega)
              (c + 16 + len) (by omega) rfl
            refine ⟨.after [⟨off, slice body (c + 16) len⟩] rest, ?_, ?_, fun dest => ?_⟩
            · simp only [stop, next, Option.bind_some, ran, guard, if_pos asserted]
              rfl
            · refine Written.inside_after (fun s member => ?_) rest_inside
              obtain rfl := List.mem_singleton.mp member
              dsimp only
              rw [slice_length _ _ _ (by omega)]
              exact asserted
            · have accepted : (ramReader ramSize).check off len (body.length - (c + 16)) = none :=
                (if_neg enough).trans (if_neg inside)
              rw [unfolded, accepted, Written.result_after]
              exact applied _
    · rename_i finished
      have at_end : c = body.length := by omega
      refine ⟨.stop none, by simp [guard, at_end], Written.inside_stop _ _ _, fun dest => ?_⟩
      rw [at_end, List.drop_length, applyExtents_nil]
      rfl

def declaredSize (payload : Bytes) : Nat := toNat (slice payload 8 8)

theorem decodeInto_writes (sha256 : Bytes → Digest) (zeroDestFirst : Bool) (payload : HostSlice)
    (dest : Bytes) : ∃ w, decodeIntoWrites sha256 zeroDestFirst payload.bytes dest.length = some w ∧
      w.Inside (declaredSize payload.bytes) dest.length ∧
      decodeIntoMode sha256 zeroDestFirst payload.bytes dest = w.result store dest := by
  have usize : (payload.bytes.drop HEADER_SIZE).length < 2 ^ 64 := by
    have := payload.word
    rw [List.length_drop]
    omega
  unfold decodeIntoWrites decodeIntoMode declaredSize
  dsimp only
  split
  · exact ⟨_, rfl, Written.inside_stop _ _ _, rfl⟩
  · split
    · exact ⟨_, rfl, Written.inside_stop _ _ _, rfl⟩
    · split
      · exact ⟨_, rfl, Written.inside_stop _ _ _, rfl⟩
      · rename_i room
        obtain ⟨w, ran, inside, applied⟩ := @decodeExtents_spec _ _ dest.length usize
          (slice_lt payload.bytes 8 8) (by omega) 0 (Nat.zero_le _)
        rw [ran]
        refine ⟨_, rfl, Written.inside_after (fun s member => ?_) inside, ?_⟩
        · cases zeroDestFirst with
          | false => cases member
          | true =>
            obtain rfl := List.mem_singleton.mp member
            dsimp only
            rw [zeros_length]
            omega
        · rw [Written.result_after, ← applied, List.drop_zero]
          cases zeroDestFirst <;> rfl

theorem decodeDelta_writes (sha256 : Bytes → Digest) (payload : HostSlice) (dest : Bytes) :
    ∃ w, decodeDeltaWrites sha256 payload.bytes dest.length = some w ∧
      w.Inside (declaredSize payload.bytes) dest.length ∧
      decodeDeltaInto sha256 payload.bytes dest = w.result store dest := by
  have usize : (payload.bytes.drop DELTA_HEADER_SIZE).length < 2 ^ 64 := by
    have := payload.word
    rw [List.length_drop]
    omega
  unfold decodeDeltaWrites decodeDeltaInto declaredSize
  dsimp only
  split
  · exact ⟨_, rfl, Written.inside_stop _ _ _, rfl⟩
  · split
    · exact ⟨_, rfl, Written.inside_stop _ _ _, rfl⟩
    · split
      · exact ⟨_, rfl, Written.inside_stop _ _ _, rfl⟩
      · split
        · exact ⟨_, rfl, Written.inside_stop _ _ _, rfl⟩
        · rename_i room
          obtain ⟨w, ran, inside, applied⟩ := @decodeExtents_spec _ _ dest.length usize
            (slice_lt payload.bytes 8 8) (by omega) 0 (Nat.zero_le _)
          exact ⟨w, ran, inside, by rw [← applied, List.drop_zero]⟩

end Vmm.RamDump

namespace Runtime

open Vmm

/-- `Number` of a 64-bit integer: the nearest double, halves to the even one. -/
def toNumber (n : Nat) : Nat :=
  if n < 2 ^ 53 then n
  else
    let unit := 2 ^ (Nat.log2 n - 52)
    let below := n / unit
    let up := unit < 2 * (n % unit) ∨ unit = 2 * (n % unit) ∧ below % 2 = 1
    (if up then below + 1 else below) * unit

theorem toNumber_eq {n : Nat} (small : n < 2 ^ 53) : toNumber n = n := if_pos small

theorem isSafeInteger_toNumber (n : Nat) : isSafeInteger (toNumber n) = isSafeInteger n := by
  by_cases small : n < 2 ^ 53
  · rw [toNumber_eq small]
  · have large : ¬ toNumber n < 2 ^ 53 := by
      have nonzero : n ≠ 0 := by omega
      have exponent : 53 ≤ Nat.log2 n := (Nat.le_log2 nonzero).mpr (by omega)
      have power : 2 ^ 52 * 2 ^ (Nat.log2 n - 52) = 2 ^ Nat.log2 n := by
        rw [← Nat.pow_add]
        congr 1
        omega
      have floor : 2 ^ 52 ≤ n / 2 ^ (Nat.log2 n - 52) := by
        rw [Nat.le_div_iff_mul_le (Nat.two_pow_pos _), power]
        exact Nat.log2_self_le nonzero
      have kept : 2 ^ 53 ≤ 2 ^ Nat.log2 n := Nat.pow_le_pow_right (by decide) exponent
      unfold toNumber
      rw [if_neg small]
      dsimp only
      refine Nat.not_lt.mpr (Nat.le_trans kept ?_)
      rw [← power]
      refine Nat.mul_le_mul_right _ ?_
      split <;> omega
    unfold isSafeInteger
    rw [decide_eq_false large, decide_eq_false small]

inductive ApplyError where
  | boot (e : BootError)
  | shortWrite
  deriving DecidableEq, Repr

/-- `host` answers the calls of `writeSync`, counted from the first one on, with the number of
bytes it took. -/
def writeAllAt (host : Nat → Nat) (calls position : Nat) (bytes : Bytes) : Written ApplyError :=
  if bytes = [] then .stop none
  else
    let n := min (host calls) bytes.length
    if n = 0 then .stop (some .shortWrite)
    else .after [⟨position, bytes.take n⟩] (writeAllAt host (calls + 1) (position + n) (bytes.drop n))
termination_by bytes.length
decreasing_by
  rename_i some_left took
  have := List.length_pos_iff.mpr some_left
  simp only [List.length_drop]
  omega

/-- The validity test of an extent as the runtime computes it, with differences of numbers. -/
def extentIsValid (diskSize bodyLength extentOff len dataOff : Nat) : Bool :=
  isSafeInteger extentOff && isSafeInteger len && decide ((len : Int) ≤ diskSize - extentOff) &&
    decide ((len : Int) ≤ bodyLength - dataOff)

def applyRootdiskDeltaExtents (host : Nat → Nat) (body : Bytes) (diskSize calls off : Nat) :
    Written ApplyError :=
  if off < body.length then
    if body.length - off < 16 then
      .stop (some (.boot (unsupported "restore: truncated rootdisk delta extent")))
    else
      let extentOff := toNumber (toNat (slice body off 8))
      let len := toNumber (toNat (slice body (off + 8) 8))
      let dataOff := off + 16
      if extentIsValid diskSize body.length extentOff len dataOff then
        let wrote := writeAllAt host calls extentOff (slice body dataOff len)
        match wrote.complaint with
        | some _ => wrote
        | none => .after wrote.stores
            (applyRootdiskDeltaExtents host body diskSize (calls + wrote.stores.length) (dataOff + len))
      else .stop (some (.boot (unsupported "restore: invalid rootdisk delta extent")))
  else .stop none
termination_by body.length - off

def rootdiskWrites (sha256 : Bytes → Digest) (host : Nat → Nat) (payload : Bytes) (dest : Bytes) :
    Written ApplyError :=
  match parseRootdiskDeltaPayload sha256 dest payload with
  | .error e => .stop (some (.boot e))
  | .ok delta => applyRootdiskDeltaExtents host delta.body delta.diskSize 0 0

/-- The stores of one extent lie in its range; together they are the whole write. -/
structure WritesAll (position : Nat) (bytes : Bytes) (w : Written ApplyError) : Prop where
  inside : ∀ s ∈ w.stores, s.off + s.data.length ≤ position + bytes.length
  complaint : w.complaint = none ∨ w.complaint = some .shortWrite
  whole : w.complaint = none → ∀ dest, position + bytes.length ≤ dest.length →
    w.stores.foldl (fun d s => pwrite d s.off s.data) dest = store dest position bytes

theorem writeAllAt_spec (host : Nat → Nat) (calls position : Nat) (bytes : Bytes) :
    WritesAll position bytes (writeAllAt host calls position bytes) := by
  induction left : bytes.length using Nat.strongRecOn generalizing calls position bytes with
  | _ n ih =>
    rw [writeAllAt]
    split
    · rename_i empty
      exact ⟨nofun, .inl rfl, fun _ dest _ => by rw [empty, store_empty]; rfl⟩
    · rename_i some_left
      have positive := List.length_pos_iff.mpr some_left
      dsimp only
      generalize taken : min (host calls) bytes.length = k
      have taken_le : k ≤ bytes.length := taken ▸ Nat.min_le_right _ _
      split
      · exact ⟨nofun, .inr rfl, nofun⟩
      · rename_i progress
        have take_length : (bytes.take k).length = k := List.length_take_of_le taken_le
        have drop_length : (bytes.drop k).length = bytes.length - k := List.length_drop
        have rest := ih (bytes.drop k).length (by omega) (calls + 1) (position + k) (bytes.drop k) rfl
        refine ⟨?_, rest.complaint, fun finished dest fits => ?_⟩
        · intro s member
          rcases List.mem_cons.mp member with rfl | later
          · dsimp only
            omega
          · have := rest.inside s later
            omega
        · have here : pwrite dest position (bytes.take k) = store dest position (bytes.take k) :=
            pwrite_eq_store _ _ _ (by omega)
          have joined := store_store dest position (bytes.take k) (bytes.drop k)
          rw [take_length, List.take_append_drop] at joined
          unfold Written.after
          rw [List.singleton_append, List.foldl_cons, here,
            rest.whole finished _ (by rw [store_length]; omega), joined]

theorem extentIsValid_toNumber (diskSize bodyLength extentOff len dataOff : Nat)
    (inside : dataOff ≤ bodyLength) :
    extentIsValid diskSize bodyLength (toNumber extentOff) (toNumber len) dataOff =
      rootdiskDeltaExtentIsValid diskSize extentOff len (bodyLength - dataOff) := by
  unfold extentIsValid rootdiskDeltaExtentIsValid
  rw [isSafeInteger_toNumber, isSafeInteger_toNumber]
  by_cases safe : extentOff < 2 ^ 53 ∧ len < 2 ^ 53
  · rw [toNumber_eq safe.1, toNumber_eq safe.2]
    have in_disk : (len : Int) ≤ diskSize - extentOff ↔ extentOff + len ≤ diskSize := by omega
    have in_body : (len : Int) ≤ bodyLength - dataOff ↔ len ≤ bodyLength - dataOff := by omega
    rw [decide_eq_decide.mpr in_disk, decide_eq_decide.mpr in_body]
  · have unsafe_word : (isSafeInteger extentOff && isSafeInteger len) = false := by
      rw [← Bool.not_eq_true, Bool.and_eq_true, isSafeInteger_iff, isSafeInteger_iff]
      exact safe
    rw [unsafe_word]
    rfl

theorem applyRootdiskDeltaExtents_spec (host : Nat → Nat) {body : Bytes} {diskSize : Nat}
    (calls off : Nat) (start : off ≤ body.length) :
    (applyRootdiskDeltaExtents host body diskSize calls off).Inside diskSize diskSize ∧
      ((applyRootdiskDeltaExtents host body diskSize calls off).complaint ≠ some .shortWrite →
        ∀ dest, dest.length = diskSize →
          (applyExtents (rootdiskReader diskSize) (body.drop off) dest).mapError .boot =
            (applyRootdiskDeltaExtents host body diskSize calls off).result pwrite dest) := by
  induction left : body.length - off using Nat.strongRecOn generalizing calls off with
  | _ n ih =>
    rw [applyRootdiskDeltaExtents]
    split
    · rename_i more
      split
      · rename_i short
        refine ⟨Written.inside_stop _ _ _, fun _ dest _ => ?_⟩
        rw [applyExtents_short _ more short]
        rfl
      · rename_i long
        have unfolded := @applyExtents_at _ (rootdiskReader diskSize) body off (by omega)
        generalize toNat (slice body off 8) = extentOff at unfolded ⊢
        generalize toNat (slice body (off + 8) 8) = len at unfolded ⊢
        dsimp only
        rw [extentIsValid_toNumber _ _ _ _ _ (by omega)]
        split
        · rename_i valid
          have accepted : (rootdiskReader diskSize).check extentOff len (body.length - (off + 16)) =
              none := if_pos valid
          simp only [rootdiskDeltaExtentIsValid, Bool.and_eq_true, decide_eq_true_eq,
            isSafeInteger_iff] at valid
          obtain ⟨⟨⟨safe_off, safe_len⟩, in_disk⟩, in_body⟩ := valid
          rw [toNumber_eq safe_off, toNumber_eq safe_len]
          have data_length : (slice body (off + 16) len).length = len :=
            slice_length _ _ _ (by omega)
          obtain ⟨inside, complaint, whole⟩ := writeAllAt_spec host calls extentOff
            (slice body (off + 16) len)
          generalize writeAllAt host calls extentOff (slice body (off + 16) len) = wrote at *
          have wrote_inside : wrote.Inside diskSize diskSize := fun s member => by
            have := inside s member
            omega
          rcases complaint with finished | cut
          · rw [finished]
            obtain ⟨rest_inside, applied⟩ := ih (body.length - (off + 16 + len)) (by omega)
              (calls + wrote.stores.length) (off + 16 + len) (by omega) rfl
            refine ⟨Written.inside_after wrote_inside rest_inside, fun uncut dest full => ?_⟩
            dsimp only
            rw [unfolded, accepted, Written.result_after, whole finished dest (by omega)]
            have written : (rootdiskReader diskSize).write dest extentOff (slice body (off + 16) len) =
                store dest extentOff (slice body (off + 16) len) := pwrite_eq_store _ _ _ (by omega)
            dsimp only
            rw [written]
            exact applied uncut _ (by rw [store_length, full])
          · rw [cut]
            exact ⟨wrote_inside, fun uncut => absurd cut uncut⟩
        · rename_i invalid
          refine ⟨Written.inside_stop _ _ _, fun _ dest _ => ?_⟩
          have refused : (rootdiskReader diskSize).check extentOff len (body.length - (off + 16)) =
              some (unsupported "restore: invalid rootdisk delta extent") := if_neg invalid
          rw [unfolded, refused]
          rfl
    · rename_i finished
      refine ⟨Written.inside_stop _ _ _, fun _ dest _ => ?_⟩
      rw [List.drop_of_length_le (by omega), applyExtents_nil]
      rfl

theorem parse_size {sha256 : Bytes → Digest} {dest payload : Bytes} {delta : RootdiskDeltaPayload}
    (parsed : parseRootdiskDeltaPayload sha256 dest payload = .ok delta) :
    delta.diskSize = dest.length := by
  simp only [parseRootdiskDeltaPayload, bind, Except.bind, pure, Except.pure] at parsed
  split at parsed
  · cases parsed
  · split at parsed
    · cases parsed
    · split at parsed
      · cases parsed
      · rename_i diskSize _ _ _ _
        unfold assertRootdiskDeltaSizeMatches at parsed
        by_cases same : dest.length = diskSize
        · rw [if_pos same] at parsed
          split at parsed
          · cases parsed
          · split at parsed
            · cases parsed
            · cases parsed
              exact same.symm
        · rw [if_neg same] at parsed
          cases parsed

theorem rootdiskWrites_spec (sha256 : Bytes → Digest) (host : Nat → Nat) (payload dest : Bytes) :
    (rootdiskWrites sha256 host payload dest).Inside dest.length dest.length ∧
      ((rootdiskWrites sha256 host payload dest).complaint ≠ some .shortWrite →
        (applyRootdiskDelta sha256 dest payload).mapError .boot =
          (rootdiskWrites sha256 host payload dest).result pwrite dest) := by
  unfold rootdiskWrites applyRootdiskDelta
  cases parsed : parseRootdiskDeltaPayload sha256 dest payload with
  | error e => exact ⟨Written.inside_stop _ _ _, fun _ => rfl⟩
  | ok delta =>
    have size := parse_size parsed
    obtain ⟨inside, applied⟩ := @applyRootdiskDeltaExtents_spec host delta.body
      delta.diskSize 0 0 (Nat.zero_le _)
    refine ⟨size ▸ inside, fun uncut => ?_⟩
    have outcome := applied uncut dest size.symm
    rw [List.drop_zero] at outcome
    exact outcome

/-- Every store of the three decoders lies inside the declared size, and that inside the
destination, for every payload: also of a decoder that gives up on the way, and whatever part
of each write the host's file system takes. No assertion fails and no word overflows. -/
theorem delta_decoders_confined (sha256 : Bytes → Digest) (payload : HostSlice) (dest : Bytes)
    (host : Nat → Nat) :
    (∀ zeroDestFirst, ∃ w,
      RamDump.decodeIntoWrites sha256 zeroDestFirst payload.bytes dest.length = some w ∧
        w.Inside (RamDump.declaredSize payload.bytes) dest.length ∧
        RamDump.decodeIntoMode sha256 zeroDestFirst payload.bytes dest = w.result store dest) ∧
    (∃ w, RamDump.decodeDeltaWrites sha256 payload.bytes dest.length = some w ∧
      w.Inside (RamDump.declaredSize payload.bytes) dest.length ∧
      RamDump.decodeDeltaInto sha256 payload.bytes dest = w.result store dest) ∧
    (rootdiskWrites sha256 host payload.bytes dest).Inside dest.length dest.length ∧
    ((rootdiskWrites sha256 host payload.bytes dest).complaint ≠ some .shortWrite →
      (applyRootdiskDelta sha256 dest payload.bytes).mapError .boot =
        (rootdiskWrites sha256 host payload.bytes dest).result pwrite dest) :=
  ⟨fun zeroDestFirst => RamDump.decodeInto_writes sha256 zeroDestFirst payload dest,
    RamDump.decodeDelta_writes sha256 payload dest,
    rootdiskWrites_spec sha256 host payload.bytes dest⟩

end Runtime
end Machinen
