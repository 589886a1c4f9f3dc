import Machinen.Lib.Framing
import Machinen.Vmm.VcpuDump

/-! The reader of a vCPU payload: it takes the counted records and leaves what stands behind them
unread. -/
namespace Machinen.Snapshot

open Bytes Framing SectionStream

inductive VcpuParseError where
  | truncated | outOfMemory
deriving DecidableEq, Repr

/-- One iteration of the loop of `decode_vcpu_payload`. -/
def readVcpuEntry : Reader VcpuParseError VcpuEntry := fun payload off =>
  if ¬ off ≤ payload.length then none
  else if off + 1 > payload.length then some (.error .truncated)
  else do
    let nameLen := (← payload[off]?).toNat
    let off := off + 1
    if off + nameLen + 4 > payload.length then some (.error .truncated)
    else do
      let name ← part payload off (off + nameLen)
      let off := off + nameLen
      let valueLen := toNat (← part payload off (off + 4))
      let off := off + 4
      if off + valueLen > payload.length then some (.error .truncated)
      else do
        let value ← part payload off (off + valueLen)
        some (.ok (⟨name, value⟩, off + valueLen))

/-- `alloc` tells whether the allocator has room for a number of entries. No result is a failed
assertion or a read out of bounds. -/
def decodeVcpuPayload (alloc : Nat → Bool) (payload : Bytes) :
    Option (Except VcpuParseError (List VcpuEntry)) :=
  if payload.length < 4 then some (.error .truncated)
  else do
    let n := toNat (← part payload 0 4)
    if ¬ alloc n then some (.error .outOfMemory)
    else andThen (many readVcpuEntry n payload 4) fun (entries, off) =>
      if off ≤ payload.length then some (.ok entries) else none

def VcpuEntry.Fits (e : VcpuEntry) : Prop := e.name.length ≤ 255 ∧ e.value.length < 2 ^ 32

theorem readVcpuEntry_at (front rest : Bytes) :
    readVcpuEntry (front ++ rest) front.length =
      match rest with
      | [] => some (.error .truncated)
      | n :: tail =>
        if tail.length < n.toNat + 4 then some (.error .truncated)
        else if tail.length < n.toNat + 4 + toNat (slice tail n.toNat 4) then some (.error .truncated)
        else some (.ok (⟨slice tail 0 n.toNat, slice tail (n.toNat + 4) (toNat (slice tail n.toNat 4))⟩,
          front.length + 1 + (n.toNat + 4 + toNat (slice tail n.toNat 4)))) := by
  unfold readVcpuEntry
  cases rest with
  | nil => simp
  | cons n tail =>
    have split : front ++ n :: tail = (front ++ [n]) ++ tail := by simp
    have start : front.length + 1 = (front ++ [n]).length := by simp
    have byte : (front ++ n :: tail)[front.length]? = some n := by simp
    have total : (front ++ n :: tail).length = front.length + 1 + tail.length := by
      simp only [List.length_append, List.length_cons]
      omega
    rw [if_neg (by omega), if_neg (by omega), byte]
    simp only [Option.bind_eq_bind, Option.bind_some]
    by_cases short : tail.length < n.toNat + 4
    · rw [if_pos (by omega), if_pos short]
    · have name : part (front ++ n :: tail) (front.length + 1) (front.length + 1 + n.toNat) =
          some (slice tail 0 n.toNat) := by
        rw [split, start]
        exact (part_shift _ tail 0 n.toNat).trans (part_some ⟨Nat.zero_le _, by omega⟩)
      have size : part (front ++ n :: tail) (front.length + 1 + n.toNat)
          (front.length + 1 + n.toNat + 4) = some (slice tail n.toNat 4) := by
        rw [split, start, Nat.add_assoc, part_shift, part_some ⟨by omega, by omega⟩,
          Nat.add_sub_cancel_left]
      rw [if_neg (by omega), if_neg short, name]
      simp only [Option.bind_some]
      rw [size]
      simp only [Option.bind_some]
      by_cases cut : tail.length < n.toNat + 4 + toNat (slice tail n.toNat 4)
      · rw [if_pos (by omega), if_pos cut]
      · have value : part (front ++ n :: tail) (front.length + 1 + n.toNat + 4)
            (front.length + 1 + n.toNat + 4 + toNat (slice tail n.toNat 4)) =
            some (slice tail (n.toNat + 4) (toNat (slice tail n.toNat 4))) := by
          rw [split, start, Nat.add_assoc, Nat.add_assoc, part_shift, part_some ⟨by omega, by omega⟩,
            Nat.add_sub_cancel_left]
        rw [if_neg (by omega), if_neg cut, value]
        simp only [Option.bind_some, Option.some.injEq, Except.ok.injEq, Prod.mk.injEq, true_and]
        omega

theorem entry_bytes_eq {tail : Bytes} {n : UInt8}
    (whole : n.toNat + 4 + toNat (slice tail n.toNat 4) ≤ tail.length) :
    n :: tail = VcpuEntry.bytes ⟨slice tail 0 n.toNat,
        slice tail (n.toNat + 4) (toNat (slice tail n.toNat 4))⟩ ++
      tail.drop (n.toNat + 4 + toNat (slice tail n.toNat 4)) := by
  have nameLength := slice_length tail 0 n.toNat (by omega)
  have sizeLength := slice_length tail n.toNat 4 (by omega)
  have valueLength := slice_length tail (n.toNat + 4) (toNat (slice tail n.toNat 4)) whole
  have first : le 1 n.toNat = [n] := by simp [le]
  have second : le 4 (toNat (slice tail n.toNat 4)) = slice tail n.toNat 4 := by
    have back := le_toNat (slice tail n.toNat 4)
    rwa [sizeLength] at back
  have cut := drop_eq_slice_append tail
  have whole : tail = slice tail 0 n.toNat ++ (slice tail n.toNat 4 ++
      (slice tail (n.toNat + 4) (toNat (slice tail n.toNat 4)) ++
        tail.drop (n.toNat + 4 + toNat (slice tail n.toNat 4)))) := by
    conv_lhs => rw [← List.drop_zero (l := tail), cut 0 n.toNat, Nat.zero_add, cut n.toNat 4,
      cut (n.toNat + 4) (toNat (slice tail n.toNat 4))]
  unfold VcpuEntry.bytes
  rw [nameLength, valueLength, first, second]
  simpa using whole

theorem readVcpuEntry_exact : Exact readVcpuEntry VcpuEntry.Fits id VcpuEntry.bytes where
  total front rest := by
    rw [readVcpuEntry_at]
    repeat' split
    all_goals exact ⟨_, rfl⟩
  sound front rest a stop done := by
    rw [readVcpuEntry_at] at done
    cases rest with
    | nil => cases done
    | cons n tail =>
      simp only at done
      split at done
      · cases done
      split at done
      · cases done
      rename_i room fits
      cases done
      have whole := entry_bytes_eq (Nat.not_lt.mp fits)
      have name := slice_length tail 0 n.toNat (by omega)
      have value := slice_length tail (n.toNat + 4) (toNat (slice tail n.toNat 4)) (by omega)
      have small := slice_lt tail n.toNat 4
      refine ⟨_, _, ⟨?_, ?_⟩, rfl, whole, ?_⟩
      · have byte := n.toNat_lt
        simp only [name]
        omega
      · simp only [value]
        omega
      · simp only [VcpuEntry.bytes, List.length_append, le_length, name, value]
        omega
  complete e front more fits := by
    have byte : (UInt8.ofNat e.name.length).toNat = e.name.length :=
      UInt8.toNat_ofNat_of_lt' (Nat.lt_succ_of_le fits.1)
    have size : toNat (le 4 e.value.length) = e.value.length := toNat_le 4 _ fits.2
    have first : le 1 e.name.length = [UInt8.ofNat e.name.length] := by simp [le]
    have named : slice (e.name ++ (le 4 e.value.length ++ (e.value ++ more))) 0 e.name.length = e.name :=
      Bytes.slice_append [] e.name _
    have sized : slice (e.name ++ (le 4 e.value.length ++ (e.value ++ more))) e.name.length 4 =
        le 4 e.value.length := by
      have part := Bytes.slice_append e.name (le 4 e.value.length) (e.value ++ more)
      rwa [le_length] at part
    have valued : slice (e.name ++ (le 4 e.value.length ++ (e.value ++ more))) (e.name.length + 4)
        e.value.length = e.value := by
      have part := Bytes.slice_append (e.name ++ le 4 e.value.length) e.value more
      rwa [List.length_append, le_length, List.append_assoc] at part
    rw [readVcpuEntry_at]
    simp only [VcpuEntry.bytes, first, List.cons_append, List.nil_append, List.append_assoc, byte, sized,
      size, named, valued, id_eq]
    rw [if_neg (by simp only [List.length_append, le_length]; omega),
      if_neg (by simp only [List.length_append, le_length]; omega)]
    simp only [Option.some.injEq, Except.ok.injEq, Prod.mk.injEq, true_and, List.length_append,
      List.length_cons, le_length]
    omega

theorem encodeVcpuPayload_some {entries : List VcpuEntry} {payload : Bytes} :
    encodeVcpuPayload entries = some payload ↔ (entries.length < 2 ^ 32 ∧ ∀ e ∈ entries, e.Fits) ∧
      payload = le 4 entries.length ++ encodeEntries entries := by
  unfold encodeVcpuPayload
  constructor
  · intro encoded
    split at encoded
    · rename_i fits
      exact ⟨fits, (Option.some.inj encoded).symm⟩
    · cases encoded
  · rintro ⟨fits, rfl⟩
    exact if_pos fits

theorem slice_front {payload : Bytes} (long : 4 ≤ payload.length) :
    payload = le 4 (toNat (slice payload 0 4)) ++ payload.drop 4 := by
  have size := slice_length payload 0 4 long
  have back := le_toNat (slice payload 0 4)
  have cut := drop_eq_slice_append payload 0 4
  rw [size] at back
  simpa [back] using cut

theorem decodeVcpuPayload_total (alloc : Nat → Bool) (payload : Bytes) :
    ∃ result, decodeVcpuPayload alloc payload = some result := by
  unfold decodeVcpuPayload
  split
  · exact ⟨_, rfl⟩
  rename_i long
  rw [part_some ⟨Nat.zero_le 4, Nat.not_lt.mp long⟩]
  simp only [Option.bind_eq_bind, Option.bind_some]
  split
  · exact ⟨_, rfl⟩
  have exact_ := readVcpuEntry_exact.many (toNat (slice payload 0 (4 - 0)))
  have start : (payload.take 4).length = 4 := List.length_take_of_le (Nat.not_lt.mp long)
  have total := exact_.total (payload.take 4) (payload.drop 4)
  rw [List.take_append_drop, start] at total
  refine andThen_total total ?_
  rintro ⟨entries, off⟩ done
  exact ⟨_, if_pos (exact_.stops (Nat.not_lt.mp long) done).2⟩

theorem decodeVcpuPayload_encoded (alloc : Nat → Bool) {entries : List VcpuEntry} {whole : Bytes}
    (encoded : encodeVcpuPayload entries = some whole) (more : Bytes) :
    decodeVcpuPayload alloc (whole ++ more) =
      some (if alloc entries.length then .ok entries else .error .outOfMemory) := by
  obtain ⟨⟨few, fits⟩, rfl⟩ := encodeVcpuPayload_some.mp encoded
  have long : ¬ (le 4 entries.length ++ encodeEntries entries ++ more).length < 4 := by
    simp only [List.length_append, le_length]
    omega
  have count : part (le 4 entries.length ++ encodeEntries entries ++ more) 0 4 =
      some (le 4 entries.length) := by
    rw [part_some ⟨Nat.zero_le 4, Nat.not_lt.mp long⟩, List.append_assoc]
    have first := Bytes.slice_append [] (le 4 entries.length) (encodeEntries entries ++ more)
    rw [le_length] at first
    exact congrArg some first
  have records := (readVcpuEntry_exact.many entries.length).complete entries (le 4 entries.length) more
    ⟨rfl, fits⟩
  rw [le_length, List.map_id, ← List.append_assoc] at records
  unfold decodeVcpuPayload
  rw [if_neg long, count]
  simp only [Option.bind_eq_bind, Option.bind_some, toNat_le 4 _ few]
  cases room : alloc entries.length with
  | false => simp
  | true =>
    simp only [not_true_eq_false, if_false, if_true]
    unfold encodeEntries
    rw [records, andThen_ok]
    exact if_pos (by simp only [List.length_append]; omega)

theorem decodeVcpuPayload_accepted {alloc : Nat → Bool} {payload : Bytes} {entries : List VcpuEntry}
    (accepted : decodeVcpuPayload alloc payload = some (.ok entries)) :
    alloc entries.length = true ∧
      ∃ whole more, encodeVcpuPayload entries = some whole ∧ payload = whole ++ more := by
  unfold decodeVcpuPayload at accepted
  split at accepted
  · cases accepted
  rename_i long
  have room := Nat.not_lt.mp long
  rw [part_some ⟨Nat.zero_le 4, room⟩] at accepted
  simp only [Option.bind_eq_bind, Option.bind_some] at accepted
  split at accepted
  · cases accepted
  rename_i granted
  obtain ⟨⟨read, off⟩, records, done⟩ := of_andThen accepted
  simp only at done
  split at done
  · cases done
    have start : (payload.take 4).length = 4 := List.length_take_of_le room
    have exact_ := readVcpuEntry_exact.many (toNat (slice payload 0 (4 - 0)))
    have sound := exact_.sound (payload.take 4) (payload.drop 4) entries off
    rw [List.take_append_drop, start] at sound
    obtain ⟨frames, more, ⟨counted, fits⟩, same, rest, -⟩ := sound records
    rw [List.map_id] at same
    subst same
    have small := slice_lt payload 0 4
    refine ⟨?_, _, more, encodeVcpuPayload_some.mpr ⟨⟨?_, fits⟩, rfl⟩, ?_⟩
    · rw [counted]
      simpa using granted
    · rw [counted]
      exact small
    · rw [counted, encodeEntries, List.append_assoc, ← rest]
      exact slice_front room
  · cases done

def CountsMatch (payload : Bytes) : Prop := ∃ entries, encodeVcpuPayload entries = some payload

def HasTrailing (alloc : Nat → Bool) (payload : Bytes) : Prop :=
  ∃ entries whole more, encodeVcpuPayload entries = some whole ∧ more ≠ [] ∧ payload = whole ++ more ∧
    alloc entries.length = true

theorem countsMatch_unique {entries others : List VcpuEntry} {whole more : Bytes}
    (encoded : encodeVcpuPayload entries = some whole)
    (longer : encodeVcpuPayload others = some (whole ++ more)) : more = [] := by
  have first := decodeVcpuPayload_encoded (fun _ => true) encoded more
  have second := decodeVcpuPayload_encoded (fun _ => true) longer []
  rw [List.append_nil, first] at second
  simp only [if_true, Option.some.injEq, Except.ok.injEq] at second
  subst second
  rw [encoded] at longer
  simpa using longer

/-- Records come back in order, a payload that ends too early is refused, and no count leads out of
bounds; a payload whose counts do not match its length is refused unless bytes stand behind its
records. -/
theorem vcpu_payload_codec_iff (alloc : Nat → Bool) (payload : Bytes) :
    ((∀ entries, encodeVcpuPayload entries = some payload →
        decodeVcpuPayload alloc payload =
          some (if alloc entries.length then .ok entries else .error .outOfMemory)) ∧
      (∀ entries whole, encodeVcpuPayload entries = some whole → payload <+: whole → payload ≠ whole →
        ∃ e, decodeVcpuPayload alloc payload = some (.error e)) ∧
      (¬ CountsMatch payload → ∃ e, decodeVcpuPayload alloc payload = some (.error e)) ∧
      ∃ result, decodeVcpuPayload alloc payload = some result) ↔ ¬ HasTrailing alloc payload := by
  constructor
  · rintro ⟨-, -, refuses, -⟩ ⟨entries, whole, more, encoded, some_, rfl, room⟩
    have accepted := decodeVcpuPayload_encoded alloc encoded more
    rw [room] at accepted
    have mismatch : ¬ CountsMatch (whole ++ more) := fun ⟨others, longer⟩ =>
      some_ (countsMatch_unique encoded longer)
    obtain ⟨e, refused⟩ := refuses mismatch
    rw [accepted] at refused
    exact nomatch refused
  · intro exact_
    have refuses : ¬ CountsMatch payload → ∃ e, decodeVcpuPayload alloc payload = some (.error e) := by
      intro mismatch
      obtain ⟨result, done⟩ := decodeVcpuPayload_total alloc payload
      cases result with
      | error e => exact ⟨e, done⟩
      | ok entries =>
        obtain ⟨room, whole, more, encoded, rfl⟩ := decodeVcpuPayload_accepted done
        cases more with
        | nil => exact absurd ⟨entries, by rwa [List.append_nil]⟩ mismatch
        | cons b more => exact absurd ⟨entries, whole, _, encoded, List.cons_ne_nil b more, rfl, room⟩ exact_
    refine ⟨?_, ?_, refuses, decodeVcpuPayload_total alloc payload⟩
    · intro entries encoded
      simpa using decodeVcpuPayload_encoded alloc encoded []
    · rintro entries whole encoded ⟨more, rfl⟩ strict
      refine refuses fun ⟨others, shorter⟩ => strict ?_
      rw [countsMatch_unique shorter encoded, List.append_nil]

/-- No record is announced, and one byte follows. -/
theorem trailing_byte_accepted : ¬ CountsMatch [0, 0, 0, 0, 7] ∧
    decodeVcpuPayload (fun _ => true) [0, 0, 0, 0, 7] = some (.ok []) := by
  have encoded : encodeVcpuPayload [] = some [0, 0, 0, 0] := by decide
  refine ⟨fun ⟨others, longer⟩ => ?_, by decide⟩
  exact nomatch @countsMatch_unique [] others [0, 0, 0, 0] [7] encoded longer

end Machinen.Snapshot
