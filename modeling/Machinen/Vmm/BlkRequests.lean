import Machinen.Vmm.Blk

/-! What one block request may do: to the disk, only changes that its bitmap records;
to guest memory, only stores through the device. -/
namespace Machinen.Vmm

open Bytes

variable {b b' : Backend} {host : Host} {data : List VringDesc} {call : Nat} {m m' : Memory}
  {p : Progress}

theorem doRead_storesAt {sector written : Nat}
    (done : doRead b host data call sector m written = some p) :
    m.StoresAt p.mem (m.chainPlaces data) ∧ p.backend = b := by
  induction data generalizing call sector written m with
  | nil =>
    obtain rfl := Option.some.inj done
    exact ⟨Memory.StoresAt.refl m _, rfl⟩
  | cons d ds ih =>
    simp only [doRead, Option.bind_eq_bind, Option.bind_eq_some_iff] at done
    obtain ⟨found, slice_found, done⟩ := done
    cases found with
    | none =>
      obtain rfl := Option.some.inj done
      exact ⟨Memory.StoresAt.refl m _, rfl⟩
    | some off =>
      simp only [Option.bind_eq_some_iff] at done
      obtain ⟨start, _, position, _, done⟩ := done
      cases answer : host call with
      | failed =>
        simp only [answer] at done
        obtain rfl := Option.some.inj done
        exact ⟨Memory.StoresAt.refl m _, rfl⟩
      | upTo n =>
        simp only [answer, Option.bind_eq_some_iff] at done
        obtain ⟨total, _, next, _, done⟩ := done
        have fits := Memory.guestSlice_fits slice_found
        have short : (slice b.image position (min n d.len)).length ≤ d.len := by
          simp only [slice, List.length_take]
          omega
        have first : m.StoresAt (m.write off (slice b.image position (min n d.len))) (m.placesOf d) := by
          refine (Memory.StoresAt.write (by omega)).mono fun i listed => ?_
          rw [Memory.placesOf, ← Memory.guestSlice_off slice_found]
          rw [List.mem_range'_1] at listed ⊢
          omega
        obtain ⟨rest, kept⟩ := ih done
        rw [Memory.chainPlaces_cons]
        exact ⟨first.trans rest (List.subset_append_left _ _) (List.subset_append_right _ _), kept⟩

theorem doWrite_follows {sector total : Nat} (done : doWrite m host data call sector b total = some p) :
    p.mem = m ∧ b.Follows p.backend := by
  induction data generalizing call sector total b with
  | nil =>
    obtain rfl := Option.some.inj done
    exact ⟨rfl, Backend.Follows.refl b⟩
  | cons d ds ih =>
    simp only [doWrite, Option.bind_eq_bind, Option.bind_eq_some_iff] at done
    obtain ⟨found, _, done⟩ := done
    cases found with
    | none =>
      obtain rfl := Option.some.inj done
      exact ⟨rfl, Backend.Follows.refl b⟩
    | some off =>
      simp only [Option.bind_eq_some_iff] at done
      obtain ⟨byteOff, _, position, cast_eq, done⟩ := done
      have same : position = byteOff := by
        unfold i64 at cast_eq
        split at cast_eq
        · exact (Option.some.inj cast_eq).symm
        · cases cast_eq
      subst position
      cases answer : host call with
      | failed =>
        simp only [answer] at done
        obtain rfl := Option.some.inj done
        exact ⟨rfl, Backend.Follows.refl b⟩
      | upTo n =>
        simp only [answer, Option.bind_eq_some_iff] at done
        obtain ⟨_, _, next, _, done⟩ := done
        obtain ⟨kept, rest⟩ := ih done
        exact ⟨kept, (b.pwrite_follows byteOff _).trans rest⟩

theorem discardSegments_follows {off left index : Nat} {call' : Nat}
    (done : discardSegments m host off left index call b = some (b', call')) : b.Follows b' := by
  induction left generalizing index call b with
  | zero =>
    cases done
    exact Backend.Follows.refl _
  | succ left ih =>
    simp only [discardSegments, Option.bind_eq_bind, Option.bind_eq_some_iff] at done
    obtain ⟨start, _, offsetBytes, _, lenBytes, _, done⟩ := done
    split at done
    · exact ih done
    · cases answer : host call with
      | failed =>
        simp only [answer, traceBlk_fallback] at done
        cases done
      | upTo n =>
        simp only [answer] at done
        exact (b.punch_follows offsetBytes lenBytes _ (Nat.min_le_right _ _)).trans (ih done)

theorem doDiscard_follows (done : doDiscard m host data call b = some p) :
    p.mem = m ∧ b.Follows p.backend := by
  induction data generalizing call b with
  | nil =>
    obtain rfl := Option.some.inj done
    exact ⟨rfl, Backend.Follows.refl b⟩
  | cons d ds ih =>
    simp only [doDiscard] at done
    split at done
    · exact ih done
    · simp only [Option.bind_eq_bind, Option.bind_eq_some_iff] at done
      obtain ⟨found, _, done⟩ := done
      cases found with
      | none =>
        obtain rfl := Option.some.inj done
        exact ⟨rfl, Backend.Follows.refl b⟩
      | some off =>
        obtain ⟨⟨after, call'⟩, segments, done⟩ := Option.bind_eq_some_iff.mp done
        obtain ⟨kept, rest⟩ := ih done
        exact ⟨kept, (discardSegments_follows segments).trans rest⟩

theorem doGetId_storesAt (done : doGetId m b data = some (some p)) :
    m.StoresAt p.mem ((m.chainPlaces data).take 20) ∧ p.backend = b := by
  cases data with
  | nil =>
    cases done
    exact ⟨Memory.StoresAt.refl m _, rfl⟩
  | cons d ds =>
    simp only [doGetId, Option.bind_eq_bind, Option.bind_eq_some_iff] at done
    obtain ⟨found, slice_found, done⟩ := done
    cases found with
    | none => cases done
    | some off =>
      cases done
      have fits := Memory.guestSlice_fits slice_found
      have length : (blkId.take (min d.len 20)).length = min d.len 20 := by
        rw [List.length_take, show blkId.length = 20 from rfl]
        omega
      refine ⟨(Memory.StoresAt.write (by omega)).mono fun i listed => ?_, rfl⟩
      rw [Memory.chainPlaces_cons, List.take_append]
      refine List.mem_append_left _ ?_
      rw [Memory.placesOf, ← Memory.guestSlice_off slice_found]
      rw [length, List.mem_range'_1] at listed
      rcases Nat.le_total d.len 20 with small | large
      · rw [List.take_range'_of_length_le small, List.mem_range'_1]
        omega
      · rw [List.take_range'_of_length_ge large, List.mem_range'_1]
        omega

def dispatchPlaces (m : Memory) (type : Nat) (data : List VringDesc) : List Nat :=
  match type with
  | 0 => m.chainPlaces data
  | 8 => (m.chainPlaces data).take 20
  | _ => []

structure Effect (m : Memory) (b : Backend) (m' : Memory) (b' : Backend) (spots : List Nat) : Prop where
  memory : m.StoresAt m' spots
  disk : b.Follows b'

theorem Effect.of_memory {spots : List Nat}
    (memory : m.StoresAt m' spots ∧ b' = b) : Effect m b m' b' spots := by
  obtain ⟨only, rfl⟩ := memory
  exact ⟨only, Backend.Follows.refl _⟩

theorem Effect.of_disk (disk : m' = m ∧ b.Follows b') :
    Effect m b m' b' [] := by
  obtain ⟨rfl, follows⟩ := disk
  exact ⟨Memory.StoresAt.refl _ [], follows⟩

theorem dispatch_effect {type sector : Nat} (done : dispatch m b host type sector data = some (some p)) :
    Effect m b p.mem p.backend (dispatchPlaces m type data) := by
  unfold dispatch at done
  unfold dispatchPlaces
  split at done
  · obtain ⟨q, ran, same⟩ := Option.map_eq_some_iff.mp done
    exact (Option.some.inj same) ▸ Effect.of_memory (doRead_storesAt ran)
  · split at done
    · rw [traceBlk_rejected] at done
      cases done
    · obtain ⟨q, ran, same⟩ := Option.map_eq_some_iff.mp done
      exact (Option.some.inj same) ▸ Effect.of_disk (doWrite_follows ran)
  · cases done
    exact Effect.of_memory ⟨Memory.StoresAt.refl m _, rfl⟩
  · exact Effect.of_memory (doGetId_storesAt done)
  · split at done
    · cases done
      exact Effect.of_memory ⟨Memory.StoresAt.refl m _, rfl⟩
    · obtain ⟨q, ran, same⟩ := Option.map_eq_some_iff.mp done
      exact (Option.some.inj same) ▸ Effect.of_disk (doDiscard_follows ran)
  · cases done
    exact Effect.of_memory ⟨Memory.StoresAt.refl m _, rfl⟩

theorem finishRequest_effect {before : Memory} {stored : List Nat} {dev : Device} {head : Nat}
    {statusDesc : VringDesc}
    (stores : before.StoresAt p.mem stored) (done : finishRequest dev head statusDesc p = some (m', b')) :
    before.StoresAt m' ((stored ++ [statusDesc.addr - before.base]) ++
      dev.ringPlaces before 0 (stored ++ [statusDesc.addr - before.base])) ∧ b' = p.backend := by
  simp only [finishRequest, Option.bind_eq_bind, Option.bind_eq_some_iff] at done
  obtain ⟨found, slice_found, len, _, pushed, push, done⟩ := done
  cases done
  cases found with
  | none => exact ⟨queuePushUsed_storesAt (stores.mono (List.subset_append_left _ _)) push, rfl⟩
  | some off =>
    have fits := Memory.guestSlice_fits slice_found
    obtain ⟨added, ext, -⟩ := id stores
    have status : p.mem.StoresAt (p.mem.write off (le 1 p.status)) [statusDesc.addr - before.base] := by
      rw [← ext.base_eq, ← Memory.guestSlice_off slice_found]
      exact Memory.StoresAt.write (by rw [le_length]; exact fits)
    exact ⟨queuePushUsed_storesAt
      (stores.trans status (List.subset_append_left _ _) (List.subset_append_right _ _)) push, rfl⟩

/-- What a request stores before its used element: its data or the device id, and the status. -/
def answerPlaces (m : Memory) (chain : Chain) : List Nat :=
  match chain.hdr, chain.statusDesc with
  | some hdr, some statusDesc =>
    match m.guestSlice hdr.addr 16 with
    | some (some off) =>
      dispatchPlaces m (toNat (slice m.bytes off 4)) chain.data ++ [statusDesc.addr - m.base]
    | _ => []
  | _, _ => []

/-- All the bytes of guest memory that a request's chain and ring let it store into. -/
def requestPlaces (m : Memory) (dev : Device) (head : Nat) : List Nat :=
  match walkChain m dev 32 head {} with
  | none => []
  | some chain => answerPlaces m chain ++ dev.ringPlaces m 0 (answerPlaces m chain)

theorem handleRequest_effect {dev : Device} {head : Nat}
    (done : handleRequest m dev b host head = some (m', b')) :
    Effect m b m' b' (requestPlaces m dev head) := by
  simp only [handleRequest, Option.bind_eq_bind, Option.bind_eq_some_iff] at done
  obtain ⟨chain, walked, done⟩ := done
  unfold requestPlaces
  rw [walked]
  dsimp only
  split at done
  · rename_i hdr statusDesc known status
    simp only [Option.bind_eq_some_iff] at done
    obtain ⟨found, sliced, done⟩ := done
    simp only [answerPlaces, known, status, sliced]
    cases found with
    | none =>
      obtain ⟨pushed, push, done⟩ := Option.bind_eq_some_iff.mp done
      cases done
      exact Effect.of_memory ⟨queuePushUsed_storesAt (Memory.StoresAt.refl m []) push, rfl⟩
    | some off =>
      obtain ⟨outcome, switched, done⟩ := Option.bind_eq_some_iff.mp done
      cases outcome with
      | none =>
        cases done
        exact Effect.of_memory ⟨Memory.StoresAt.refl m _, rfl⟩
      | some p =>
        have switch := dispatch_effect switched
        obtain ⟨finish, kept⟩ := finishRequest_effect switch.memory done
        exact ⟨finish, kept ▸ switch.disk⟩
  · rename_i bare
    obtain ⟨pushed, push, done⟩ := Option.bind_eq_some_iff.mp done
    cases done
    unfold answerPlaces
    split
    · rename_i hdr statusDesc known status
      exact absurd status (bare hdr statusDesc known)
    · exact Effect.of_memory ⟨queuePushUsed_storesAt (Memory.StoresAt.refl m []) push, rfl⟩

end Machinen.Vmm
