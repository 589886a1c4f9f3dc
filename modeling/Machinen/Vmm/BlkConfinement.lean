import Machinen.Vmm.BlkTransfers
import Machinen.Vmm.RootdiskCoverage

/-! Block requests and the end of the disk. The guest may change its memory and the registers of the
queue from one request to the next, so a run of requests carries only the backend along. -/
namespace Machinen.Vmm

variable {b b' : Backend} {m : Memory} {host : Host} {call : Nat} {data : List VringDesc}
  {p : Progress}

open Bytes

namespace Backend

section Opening

variable (image : Bytes)

theorem sectors_positive (fits : 0 < image.length / 512 ∧ image.length % 512 = 0 ∧ image.length < 2 ^ 63) :
    0 < image.length / 512 := fits.1

theorem sectors_word (fits : 0 < image.length / 512 ∧ image.length % 512 = 0 ∧ image.length < 2 ^ 63) :
    image.length / 512 * 512 < 2 ^ 64 := by omega

theorem sectors_held : image.length / 512 * 512 ≤ image.length := by omega

theorem untracked : ∀ t ∈ (none : Option DirtyTracker), t.diskSize = image.length / 512 * 512 := by
  rintro t ⟨⟩

end Opening

def openFile (image : Bytes) (readOnly : Bool) : Option Backend :=
  if fits : 0 < image.length / 512 ∧ image.length % 512 = 0 ∧ image.length < 2 ^ 63 then
    some
      { capacitySectors := image.length / 512
        readOnly := readOnly
        dirty := none
        image := image
        positive := sectors_positive image fits
        word := sectors_word image fits
        held := sectors_held image
        tracks := untracked image }
  else none

def Whole (b : Backend) : Prop := b.image.length = b.diskSize

theorem openFile_whole {image : Bytes} {readOnly : Bool}
    (opened : openFile image readOnly = some b) : b.Whole := by
  unfold openFile at opened
  split at opened
  · cases opened
    unfold Whole diskSize
    dsimp only
    omega
  · cases opened

/-- No byte at the end of the disk or after it has changed, nor has one been added, and none at all
of a disk that is read only. -/
structure Unharmed (b b' : Backend) : Prop where
  beyond : ∀ i, b.diskSize ≤ i → b'.image[i]? = b.image[i]?
  pinned : b.readOnly = true → b'.image = b.image

structure Keeps (b b' : Backend) : Prop where
  capacity_eq : b'.capacitySectors = b.capacitySectors
  readOnly_eq : b'.readOnly = b.readOnly
  length_eq : b'.image.length = b.image.length
  pinned : b.readOnly = true → b'.image = b.image

namespace Keeps

theorem refl (b : Backend) : b.Keeps b := ⟨rfl, rfl, rfl, fun _ => rfl⟩

theorem trans {a c : Backend} (one : a.Keeps b) (two : b.Keeps c) : a.Keeps c :=
  ⟨two.capacity_eq.trans one.capacity_eq, two.readOnly_eq.trans one.readOnly_eq,
    two.length_eq.trans one.length_eq,
    fun sealed => (two.pinned (one.readOnly_eq.trans sealed)).trans (one.pinned sealed)⟩

theorem unharmed (keeps : b.Keeps b') (ends : b.Whole) : b.Unharmed b' := by
  refine ⟨fun i after => ?_, keeps.pinned⟩
  have outside : b.image.length ≤ i := Nat.le_trans (Nat.le_of_eq ends) after
  rw [List.getElem?_eq_none outside, List.getElem?_eq_none (by rw [keeps.length_eq]; exact outside)]

end Keeps

end Backend

open Backend

def Transfer.Inside (b : Backend) (t : Transfer) : Prop :=
  t.count = 0 ∨ t.position + t.count ≤ b.diskSize

instance (b : Backend) (t : Transfer) : Decidable (t.Inside b) := inferInstanceAs (Decidable (_ ∨ _))

theorem Transfer.keep_keeps {t : Transfer} (unsealed : b.readOnly = false)
    (inside : t.Inside b) : b.Keeps (t.keep m b) := by
  refine ⟨rfl, rfl, ?_, fun sealed => by rw [unsealed] at sealed; cases sealed⟩
  have short : (slice m.bytes (t.buffer.addr - m.base) t.count).length ≤ t.count := by
    unfold slice
    rw [List.length_take]
    exact Nat.min_le_left _ _
  have held : b.diskSize ≤ b.image.length := b.held
  unfold Transfer.keep markDirtyBytes pwriteAt
  dsimp only
  rw [pwrite_length]
  split
  · rfl
  · rename_i some_
    have := List.length_pos_iff.mpr some_
    unfold Transfer.Inside at inside
    omega

theorem Transfer.foldl_keep {ts : List Transfer} (unsealed : b.readOnly = false)
    (inside : ∀ t ∈ ts, t.Inside b) : b.Keeps (ts.foldl (Transfer.keep m) b) := by
  induction ts generalizing b with
  | nil => exact Keeps.refl b
  | cons t ts ih =>
    have first := Transfer.keep_keeps (m := m) unsealed (inside t List.mem_cons_self)
    exact first.trans (ih unsealed fun u member => inside u (List.mem_cons_of_mem t member))

theorem punchHole_keeps (b : Backend) (offset len : Nat) (unsealed : b.readOnly = false) :
    b.Keeps (b.punchHole offset len) := by
  refine ⟨rfl, rfl, store_length .., fun sealed => ?_⟩
  rw [unsealed] at sealed
  cases sealed

theorem markDirtyBytes_keeps (b : Backend) (offset len : Nat) : b.Keeps (b.markDirtyBytes offset len) :=
  ⟨rfl, rfl, rfl, fun _ => rfl⟩

theorem discardSegments_keeps {off left index : Nat} {call' : Nat} (unsealed : b.readOnly = false)
    (done : discardSegments m host off left index call b = some (b', call')) : b.Keeps b' := by
  induction left generalizing index call b with
  | zero =>
    cases done
    exact Keeps.refl _
  | succ left ih =>
    simp only [discardSegments, Option.bind_eq_bind, Option.bind_eq_some_iff] at done
    obtain ⟨start, _, offsetBytes, _, lenBytes, _, done⟩ := done
    split at done
    · exact ih unsealed done
    · have marked := markDirtyBytes_keeps b offsetBytes lenBytes
      cases answer : host call with
      | failed =>
        simp only [answer, traceBlk_fallback] at done
        cases done
      | upTo n =>
        simp only [answer] at done
        have punched := punchHole_keeps (b.markDirtyBytes offsetBytes lenBytes) offsetBytes
          (min n lenBytes) unsealed
        exact marked.trans (punched.trans (ih unsealed done))

theorem doDiscard_keeps (unsealed : b.readOnly = false) (done : doDiscard m host data call b = some p) :
    b.Keeps p.backend := by
  induction data generalizing call b with
  | nil =>
    obtain rfl := Option.some.inj done
    exact Keeps.refl b
  | cons d ds ih =>
    simp only [doDiscard] at done
    split at done
    · exact ih unsealed done
    · simp only [Option.bind_eq_bind, Option.bind_eq_some_iff] at done
      obtain ⟨found, _, done⟩ := done
      cases found with
      | none =>
        obtain rfl := Option.some.inj done
        exact Keeps.refl b
      | some off =>
        obtain ⟨⟨after, call'⟩, segments, done⟩ := Option.bind_eq_some_iff.mp done
        have punched := discardSegments_keeps unsealed segments
        exact punched.trans (ih (punched.readOnly_eq.trans unsealed) done)

theorem dispatch_keeps {type sector : Nat} (done : dispatch m b host type sector data = some (some p))
    (inside : type = 1 → b.readOnly = false →
      ∀ t ∈ transfers writeCount host (reached m data) 0 sector, t.Inside b) :
    b.Keeps p.backend := by
  unfold dispatch at done
  split at done
  · obtain ⟨p', ran, same⟩ := Option.map_eq_some_iff.mp done
    obtain rfl := Option.some.inj same
    rw [(doRead_storesAt ran).2]
    exact Keeps.refl b
  · cases readOnly : b.readOnly with
    | true =>
      rw [if_pos readOnly, traceBlk_rejected] at done
      cases done
    | false =>
      rw [if_neg (by rw [readOnly]; nofun)] at done
      obtain ⟨p', ran, same⟩ := Option.map_eq_some_iff.mp done
      obtain rfl := Option.some.inj same
      rw [(doWrite_does ran).2.1]
      exact Transfer.foldl_keep readOnly (inside rfl readOnly)
  · cases done
    exact Keeps.refl b
  · rw [(doGetId_storesAt done).2]
    exact Keeps.refl b
  · cases readOnly : b.readOnly with
    | true =>
      rw [if_pos readOnly] at done
      cases done
      exact Keeps.refl b
    | false =>
      rw [if_neg (by rw [readOnly]; nofun)] at done
      obtain ⟨p', ran, same⟩ := Option.map_eq_some_iff.mp done
      obtain rfl := Option.some.inj same
      exact doDiscard_keeps readOnly ran
  · cases done
    exact Keeps.refl b

theorem handleRequest_backend {m' : Memory} {dev : Device} {head : Nat}
    (done : handleRequest m dev b host head = some (m', b')) : b' = b ∨ ∃ hdr kept st p,
      walkChain m dev 32 head {} = some ⟨some hdr, kept, some st⟩ ∧
      dispatch m b host (requestType m hdr) (requestSector m hdr) kept = some (some p) ∧
      b' = p.backend := by
  simp only [handleRequest, Option.bind_eq_bind, Option.bind_eq_some_iff] at done
  obtain ⟨⟨hdr?, kept, st?⟩, walked, done⟩ := done
  dsimp only at done
  split at done
  · rename_i hdr st
    simp only [Option.bind_eq_some_iff] at done
    obtain ⟨found, header, done⟩ := done
    cases found with
    | none =>
      obtain ⟨pushed, push, done⟩ := Option.bind_eq_some_iff.mp done
      cases done
      exact .inl rfl
    | some off =>
      obtain rfl := Memory.guestSlice_off header
      obtain ⟨outcome, switched, done⟩ := Option.bind_eq_some_iff.mp done
      cases outcome with
      | none =>
        cases done
        exact .inl rfl
      | some p =>
        exact .inr ⟨hdr, kept, st, p, walked, switched,
          (finishRequest_effect (Memory.StoresAt.refl p.mem []) done).2⟩
  · obtain ⟨pushed, push, done⟩ := Option.bind_eq_some_iff.mp done
    cases done
    exact .inl rfl

def LeavesDisk (m : Memory) (b : Backend) (hdr : VringDesc) (data : List VringDesc) : Prop :=
  match requestType m hdr with
  | 0 | 1 => b.diskSize < requestSector m hdr * 512 + chainRoom data
  | 11 | 13 => ∃ d ∈ data, m.Contains d.addr (d.len / 16 * 16) ∧
      ∃ i < d.len / 16, b.diskSize < (segmentSector m d i + segmentCount m d i) * 512
  | _ => False

structure OutsideDisk (b : Backend) (r : Request) (q : Queue) (hdr : VringDesc) (data : List VringDesc)
    (st : VringDesc) : Prop where
  queue : r.dev.queue? 0 = some q
  ends : EndsInStatus r.mem q r.head hdr data st
  header : r.mem.Contains hdr.addr 16
  word : r.mem.bytes.length < 2 ^ 64
  leaves : LeavesDisk r.mem b hdr data

def Refused (b : Backend) (r : Request) (st : VringDesc) : Prop :=
  ∃ before status b' len, status ≠ VIRTIO_BLK_S_OK ∧ r.mem.DeviceOnly before ∧
    answerRequest r.mem r.dev b r.host r.head =
      some (some (before.write (st.addr - r.mem.base) (le 1 status), b', len))

def RefusesOutside (b : Backend) (r : Request) : Prop :=
  ∀ q hdr data st, OutsideDisk b r q hdr data st → Refused b r st

/-- Something other than the capacity ends the request: a buffer is not in guest RAM, a call of a read
or write fails, or the disk that a discard is for is read only. -/
def Stopped (m : Memory) (b : Backend) (host : Host) (type : Nat) (kept : List VringDesc) : Prop :=
  match type with
  | 0 => ¬ ((∀ d ∈ kept, m.Contains d.addr d.len) ∧ Succeeds host kept 0)
  | 1 => ¬ ((∀ d ∈ kept, m.Contains d.addr d.len) ∧ Succeeds host kept 0)
  | 11 => b.readOnly = true ∨ ∃ d ∈ kept, d.len / 16 ≠ 0 ∧ ¬ m.Contains d.addr (d.len / 16 * 16)
  | _ => True

/-- The transfers that a write reaches lie inside the disk, and a request that leaves the disk is
answered, and stopped before it is answered well. -/
structure StaysInside (b : Backend) (r : Request) : Prop where
  writes : ∀ hdr kept st, walkChain r.mem r.dev 32 r.head {} = some ⟨some hdr, kept, some st⟩ →
    requestType r.mem hdr = 1 → b.readOnly = false →
      ∀ t ∈ transfers writeCount r.host (reached r.mem kept) 0 (requestSector r.mem hdr), t.Inside b
  stopped : ∀ q hdr data st, OutsideDisk b r q hdr data st → data.length + 2 ≤ 32 ∧
    SwitchSafe r.mem b r.host (requestType r.mem hdr) (requestSector r.mem hdr) (data.take 8) ∧
    Stopped r.mem b r.host (requestType r.mem hdr) (data.take 8)

theorem doRead_contains {ds : List VringDesc} {sector written : Nat}
    (done : doRead b host ds call sector m written = some p)
    (fine : p.status = VIRTIO_BLK_S_OK) : ∀ d ∈ ds, m.Contains d.addr d.len := by
  induction ds generalizing call sector written m with
  | nil => exact nofun
  | cons d ds ih =>
    simp only [doRead, Option.bind_eq_bind, Option.bind_eq_some_iff] at done
    obtain ⟨found, slice_found, done⟩ := done
    cases found with
    | none =>
      obtain rfl := Option.some.inj done
      cases fine
    | some off =>
      have inside := Memory.contains_of_sliced slice_found
      simp only [Option.bind_eq_some_iff] at done
      obtain ⟨start, _, position, _, done⟩ := done
      cases answer : host call with
      | failed =>
        rw [answer] at done
        obtain rfl := Option.some.inj done
        cases fine
      | upTo n =>
        simp only [answer, Option.bind_eq_some_iff] at done
        obtain ⟨_, _, next, _, done⟩ := done
        have rest := ih done
        rw [contains_congr (Memory.write_base m _ _) (store_length m.bytes _ _)] at rest
        exact List.forall_mem_cons.mpr ⟨inside, rest⟩

theorem doDiscard_contains {ds : List VringDesc} (done : doDiscard m host ds call b = some p)
    (fine : p.status = VIRTIO_BLK_S_OK) :
    ∀ d ∈ ds, d.len / 16 ≠ 0 → m.Contains d.addr (d.len / 16 * 16) := by
  induction ds generalizing call b with
  | nil => exact nofun
  | cons d ds ih =>
    simp only [doDiscard] at done
    split at done
    · rename_i empty
      exact List.forall_mem_cons.mpr ⟨fun some_ => absurd empty some_, ih done⟩
    · simp only [Option.bind_eq_bind, Option.bind_eq_some_iff] at done
      obtain ⟨found, slice_found, done⟩ := done
      cases found with
      | none =>
        obtain rfl := Option.some.inj done
        cases fine
      | some off =>
        obtain ⟨r, _, done⟩ := Option.bind_eq_some_iff.mp done
        exact List.forall_mem_cons.mpr ⟨fun _ => Memory.contains_of_sliced slice_found, ih done⟩

theorem Stopped.status {hdr : VringDesc} {sector : Nat} {kept : List VringDesc}
    (leaves : LeavesDisk m b hdr data) (stopped : Stopped m b host (requestType m hdr) kept)
    (done : dispatch m b host (requestType m hdr) sector kept = some (some p)) :
    p.status ≠ VIRTIO_BLK_S_OK := by
  unfold LeavesDisk at leaves
  generalize requestType m hdr = type at leaves stopped done
  unfold dispatch at done
  intro fine
  split at done
  · obtain ⟨p', ran, same⟩ := Option.map_eq_some_iff.mp done
    obtain rfl := Option.some.inj same
    exact stopped ⟨doRead_contains ran fine, (doRead_ok ran fine).1⟩
  · split at done
    · rw [traceBlk_rejected] at done
      cases done
    · obtain ⟨p', ran, same⟩ := Option.map_eq_some_iff.mp done
      obtain rfl := Option.some.inj same
      exact stopped ((doWrite_does ran).2.2 fine)
  · exact leaves
  · exact leaves
  · split at done
    · cases done
      cases fine
    · rename_i unsealed
      obtain ⟨p', ran, same⟩ := Option.map_eq_some_iff.mp done
      obtain rfl := Option.some.inj same
      obtain ⟨d, member, some_, outside⟩ := stopped.resolve_left unsealed
      exact outside (doDiscard_contains ran fine d member some_)
  · cases done
    cases fine

theorem StaysInside.refuses {r : Request} (stays : StaysInside b r) :
    RefusesOutside b r := by
  intro q hdr data st outside
  obtain ⟨queue, ends, header, word, leaves⟩ := outside
  obtain ⟨short, safe, stopped⟩ := stays.stopped q hdr data st ⟨queue, ends, header, word, leaves⟩
  have seen := ends.seen_data queue short
  have reachable : r.mem.Ends hdr.addr 16 := fun _ => Nat.lt_of_le_of_lt header.2 word
  have status : r.mem.Ends st.addr 1 := fun _ => Nat.lt_of_le_of_lt ends.inside.2 word
  obtain ⟨p, switched, fits⟩ := (dispatch_iff (walkChain_lens queue seen nofun)).mpr safe
  obtain ⟨ends_eq, contains_eq, base_eq⟩ := ends_after switched
  refine ⟨p.mem, p.status, p.backend, p.bytesWritten + 1, stopped.status leaves switched,
    (dispatch_effect switched).memory.deviceOnly, ?_⟩
  rw [answerRequest_header seen reachable, if_pos header, switched, Option.bind_some]
  dsimp only
  have inside : p.mem.Contains st.addr 1 := by
    rw [contains_eq]
    exact ends.inside
  rw [if_pos ⟨by rw [ends_eq]; exact status, fits⟩, withStatus, if_pos inside, base_eq]

theorem serveRequest_keeps {r : Request} (stays : StaysInside b r)
    (served : serveRequest b r = some b') : b.Keeps b' := by
  obtain ⟨⟨m', d⟩, handled, same⟩ := Option.map_eq_some_iff.mp served
  cases same
  rcases handleRequest_backend handled with same | ⟨hdr, kept, st, p, walked, switched, same⟩
  · exact same ▸ Keeps.refl b
  · rw [same]
    exact dispatch_keeps switched (stays.writes hdr kept st walked)

/-- A run whose requests all stay inside the disk leaves everything after its end as it was, and
refuses every request that asks for more. -/
theorem blk_requests_confined {b : Backend} {requests : List Request} (whole : b.Whole)
    (stays : Run.Meets serveRequest StaysInside b requests) :
    (∀ n b', Run.exec serveRequest b (requests.take n) = some b' → b.Unharmed b') ∧
      Run.Meets serveRequest RefusesOutside b requests := by
  refine ⟨fun n b' ran => ?_, Run.Meets.weaken (fun _ _ => StaysInside.refuses) requests stays⟩
  have keeps : b.Keeps b' := Run.exec_guarded
    (fun c r c' kept inside served => kept.trans (serveRequest_keeps inside served))
    (requests.take n) (Keeps.refl b) (stays.take n) ran
  exact keeps.unharmed whole

theorem EndsInStatus.determined {dev : Device} {q : Queue} {head : Nat} {hdr st h s : VringDesc}
    {kept : List VringDesc} (queue : dev.queue? 0 = some q) (ends : EndsInStatus m q head hdr data st)
    (walked : walkChain m dev 32 head {} = some ⟨some h, kept, some s⟩) (few : kept.length < 8) :
    hdr = h ∧ data = kept := by
  have short := ends.short queue walked
  rw [ends.seen_data queue short] at walked
  obtain ⟨header, same, -⟩ := Chain.mk.inj (Option.some.inj walked)
  rw [← same, List.length_take] at few
  rw [List.take_of_length_le (by omega)] at same
  exact ⟨Option.some.inj header, same⟩

/-- A write of twenty bytes at a sector, from `buffer`. -/
def twentyBytes (sector buffer : Nat) : Request :=
  ⟨requestMemory 1 sector buffer, requestDevice, ready, 0⟩

/-- A write inside the disk, and one after its end whose buffer is not in guest RAM. -/
theorem inside_then_stopped : ∃ b, openFile (zeros 512) false = some b ∧
    (∀ n b', Run.exec serveRequest b ([twentyBytes 0 272, twentyBytes 1 1000].take n) = some b' →
      b.Unharmed b') ∧
    Run.Meets serveRequest RefusesOutside b [twentyBytes 0 272, twentyBytes 1 1000] := by
  have opens : (openFile (zeros 512) false).map (fun b => (b.diskSize, b.readOnly)) =
      some (512, false) := by decide +kernel
  obtain ⟨b, opened, kind⟩ := Option.map_eq_some_iff.mp opens
  obtain ⟨size, unsealed⟩ := Prod.mk.inj kind
  have first_walk : walkChain (requestMemory 1 0 272) requestDevice 32 0 {} =
      some ⟨some ⟨256, 16, 1, 1⟩, [⟨272, 20, 3, 2⟩], some ⟨300, 1, 2, 0⟩⟩ := by decide +kernel
  have second_walk : walkChain (requestMemory 1 1 1000) requestDevice 32 0 {} =
      some ⟨some ⟨256, 16, 1, 1⟩, [⟨1000, 20, 3, 2⟩], some ⟨300, 1, 2, 0⟩⟩ := by decide +kernel
  have first : StaysInside b (twentyBytes 0 272) := by
    refine ⟨fun hdr kept st walked _ _ => ?_, fun q hdr data st outside => ?_⟩
    · cases first_walk.symm.trans walked
      have low : ∀ t ∈ transfers writeCount ready (reached (requestMemory 1 0 272) [⟨272, 20, 3, 2⟩]) 0
          (requestSector (requestMemory 1 0 272) ⟨256, 16, 1, 1⟩), t.position + t.count ≤ 512 := by
        decide +kernel
      exact fun t member => .inr (size ▸ low t member)
    · obtain ⟨rfl, rfl⟩ := outside.ends.determined outside.queue first_walk (by decide : 1 < 8)
      have leaves := outside.leaves
      have type : requestType (twentyBytes 0 272).mem ⟨256, 16, 1, 1⟩ = 1 := by decide +kernel
      have low : requestSector (twentyBytes 0 272).mem ⟨256, 16, 1, 1⟩ * 512 + 20 < 512 := by
        decide +kernel
      unfold LeavesDisk at leaves
      rw [type, size] at leaves
      exact absurd leaves (Nat.not_lt_of_lt low)
  have second {b : Backend} (unsealed : b.readOnly = false) : StaysInside b (twentyBytes 1 1000) := by
    refine ⟨fun hdr kept st walked _ _ => ?_, fun q hdr data st outside => ?_⟩
    · cases second_walk.symm.trans walked
      have none_ : reached (requestMemory 1 1 1000) [⟨1000, 20, 3, 2⟩] = [] := by decide +kernel
      rw [show (twentyBytes 1 1000).mem = requestMemory 1 1 1000 from rfl, none_]
      nofun
    · obtain ⟨rfl, rfl⟩ := outside.ends.determined outside.queue second_walk (by decide : 1 < 8)
      have apart : ¬ (twentyBytes 1 1000).mem.Contains (VringDesc.mk 1000 20 3 2).addr 20 := by
        decide +kernel
      have type : requestType (twentyBytes 1 1000).mem ⟨256, 16, 1, 1⟩ = 1 := by decide +kernel
      rw [type]
      have safe : WriteSafe (twentyBytes 1 1000).mem ready [⟨1000, 20, 3, 2⟩] 0 1 0 := by
        refine ⟨?_, fun contains => absurd contains apart⟩
        decide +kernel
      have stopped : ¬ ∀ d ∈ [VringDesc.mk 1000 20 3 2],
        (twentyBytes 1 1000).mem.Contains d.addr d.len :=
        fun all => apart (all ⟨1000, 20, 3, 2⟩ List.mem_cons_self)
      exact ⟨(by decide : 1 + 2 ≤ 32), ⟨unsealed, safe⟩, fun both => stopped both.1⟩
  refine ⟨b, opened, blk_requests_confined (openFile_whole opened) ⟨first, ?_⟩⟩
  split
  · rename_i served
    refine ⟨second ((serveRequest_keeps first served).readOnly_eq.trans unsealed), ?_⟩
    split <;> trivial
  · trivial

/-- A write of sector 1 of a disk of one sector makes its file twenty bytes longer, and is answered
well. -/
theorem write_past_the_end : ∃ b', serveRequest oneSector (twentyBytes 1 272) = some b' ∧
    ¬ oneSector.Unharmed b' := by
  have longer : (serveRequest oneSector (twentyBytes 1 272)).map (fun b => b.image[512]?) =
      some (some 0) := by decide +kernel
  obtain ⟨b', served, byte⟩ := Option.map_eq_some_iff.mp longer
  refine ⟨b', served, fun unharmed => ?_⟩
  have same := unharmed.beyond 512 (Nat.le_refl 512)
  rw [byte] at same
  exact absurd same (by decide +kernel)

end Machinen.Vmm
