import Machinen.Lib.Run
import Machinen.Vmm.BlkRequests
import Machinen.Vmm.RamDump
import Machinen.Vmm.RxDelivery

/-! Coverage of the RAM delta. Two kinds of writers change guest RAM between two
checkpoints, the vCPUs and the devices, and the kernel's dirty log sees the first only. -/
namespace Machinen.Vmm

open Bytes Extents

structure Guest where
  mem : Memory
  dirtyLog : List Word

/-- What may run between two checkpoints. A device acts through `guest_slice`; the state
of its queues is its own and may be anything. -/
inductive Activity where
  | vcpuStore (off : Nat) (data : Bytes)
  | blkRequest (dev : Device) (backend : Backend) (host : Host) (head : Nat)
  | injectRx (dev : Device) (frame : Bytes)
  | injectVsock (dev : Device) (hdr : VsockHdr) (body : Bytes)
  | pushUsed (dev : Device) (qIdx head len : Nat)
  | guestWrite (addr : Nat) (data : Bytes)

def Guest.vcpuStore (g : Guest) (off : Nat) (data : Bytes) : Guest where
  mem := { g.mem with bytes := store g.mem.bytes off data }
  dirtyLog := Bitmap.setRange g.dirtyLog (off / PAGE) (divCeil (off + data.length) PAGE)

def guestWrite (m : Memory) (addr : Nat) (data : Bytes) : Option Memory := do
  match ← m.guestSlice addr data.length with
  | none => return m
  | some off => return m.write off data

def Guest.step (g : Guest) : Activity → Option Guest
  | .vcpuStore off data =>
    if data ≠ [] ∧ off + data.length ≤ g.mem.bytes.length then some (g.vcpuStore off data) else none
  | .blkRequest dev backend host head =>
    (handleRequest g.mem dev backend host head).map fun r => { g with mem := r.1 }
  | .injectRx dev frame => (injectRx g.mem dev frame).map fun r => { g with mem := r.1 }
  | .injectVsock dev hdr body => (injectVsock g.mem dev hdr body).map fun r => { g with mem := r.1 }
  | .pushUsed dev qIdx head len => (queuePushUsed g.mem dev qIdx head len).map fun m => { g with mem := m }
  | .guestWrite addr data => (guestWrite g.mem addr data).map fun m => { g with mem := m }

def checkpointed (base : Nat) (ram : Ram) : Guest where
  mem := { base := base, bytes := ram.bytes, stores := [] }
  dirtyLog := List.replicate (divCeil (divCeil ram.bytes.length PAGE) 64) 0#64

def Activity.vcpuTouches (page : Nat) : Activity → Bool
  | .vcpuStore off data => decide (off / PAGE ≤ page ∧ page < divCeil (off + data.length) PAGE)
  | _ => false

def injectionPlaces (walk : Queue → Nat → Copy → Nat → Option Copy) (sources : List Bytes) (m : Memory)
    (dev : Device) : List Nat :=
  match dev.queue? 0 with
  | none => []
  | some q =>
    if q.ready = 0 ∨ q.num = 0 then []
    else match nextHead m q with
      | some (some head) =>
        let start : Copy := ⟨m, sources, 0, true⟩
        let copied := (m.chainPlaces (chainBuffers q maxChainDescriptors start head)).take
          sources.flatten.length
        copied ++ if (walk q maxChainDescriptors start head).any Copy.ok then ringPlaces m q copied else []
      | _ => []

def Activity.places (m : Memory) : Activity → List Nat
  | .vcpuStore _ _ => []
  | .blkRequest dev _ _ head => requestPlaces m dev head
  | .injectRx dev frame => injectionPlaces fillFrameChain [zeros 12, frame] m dev
  | .injectVsock dev hdr body => injectionPlaces fillPacketChain [hdr.encode, body] m dev
  | .pushUsed dev qIdx _ _ => dev.ringPlaces m qIdx []
  | .guestWrite addr data =>
    match m.guestSlice addr data.length with
    | some (some off) => List.range' off data.length
    | _ => []

def Accompanied (activities : List Activity) (g : Guest) (a : Activity) : Prop :=
  ∀ i ∈ a.places g.mem, ∃ b ∈ activities, b.vcpuTouches (i / PAGE) = true

instance (activities : List Activity) (g : Guest) (a : Activity) : Decidable (Accompanied activities g a) :=
  inferInstanceAs (Decidable (∀ i ∈ a.places g.mem, ∃ b ∈ activities, b.vcpuTouches (i / PAGE) = true))

theorem Copied.storesAt {m : Memory} {spots : List Nat} {sources : List Bytes} {written count : Nat}
    {copy : Copy} {added : List Store} (copied : Copied m spots sources written copy count added) :
    m.StoresAt copy.mem (spots.take sources.flatten.length) := by
  refine ⟨added, copied.stores, fun s listed i hit => ?_⟩
  have stored : i ∈ storedPlaces added := List.mem_flatMap.mpr ⟨s, listed, hit⟩
  rw [copied.places] at stored
  have fits := copied.fits
  exact List.take_subset_take_left spots (by omega) stored

theorem injectInto_storesAt {walk : Queue → Nat → Copy → Nat → Option Copy}
    (copies : ∀ {q steps idx copy done}, walk q steps copy idx = some done → ∃ count added,
      Copied copy.mem (copy.mem.chainPlaces (chainBuffers q steps copy idx)) copy.rest copy.written done
        count added)
    {sources : List Bytes} {m m' : Memory} {dev dev' : Device} {delivered : Bool}
    (injected : injectInto walk sources m dev = some (m', dev', delivered)) :
    m.StoresAt m' (injectionPlaces walk sources m dev) := by
  unfold injectInto at injected
  unfold injectionPlaces
  cases known : dev.queue? 0 with
  | none =>
    rw [known] at injected
    cases injected
  | some q =>
    rw [known] at injected
    dsimp only at injected ⊢
    split at injected
    · cases injected
      exact Memory.StoresAt.refl m _
    · rename_i live
      rw [if_neg live]
      simp only [Option.bind_eq_bind, Option.bind_eq_some_iff] at injected
      obtain ⟨found, posted, injected⟩ := injected
      rw [posted]
      cases found with
      | none =>
        cases injected
        exact Memory.StoresAt.refl m _
      | some head =>
        simp only [Option.bind_eq_some_iff] at injected
        obtain ⟨copied, walked, injected⟩ := injected
        obtain ⟨count, added, copy⟩ := copies walked
        have stores := copy.storesAt
        dsimp only
        rw [walked, Option.any_some]
        split at injected
        · rename_i fine
          obtain ⟨published, pushed, injected⟩ := Option.bind_eq_some_iff.mp injected
          cases injected
          rw [if_pos fine]
          exact pushUsed_storesAt stores pushed
        · cases injected
          exact stores.mono (List.subset_append_left _ _)

theorem step_cases {g g' : Guest} {a : Activity} (stepped : g.step a = some g') :
    (∃ off data, a = .vcpuStore off data ∧ off + data.length ≤ g.mem.bytes.length ∧
      g' = g.vcpuStore off data) ∨
    ((∀ page, a.vcpuTouches page = false) ∧ g'.dirtyLog = g.dirtyLog ∧
      g.mem.StoresAt g'.mem (a.places g.mem)) := by
  cases a with
  | vcpuStore off data =>
    simp only [Guest.step] at stepped
    split at stepped
    · rename_i fits
      exact .inl ⟨off, data, rfl, fits.2, (Option.some.inj stepped).symm⟩
    · cases stepped
  | blkRequest dev backend host head =>
    obtain ⟨r, handled, rfl⟩ := Option.map_eq_some_iff.mp stepped
    exact .inr ⟨fun _ => rfl, rfl, (handleRequest_effect handled).memory⟩
  | injectRx dev frame =>
    obtain ⟨r, injected, rfl⟩ := Option.map_eq_some_iff.mp stepped
    refine .inr ⟨fun _ => rfl, rfl, ?_⟩
    unfold Vmm.injectRx at injected
    split at injected
    · cases injected
    · refine injectInto_storesAt (fun walked => ?_) injected
      obtain ⟨count, added, copied, -⟩ := fillFrameChain_copied walked
      exact ⟨count, added, copied⟩
  | injectVsock dev hdr body =>
    obtain ⟨r, injected, rfl⟩ := Option.map_eq_some_iff.mp stepped
    refine .inr ⟨fun _ => rfl, rfl, ?_⟩
    unfold Vmm.injectVsock at injected
    split at injected
    · cases injected
    · exact injectInto_storesAt fillPacketChain_copied injected
  | pushUsed dev qIdx head len =>
    obtain ⟨m, pushed, rfl⟩ := Option.map_eq_some_iff.mp stepped
    exact .inr ⟨fun _ => rfl, rfl, queuePushUsed_storesAt (Memory.StoresAt.refl g.mem []) pushed⟩
  | guestWrite addr data =>
    obtain ⟨m, written, rfl⟩ := Option.map_eq_some_iff.mp stepped
    refine .inr ⟨fun _ => rfl, rfl, ?_⟩
    simp only [Vmm.guestWrite, Option.bind_eq_bind, Option.bind_eq_some_iff] at written
    obtain ⟨found, sliced, written⟩ := written
    simp only [Activity.places, sliced]
    cases found with
    | none => exact (Option.some.inj written) ▸ Memory.StoresAt.refl g.mem []
    | some off => exact (Option.some.inj written) ▸ Memory.StoresAt.write (Memory.guestSlice_fits sliced)

/-- What links a run so far to its parent: the log holds exactly the pages of the vCPU stores,
and a page that no store of a vCPU reaches in the whole run is the parent's. -/
structure Linked (parent : Bytes) (log : List Word) (all done : List Activity) (g : Guest) : Prop where
  length_eq : g.mem.bytes.length = parent.length
  words_eq : g.dirtyLog.length = log.length
  logged : ∀ page, page / 64 < log.length →
    (Bitmap.bitSet g.dirtyLog page = true ↔ ∃ a ∈ done, a.vcpuTouches page = true)
  kept : ∀ i, (∀ a ∈ all, a.vcpuTouches (i / PAGE) = false) → g.mem.bytes[i]? = parent[i]?

theorem vcpuStore_untouched {off i : Nat} {data : Bytes}
    (untouched : (Activity.vcpuStore off data).vcpuTouches (i / PAGE) = false) :
    i < off ∨ off + data.length ≤ i := by
  simp only [Activity.vcpuTouches, decide_eq_false_iff_not] at untouched
  by_contra inside
  refine untouched ⟨Nat.div_le_div_right (by omega), ?_⟩
  rw [lt_divCeil_iff (by decide)]
  exact Nat.lt_of_le_of_lt (Nat.div_mul_le_self i PAGE) (by omega)

theorem linked_step {parent : Bytes} {log : List Word} {all done : List Activity} {g g' : Guest}
    {a : Activity} (linked : Linked parent log all done g) (listed : a ∈ all)
    (accompanied : Accompanied all g a) (stepped : g.step a = some g') :
    Linked parent log all (done ++ [a]) g' := by
  rcases step_cases stepped with ⟨off, data, rfl, fits, rfl⟩ | ⟨untouching, log_eq, stores⟩
  · refine ⟨?_, ?_, ?_, ?_⟩
    · simpa only [Guest.vcpuStore, store_length] using linked.length_eq
    · simpa only [Guest.vcpuStore, Bitmap.setRange_length] using linked.words_eq
    · intro page room
      have room' : page / 64 < g.dirtyLog.length := by rw [linked.words_eq]; exact room
      simp only [Guest.vcpuStore, Bitmap.bitSet_setRange, room', decide_true, Bool.and_true,
        Bool.or_eq_true, linked.logged page room, List.mem_append, List.mem_singleton, or_and_right,
        exists_or, exists_eq_left, Activity.vcpuTouches]
    · intro i untouched
      simp only [Guest.vcpuStore]
      rw [store_outside _ _ _ _ (vcpuStore_untouched (untouched _ listed)), linked.kept i untouched]
  · obtain ⟨added, ext, -⟩ := id stores
    refine ⟨ext.length_eq.trans linked.length_eq, by rw [log_eq]; exact linked.words_eq, ?_, ?_⟩
    · intro page room
      rw [log_eq, linked.logged page room]
      simp only [List.mem_append, List.mem_singleton, or_and_right, exists_or, exists_eq_left,
        untouching page, Bool.false_eq_true, or_false]
    · intro i untouched
      rw [stores.outside, linked.kept i untouched]
      intro reached
      obtain ⟨b, member, touches⟩ := accompanied i reached
      rw [untouched b member] at touches
      cases touches

theorem linked_start (base : Nat) (ram : Ram) (all : List Activity) :
    Linked ram.bytes (checkpointed base ram).dirtyLog all [] (checkpointed base ram) := by
  refine ⟨rfl, rfl, ?_, fun _ _ => rfl⟩
  intro page _
  have clear : Bitmap.bitSet (checkpointed base ram).dirtyLog page = false := by
    rw [Bitmap.bitSet_eq, checkpointed, List.getElem?_replicate]
    split <;> simp
  simp [clear]

theorem linked_run {parent : Bytes} {log : List Word} {all : List Activity} (activities done : List Activity)
    {g g' : Guest} (linked : Linked parent log all done g) (listed : activities ⊆ all)
    (accompanied : Run.Meets Guest.step (Accompanied all) g activities)
    (ran : Run.exec Guest.step g activities = some g') :
    Linked parent log all (done ++ activities) g' := by
  induction activities generalizing g done with
  | nil =>
    obtain rfl := Option.some.inj ran
    simpa only [List.append_nil] using linked
  | cons a activities ih =>
    obtain ⟨m, first, rest⟩ := Run.exec_cons ran
    obtain ⟨member, listed⟩ := List.cons_subset.mp listed
    have next := ih (done ++ [a]) (linked_step linked member accompanied.1 first) listed
      (accompanied.tail first) rest
    simpa only [List.append_assoc, List.singleton_append] using next

def Guest.ram (g : Guest) (parent : Ram) (same : g.mem.bytes.length = parent.bytes.length) : Ram where
  bytes := g.mem.bytes
  nonempty := same ▸ parent.nonempty
  paged := same ▸ parent.paged
  word := same ▸ parent.word

structure DeltaCovers (sha256 : Bytes → Digest) (parent : Bytes) (child : Guest) : Prop where
  pages : ∀ i, i < parent.length → child.mem.bytes[i]? ≠ parent[i]? →
    Bitmap.bitSet child.dirtyLog (i / PAGE) = true
  decodes : ∃ fuel payload,
    RamDump.encodeDelta sha256 fuel child.mem.base child.mem.bytes child.dirtyLog = some payload ∧
      RamDump.decodeDeltaInto sha256 payload parent = .ok child.mem.bytes

/-- In every run whose activities are accompanied, the delta covers what the devices wrote. -/
theorem ram_delta_covers (sha256 : Bytes → Digest) (base : Nat) (parent : Ram)
    (activities : List Activity) (child : Guest)
    (accompanied : Run.Meets Guest.step (Accompanied activities) (checkpointed base parent) activities)
    (ran : Run.exec Guest.step (checkpointed base parent) activities = some child) :
    DeltaCovers sha256 parent.bytes child := by
  have linked := linked_run activities [] (linked_start base parent activities) (List.Subset.refl _)
    accompanied ran
  rw [List.nil_append] at linked
  have room : ∀ i, i < parent.bytes.length →
      i / PAGE / 64 < (checkpointed base parent).dirtyLog.length := by
    intro i inside
    have page_inside : i / PAGE < divCeil parent.bytes.length PAGE :=
      (lt_divCeil_iff (by decide) _).mpr (Nat.lt_of_le_of_lt (Nat.div_mul_le_self i PAGE) inside)
    rw [checkpointed, List.length_replicate, lt_divCeil_iff (by decide)]
    exact Nat.lt_of_le_of_lt (Nat.div_mul_le_self _ 64) page_inside
  have pages : ∀ i, i < parent.bytes.length →
      Bitmap.bitSet child.dirtyLog (i / PAGE) = false → child.mem.bytes[i]? = parent.bytes[i]? := by
    intro i inside clear
    refine linked.kept i fun a member => ?_
    rw [← Bool.not_eq_true, linked.logged _ (room i inside)] at clear
    exact Bool.eq_false_iff.mpr fun touches => clear ⟨a, member, touches⟩
  refine ⟨?_, ?_⟩
  · intro i inside differs
    cases marked : Bitmap.bitSet child.dirtyLog (i / PAGE) with
    | true => rfl
    | false => exact absurd (pages i inside marked) differs
  · obtain ⟨fuel, es, _, _, encoded⟩ := RamDump.encodeDelta_returns sha256 child.mem.base
      (child.ram parent linked.length_eq) child.dirtyLog
    obtain ⟨restored, decoded, length_eq, bytes⟩ :=
      RamDump.decodeDelta_bytes linked.length_eq.symm encoded
    refine ⟨fuel, _, encoded, ?_⟩
    rw [decoded]
    refine congrArg Except.ok (List.ext_getElem? fun i => ?_)
    by_cases inside : i < parent.bytes.length
    · rw [bytes i (by have := linked.length_eq; exact this ▸ inside)]
      split
      · rfl
      · rename_i clear
        exact (pages i inside (Bool.not_eq_true _ ▸ clear)).symm
    · have past : child.mem.bytes.length ≤ i := by rw [linked.length_eq]; omega
      rw [List.getElem?_eq_none (by rw [length_eq]; exact past), List.getElem?_eq_none past]

def receivePage : Ram where
  bytes := VringDesc.encode ⟨256, 64, 2, 0⟩ ++ zeros 48 ++ le 2 0 ++ le 2 1 ++ zeros 4028
  nonempty := by simp [VringDesc.encode]
  paged := by simp [VringDesc.encode, PAGE]
  word := by simp [VringDesc.encode]

def receiveDevice : Device where
  queues := [{ num := 4, ready := 1, descAddr := 0, driverAddr := 64, deviceAddr := 128 }]

/-- A frame of one byte, and then a store of the guest to the same page. -/
theorem accompanied_frame_is_covered : ∃ child,
    Run.exec Guest.step (checkpointed 0 receivePage)
        [.injectRx receiveDevice [1], .vcpuStore 0 [9]] = some child ∧
      child.mem.bytes[268]? = some 1 ∧ DeltaCovers (fun _ => emptyDigest) receivePage.bytes child := by
  have accompanied : Run.Meets Guest.step (Accompanied [.injectRx receiveDevice [1], .vcpuStore 0 [9]])
      (checkpointed 0 receivePage) [.injectRx receiveDevice [1], .vcpuStore 0 [9]] := by decide +kernel
  have runs : (Run.exec Guest.step (checkpointed 0 receivePage)
      [.injectRx receiveDevice [1], .vcpuStore 0 [9]]).map (fun g => g.mem.bytes[268]?) =
        some (some 1) := by decide +kernel
  obtain ⟨child, ran, byte⟩ := Option.map_eq_some_iff.mp runs
  exact ⟨child, ran, byte, ram_delta_covers _ 0 receivePage _ child accompanied ran⟩

/-- The frame alone: its page differs from the parent and is not in the kernel's log. -/
theorem injected_frame_is_missed : ∃ child,
    Run.exec Guest.step (checkpointed 0 receivePage) [.injectRx receiveDevice [1]] = some child ∧
      ∀ sha256, ¬ DeltaCovers sha256 receivePage.bytes child := by
  have seen : (Run.exec Guest.step (checkpointed 0 receivePage) [.injectRx receiveDevice [1]]).map
      (fun g => (Bitmap.bitSet g.dirtyLog 0, g.mem.bytes[268]?, receivePage.bytes[268]?)) =
        some (false, some 1, some 0) := by decide +kernel
  obtain ⟨child, ran, facts⟩ := Option.map_eq_some_iff.mp seen
  obtain ⟨clear, child_byte, parent_byte⟩ : Bitmap.bitSet child.dirtyLog 0 = false ∧
      child.mem.bytes[268]? = some 1 ∧ receivePage.bytes[268]? = some 0 := by
    simpa only [Prod.mk.injEq] using facts
  refine ⟨child, ran, fun sha256 covers => ?_⟩
  have inside : 268 < receivePage.bytes.length := by decide +kernel
  have marked := covers.pages 268 inside (by rw [child_byte, parent_byte]; decide)
  rw [show 268 / PAGE = 0 from rfl, clear] at marked
  exact Bool.false_ne_true marked

end Machinen.Vmm
