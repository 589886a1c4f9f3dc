import Machinen.Vmm.Memory

/-! The virtio-mmio device: split rings in guest memory, the used ring, the walk
over a descriptor chain and the delivery of a received frame. -/
namespace Machinen.Vmm

open Bytes

def maxQueues : Nat := 8
def maxChainDescriptors : Nat := 32
def IRQ_USED_BUFFER : Nat := 1

structure VringDesc where
  addr : Nat
  len : Nat
  flags : Nat
  next : Nat
  deriving DecidableEq, Repr

namespace VringDesc

def F_NEXT : Nat := 1
def F_WRITE : Nat := 2

def hasNext (d : VringDesc) : Bool := d.flags &&& F_NEXT != 0
def isWritable (d : VringDesc) : Bool := d.flags &&& F_WRITE != 0

def decode (bs : Bytes) : VringDesc where
  addr := toNat (slice bs 0 8)
  len := toNat (slice bs 8 4)
  flags := toNat (slice bs 12 2)
  next := toNat (slice bs 14 2)

def encode (d : VringDesc) : Bytes := le 8 d.addr ++ le 4 d.len ++ le 2 d.flags ++ le 2 d.next

end VringDesc

structure Queue where
  num : Nat := 0
  ready : Nat := 0
  descAddr : Nat := 0
  driverAddr : Nat := 0
  deviceAddr : Nat := 0
  lastAvailIdx : Nat := 0
  deriving DecidableEq, Repr, Inhabited

/-- `last_avail_idx +%= 1`. -/
def Queue.consume (q : Queue) : Queue := { q with lastAvailIdx := (q.lastAvailIdx + 1) % 65536 }

structure Device where
  queues : List Queue
  interruptStatus : Nat := 0
  skipNotifyQueues : Nat := 0
  deriving DecidableEq, Repr

/-- The queue at an index below `max_queues`. -/
def Device.queue? (dev : Device) (qIdx : Nat) : Option Queue :=
  if qIdx < maxQueues then dev.queues[qIdx]? else none

def Device.setQueue (dev : Device) (qIdx : Nat) (q : Queue) : Device :=
  { dev with queues := dev.queues.set qIdx q }

def Device.raise (dev : Device) : Device :=
  { dev with interruptStatus := dev.interruptStatus ||| IRQ_USED_BUFFER }

def readDescriptor (m : Memory) (q : Queue) (idx : Nat) : Option (Option VringDesc) :=
  if q.num ≤ idx then some none
  else do
    let offset ← u64 (q.descAddr + idx * 16)
    let found ← m.guestSlice offset 16
    return found.map fun off => VringDesc.decode (slice m.bytes off 16)

def queueDescriptor (m : Memory) (dev : Device) (qIdx idx : Nat) : Option (Option VringDesc) :=
  match dev.queue? qIdx with
  | none => some none
  | some q => readDescriptor m q idx

/-- The available index of the ring header; its flags are read by nobody. -/
def readAvailHeader (m : Memory) (q : Queue) : Option (Option Nat) := do
  let found ← m.guestSlice q.driverAddr 4
  return found.map fun off => toNat (slice m.bytes (off + 2) 2)

def readAvailRingEntry (m : Memory) (q : Queue) (idx : Nat) : Option (Option Nat) :=
  if q.num = 0 then none
  else do
    let offset ← u64 (q.driverAddr + 4 + idx % q.num * 2)
    let found ← m.guestSlice offset 2
    return found.map fun off => toNat (slice m.bytes off 2)

structure UsedSlot where
  elemOff : Nat
  idxOff : Nat
  nextIdx : Nat
  deriving DecidableEq, Repr

def usedSlot (m : Memory) (q : Queue) : Option (Option UsedSlot) :=
  if q.num = 0 then none
  else do
    match ← m.guestSlice q.deviceAddr 4 with
    | none => return none
    | some used =>
      let idx := toNat (slice m.bytes (used + 2) 2)
      let elemAddr ← u64 (q.deviceAddr + 4 + idx % q.num * 8)
      let elem ← m.guestSlice elemAddr 8
      return elem.map fun elemOff => ⟨elemOff, used + 2, (idx + 1) % 65536⟩

def usedElem (id len : Nat) : Bytes := le 4 id ++ le 4 len

def writeUsedElem (m : Memory) (slot : UsedSlot) (id len : Nat) : Memory :=
  m.write slot.elemOff (usedElem id len)

def writeUsedIdx (m : Memory) (slot : UsedSlot) : Memory := m.write slot.idxOff (le 2 slot.nextIdx)

def Memory.placesOf (m : Memory) (desc : VringDesc) : List Nat :=
  List.range' (desc.addr - m.base) desc.len

def Memory.chainPlaces (m : Memory) (buffers : List VringDesc) : List Nat := buffers.flatMap m.placesOf

theorem Memory.chainPlaces_cons (m : Memory) (d : VringDesc) (ds : List VringDesc) :
    m.chainPlaces (d :: ds) = m.placesOf d ++ m.chainPlaces ds := List.flatMap_cons

variable {m m' : Memory} {q : Queue}

theorem Memory.chainPlaces_congr (base : m'.base = m.base) (ds : List VringDesc) :
    m'.chainPlaces ds = m.chainPlaces ds := by
  unfold Memory.chainPlaces Memory.placesOf
  rw [base]

/-- The bytes of the used ring that the next element takes. When the index itself is among
what is stored before, that can be any element. -/
def ringPlaces (m : Memory) (q : Queue) (stored : List Nat) : List Nat :=
  let used := q.deviceAddr - m.base
  if ∀ i ∈ stored, i < used + 2 ∨ used + 4 ≤ i then
    match usedSlot m q with
    | some (some slot) => List.range' slot.idxOff 2 ++ List.range' slot.elemOff 8
    | _ => []
  else List.range' (used + 2) (2 + 8 * q.num)

def Device.ringPlaces (dev : Device) (m : Memory) (qIdx : Nat) (stored : List Nat) : List Nat :=
  match dev.queue? qIdx with
  | none => []
  | some q => Vmm.ringPlaces m q stored

def pushUsed (m : Memory) (q : Queue) (id len : Nat) : Option Memory := do
  match ← usedSlot m q with
  | none => return m
  | some slot => return writeUsedIdx (writeUsedElem m slot id len) slot

def queuePushUsed (m : Memory) (dev : Device) (qIdx head len : Nat) : Option Memory :=
  match dev.queue? qIdx with
  | none => some m
  | some q => pushUsed m q head len

/-- A copy into a descriptor chain: what is left of each source, and whether the
chain has taken everything so far. What was written before a failure stays written. -/
structure Copy where
  mem : Memory
  rest : List Bytes
  written : Nat
  ok : Bool
  deriving DecidableEq, Repr

/-- The inner loop of a copy: fill the buffer at `addr`, `budget` bytes long, from the
sources in turn. -/
def fillBuffer (m : Memory) (addr : Nat) : List Bytes → Nat → Nat → Option Copy
  | [], _, written => some ⟨m, [], written, true⟩
  | source :: rest, budget, written =>
    if budget = 0 then some ⟨m, source :: rest, written, true⟩
    else if source = [] then fillBuffer m addr rest budget written
    else do
      let chunk := min budget source.length
      let start ← u64 addr
      match ← m.guestSlice start chunk with
      | none => return ⟨m, source :: rest, written, false⟩
      | some off =>
        let filled := m.write off (source.take chunk)
        if chunk < source.length then return ⟨filled, source.drop chunk :: rest, written + chunk, true⟩
        else fillBuffer filled (addr + chunk) rest (budget - chunk) (written + chunk)

/-- The walk of `Device.inject_rx` over a receive chain; a chain that is too short keeps
what fitted. -/
def fillFrameChain (q : Queue) : Nat → Copy → Nat → Option Copy
  | 0, copy, _ => some copy
  | steps + 1, copy, idx => do
    match ← readDescriptor copy.mem q idx with
    | none => return { copy with ok := false }
    | some desc =>
      if !desc.isWritable then return { copy with ok := false }
      else
        let filled ← fillBuffer copy.mem desc.addr copy.rest desc.len copy.written
        if filled.ok && desc.hasNext then fillFrameChain q steps filled desc.next else return filled

/-- The walk of the vsock `write_packet`: it stops when everything is written, and a
chain that is too short fails. -/
def fillPacketChain (q : Queue) : Nat → Copy → Nat → Option Copy
  | 0, copy, _ => some { copy with ok := copy.rest.all List.isEmpty }
  | steps + 1, copy, idx => do
    match ← readDescriptor copy.mem q idx with
    | none => return { copy with ok := false }
    | some desc =>
      if !desc.isWritable then return { copy with ok := false }
      else
        let filled ← fillBuffer copy.mem desc.addr copy.rest desc.len copy.written
        if !filled.ok || filled.rest.all List.isEmpty then return filled
        else if desc.hasNext then fillPacketChain q steps filled desc.next
        else return { filled with ok := false }

def nextHead (m : Memory) (q : Queue) : Option (Option Nat) := do
  match ← readAvailHeader m q with
  | none => return none
  | some availIdx => if q.lastAvailIdx = availIdx then return none else readAvailRingEntry m q q.lastAvailIdx

/-- An injection into a receive queue, with the walk that copies the packet. Net and
vsock publish in the same order: used element and index, then their own `last_avail_idx`. -/
def injectInto (walk : Queue → Nat → Copy → Nat → Option Copy) (sources : List Bytes)
    (m : Memory) (dev : Device) : Option (Memory × Device × Bool) :=
  match dev.queue? 0 with
  | none => none
  | some q =>
    if q.ready = 0 ∨ q.num = 0 then some (m, dev, false)
    else do
      match ← nextHead m q with
      | none => return (m, dev, false)
      | some head =>
        let copied ← walk q maxChainDescriptors ⟨m, sources, 0, true⟩ head
        if copied.ok then
          let published ← pushUsed copied.mem q head copied.written
          return (published, (dev.setQueue 0 q.consume).raise, true)
        else return (copied.mem, dev, false)

/-- `Device.inject_rx`: a twelve-byte header of zeros before the frame. -/
def injectRx (m : Memory) (dev : Device) (frame : Bytes) : Option (Memory × Device × Bool) :=
  if frame = [] ∨ 16 * 1024 < frame.length then none
  else injectInto fillFrameChain [zeros 12, frame] m dev

structure VsockHdr where
  srcCid : Nat
  dstCid : Nat
  srcPort : Nat
  dstPort : Nat
  len : Nat
  type : Nat
  op : Nat
  flags : Nat
  bufAlloc : Nat
  fwdCnt : Nat

def VsockHdr.encode (h : VsockHdr) : Bytes :=
  le 8 h.srcCid ++ le 8 h.dstCid ++ le 4 h.srcPort ++ le 4 h.dstPort ++ le 4 h.len ++ le 2 h.type ++
    le 2 h.op ++ le 4 h.flags ++ le 4 h.bufAlloc ++ le 4 h.fwdCnt

def rxBodyPerPacketMax : Nat := 3600

/-- `Bridge.inject_rx`: the packet header, then the body. -/
def injectVsock (m : Memory) (dev : Device) (hdr : VsockHdr) (body : Bytes) :
    Option (Memory × Device × Bool) :=
  if rxBodyPerPacketMax < body.length then none
  else injectInto fillPacketChain [hdr.encode, body] m dev

@[simp] theorem usedElem_length (id len : Nat) : (usedElem id len).length = 8 := by
  simp [usedElem]

theorem usedSlot_fits {slot : UsedSlot} (found : usedSlot m q = some (some slot)) :
    slot.elemOff + 8 ≤ m.bytes.length ∧ slot.idxOff + 2 ≤ m.bytes.length := by
  unfold usedSlot at found
  split at found
  · cases found
  · simp only [Option.bind_eq_bind, Option.bind_eq_some_iff] at found
    obtain ⟨header, header_found, found⟩ := found
    cases header with
    | none => cases found
    | some used =>
      simp only [Option.bind_eq_some_iff, Option.pure_def, Option.some.injEq,
        Option.map_eq_some_iff] at found
      obtain ⟨elemAddr, _, elem, elem_found, elemOff, rfl, rfl⟩ := found
      have header_fits := Memory.guestSlice_fits header_found
      exact ⟨Memory.guestSlice_fits elem_found, by simp only; omega⟩

theorem usedSlot_within {slot : UsedSlot} (found : usedSlot m q = some (some slot)) :
    List.range' slot.idxOff 2 ++ List.range' slot.elemOff 8 ⊆
      List.range' (q.deviceAddr - m.base + 2) (2 + 8 * q.num) := by
  unfold usedSlot at found
  split at found
  · cases found
  · rename_i some_
    simp only [Option.bind_eq_bind, Option.bind_eq_some_iff] at found
    obtain ⟨header, header_found, found⟩ := found
    cases header with
    | none => cases found
    | some used =>
      simp only [Option.bind_eq_some_iff, Option.pure_def, Option.some.injEq,
        Option.map_eq_some_iff] at found
      obtain ⟨elemAddr, address, elem, elem_found, elemOff, rfl, rfl⟩ := found
      have above : m.base ≤ q.deviceAddr := by
        by_contra below
        unfold Memory.guestSlice at header_found
        rw [if_pos (Nat.lt_of_not_le below)] at header_found
        cases header_found
      have elem_eq : elemAddr = q.deviceAddr + 4 + toNat (slice m.bytes (used + 2) 2) % q.num * 8 := by
        unfold u64 at address
        split at address
        · exact (Option.some.inj address).symm
        · cases address
      have index := Nat.mod_lt (toNat (slice m.bytes (used + 2) 2)) (Nat.pos_of_ne_zero some_)
      have header_off := Memory.guestSlice_off header_found
      have elem_off := Memory.guestSlice_off elem_found
      intro i listed
      simp only [List.mem_append, List.mem_range'_1] at listed ⊢
      omega

theorem usedSlot_congr (base : m'.base = m.base) (length : m'.bytes.length = m.bytes.length)
    (index : slice m'.bytes (q.deviceAddr - m.base + 2) 2 = slice m.bytes (q.deviceAddr - m.base + 2) 2) :
    usedSlot m' q = usedSlot m q := by
  have sliced : m'.guestSlice = m.guestSlice := by
    funext addr len
    unfold Memory.guestSlice
    rw [base, length]
  unfold usedSlot
  rw [sliced]
  split
  · rfl
  · cases found : m.guestSlice q.deviceAddr 4 with
    | none => rfl
    | some header =>
      cases header with
      | none => rfl
      | some used =>
        obtain rfl := Memory.guestSlice_off found
        dsimp only [bind, Option.bind]
        rw [index]

theorem pushUsed_storesAt {before : Memory} {id len : Nat} {stored : List Nat}
    (stores : before.StoresAt m stored) (pushed : pushUsed m q id len = some m') :
    before.StoresAt m' (stored ++ ringPlaces before q stored) := by
  simp only [pushUsed, Option.bind_eq_bind, Option.bind_eq_some_iff] at pushed
  obtain ⟨found, slot_found, pushed⟩ := pushed
  cases found with
  | none =>
    obtain rfl := Option.some.inj pushed
    exact stores.mono (List.subset_append_left _ _)
  | some slot =>
    obtain rfl := Option.some.inj pushed
    have fits := usedSlot_fits slot_found
    have elem : m.StoresAt (writeUsedElem m slot id len) (List.range' slot.elemOff 8) := by
      rw [← usedElem_length id len]
      exact Memory.StoresAt.write (by simpa using fits.1)
    have index : (writeUsedElem m slot id len).StoresAt
        (writeUsedIdx (writeUsedElem m slot id len) slot) (List.range' slot.idxOff 2) := by
      rw [← le_length 2 slot.nextIdx]
      exact Memory.StoresAt.write (by simpa [writeUsedElem] using fits.2)
    have ring : List.range' slot.idxOff 2 ++ List.range' slot.elemOff 8 ⊆ ringPlaces before q stored := by
      have ext := stores
      obtain ⟨added, ext, -⟩ := ext
      unfold ringPlaces
      dsimp only
      split
      · rename_i apart
        have same : usedSlot m q = usedSlot before q := by
          refine usedSlot_congr ext.base_eq ext.length_eq (List.ext_getElem? fun k => ?_)
          rw [slice_getElem?, slice_getElem?]
          split
          · refine stores.outside fun hit => ?_
            have missed := apart _ hit
            omega
          · rfl
        rw [← same, slot_found]
        exact List.Subset.refl _
      · rw [← ext.base_eq]
        exact usedSlot_within slot_found
    refine stores.trans (elem.trans index ?_ ?_) (List.subset_append_left _ _) (List.subset_append_right _ _)
    · exact fun i listed => ring (List.mem_append_right _ listed)
    · exact fun i listed => ring (List.mem_append_left _ listed)

theorem queuePushUsed_storesAt {before : Memory} {dev : Device} {qIdx head len : Nat} {stored : List Nat}
    (stores : before.StoresAt m stored) (pushed : queuePushUsed m dev qIdx head len = some m') :
    before.StoresAt m' (stored ++ dev.ringPlaces before qIdx stored) := by
  unfold queuePushUsed at pushed
  unfold Device.ringPlaces
  split at pushed
  · rw [List.append_nil]
    exact (Option.some.inj pushed) ▸ stores
  · exact pushUsed_storesAt stores pushed

theorem pushUsed_deviceOnly {id len : Nat} (pushed : pushUsed m q id len = some m') : m.DeviceOnly m' :=
  (pushUsed_storesAt (Memory.StoresAt.refl m []) pushed).deviceOnly

theorem fillBuffer_deviceOnly {addr budget written : Nat} {sources : List Bytes} {copy : Copy}
    (filled : fillBuffer m addr sources budget written = some copy) : m.DeviceOnly copy.mem := by
  induction sources generalizing m addr budget written with
  | nil => exact (Option.some.inj filled) ▸ Memory.DeviceOnly.refl m
  | cons source rest ih =>
    unfold fillBuffer at filled
    split at filled
    · exact (Option.some.inj filled) ▸ Memory.DeviceOnly.refl m
    · split at filled
      · exact ih filled
      · simp only [Option.bind_eq_bind, Option.bind_eq_some_iff] at filled
        obtain ⟨start, _, found, slice_found, filled⟩ := filled
        cases found with
        | none => exact (Option.some.inj filled) ▸ Memory.DeviceOnly.refl m
        | some off =>
          have fits := Memory.guestSlice_fits slice_found
          have one : m.DeviceOnly (m.write off (source.take (min budget source.length))) :=
            Memory.DeviceOnly.write (by simp only [List.length_take]; omega)
          simp only at filled
          split at filled
          · exact (Option.some.inj filled) ▸ one
          · exact one.trans (ih filled)

def WalkDeviceOnly (walk : Queue → Nat → Copy → Nat → Option Copy) : Prop :=
  ∀ q steps copy idx copy', walk q steps copy idx = some copy' → copy.mem.DeviceOnly copy'.mem

theorem fillFrameChain_deviceOnly : WalkDeviceOnly fillFrameChain := by
  intro q steps
  induction steps with
  | zero =>
    intro copy idx copy' walked
    exact (Option.some.inj walked) ▸ Memory.DeviceOnly.refl _
  | succ steps ih =>
    intro copy idx copy' walked
    simp only [fillFrameChain, Option.bind_eq_bind, Option.bind_eq_some_iff] at walked
    obtain ⟨found, _, walked⟩ := walked
    cases found with
    | none => exact (Option.some.inj walked) ▸ Memory.DeviceOnly.refl _
    | some desc =>
      simp only at walked
      split at walked
      · exact (Option.some.inj walked) ▸ Memory.DeviceOnly.refl _
      · obtain ⟨filled, fill, walked⟩ := Option.bind_eq_some_iff.mp walked
        have one := fillBuffer_deviceOnly fill
        split at walked
        · exact one.trans (ih filled desc.next copy' walked)
        · exact (Option.some.inj walked) ▸ one

theorem fillPacketChain_deviceOnly : WalkDeviceOnly fillPacketChain := by
  intro q steps
  induction steps with
  | zero =>
    intro copy idx copy' walked
    exact (Option.some.inj walked) ▸ Memory.DeviceOnly.refl _
  | succ steps ih =>
    intro copy idx copy' walked
    simp only [fillPacketChain, Option.bind_eq_bind, Option.bind_eq_some_iff] at walked
    obtain ⟨found, _, walked⟩ := walked
    cases found with
    | none => exact (Option.some.inj walked) ▸ Memory.DeviceOnly.refl _
    | some desc =>
      simp only at walked
      split at walked
      · exact (Option.some.inj walked) ▸ Memory.DeviceOnly.refl _
      · obtain ⟨filled, fill, walked⟩ := Option.bind_eq_some_iff.mp walked
        have one := fillBuffer_deviceOnly fill
        split at walked
        · exact (Option.some.inj walked) ▸ one
        · split at walked
          · exact one.trans (ih filled desc.next copy' walked)
          · exact (Option.some.inj walked) ▸ one

theorem injectInto_deviceOnly {walk : Queue → Nat → Copy → Nat → Option Copy}
    (through_device : WalkDeviceOnly walk) {sources : List Bytes} {dev dev' : Device} {delivered : Bool}
    (injected : injectInto walk sources m dev = some (m', dev', delivered)) : m.DeviceOnly m' := by
  unfold injectInto at injected
  split at injected
  · cases injected
  · rename_i q _
    split at injected
    · cases injected
      exact Memory.DeviceOnly.refl m
    · simp only [Option.bind_eq_bind, Option.bind_eq_some_iff] at injected
      obtain ⟨found, _, injected⟩ := injected
      cases found with
      | none =>
        cases injected
        exact Memory.DeviceOnly.refl m
      | some head =>
        simp only [Option.bind_eq_some_iff] at injected
        obtain ⟨copied, walked, injected⟩ := injected
        have copied_only : m.DeviceOnly copied.mem := through_device q _ _ head copied walked
        split at injected
        · obtain ⟨published, pushed, injected⟩ := Option.bind_eq_some_iff.mp injected
          cases injected
          exact copied_only.trans (pushUsed_deviceOnly pushed)
        · cases injected
          exact copied_only

end Machinen.Vmm
