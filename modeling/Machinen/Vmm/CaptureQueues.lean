import Machinen.Vmm.Injection
import Machinen.Vmm.RamDump

/-! Captured RAM and captured queues under injections.
The capture reads RAM page by page and the devices' queues after that, while the
background threads go on injecting; no lock is common to both sides. -/
namespace Machinen.Vmm

open Bytes

/-- A capture so far. A delta capture takes the pages that are not selected from its parent. -/
structure Capture where
  selected : Nat → Bool
  parent : Bytes
  saved : Bytes
  dumped : List (List Queue)

/-- The thread that completes the chains of a queue, and the used elements that it has stored.
It is a background thread, or the vCPU's, which is also the one that captures. -/
structure Lane where
  background : Bool
  phase : Phase
  log : List (Nat × Nat)

structure Wired where
  dev : Device
  lanes : List Lane

def Wired.put (w : Wired) (k : Nat) (port : Port) : Wired where
  dev := port.dev
  lanes := w.lanes.modify k fun lane => { lane with phase := port.phase, log := port.log }

structure Machine where
  mem : Memory
  devices : List Wired
  capture : Option Capture

inductive CaptureStep where
  | inject (p k : Nat) (micro : Micro)
  | other (off : Nat) (data : Bytes)
  | capture (selected : Nat → Bool) (parent : Bytes)
  | encode
  | dump

def Capture.page (c : Capture) (m : Memory) (k : Nat) : Bytes :=
  slice (if c.selected k then m.bytes else c.parent) (k * PAGE) PAGE

def Capture.finished (c : Capture) (devices : List Wired) : Bool := devices.length ≤ c.dumped.length

def Machine.port? (s : Machine) (p k : Nat) : Option Port := do
  let w ← s.devices[p]?
  let lane ← w.lanes[k]?
  return ⟨w.dev, lane.phase, lane.log⟩

/-- The thread of a lane can run: the vCPU's own does nothing else while it captures. -/
def Machine.runs (s : Machine) (p k : Nat) : Bool :=
  ((s.devices[p]?.bind fun w => w.lanes[k]?).any Lane.background) ||
    s.capture.all fun c => c.finished s.devices

def Machine.encodedAt (s : Machine) (off : Nat) : Bool :=
  match s.capture with
  | none => false
  | some c => off + 2 ≤ c.saved.length

def Machine.elemStore (s : Machine) (p k : Nat) : Option Nat := do
  let port ← s.port? p k
  let q ← port.dev.queue? k
  let slot ← (usedSlot s.mem q).join
  return slot.elemOff

def Machine.idxStore (s : Machine) (p k : Nat) : Option Nat :=
  match s.port? p k with
  | some ⟨_, .elemWritten slot, _⟩ => some slot.idxOff
  | _ => none

def Phase.settle : Phase → Phase
  | .idxWritten _ => .idxWritten true
  | phase => phase

def Wired.settle (w : Wired) : Wired :=
  { w with lanes := w.lanes.map fun lane => { lane with phase := lane.phase.settle } }

def Machine.step (s : Machine) : CaptureStep → Option Machine
  | .inject p k micro =>
    match s.devices[p]?, s.port? p k with
    | some w, some port =>
      if s.runs p k then
        (injectStep k s.encodedAt s.mem port micro).map fun r =>
          { s with mem := r.1, devices := s.devices.set p (w.put k r.2) }
      else none
    | _, _ => none
  | .other off data =>
    if off + data.length ≤ s.mem.bytes.length then some { s with mem := s.mem.write off data } else none
  | .capture selected parent =>
    if (s.capture.all fun c => c.finished s.devices) ∧ parent.length = s.mem.bytes.length ∧
        (∀ w ∈ s.devices, ∀ lane ∈ w.lanes, lane.background = true ∨ lane.phase = .idle) then
      some { s with devices := s.devices.map Wired.settle, capture := some ⟨selected, parent, [], []⟩ }
    else none
  | .encode =>
    match s.capture with
    | none => none
    | some c =>
      if c.saved.length < s.mem.bytes.length then
        some { s with capture := some { c with saved := c.saved ++ c.page s.mem (c.saved.length / PAGE) } }
      else none
  | .dump =>
    match s.capture with
    | none => none
    | some c =>
      match s.devices[c.dumped.length]? with
      | some w =>
        if s.mem.bytes.length ≤ c.saved.length then
          some { s with capture := some { c with dumped := c.dumped ++ [w.dev.queues] } }
        else none
      | none => none

/-- One queue of a device: where its used ring lies, and the two indices that the run starts
from. -/
structure Ring where
  device : Nat
  queue : Nat
  off : Nat
  num : Nat
  usedIdx : Nat
  availIdx : Nat

namespace Ring

variable (r : Ring)

def slotOf (i : Nat) : Nat := (r.usedIdx + i) % 65536 % r.num
def elemOff (i : Nat) : Nat := r.off + 4 + r.slotOf i * 8
def size : Nat := 4 + r.num * 8

def apart (off len : Nat) : Prop := off + len ≤ r.off ∨ r.off + r.size ≤ off

instance (off len : Nat) : Decidable (r.apart off len) := inferInstanceAs (Decidable (_ ∨ _))

/-- The saved index of the queue, the saved used index and the saved used elements count
the same chains of the log. An element is compared while no later one shares its slot. -/
def Agrees (log : List (Nat × Nat)) (c : Capture) : Prop :=
  ∃ n queues q, c.dumped[r.device]? = some queues ∧ queues[r.queue]? = some q ∧ n ≤ log.length ∧
    q.lastAvailIdx = (r.availIdx + n) % 65536 ∧
    HoldsAt c.saved (r.off + 2) (le 2 ((r.usedIdx + n) % 65536)) ∧
    ∀ i e, i < n → log[i]? = some e → (∀ j, i < j → j ≤ n → r.slotOf j ≠ r.slotOf i) →
      HoldsAt c.saved (r.elemOff i) (usedElem e.1 e.2)

/-- A state in which the queue is set up, no chain of it is under way and no capture either. -/
structure Start (s : Machine) : Prop where
  port : ∃ port q, s.port? r.device r.queue = some port ∧ port.phase = .idle ∧ port.log = [] ∧
    port.dev.queue? r.queue = some q ∧ q.deviceAddr = s.mem.base + r.off ∧ q.num = r.num ∧
    q.lastAvailIdx = r.availIdx
  positive : 0 < r.num
  aligned : 2 ∣ r.off
  inside : r.off + r.size ≤ s.mem.bytes.length
  paged : PAGE ∣ s.mem.bytes.length
  word : s.mem.base + s.mem.bytes.length < 2 ^ 64
  idx : HoldsAt s.mem.bytes (r.off + 2) (le 2 r.usedIdx)
  usedIdx_lt : r.usedIdx < 65536
  availIdx_lt : r.availIdx < 65536
  quiet : s.capture = none

def own (p k : Nat) : Prop := p = r.device ∧ k = r.queue

instance (p k : Nat) : Decidable (r.own p k) := inferInstanceAs (Decidable (_ ∧ _))

/-- The order that a capture needs. Nothing but the queue's own thread stores into the
used ring, the ring's pages are part of the capture, and an injection's index store comes
before the encoding of its page exactly when its `last_avail_idx` is bumped before the dump. -/
def Ordered (s : Machine) : CaptureStep → Prop
  | .inject _ _ (.copy addr data) => r.apart (addr - s.mem.base) data.length
  | .inject p k (.elem _) => r.own p k ∨ (s.elemStore p k).all (fun off => r.apart off 8) = true
  | .inject p k .idx => r.own p k ∨ (s.idxStore p k).all (fun off => r.apart off 2) = true
  | .inject p k .bump => r.own p k → (s.capture.any fun c => c.dumped.length ≤ r.device) →
      (s.port? p k).map Port.phase ≠ some (.idxWritten false)
  | .other off data => r.apart off data.length
  | .capture selected _ => ∀ x, x < r.off + r.size → r.off ≤ x → selected (x / PAGE) = true
  | .dump => (s.capture.any fun c => c.dumped.length = r.device) →
      (s.port? r.device r.queue).map Port.phase ≠ some (.idxWritten true)
  | .inject _ _ .start => True
  | .inject _ _ .fail => True
  | .encode => True

instance (s : Machine) : (a : CaptureStep) → Decidable (r.Ordered s a)
  | .inject _ _ (.copy _ _) => inferInstanceAs (Decidable (r.apart _ _))
  | .inject _ _ (.elem _) => inferInstanceAs (Decidable (_ ∨ _))
  | .inject _ _ .idx => inferInstanceAs (Decidable (_ ∨ _))
  | .inject _ _ .bump => inferInstanceAs (Decidable (_ → _ → _))
  | .other _ _ => inferInstanceAs (Decidable (r.apart _ _))
  | .capture _ _ => inferInstanceAs (Decidable (∀ x, x < _ → _))
  | .dump => inferInstanceAs (Decidable (_ → _))
  | .inject _ _ .start => isTrue trivial
  | .inject _ _ .fail => isTrue trivial
  | .encode => isTrue trivial

end Ring

/-- How many injections of the log have bumped `last_avail_idx`, and stored their index. -/
def Port.bumped (port : Port) : Nat :=
  match port.phase with
  | .elemWritten _ => port.log.length - 1
  | .idxWritten _ => port.log.length - 1
  | _ => port.log.length

def Port.published (port : Port) : Nat :=
  match port.phase with
  | .elemWritten _ => port.log.length - 1
  | _ => port.log.length

namespace Ring

structure Geometry (r : Ring) (base len : Nat) : Prop where
  positive : 0 < r.num
  aligned : 2 ∣ r.off
  inside : r.off + r.size ≤ len
  paged : PAGE ∣ len
  word : base + len < 2 ^ 64

theorem Geometry.elem_inside {r : Ring} {base len : Nat} (geo : Geometry r base len) (i : Nat) :
    r.off + 4 ≤ r.elemOff i ∧ r.elemOff i + 8 ≤ r.off + r.size := by
  have slot_lt : r.slotOf i < r.num := Nat.mod_lt _ geo.positive
  unfold elemOff size
  omega

structure Live (r : Ring) (base len : Nat) (m : Memory) (port : Port) : Prop where
  base_eq : m.base = base
  length_eq : m.bytes.length = len
  queue : ∃ q, port.dev.queue? r.queue = some q ∧ q.deviceAddr = base + r.off ∧ q.num = r.num ∧
    q.lastAvailIdx = (r.availIdx + port.bumped) % 65536
  idx : HoldsAt m.bytes (r.off + 2) (le 2 ((r.usedIdx + port.published) % 65536))
  elems : ∀ i e, port.log[i]? = some e →
    (∀ j, i < j → j < port.log.length → r.slotOf j ≠ r.slotOf i) →
    HoldsAt m.bytes (r.elemOff i) (usedElem e.1 e.2)
  slot : ∀ slot, port.phase = .elemWritten slot →
    slot.idxOff = r.off + 2 ∧ slot.nextIdx = (r.usedIdx + port.log.length) % 65536
  counted : port.bumped < port.log.length ∨ port.bumped = port.log.length ∧
    ∀ slot early, port.phase ≠ .elemWritten slot ∧ port.phase ≠ .idxWritten early
  published : port.phase ≠ .unpublished

variable {r : Ring} {base len : Nat} {m : Memory} {port : Port}

theorem Live.store_apart (geo : Geometry r base len) (live : Live r base len m port) {off : Nat}
    {data : Bytes} (outside : r.apart off data.length) : Live r base len (m.write off data) port := by
  unfold apart at outside
  refine { live with length_eq := ?_, idx := ?_, elems := ?_ }
  · simpa only [Memory.write_bytes, store_length] using live.length_eq
  · apply live.idx.store_outside
    rw [le_length]
    have := geo.elem_inside 0
    omega
  · intro i e logged alone
    apply (live.elems i e logged alone).store_outside
    rw [usedElem_length]
    have := geo.elem_inside i
    omega

/-- Where `push_used` will write for the next injection. -/
theorem Live.usedSlot_eq (geo : Geometry r base len) (live : Live r base len m port) {q : Queue}
    (known : port.dev.queue? r.queue = some q) {head : Nat} (copying : port.phase = .copying head) :
    usedSlot m q = some (some
      ⟨r.elemOff port.log.length, r.off + 2, (r.usedIdx + (port.log.length + 1)) % 65536⟩) := by
  obtain ⟨q', known', addr_eq, num_eq, _⟩ := live.queue
  obtain rfl : q' = q := Option.some.inj (known'.symm.trans known)
  have word := geo.word
  have inside := geo.inside
  have ram_word : m.bytes.length < 2 ^ 64 := by rw [live.length_eq]; omega
  have not_zero : q'.num ≠ 0 := by rw [num_eq]; exact Nat.ne_of_gt geo.positive
  have elem := geo.elem_inside port.log.length
  have header : m.guestSlice q'.deviceAddr 4 = some (some r.off) := by
    rw [addr_eq, ← live.base_eq]
    exact Memory.guestSlice_inside ram_word (by rw [live.length_eq]; omega)
  have idx_eq : toNat (slice m.bytes (r.off + 2) 2) = (r.usedIdx + port.log.length) % 65536 := by
    have held := live.idx.slice_eq
    rw [le_length] at held
    have small : (r.usedIdx + port.published) % 65536 < 256 ^ 2 := Nat.mod_lt _ (by decide)
    rw [held, toNat_le 2 _ small]
    simp only [Port.published, copying]
  have addr : q'.deviceAddr + 4 + (r.usedIdx + port.log.length) % 65536 % q'.num * 8 =
      m.base + r.elemOff port.log.length := by
    rw [addr_eq, num_eq, live.base_eq]
    unfold elemOff slotOf
    omega
  have small : m.base + r.elemOff port.log.length < 2 ^ 64 := by rw [live.base_eq]; omega
  have fits : r.elemOff port.log.length + 8 ≤ m.bytes.length := by rw [live.length_eq]; omega
  have found := Memory.guestSlice_inside ram_word fits
  have next_eq : ((r.usedIdx + port.log.length) % 65536 + 1) % 65536 =
      (r.usedIdx + (port.log.length + 1)) % 65536 := by omega
  unfold usedSlot
  rw [if_neg not_zero]
  simp only [header, Option.bind_eq_bind, Option.bind_some, idx_eq, addr, u64, if_pos small, found,
    Option.pure_def, Option.map_some, next_eq]

def Calm (phase : Phase) : Prop := phase = .idle ∨ ∃ head, phase = .copying head

theorem Calm.counts {port : Port} (calm : Calm port.phase) :
    port.bumped = port.log.length ∧ port.published = port.log.length := by
  unfold Port.bumped Port.published
  rcases calm with idle | ⟨head, copying⟩
  · simp only [idle, and_self]
  · simp only [copying, and_self]

inductive Moves (r : Ring) (encoded : Nat → Bool) (micro : Micro) (port port' : Port) : Prop where
  | calm (log_eq : port'.log = port.log) (before : Calm port.phase) (after : Calm port'.phase)
  | elem (slot : UsedSlot) (entry : Nat × Nat) (log_eq : port'.log = port.log ++ [entry])
      (before : Calm port.phase) (after : port'.phase = .elemWritten slot)
  | idx (slot : UsedSlot) (log_eq : port'.log = port.log) (before : port.phase = .elemWritten slot)
      (after : port'.phase = .idxWritten (!encoded (r.off + 2)))
  | bump (early : Bool) (bumps : micro = .bump) (log_eq : port'.log = port.log)
      (before : port.phase = .idxWritten early) (after : port'.phase = .idle)

theorem Live.calm (live : Live r base len m port) {phase : Phase} (before : Calm port.phase)
    (after : Calm phase) : Live r base len m { port with phase := phase } := by
  have old := before.counts
  have new := (show Calm ({ port with phase := phase } : Port).phase from after).counts
  have counts : ({ port with phase := phase } : Port).bumped = port.bumped ∧
      ({ port with phase := phase } : Port).published = port.published :=
    ⟨new.1.trans old.1.symm, new.2.trans old.2.symm⟩
  refine { live with queue := ?_, idx := ?_, slot := ?_, counted := ?_, published := ?_ }
  · rw [counts.1]
    exact live.queue
  · rw [counts.2]
    exact live.idx
  · intro slot written
    rcases after with idle | ⟨head, copying⟩ <;> simp_all
  · refine .inr ⟨new.1, fun slot early => ?_⟩
    rcases after with idle | ⟨head, copying⟩ <;> simp_all
  · rcases after with idle | ⟨head, copying⟩ <;> simp_all

theorem Live.elem (geo : Geometry r base len) (live : Live r base len m port) {head size : Nat}
    (copying : port.phase = .copying head) :
    let slot : UsedSlot := ⟨r.elemOff port.log.length, r.off + 2,
      (r.usedIdx + (port.log.length + 1)) % 65536⟩
    Live r base len (writeUsedElem m slot head size)
      { port with phase := .elemWritten slot, log := port.log ++ [(head, size)] } := by
  intro slot
  have slot_off : slot.elemOff = r.elemOff port.log.length := rfl
  have counts := (show Calm port.phase from .inr ⟨head, copying⟩).counts
  have place := geo.elem_inside port.log.length
  have inside := geo.inside
  have length_eq := live.length_eq
  constructor
  · exact live.base_eq
  · simpa only [writeUsedElem, Memory.write_bytes, store_length] using live.length_eq
  · have old := live.queue
    rw [counts.1] at old
    simpa only [Port.bumped, List.length_append, List.length_singleton, Nat.add_sub_cancel] using old
  · have old := live.idx
    rw [counts.2] at old
    simp only [Port.published, List.length_append, List.length_singleton, Nat.add_sub_cancel]
    apply old.store_outside
    rw [le_length]
    exact .inr place.1
  · intro i e logged alone
    have elem_length := usedElem_length head size
    simp only [List.length_append, List.length_singleton] at alone
    by_cases last : i = port.log.length
    · subst i
      rw [List.getElem?_append_right (Nat.le_refl _), Nat.sub_self] at logged
      obtain rfl := Option.some.inj logged
      apply holdsAt_store
      rw [elem_length, slot_off]
      omega
    · have earlier : i < port.log.length := by
        have := List.getElem?_eq_some_iff.mp logged
        simp only [List.length_append, List.length_singleton] at this
        obtain ⟨bound, _⟩ := this
        omega
      rw [List.getElem?_append_left earlier] at logged
      have other := alone port.log.length earlier (by omega)
      apply (live.elems i e logged (fun j low high => alone j low (by omega))).store_outside
      rw [elem_length, usedElem_length, slot_off]
      unfold elemOff
      omega
  · intro written same
    cases same
    simp [slot]
  · refine .inl ?_
    simp [Port.bumped]
  · simp

theorem Live.publish (geo : Geometry r base len) (live : Live r base len m port) {slot : UsedSlot}
    (written : port.phase = .elemWritten slot) (early : Bool) :
    Live r base len (writeUsedIdx m slot) { port with phase := .idxWritten early } := by
  obtain ⟨off_eq, next_eq⟩ := live.slot slot written
  have inside := geo.inside
  have length_eq := live.length_eq
  have header := geo.elem_inside 0
  have some_logged : 0 < port.log.length := by
    rcases live.counted with less | ⟨_, calm⟩
    · omega
    · exact absurd written (calm slot early).1
  constructor
  · exact live.base_eq
  · simpa only [writeUsedIdx, Memory.write_bytes, store_length] using live.length_eq
  · have old := live.queue
    simpa only [Port.bumped, written] using old
  · simp only [Port.published, writeUsedIdx, Memory.write_bytes, off_eq, next_eq]
    apply holdsAt_store
    rw [le_length]
    omega
  · intro i e logged alone
    have place := geo.elem_inside i
    apply (live.elems i e logged alone).store_outside
    rw [le_length, off_eq]
    omega
  · intro other same
    cases same
  · refine .inl ?_
    simp only [Port.bumped]
    omega
  · simp

theorem queue?_consume {dev : Device} {k : Nat} {q : Queue} (known : dev.queue? k = some q) :
    (dev.setQueue k q.consume).raise.queue? k = some q.consume := by
  unfold Device.queue? at known ⊢
  split at known
  · rename_i small
    rw [if_pos small]
    exact List.getElem?_set_self (List.getElem?_eq_some_iff.mp known).1
  · cases known

theorem queue?_consume_ne (dev : Device) {k j : Nat} (other : k ≠ j) (q : Queue) :
    (dev.setQueue k q.consume).raise.queue? j = dev.queue? j := by
  unfold Device.queue? Device.setQueue Device.raise
  dsimp only
  rw [List.getElem?_set_ne other]

theorem Live.consume (live : Live r base len m port) {q : Queue}
    (known : port.dev.queue? r.queue = some q) {early : Bool} (stored : port.phase = .idxWritten early) :
    Live r base len m (port.consume r.queue q) := by
  obtain ⟨q', known', addr_eq, num_eq, avail_eq⟩ := live.queue
  obtain rfl : q' = q := Option.some.inj (known'.symm.trans known)
  have some_logged : 0 < port.log.length := by
    rcases live.counted with less | ⟨_, calm⟩
    · omega
    · exact absurd stored (calm ⟨0, 0, 0⟩ early).2
  refine { live with queue := ?_, idx := ?_, slot := ?_, counted := ?_, published := ?_ }
  · refine ⟨q'.consume, queue?_consume known, addr_eq, num_eq, ?_⟩
    simp only [Port.bumped, stored] at avail_eq
    simp only [Port.bumped, Port.consume, Queue.consume, avail_eq]
    omega
  · have old := live.idx
    simpa only [Port.published, Port.consume, stored] using old
  · intro slot same
    cases same
  · exact .inr ⟨rfl, fun slot early => by simp [Port.consume]⟩
  · simp [Port.consume]

theorem Live.micro (geo : Geometry r base len) (live : Live r base len m port) {encoded : Nat → Bool}
    {micro : Micro} {m' : Memory} {port' : Port}
    (copies_apart : ∀ addr data, micro = .copy addr data → r.apart (addr - m.base) data.length)
    (stepped : injectStep r.queue encoded m port micro = some (m', port')) :
    Live r base len m' port' ∧ Moves r encoded micro port port' := by
  cases micro with
  | start =>
    simp only [injectStep] at stepped
    split at stepped
    · rename_i idle _
      split at stepped
      · cases stepped
      · split at stepped
        · rename_i head _
          cases stepped
          exact ⟨live.calm (.inl idle) (.inr ⟨head, rfl⟩), .calm rfl (.inl idle) (.inr ⟨head, rfl⟩)⟩
        · cases stepped
    · cases stepped
  | copy addr data =>
    simp only [injectStep] at stepped
    split at stepped
    · rename_i head off copying found
      cases stepped
      have off_eq := Memory.guestSlice_off found
      have outside := copies_apart addr data rfl
      rw [← off_eq] at outside
      exact ⟨live.store_apart geo outside, .calm rfl (.inr ⟨head, copying⟩) (.inr ⟨head, copying⟩)⟩
    · cases stepped
  | fail =>
    simp only [injectStep] at stepped
    split at stepped
    · rename_i head copying
      cases stepped
      exact ⟨live.calm (.inr ⟨head, copying⟩) (.inl rfl), .calm rfl (.inr ⟨head, copying⟩) (.inl rfl)⟩
    · cases stepped
  | elem size =>
    simp only [injectStep] at stepped
    split at stepped
    · rename_i head q copying known
      rw [live.usedSlot_eq geo known copying] at stepped
      cases stepped
      exact ⟨live.elem geo copying, .elem _ _ rfl (.inr ⟨head, copying⟩) rfl⟩
    · cases stepped
  | idx =>
    simp only [injectStep] at stepped
    split at stepped
    · rename_i slot written
      cases stepped
      refine ⟨live.publish geo written _, .idx slot rfl written ?_⟩
      rw [(live.slot slot written).1]
    · cases stepped
  | bump =>
    simp only [injectStep] at stepped
    split at stepped
    · rename_i early q stored known
      cases stepped
      exact ⟨live.consume known stored, .bump early rfl rfl stored rfl⟩
    · rename_i q skipped known
      exact absurd skipped live.published
    · cases stepped

/-- How far the device may be ahead of the saved index while its dump is still to come. -/
def Pending (n : Nat) (port : Port) : Prop :=
  (Calm port.phase ∧ n = port.log.length) ∨
    ((∃ slot, port.phase = .elemWritten slot) ∧ n + 1 = port.log.length) ∨
    (port.phase = .idxWritten true ∧ n = port.log.length) ∨
    (port.phase = .idxWritten false ∧ n + 1 = port.log.length)

/-- The saved ring counts the first `n` chains of the log. -/
structure Cut (r : Ring) (c : Capture) (port : Port) (n : Nat) : Prop where
  counted : n ≤ port.log.length
  idx : HoldsAt c.saved (r.off + 2) (le 2 ((r.usedIdx + n) % 65536))
  elems : ∀ i e, i < n → port.log[i]? = some e →
    (∀ j, i < j → j ≤ n → r.slotOf j ≠ r.slotOf i) →
    ∀ t, t < 8 → r.elemOff i + t < c.saved.length →
      c.saved[r.elemOff i + t]? = (usedElem e.1 e.2)[t]?
  pending : c.dumped.length ≤ r.device → Pending n port
  dumped : r.device < c.dumped.length → ∃ queues q, c.dumped[r.device]? = some queues ∧
    queues[r.queue]? = some q ∧ q.lastAvailIdx = (r.availIdx + n) % 65536

structure Saved (r : Ring) (len : Nat) (c : Capture) (port : Port) : Prop where
  paged : PAGE ∣ c.saved.length
  bounded : c.saved.length ≤ len
  parent : c.parent.length = len
  selected : ∀ x, x < r.off + r.size → r.off ≤ x → c.selected (x / PAGE) = true
  unread : c.saved.length < r.off + 4 → port.phase ≠ .idxWritten false
  order : c.dumped ≠ [] → c.saved.length = len
  cut : r.off + 4 ≤ c.saved.length → ∃ n, Cut r c port n

variable {c : Capture} {port' : Port} {n : Nat}

theorem Pending.moves {encoded : Nat → Bool} {micro : Micro} (passed : encoded (r.off + 2) = true)
    (pending : Pending n port) (moves : Moves r encoded micro port port')
    (early_only : micro = .bump → port.phase ≠ .idxWritten false) : Pending n port' := by
  cases moves with
  | calm log_eq before after =>
    unfold Pending at pending
    have := before
    rcases before with idle | ⟨head, copying⟩
    · simp_all [Pending]
    · simp_all [Pending]
  | elem slot entry log_eq before after =>
    have counts : n = port.log.length := by
      rcases pending with ⟨_, all⟩ | ⟨⟨_, other⟩, _⟩ | ⟨other, _⟩ | ⟨other, _⟩
      · exact all
      all_goals rcases before with idle | ⟨head, copying⟩ <;> simp_all
    refine .inr (.inl ⟨⟨slot, after⟩, ?_⟩)
    rw [log_eq, List.length_append, List.length_singleton, counts]
  | idx slot log_eq before after =>
    have counts : n + 1 = port.log.length := by
      rcases pending with ⟨calm, _⟩ | ⟨_, all⟩ | ⟨other, _⟩ | ⟨other, _⟩
      · rcases calm with idle | ⟨head, copying⟩ <;> simp_all
      · exact all
      all_goals simp_all
    refine .inr (.inr (.inr ⟨?_, by rw [log_eq]; exact counts⟩))
    rw [after, passed, Bool.not_true]
  | bump early bumps log_eq before after =>
    have counts : n = port.log.length := by
      rcases pending with ⟨_, all⟩ | ⟨⟨_, other⟩, _⟩ | ⟨_, all⟩ | ⟨late, _⟩
      · exact all
      · simp_all
      · exact all
      · exact absurd late (early_only bumps)
    exact .inl ⟨.inl after, by rw [log_eq]; exact counts⟩

theorem Moves.log_prefix {encoded : Nat → Bool} {micro : Micro}
    (moves : Moves r encoded micro port port') : ∃ more, port'.log = port.log ++ more := by
  cases moves with
  | calm log_eq => exact ⟨[], by rw [log_eq, List.append_nil]⟩
  | elem slot entry log_eq => exact ⟨[entry], log_eq⟩
  | idx slot log_eq => exact ⟨[], by rw [log_eq, List.append_nil]⟩
  | bump early bumps log_eq => exact ⟨[], by rw [log_eq, List.append_nil]⟩

theorem Saved.moves {encoded : Nat → Bool} {micro : Micro} (saved : Saved r len c port)
    (encoded_eq : encoded (r.off + 2) = decide (r.off + 2 + 2 ≤ c.saved.length))
    (moves : Moves r encoded micro port port')
    (early_only : micro = .bump → c.dumped.length ≤ r.device → port.phase ≠ .idxWritten false) :
    Saved r len c port' := by
  refine { saved with unread := ?_, cut := ?_ }
  · intro unread
    have before := saved.unread unread
    cases moves with
    | calm _ _ after => rcases after with idle | ⟨head, copying⟩ <;> simp_all
    | elem slot entry _ _ after => simp [after]
    | idx slot _ _ after =>
      have not_passed : encoded (r.off + 2) = false := by
        rw [encoded_eq, decide_eq_false_iff_not]
        omega
      simp [after, not_passed]
    | bump early _ _ _ after => simp [after]
  · intro read
    obtain ⟨n, cut⟩ := saved.cut read
    obtain ⟨more, log_eq⟩ := moves.log_prefix
    have passed : encoded (r.off + 2) = true := by
      rw [encoded_eq, decide_eq_true_eq]
      omega
    refine ⟨n, ?_, cut.idx, ?_, ?_, cut.dumped⟩
    · have := cut.counted
      rw [log_eq, List.length_append]
      omega
    · intro i e below logged
      have known : i < port.log.length := by have := cut.counted; omega
      rw [log_eq, List.getElem?_append_left known] at logged
      exact cut.elems i e below logged
    · intro undumped
      exact (cut.pending undumped).moves passed moves (fun bumps => early_only bumps undumped)

structure Encoded (r : Ring) (len : Nat) (c : Capture) (m : Memory) (saved' : Bytes) : Prop where
  length_eq : saved'.length = c.saved.length + PAGE
  bounded : saved'.length ≤ len
  old : ∀ x, x < c.saved.length → saved'[x]? = c.saved[x]?
  new : ∀ x, c.saved.length ≤ x → x < saved'.length → r.off ≤ x → x < r.off + r.size →
    saved'[x]? = m.bytes[x]?

theorem Saved.encoded (geo : Geometry r base len) (live : Live r base len m port)
    (saved : Saved r len c port) (more : c.saved.length < len) :
    Encoded r len c m (c.saved ++ c.page m (c.saved.length / PAGE)) := by
  obtain ⟨k, saved_eq⟩ := saved.paged
  obtain ⟨pages, len_eq⟩ := geo.paged
  have block : PAGE = 4096 := rfl
  have index : c.saved.length / PAGE = k := by
    rw [saved_eq]
    exact Nat.mul_div_cancel_left k (by decide)
  have room : k * PAGE + PAGE ≤ len := by
    rw [block] at saved_eq len_eq ⊢
    omega
  have page_length : (c.page m (c.saved.length / PAGE)).length = PAGE := by
    rw [index]
    unfold Capture.page
    split
    · exact slice_length _ _ _ (by rw [live.length_eq]; exact room)
    · exact slice_length _ _ _ (by rw [saved.parent]; exact room)
  constructor
  · rw [List.length_append, page_length]
  · rw [List.length_append, page_length, saved_eq, Nat.mul_comm]
    exact room
  · intro x old
    exact List.getElem?_append_left old
  · intro x low high inside_low inside_high
    rw [List.length_append, page_length] at high
    have same_page : x / PAGE = k := by
      rw [block] at saved_eq high ⊢
      omega
    have chosen : c.selected k = true := same_page ▸ saved.selected x inside_high inside_low
    rw [List.getElem?_append_right low, index, Capture.page, if_pos chosen, slice_getElem?,
      if_pos (by omega), saved_eq, Nat.mul_comm k PAGE]
    congr 1
    omega

theorem Saved.encode (geo : Geometry r base len) (live : Live r base len m port)
    (saved : Saved r len c port) (more : c.saved.length < len) :
    Saved r len { c with saved := c.saved ++ c.page m (c.saved.length / PAGE) } port := by
  have next := saved.encoded geo live more
  generalize c.saved ++ c.page m (c.saved.length / PAGE) = saved' at next ⊢
  have not_dumped : c.dumped = [] := by
    by_contra some_dumped
    have := saved.order some_dumped
    omega
  have block : PAGE = 4096 := rfl
  have header := geo.elem_inside 0
  have elem_live : ∀ i e, port.log[i]? = some e →
      (∀ j, i < j → j < port.log.length → r.slotOf j ≠ r.slotOf i) → ∀ t, t < 8 →
      c.saved.length ≤ r.elemOff i + t → r.elemOff i + t < saved'.length →
      saved'[r.elemOff i + t]? = (usedElem e.1 e.2)[t]? := by
    intro i e logged alone t small low high
    have place := geo.elem_inside i
    rw [next.new _ low high (by omega) (by omega)]
    exact live.elems i e logged alone t (by rw [usedElem_length]; exact small)
  refine { saved with paged := ?_, bounded := next.bounded, unread := ?_, order := ?_, cut := ?_ }
  · change PAGE ∣ saved'.length
    rw [next.length_eq]
    exact Nat.dvd_add saved.paged (Nat.dvd_refl PAGE)
  · intro unread
    have length_eq := next.length_eq
    exact saved.unread (by simp only at unread; omega)
  · intro some_dumped
    exact absurd not_dumped some_dumped
  · intro read
    simp only at read
    by_cases before : r.off + 4 ≤ c.saved.length
    · obtain ⟨n, cut⟩ := saved.cut before
      have pending := cut.pending (by rw [not_dumped]; exact Nat.zero_le _)
      have ahead : port.log.length ≤ n + 1 := by
        rcases pending with ⟨_, h⟩ | ⟨_, h⟩ | ⟨_, h⟩ | ⟨_, h⟩ <;> omega
      refine ⟨n, cut.counted, ?_, ?_, cut.pending, cut.dumped⟩
      · intro t small
        have bound : t < 2 := by simpa using small
        rw [next.old _ (by omega)]
        exact cut.idx t small
      · intro i e below logged alone t small inside
        by_cases old : r.elemOff i + t < c.saved.length
        · rw [next.old _ old]
          exact cut.elems i e below logged alone t small old
        · exact elem_live i e logged (fun j low high => alone j low (by omega)) t small (by omega) inside
    · have unread := saved.unread (by omega)
      obtain ⟨k, saved_eq⟩ := saved.paged
      have even := geo.aligned
      have start : c.saved.length ≤ r.off + 2 := by
        rw [block] at saved_eq
        omega
      have pending : Pending port.published port := by
        have published := live.published
        have counted := live.counted
        unfold Pending
        unfold Port.bumped at counted
        unfold Port.published
        cases phase : port.phase with
        | idle => exact .inl ⟨.inl rfl, rfl⟩
        | copying head => exact .inl ⟨.inr ⟨head, rfl⟩, rfl⟩
        | elemWritten slot =>
          simp only [phase] at counted
          refine .inr (.inl ⟨⟨slot, rfl⟩, ?_⟩)
          rcases counted with less | ⟨_, calm⟩
          · simp only
            omega
          · exact absurd rfl (calm slot true).1
        | idxWritten early =>
          cases early with
          | true => exact .inr (.inr (.inl ⟨rfl, rfl⟩))
          | false => exact absurd phase unread
        | unpublished => exact absurd phase published
      have ahead : port.published ≤ port.log.length ∧ port.log.length ≤ port.published + 1 := by
        rcases pending with ⟨_, h⟩ | ⟨_, h⟩ | ⟨_, h⟩ | ⟨_, h⟩ <;> omega
      refine ⟨port.published, ahead.1, ?_, ?_, fun _ => pending, ?_⟩
      · intro t small
        have bound : t < 2 := by simpa using small
        rw [next.new _ (by omega) (by omega) (by omega) (by omega)]
        exact live.idx t small
      · intro i e below logged alone t small inside
        have place := geo.elem_inside i
        exact elem_live i e logged (fun j low high => alone j low (by omega)) t small (by omega) inside
      · intro dumped
        rw [not_dumped] at dumped
        exact absurd dumped (Nat.not_lt_zero _)

theorem Saved.dump (geo : Geometry r base len) (live : Live r base len m port)
    (saved : Saved r len c port) (read : len ≤ c.saved.length) {queues : List Queue}
    (own : c.dumped.length = r.device → queues = port.dev.queues)
    (settled : c.dumped.length = r.device → port.phase ≠ .idxWritten true) :
    Saved r len { c with dumped := c.dumped ++ [queues] } port := by
  have inside := geo.inside
  have header := geo.elem_inside 0
  refine { saved with order := fun _ => Nat.le_antisymm saved.bounded read, cut := ?_ }
  · intro ring_read
    obtain ⟨n, cut⟩ := saved.cut ring_read
    refine ⟨n, { cut with pending := ?_, dumped := ?_ }⟩
    · intro undumped
      simp only [List.length_append, List.length_singleton] at undumped
      exact cut.pending (by omega)
    · intro dumped
      simp only [List.length_append, List.length_singleton] at dumped
      by_cases now : c.dumped.length = r.device
      · obtain rfl := own now
        obtain ⟨q, known, _, _, avail_eq⟩ := live.queue
        have counts : port.bumped = n := by
          have phase := settled now
          unfold Port.bumped
          rcases cut.pending (by omega) with ⟨calm, all⟩ | ⟨⟨slot, elem⟩, all⟩ | ⟨early, _⟩ | ⟨late, all⟩
          · rcases calm with idle | ⟨head, copying⟩
            · simp only [idle, all]
            · simp only [copying, all]
          · simp only [elem]
            omega
          · exact absurd early phase
          · simp only [late]
            omega
        refine ⟨port.dev.queues, q, ?_, ?_, by rw [avail_eq, counts]⟩
        · rw [← now, List.getElem?_append_right (Nat.le_refl _), Nat.sub_self]
          rfl
        · unfold Device.queue? at known
          split at known
          · exact known
          · cases known
      · obtain ⟨old, q, found, known, avail_eq⟩ := cut.dumped (by omega)
        refine ⟨old, q, ?_, known, avail_eq⟩
        rw [List.getElem?_append_left (by omega)]
        exact found

def settled (port : Port) : Port := { port with phase := port.phase.settle }

theorem Live.settle (live : Live r base len m port) : Live r base len m (settled port) := by
  obtain ⟨dev, phase, log⟩ := port
  cases phase with
  | idxWritten early =>
    refine { live with slot := nofun, counted := .inl ?_, published := nofun }
    rcases live.counted with less | ⟨_, calm⟩
    · exact less
    · exact absurd rfl (calm ⟨0, 0, 0⟩ early).2
  | idle => exact live
  | copying head => exact live
  | elemWritten slot => exact live
  | unpublished => exact live

theorem settle_not_late (phase : Phase) : phase.settle ≠ .idxWritten false := by
  cases phase <;> exact nofun

theorem Saved.begin (port : Port) {selected : Nat → Bool} {parent : Bytes} (parent_eq : parent.length = len)
    (ring : ∀ x, x < r.off + r.size → r.off ≤ x → selected (x / PAGE) = true) :
    Saved r len ⟨selected, parent, [], []⟩ (settled port) := by
  constructor
  · exact Nat.dvd_zero PAGE
  · exact Nat.zero_le len
  · exact parent_eq
  · exact ring
  · exact fun _ => settle_not_late port.phase
  · exact fun dumped => absurd rfl dumped
  · intro read
    simp only [List.length_nil] at read
    omega

theorem other_micro {encoded : Nat → Bool} {s : Machine} {p k : Nat} {other : Port} {micro : Micro}
    {m' : Memory} {other' : Port} (elsewhere : ¬ r.own p k) (found : s.port? p k = some other)
    (ordered : r.Ordered s (.inject p k micro))
    (stepped : injectStep k encoded s.mem other micro = some (m', other')) :
    m' = s.mem ∨ ∃ off data, r.apart off data.length ∧ m' = s.mem.write off data := by
  cases micro with
  | start =>
    simp only [injectStep] at stepped
    repeat' split at stepped
    all_goals cases stepped
    exact .inl rfl
  | copy addr data =>
    simp only [injectStep] at stepped
    split at stepped
    · rename_i head off _ slice_found
      cases stepped
      refine .inr ⟨off, data, ?_, rfl⟩
      rw [Memory.guestSlice_off slice_found]
      exact ordered
    · cases stepped
  | fail =>
    simp only [injectStep] at stepped
    split at stepped
    · cases stepped
      exact .inl rfl
    · cases stepped
  | elem size =>
    simp only [injectStep] at stepped
    split at stepped
    · rename_i head q _ known
      have outside := ordered.resolve_left elsewhere
      split at stepped
      · rename_i slot slot_eq
        simp only [Machine.elemStore, found, Option.bind_eq_bind, Option.bind_some, known, slot_eq,
          Option.join_some, Option.pure_def, Option.all_some, decide_eq_true_eq] at outside
        cases stepped
        exact .inr ⟨_, _, by rw [usedElem_length]; exact outside, rfl⟩
      · cases stepped
        exact .inl rfl
      · cases stepped
    · cases stepped
  | idx =>
    simp only [injectStep] at stepped
    split at stepped
    · rename_i slot written
      have outside := ordered.resolve_left elsewhere
      obtain ⟨dev, phase, log⟩ := other
      obtain rfl : phase = .elemWritten slot := written
      simp only [Machine.idxStore, found, Option.all_some, decide_eq_true_eq] at outside
      cases stepped
      exact .inr ⟨_, _, by rw [le_length]; exact outside, rfl⟩
    · cases stepped
  | bump =>
    simp only [injectStep] at stepped
    split at stepped
    · cases stepped
      exact .inl rfl
    · cases stepped
      exact .inl rfl
    · cases stepped

theorem injectStep_others {encoded : Nat → Bool} {k j : Nat} {m' : Memory} {micro : Micro}
    (stepped : injectStep k encoded m port micro = some (m', port')) (other : k ≠ j) :
    port'.dev.queue? j = port.dev.queue? j := by
  cases micro <;> simp only [injectStep] at stepped <;> (repeat' split at stepped) <;> cases stepped
  all_goals first
    | rfl
    | exact queue?_consume_ne _ other _

theorem Live.of_queue (live : Live r base len m port) {dev : Device}
    (same : dev.queue? r.queue = port.dev.queue? r.queue) : Live r base len m { port with dev := dev } :=
  { live with queue := by rw [same]; exact live.queue }

theorem Saved.of_queue (saved : Saved r len c port) (dev : Device) :
    Saved r len c { port with dev := dev } := by
  refine { saved with cut := fun read => ?_ }
  obtain ⟨n, cut⟩ := saved.cut read
  exact ⟨n, { cut with }⟩

def Inv (r : Ring) (base len : Nat) (s : Machine) : Prop :=
  ∃ port, s.port? r.device r.queue = some port ∧ Live r base len s.mem port ∧
    ∀ c, s.capture = some c → Saved r len c port

theorem port?_eq {s : Machine} {p k : Nat} {port : Port} (found : s.port? p k = some port) :
    ∃ w lane, s.devices[p]? = some w ∧ w.lanes[k]? = some lane ∧ port = ⟨w.dev, lane.phase, lane.log⟩ := by
  simp only [Machine.port?, Option.bind_eq_bind, Option.bind_eq_some_iff, Option.pure_def,
    Option.some.injEq] at found
  obtain ⟨w, device, lane, there, same⟩ := found
  exact ⟨w, lane, device, there, same.symm⟩

theorem port?_put {s : Machine} {p k j : Nat} {w : Wired} {lane : Lane} (device : s.devices[p]? = some w)
    (there : w.lanes[j]? = some lane) (port : Port) (m : Memory) :
    ({ s with mem := m, devices := s.devices.set p (w.put k port) } : Machine).port? p j =
      some (if k = j then port else ⟨port.dev, lane.phase, lane.log⟩) := by
  have bound := (List.getElem?_eq_some_iff.mp device).1
  unfold Machine.port? Wired.put
  simp only [List.getElem?_set_self bound, Option.bind_eq_bind, Option.bind_some, List.getElem?_modify, there]
  split <;> rfl

theorem port?_elsewhere {s : Machine} {p q j : Nat} (other : p ≠ q) (w : Wired) (m : Memory) :
    ({ s with mem := m, devices := s.devices.set p w } : Machine).port? q j = s.port? q j := by
  unfold Machine.port?
  dsimp only
  rw [List.getElem?_set_ne other]

theorem inv_inject (geo : Geometry r base len) {s t : Machine} (inv : Inv r base len s) {p k : Nat}
    {micro : Micro} (ordered : r.Ordered s (.inject p k micro))
    (stepped : s.step (.inject p k micro) = some t) : Inv r base len t := by
  obtain ⟨port, found, live, saved⟩ := inv
  simp only [Machine.step] at stepped
  split at stepped
  · rename_i w acting device known
    obtain ⟨-, stepped⟩ := Option.ite_none_right_eq_some.mp stepped
    obtain ⟨⟨m', acting'⟩, moved, rfl⟩ := Option.map_eq_some_iff.mp stepped
    by_cases own : r.own p k
    · obtain ⟨rfl, rfl⟩ := own
      obtain rfl : acting = port := Option.some.inj (known.symm.trans found)
      have copies_apart : ∀ addr data, micro = .copy addr data →
          r.apart (addr - s.mem.base) data.length := by
        rintro addr data rfl
        exact ordered
      obtain ⟨live', moves⟩ := live.micro geo copies_apart moved
      obtain ⟨w', lane, device', there, -⟩ := port?_eq found
      obtain rfl : w = w' := Option.some.inj (device.symm.trans device')
      refine ⟨acting', (port?_put device there acting' m').trans (by rw [if_pos rfl]), live',
        fun c capturing => ?_⟩
      apply (saved c capturing).moves _ moves
      · rintro rfl undumped late
        refine ordered ⟨rfl, rfl⟩ ?_ (by rw [found, Option.map_some, late])
        have in_capture : s.capture = some c := capturing
        rw [in_capture]
        simpa using undumped
      · have in_capture : s.capture = some c := capturing
        simp only [Machine.encodedAt, in_capture]
    · have kept : Live r base len m' port := by
        rcases other_micro own known ordered moved with rfl | ⟨off, data, outside, rfl⟩
        · exact live
        · exact live.store_apart geo outside
      by_cases same : p = r.device
      · subst same
        obtain ⟨w', lane, device', there, rfl⟩ := port?_eq found
        obtain rfl : w = w' := Option.some.inj (device.symm.trans device')
        obtain ⟨w', lane', device', there', rfl⟩ := port?_eq known
        obtain rfl : w = w' := Option.some.inj (device.symm.trans device')
        have other : k ≠ r.queue := fun equal => own ⟨rfl, equal⟩
        have others := injectStep_others moved other
        refine ⟨_, (port?_put device there acting' m').trans (by rw [if_neg other]), ?_, ?_⟩
        · exact kept.of_queue others
        · exact fun c capturing => (saved c capturing).of_queue acting'.dev
      · exact ⟨port, (port?_elsewhere same _ m').trans found, kept, saved⟩
  · cases stepped

theorem inv_step (geo : Geometry r base len) (s : Machine) (a : CaptureStep) (t : Machine)
    (inv : Inv r base len s) (ordered : r.Ordered s a) (stepped : s.step a = some t) :
    Inv r base len t := by
  cases a with
  | inject p k micro => exact inv_inject geo inv ordered stepped
  | other off data =>
    obtain ⟨port, found, live, saved⟩ := inv
    simp only [Machine.step] at stepped
    split at stepped
    · cases stepped
      exact ⟨port, found, live.store_apart geo ordered, saved⟩
    · cases stepped
  | capture selected parent =>
    obtain ⟨port, found, live, saved⟩ := inv
    simp only [Machine.step] at stepped
    split at stepped
    · rename_i allowed
      cases stepped
      obtain ⟨w, lane, device, there, rfl⟩ := port?_eq found
      refine ⟨settled ⟨w.dev, lane.phase, lane.log⟩, ?_, live.settle, ?_⟩
      · simp only [Machine.port?, Wired.settle, List.getElem?_map, device, Option.map_some, Option.bind_eq_bind,
          Option.bind_some, there, settled, Option.pure_def]
      · intro c capturing
        cases capturing
        exact Saved.begin _ (allowed.2.1.trans live.length_eq) ordered
    · cases stepped
  | encode =>
    obtain ⟨port, found, live, saved⟩ := inv
    simp only [Machine.step] at stepped
    split at stepped
    · cases stepped
    · rename_i c capturing
      split at stepped
      · rename_i more
        cases stepped
        refine ⟨port, found, live, ?_⟩
        rintro c' ⟨⟩
        exact (saved c capturing).encode geo live (live.length_eq ▸ more)
      · cases stepped
  | dump =>
    obtain ⟨port, found, live, saved⟩ := inv
    simp only [Machine.step] at stepped
    split at stepped
    · cases stepped
    · rename_i c capturing
      split at stepped
      · rename_i next known
        split at stepped
        · rename_i read
          cases stepped
          refine ⟨port, found, live, ?_⟩
          rintro c' ⟨⟩
          apply (saved c capturing).dump geo live (live.length_eq ▸ read)
          · intro now
            obtain ⟨w, lane, device, -, rfl⟩ := port?_eq found
            rw [now, device] at known
            rw [Option.some.inj known]
          · intro now early
            refine ordered ?_ (by rw [found, Option.map_some, early])
            rw [capturing]
            simpa using now
        · cases stepped
      · cases stepped

theorem inv_start {s : Machine} (start : r.Start s) :
    Inv r s.mem.base s.mem.bytes.length s ∧ Geometry r s.mem.base s.mem.bytes.length := by
  obtain ⟨port, q, found, idle, empty, known, addr_eq, num_eq, avail_eq⟩ := start.port
  have counts := (show Calm port.phase from .inl idle).counts
  have usedIdx_lt := start.usedIdx_lt
  have availIdx_lt := start.availIdx_lt
  rw [empty, List.length_nil] at counts
  refine ⟨⟨port, found, ?_, ?_⟩, start.positive, start.aligned, start.inside, start.paged, start.word⟩
  · constructor
    · rfl
    · rfl
    · refine ⟨q, known, addr_eq, num_eq, ?_⟩
      rw [avail_eq, counts.1, Nat.add_zero, Nat.mod_eq_of_lt availIdx_lt]
    · simpa only [counts.2, Nat.add_zero, Nat.mod_eq_of_lt usedIdx_lt] using start.idx
    · intro i e logged
      rw [empty] at logged
      cases logged
    · intro slot written
      rw [idle] at written
      cases written
    · refine .inr ⟨by rw [counts.1, empty, List.length_nil], fun slot early => ?_⟩
      simp [idle]
    · simp [idle]
  · intro c capturing
    rw [start.quiet] at capturing
    cases capturing

theorem captured_agrees {start s : Machine} {steps : List CaptureStep} (set_up : r.Start start)
    (ordered : Run.Meets Machine.step r.Ordered start steps)
    (ran : Run.exec Machine.step start steps = some s) {c : Capture} (captured : s.capture = some c)
    (finished : c.finished s.devices = true) :
    ∃ port, s.port? r.device r.queue = some port ∧ r.Agrees port.log c := by
  obtain ⟨inv, geo⟩ := inv_start set_up
  obtain ⟨port, found, live, saved⟩ := Run.exec_guarded (inv_step geo) steps inv ordered ran
  have capture := saved c captured
  obtain ⟨w, lane, device, -⟩ := port?_eq found
  have bound := (List.getElem?_eq_some_iff.mp device).1
  have dumped : r.device < c.dumped.length := by
    simp only [Capture.finished, decide_eq_true_eq] at finished
    omega
  have inside := geo.inside
  have header := geo.elem_inside 0
  have whole : c.saved.length = start.mem.bytes.length := capture.order (by
    intro none_dumped
    rw [none_dumped] at dumped
    exact absurd dumped (Nat.not_lt_zero _))
  obtain ⟨n, cut⟩ := capture.cut (by omega)
  obtain ⟨queues, q, at_device, first, avail_eq⟩ := cut.dumped dumped
  refine ⟨port, found, n, queues, q, at_device, first, cut.counted, avail_eq, cut.idx, ?_⟩
  intro i e below logged alone t small
  rw [usedElem_length] at small
  have place := geo.elem_inside i
  exact cut.elems i e below logged alone t small (by omega)

/-- The rings of a machine: one for each queue that its driver has set up. -/
structure Layout (rings : List Ring) (s : Machine) : Prop where
  start : ∀ r ∈ rings, r.Start s
  every : ∀ p w k q, s.devices[p]? = some w → w.dev.queue? k = some q → q.ready ≠ 0 →
    ∃ r ∈ rings, r.own p k

/-- In every run whose steps keep the order, every finished capture saved the same chains in
each queue of each device and in its ring. -/
theorem captured_queue_agrees (rings : List Ring) (start s : Machine) (steps : List CaptureStep)
    (set_up : Layout rings start)
    (ordered : Run.Meets Machine.step (fun s a => ∀ r ∈ rings, r.Ordered s a) start steps)
    (ran : Run.exec Machine.step start steps = some s) (c : Capture) (captured : s.capture = some c)
    (finished : c.finished s.devices = true) (p : Nat) (w : Wired) (k : Nat) (q : Queue)
    (device : start.devices[p]? = some w) (queue : w.dev.queue? k = some q) (ready : q.ready ≠ 0) :
    ∃ r port, r ∈ rings ∧ r.own p k ∧ s.port? p k = some port ∧ r.Agrees port.log c := by
  obtain ⟨r, listed, rfl, rfl⟩ := set_up.every p w k q device queue ready
  have met := Run.Meets.weaken (fun _ _ all => all r listed) steps ordered
  obtain ⟨port, found, agrees⟩ := captured_agrees (set_up.start r listed) met ran captured finished
  exact ⟨r, port, listed, ⟨rfl, rfl⟩, found, agrees⟩

end Ring

/-- A device whose receive and transmit queues lie in one page of RAM, each with one posted
buffer. -/
def twoQueues : Machine where
  mem := {
    base := 0
    bytes := VringDesc.encode ⟨1024, 64, 2, 0⟩ ++ zeros 48 ++ le 2 0 ++ le 2 1 ++ zeros 188 ++
      VringDesc.encode ⟨2048, 60, 0, 0⟩ ++ zeros 48 ++ le 2 0 ++ le 2 1 ++ zeros 3772
    stores := [] }
  devices := [{
    dev := {
      queues := [{ num := 4, ready := 1, descAddr := 0, driverAddr := 64, deviceAddr := 128 },
        { num := 4, ready := 1, descAddr := 256, driverAddr := 320, deviceAddr := 384 }] }
    lanes := [⟨true, .idle, []⟩, ⟨false, .idle, []⟩] }]
  capture := none

def receiveRing : Ring := ⟨0, 0, 128, 4, 0, 0⟩

def transmitRing : Ring := ⟨0, 1, 384, 4, 0, 0⟩

theorem twoQueues_layout : Ring.Layout [receiveRing, transmitRing] twoQueues := by
  constructor
  · intro r listed
    simp only [List.mem_cons, List.not_mem_nil, or_false] at listed
    rcases listed with rfl | rfl
    all_goals
      refine ⟨⟨_, _, rfl, rfl, rfl, rfl, rfl, rfl, rfl⟩, by decide, by decide, by decide +kernel,
        by decide +kernel, by decide +kernel, holdsAt_of_slice (by decide +kernel), by decide, by decide, rfl⟩
  · intro p w k q device queue _
    match p, k with
    | 0, 0 => exact ⟨receiveRing, by simp, rfl, rfl⟩
    | 0, 1 => exact ⟨transmitRing, by simp, rfl, rfl⟩
    | 0, k + 2 =>
      cases device
      simp [Device.queue?] at queue
    | p + 1, _ => cases device

/-- A packet that goes out and one that comes in, both complete before the capture begins. -/
def packetsThenCapture : List CaptureStep :=
  [.inject 0 1 .start, .inject 0 0 .start, .inject 0 0 (.copy 1024 [1]), .inject 0 1 (.elem 60),
    .inject 0 0 (.elem 13), .inject 0 1 .idx, .inject 0 0 .idx, .inject 0 0 .bump, .inject 0 1 .bump,
    .capture (fun _ => true) (zeros 4096), .encode, .dump]

def captureAroundInjection : List CaptureStep :=
  [.capture (fun _ => true) (zeros 4096), .encode, .inject 0 0 .start, .inject 0 0 (.copy 1024 [1]),
    .inject 0 0 (.elem 13), .inject 0 0 .idx, .inject 0 0 .bump, .dump]

theorem capture_after_injection_agrees : ∃ s c received sent,
    Run.exec Machine.step twoQueues packetsThenCapture = some s ∧ s.capture = some c ∧
      s.port? 0 0 = some received ∧ received.log = [(0, 13)] ∧ receiveRing.Agrees received.log c ∧
      s.port? 0 1 = some sent ∧ sent.log = [(0, 60)] ∧ transmitRing.Agrees sent.log c := by
  have ordered : Run.Meets Machine.step (fun s a => ∀ r ∈ [receiveRing, transmitRing], r.Ordered s a)
      twoQueues packetsThenCapture := by
    decide +kernel
  have facts : (Run.exec Machine.step twoQueues packetsThenCapture).map
      (fun s => (s.capture.map fun c => c.finished s.devices, (s.port? 0 0).map Port.log,
        (s.port? 0 1).map Port.log)) = some (some true, some [(0, 13)], some [(0, 60)]) := by decide +kernel
  obtain ⟨s, ran, inner⟩ := Option.map_eq_some_iff.mp facts
  obtain ⟨inner, logs⟩ := Prod.mk.inj inner
  obtain ⟨into, out⟩ := Prod.mk.inj logs
  obtain ⟨c, captured, finished⟩ := Option.map_eq_some_iff.mp inner
  have agrees := Ring.captured_queue_agrees [receiveRing, transmitRing] twoQueues s packetsThenCapture
    twoQueues_layout ordered ran c captured finished 0
  obtain ⟨r, received, listed, own, found, held⟩ := agrees _ 0 _ rfl rfl (by decide)
  obtain ⟨r', sent, listed', own', found', held'⟩ := agrees _ 1 _ rfl rfl (by decide)
  have first : r = receiveRing := by
    simp only [List.mem_cons, List.not_mem_nil, or_false] at listed
    exact listed.resolve_right (by rintro rfl; exact absurd own.2 (by decide))
  have second : r' = transmitRing := by
    simp only [List.mem_cons, List.not_mem_nil, or_false] at listed'
    exact listed'.resolve_left (by rintro rfl; exact absurd own'.2 (by decide))
  rw [found] at into
  rw [found'] at out
  exact ⟨s, c, received, sent, ran, captured, found, Option.some.inj into, first ▸ held, found',
    Option.some.inj out, second ▸ held'⟩

/-- The queue's index counts a chain that the saved used ring does not have. -/
theorem capture_around_injection_disagrees : ∃ s c port,
    Run.exec Machine.step twoQueues captureAroundInjection = some s ∧ s.capture = some c ∧
      c.finished s.devices = true ∧ s.port? 0 0 = some port ∧ ¬ receiveRing.Agrees port.log c := by
  have facts : (Run.exec Machine.step twoQueues captureAroundInjection).map
      (fun s => ((s.port? 0 0).isSome, s.capture.map fun c => (c.finished s.devices,
        (c.dumped[0]?.bind fun queues => queues[0]?).map Queue.lastAvailIdx, slice c.saved 130 2))) =
      some (true, some (true, some 1, [0, 0])) := by decide +kernel
  obtain ⟨s, ran, inner⟩ := Option.map_eq_some_iff.mp facts
  obtain ⟨has_port, capture_facts⟩ := Prod.mk.inj inner
  obtain ⟨port, found⟩ := Option.isSome_iff_exists.mp has_port
  obtain ⟨c, captured, seen⟩ := Option.map_eq_some_iff.mp capture_facts
  obtain ⟨finished, rest⟩ := Prod.mk.inj seen
  obtain ⟨last, index⟩ := Prod.mk.inj rest
  refine ⟨s, c, port, ran, captured, finished, found, ?_⟩
  rintro ⟨n, queues, q, at_device, first, _, avail_eq, idx, _⟩
  have device : c.dumped[0]? = some queues := at_device
  have queue : queues[0]? = some q := first
  rw [device, Option.bind_some, queue, Option.map_some] at last
  have counted : 1 = (0 + n) % 65536 := (Option.some.inj last).symm.trans avail_eq
  have held := idx.slice_eq
  rw [le_length] at held
  have same : le 2 ((0 + n) % 65536) = [0, 0] := held.symm.trans index
  rw [← counted] at same
  exact absurd same (by decide)

end Machinen.Vmm
