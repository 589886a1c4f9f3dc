import Machinen.Vmm.Mmio

/-! The virtio section of a state file: the registers that a guest has programmed, dumped from a live
device and applied to one that was just made. -/
namespace Machinen.Vmm

open Bytes

namespace VirtioDump

def DEVICE_NET : Nat := 1
def DEVICE_BLK : Nat := 2
def DEVICE_CONSOLE : Nat := 3
def DEVICE_BALLOON : Nat := 5
def DEVICE_VSOCK : Nat := 19
def DEVICE_VIRTIO_FS : Nat := 26

def HEADER_SIZE : Nat := 32
def QUEUE_ENTRY_SIZE : Nat := 40

def knownDevice (device : Nat) : Bool :=
  device == DEVICE_NET || device == DEVICE_BLK || device == DEVICE_CONSOLE || device == DEVICE_BALLOON ||
    device == DEVICE_VSOCK || device == DEVICE_VIRTIO_FS

structure QueueState where
  num : Nat
  ready : Nat
  lastAvailIdx : Nat
  descAddr : Nat
  driverAddr : Nat
  deviceAddr : Nat
  deriving DecidableEq, Repr

namespace QueueState

def bytes (q : QueueState) : Bytes :=
  le 4 q.num ++ le 4 q.ready ++ le 4 q.lastAvailIdx ++ le 4 0 ++ le 8 q.descAddr ++ le 8 q.driverAddr ++
    le 8 q.deviceAddr

def read (bs : Bytes) : QueueState where
  num := toNat (slice bs 0 4)
  ready := toNat (slice bs 4 4)
  lastAvailIdx := toNat (slice bs 8 4)
  descAddr := toNat (slice bs 16 8)
  driverAddr := toNat (slice bs 24 8)
  deviceAddr := toNat (slice bs 32 8)

def ofQueue (q : Queue) : QueueState := ⟨q.num, q.ready, q.lastAvailIdx, q.descAddr, q.driverAddr,
    q.deviceAddr⟩

def toQueue (q : QueueState) : Queue :=
  { num := q.num
    ready := q.ready
    descAddr := q.descAddr
    driverAddr := q.driverAddr
    deviceAddr := q.deviceAddr
    lastAvailIdx := q.lastAvailIdx % 65536 }

end QueueState

structure Snapshot where
  device : Nat
  driverFeatures : Nat
  status : Nat
  queueSel : Nat
  interruptStatus : Nat
  queues : List QueueState
  deriving DecidableEq, Repr

def headerBytes (s : Snapshot) : Bytes :=
  le 4 s.device ++ le 4 s.queues.length ++ le 8 s.driverFeatures ++ le 4 s.status ++ le 4 s.queueSel ++
    le 4 s.interruptStatus ++ le 4 0

/-- No result is a failed assertion. -/
def encode (s : Snapshot) : Option Bytes :=
  if s.queues.length < 2 ^ 32 ∧ knownDevice s.device then
    some (headerBytes s ++ s.queues.flatMap QueueState.bytes)
  else none

inductive ApplyError where
  | truncated
  | badDevice
  | deviceMismatch
  deriving DecidableEq, Repr

def readQueues (bytes : Bytes) : Nat → Nat → List QueueState
  | 0, _ => []
  | count + 1, off => QueueState.read (slice bytes off QUEUE_ENTRY_SIZE) ::
      readQueues bytes count (off + QUEUE_ENTRY_SIZE)

def decode (bytes : Bytes) : Except ApplyError Snapshot :=
  if bytes.length < HEADER_SIZE then .error .truncated
  else
    let device := toNat (slice bytes 0 4)
    let queueCount := toNat (slice bytes 4 4)
    if knownDevice device = false then .error .badDevice
    else if HEADER_SIZE + queueCount * QUEUE_ENTRY_SIZE ≠ bytes.length then .error .truncated
    else
      .ok
        { device := device
          driverFeatures := toNat (slice bytes 8 8)
          status := toNat (slice bytes 16 4)
          queueSel := toNat (slice bytes 20 4)
          interruptStatus := toNat (slice bytes 24 4)
          queues := readQueues bytes queueCount HEADER_SIZE }

end VirtioDump

open VirtioDump

def snapshotOf (id : Nat) (regs : Mmio) : VirtioDump.Snapshot where
  device := id
  driverFeatures := regs.driverFeatures
  status := regs.status
  queueSel := regs.queueSel
  interruptStatus := regs.dev.interruptStatus
  queues := regs.dev.queues.map QueueState.ofQueue

def dumpDevice (id : Nat) (regs : Mmio) : Option Bytes := encode (snapshotOf id regs)

def copyQueues : List Queue → List QueueState → List Queue
  | _ :: queues, state :: states => state.toQueue :: copyQueues queues states
  | queues, _ => queues

def applyDevice (id : Nat) (regs : Mmio) (payload : Bytes) : Mmio × Except ApplyError Unit :=
  match decode payload with
  | .error e => (regs, .error e)
  | .ok snap =>
    if snap.device ≠ id then (regs, .error .deviceMismatch)
    else
      ({ regs with
          driverFeatures := snap.driverFeatures
          status := snap.status
          queueSel := snap.queueSel
          dev :=
            { regs.dev with
              interruptStatus := snap.interruptStatus
              queues := copyQueues regs.dev.queues snap.queues } }, .ok ())

/-- How a device is made: its kind, what it offers, and its config space. -/
structure Wiring where
  id : Nat
  features : Nat
  queueNumMax : Nat
  config : Option Bytes
  known : knownDevice id = true

def Wiring.featuresWord (wiring : Wiring) (sel : Nat) : Nat :=
  match sel with
  | 0 => wiring.features % 2 ^ 32
  | 1 => wiring.features / 2 ^ 32 % 2 ^ 32
  | _ => 0

def Wiring.readConfig (wiring : Wiring) (off : Nat) : Nat :=
  match wiring.config with
  | none => 0
  | some cfg => if cfg.length ≤ off then 0 else toNat (slice cfg off 8)

/-- A register read. The config generation is never changed. -/
def Mmio.read (wiring : Wiring) (regs : Mmio) (off : Nat) : Nat :=
  match off with
  | 0x000 => 0x74726976
  | 0x004 => 2
  | 0x008 => wiring.id
  | 0x00C => 0
  | 0x010 => wiring.featuresWord regs.deviceFeaturesSel
  | 0x034 => if regs.queueSel < maxQueues then wiring.queueNumMax else 0
  | 0x044 => ((regs.dev.queue? regs.queueSel).map Queue.ready).getD 0
  | 0x060 => regs.dev.interruptStatus
  | 0x070 => regs.status
  | 0x0FC => 0
  | _ => if 0x100 ≤ off ∧ off ≤ 0x1FF then wiring.readConfig (off - 0x100) else 0

/-- Every field holds a value of its type, and there are as many queues as a device has. -/
structure Mmio.Typed (regs : Mmio) : Prop where
  count : regs.dev.queues.length = maxQueues
  queues : ∀ q ∈ regs.dev.queues, q.num < 2 ^ 32 ∧ q.ready < 2 ^ 32 ∧ q.lastAvailIdx < 65536 ∧
    q.descAddr < 2 ^ 64 ∧ q.driverAddr < 2 ^ 64 ∧ q.deviceAddr < 2 ^ 64
  interruptStatus : regs.dev.interruptStatus < 2 ^ 32
  driverFeatures : regs.driverFeatures < 2 ^ 64
  status : regs.status < 2 ^ 32
  queueSel : regs.queueSel < 2 ^ 32

theorem QueueState.bytes_length (q : QueueState) : q.bytes.length = QUEUE_ENTRY_SIZE := by
  simp only [QueueState.bytes, List.length_append, le_length]
  rfl

theorem QueueState.read_bytes {q : Queue} (typed : q.num < 2 ^ 32 ∧ q.ready < 2 ^ 32 ∧
    q.lastAvailIdx < 65536 ∧ q.descAddr < 2 ^ 64 ∧ q.driverAddr < 2 ^ 64 ∧ q.deviceAddr < 2 ^ 64) :
    (QueueState.read (QueueState.ofQueue q).bytes).toQueue = q := by
  obtain ⟨num, ready, last, desc, driver, device⟩ := typed
  have wide : 65536 < 256 ^ 4 := by decide
  have fields : QueueState.read (QueueState.ofQueue q).bytes =
      ⟨toNat (le 4 q.num), toNat (le 4 q.ready), toNat (le 4 q.lastAvailIdx), toNat (le 8 q.descAddr),
        toNat (le 8 q.driverAddr), toNat (le 8 q.deviceAddr)⟩ := rfl
  rw [fields, toNat_le 4 _ num, toNat_le 4 _ ready, toNat_le 4 _ (Nat.lt_trans last wide),
    toNat_le 8 _ desc, toNat_le 8 _ driver, toNat_le 8 _ device]
  unfold QueueState.toQueue
  rw [Nat.mod_eq_of_lt last]

theorem headerBytes_length (s : VirtioDump.Snapshot) : (headerBytes s).length = HEADER_SIZE := by
  simp only [headerBytes, List.length_append, le_length]
  rfl

theorem readQueues_bytes (front : Bytes) (states : List QueueState) :
    readQueues (front ++ states.flatMap QueueState.bytes) states.length front.length =
      states.map fun q => QueueState.read q.bytes := by
  induction states generalizing front with
  | nil => rfl
  | cons q states ih =>
    have here : slice (front ++ (q.bytes ++ states.flatMap QueueState.bytes)) front.length
      QUEUE_ENTRY_SIZE =
        q.bytes := by
      rw [slice, List.drop_left, List.take_left' (QueueState.bytes_length q)]
    have later := ih (front ++ q.bytes)
    rw [List.length_append, QueueState.bytes_length, List.append_assoc] at later
    rw [List.flatMap_cons, List.length_cons, readQueues, here, later, List.map_cons]

theorem decode_header {s : VirtioDump.Snapshot} (known : knownDevice s.device = true)
    (device : s.device < 2 ^ 32) (count : s.queues.length < 2 ^ 32)
    (features : s.driverFeatures < 2 ^ 64) (status : s.status < 2 ^ 32) (sel : s.queueSel < 2 ^ 32)
    (interrupt : s.interruptStatus < 2 ^ 32) (rest : Bytes) :
    decode (headerBytes s ++ rest) =
      if rest.length = s.queues.length * QUEUE_ENTRY_SIZE then
        .ok { s with queues := readQueues (headerBytes s ++ rest) s.queues.length HEADER_SIZE }
      else .error .truncated := by
  have fields : slice (headerBytes s ++ rest) 0 4 = le 4 s.device ∧
      slice (headerBytes s ++ rest) 4 4 = le 4 s.queues.length ∧
      slice (headerBytes s ++ rest) 8 8 = le 8 s.driverFeatures ∧
      slice (headerBytes s ++ rest) 16 4 = le 4 s.status ∧
      slice (headerBytes s ++ rest) 20 4 = le 4 s.queueSel ∧
      slice (headerBytes s ++ rest) 24 4 = le 4 s.interruptStatus := ⟨rfl, rfl, rfl, rfl, rfl, rfl⟩
  obtain ⟨device_eq, count_eq, features_eq, status_eq, sel_eq, interrupt_eq⟩ := fields
  have length : (headerBytes s ++ rest).length = HEADER_SIZE + rest.length := by
    rw [List.length_append, headerBytes_length]
  unfold decode
  rw [device_eq, count_eq, features_eq, status_eq, sel_eq, interrupt_eq, toNat_le 4 _ device,
    toNat_le 4 _ count, toNat_le 8 _ features, toNat_le 4 _ status, toNat_le 4 _ sel,
    toNat_le 4 _ interrupt, length, if_neg (by omega)]
  dsimp only
  rw [if_neg (by rw [known]; nofun)]
  by_cases whole : rest.length = s.queues.length * QUEUE_ENTRY_SIZE
  · rw [if_pos whole, if_neg (by omega)]
  · rw [if_neg whole, if_pos (by omega)]

theorem knownDevice_lt {device : Nat} (known : knownDevice device = true) : device < 2 ^ 32 := by
  unfold knownDevice at known
  simp only [Bool.or_eq_true, beq_iff_eq, DEVICE_NET, DEVICE_BLK, DEVICE_CONSOLE, DEVICE_BALLOON,
    DEVICE_VSOCK, DEVICE_VIRTIO_FS] at known
  omega

def dumpBytes (id : Nat) (regs : Mmio) : Bytes :=
  headerBytes (snapshotOf id regs) ++ (snapshotOf id regs).queues.flatMap QueueState.bytes

section Dump

variable {id : Nat} {regs : Mmio}

theorem snapshotOf_count (id : Nat) (typed : regs.Typed) : (snapshotOf id regs).queues.length = 8 := by
  rw [snapshotOf, List.length_map]
  exact typed.count

theorem dumpDevice_eq (typed : regs.Typed) (known : knownDevice id = true) :
    dumpDevice id regs = some (dumpBytes id regs) := by
  have count := snapshotOf_count id typed
  unfold dumpDevice encode
  exact if_pos ⟨by rw [count]; decide, known⟩

theorem queueBytes_length (states : List QueueState) :
    (states.flatMap QueueState.bytes).length = states.length * QUEUE_ENTRY_SIZE := by
  induction states with
  | nil => rfl
  | cons q states ih =>
    rw [List.flatMap_cons, List.length_append, QueueState.bytes_length, ih, List.length_cons,
      Nat.add_mul, Nat.one_mul, Nat.add_comm]

theorem dumpBytes_length (typed : regs.Typed) : (dumpBytes id regs).length = 352 := by
  rw [dumpBytes, List.length_append, headerBytes_length, queueBytes_length, snapshotOf, List.length_map,
    typed.count]
  rfl

theorem decode_dumped (typed : regs.Typed) (known : knownDevice id = true) (rest : Bytes) :
    decode (headerBytes (snapshotOf id regs) ++ rest) =
      if rest.length = 8 * QUEUE_ENTRY_SIZE then
        .ok { snapshotOf id regs with
          queues := readQueues (headerBytes (snapshotOf id regs) ++ rest) 8 HEADER_SIZE }
      else .error .truncated := by
  have count := snapshotOf_count id typed
  rw [decode_header (s := snapshotOf id regs) known (knownDevice_lt known) (by rw [count]; decide)
    typed.driverFeatures typed.status typed.queueSel typed.interruptStatus rest, count]

theorem copyQueues_states {queues fresh : List Queue} (same : fresh.length = queues.length)
    (typed : ∀ q ∈ queues, (QueueState.read (QueueState.ofQueue q).bytes).toQueue = q) :
    copyQueues fresh (queues.map fun q => QueueState.read (QueueState.ofQueue q).bytes) = queues := by
  induction queues generalizing fresh with
  | nil =>
    obtain rfl := List.eq_nil_of_length_eq_zero same
    rfl
  | cons q queues ih =>
    match fresh, same with
    | f :: fresh, same =>
      rw [List.map_cons, copyQueues, typed q List.mem_cons_self,
        ih (Nat.succ.inj same) fun e member => typed e (List.mem_cons_of_mem q member)]

theorem applyDevice_dump (typed : regs.Typed) (known : knownDevice id = true) {fresh : Mmio}
    (made : fresh.dev.queues.length = maxQueues) :
    applyDevice id fresh (dumpBytes id regs) =
      ({ fresh with
          driverFeatures := regs.driverFeatures
          status := regs.status
          queueSel := regs.queueSel
          dev :=
            { fresh.dev with
              interruptStatus := regs.dev.interruptStatus
              queues := regs.dev.queues } }, .ok ()) := by
  have length := queueBytes_length (snapshotOf id regs).queues
  have count := snapshotOf_count id typed
  have read := readQueues_bytes (headerBytes (snapshotOf id regs)) (snapshotOf id regs).queues
  rw [headerBytes_length, count] at read
  have back : copyQueues fresh.dev.queues
      ((snapshotOf id regs).queues.map fun q => QueueState.read q.bytes) = regs.dev.queues := by
    rw [snapshotOf, List.map_map]
    exact copyQueues_states (made.trans typed.count.symm) fun q member =>
      QueueState.read_bytes (typed.queues q member)
  unfold applyDevice dumpBytes
  rw [decode_dumped typed known, if_pos (by rw [length, count])]
  dsimp only
  rw [if_neg (by exact fun other => other rfl), read, back]
  rfl

theorem applyDevice_truncated (typed : regs.Typed) (known : knownDevice id = true) {k : Nat}
    (short : k < (dumpBytes id regs).length) (target : Nat) (into : Mmio) :
    applyDevice target into ((dumpBytes id regs).take k) = (into, .error .truncated) := by
  have cut : decode ((dumpBytes id regs).take k) = .error .truncated := by
    have length := headerBytes_length (snapshotOf id regs)
    have total : (dumpBytes id regs).length = 352 := dumpBytes_length typed
    have size : HEADER_SIZE = 32 := rfl
    by_cases header : k < HEADER_SIZE
    · unfold decode
      rw [if_pos (by rw [List.length_take]; omega)]
    · have parts : (dumpBytes id regs).take k = headerBytes (snapshotOf id regs) ++
          ((snapshotOf id regs).queues.flatMap QueueState.bytes).take (k - HEADER_SIZE) := by
        rw [dumpBytes, List.take_append, length, List.take_of_length_le (by omega)]
      rw [parts, decode_dumped typed known, if_neg]
      rw [List.length_take]
      unfold QUEUE_ENTRY_SIZE
      omega
  unfold applyDevice
  rw [cut]

theorem applyDevice_mismatch (typed : regs.Typed) (known : knownDevice id = true) {target : Nat}
    (other : target ≠ id) (into : Mmio) :
    applyDevice target into (dumpBytes id regs) = (into, .error .deviceMismatch) := by
  have length := queueBytes_length (snapshotOf id regs).queues
  have count := snapshotOf_count id typed
  unfold applyDevice dumpBytes
  rw [decode_dumped typed known, if_pos (by rw [length, count])]
  exact if_pos fun same => other same.symm

end Dump

/-- Registers that agree but for what no read shows: the accepted features, their selector, and a
selector of offered features that picks the same word. -/
structure Mmio.Alike (wiring : Wiring) (regs other : Mmio) : Prop where
  dev : other.dev = regs.dev
  queueSel : other.queueSel = regs.queueSel
  status : other.status = regs.status
  word : wiring.featuresWord other.deviceFeaturesSel = wiring.featuresWord regs.deviceFeaturesSel

namespace Mmio.Alike

variable {wiring : Wiring} {regs other : Mmio}

theorem symm (alike : regs.Alike wiring other) : other.Alike wiring regs :=
  ⟨alike.dev.symm, alike.queueSel.symm, alike.status.symm, alike.word.symm⟩

theorem read (alike : regs.Alike wiring other) (off : Nat) :
    other.read wiring off = regs.read wiring off := by
  unfold Mmio.read
  rw [alike.dev, alike.queueSel, alike.status, alike.word]

theorem configure (alike : regs.Alike wiring other) (f : Queue → Queue) :
    (regs.configure f).Alike wiring (other.configure f) := by
  unfold Mmio.configure
  rw [alike.dev, alike.queueSel]
  cases regs.dev.queue? regs.queueSel with
  | none => exact alike
  | some q => exact ⟨rfl, rfl, alike.status, alike.word⟩

theorem setDriverFeatures (alike : regs.Alike wiring other) (half : Nat) :
    (regs.setDriverFeatures half).Alike wiring (other.setDriverFeatures half) := by
  have kept (r : Mmio) : (r.setDriverFeatures half).dev = r.dev ∧
      (r.setDriverFeatures half).queueSel = r.queueSel ∧ (r.setDriverFeatures half).status = r.status ∧
      (r.setDriverFeatures half).deviceFeaturesSel = r.deviceFeaturesSel := by
    unfold Mmio.setDriverFeatures
    split <;> exact ⟨rfl, rfl, rfl, rfl⟩
  obtain ⟨dev, queueSel, status, word⟩ := kept regs
  obtain ⟨dev', queueSel', status', word'⟩ := kept other
  exact ⟨by rw [dev, dev', alike.dev], by rw [queueSel, queueSel', alike.queueSel],
    by rw [status, status', alike.status], by rw [word, word', alike.word]⟩

theorem set (alike : regs.Alike wiring other) (off v32 : Nat) :
    (regs.set off v32).Alike wiring (other.set off v32) := by
  unfold Mmio.set
  split
  · exact ⟨alike.dev, alike.queueSel, alike.status, rfl⟩
  · exact alike.setDriverFeatures v32
  · exact ⟨alike.dev, alike.queueSel, alike.status, alike.word⟩
  · exact ⟨alike.dev, rfl, alike.status, alike.word⟩
  · exact alike.configure _
  · exact alike.configure _
  · refine ⟨?_, alike.queueSel, alike.status, alike.word⟩
    unfold Mmio.acknowledge
    rw [alike.dev]
  · exact ⟨alike.dev, alike.queueSel, rfl, alike.word⟩
  · exact alike.configure _
  · exact alike.configure _
  · exact alike.configure _
  · exact alike.configure _
  · exact alike.configure _
  · exact alike.configure _
  · exact alike

end Mmio.Alike

variable {S P : Type}

/-- Boards that are the same but for registers that no read tells apart. -/
structure Board.Alike (wiring : Wiring) (board other : Board S) : Prop where
  state : other.state = board.state
  mem : other.mem = board.mem
  regs : board.regs.Alike wiring other.regs

theorem Board.Alike.step {wiring : Wiring} {peripheral : Peripheral S P} {board other next : Board S}
    {input : Input S P} (alike : board.Alike wiring other)
    (stepped : board.step peripheral input = some next) :
    ∃ next', other.step peripheral input = some next' ∧ next.Alike wiring next' := by
  obtain ⟨state, mem, regs⟩ := alike
  cases input with
  | store off data =>
    cases stepped
    refine ⟨_, rfl, ?_⟩
    rw [mem]
    split
    · exact ⟨state, rfl, regs⟩
    · exact ⟨state, mem, regs⟩
  | write off value =>
    unfold Board.step at stepped ⊢
    dsimp only at stepped ⊢
    split at stepped
    · rename_i rings
      obtain ⟨served, notified, same⟩ := Option.map_eq_some_iff.mp stepped
      cases same
      rw [if_pos rings, state, mem, regs.dev, notified]
      exact ⟨_, rfl, rfl, rfl, rfl, regs.queueSel, regs.status, regs.word⟩
    · rename_i other_
      cases stepped
      rw [if_neg other_]
      exact ⟨_, rfl, state, mem, regs.set off _⟩
  | inject packet =>
    unfold Board.step at stepped ⊢
    dsimp only at stepped ⊢
    obtain ⟨injected, done, same⟩ := Option.map_eq_some_iff.mp stepped
    cases same
    rw [mem, regs.dev, done]
    exact ⟨_, rfl, state, rfl, rfl, regs.queueSel, regs.status, regs.word⟩
  | host s =>
    cases stepped
    exact ⟨_, rfl, rfl, mem, regs⟩

/-- What a run shows at its end: the state of the device's backend, guest memory, and every register
that can be read. -/
def Board.shows (wiring : Wiring) (board : Board S) : S × Memory × (Nat → Nat) :=
  (board.state, board.mem, board.regs.read wiring)

def Board.Matches (wiring : Wiring) (peripheral : Peripheral S P) (board other : Board S) : Prop :=
  ∀ inputs, (Board.exec peripheral board inputs).map (Board.shows wiring) =
    (Board.exec peripheral other inputs).map (Board.shows wiring)

theorem Board.Alike.shows {wiring : Wiring} {board other : Board S} (alike : board.Alike wiring other) :
    other.shows wiring = board.shows wiring := by
  unfold Board.shows
  rw [alike.state, alike.mem, show other.regs.read wiring =
    board.regs.read wiring from funext alike.regs.read]

theorem Board.Alike.symm {wiring : Wiring} {board other : Board S} (alike : board.Alike wiring other) :
    other.Alike wiring board := ⟨alike.state.symm, alike.mem.symm, alike.regs.symm⟩

theorem Board.Alike.run {wiring : Wiring} {peripheral : Peripheral S P} {board other last : Board S}
    {inputs : List (Input S P)} (alike : board.Alike wiring other)
    (ran : Board.exec peripheral board inputs = some last) :
    ∃ last', Board.exec peripheral other inputs = some last' ∧ last.Alike wiring last' := by
  have keeps : ∀ (s t : Board S) (a : Input S P) (s' : Board S), s.Alike wiring t →
      s.step peripheral a = some s' → ∃ t', t.step peripheral a = some t' ∧ s'.Alike wiring t' :=
    fun _ _ _ _ same stepped => same.step stepped
  exact Run.exec_relation keeps inputs alike ran

theorem Board.Alike.matches {wiring : Wiring} {board other : Board S} (alike : board.Alike wiring other)
    (peripheral : Peripheral S P) : board.Matches wiring peripheral other := by
  intro inputs
  cases ran : Board.exec peripheral board inputs with
  | some last =>
    obtain ⟨last', ran', same⟩ := alike.run ran
    rw [ran', Option.map_some, Option.map_some, same.shows]
  | none =>
    cases ran' : Board.exec peripheral other inputs with
    | none => rfl
    | some last =>
      obtain ⟨last', again, _⟩ := alike.symm.run ran'
      rw [ran] at again
      cases again

def freshRegs (skips : Nat) : Mmio :=
  { dev := { queues := List.replicate maxQueues {}, skipNotifyQueues := skips } }

/-- A dump can be applied to a new device of its kind, which the guest then cannot tell from the old
one; a part of it, or another device, is refused and nothing changed. -/
structure Survives (wiring : Wiring) (peripheral : Peripheral S P) (board : Board S) (payload : Bytes) :
    Prop where
  dumped : dumpDevice wiring.id board.regs = some payload
  restored : ∃ regs, applyDevice wiring.id (freshRegs board.regs.dev.skipNotifyQueues) payload =
    (regs, .ok ()) ∧ board.Matches wiring peripheral { board with regs }
  truncated : ∀ k < payload.length, ∀ target into,
    ∃ e, applyDevice target into (payload.take k) = (into, .error e)
  mismatch : ∀ target into, target ≠ wiring.id → ∃ e, applyDevice target into payload = (into, .error e)

/-- The transport of a device survives a snapshot exactly when the word of features that it shows is
the one a new device shows. -/
theorem virtio_dump_survives_iff (wiring : Wiring) (peripheral : Peripheral S P) {board : Board S}
    (typed : board.regs.Typed) :
    (∃ payload, Survives wiring peripheral board payload) ↔
      wiring.featuresWord board.regs.deviceFeaturesSel = wiring.featuresWord 0 := by
  have made : (freshRegs board.regs.dev.skipNotifyQueues).dev.queues.length = maxQueues :=
    List.length_replicate
  have applied := applyDevice_dump typed wiring.known made
  have dumped := dumpDevice_eq typed wiring.known
  constructor
  · rintro ⟨payload, survives⟩
    obtain rfl := Option.some.inj (survives.dumped.symm.trans dumped)
    obtain ⟨regs, restored, matches_⟩ := survives.restored
    obtain rfl := (congrArg Prod.fst (applied.symm.trans restored))
    have shown := congrArg (fun shows => shows.2.2 0x010) (Option.some.inj (matches_ []))
    exact shown
  · intro word
    have alike : board.Alike wiring
        { board with
          regs := (applyDevice wiring.id (freshRegs board.regs.dev.skipNotifyQueues)
            (dumpBytes wiring.id board.regs)).1 } := by
      rw [applied]
      exact ⟨rfl, rfl, rfl, rfl, rfl, word.symm⟩
    refine ⟨dumpBytes wiring.id board.regs, dumped, ⟨_, ?_, alike.matches peripheral⟩, ?_, ?_⟩
    · rw [applied]
    · exact fun k short target into => ⟨_, applyDevice_truncated typed wiring.known short target into⟩
    · exact fun target into other => ⟨_, applyDevice_mismatch typed wiring.known other into⟩

/-- A network device that offers only what version 1 of the transport requires. -/
def netWiring : Wiring := ⟨DEVICE_NET, 2 ^ 32, 256, none, rfl⟩

def selected (sel : Nat) : Board (List Bytes) :=
  ⟨[], ⟨0, [], []⟩, { freshRegs 0 with deviceFeaturesSel := sel }⟩

theorem selected_typed (sel : Nat) : (selected sel).regs.Typed := by
  have word : 0 < 2 ^ 32 := by decide
  refine ⟨List.length_replicate, fun q member => ?_, word, (by decide : 0 < 2 ^ 64), word, word⟩
  rw [(List.mem_replicate.mp member).2]
  decide

/-- A network device whose driver has programmed both queues, with so many chains of each taken and
an interrupt pending. -/
def inUse (received sent : Nat) : Mmio where
  dev :=
    { queues := ⟨256, 1, 0x4000, 0x5000, 0x6000, received⟩ :: ⟨128, 1, 0x7000, 0x8000, 0x9000, sent⟩ ::
        List.replicate 6 {}
      interruptStatus := IRQ_USED_BUFFER }
  driverFeatures := 2 ^ 32
  status := 15
  queueSel := 1

theorem inUse_typed : (inUse 3 65535).Typed := by
  refine ⟨rfl, ?_, by decide, by decide, by decide, by decide⟩
  decide

/-- All that the driver has programmed is in the restored device. -/
theorem device_in_use_survives : ∃ payload,
    Survives netWiring netPeripheral ⟨[], ⟨0, [], []⟩, inUse 3 65535⟩ payload ∧
      applyDevice DEVICE_NET (freshRegs 0) payload = (inUse 3 65535, .ok ()) := by
  have typed : (⟨[], ⟨0, [], []⟩, inUse 3 65535⟩ : Board (List Bytes)).regs.Typed := inUse_typed
  obtain ⟨payload, survives⟩ := (virtio_dump_survives_iff netWiring netPeripheral typed).mpr rfl
  obtain rfl := Option.some.inj (survives.dumped.symm.trans (dumpDevice_eq inUse_typed rfl))
  exact ⟨_, survives, applyDevice_dump inUse_typed rfl List.length_replicate⟩

/-- A snapshot between the choice of the high word and its read: the old device shows version 1, the
restored one shows nothing. -/
theorem selector_is_lost :
    Board.exec netPeripheral (Board.boot 0 [] 0 []) [.write 0x014 1] = some (selected 1) ∧
      ¬ ∃ payload, Survives netWiring netPeripheral (selected 1) payload := by
  refine ⟨rfl, ?_⟩
  rintro ⟨payload, survives⟩
  have typed := selected_typed 1
  obtain rfl := Option.some.inj (survives.dumped.symm.trans (dumpDevice_eq typed netWiring.known))
  obtain ⟨regs, restored, matches_⟩ := survives.restored
  have made : (freshRegs 0).dev.queues.length = maxQueues := List.length_replicate
  obtain rfl := congrArg Prod.fst ((applyDevice_dump typed netWiring.known made).symm.trans restored)
  have shown := congrArg (fun shows => shows.2.2 0x010) (Option.some.inj (matches_ []))
  exact absurd shown (by decide : ¬ 1 = 0)

end Machinen.Vmm
