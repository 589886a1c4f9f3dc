import Machinen.Vmm.Addressing
import Mathlib.Data.Nat.ModEq

/-! A notification handles the chains that are new in the available ring, in order, and
publishes one used entry for each, while both indices wrap at sixteen bits. -/
namespace Machinen.Vmm

open Bytes

variable {S : Type}

def Queue.slot (q : Queue) (i : Nat) : Nat := i % 65536 % q.num

structure UsedRing (m : Memory) (q : Queue) : Prop where
  word : m.base + m.bytes.length < 2 ^ 64
  positive : 0 < q.num
  used : m.base ≤ q.deviceAddr ∧ q.deviceAddr + 4 + 8 * q.num ≤ m.base + m.bytes.length

/-- The rings lie in RAM and the used ring meets neither of the others. -/
structure Layout (m : Memory) (q : Queue) : Prop where
  word : m.base + m.bytes.length < 2 ^ 64
  size : ∃ k, q.num = 2 ^ k
  table : m.base ≤ q.descAddr ∧ q.descAddr + 16 * q.num ≤ m.base + m.bytes.length
  avail : m.base ≤ q.driverAddr ∧ q.driverAddr + 4 + 2 * q.num ≤ m.base + m.bytes.length
  used : m.base ≤ q.deviceAddr ∧ q.deviceAddr + 4 + 8 * q.num ≤ m.base + m.bytes.length
  apartAvail : q.deviceAddr + 4 + 8 * q.num ≤ q.driverAddr ∨ q.driverAddr + 4 + 2 * q.num ≤ q.deviceAddr
  apartTable : q.deviceAddr + 4 + 8 * q.num ≤ q.descAddr ∨ q.descAddr + 16 * q.num ≤ q.deviceAddr

def availIdx (m : Memory) (q : Queue) : Nat := toNat (slice m.bytes (q.driverAddr - m.base + 2) 2)

def availEntry (m : Memory) (q : Queue) (i : Nat) : Nat :=
  toNat (slice m.bytes (q.driverAddr - m.base + 4 + q.slot i * 2) 2)

def usedIdx (m : Memory) (q : Queue) : Nat := toNat (slice m.bytes (q.deviceAddr - m.base + 2) 2)

def usedEntry (m : Memory) (q : Queue) (i : Nat) : Bytes :=
  slice m.bytes (q.deviceAddr - m.base + 4 + q.slot i * 8) 8

theorem Layout.positive {m : Memory} {q : Queue} (layout : Layout m q) : 0 < q.num := by
  obtain ⟨k, size⟩ := layout.size
  exact size ▸ Nat.two_pow_pos k

theorem Layout.usedRing {m : Memory} {q : Queue} (layout : Layout m q) : UsedRing m q :=
  ⟨layout.word, layout.positive, layout.used⟩

theorem slot_ne {q : Queue} (size : ∃ k, q.num = 2 ^ k) (i : Nat) {j k : Nat} (before : j < k)
    (round : k < q.num) (short : k < 65536) : q.slot (i + j) ≠ q.slot (i + k) := by
  unfold Queue.slot
  obtain ⟨e, size⟩ := size
  intro same
  rcases Nat.lt_or_ge 16 e with large | small
  · have wide : 65536 < q.num := size ▸ Nat.pow_lt_pow_right (by decide : 1 < 2) large
    rw [Nat.mod_eq_of_lt (by omega : (i + j) % 65536 < q.num),
      Nat.mod_eq_of_lt (by omega : (i + k) % 65536 < q.num)] at same
    omega
  · have divides : q.num ∣ 65536 := size ▸ pow_dvd_pow 2 small
    rw [Nat.mod_mod_of_dvd _ divides, Nat.mod_mod_of_dvd _ divides] at same
    have apart : q.num ∣ (i + k) - (i + j) := (Nat.modEq_iff_dvd' (by omega)).mp same
    exact absurd (Nat.le_of_dvd (by omega) apart) (by omega)

theorem slice_store_outside (xs ys : Bytes) (off at_ len : Nat)
    (apart : at_ + len ≤ off ∨ off + ys.length ≤ at_) :
    slice (store xs off ys) at_ len = slice xs at_ len := by
  refine List.ext_getElem? fun i => ?_
  rw [slice_getElem?, slice_getElem?]
  split
  · exact store_outside xs off ys (at_ + i) (by omega)
  · rfl

theorem slice_store_same (xs ys : Bytes) (off : Nat) (fits : off + ys.length ≤ xs.length) :
    slice (store xs off ys) off ys.length = ys := (holdsAt_store xs off ys fits).slice_eq

/-- One used entry more for a chain, and nothing else of the rings touched. -/
structure Published (q : Queue) (m m' : Memory) (head : Nat) : Prop where
  base : m'.base = m.base
  length : m'.bytes.length = m.bytes.length
  table : ∀ idx, readDescriptor m' q idx = readDescriptor m q idx
  avail : availIdx m' q = availIdx m q
  entries : ∀ i, availEntry m' q i = availEntry m q i
  index : usedIdx m' q = (usedIdx m q + 1) % 65536
  elem : ∃ len, usedEntry m' q (usedIdx m q) = usedElem head len
  others : ∀ i, q.slot i ≠ q.slot (usedIdx m q) → usedEntry m' q i = usedEntry m q i

variable {m' : Memory} {dev : Device} {last a : Nat} {s : S} {consumer : Consumer S}

theorem Published.layout {q : Queue} {m : Memory} {head : Nat} (published : Published q m m' head)
    (layout : Layout m q) : Layout m' q := by
  obtain ⟨word, size, table, avail, used, apartAvail, apartTable⟩ := layout
  exact ⟨by rw [published.base, published.length]; exact word, size,
    by rw [published.base, published.length]; exact table, by rw [published.base, published.length]; exact avail,
    by rw [published.base, published.length]; exact used, apartAvail, apartTable⟩

theorem Memory.guestSlice_congr {m : Memory} (base : m'.base = m.base)
    (length : m'.bytes.length = m.bytes.length)
    (addr len : Nat) : m'.guestSlice addr len = m.guestSlice addr len := by
  unfold Memory.guestSlice
  rw [base, length]

section Rings

variable {m : Memory} {q : Queue}

theorem UsedRing.guestSlice (ring : UsedRing m q) {addr len : Nat} (low : m.base ≤ addr)
    (high : addr + len ≤ m.base + m.bytes.length) :
    m.guestSlice addr len = some (some (addr - m.base)) := by
  have word := ring.word
  have inside := m.guestSlice_inside (by omega) (show addr - m.base + len ≤ m.bytes.length by omega)
  rwa [Nat.add_sub_cancel' low] at inside

theorem UsedRing.slot_lt (ring : UsedRing m q) (i : Nat) : q.slot i < q.num := Nat.mod_lt _ ring.positive

theorem usedIdx_lt (m : Memory) (q : Queue) : usedIdx m q < 65536 := slice_lt m.bytes _ 2

theorem Layout.readAvailHeader (layout : Layout m q) :
    readAvailHeader m q = some (some (availIdx m q)) := by
  have avail := layout.avail
  unfold Vmm.readAvailHeader
  rw [layout.usedRing.guestSlice avail.1 (by omega)]
  rfl

theorem Layout.readAvailRingEntry (layout : Layout m q) {i : Nat} (short : i < 65536) :
    readAvailRingEntry m q i = some (some (availEntry m q i)) := by
  have avail := layout.avail
  have word := layout.word
  have slot := layout.usedRing.slot_lt i
  have place : i % q.num = q.slot i := by rw [Queue.slot, Nat.mod_eq_of_lt short]
  unfold Vmm.readAvailRingEntry
  rw [if_neg (Nat.ne_of_gt layout.positive), place, u64, if_pos (by omega)]
  simp only [Option.bind_eq_bind, Option.bind_some]
  rw [layout.usedRing.guestSlice (by omega) (by omega)]
  have off : q.driverAddr + 4 + q.slot i * 2 - m.base = q.driverAddr - m.base + 4 + q.slot i * 2 := by omega
  simp only [Option.bind_some, Option.map_some, off]
  rfl

theorem UsedRing.usedSlot (ring : UsedRing m q) : usedSlot m q = some (some
    ⟨q.deviceAddr - m.base + 4 + q.slot (usedIdx m q) * 8, q.deviceAddr - m.base + 2,
    (usedIdx m q + 1) % 65536⟩) := by
  have used := ring.used
  have word := ring.word
  have slot := ring.slot_lt (usedIdx m q)
  have place : usedIdx m q % q.num = q.slot (usedIdx m q) := by
    rw [Queue.slot, Nat.mod_eq_of_lt (usedIdx_lt m q)]
  unfold Vmm.usedSlot
  rw [if_neg (Nat.ne_of_gt ring.positive), ring.guestSlice used.1 (by omega)]
  simp only [Option.bind_eq_bind, Option.bind_some]
  change (u64 (q.deviceAddr + 4 + usedIdx m q % q.num * 8)).bind _ = _
  rw [place, u64, if_pos (by omega), Option.bind_some, ring.guestSlice (by omega) (by omega)]
  have off : q.deviceAddr + 4 + q.slot (usedIdx m q) * 8 - m.base =
    q.deviceAddr - m.base + 4 + q.slot (usedIdx m q) * 8 := by
    omega
  simp only [Option.bind_some, Option.map_some, off]
  rfl

/-- The entry, then the index: what `push_used` makes of RAM. -/
def pushedBytes (m : Memory) (q : Queue) (head len : Nat) : Bytes :=
  store (store m.bytes (q.deviceAddr - m.base + 4 + q.slot (usedIdx m q) * 8) (usedElem head len))
    (q.deviceAddr - m.base + 2) (le 2 ((usedIdx m q + 1) % 65536))

theorem pushedBytes_length (m : Memory) (q : Queue) (head len : Nat) :
    (pushedBytes m q head len).length = m.bytes.length := by
  rw [pushedBytes, store_length, store_length]

theorem UsedRing.pushedBytes_outside (ring : UsedRing m q) (head len : Nat) {at_ n : Nat}
    (apart : at_ + n ≤ q.deviceAddr - m.base ∨ q.deviceAddr - m.base + 4 + 8 * q.num ≤ at_) :
    slice (pushedBytes m q head len) at_ n = slice m.bytes at_ n := by
  have slot := ring.slot_lt (usedIdx m q)
  unfold pushedBytes
  rw [slice_store_outside _ _ _ _ _ (by rw [le_length]; omega),
    slice_store_outside _ _ _ _ _ (by rw [usedElem_length]; omega)]

theorem UsedRing.pushedBytes_index (ring : UsedRing m q) (head len : Nat) :
    slice (pushedBytes m q head len) (q.deviceAddr - m.base + 2) 2 = le 2 ((usedIdx m q + 1) % 65536) := by
  have used := ring.used
  have stored := slice_store_same (store m.bytes (q.deviceAddr - m.base + 4 + q.slot (usedIdx m q) * 8)
    (usedElem head len)) (le 2 ((usedIdx m q + 1) % 65536)) (q.deviceAddr - m.base + 2)
    (by rw [store_length, le_length]; omega)
  rwa [le_length] at stored

theorem UsedRing.pushedBytes_entry (ring : UsedRing m q) (head len i : Nat) :
    slice (pushedBytes m q head len) (q.deviceAddr - m.base + 4 + q.slot i * 8) 8 =
      if q.slot i = q.slot (usedIdx m q) then usedElem head len else usedEntry m q i := by
  have used := ring.used
  have slot := ring.slot_lt (usedIdx m q)
  unfold pushedBytes
  rw [slice_store_outside _ _ _ _ _ (by rw [le_length]; omega)]
  split
  · rename_i same
    have stored := slice_store_same m.bytes (usedElem head len)
      (q.deviceAddr - m.base + 4 + q.slot (usedIdx m q) * 8) (by rw [usedElem_length]; omega)
    rw [usedElem_length] at stored
    rw [same, stored]
  · rename_i apart
    rw [slice_store_outside _ _ _ _ _ (by rw [usedElem_length]; omega)]
    rfl

theorem UsedRing.pushUsed (ring : UsedRing m q) (head len : Nat) : ∃ m', pushUsed m q head len = some m' ∧
    m'.base = m.base ∧ m'.bytes = pushedBytes m q head len := by
  rw [Vmm.pushUsed, ring.usedSlot]
  exact ⟨_, rfl, rfl, rfl⟩

/-- The chain is completed by one used entry, the next of the ring, with the given length. -/
structure OneUsed (q : Queue) (m m' : Memory) (head len : Nat) : Prop where
  index : usedIdx m' q = (usedIdx m q + 1) % 65536
  elem : usedEntry m' q (usedIdx m q) = usedElem head len
  others : ∀ i, q.slot i ≠ q.slot (usedIdx m q) → usedEntry m' q i = usedEntry m q i

theorem UsedRing.oneUsed (ring : UsedRing m q) {head len : Nat} (base : m'.base = m.base)
    (bytes : m'.bytes = pushedBytes m q head len) : OneUsed q m m' head len := by
  refine ⟨?_, ?_, fun i other => ?_⟩
  · have small : (usedIdx m q + 1) % 65536 < 256 ^ 2 := Nat.mod_lt _ (by decide)
    have written := toNat_le 2 _ small
    unfold usedIdx
    rw [bytes, base, ring.pushedBytes_index]
    exact written
  · unfold usedEntry
    rw [bytes, base, ring.pushedBytes_entry, if_pos rfl]
  · have entry := ring.pushedBytes_entry head len i
    rw [if_neg other] at entry
    unfold usedEntry at entry ⊢
    rw [bytes, base, entry]

theorem UsedRing.congr (ring : UsedRing m q) (base : m'.base = m.base)
    (length : m'.bytes.length = m.bytes.length) : UsedRing m' q :=
  ⟨by rw [base, length]; exact ring.word, ring.positive, by rw [base, length]; exact ring.used⟩

theorem UsedRing.pushedBytes_getElem? (ring : UsedRing m q) {head len i : Nat}
    (outside : m.base + i < q.deviceAddr ∨ q.deviceAddr + 4 + 8 * q.num ≤ m.base + i) :
    (pushedBytes m q head len)[i]? = m.bytes[i]? := by
  have used := ring.used
  have slot := ring.slot_lt (usedIdx m q)
  unfold pushedBytes
  rw [store_outside _ _ _ _ (by rw [le_length]; omega), store_outside _ _ _ _ (by rw [usedElem_length]; omega)]

theorem Layout.readDescriptor_pushed (layout : Layout m q) (head len idx : Nat)
    (base : m'.base = m.base)
    (bytes : m'.bytes = pushedBytes m q head len) : readDescriptor m' q idx = readDescriptor m q idx := by
  have length : m'.bytes.length = m.bytes.length := by rw [bytes, pushedBytes_length]
  have table := layout.table
  have used := layout.used
  have apart := layout.apartTable
  have word := layout.word
  unfold readDescriptor
  split
  · rfl
  · rename_i inside
    rw [u64, if_pos (by omega)]
    simp only [Option.bind_eq_bind, Option.bind_some, Memory.guestSlice_congr base length]
    rw [layout.usedRing.guestSlice (by omega) (by omega)]
    simp only [Option.bind_some, Option.map_some, bytes]
    rw [layout.usedRing.pushedBytes_outside head len (by omega)]

theorem Layout.pushUsed (layout : Layout m q) (head len : Nat) : ∃ m', pushUsed m q head len = some m' ∧
    Published q m m' head := by
  have apart := layout.apartAvail
  have avail := layout.avail
  have used := layout.used
  refine ⟨_, by rw [Vmm.pushUsed, layout.usedRing.usedSlot]; rfl, ?_⟩
  refine ⟨rfl, pushedBytes_length m q head len,
    fun idx => layout.readDescriptor_pushed head len idx rfl rfl, ?_,
    fun i => ?_, ?_, ⟨len, ?_⟩, fun i other => ?_⟩
  · have same : slice (pushedBytes m q head len) (q.driverAddr - m.base + 2) 2 = slice m.bytes _ 2 :=
      layout.usedRing.pushedBytes_outside head len (by omega)
    exact congrArg toNat same
  · have slot := layout.usedRing.slot_lt i
    have same : slice (pushedBytes m q head len) (q.driverAddr - m.base + 4 + q.slot i * 2) 2 =
      slice m.bytes _ 2 :=
      layout.usedRing.pushedBytes_outside head len (by omega)
    exact congrArg toNat same
  · exact (congrArg toNat (layout.usedRing.pushedBytes_index head len)).trans
      (toNat_le 2 _ (Nat.mod_lt _ (by decide)))
  · exact (layout.usedRing.pushedBytes_entry head len _).trans (if_pos rfl)
  · exact (layout.usedRing.pushedBytes_entry head len i).trans (if_neg other)

end Rings

/-- A queue whose own index stands at `last`. -/
def Queue.atIdx (q : Queue) (last : Nat) : Queue := { q with lastAvailIdx := last }

/-- How many chains are new, as far as one notification takes them. -/
def pending (m : Memory) (q : Queue) (last : Nat) : Nat := min q.num ((availIdx m q + 65536 - last) % 65536)

/-- The next `n` chains of the available ring are handled in order, each with one used entry
in the place that the used index gives it, and both indices are `n` further. -/
structure Handled (q : Queue) (qIdx : Nat) (m : Memory) (last n : Nat) (served : Served S) : Prop where
  finished : served.finished = true
  heads : served.heads = (List.range n).map fun k => availEntry m q (last + k)
  queue : served.dev.queue? qIdx = some (q.atIdx ((last + n) % 65536))
  index : usedIdx served.mem q = (usedIdx m q + n) % 65536
  entries : ∀ k < n, ∃ len, usedEntry served.mem q (usedIdx m q + k) =
    usedElem (availEntry m q (last + k)) len
  others : ∀ i, (∀ k < n, q.slot i ≠ q.slot (usedIdx m q + k)) → usedEntry served.mem q i = usedEntry m q i

/-- A handler that answers a chain with one used entry and leaves the rings and the queue
alone where the chain is safe, and stops the process where it is not. -/
structure Answers (handler : Handler S) (q : Queue) (qIdx : Nat) (safe : Memory → Nat → Prop) : Prop where
  answer : ∀ s m dev last head, Layout m q → dev.queue? qIdx = some (q.atIdx last) → safe m head →
    ∃ s' m' dev', handler s m dev qIdx head = some (s', m', dev') ∧ Published q m m' head ∧
      dev'.queue? qIdx = some (q.atIdx last) ∧ dev'.skipNotifyQueues = dev.skipNotifyQueues
  stop : ∀ s m dev last head, Layout m q → dev.queue? qIdx = some (q.atIdx last) → ¬ safe m head →
    handler s m dev qIdx head = none
  stable : ∀ m m' head done, Layout m q → Published q m m' done → (safe m' head ↔ safe m head)

theorem Layout.atIdx {m : Memory} {q : Queue} (layout : Layout m q) (last : Nat) :
    Layout m (q.atIdx last) :=
  ⟨layout.word, layout.size, layout.table, layout.avail, layout.used, layout.apartAvail, layout.apartTable⟩

@[simp] theorem Device.consume_skips (dev : Device) (qIdx : Nat) :
    (dev.consume qIdx).skipNotifyQueues = dev.skipNotifyQueues := by
  unfold Device.consume
  cases dev.queue? qIdx <;> rfl

theorem Device.consume_queue? {qIdx : Nat} {q : Queue} (known : dev.queue? qIdx = some q) :
    (dev.consume qIdx).queue? qIdx = some q.consume := by
  unfold Device.consume
  rw [known]
  unfold Device.queue? at known ⊢
  split at known
  · rename_i below
    obtain ⟨inside, -⟩ := List.getElem?_eq_some_iff.mp known
    rw [if_pos below]
    exact List.getElem?_set_self inside
  · exact nomatch known

theorem slot_mod (q : Queue) (i k : Nat) : q.slot (i % 65536 + k) = q.slot (i + k) := by
  unfold Queue.slot
  rw [Nat.mod_add_mod]

theorem availEntry_mod (m : Memory) (q : Queue) (i k : Nat) :
    availEntry m q (i % 65536 + k) = availEntry m q (i + k) := by
  unfold availEntry
  rw [slot_mod]

theorem Handled.cons {q : Queue} {qIdx : Nat} {m : Memory} {n : Nat} {served : Served S}
    (layout : Layout m q) (round : n + 1 ≤ q.num) (short : n + 1 ≤ 65536)
    (published : Published q m m' (availEntry m q last))
    (rest : Handled q qIdx m' ((last + 1) % 65536) n served) :
    Handled q qIdx m last (n + 1) { served with heads := availEntry m q last :: served.heads } := by
  have next : ∀ k, availEntry m' q ((last + 1) % 65536 + k) = availEntry m q (last + (k + 1)) := by
    intro k
    rw [published.entries, availEntry_mod, Nat.add_assoc, Nat.add_comm 1 k]
  have place : ∀ k, q.slot (usedIdx m' q + k) = q.slot (usedIdx m q + (k + 1)) := by
    intro k
    rw [published.index, slot_mod, Nat.add_assoc, Nat.add_comm 1 k]
  have slot_of : ∀ i k, q.slot i = q.slot k → usedEntry served.mem q i = usedEntry served.mem q k := by
    intro i k same
    unfold usedEntry
    rw [same]
  refine ⟨rest.finished, ?_, ?_, ?_, ?_, ?_⟩
  · rw [rest.heads, List.range_succ_eq_map, List.map_cons, List.map_map]
    exact congrArg _ (List.map_congr_left fun k _ => next k)
  · rw [rest.queue, Nat.mod_add_mod, Nat.add_assoc, Nat.add_comm 1 n]
  · rw [rest.index, published.index, Nat.mod_add_mod, Nat.add_assoc, Nat.add_comm 1 n]
  · intro k within
    cases k with
    | zero =>
      obtain ⟨len, elem⟩ := published.elem
      refine ⟨len, ?_⟩
      -- The later entries go to other places.
      rw [Nat.add_zero, Nat.add_zero, rest.others, elem]
      intro k later
      rw [place]
      exact slot_ne layout.size (usedIdx m q) (Nat.succ_pos k) (by omega) (by omega)
    | succ k =>
      obtain ⟨len, elem⟩ := rest.entries k (Nat.lt_of_succ_lt_succ within)
      refine ⟨len, ?_⟩
      rw [slot_of _ _ (place k).symm, elem, next]
  · intro i apart
    rw [rest.others i fun k within => place k ▸ apart (k + 1) (Nat.succ_lt_succ within)]
    exact published.others i (apart 0 (Nat.succ_pos n))

theorem Handled.none {q : Queue} {qIdx : Nat} {m : Memory}
    (short : last < 65536)
    (known : dev.queue? qIdx = some (q.atIdx last)) : Handled q qIdx m last 0 ⟨s, m, dev, [], true⟩ where
  finished := rfl
  heads := rfl
  queue := by rw [Nat.add_zero, Nat.mod_eq_of_lt short]; exact known
  index := by rw [Nat.add_zero, Nat.mod_eq_of_lt (usedIdx_lt m q)]
  entries k within := absurd within (Nat.not_lt_zero k)
  others _ _ := rfl

theorem pending_step (a_short : a < 65536) (short : last < 65536) (more : last ≠ a) :
    (a + 65536 - last) % 65536 = (a + 65536 - (last + 1) % 65536) % 65536 + 1 := by
  omega

section Serve

variable {handler : Handler S} {q : Queue} {qIdx : Nat} {safe : Memory → Nat → Prop}

theorem serveChains_succ {fuel : Nat} {m : Memory} (layout : Layout m q) (short : last < 65536)
    (known : dev.queue? qIdx = some (q.atIdx last)) (more : last ≠ a) :
    serveChains handler qIdx a (fuel + 1) s m dev =
      (handler s m dev qIdx (availEntry m q last)).bind fun after =>
      (serveChains handler qIdx a fuel after.1 after.2.1 (after.2.2.consume qIdx)).bind fun rest =>
        some { rest with heads := availEntry m q last :: rest.heads } := by
  have entry : readAvailRingEntry m (q.atIdx last) last = some (some (availEntry m q last)) :=
    (layout.atIdx last).readAvailRingEntry short
  simp only [serveChains, known]
  rw [if_neg (show (q.atIdx last).lastAvailIdx ≠ a from more)]
  change (readAvailRingEntry m (q.atIdx last) last).bind _ = _
  rw [entry]
  rfl

theorem Answers.serve (answers : Answers handler q qIdx safe) (a_short : a < 65536) (fuel : Nat)
    (bounded : fuel ≤ q.num) {m : Memory} (layout : Layout m q)
    (short : last < 65536) (known : dev.queue? qIdx = some (q.atIdx last))
    (all : ∀ k < min fuel ((a + 65536 - last) % 65536), safe m (availEntry m q (last + k))) :
    ∃ served, serveChains handler qIdx a fuel s m dev = some served ∧
      Handled q qIdx m last (min fuel ((a + 65536 - last) % 65536)) served ∧
      served.dev.skipNotifyQueues = dev.skipNotifyQueues := by
  induction fuel generalizing s m dev last with
  | zero => exact ⟨_, rfl, by rw [Nat.zero_min]; exact .none short known, rfl⟩
  | succ fuel ih =>
    by_cases done : last = a
    · subst done
      refine ⟨⟨s, m, dev, [], true⟩, ?_, ?_, rfl⟩
      · unfold serveChains
        simp only [known]
        exact if_pos rfl
      · have none_left : (last + 65536 - last) % 65536 = 0 := by omega
        rw [none_left, Nat.min_zero]
        exact .none short known
    · have step := pending_step a_short short done
      rw [step, Nat.succ_min_succ] at all ⊢
      obtain ⟨s', m', dev', handled, published, kept, skips⟩ :=
        answers.answer s m dev last (availEntry m q last) layout known (all 0 (Nat.succ_pos _))
      have consumed : (dev'.consume qIdx).queue? qIdx = some (q.atIdx ((last + 1) % 65536)) :=
        Device.consume_queue? kept
      have rest_safe : ∀ k < min fuel ((a + 65536 - (last + 1) % 65536) % 65536),
          safe m' (availEntry m' q ((last + 1) % 65536 + k)) := by
        intro k within
        rw [answers.stable m m' _ _ layout published, published.entries, availEntry_mod, Nat.add_assoc,
          Nat.add_comm 1 k]
        exact all (k + 1) (Nat.succ_lt_succ within)
      obtain ⟨served, run, rest, same⟩ := ih (Nat.le_of_succ_le bounded) (published.layout layout)
        (Nat.mod_lt _ (by decide)) consumed rest_safe
      refine ⟨_, ?_, rest.cons layout (by omega) (by omega) published,
        same.trans ((Device.consume_skips dev' qIdx).trans skips)⟩
      rw [serveChains_succ layout short known done, handled, Option.bind_some]
      dsimp only
      rw [run, Option.bind_some]

theorem Answers.serve_safe (answers : Answers handler q qIdx safe) (a_short : a < 65536)
    (fuel : Nat) {m : Memory} (layout : Layout m q)
    (short : last < 65536) (known : dev.queue? qIdx = some (q.atIdx last))
    (some_ : (serveChains handler qIdx a fuel s m dev).isSome) :
    ∀ k < min fuel ((a + 65536 - last) % 65536), safe m (availEntry m q (last + k)) := by
  induction fuel generalizing s m dev last with
  | zero => exact fun k within => absurd within (by omega)
  | succ fuel ih =>
    by_cases done : last = a
    · subst done
      exact fun k within => absurd within (by omega)
    · have step := pending_step a_short short done
      rw [step, Nat.succ_min_succ]
      rw [serveChains_succ layout short known done] at some_
      obtain ⟨ran, rest⟩ := bind_isSome.mp some_
      have first : safe m (availEntry m q last) := by
        by_contra unsafe_
        rw [answers.stop s m dev last _ layout known unsafe_] at ran
        exact nomatch ran
      obtain ⟨s', m', dev', handled, published, kept, -⟩ := answers.answer s m dev last _ layout known first
      have consumed : (dev'.consume qIdx).queue? qIdx = some (q.atIdx ((last + 1) % 65536)) :=
        Device.consume_queue? kept
      have later := ih (published.layout layout) (Nat.mod_lt _ (by decide)) consumed
        (bind_isSome.mp (rest _ handled)).1
      intro k within
      cases k with
      | zero => exact first
      | succ k =>
        have next := later k (Nat.lt_of_succ_lt_succ within)
        rwa [answers.stable m m' _ _ layout published, published.entries, availEntry_mod, Nat.add_assoc,
          Nat.add_comm 1 k] at next

theorem Handled.raised {m : Memory} {n : Nat} {served : Served S}
    (handled : Handled q qIdx m last n served) : Handled q qIdx m last n served.raise := by
  have raised : served.raise = { served with dev := served.dev.raise } := if_pos handled.finished
  rw [raised]
  exact ⟨handled.finished, handled.heads, handled.queue, handled.index, handled.entries, handled.others⟩

theorem notify_serve {m : Memory} (layout : Layout m q) (known : dev.queue? qIdx = some (q.atIdx last))
    (ready : q.ready ≠ 0) (taken : consumer.skips dev qIdx = false) : notify consumer s m dev qIdx =
      (serveChains consumer.handler qIdx (availIdx m q) q.num s m dev).bind fun served =>
      some served.raise := by
  have header : readAvailHeader m (q.atIdx last) = some (some (availIdx m q)) :=
    (layout.atIdx last).readAvailHeader
  have open_ : ¬ ((q.atIdx last).ready = 0 ∨ (q.atIdx last).num = 0 ∨ consumer.skips dev qIdx = true) := by
    rintro (off | empty | skipped)
    · exact ready off
    · exact absurd empty (Nat.ne_of_gt layout.positive)
    · rw [taken] at skipped
      exact nomatch skipped
  simp only [notify, known]
  rw [if_neg open_, header]
  rfl

theorem Answers.notify (answers : Answers consumer.handler q qIdx safe) {m : Memory}
    (layout : Layout m q) (short : last < 65536) (known : dev.queue? qIdx = some (q.atIdx last))
    (ready : q.ready ≠ 0) (taken : consumer.skips dev qIdx = false)
    (all : ∀ k < pending m q last, safe m (availEntry m q (last + k))) :
    ∃ served, notify consumer s m dev qIdx = some served ∧ Handled q qIdx m last (pending m q last) served ∧
      served.dev.skipNotifyQueues = dev.skipNotifyQueues := by
  have a_short : availIdx m q < 65536 := slice_lt m.bytes _ 2
  obtain ⟨served, run, handled, skips⟩ := answers.serve a_short q.num (Nat.le_refl _) layout short known all
  refine ⟨served.raise, by rw [notify_serve layout known ready taken, run]; rfl, handled.raised, ?_⟩
  rw [Served.raise, if_pos handled.finished]
  exact skips

theorem Answers.notify_safe (answers : Answers consumer.handler q qIdx safe) {m : Memory}
    (layout : Layout m q) (short : last < 65536) (known : dev.queue? qIdx = some (q.atIdx last))
    (ready : q.ready ≠ 0) (taken : consumer.skips dev qIdx = false)
    (some_ : (Vmm.notify consumer s m dev qIdx).isSome) :
    ∀ k < pending m q last, safe m (availEntry m q (last + k)) := by
  rw [notify_serve layout known ready taken] at some_
  exact answers.serve_safe (slice_lt m.bytes _ 2) q.num layout short known (bind_isSome.mp some_).1

end Serve

theorem gatherSafe_congr {m : Memory} {q q' : Queue} (base : m'.base = m.base)
    (length : m'.bytes.length = m.bytes.length) (num : q'.num = q.num) (addr : q'.descAddr = q.descAddr)
    (table : ∀ idx, readDescriptor m' q' idx = readDescriptor m q idx) (steps idx count : Nat) :
    GatherSafe m' q' steps idx count ↔ GatherSafe m q steps idx count := by
  have ends : ∀ at_ len, m'.Ends at_ len ↔ m.Ends at_ len := fun at_ len => by
    rw [Memory.Ends, Memory.Ends, base]
  have contains : ∀ at_ len, m'.Contains at_ len ↔ m.Contains at_ len := fun at_ len => by
    rw [Memory.Contains, Memory.Contains, base, length]
  have taken : ∀ desc count, gathered m' desc count = gathered m desc count := fun desc count =>
    if_congr (contains _ _) rfl rfl
  induction steps generalizing idx count with
  | zero => exact Iff.rfl
  | succ steps ih => simp only [GatherSafe, table, num, addr, Memory.Addressable, ends, taken, ih]

theorem emitChain_answers (q : Queue) (qIdx : Nat) :
    Answers emitChain q qIdx fun m head => GatherSafe m q maxChainDescriptors head 0 := by
  have walk : ∀ m dev last head frames, Layout m q → dev.queue? qIdx = some (q.atIdx last) →
      emitChain frames m dev qIdx head = (gatherChain m (q.atIdx last) maxChainDescriptors head
        []).bind fun written =>
        (pushUsed m q head written.length).bind fun pushed =>
          some (if netHdrSize < written.length then frames ++ [written.drop netHdrSize] else frames, pushed,
            dev) := by
    intro m dev last head frames layout known
    have positive : (q.atIdx last).num ≠ 0 := Nat.ne_of_gt layout.positive
    simp only [emitChain, known, walkAndEmit, if_neg positive]
    rfl
  have same : ∀ m last head, (gatherChain m (q.atIdx last) maxChainDescriptors head []).isSome ↔
      GatherSafe m q maxChainDescriptors head 0 := fun m last head =>
    gatherChain_isSome.trans (gatherSafe_congr rfl rfl rfl rfl (fun _ => rfl) _ _ _)
  refine ⟨?_, ?_, ?_⟩
  · intro frames m dev last head layout known safe
    obtain ⟨written, gathered⟩ := Option.isSome_iff_exists.mp ((same m last head).mpr safe)
    obtain ⟨m', pushed, published⟩ := layout.pushUsed head written.length
    refine ⟨if netHdrSize < written.length then frames ++ [written.drop netHdrSize] else frames, m', dev,
      ?_, published, known, rfl⟩
    rw [walk m dev last head frames layout known, gathered, Option.bind_some, pushed]
    rfl
  · intro frames m dev last head layout known unsafe_
    have stuck : gatherChain m (q.atIdx last) maxChainDescriptors head [] = none :=
      Option.not_isSome_iff_eq_none.mp fun some_ => unsafe_ ((same m last head).mp some_)
    rw [walk m dev last head frames layout known, stuck]
    rfl
  · intro m m' head done _ published
    exact gatherSafe_congr published.base published.length rfl rfl published.table _ _ _

/-- Notifications one after the other, each with the RAM that the guest has made by then. -/
def notifyAll (consumer : Consumer S) (qIdx : Nat) : List Memory → S → Device → Option (List (Served S))
  | [], _, _ => some []
  | m :: ms, s, dev => do
    let served ← notify consumer s m dev qIdx
    let rest ← notifyAll consumer qIdx ms served.state served.dev
    return served :: rest

def HandledAll (q : Queue) (qIdx : Nat) : List Memory → Nat → List (Served S) → Prop
  | [], _, served => served = []
  | m :: ms, last, served => ∃ first rest, served = first :: rest ∧ Handled q qIdx m last (pending m q last) first ∧
      HandledAll q qIdx ms ((last + pending m q last) % 65536) rest

def SafeAll (safe : Memory → Nat → Prop) (q : Queue) : List Memory → Nat → Prop
  | [], _ => True
  | m :: ms, last => (∀ k < pending m q last, safe m (availEntry m q (last + k))) ∧
      SafeAll safe q ms ((last + pending m q last) % 65536)

/-- A consumer that takes the queue of a device, also after a handler ran. -/
def Consumer.Takes (consumer : Consumer S) (dev : Device) (qIdx : Nat) : Prop :=
  ∀ dev' : Device, dev'.skipNotifyQueues = dev.skipNotifyQueues → consumer.skips dev' qIdx = false

theorem Answers.notifyAll_iff {q : Queue} {qIdx : Nat} {safe : Memory → Nat → Prop}
    (answers : Answers consumer.handler q qIdx safe) (ready : q.ready ≠ 0) (ms : List Memory)
    (layouts : ∀ m ∈ ms, Layout m q) (short : last < 65536)
    (known : dev.queue? qIdx = some (q.atIdx last)) (taken : consumer.Takes dev qIdx) :
    (∃ served, notifyAll consumer qIdx ms s dev = some served ∧ HandledAll q qIdx ms last served) ↔
      SafeAll safe q ms last := by
  induction ms generalizing s dev last with
  | nil => exact iff_of_true ⟨[], rfl, rfl⟩ trivial
  | cons m ms ih =>
    obtain ⟨layout, layouts⟩ := List.forall_mem_cons.mp layouts
    have next_short : (last + pending m q last) % 65536 < 65536 := Nat.mod_lt _ (by decide)
    constructor
    · rintro ⟨_, run, served, later, rfl, handled, handled_later⟩
      obtain ⟨served', first, rest⟩ := Option.bind_eq_some_iff.mp run
      obtain ⟨later', rest, same⟩ := Option.bind_eq_some_iff.mp rest
      cases Option.some.inj same
      have safe_now := answers.notify_safe layout short known ready (taken dev rfl) (by rw [first]; rfl)
      obtain ⟨served', first', -, skips⟩ := answers.notify (s := s) layout short known ready (taken dev rfl)
        safe_now
      cases Option.some.inj (first.symm.trans first')
      have next_taken : consumer.Takes served.dev qIdx := fun dev' same => taken dev' (same.trans skips)
      exact ⟨safe_now, (ih layouts next_short handled.queue next_taken).mp ⟨later, rest, handled_later⟩⟩
    · rintro ⟨safe_now, safe_later⟩
      obtain ⟨served, first, handled, skips⟩ :=
        answers.notify (s := s) layout short known ready (taken dev rfl) safe_now
      have next_taken : consumer.Takes served.dev qIdx := fun dev' same => taken dev' (same.trans skips)
      obtain ⟨later, rest, handled_later⟩ :=
        (ih layouts (s := served.state) next_short handled.queue next_taken).mpr safe_later
      refine ⟨served :: later, ?_, served, later, rfl, handled, handled_later⟩
      rw [notifyAll, first]
      simp only [Option.bind_eq_bind, Option.bind_some, rest]
      rfl

/-- Over any sequence of notifications of a transmit queue, every new chain is handled and
published once and in order just when no buffer of it ends past the 64-bit address space. Of a
device with a request handler, just when the handler answers each of them. -/
theorem notifications_exactlyOnce (q : Queue) (qIdx : Nat) (ready : q.ready ≠ 0) (ms : List Memory)
    (layouts : ∀ m ∈ ms, Layout m q) (dev : Device) (last : Nat) (short : last < 65536)
    (known : dev.queue? qIdx = some (q.atIdx last)) :
    (qIdx ≠ 0 → ∀ frames,
      ((∃ served, notifyAll netConsumer qIdx ms frames dev = some served ∧
        HandledAll q qIdx ms last served) ↔
        SafeAll (fun m head => GatherSafe m q maxChainDescriptors head 0) q ms last)) ∧
    ∀ {S : Type} (handler : Handler S) (safe : Memory → Nat → Prop), Answers handler q qIdx safe →
      dev.skipNotifyQueues.testBit qIdx = false → ∀ s,
      ((∃ served, notifyAll (requestConsumer handler) qIdx ms s dev = some served ∧
        HandledAll q qIdx ms last served) ↔ SafeAll safe q ms last) := by
  constructor
  · intro transmit frames
    have taken : netConsumer.Takes dev qIdx := fun _ _ => beq_false_of_ne transmit
    exact (emitChain_answers q qIdx).notifyAll_iff ready ms layouts short known taken
  · intro S handler safe answers drained s
    have taken : (requestConsumer handler).Takes dev qIdx := fun dev' same => by
      change dev'.skipNotifyQueues.testBit qIdx = false
      rw [same]
      exact drained
    exact answers.notifyAll_iff ready ms layouts short known taken

/-- RAM of 64 bytes from address 0: two descriptors, the available ring with both heads and an
index of one after the wrap, the used ring and a buffer. -/
def wrapRam (addr len : Nat) : Memory where
  base := 0
  bytes := VringDesc.encode ⟨addr, len, 0, 0⟩ ++ VringDesc.encode ⟨60, 4, 0, 0⟩ ++
    (le 2 0 ++ le 2 1 ++ le 2 1 ++ le 2 0) ++ (le 2 0 ++ le 2 65535 ++ zeros 16) ++ [1, 2, 3, 4]
  stores := []

def wrapQueue : Queue := { num := 2, ready := 1, descAddr := 0, driverAddr := 32, deviceAddr := 40 }

def wrapDevice : Device := { queues := [{}, wrapQueue.atIdx 65535] }

theorem wrapRam_layout (addr len : Nat) : Layout (wrapRam addr len) wrapQueue := by
  have length : (wrapRam addr len).bytes.length = 64 := by simp [wrapRam, VringDesc.encode, zeros]
  refine ⟨?_, ⟨1, rfl⟩, ?_, ?_, ?_, .inr (by decide), .inr (by decide)⟩
  all_goals
    rw [length]
    simp only [wrapRam, wrapQueue]
    omega

def ackChain : Handler Unit := fun s m dev qIdx head =>
  (queuePushUsed m dev qIdx head 0).map fun pushed => (s, pushed, dev)

theorem ackChain_answers (q : Queue) (qIdx : Nat) : Answers ackChain q qIdx fun _ _ => True := by
  refine ⟨?_, fun _ _ _ _ _ _ _ unsafe_ => absurd trivial unsafe_, fun _ _ _ _ _ _ => Iff.rfl⟩
  intro s m dev last head layout known _
  obtain ⟨m', pushed, published⟩ := layout.pushUsed head 0
  refine ⟨s, m', dev, ?_, published, known, rfl⟩
  unfold ackChain queuePushUsed
  rw [known]
  exact congrArg (Option.map _) pushed

theorem notifications_wrap :
    (∃ served, notifyAll netConsumer 1 [wrapRam 60 4, wrapRam 60 4] [] wrapDevice = some served ∧
      HandledAll wrapQueue 1 [wrapRam 60 4, wrapRam 60 4] 65535 served) ∧
    ∃ served, notifyAll (requestConsumer ackChain) 1 [wrapRam 60 4] () wrapDevice = some served ∧
      HandledAll wrapQueue 1 [wrapRam 60 4] 65535 served := by
  have net := notifications_exactlyOnce wrapQueue 1 (by decide) [wrapRam 60 4, wrapRam 60 4]
    (by simp [wrapRam_layout]) wrapDevice 65535 (by decide) rfl
  have request := notifications_exactlyOnce wrapQueue 1 (by decide) [wrapRam 60 4]
    (by simp [wrapRam_layout]) wrapDevice 65535 (by decide) rfl
  refine ⟨(net.1 (by decide) []).mpr ⟨by decide +kernel, by decide +kernel, trivial⟩, ?_⟩
  exact (request.2 ackChain _ (ackChain_answers wrapQueue 1) (by decide) ()).mpr
    ⟨fun _ _ => trivial, trivial⟩

/-- A buffer at the very end of the address space: its end is no 64-bit number. -/
theorem notification_trapped : Layout (wrapRam (2 ^ 64 - 1) 1) wrapQueue ∧
    ¬ ∃ served, notifyAll netConsumer 1 [wrapRam (2 ^ 64 - 1) 1] [] wrapDevice = some served ∧
      HandledAll wrapQueue 1 [wrapRam (2 ^ 64 - 1) 1] 65535 served := by
  refine ⟨wrapRam_layout _ _, ?_⟩
  rintro ⟨served, run, -⟩
  have stopped : notifyAll netConsumer 1 [wrapRam (2 ^ 64 - 1) 1] [] wrapDevice = none := by decide +kernel
  rw [stopped] at run
  exact nomatch run

end Machinen.Vmm
