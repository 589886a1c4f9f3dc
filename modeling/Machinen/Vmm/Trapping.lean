import Machinen.Vmm.Addressing
import Machinen.Vmm.Mmio

/-! Exactly when a computation over guest addresses traps: for each function the address sums it
comes to, as a condition on RAM and registers before it runs. -/
namespace Machinen.Vmm

open Bytes

variable {S : Type}

def Queue.config (q : Queue) : Queue := { q with lastAvailIdx := 0 }

def Device.configs (dev : Device) : List Queue := dev.queues.map Queue.config

variable {dev : Device} {qIdx idx : Nat} {q : Queue} {m : Memory} {s : S}

theorem Device.queue?_configs {dev' : Device} (same : dev'.configs = dev.configs)
    (known : dev.queue? qIdx = some q) : ∃ q', dev'.queue? qIdx = some q' ∧ q'.config = q.config := by
  unfold Device.queue? at known ⊢
  split at known
  · rename_i below
    rw [if_pos below]
    have mapped : dev'.configs[qIdx]? = some q.config := by
      rw [same]
      unfold Device.configs
      rw [List.getElem?_map, known]
      rfl
    unfold Device.configs at mapped
    rw [List.getElem?_map] at mapped
    exact Option.map_eq_some_iff.mp mapped
  · exact nomatch known

theorem Device.setQueue_configs {q' : Queue} (known : dev.queue? qIdx = some q)
    (same : q'.config = q.config) : (dev.setQueue qIdx q').configs = dev.configs := by
  have known : dev.queues[qIdx]? = some q := by
    unfold Device.queue? at known
    split at known
    · exact known
    · exact nomatch known
  unfold Device.setQueue Device.configs
  dsimp only
  rw [List.map_set, same]
  obtain ⟨inside, -⟩ := List.getElem?_eq_some_iff.mp known
  refine List.ext_getElem? fun i => ?_
  rw [List.getElem?_set]
  split
  · rename_i here
    subst here
    rw [if_pos (by rw [List.length_map]; exact inside), List.getElem?_map, known]
    rfl
  · rfl

theorem Device.consume_configs (dev : Device) (qIdx : Nat) : (dev.consume qIdx).configs = dev.configs := by
  unfold Device.consume
  cases known : dev.queue? qIdx with
  | none => rfl
  | some q => exact Device.setQueue_configs known rfl

theorem readAvailRingEntry_isSome (num : q.num ≠ 0) :
    (readAvailRingEntry m q idx).isSome ↔ m.Addressable (q.driverAddr + 4 + idx % q.num * 2) 2 := by
  unfold readAvailRingEntry
  rw [if_neg num, Option.bind_eq_bind, u64_bind_isSome, Option.bind_eq_bind, bind_isSome,
    Memory.guestSlice_isSome]
  exact ⟨fun ⟨word, ends, _⟩ => ⟨word, ends⟩, fun ⟨word, ends⟩ => ⟨word, ends, fun _ _ => rfl⟩⟩

/-- The place of the next used element, from the index that the guest keeps in RAM. -/
def usedElemAddr (m : Memory) (q : Queue) : Nat :=
  q.deviceAddr + 4 + toNat (slice m.bytes (q.deviceAddr - m.base + 2) 2) % q.num * 8

def UsedSafe (m : Memory) (q : Queue) : Prop :=
  m.Ends q.deviceAddr 4 ∧ (m.Contains q.deviceAddr 4 → m.Addressable (usedElemAddr m q) 8)

instance (m : Memory) (q : Queue) : Decidable (UsedSafe m q) := inferInstanceAs (Decidable (_ ∧ _))

theorem pushUsed_isSome {id len : Nat} (num : q.num ≠ 0) :
    (pushUsed m q id len).isSome ↔ UsedSafe m q := by
  have slot : (usedSlot m q).isSome ↔ UsedSafe m q := by
    unfold usedSlot UsedSafe
    rw [if_neg num, Option.bind_eq_bind, bind_isSome, Memory.guestSlice_isSome]
    refine and_congr_right fun ends => ?_
    obtain ⟨found, sliced⟩ := Option.isSome_iff_exists.mp (Memory.guestSlice_isSome.mpr ends)
    have found_eq := Memory.guestSlice_contains sliced
    rw [sliced]
    simp only [Option.some.injEq, forall_eq']
    by_cases inside : m.Contains q.deviceAddr 4
    · rw [if_pos inside] at found_eq
      subst found_eq
      dsimp only
      rw [Option.bind_eq_bind, u64_bind_isSome, bind_isSome, Memory.guestSlice_isSome]
      exact ⟨fun safe _ => ⟨safe.1, safe.2.1⟩,
        fun safe => ⟨(safe inside).1, (safe inside).2, fun _ _ => rfl⟩⟩
    · rw [if_neg inside] at found_eq
      subst found_eq
      exact iff_of_true rfl fun contains => absurd contains inside
  rw [← slot]
  unfold pushUsed
  rw [Option.bind_eq_bind, bind_isSome]
  refine and_iff_left fun found _ => ?_
  cases found <;> rfl

/-- A loop over the ring, with the condition of its handler along the way. -/
def ServeSafe (handler : Handler S) (safe : S → Memory → Device → Nat → Nat → Prop) (qIdx availIdx : Nat) :
    Nat → S → Memory → Device → Prop
  | 0, _, _, _ => True
  | chains + 1, s, m, dev => ∀ q, dev.queue? qIdx = some q → q.lastAvailIdx ≠ availIdx →
    m.Addressable (q.driverAddr + 4 + q.lastAvailIdx % q.num * 2) 2 ∧
    ∀ head, readAvailRingEntry m q q.lastAvailIdx = some (some head) →
      safe s m dev qIdx head ∧
      ∀ s' m' dev', handler s m dev qIdx head = some (s', m', dev') →
        ServeSafe handler safe qIdx availIdx chains s' m' (dev'.consume qIdx)

/-- A handler with its own condition, which leaves the registers as they are and stores inside
RAM. -/
structure Handler.Exact (handler : Handler S) (safe : S → Memory → Device → Nat → Nat → Prop) : Prop where
  exact_ : ∀ s m dev qIdx head q, dev.queue? qIdx = some q → q.num ≠ 0 →
    ((handler s m dev qIdx head).isSome ↔ safe s m dev qIdx head)
  keeps : ∀ s m dev qIdx head s' m' dev', handler s m dev qIdx head = some (s', m', dev') →
    dev'.configs = dev.configs ∧ m.DeviceOnly m'

section Serving

variable {handler : Handler S} {safe : S → Memory → Device → Nat → Nat → Prop}

theorem num_of_config {q' : Queue} (same : q'.config = q.config) : q'.num = q.num := by
  have nums : q'.config.num = q.config.num := by rw [same]
  exact nums

theorem serveChains_isSome (exact_ : handler.Exact safe) {availIdx chains : Nat}
    (known : dev.queue? qIdx = some q) (num : q.num ≠ 0) :
    (serveChains handler qIdx availIdx chains s m dev).isSome ↔
      ServeSafe handler safe qIdx availIdx chains s m dev := by
  induction chains generalizing s m dev q with
  | zero => exact iff_of_true rfl trivial
  | succ chains ih =>
    unfold serveChains ServeSafe
    simp only [known, Option.some.injEq, forall_eq']
    by_cases done : q.lastAvailIdx = availIdx
    · rw [if_pos done]
      exact iff_of_true rfl fun more => absurd done more
    rw [if_neg done, Option.bind_eq_bind, bind_isSome, readAvailRingEntry_isSome num]
    simp only [ne_eq, done, not_false_eq_true, forall_const]
    refine and_congr_right fun _ => ?_
    constructor
    · intro goes head read
      obtain ⟨handled, rest⟩ := bind_isSome.mp (goes (some head) read)
      refine ⟨(exact_.exact_ s m dev qIdx head q known num).mp handled, fun s' m' dev' ran => ?_⟩
      obtain ⟨q', known', same⟩ := Device.queue?_configs
        ((Device.consume_configs dev' qIdx).trans (exact_.keeps _ _ _ _ _ _ _ _ ran).1) known
      exact (ih known' (num_of_config same ▸ num)).mp (bind_isSome.mp (rest (s', m', dev') ran)).1
    · intro safe found read
      cases found with
      | none => rfl
      | some head =>
        obtain ⟨now, later⟩ := safe head read
        refine bind_isSome.mpr ⟨(exact_.exact_ s m dev qIdx head q known num).mpr now, ?_⟩
        rintro ⟨s', m', dev'⟩ ran
        obtain ⟨q', known', same⟩ := Device.queue?_configs
          ((Device.consume_configs dev' qIdx).trans (exact_.keeps _ _ _ _ _ _ _ _ ran).1) known
        exact bind_isSome.mpr ⟨(ih known' (num_of_config same ▸ num)).mpr (later s' m' dev' ran),
          fun _ _ => rfl⟩

theorem serveChains_keeps (exact_ : handler.Exact safe) {availIdx chains : Nat}
    {served : Served S} (ran : serveChains handler qIdx availIdx chains s m dev = some served) :
    served.dev.configs = dev.configs ∧ m.DeviceOnly served.mem := by
  induction chains generalizing s m dev served with
  | zero => exact Option.some.inj ran ▸ ⟨rfl, .refl m⟩
  | succ chains ih =>
    unfold serveChains at ran
    split at ran
    · exact nomatch ran
    · split at ran
      · exact Option.some.inj ran ▸ ⟨rfl, .refl m⟩
      · obtain ⟨found, -, ran⟩ := Option.bind_eq_some_iff.mp ran
        cases found with
        | none => exact Option.some.inj ran ▸ ⟨rfl, .refl m⟩
        | some head =>
          obtain ⟨⟨s', m', dev'⟩, handled, ran⟩ := Option.bind_eq_some_iff.mp ran
          obtain ⟨rest, later, ran⟩ := Option.bind_eq_some_iff.mp ran
          obtain ⟨configs, first⟩ := exact_.keeps _ _ _ _ _ _ _ _ handled
          obtain ⟨configs', second⟩ := ih later
          rw [Device.consume_configs] at configs'
          exact Option.some.inj ran ▸ ⟨configs'.trans configs, first.trans second⟩

def NotifySafe (consumer : Consumer S) (safe : S → Memory → Device → Nat → Nat → Prop) (s : S) (m : Memory)
    (dev : Device) (qIdx : Nat) : Prop :=
  ∀ q, dev.queue? qIdx = some q → q.ready ≠ 0 → q.num ≠ 0 → consumer.skips dev qIdx = false →
    m.Ends q.driverAddr 4 ∧ ∀ availIdx, readAvailHeader m q = some (some availIdx) →
      ServeSafe consumer.handler safe qIdx availIdx q.num s m dev

theorem notify_isSome {consumer : Consumer S} (exact_ : consumer.handler.Exact safe) :
    (notify consumer s m dev qIdx).isSome ↔ NotifySafe consumer safe s m dev qIdx := by
  unfold notify NotifySafe
  cases known : dev.queue? qIdx with
  | none => exact iff_of_true rfl (by rintro _ ⟨⟩)
  | some q =>
    simp only [Option.some.injEq, forall_eq']
    by_cases idle : q.ready = 0 ∨ q.num = 0 ∨ consumer.skips dev qIdx = true
    · rw [if_pos idle]
      refine iff_of_true rfl fun ready num taken => ?_
      rcases idle with idle | idle | skipped
      · exact absurd idle ready
      · exact absurd idle num
      · cases taken.symm.trans skipped
    · rw [if_neg idle, Option.bind_eq_bind, bind_isSome, readAvailHeader_isSome]
      obtain ⟨ready, rest⟩ := not_or.mp idle
      obtain ⟨num, taken⟩ := not_or.mp rest
      simp only [ne_eq, ready, num, eq_false_of_ne_true taken, not_false_eq_true, forall_const]
      refine and_congr_right fun _ => ?_
      constructor
      · intro goes availIdx read
        exact (serveChains_isSome exact_ known num).mp (bind_isSome.mp (goes (some availIdx) read)).1
      · intro safe found read
        cases found with
        | none => rfl
        | some availIdx =>
          exact bind_isSome.mpr ⟨(serveChains_isSome exact_ known num).mpr (safe availIdx read),
            fun _ _ => rfl⟩

theorem notify_keeps {consumer : Consumer S} (exact_ : consumer.handler.Exact safe) {served : Served S}
    (ran : notify consumer s m dev qIdx = some served) :
    served.dev.configs = dev.configs ∧ m.DeviceOnly served.mem := by
  unfold notify at ran
  split at ran
  · exact Option.some.inj ran ▸ ⟨rfl, .refl m⟩
  · split at ran
    · exact Option.some.inj ran ▸ ⟨rfl, .refl m⟩
    · obtain ⟨found, -, ran⟩ := Option.bind_eq_some_iff.mp ran
      cases found with
      | none => exact Option.some.inj ran ▸ ⟨rfl, .refl m⟩
      | some availIdx =>
        obtain ⟨served', ran', ran⟩ := Option.bind_eq_some_iff.mp ran
        have kept := serveChains_keeps exact_ ran'
        obtain rfl := Option.some.inj ran
        unfold Served.raise
        split <;> exact kept

end Serving

section Filling

/-- The chunks that a buffer takes from the sources, the first of which decides whether the
buffer is in RAM. -/
def BufferSafe (m : Memory) (addr : Nat) : List Bytes → Nat → Prop
  | [], _ => True
  | source :: rest, budget => budget ≠ 0 →
    if source = [] then BufferSafe m addr rest budget
    else
      m.Addressable addr (min budget source.length) ∧
      (m.Contains addr (min budget source.length) → source.length ≤ min budget source.length →
        BufferSafe m (addr + min budget source.length) rest (budget - min budget source.length))

theorem BufferSafe.congr (m m' : Memory) (base : m'.base = m.base)
    (length : m'.bytes.length = m.bytes.length) (addr : Nat) (sources : List Bytes) (budget : Nat) :
    BufferSafe m' addr sources budget ↔ BufferSafe m addr sources budget := by
  induction sources generalizing addr budget with
  | nil => exact Iff.rfl
  | cons source rest ih =>
    unfold BufferSafe Memory.Addressable Memory.Ends Memory.Contains
    simp only [ih, base, length]

theorem fillBuffer_isSome {addr budget written : Nat} {sources : List Bytes} :
    (fillBuffer m addr sources budget written).isSome ↔ BufferSafe m addr sources budget := by
  induction sources generalizing m addr budget written with
  | nil => exact iff_of_true rfl trivial
  | cons source rest ih =>
    unfold fillBuffer BufferSafe
    by_cases full : budget = 0
    · rw [if_pos full]
      exact iff_of_true rfl fun room => absurd full room
    rw [if_neg full]
    simp only [ne_eq, full, not_false_eq_true, forall_const]
    by_cases empty : source = []
    · rw [if_pos empty, if_pos empty]
      exact ih
    rw [if_neg empty, if_neg empty]
    rw [Option.bind_eq_bind, u64_bind_isSome, Option.bind_eq_bind, bind_isSome, Memory.guestSlice_isSome,
      ← and_assoc]
    refine and_congr_right fun both => ?_
    obtain ⟨found, sliced⟩ := Option.isSome_iff_exists.mp (Memory.guestSlice_isSome.mpr both.2)
    have found_eq := Memory.guestSlice_contains sliced
    rw [sliced]
    simp only [Option.some.injEq, forall_eq']
    by_cases inside : m.Contains addr (min budget source.length)
    · rw [if_pos inside] at found_eq
      subst found_eq
      simp only [inside, forall_const]
      by_cases part : min budget source.length < source.length
      · rw [if_pos part]
        exact iff_of_true rfl fun whole => absurd part (Nat.not_lt.mpr whole)
      · have length : (m.write (addr - m.base) (source.take (min budget source.length))).bytes.length =
          m.bytes.length := by
          rw [Memory.write_bytes, store_length]
        rw [if_neg part, ih]
        refine (BufferSafe.congr m (m.write (addr - m.base) (source.take (min budget source.length))) rfl
          length _ _ _).trans ?_
        exact ⟨fun safe _ => safe, fun safe => safe (Nat.le_of_not_lt part)⟩
    · rw [if_neg inside] at found_eq
      subst found_eq
      exact iff_of_true rfl fun contains => absurd contains inside

/-- A walk that fills a receive chain; `more` tells whether it goes on to the next descriptor. -/
def FillSafe (more : Copy → VringDesc → Bool) (q : Queue) : Nat → Copy → Nat → Prop
  | 0, _, _ => True
  | steps + 1, copy, idx =>
    (q.num ≤ idx ∨ copy.mem.Addressable (q.descAddr + idx * 16) 16) ∧
      ∀ desc, readDescriptor copy.mem q idx = some (some desc) → desc.isWritable = true →
        BufferSafe copy.mem desc.addr copy.rest desc.len ∧
        ∀ filled, fillBuffer copy.mem desc.addr copy.rest desc.len copy.written = some filled →
          more filled desc = true → FillSafe more q steps filled desc.next

def moreFrame (filled : Copy) (desc : VringDesc) : Bool := filled.ok && desc.hasNext

def morePacket (filled : Copy) (desc : VringDesc) : Bool :=
  filled.ok && !filled.rest.all List.isEmpty && desc.hasNext

theorem fillStep_isSome {more : Copy → VringDesc → Bool} {steps : Nat} {copy : Copy}
    {walk : Copy → Nat → Option Copy} (ih : ∀ copy idx,
    (walk copy idx).isSome ↔ FillSafe more q steps copy idx) (finish : Copy → VringDesc → Copy) :
    ((readDescriptor copy.mem q idx).bind fun found =>
      match found with
      | none => some { copy with ok := false }
      | some desc =>
        if !desc.isWritable then some { copy with ok := false }
        else (fillBuffer copy.mem desc.addr copy.rest desc.len copy.written).bind fun filled =>
          if more filled desc then walk filled desc.next else some (finish filled desc)).isSome ↔
      FillSafe more q (steps + 1) copy idx := by
  unfold FillSafe
  rw [bind_isSome, readDescriptor_isSome]
  refine and_congr_right fun _ => ?_
  have one (desc : VringDesc) (filled : Copy) :
      (if more filled desc then walk filled desc.next else some (finish filled desc)).isSome ↔
        (more filled desc = true → FillSafe more q steps filled desc.next) := by
    rw [← ih]
    split
    · rename_i next
      simp only [next, forall_const]
    · rename_i last
      exact iff_of_true rfl fun next => absurd next last
  constructor
  · intro goes desc read writable
    have goes := goes (some desc) read
    dsimp only at goes
    rw [if_neg (by rw [writable]; decide)] at goes
    obtain ⟨buffer, rest⟩ := bind_isSome.mp goes
    exact ⟨fillBuffer_isSome.mp buffer, fun filled fill => (one desc filled).mp (rest filled fill)⟩
  · intro safe found read
    cases found with
    | none => rfl
    | some desc =>
      dsimp only
      split
      · rfl
      · rename_i writable
        obtain ⟨buffer, rest⟩ := safe desc read (by simpa using writable)
        exact bind_isSome.mpr ⟨fillBuffer_isSome.mpr buffer,
          fun filled fill => (one desc filled).mpr (rest filled fill)⟩

theorem fillFrameChain_isSome {steps : Nat} {copy : Copy} :
    (fillFrameChain q steps copy idx).isSome ↔ FillSafe moreFrame q steps copy idx := by
  induction steps generalizing copy idx with
  | zero => exact iff_of_true rfl trivial
  | succ steps ih => exact fillStep_isSome (fun _ _ => ih) fun filled _ => filled

def finishPacket (filled : Copy) (_ : VringDesc) : Copy :=
  if !filled.ok || filled.rest.all List.isEmpty then filled else { filled with ok := false }

theorem fillPacketChain_isSome {steps : Nat} {copy : Copy} :
    (fillPacketChain q steps copy idx).isSome ↔ FillSafe morePacket q steps copy idx := by
  induction steps generalizing copy idx with
  | zero => exact iff_of_true rfl trivial
  | succ steps ih =>
    have shape (filled : Copy) (desc : VringDesc) :
        (if !filled.ok || filled.rest.all List.isEmpty then some filled
          else if desc.hasNext then fillPacketChain q steps filled desc.next else some
            { filled with ok := false }) =
        if morePacket filled desc then fillPacketChain q steps filled desc.next else some
          (finishPacket filled desc) := by
      unfold morePacket finishPacket
      cases filled.ok <;> cases filled.rest.all List.isEmpty <;> cases desc.hasNext <;> rfl
    rw [← fillStep_isSome (fun _ _ => ih) finishPacket]
    simp only [← shape]
    exact Iff.rfl

end Filling

section Injecting

def HeadSafe (m : Memory) (q : Queue) : Prop :=
  m.Ends q.driverAddr 4 ∧ ∀ availIdx, readAvailHeader m q = some (some availIdx) →
    q.lastAvailIdx ≠ availIdx → m.Addressable (q.driverAddr + 4 + q.lastAvailIdx % q.num * 2) 2

theorem nextHead_isSome (num : q.num ≠ 0) :
    (nextHead m q).isSome ↔ HeadSafe m q := by
  unfold nextHead HeadSafe
  rw [Option.bind_eq_bind, bind_isSome, readAvailHeader_isSome]
  refine and_congr_right fun _ => ?_
  have entry (availIdx : Nat) : (if q.lastAvailIdx =
    availIdx then some none else readAvailRingEntry m q q.lastAvailIdx).isSome ↔
      (q.lastAvailIdx ≠ availIdx → m.Addressable (q.driverAddr + 4 + q.lastAvailIdx % q.num * 2) 2) := by
    split
    · rename_i done
      exact iff_of_true rfl fun more => absurd done more
    · rename_i more
      rw [readAvailRingEntry_isSome num]
      exact ⟨fun safe _ => safe, fun safe => safe more⟩
  constructor
  · exact fun goes availIdx read => (entry availIdx).mp (goes (some availIdx) read)
  · intro safe found read
    cases found with
    | none => rfl
    | some availIdx => exact (entry availIdx).mpr (safe availIdx read)

/-- An injection with the condition of its walk. -/
def InjectSafe (walk : Queue → Nat → Copy → Nat → Option Copy) (walkSafe : Queue → Nat → Copy → Nat → Prop)
    (sources : List Bytes) (m : Memory) (dev : Device) : Prop :=
  ∀ q, dev.queue? 0 = some q → q.ready ≠ 0 → q.num ≠ 0 →
    HeadSafe m q ∧ ∀ head, nextHead m q = some (some head) →
      walkSafe q maxChainDescriptors ⟨m, sources, 0, true⟩ head ∧
      ∀ copied, walk q maxChainDescriptors ⟨m, sources, 0, true⟩ head = some copied → copied.ok = true →
        UsedSafe copied.mem q

theorem injectInto_isSome {walk : Queue → Nat → Copy → Nat → Option Copy}
    {walkSafe : Queue → Nat → Copy → Nat → Prop}
    (walk_isSome : ∀ q steps copy idx, (walk q steps copy idx).isSome ↔ walkSafe q steps copy idx)
    {sources : List Bytes} (known : dev.queue? 0 = some q) :
    (injectInto walk sources m dev).isSome ↔ InjectSafe walk walkSafe sources m dev := by
  unfold injectInto InjectSafe
  simp only [known, Option.some.injEq, forall_eq']
  by_cases idle : q.ready = 0 ∨ q.num = 0
  · rw [if_pos idle]
    refine iff_of_true rfl fun ready num => ?_
    exact idle.elim (fun zero => absurd zero ready) fun zero => absurd zero num
  rw [if_neg idle]
  obtain ⟨ready, num⟩ := not_or.mp idle
  simp only [ne_eq, ready, num, not_false_eq_true, forall_const]
  rw [Option.bind_eq_bind, bind_isSome, nextHead_isSome num]
  refine and_congr_right fun _ => ?_
  have published (head : Nat) : ((walk q maxChainDescriptors ⟨m, sources, 0, true⟩ head).bind fun copied =>
      if copied.ok then (pushUsed copied.mem q head copied.written).bind fun published =>
        some (published, (dev.setQueue 0 q.consume).raise, true)
      else some (copied.mem, dev, false)).isSome ↔
      walkSafe q maxChainDescriptors ⟨m, sources, 0, true⟩ head ∧
        ∀ copied, walk q maxChainDescriptors ⟨m, sources, 0, true⟩ head = some copied → copied.ok = true →
          UsedSafe copied.mem q := by
    rw [bind_isSome, walk_isSome]
    refine and_congr_right fun _ => forall_congr' fun copied => forall_congr' fun _ => ?_
    split
    · rename_i ok
      rw [bind_isSome, pushUsed_isSome num]
      exact ⟨fun both _ => both.1, fun safe => ⟨safe ok, fun _ _ => rfl⟩⟩
    · rename_i failed
      exact iff_of_true rfl fun ok => absurd ok failed
  constructor
  · exact fun goes head read => (published head).mp (goes (some head) read)
  · intro safe found read
    cases found with
    | none => rfl
    | some head => exact (published head).mpr (safe head read)

theorem injectInto_configs {walk : Queue → Nat → Copy → Nat → Option Copy} {sources : List Bytes}
    {m' : Memory}
    {dev' : Device} {placed : Bool} (injected : injectInto walk sources m dev =
      some (m', dev', placed)) :
    dev'.configs = dev.configs := by
  unfold injectInto at injected
  split at injected
  · exact nomatch injected
  · rename_i q known
    split at injected
    · cases injected
      rfl
    · obtain ⟨found, -, injected⟩ := Option.bind_eq_some_iff.mp injected
      cases found with
      | none =>
        cases injected
        rfl
      | some head =>
        obtain ⟨copied, -, injected⟩ := Option.bind_eq_some_iff.mp injected
        split at injected
        · obtain ⟨published, -, injected⟩ := Option.bind_eq_some_iff.mp injected
          cases injected
          exact Device.setQueue_configs known rfl
        · cases injected
          rfl

end Injecting

end Machinen.Vmm
