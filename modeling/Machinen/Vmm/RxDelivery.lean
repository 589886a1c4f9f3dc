import Machinen.Vmm.PacketChains

/-! What becomes of a frame that is injected into the receive queue: the stores of the copy are
the header and the frame, byte after byte along the chain, as far as there is room. -/
namespace Machinen.Vmm

open Bytes

def storedBytes (stores : List Store) : Bytes := stores.flatMap Store.data

def storedPlaces (stores : List Store) : List Nat := stores.flatMap Store.places

def chainRoom (buffers : List VringDesc) : Nat := (buffers.map VringDesc.len).sum

theorem chainPlaces_length (m : Memory) (buffers : List VringDesc) :
    (m.chainPlaces buffers).length = chainRoom buffers := by
  induction buffers with
  | nil => rfl
  | cons desc rest ih =>
    rw [Memory.chainPlaces, List.flatMap_cons, List.length_append, Memory.placesOf, List.length_range']
    exact congrArg (desc.len + ·) ih

/-- A copy has put the first `count` bytes of its sources at the first spots it was given. -/
structure Copied (m : Memory) (spots : List Nat) (sources : List Bytes) (written : Nat) (copy : Copy)
    (count : Nat) (added : List Store) : Prop where
  stores : m.Extends copy.mem added
  data : storedBytes added = sources.flatten.take count
  places : storedPlaces added = spots.take count
  rest : copy.rest.flatten = sources.flatten.drop count
  written : copy.written = written + count
  fits : count ≤ min spots.length sources.flatten.length

theorem Copied.nothing (m : Memory) (spots : List Nat) (sources : List Bytes) (written : Nat)
    (ok : Bool) : Copied m spots sources written ⟨m, sources, written, ok⟩ 0 [] :=
  ⟨Memory.Extends.refl m, List.take_zero.symm, List.take_zero.symm, List.drop_zero.symm, rfl,
    Nat.zero_le _⟩

variable {copy : Copy} {q : Queue}

theorem Copied.append {m : Memory} {first second : List Nat} {sources : List Bytes} {written k l : Nat}
    {between : Copy} {one two : List Store} (before : Copied m first sources written between k one)
    (later : Copied between.mem second between.rest between.written copy l two)
    (full : l ≠ 0 → k = first.length) :
    Copied m (first ++ second) sources written copy (k + l) (one ++ two) := by
  refine ⟨before.stores.trans later.stores, ?_, ?_, ?_, ?_, ?_⟩
  · rw [storedBytes, List.flatMap_append]
    exact (congrArg₂ (· ++ ·) before.data (later.data.trans (by rw [before.rest]))).trans
      List.take_add.symm
  · rw [storedPlaces, List.flatMap_append]
    refine (congrArg₂ (· ++ ·) before.places later.places).trans ?_
    have in_first : k ≤ first.length := Nat.le_trans before.fits (Nat.min_le_left _ _)
    by_cases none_ : l = 0
    · rw [none_, List.take_zero, List.append_nil, Nat.add_zero, List.take_append_of_le_length in_first]
    · rw [full none_, List.take_length_add_append, List.take_length]
  · rw [later.rest, before.rest, List.drop_drop]
  · rw [later.written, before.written, Nat.add_assoc]
  · have left := before.fits
    have right := later.fits
    rw [before.rest, List.length_drop] at right
    rw [List.length_append]
    by_cases none_ : l = 0
    · omega
    · have := full none_
      omega

theorem Copied.more {m : Memory} {spots : List Nat} {sources : List Bytes} {written count : Nat}
    {added : List Store} (copied : Copied m spots sources written copy count added) (later : List Nat)
    (ok : Bool) : Copied m (spots ++ later) sources written { copy with ok := ok } count added := by
  have fits := copied.fits
  refine ⟨copied.stores, copied.data, ?_, copied.rest, copied.written, ?_⟩
  · rw [copied.places, List.take_append_of_le_length (by omega)]
  · rw [List.length_append]
    omega

theorem Copied.chunk {m : Memory} {off chunk : Nat} (source : Bytes) (rest : List Bytes) (written : Nat)
    (short : chunk ≤ source.length) (fits : off + chunk ≤ m.bytes.length) :
    Copied m (List.range' off chunk) (source :: rest) written
      ⟨m.write off (source.take chunk), source.drop chunk :: rest, written + chunk, true⟩ chunk
      [⟨off, source.take chunk⟩] := by
  have length : (source.take chunk).length = chunk := List.length_take_of_le short
  refine ⟨Memory.Extends.write (by rw [length]; exact fits), ?_, ?_, ?_, rfl, ?_⟩
  · rw [List.flatten_cons, List.take_append_of_le_length short]
    exact List.append_nil _
  · rw [storedPlaces, List.flatMap_cons, List.flatMap_nil, List.append_nil, Store.places, length,
      List.take_of_length_le (Nat.le_of_eq List.length_range')]
  · rw [List.flatten_cons, List.flatten_cons, List.drop_append_of_le_length short]
  · rw [List.length_range', List.flatten_cons, List.length_append]
    omega

theorem fillBuffer_copied {m : Memory} {addr budget written : Nat} {sources : List Bytes}
    (filled : fillBuffer m addr sources budget written = some copy) :
    ∃ count added, Copied m (List.range' (addr - m.base) budget) sources written copy count added ∧
      (copy.ok = true → count = min budget sources.flatten.length) := by
  induction sources generalizing m addr budget written with
  | nil =>
    obtain rfl := Option.some.inj filled
    exact ⟨0, [], Copied.nothing .., fun _ => (Nat.min_zero _).symm⟩
  | cons source rest ih =>
    unfold fillBuffer at filled
    split at filled
    · rename_i nothing
      obtain rfl := Option.some.inj filled
      exact ⟨0, [], Copied.nothing .., fun _ => by rw [nothing, Nat.zero_min]⟩
    rename_i some_
    split at filled
    · rename_i empty
      obtain ⟨count, added, copied, whole⟩ := ih filled
      have same : (source :: rest).flatten = rest.flatten := by rw [empty]; rfl
      rw [same]
      exact ⟨count, added, ⟨copied.stores, same ▸ copied.data, copied.places, same ▸ copied.rest,
        copied.written, same ▸ copied.fits⟩, whole⟩
    rename_i more
    have positive : 0 < source.length := List.length_pos_iff.mpr more
    simp only [Option.bind_eq_bind, Option.bind_eq_some_iff] at filled
    obtain ⟨start, start_eq, found, slice_found, filled⟩ := filled
    obtain rfl : addr = start := by
      unfold u64 at start_eq
      split at start_eq
      · exact Option.some.inj start_eq
      · cases start_eq
    cases found with
    | none =>
      obtain rfl := Option.some.inj filled
      exact ⟨0, [], Copied.nothing .., nofun⟩
    | some off =>
      have fits := Memory.guestSlice_fits slice_found
      obtain rfl := Memory.guestSlice_off slice_found
      have low : m.base ≤ addr := by
        by_contra below
        have nowhere := Memory.guestSlice_contains slice_found
        rw [if_neg fun inside => below inside.1] at nowhere
        cases nowhere
      have one := Copied.chunk source rest written (Nat.min_le_right budget source.length) fits
      have total : (source :: rest).flatten.length = source.length + rest.flatten.length := by
        rw [List.flatten_cons, List.length_append]
      dsimp only at filled
      split at filled
      · rename_i part
        obtain rfl := Option.some.inj filled
        have chunk : min budget source.length = budget := by omega
        refine ⟨budget, [⟨addr - m.base, source.take budget⟩], ?_, fun _ => by rw [total]; omega⟩
        rw [chunk] at one ⊢
        exact one
      · rename_i whole_source
        have chunk : min budget source.length = source.length := by omega
        rw [chunk] at filled one
        obtain ⟨count, added, later, whole⟩ := ih filled
        have next : addr + source.length - (m.write (addr - m.base) (source.take source.length)).base =
            addr - m.base + source.length := by
          rw [Memory.write_base]
          omega
        rw [next] at later
        rw [List.drop_length] at one
        have spots : List.range' (addr - m.base) source.length ++
            List.range' (addr - m.base + source.length) (budget - source.length) =
              List.range' (addr - m.base) budget := by
          rw [List.range'_append_1]
          congr 1
          omega
        have both := one.append ⟨later.stores, later.data, later.places, later.rest, later.written,
          later.fits⟩ fun _ => List.length_range'.symm
        rw [spots] at both
        exact ⟨_, _, both, fun fine => by rw [whole fine, total]; omega⟩

/-- The buffers that the walk over a chain fills, in their order; each is read after the copies
into those before it. -/
def chainBuffers (q : Queue) : Nat → Copy → Nat → List VringDesc
  | 0, _, _ => []
  | steps + 1, copy, idx =>
    match readDescriptor copy.mem q idx with
    | some (some desc) =>
      if !desc.isWritable then []
      else
        match fillBuffer copy.mem desc.addr copy.rest desc.len copy.written with
        | some filled => desc :: if filled.ok && desc.hasNext then chainBuffers q steps filled desc.next else []
        | none => []
    | _ => []

theorem fillFrameChain_copied {steps idx : Nat} {done : Copy}
    (walked : fillFrameChain q steps copy idx = some done) : ∃ count added,
    Copied copy.mem (copy.mem.chainPlaces (chainBuffers q steps copy idx)) copy.rest copy.written done
      count
        added ∧
      (done.ok = true →
        count = min (chainRoom (chainBuffers q steps copy idx)) copy.rest.flatten.length) := by
  induction steps generalizing copy idx with
  | zero =>
    obtain rfl := Option.some.inj walked
    exact ⟨0, [], Copied.nothing .., fun _ => (Nat.zero_min _).symm⟩
  | succ steps ih =>
    simp only [fillFrameChain, Option.bind_eq_bind, Option.bind_eq_some_iff] at walked
    obtain ⟨found, read, walked⟩ := walked
    unfold chainBuffers
    rw [read]
    cases found with
    | none =>
      obtain rfl := Option.some.inj walked
      exact ⟨0, [], Copied.nothing .., by rintro ⟨⟩⟩
    | some desc =>
      dsimp only at walked ⊢
      by_cases writable : desc.isWritable = true
      · rw [if_neg (by simp [writable])] at walked ⊢
        obtain ⟨filled, fill, walked⟩ := Option.bind_eq_some_iff.mp walked
        obtain ⟨k, one, here, whole⟩ := fillBuffer_copied fill
        rw [fill]
        dsimp only
        split at walked
        · rename_i go_on
          rw [if_pos go_on]
          simp only [Bool.and_eq_true] at go_on
          obtain ⟨l, two, later, rest_whole⟩ := ih walked
          have left : filled.rest.flatten.length = copy.rest.flatten.length - k := by
            rw [here.rest, List.length_drop]
          have filled_up := whole go_on.1
          rw [Memory.chainPlaces_congr here.stores.base_eq] at later
          refine ⟨k + l, one ++ two, ?_, fun fine => ?_⟩
          · rw [Memory.chainPlaces, List.flatMap_cons]
            refine here.append later fun some_ => ?_
            have := later.fits
            rw [List.length_range']
            omega
          · have := rest_whole fine
            rw [chainRoom, List.map_cons, List.sum_cons, ← chainRoom]
            omega
        · rename_i stop
          obtain rfl := Option.some.inj walked
          rw [if_neg stop, Memory.chainPlaces, List.flatMap_cons, List.flatMap_nil, List.append_nil]
          exact ⟨k, one, here, fun fine => by rw [whole fine]; simp [chainRoom]⟩
      · rw [if_pos (by simp [writable])] at walked ⊢
        obtain rfl := Option.some.inj walked
        exact ⟨0, [], Copied.nothing .., by rintro ⟨⟩⟩

theorem fillPacketChain_copied {steps idx : Nat} {done : Copy}
    (walked : fillPacketChain q steps copy idx = some done) : ∃ count added,
    Copied copy.mem (copy.mem.chainPlaces (chainBuffers q steps copy idx)) copy.rest copy.written done
      count added := by
  induction steps generalizing copy idx with
  | zero =>
    obtain rfl := Option.some.inj walked
    exact ⟨0, [], Copied.nothing ..⟩
  | succ steps ih =>
    simp only [fillPacketChain, Option.bind_eq_bind, Option.bind_eq_some_iff] at walked
    obtain ⟨found, read, walked⟩ := walked
    unfold chainBuffers
    rw [read]
    cases found with
    | none =>
      obtain rfl := Option.some.inj walked
      exact ⟨0, [], Copied.nothing ..⟩
    | some desc =>
      dsimp only at walked ⊢
      split at walked
      · rename_i refused
        obtain rfl := Option.some.inj walked
        rw [if_pos refused]
        exact ⟨0, [], Copied.nothing ..⟩
      · rename_i writable
        obtain ⟨filled, fill, walked⟩ := Option.bind_eq_some_iff.mp walked
        obtain ⟨k, one, here, whole⟩ := fillBuffer_copied fill
        rw [if_neg writable, fill]
        dsimp only
        rw [Memory.chainPlaces_cons]
        split at walked
        · obtain rfl := Option.some.inj walked
          exact ⟨k, one, here.more _ _⟩
        · rename_i go_on
          have fine : filled.ok = true := by
            by_contra refused
            rw [Bool.not_eq_true] at refused
            exact go_on (by rw [refused]; rfl)
          split at walked
          · rename_i linked
            rw [fine, linked, Bool.and_self, if_pos rfl]
            obtain ⟨l, two, later⟩ := ih walked
            rw [Memory.chainPlaces_congr here.stores.base_eq] at later
            refine ⟨k + l, one ++ two, here.append later fun some_ => ?_⟩
            have full := whole fine
            have left : filled.rest.flatten.length = copy.rest.flatten.length - k := by
              rw [here.rest, List.length_drop]
            have := later.fits
            rw [List.length_range']
            omega
          · obtain rfl := Option.some.inj walked
            exact ⟨k, one, here.more _ _⟩

section Injection

variable (m : Memory) (dev : Device) (frame : Bytes)

/-- What `inject_rx` starts to copy: the header, then the frame. -/
def frameCopy : Copy := ⟨m, [zeros 12, frame], 0, true⟩

def frameBuffers (q : Queue) (head : Nat) : List VringDesc :=
  chainBuffers q maxChainDescriptors (frameCopy m frame) head

def InChain (q : Queue) (head : Nat) (filled : Memory) (copies : List Store) : Prop :=
  m.Extends filled copies ∧ storedBytes copies <+: zeros 12 ++ frame ∧
    storedPlaces copies <+: m.chainPlaces (frameBuffers m frame q head)

def Delivered (m' : Memory) (dev' : Device) : Prop :=
  ∃ q head filled copies slot, dev.queue? 0 = some q ∧ nextHead m q = some (some head) ∧
    InChain m frame q head filled copies ∧ storedBytes copies = zeros 12 ++ frame ∧
    usedSlot filled q = some (some slot) ∧
    m' = writeUsedIdx (writeUsedElem filled slot head (12 + frame.length)) slot ∧
    dev' = (dev.setQueue 0 q.consume).raise

def Untouched (m' : Memory) (dev' : Device) : Prop :=
  dev' = dev ∧ (m' = m ∨ ∃ q head copies, dev.queue? 0 = some q ∧ nextHead m q = some (some head) ∧
    InChain m frame q head m' copies)

def AllOrNothing : Prop :=
  ∀ m' dev' delivered, injectRx m dev frame = some (m', dev', delivered) →
    if delivered then Delivered m dev frame m' dev' else Untouched m dev frame m' dev'

structure Walked (q : Queue) (head : Nat) (copied : Copy) : Prop where
  sized : frame ≠ [] ∧ frame.length ≤ 16 * 1024
  queue : dev.queue? 0 = some q
  live : q.ready ≠ 0 ∧ q.num ≠ 0
  posted : nextHead m q = some (some head)
  walked : fillFrameChain q maxChainDescriptors (frameCopy m frame) head = some copied

/-- A posted chain none of whose buffers is refused has room for the packet, and the next used
element is in guest RAM. -/
def HasRoom : Prop :=
  ∀ q head copied found, Walked m dev frame q head copied → copied.ok = true →
    usedSlot copied.mem q = some found →
    12 + frame.length ≤ chainRoom (frameBuffers m frame q head) ∧ found.isSome = true

variable {m dev frame}

/-- The outcomes of `inject_rx`: no chain, a refused buffer, or a used element. -/
theorem injectRx_cases {m' : Memory} {dev' : Device} {delivered : Bool}
    (injected : injectRx m dev frame = some (m', dev', delivered)) :
    (delivered = false ∧ m' = m ∧ dev' = dev) ∨
    ∃ q head copied, Walked m dev frame q head copied ∧
      ((copied.ok = false ∧ delivered = false ∧ m' = copied.mem ∧ dev' = dev) ∨
        (copied.ok = true ∧ delivered = true ∧ pushUsed copied.mem q head copied.written = some m' ∧
          dev' = (dev.setQueue 0 q.consume).raise)) := by
  unfold injectRx at injected
  split at injected
  · cases injected
  rename_i sized
  unfold injectInto at injected
  split at injected
  · cases injected
  rename_i q queue
  split at injected
  · cases injected
    exact .inl ⟨rfl, rfl, rfl⟩
  rename_i live
  simp only [Option.bind_eq_bind, Option.bind_eq_some_iff] at injected
  obtain ⟨found, posted, injected⟩ := injected
  cases found with
  | none =>
    cases injected
    exact .inl ⟨rfl, rfl, rfl⟩
  | some head =>
    simp only [Option.bind_eq_some_iff] at injected
    obtain ⟨copied, walked, injected⟩ := injected
    have reached : Walked m dev frame q head copied :=
      ⟨⟨fun empty => sized (.inl empty), Nat.le_of_not_lt fun large => sized (.inr large)⟩, queue,
        ⟨fun off => live (.inl off), fun none_ => live (.inr none_)⟩, posted, walked⟩
    refine .inr ⟨q, head, copied, reached, ?_⟩
    split at injected
    · rename_i fine
      obtain ⟨published, pushed, injected⟩ := Option.bind_eq_some_iff.mp injected
      cases injected
      exact .inr ⟨fine, rfl, pushed, rfl⟩
    · rename_i refused
      cases injected
      exact .inl ⟨by simpa using refused, rfl, rfl, rfl⟩

theorem Walked.injected {head : Nat} {copied : Copy} {m' : Memory}
    (reached : Walked m dev frame q head copied) (fine : copied.ok = true)
    (pushed : pushUsed copied.mem q head copied.written = some m') :
    injectRx m dev frame = some (m', (dev.setQueue 0 q.consume).raise, true) := by
  unfold injectRx injectInto
  rw [if_neg (by have := reached.sized; rintro (empty | large) <;> [exact this.1 empty; omega]),
    reached.queue]
  dsimp only
  rw [if_neg (by have := reached.live; rintro (off | none_) <;> [exact this.1 off; exact this.2 none_]),
    reached.posted]
  have walked := reached.walked
  unfold frameCopy at walked
  simp only [Option.bind_eq_bind, Option.bind_some, walked, fine, if_true, pushed]
  rfl

theorem Walked.copied {head : Nat} {copied : Copy}
    (reached : Walked m dev frame q head copied) : ∃ count added,
    InChain m frame q head copied.mem added ∧ storedBytes added = (zeros 12 ++ frame).take count ∧
      (copied.ok = true → copied.written = count ∧
        count = min (chainRoom (frameBuffers m frame q head)) (12 + frame.length)) := by
  obtain ⟨count, added, copies, whole⟩ := fillFrameChain_copied reached.walked
  have packet : (frameCopy m frame).rest.flatten = zeros 12 ++ frame := by
    simp [frameCopy]
  have length : (zeros 12 ++ frame).length = 12 + frame.length := by
    rw [List.length_append, zeros_length]
  have data := copies.data
  rw [packet] at data whole
  refine ⟨count, added, ⟨copies.stores, data ▸ List.take_prefix .., copies.places ▸ List.take_prefix ..⟩,
    data, fun fine => ⟨copies.written.trans (Nat.zero_add _), ?_⟩⟩
  rw [whole fine, length]
  rfl

theorem storedBytes_append (one two : List Store) :
    storedBytes (one ++ two) = storedBytes one ++ storedBytes two := List.flatMap_append

theorem published_stores (filled : Memory) (slot : UsedSlot) (id len : Nat) :
    (storedBytes (writeUsedIdx (writeUsedElem filled slot id len) slot).stores).length =
      (storedBytes filled.stores).length + 10 := by
  simp only [writeUsedIdx, writeUsedElem, Memory.write_stores, storedBytes_append, List.length_append]
  simp [storedBytes]

theorem Walked.room {head : Nat} {copied : Copy} {m' : Memory} {dev' : Device}
    {found : Option UsedSlot} (reached : Walked m dev frame q head copied) (fine : copied.ok = true)
    (slot_found : usedSlot copied.mem q = some found)
    (pushed : pushUsed copied.mem q head copied.written = some m')
    (delivered : Delivered m dev frame m' dev') :
    12 + frame.length ≤ chainRoom (frameBuffers m frame q head) ∧ found.isSome = true := by
  obtain ⟨count, added, inChain, data, whole⟩ := reached.copied
  obtain ⟨written, count_eq⟩ := whole fine
  obtain ⟨_, _, filled, copies, slot, _, _, inChain', data', _, m'_eq, _⟩ := delivered
  have stored := congrArg (fun s => (storedBytes s).length) inChain.1.stores_eq
  have stored' := congrArg (fun s => (storedBytes s).length) inChain'.1.stores_eq
  have packet : (zeros 12 ++ frame).length = 12 + frame.length := by
    rw [List.length_append, zeros_length]
  simp only [storedBytes_append, List.length_append, data, data', List.length_take,
    packet] at stored stored'
  have claimed : (storedBytes m'.stores).length =
    (storedBytes m.stores).length + (12 + frame.length) + 10 := by
    rw [m'_eq, published_stores, stored']
  unfold pushUsed at pushed
  rw [slot_found] at pushed
  simp only [Option.bind_eq_bind, Option.bind_some] at pushed
  cases found with
  | none =>
    obtain rfl := Option.some.inj pushed
    omega
  | some actual =>
    obtain rfl := Option.some.inj pushed
    rw [published_stores, stored] at claimed
    exact ⟨by omega, rfl⟩

theorem hasRoom_of_allOrNothing (whole : AllOrNothing m dev frame) : HasRoom m dev frame := by
  intro q head copied found reached fine slot_found
  have pushed : ∃ m', pushUsed copied.mem q head copied.written = some m' := by
    unfold pushUsed
    rw [slot_found]
    cases found <;> exact ⟨_, rfl⟩
  obtain ⟨m', pushed⟩ := pushed
  exact reached.room fine slot_found pushed (whole _ _ _ (reached.injected fine pushed))

end Injection

/-- A frame is delivered whole or not at all exactly when every posted chain has room for it. -/
theorem inject_rx_all_or_nothing_iff (m : Memory) (dev : Device) (frame : Bytes) :
    AllOrNothing m dev frame ↔ HasRoom m dev frame := by
  constructor
  · exact hasRoom_of_allOrNothing
  · intro room m' dev' delivered injected
    rcases injectRx_cases injected with ⟨rfl, rfl, rfl⟩ | ⟨q, head, copied, reached, outcome⟩
    · exact ⟨rfl, .inl rfl⟩
    · obtain ⟨count, added, inChain, data, counted⟩ := reached.copied
      rcases outcome with ⟨_, rfl, rfl, rfl⟩ | ⟨fine, rfl, pushed, rfl⟩
      · exact ⟨rfl, .inr ⟨q, head, added, reached.queue, reached.posted, inChain⟩⟩
      · obtain ⟨found, slot_found, published⟩ := Option.bind_eq_some_iff.mp pushed
        obtain ⟨enough, present⟩ := room q head copied found reached fine slot_found
        obtain ⟨written, count_eq⟩ := counted fine
        obtain ⟨slot, rfl⟩ := Option.isSome_iff_exists.mp present
        have all : count = 12 + frame.length := by omega
        refine ⟨q, head, copied.mem, added, slot, reached.queue, reached.posted, inChain, ?_, slot_found,
          ?_, rfl⟩
        · rw [data, List.take_of_length_le (by rw [List.length_append, zeros_length]; omega)]
        · rw [← all, ← written]
          exact (Option.some.inj published).symm

def shortBuffer : Memory where
  base := 0
  bytes := VringDesc.encode ⟨256, 20, 2, 0⟩ ++ zeros 48 ++ le 2 0 ++ le 2 1 ++ zeros 444
  stores := []

def shortQueue : Queue := { num := 4, ready := 1, descAddr := 0, driverAddr := 64, deviceAddr := 128 }

/-- The first eight bytes of a frame of a hundred are reported as delivered. -/
theorem short_buffer_delivers_a_part :
    (injectRx shortBuffer ⟨[shortQueue], 0, 0⟩ (List.replicate 100 1)).map
      (fun r => (slice r.1.bytes 132 8, r.2.2)) = some (usedElem 0 20, true) ∧
    ¬ AllOrNothing shortBuffer ⟨[shortQueue], 0, 0⟩ (List.replicate 100 1) := by
  refine ⟨by decide +kernel, fun whole => ?_⟩
  have walk : (fillFrameChain shortQueue maxChainDescriptors
      (frameCopy shortBuffer (List.replicate 100 1)) 0).map
        (fun c => (c.ok, (usedSlot c.mem shortQueue).isSome)) = some (true, true) := by decide +kernel
  obtain ⟨copied, walked, facts⟩ := Option.map_eq_some_iff.mp walk
  obtain ⟨fine, slot_found⟩ := Prod.mk.inj facts
  obtain ⟨found, slot_found⟩ := Option.isSome_iff_exists.mp slot_found
  have room : chainRoom (frameBuffers shortBuffer (List.replicate 100 1) shortQueue 0) = 20 := by
    decide +kernel
  have enough := (hasRoom_of_allOrNothing whole shortQueue 0 copied found
    ⟨⟨nofun, by decide⟩, rfl, ⟨nofun, nofun⟩, by decide +kernel, walked⟩ fine slot_found).1
  rw [room] at enough
  exact absurd enough (by decide)

end Machinen.Vmm
