import Machinen.Vmm.GuestInput

/-! A packet in a descriptor chain: what `read_packet` makes of the bytes of a chain, and that it
reads back what `write_packet` put there. -/
namespace Machinen.Vmm

open Bytes

def maxPayload : Nat := 64 * 1024

def readPacket (scratch : Bytes) (m : Memory) (q : Queue) (head : Nat) :
    Option (Option (VsockHdr × Bytes)) :=
  (gatherPacket m q maxChainDescriptors head []).map fun gathered => gathered.bind (parsePacket scratch)

def writePacket (m : Memory) (q : Queue) (head : Nat) (hdr : VsockHdr) (body : Bytes) : Option Copy :=
  fillPacketChain q maxChainDescriptors ⟨m, [hdr.encode, body], 0, true⟩ head

/-- The descriptors of a chain, each of which names the next, but for the last. -/
def Memory.ChainAt (m : Memory) (q : Queue) : Nat → List VringDesc → Prop
  | _, [] => False
  | idx, [desc] => readDescriptor m q idx = some (some desc) ∧ desc.hasNext = false
  | idx, desc :: next :: rest =>
    readDescriptor m q idx = some (some desc) ∧ desc.hasNext = true ∧ m.ChainAt q desc.next (next :: rest)

def Memory.buffer (m : Memory) (desc : VringDesc) : Bytes := slice m.bytes (desc.addr - m.base) desc.len

/-- The bytes of a chain, one buffer after the other. -/
def Memory.contents (m : Memory) (descs : List VringDesc) : Bytes := descs.flatMap m.buffer

theorem Memory.contents_cons (m : Memory) (desc : VringDesc) (rest : List VringDesc) :
    m.contents (desc :: rest) = m.buffer desc ++ m.contents rest := List.flatMap_cons

structure Laid (m : Memory) (q : Queue) (head : Nat) (descs : List VringDesc) : Prop where
  word : m.bytes.length < 2 ^ 64
  chain : m.ChainAt q head descs
  inside : ∀ desc ∈ descs, desc.len ≠ 0 → m.Contains desc.addr desc.len

/-- What there is of a chain for the device: 32 descriptors, and no more than the scratch holds. -/
def available (m : Memory) (descs : List VringDesc) : Bytes :=
  (m.contents (descs.take maxChainDescriptors)).take packetScratch

/-- A packet that ends with the bytes it is read from. -/
def packetOf (bytes : Bytes) : Option (VsockHdr × Bytes) :=
  if bytes.length < headerSize then none
  else
    let hdr := VsockHdr.decode (bytes.take headerSize)
    some (hdr, (bytes.drop headerSize).take hdr.len)

/-- A header announces no more bytes than there are, or than the scratch holds. -/
def Covers (bytes : Bytes) : Prop :=
  headerSize ≤ bytes.length →
    headerSize + min maxPayload (VsockHdr.decode (bytes.take headerSize)).len ≤ bytes.length

instance (bytes : Bytes) : Decidable (Covers bytes) := inferInstanceAs (Decidable (_ → _))

theorem Memory.guestSlice_of_contains {m : Memory} (word : m.bytes.length < 2 ^ 64) {addr len : Nat}
    (inside : m.Contains addr len) : m.guestSlice addr len = some (some (addr - m.base)) := by
  have found := Memory.guestSlice_inside word inside.2
  rwa [Nat.add_sub_cancel' inside.1] at found

theorem Memory.Contains.part {m : Memory} {addr len less : Nat} (inside : m.Contains addr len)
    (shorter : less ≤ len) : m.Contains addr less := ⟨inside.1, by have := inside.2; omega⟩

variable {desc : VringDesc} {q : Queue} {head : Nat} {descs : List VringDesc}

theorem Memory.buffer_length {m : Memory}
    (inside : desc.len ≠ 0 → m.Contains desc.addr desc.len) : (m.buffer desc).length = desc.len := by
  by_cases empty : desc.len = 0
  · rw [Memory.buffer, empty]
    exact List.length_nil
  · exact slice_length _ _ _ (inside empty).2

theorem gatherPacket_turn {m : Memory} {idx : Nat} (word : m.bytes.length < 2 ^ 64)
    (read : readDescriptor m q idx = some (some desc))
    (inside : desc.len ≠ 0 → m.Contains desc.addr desc.len) (steps : Nat) (written : Bytes) :
    gatherPacket m q (steps + 1) idx written =
      if desc.hasNext then gatherPacket m q steps desc.next
        (written ++ (m.buffer desc).take (packetScratch - written.length))
      else some (some (written ++ (m.buffer desc).take (packetScratch - written.length))) := by
  have taken : packetTake desc written.length ≤ desc.len := Nat.min_le_left _ _
  rw [gatherPacket, read]
  dsimp only [bind, Option.bind_some]
  split
  · rename_i nothing
    have none_ : (m.buffer desc).take (packetScratch - written.length) = [] := by
      have length := Memory.buffer_length inside
      unfold packetTake at nothing
      apply List.eq_nil_of_length_eq_zero
      rw [List.length_take, length]
      omega
    rw [none_, List.append_nil]
  · rename_i some_
    have here := inside (by omega)
    have same : slice m.bytes (desc.addr - m.base) (packetTake desc written.length) =
        (m.buffer desc).take (packetScratch - written.length) := by
      unfold Memory.buffer slice packetTake
      rw [List.take_take, Nat.min_comm]
    rw [Memory.guestSlice_of_contains word (here.part taken), Option.bind_some]
    dsimp only
    rw [same]

theorem gatherPacket_chain {m : Memory} (word : m.bytes.length < 2 ^ 64) (steps idx : Nat)
    (descs : List VringDesc) (written : Bytes) (chain : m.ChainAt q idx descs)
    (inside : ∀ desc ∈ descs, desc.len ≠ 0 → m.Contains desc.addr desc.len) :
    gatherPacket m q steps idx written =
      some (some (written ++ (m.contents (descs.take steps)).take (packetScratch - written.length))) := by
  induction steps generalizing idx descs written with
  | zero =>
    rw [List.take_zero, Memory.contents, List.flatMap_nil, List.take_nil, List.append_nil]
    rfl
  | succ steps ih =>
    match descs, chain with
    | [desc], chain =>
      have last : m.contents [desc] = m.buffer desc := List.append_nil _
      rw [gatherPacket_turn word chain.1 (inside desc List.mem_cons_self), chain.2, if_neg nofun,
        List.take_succ_cons, List.take_nil, last]
    | desc :: next :: rest, chain =>
      have tail := ih desc.next (next :: rest)
        (written ++ (m.buffer desc).take (packetScratch - written.length)) chain.2.2
        fun other listed => inside other (List.mem_cons_of_mem desc listed)
      rw [gatherPacket_turn word chain.1 (inside desc List.mem_cons_self), chain.2.1, if_pos rfl, tail,
        List.take_succ_cons, Memory.contents_cons, List.take_append, List.append_assoc]
      have room : packetScratch - (written ++
        (m.buffer desc).take (packetScratch - written.length)).length =
          packetScratch - written.length - (m.buffer desc).length := by
        rw [List.length_append, List.length_take]
        omega
      rw [room]

theorem parsePacket_iff {scratch bytes : Bytes} (full : scratch.length = packetScratch)
    (short : bytes.length ≤ packetScratch) : parsePacket scratch bytes = packetOf bytes ↔ Covers bytes := by
  unfold parsePacket packetOf Covers
  by_cases long : headerSize ≤ bytes.length
  · rw [if_neg (Nat.not_lt.mpr long), if_neg (Nat.not_lt.mpr long)]
    generalize VsockHdr.decode (bytes.take headerSize) = hdr
    have room : packetScratch = headerSize + maxPayload := by decide
    have cut : min packetScratch (headerSize + hdr.len) - headerSize = min maxPayload hdr.len := by omega
    have filled : (bytes ++ scratch.drop bytes.length).length = packetScratch := by
      rw [List.length_append, List.length_drop]
      omega
    dsimp only
    rw [cut, Option.some_inj, Prod.mk.injEq, eq_self, true_and, imp_iff_right long]
    constructor
    · intro same
      have lengths := congrArg List.length same
      rw [slice_length _ _ _ (by omega), List.length_take, List.length_drop] at lengths
      omega
    · intro covers
      unfold slice
      rw [List.drop_append_of_le_length long,
        List.take_append_of_le_length (by rw [List.length_drop]; omega)]
      by_cases large : hdr.len ≤ maxPayload
      · rw [Nat.min_eq_right large]
      · rw [List.take_of_length_le (by rw [List.length_drop]; omega),
          List.take_of_length_le (by rw [List.length_drop]; omega)]
  · rw [if_pos (Nat.lt_of_not_le long), if_pos (Nat.lt_of_not_le long)]
    exact iff_of_true rfl fun impossible => absurd impossible long

theorem readPacket_iff {m : Memory}
    (laid : Laid m q head descs) {scratch : Bytes} (full : scratch.length = packetScratch) :
    readPacket scratch m q head = some (packetOf (available m descs)) ↔ Covers (available m descs) := by
  have gathered := gatherPacket_chain laid.word maxChainDescriptors head descs [] laid.chain laid.inside
  rw [List.nil_append, List.length_nil, Nat.sub_zero] at gathered
  unfold readPacket
  rw [gathered, Option.map_some, Option.bind_some, Option.some_inj]
  exact parsePacket_iff full (List.length_take_le _ _)

/-! What is written into a chain -/

structure VsockHdr.Fits (hdr : VsockHdr) : Prop where
  srcCid : hdr.srcCid < 256 ^ 8
  dstCid : hdr.dstCid < 256 ^ 8
  srcPort : hdr.srcPort < 256 ^ 4
  dstPort : hdr.dstPort < 256 ^ 4
  len : hdr.len < 256 ^ 4
  type : hdr.type < 256 ^ 2
  op : hdr.op < 256 ^ 2
  flags : hdr.flags < 256 ^ 4
  bufAlloc : hdr.bufAlloc < 256 ^ 4
  fwdCnt : hdr.fwdCnt < 256 ^ 4

theorem VsockHdr.decode_encode {hdr : VsockHdr} (fits : hdr.Fits) : VsockHdr.decode hdr.encode = hdr := by
  have fields : VsockHdr.decode hdr.encode =
    ⟨toNat (le 8 hdr.srcCid), toNat (le 8 hdr.dstCid), toNat (le 4 hdr.srcPort),
      toNat (le 4 hdr.dstPort), toNat (le 4 hdr.len), toNat (le 2 hdr.type), toNat (le 2 hdr.op),
      toNat (le 4 hdr.flags), toNat (le 4 hdr.bufAlloc), toNat (le 4 hdr.fwdCnt)⟩ := rfl
  rw [fields, toNat_le 8 _ fits.srcCid, toNat_le 8 _ fits.dstCid, toNat_le 4 _ fits.srcPort,
    toNat_le 4 _ fits.dstPort,
    toNat_le 4 _ fits.len, toNat_le 2 _ fits.type, toNat_le 2 _ fits.op, toNat_le 4 _ fits.flags,
    toNat_le 4 _ fits.bufAlloc, toNat_le 4 _ fits.fwdCnt]

theorem fillBuffer_spec {m : Memory} {addr : Nat} (sources : List Bytes) {budget : Nat} (written : Nat)
    (space : m.base + m.bytes.length ≤ 2 ^ 64) (word : m.bytes.length < 2 ^ 64)
    (inside : m.Contains addr budget) : ∃ m' rest, fillBuffer m addr sources budget written =
        some ⟨m', rest, written + min budget sources.flatten.length, true⟩ ∧ m'.base = m.base ∧
      m'.bytes = store m.bytes (addr - m.base) (sources.flatten.take budget) ∧
      rest.flatten = sources.flatten.drop budget := by
  induction sources generalizing m addr budget written with
  | nil =>
    refine ⟨m, [], ?_, rfl, ?_, (List.drop_nil).symm⟩
    · rw [List.flatten_nil, List.length_nil, Nat.min_zero]
      rfl
    · rw [List.flatten_nil, List.take_nil, store_empty]
  | cons source rest ih =>
    unfold fillBuffer
    split
    · rename_i nothing
      subst nothing
      exact ⟨m, source :: rest,
        by rw [Nat.zero_min]; rfl, rfl, by rw [List.take_zero, store_empty], List.drop_zero.symm⟩
    rename_i some_
    split
    · rename_i empty
      subst empty
      exact ih written space word inside
    rename_i more
    have low := inside.1
    have high := inside.2
    have positive : 0 < source.length := List.length_pos_iff.mpr more
    have start : u64 addr = some addr := if_pos (by omega)
    have here : m.Contains addr (min budget source.length) := inside.part (Nat.min_le_left _ _)
    have found := Memory.guestSlice_of_contains word here
    rw [start]
    dsimp only [bind, Option.bind_some]
    rw [found, Option.bind_some]
    dsimp only
    rw [List.flatten_cons, List.length_append]
    by_cases over_ : budget < source.length
    · have chunk : min budget source.length = budget := by omega
      have total : min budget (source.length + rest.flatten.length) = budget := by omega
      rw [chunk, total, if_pos over_]
      refine ⟨_, _, rfl, rfl, ?_, ?_⟩
      · rw [List.take_append_of_le_length (by omega)]
        rfl
      · rw [List.flatten_cons, List.drop_append_of_le_length (by omega)]
    · have chunk : min budget source.length = source.length := by omega
      have length : (store m.bytes (addr - m.base) source).length = m.bytes.length := store_length _ _ _
      rw [chunk, if_neg (Nat.lt_irrefl _), List.take_length]
      have whole : source.take budget = source := List.take_of_length_le (by omega)
      have nothing : source.drop budget = [] := List.drop_of_length_le (by omega)
      have later : (m.write (addr - m.base) source).Contains (addr + source.length)
        (budget - source.length) :=
        ⟨by rw [Memory.write_base]; omega, by rw [Memory.write_bytes, length, Memory.write_base]; omega⟩
      obtain ⟨m', left, filled, base, bytes, after_⟩ := ih (written + source.length)
        (by rw [Memory.write_bytes, length]; exact space) (by rw [Memory.write_bytes, length]; exact word)
          later
      refine ⟨m', left, ?_, base, ?_, ?_⟩
      · rw [filled]
        congr 2
        omega
      · have offset : addr + source.length - (m.write (addr - m.base) source).base =
          addr - m.base + source.length := by
          rw [Memory.write_base]
          omega
        rw [bytes, offset, Memory.write_bytes, store_store, List.take_append, whole]
      · rw [after_, List.drop_append, nothing, List.nil_append]

def VringDesc.Misses (desc : VringDesc) (addr : Nat) : Prop :=
  addr < desc.addr ∨ desc.addr + desc.len ≤ addr

structure Memory.Only (m m' : Memory) (descs : List VringDesc) : Prop where
  base : m'.base = m.base
  length : m'.bytes.length = m.bytes.length
  outside : ∀ i, (∀ desc ∈ descs, desc.Misses (m.base + i)) → m'.bytes[i]? = m.bytes[i]?

namespace Memory.Only

variable {m m' m'' : Memory} {first second : List VringDesc}

theorem refl (m : Memory) : Only m m first := ⟨rfl, rfl, fun _ _ => rfl⟩

theorem trans (one : Only m m' first) (two : Only m' m'' second) : Only m m'' (first ++ second) where
  base := two.base.trans one.base
  length := two.length.trans one.length
  outside := by
    intro i misses
    rw [two.outside i fun desc listed => by
      rw [one.base]; exact misses desc (List.mem_append_right first listed),
      one.outside i fun desc listed => misses desc (List.mem_append_left second listed)]

theorem mono (only : Only m m' first) (more : ∀ desc ∈ first, desc ∈ second) : Only m m' second :=
  ⟨only.base, only.length, fun i misses => only.outside i fun desc listed => misses desc (more desc listed)⟩

theorem slice (only : Only m m' first) (off len : Nat)
    (misses : ∀ desc ∈ first, ∀ k < len, desc.Misses (m.base + (off + k))) :
    slice m'.bytes off len = slice m.bytes off len := by
  apply List.ext_getElem?
  intro k
  rw [slice_getElem?, slice_getElem?]
  split
  · rename_i below
    exact only.outside _ fun desc listed => misses desc listed k below
  · rfl

theorem buffer (only : Only m m' first) (above : m.base ≤ desc.addr)
    (apart : ∀ other ∈ first, desc.addr + desc.len ≤ other.addr ∨ other.addr + other.len ≤ desc.addr) :
    m'.buffer desc = m.buffer desc := by
  unfold Memory.buffer
  rw [only.base]
  apply only.slice
  intro other listed k below
  unfold VringDesc.Misses
  rcases apart other listed with before | after_
  · exact .inl (by omega)
  · exact .inr (by omega)

theorem guestSlice (only : Only m m' first) (addr len : Nat) :
    m'.guestSlice addr len = m.guestSlice addr len := by
  unfold Memory.guestSlice
  rw [only.base, only.length]

theorem readDescriptor (only : Only m m' first)
    (table : ∀ desc ∈ first, desc.addr + desc.len ≤ q.descAddr ∨ q.descAddr + 16 * q.num ≤ desc.addr)
    (idx : Nat) : Vmm.readDescriptor m' q idx = Vmm.readDescriptor m q idx := by
  unfold Vmm.readDescriptor
  split
  · rfl
  rename_i inside
  by_cases word : q.descAddr + idx * 16 < 2 ^ 64
  · rw [show u64 (q.descAddr + idx * 16) = some (q.descAddr + idx * 16) from if_pos word]
    dsimp only [bind, Option.bind_some]
    rw [only.guestSlice]
    cases sliced : m.guestSlice (q.descAddr + idx * 16) 16 with
    | none => rfl
    | some found =>
      have where_ := Memory.guestSlice_contains sliced
      split at where_
      · rename_i contains
        subst where_
        have above := contains.1
        have same := only.slice (q.descAddr + idx * 16 - m.base) 16 fun desc listed k below => by
          unfold VringDesc.Misses
          rcases table desc listed with before | after_
          · exact .inr (by omega)
          · exact .inl (by omega)
        rw [Option.bind_some, Option.bind_some, Option.map_some, Option.map_some, same]
      · subst where_
        rfl
  · rw [show u64 (q.descAddr + idx * 16) = none from if_neg word]
    rfl

end Memory.Only

/-- A chain of buffers for the device to write, which lie in RAM beside one another and beside
the descriptors. -/
structure Posted (m : Memory) (q : Queue) (head : Nat) (descs : List VringDesc) : Prop where
  space : m.base + m.bytes.length ≤ 2 ^ 64
  word : m.bytes.length < 2 ^ 64
  chain : m.ChainAt q head descs
  inside : ∀ desc ∈ descs, m.Contains desc.addr desc.len
  writable : ∀ desc ∈ descs, desc.isWritable = true
  table : ∀ desc ∈ descs, desc.addr + desc.len ≤ q.descAddr ∨ q.descAddr + 16 * q.num ≤ desc.addr
  apart : descs.Pairwise fun a b => a.addr + a.len ≤ b.addr ∨ b.addr + b.len ≤ a.addr

def room (descs : List VringDesc) : Nat := (descs.map VringDesc.len).sum

theorem Memory.ChainAt.congr {m m' : Memory}
    (same : ∀ idx, readDescriptor m' q idx = readDescriptor m q idx)
    {idx : Nat} (chain : m.ChainAt q idx descs) : m'.ChainAt q idx descs := by
  induction descs generalizing idx with
  | nil => exact chain
  | cons desc rest ih =>
    match rest, chain with
    | [], chain => exact ⟨(same idx).trans chain.1, chain.2⟩
    | next :: rest, chain => exact ⟨(same idx).trans chain.1, chain.2.1, ih chain.2.2⟩

theorem Posted.congr {m m' : Memory} {first : List VringDesc}
    (posted : Posted m q head descs) (only : m.Only m' first)
    (table : ∀ desc ∈ first, desc.addr + desc.len ≤ q.descAddr ∨ q.descAddr + 16 * q.num ≤ desc.addr) :
    Posted m' q head descs where
  space := by rw [only.base, only.length]; exact posted.space
  word := by rw [only.length]; exact posted.word
  chain := posted.chain.congr (only.readDescriptor table)
  inside := by
    intro desc listed
    have here := posted.inside desc listed
    unfold Memory.Contains at here ⊢
    rw [only.base, only.length]
    exact here
  writable := posted.writable
  table := posted.table
  apart := posted.apart

theorem Posted.tail {m : Memory} {next : VringDesc} {rest : List VringDesc}
    (posted : Posted m q head (desc :: next :: rest)) : Posted m q desc.next (next :: rest) where
  space := posted.space
  word := posted.word
  chain := posted.chain.2.2
  inside := fun other listed => posted.inside other (List.mem_cons_of_mem desc listed)
  writable := fun other listed => posted.writable other (List.mem_cons_of_mem desc listed)
  table := fun other listed => posted.table other (List.mem_cons_of_mem desc listed)
  apart := (List.pairwise_cons.mp posted.apart).2

theorem Posted.laid {m : Memory} (posted : Posted m q head descs) :
    Laid m q head descs := ⟨posted.word, posted.chain, fun desc listed _ => posted.inside desc listed⟩

theorem all_isEmpty {sources : List Bytes} : sources.all List.isEmpty = true ↔ sources.flatten = [] := by
  rw [List.all_eq_true, List.flatten_eq_nil_iff]
  exact forall₂_congr fun source _ => List.isEmpty_iff

theorem Posted.filled {m m' : Memory} {data : Bytes} (base : m'.base = m.base)
    (inside : m.Contains desc.addr desc.len) (fits : data.length ≤ desc.len)
    (bytes : m'.bytes = store m.bytes (desc.addr - m.base) data) :
    m.Only m' [desc] ∧ (m'.buffer desc).take data.length = data := by
  have low := inside.1
  have high := inside.2
  constructor
  · refine ⟨base, by rw [bytes, store_length], fun i misses => ?_⟩
    have here := misses desc List.mem_cons_self
    unfold VringDesc.Misses at here
    rw [bytes, store_outside _ _ _ _ (by omega)]
  · have holds := (holdsAt_store m.bytes (desc.addr - m.base) data (by omega)).slice_eq
    unfold Memory.buffer
    rw [bytes, base]
    unfold slice at holds ⊢
    rw [List.take_take, Nat.min_eq_left fits, holds]

theorem fillPacketChain_spec (steps : Nat) {idx : Nat}
    (sources : List Bytes) (written : Nat) {m : Memory} (posted : Posted m q idx descs) :
    ∃ done, fillPacketChain q steps ⟨m, sources, written, true⟩ idx = some done ∧
      m.Only done.mem (descs.take steps) ∧
      (done.ok = true ↔ sources.flatten.length ≤ room (descs.take steps)) ∧
      (done.ok = true → (done.mem.contents (descs.take steps)).take sources.flatten.length =
        sources.flatten) := by
  induction steps generalizing idx descs sources written m with
  | zero =>
    have empty : sources.all List.isEmpty = true ↔ sources.flatten.length ≤ 0 := by
      rw [all_isEmpty, Nat.le_zero, List.length_eq_zero_iff]
    refine ⟨_, rfl, Memory.Only.refl m, empty, fun ok => ?_⟩
    rw [all_isEmpty.mp ok]
    rfl
  | succ steps ih =>
    cases descs with
    | nil => exact posted.chain.elim
    | cons desc rest =>
      have inside := posted.inside desc List.mem_cons_self
      have read : readDescriptor m q idx = some (some desc) := by
        cases rest with
        | nil => exact posted.chain.1
        | cons _ _ => exact posted.chain.1
      obtain ⟨m', left, filled, base, bytes, after_⟩ :=
        fillBuffer_spec sources written posted.space posted.word inside
      have taken : (sources.flatten.take desc.len).length ≤ desc.len := List.length_take_le _ _
      obtain ⟨only, holds⟩ := Posted.filled base inside taken bytes
      have total : room (desc :: rest.take steps) = desc.len + room (rest.take steps) := List.sum_cons
      rw [fillPacketChain, read]
      dsimp only [bind, Option.bind_some]
      rw [posted.writable desc List.mem_cons_self, Bool.not_true, if_neg Bool.false_ne_true, filled,
        Option.bind_some, List.take_succ_cons]
      dsimp only
      by_cases last : sources.flatten.length ≤ desc.len
      · have empty : left.all List.isEmpty = true :=
          all_isEmpty.mpr (after_.trans (List.drop_of_length_le last))
        have whole : sources.flatten.take desc.len = sources.flatten := List.take_of_length_le last
        rw [whole] at holds
        refine ⟨⟨m', left, _, true⟩, by rw [empty]; rfl, ?_, iff_of_true rfl (by omega), fun _ => ?_⟩
        · exact only.mono fun _ listed => List.mem_singleton.mp listed ▸ List.mem_cons_self
        · have length : sources.flatten.length ≤ (m'.buffer desc).length := by
            have := congrArg List.length holds
            rw [List.length_take] at this
            omega
          dsimp only
          rw [Memory.contents_cons, List.take_append_of_le_length length, holds]
      · have more : left.all List.isEmpty = false := by
          rw [Bool.eq_false_iff, ne_eq, all_isEmpty, after_, List.drop_eq_nil_iff]
          exact last
        have full : (sources.flatten.take desc.len).length = desc.len := List.length_take_of_le (by omega)
        have buffer : m'.buffer desc = sources.flatten.take desc.len := by
          have here : m'.Contains desc.addr desc.len := by
            unfold Memory.Contains
            rw [only.base, only.length]
            exact inside
          rw [full, List.take_of_length_le (Nat.le_of_eq (Memory.buffer_length fun _ => here))] at holds
          exact holds
        rw [more]
        cases rest with
        | nil =>
          rw [List.take_nil] at total ⊢
          rw [posted.chain.2]
          refine ⟨_, rfl, only, iff_of_false Bool.false_ne_true ?_, by rintro ⟨⟩⟩
          rw [total]
          exact last
        | cons next rest =>
          have table := posted.table desc List.mem_cons_self
          have posted' := (posted.congr only fun other listed => List.mem_singleton.mp listed ▸ table).tail
          obtain ⟨done, walked, only', ok, placed⟩ :=
            ih left (written + min desc.len sources.flatten.length) posted'
          have rest_length : left.flatten.length = sources.flatten.length - desc.len := by
            rw [after_, List.length_drop]
          rw [posted.chain.2.1]
          refine ⟨done, walked, only.trans only', ?_, fun fine => ?_⟩
          · rw [ok, total, rest_length]
            omega
          · have still := only'.buffer (only.base ▸ inside.1) fun other listed =>
              (List.pairwise_cons.mp posted.apart).1 other (List.mem_of_mem_take listed)
            have split : sources.flatten.length =
              (sources.flatten.take desc.len).length + left.flatten.length := by
              rw [full, rest_length]
              omega
            rw [Memory.contents_cons, still, buffer, split, List.take_length_add_append, placed fine,
              after_, List.take_append_drop]

theorem writePacket_readPacket {m : Memory} (posted : Posted m q head descs) {hdr : VsockHdr}
    {body : Bytes} (fits : hdr.Fits) (len : hdr.len = body.length) (short : body.length ≤ maxPayload) :
    ∃ done, writePacket m q head hdr body = some done ∧
      (done.ok = true ↔ headerSize + body.length ≤ room (descs.take maxChainDescriptors)) ∧
      (done.ok = true → done.written = headerSize + body.length ∧
        ∀ scratch, scratch.length = packetScratch →
          readPacket scratch done.mem q head = some (some (hdr, body))) := by
  obtain ⟨done, walked, only, ok, placed⟩ :=
    fillPacketChain_spec maxChainDescriptors [hdr.encode, body] 0 posted
  have flat : [hdr.encode, body].flatten = hdr.encode ++ body := by simp
  rw [flat, List.length_append, hdr.encode_length] at ok placed
  refine ⟨done, walked, ok, fun fine => ⟨?_, fun scratch full => ?_⟩⟩
  · rw [fillPacketChain_total walked fine]
    simp [remaining, hdr.encode_length]
  · have read := placed fine
    have posted' := posted.congr only fun desc listed => posted.table desc (List.mem_of_mem_take listed)
    have split : available done.mem descs = (hdr.encode ++ body) ++
      (available done.mem descs).drop (headerSize + body.length) := by
      have cut := (List.take_append_drop (headerSize + body.length) (available done.mem descs)).symm
      have first : (available done.mem descs).take (headerSize + body.length) = hdr.encode ++ body := by
        unfold available
        rw [List.take_take, Nat.min_eq_left (by unfold packetScratch maxPayload at *; omega), read]
      rwa [first] at cut
    generalize (available done.mem descs).drop (headerSize + body.length) = more at split
    have long : headerSize + body.length ≤ (available done.mem descs).length := by
      rw [split, List.length_append, List.length_append, hdr.encode_length]
      omega
    have header : (available done.mem descs).take headerSize = hdr.encode := by
      rw [split, List.append_assoc]
      exact List.take_left' hdr.encode_length
    have decoded : VsockHdr.decode ((available done.mem descs).take headerSize) = hdr := by
      rw [header, VsockHdr.decode_encode fits]
    have covers : Covers (available done.mem descs) := fun _ => by
      rw [decoded, len]
      omega
    rw [(readPacket_iff posted'.laid full).mpr covers]
    unfold packetOf
    dsimp only
    rw [if_neg (by omega), decoded, len, split, List.append_assoc, List.drop_left' hdr.encode_length,
      List.take_left]

/-- `read_packet` returns the bytes of the chain and no others just when the header announces no
more than there are; a packet is written into buffers that have room for it, and read back. -/
theorem packet_chains {m : Memory} {q : Queue} {head : Nat} {descs : List VringDesc}
    (laid : Laid m q head descs) {scratch : Bytes} (full : scratch.length = packetScratch) :
    available m descs <+: m.contents descs ∧
    (readPacket scratch m q head = some (packetOf (available m descs)) ↔ Covers (available m descs)) ∧
    ∀ (hdr : VsockHdr) (body : Bytes), Posted m q head descs → hdr.Fits → hdr.len = body.length →
      body.length ≤ maxPayload → ∃ done, writePacket m q head hdr body = some done ∧
        (done.ok = true ↔ headerSize + body.length ≤ room (descs.take maxChainDescriptors)) ∧
        (done.ok = true → done.written = headerSize + body.length ∧
          ∀ scratch, scratch.length = packetScratch →
            readPacket scratch done.mem q head = some (some (hdr, body))) := by
  refine ⟨?_, readPacket_iff laid full, fun hdr body posted fits len short =>
    writePacket_readPacket posted fits len short⟩
  have all : m.contents descs = m.contents (descs.take maxChainDescriptors) ++
    m.contents (descs.drop maxChainDescriptors) := by
    unfold Memory.contents
    rw [← List.flatMap_append, List.take_append_drop]
  rw [all]
  exact (List.take_prefix ..).trans (List.prefix_append ..)

/-- A header on its own that announces one byte more. -/
def loneHeader : VsockHdr where
  srcCid := 3
  dstCid := 2
  srcPort := 1024
  dstPort := 1025
  len := 1
  type := 1
  op := 5
  flags := 0
  bufAlloc := 65536
  fwdCnt := 0

def loneRam : Memory :=
  ⟨0x40000000, VringDesc.encode ⟨0x40000010, 44, 0, 0⟩ ++ loneHeader.encode, []⟩

def loneQueue : Queue := { num := 1, ready := 1, descAddr := 0x40000000 }

theorem loneRam_laid : Laid loneRam loneQueue 0 [⟨0x40000010, 44, 0, 0⟩] where
  word := by decide +kernel
  chain := by
    unfold Memory.ChainAt
    decide +kernel
  inside := by decide +kernel

/-- The byte that the header announces is one that the scratch held before. -/
theorem scratch_leaks :
    ((readPacket (List.replicate packetScratch 0x5a) loneRam loneQueue 0).bind fun packet =>
    packet.map (·.2)) = some [0x5a] ∧
      (loneRam.contents [⟨0x40000010, 44, 0, 0⟩]).length = 44 ∧
      readPacket (List.replicate packetScratch 0x5a) loneRam loneQueue 0 ≠
        some (packetOf (available loneRam [⟨0x40000010, 44, 0, 0⟩])) := by
  refine ⟨by decide +kernel, by decide +kernel, ?_⟩
  rw [ne_eq, readPacket_iff loneRam_laid List.length_replicate]
  decide +kernel

/-- A receive buffer in three pieces, the first of which ends inside the header. -/
def splitPieces : List VringDesc := [⟨0x40000030, 10, 3, 1⟩, ⟨0x4000003a, 35, 3, 2⟩, ⟨0x4000005d, 20, 2, 0⟩]

def splitRam : Memory := ⟨0x40000000, splitPieces.flatMap VringDesc.encode ++ zeros 65, []⟩

def splitQueue : Queue := { num := 3, ready := 1, descAddr := 0x40000000 }

theorem splitRam_posted : Posted splitRam splitQueue 0 splitPieces where
  space := by decide +kernel
  word := by decide +kernel
  chain := by
    unfold splitPieces Memory.ChainAt Memory.ChainAt Memory.ChainAt
    decide +kernel
  inside := by decide +kernel
  writable := by decide +kernel
  table := by decide +kernel
  apart := by decide +kernel

theorem packet_chains_split :
    (readPacket (zeros packetScratch) splitRam splitQueue 0 =
      some (packetOf (available splitRam splitPieces)) ↔ Covers (available splitRam splitPieces)) ∧
    ∃ done, writePacket splitRam splitQueue 0 loneHeader [0x61] = some done ∧
      (done.ok = true ↔ headerSize + 1 ≤ room (splitPieces.take maxChainDescriptors)) ∧
      (done.ok = true → done.written = headerSize + 1 ∧
        ∀ scratch, scratch.length = packetScratch →
          readPacket scratch done.mem splitQueue 0 = some (some (loneHeader, [0x61]))) := by
  obtain ⟨-, read, write⟩ := packet_chains splitRam_posted.laid (zeros_length packetScratch)
  have fits : loneHeader.Fits :=
    ⟨by decide, by decide, by decide, by decide, by decide, by decide, by decide, by decide, by decide, by decide⟩
  exact ⟨read, write loneHeader [0x61] splitRam_posted fits rfl (by decide)⟩

end Machinen.Vmm
