import Machinen.Vmm.BlkCompletion
import Machinen.Vmm.RxDelivery

/-! Where the bytes of a block request go. Each data descriptor is one transfer at an offset of
the disk; what the request moves is a list of pairs, a place in guest RAM and an offset on the
disk for each byte. -/
namespace Machinen.Vmm

open Bytes

/-- The start of a descriptor's buffer and an offset of the disk, with so many bytes moved. -/
structure Transfer where
  buffer : VringDesc
  position : Nat
  count : Nat
  deriving DecidableEq, Repr

/-- The transfers of the loop over the data descriptors; `moved position k` bytes come of a call
for `k` bytes there. -/
def transfers (moved : Nat → Nat → Nat) (host : Host) : List VringDesc → Nat → Nat → List Transfer
  | [], _, _ => []
  | d :: ds, call, sector =>
    match host call with
    | .failed => []
    | .upTo n => ⟨d, sector * 512, moved (sector * 512) (min n d.len)⟩ ::
        transfers moved host ds (call + 1) (sector + d.len / 512)

/-- A read ends at the end of the file; a write makes the file longer. -/
def readCount (b : Backend) (position k : Nat) : Nat := (slice b.image position k).length
def writeCount (_ k : Nat) : Nat := k

def Transfer.load (image : Bytes) (m : Memory) (t : Transfer) : Memory :=
  m.write (t.buffer.addr - m.base) (slice image t.position t.count)

def Transfer.keep (m : Memory) (b : Backend) (t : Transfer) : Backend :=
  (b.pwriteAt t.position (slice m.bytes (t.buffer.addr - m.base) t.count)).markDirtyBytes t.position
    t.count

def Succeeds (host : Host) (ds : List VringDesc) (call : Nat) : Prop :=
  ∀ k < ds.length, host (call + k) ≠ .failed

variable {d : VringDesc} {ds : List VringDesc} {call sector : Nat}

theorem Succeeds.tail {host : Host}
    (succeeds : Succeeds host (d :: ds) call) : Succeeds host ds (call + 1) := by
  intro k inside
  have := succeeds (k + 1) (by rw [List.length_cons]; omega)
  rwa [Nat.add_assoc, Nat.add_comm 1 k]

theorem Succeeds.cons {host : Host} {n : Nat} (answer : host call = .upTo n)
    (succeeds : Succeeds host ds (call + 1)) : Succeeds host (d :: ds) call := by
  intro k inside
  cases k with
  | zero =>
    rw [Nat.add_zero, answer]
    exact nofun
  | succ k =>
    have := succeeds k (by rw [List.length_cons] at inside; omega)
    rwa [Nat.add_assoc, Nat.add_comm 1 k] at this

theorem i64_eq {n k : Nat} (cast_ : i64 n = some k) : k = n := by
  unfold i64 at cast_
  split at cast_
  · exact (Option.some.inj cast_).symm
  · cases cast_

theorem u64_eq {n k : Nat} (sum : u64 n = some k) : k = n := by
  unfold u64 at sum
  split at sum
  · exact (Option.some.inj sum).symm
  · cases sum

theorem slice_own_length (xs : Bytes) (off k : Nat) :
    slice xs off (slice xs off k).length = slice xs off k := by
  unfold slice
  rw [List.length_take, ← List.take_eq_take_min]

theorem doRead_ok {b : Backend} {host : Host} {written : Nat}
    {m : Memory} {p : Progress} (done : doRead b host ds call sector m written = some p)
    (fine : p.status = VIRTIO_BLK_S_OK) : Succeeds host ds call ∧ p.backend = b ∧
      p.mem = (transfers (readCount b) host ds call sector).foldl (Transfer.load b.image) m := by
  induction ds generalizing call sector written m with
  | nil =>
    obtain rfl := Option.some.inj done
    exact ⟨fun k inside => absurd inside (Nat.not_lt_zero k), rfl, rfl⟩
  | cons d ds ih =>
    simp only [doRead, Option.bind_eq_bind, Option.bind_eq_some_iff] at done
    obtain ⟨found, slice_found, done⟩ := done
    cases found with
    | none =>
      obtain rfl := Option.some.inj done
      cases fine
    | some off =>
      simp only [Option.bind_eq_some_iff] at done
      obtain ⟨start, start_eq, position, position_eq, done⟩ := done
      obtain rfl := i64_eq start_eq
      obtain rfl := i64_eq position_eq
      obtain rfl := Memory.guestSlice_off slice_found
      cases answer : host call with
      | failed =>
        rw [answer] at done
        obtain rfl := Option.some.inj done
        cases fine
      | upTo n =>
        simp only [answer, Option.bind_eq_some_iff] at done
        obtain ⟨_, _, next, next_eq, done⟩ := done
        obtain rfl := u64_eq next_eq
        obtain ⟨succeeds, same, memory⟩ := ih done
        refine ⟨succeeds.cons answer, same, ?_⟩
        rw [memory, transfers, answer]
        dsimp only
        rw [List.foldl_cons, Transfer.load]
        unfold readCount
        rw [slice_own_length]

def reached (m : Memory) (ds : List VringDesc) : List VringDesc :=
  ds.takeWhile fun d => m.Contains d.addr d.len

theorem reached_cons_of {m : Memory}
    (inside : m.Contains d.addr d.len) : reached m (d :: ds) = d :: reached m ds := by
  unfold reached
  rw [List.takeWhile_cons, decide_eq_true inside, if_pos rfl]

theorem reached_cons_of_not {m : Memory}
    (outside : ¬ m.Contains d.addr d.len) : reached m (d :: ds) = [] := by
  unfold reached
  rw [List.takeWhile_cons, decide_eq_false outside, if_neg nofun]

theorem reached_all {m : Memory} (inside : ∀ d ∈ ds, m.Contains d.addr d.len) :
    reached m ds = ds := by
  induction ds with
  | nil => rfl
  | cons d ds ih =>
    rw [reached_cons_of (inside d List.mem_cons_self),
      ih fun e member => inside e (List.mem_cons_of_mem d member)]

theorem doWrite_does {m : Memory} {host : Host} {total : Nat}
    {b : Backend} {p : Progress} (done : doWrite m host ds call sector b total = some p) :
    p.mem = m ∧
      p.backend = (transfers writeCount host (reached m ds) call sector).foldl (Transfer.keep m) b ∧
      (p.status = VIRTIO_BLK_S_OK → (∀ d ∈ ds, m.Contains d.addr d.len) ∧ Succeeds host ds call) := by
  induction ds generalizing call sector total b with
  | nil =>
    obtain rfl := Option.some.inj done
    exact ⟨rfl, rfl, fun _ => ⟨List.forall_mem_nil _, fun k inside => absurd inside (Nat.not_lt_zero k)⟩⟩
  | cons d ds ih =>
    simp only [doWrite, Option.bind_eq_bind, Option.bind_eq_some_iff] at done
    obtain ⟨found, slice_found, done⟩ := done
    cases found with
    | none =>
      obtain rfl := Option.some.inj done
      rw [reached_cons_of_not (Memory.outside_of_refused slice_found)]
      exact ⟨rfl, rfl, by rintro ⟨⟩⟩
    | some off =>
      have inside := Memory.contains_of_sliced slice_found
      simp only [Option.bind_eq_some_iff] at done
      obtain ⟨byteOff, byteOff_eq, position, position_eq, done⟩ := done
      obtain rfl := u64_eq byteOff_eq
      obtain rfl := i64_eq position_eq
      have fits := Memory.guestSlice_fits slice_found
      obtain rfl := Memory.guestSlice_off slice_found
      rw [reached_cons_of inside]
      unfold transfers
      cases answer : host call with
      | failed =>
        rw [answer] at done
        obtain rfl := Option.some.inj done
        exact ⟨rfl, rfl, by rintro ⟨⟩⟩
      | upTo n =>
        simp only [answer, Option.bind_eq_some_iff] at done
        obtain ⟨_, _, next, next_eq, done⟩ := done
        obtain rfl := u64_eq next_eq
        obtain ⟨same, kept, fine⟩ := ih done
        refine ⟨same, ?_, fun ok => ⟨?_, (fine ok).2.cons answer⟩⟩
        · have source : (slice m.bytes (d.addr - m.base) d.len).take n =
              slice m.bytes (d.addr - m.base) (min n d.len) := by
            unfold slice
            rw [List.take_take]
          have length : (slice m.bytes (d.addr - m.base) (min n d.len)).length = min n d.len :=
            slice_length _ _ _ (by omega)
          rw [source, length] at kept
          rw [kept]
          rfl
        · exact List.forall_mem_cons.mpr ⟨inside, (fine ok).1⟩

theorem doWrite_ok {m : Memory} {host : Host} {total : Nat}
    {b : Backend} {p : Progress} (done : doWrite m host ds call sector b total = some p)
    (fine : p.status = VIRTIO_BLK_S_OK) : Succeeds host ds call ∧ p.mem = m ∧
      p.backend = (transfers writeCount host ds call sector).foldl (Transfer.keep m) b := by
  obtain ⟨same, kept, answered⟩ := doWrite_does done
  obtain ⟨inside, succeeds⟩ := answered fine
  rw [reached_all inside] at kept
  exact ⟨succeeds, same, kept⟩

/-- The bytes of a transfer: their places in guest RAM, and their offsets on the disk. -/
def Transfer.pairs (m : Memory) (t : Transfer) : List (Nat × Nat) :=
  (List.range' (t.buffer.addr - m.base) t.count).zip (List.range' t.position t.count)

def movedPairs (m : Memory) (ts : List Transfer) : List (Nat × Nat) := ts.flatMap (Transfer.pairs m)

def chainPairs (m : Memory) (ds : List VringDesc) (position : Nat) : List (Nat × Nat) :=
  (m.chainPlaces ds).zip (List.range' position (chainRoom ds))

theorem chainPairs_cons (m : Memory) (d : VringDesc) (ds : List VringDesc) (position : Nat) :
    chainPairs m (d :: ds) position =
      (List.range' (d.addr - m.base) d.len).zip (List.range' position d.len) ++
        chainPairs m ds (position + d.len) := by
  have room : chainRoom (d :: ds) = d.len + chainRoom ds := rfl
  unfold chainPairs
  rw [room, ← List.range'_append_1, Memory.chainPlaces, List.flatMap_cons, Memory.placesOf,
    List.zip_append (by rw [List.length_range', List.length_range'])]
  rfl

theorem chainPairs_length (m : Memory) (ds : List VringDesc) (position : Nat) :
    (chainPairs m ds position).length = chainRoom ds := by
  rw [chainPairs, List.length_zip, chainPlaces_length, List.length_range', Nat.min_self]

section Exact

variable (moved : Nat → Nat → Nat) (host : Host)

/-- From sector `sector` on, the descriptors that are not empty are filled, and each starts where
the bytes before it end. -/
def MovesFrom : List VringDesc → Nat → Nat → Nat → Prop
  | [], _, _, _ => True
  | d :: ds, call, sector, position =>
    (d.len ≠ 0 → sector * 512 = position ∧
      ∃ n, host call = .upTo n ∧ moved (sector * 512) (min n d.len) = d.len) ∧
    MovesFrom ds (call + 1) (sector + d.len / 512) (position + d.len)

def Full : List VringDesc → Nat → Nat → Prop
  | [], _, _ => True
  | d :: ds, call, sector =>
    (d.len ≠ 0 → ∃ n, host call = .upTo n ∧ moved (sector * 512) (min n d.len) = d.len) ∧
    Full ds (call + 1) (sector + d.len / 512)

def Aligned : List VringDesc → Prop
  | [] => True
  | d :: ds => (0 < chainRoom ds → 512 ∣ d.len) ∧ Aligned ds

variable {moved host}

theorem movedPairs_length_le (m : Memory) (short : ∀ position k, moved position k ≤ k)
    (ds : List VringDesc) (call sector : Nat) :
    (movedPairs m (transfers moved host ds call sector)).length ≤ chainRoom ds := by
  induction ds generalizing call sector with
  | nil => exact Nat.le_refl _
  | cons d ds ih =>
    have room : chainRoom (d :: ds) = d.len + chainRoom ds := rfl
    unfold transfers
    cases host call with
    | failed => exact Nat.zero_le _
    | upTo n =>
      have := ih (call + 1) (sector + d.len / 512)
      have := short (sector * 512) (min n d.len)
      rw [movedPairs, List.flatMap_cons, List.length_append, Transfer.pairs, List.length_zip,
        List.length_range', List.length_range', Nat.min_self, ← movedPairs]
      dsimp only
      omega

theorem movesFrom_empty (empty : chainRoom ds = 0) (call sector position : Nat) :
    MovesFrom moved host ds call sector position := by
  induction ds generalizing call sector position with
  | nil => trivial
  | cons d ds ih =>
    have room : chainRoom (d :: ds) = d.len + chainRoom ds := rfl
    exact ⟨fun some_ => absurd (by omega) some_, ih (by omega) _ _ _⟩

theorem behind {position : Nat} (moves : MovesFrom moved host ds call sector position)
    (some_ : 0 < chainRoom ds) : position ≤ sector * 512 := by
  induction ds generalizing call sector position with
  | nil => exact absurd some_ (Nat.lt_irrefl 0)
  | cons d ds ih =>
    have room : chainRoom (d :: ds) = d.len + chainRoom ds := rfl
    by_cases empty : d.len = 0
    · have later := ih moves.2 (by omega)
      rw [empty, Nat.zero_div] at later
      omega
    · exact Nat.le_of_eq (moves.1 empty).1.symm

theorem movesFrom_iff :
    MovesFrom moved host ds call sector (sector * 512) ↔ Aligned ds ∧
      Full moved host ds call sector := by
  induction ds generalizing call sector with
  | nil => exact iff_of_true trivial ⟨trivial, trivial⟩
  | cons d ds ih =>
    unfold MovesFrom Aligned Full
    simp only [true_and]
    by_cases rest : 0 < chainRoom ds
    · rw [imp_iff_right rest]
      by_cases whole : 512 ∣ d.len
      · have next : sector * 512 + d.len = (sector + d.len / 512) * 512 := by
          rw [Nat.add_mul, Nat.div_mul_cancel whole]
        rw [next, ih]
        exact ⟨fun ⟨full, aligned, later⟩ => ⟨⟨whole, aligned⟩, full, later⟩,
          fun ⟨⟨_, aligned⟩, full, later⟩ => ⟨full, aligned, later⟩⟩
      · refine iff_of_false (fun moves => whole ?_) fun both => whole both.1.1
        have := behind moves.2 rest
        have := Nat.div_mul_le_self d.len 512
        exact ⟨d.len / 512, by omega⟩
    · have empty : chainRoom ds = 0 := by omega
      have aligned_full : Aligned ds ∧ Full moved host ds (call + 1) (sector + d.len / 512) :=
        ih.mp (movesFrom_empty empty _ _ _)
      exact ⟨fun ⟨full, _⟩ => ⟨⟨fun some_ => absurd some_ rest, aligned_full.1⟩, full, aligned_full.2⟩,
        fun ⟨_, full, _⟩ => ⟨full, movesFrom_empty empty _ _ _⟩⟩

theorem movedPairs_iff {m : Memory} (short : ∀ position k, moved position k ≤ k)
    {position : Nat} (succeeds : Succeeds host ds call) :
    movedPairs m (transfers moved host ds call sector) = chainPairs m ds position ↔
      MovesFrom moved host ds call sector position := by
  induction ds generalizing call sector position with
  | nil => exact iff_of_true rfl trivial
  | cons d ds ih =>
    have first := succeeds 0 (Nat.zero_lt_succ _)
    rw [Nat.add_zero] at first
    unfold transfers MovesFrom
    cases answer : host call with
    | failed => exact absurd answer first
    | upTo n =>
      have bounded := short (sector * 512) (min n d.len)
      have rest_bounded := @movedPairs_length_le moved host m short ds (call + 1) (sector + d.len / 512)
      dsimp only
      rw [movedPairs, List.flatMap_cons, ← movedPairs, chainPairs_cons, ← ih succeeds.tail]
      unfold Transfer.pairs
      dsimp only
      constructor
      · intro same
        have lengths := congrArg List.length same
        simp only [List.length_append, List.length_zip, List.length_range', Nat.min_self,
          chainPairs_length] at lengths
        have filled : moved (sector * 512) (min n d.len) = d.len := by omega
        rw [filled] at same
        obtain ⟨here, later⟩ := List.append_inj same (by simp)
        refine ⟨fun some_ => ⟨?_, n, rfl, filled⟩, later⟩
        have heads := congrArg (fun l => l[0]?) here
        simpa [List.getElem?_zip_eq_some, some_, Nat.pos_iff_ne_zero] using heads
      · rintro ⟨here, later⟩
        rw [later]
        by_cases empty : d.len = 0
        · rw [empty, Nat.min_zero] at bounded ⊢
          rw [Nat.le_zero.mp bounded]
          rfl
        · obtain ⟨start, k, answered, filled⟩ := here empty
          cases answered
          rw [start] at filled ⊢
          rw [filled]

end Exact

theorem chainPairs_append (m : Memory) (ds es : List VringDesc) (position : Nat) :
    chainPairs m (ds ++ es) position = chainPairs m ds position ++
      chainPairs m es (position + chainRoom ds) := by
  induction ds generalizing position with
  | nil => rfl
  | cons d ds ih =>
    have room : chainRoom (d :: ds) = d.len + chainRoom ds := rfl
    rw [List.cons_append, chainPairs_cons, chainPairs_cons, ih, room, List.append_assoc, Nat.add_assoc]

theorem collected_iff {moved : Nat → Nat → Nat} {host : Host} {m : Memory}
    (short : ∀ position k, moved position k ≤ k) {kept dropped : List VringDesc}
    (succeeds : Succeeds host kept call) :
    movedPairs m (transfers moved host kept call sector) =
      chainPairs m (kept ++ dropped) (sector * 512) ↔
      chainRoom dropped = 0 ∧ Aligned kept ∧ Full moved host kept call sector := by
  rw [chainPairs_append, ← movesFrom_iff]
  constructor
  · intro same
    have lengths := congrArg List.length same
    rw [List.length_append, chainPairs_length, chainPairs_length] at lengths
    have := @movedPairs_length_le moved host m short kept call sector
    have nothing : chainRoom dropped = 0 := by omega
    have none_ : chainPairs m dropped (sector * 512 + chainRoom kept) = [] :=
      List.eq_nil_of_length_eq_zero (by rw [chainPairs_length, nothing])
    rw [none_, List.append_nil] at same
    exact ⟨nothing, (movedPairs_iff short succeeds).mp same⟩
  · rintro ⟨nothing, moves⟩
    have none_ : chainPairs m dropped (sector * 512 + chainRoom kept) = [] :=
      List.eq_nil_of_length_eq_zero (by rw [chainPairs_length, nothing])
    rw [none_, List.append_nil]
    exact (movedPairs_iff short succeeds).mpr moves

theorem Chain.foldl_data {c : Chain} (header : c.hdr.isSome = true) (links : ∀ d ∈ ds, d.hasNext = true) :
    (ds.foldl Chain.add c).data = c.data ++ ds.take (8 - c.data.length) := by
  induction ds generalizing c with
  | nil => rw [List.foldl_nil, List.take_nil, List.append_nil]
  | cons d ds ih =>
    obtain ⟨hdr, known⟩ := Option.isSome_iff_exists.mp header
    have link := links d List.mem_cons_self
    have rest := ih (c := c.add d) (by rw [Chain.add_hdr known]; rfl)
      fun e member => links e (List.mem_cons_of_mem d member)
    rw [List.foldl_cons, rest]
    unfold Chain.add
    rw [known]
    dsimp only
    rw [if_neg (by simp [link])]
    split
    · rename_i more
      obtain ⟨left, count⟩ : ∃ left, 8 - c.data.length = left + 1 := ⟨7 - c.data.length, by omega⟩
      rw [count, List.take_succ_cons]
      dsimp only
      rw [List.length_append, List.length_singleton, List.append_assoc, List.singleton_append]
      congr 3
      omega
    · rename_i full
      have none_ : 8 - c.data.length = 0 := by omega
      rw [none_, List.take_zero, List.take_zero]

structure Reported (m : Memory) (dev : Device) (b : Backend) (host : Host) (head : Nat) (q : Queue)
    (hdr : VringDesc) (data : List VringDesc) (st : VringDesc) (p : Progress) : Prop where
  queue : dev.queue? 0 = some q
  ends : EndsInStatus m q head hdr data st
  kind : requestType m hdr = 0 ∨ requestType m hdr = 1
  header : m.Contains hdr.addr 16 ∧ m.Ends hdr.addr 16
  answered : ∃ kept, walkChain m dev 32 head {} = some ⟨some hdr, kept, some st⟩ ∧
    dispatch m b host (requestType m hdr) (requestSector m hdr) kept = some (some p)
  status : p.status = VIRTIO_BLK_S_OK
  finished : (handleRequest m dev b host head).isSome = true

section Transparency

variable {m : Memory} {dev : Device} {b : Backend} {host : Host} {head : Nat} {q : Queue}
  {hdr st : VringDesc} {data : List VringDesc} {p : Progress}

theorem EndsInStatus.seen_data (queue : dev.queue? 0 = some q) (ends : EndsInStatus m q head hdr data st)
    (short : data.length + 2 ≤ 32) :
    walkChain m dev 32 head {} = some ⟨some hdr, data.take 8, some st⟩ := by
  obtain ⟨kept, seen⟩ := ends.seen queue short
  obtain ⟨links, last⟩ := ends.chain.links
  have long : (hdr :: data ++ [st]).length ≤ 32 := by
    rw [List.length_append, List.length_cons, List.length_singleton]
    omega
  have walked := seen
  rw [walkChain_chainAt queue ends.chain, List.take_of_length_le long, List.foldl_append] at walked
  have collected : ((hdr :: data).foldl Chain.add {}).data = data.take 8 :=
    Chain.foldl_data (c := Chain.add {} hdr) rfl fun d member =>
      links d (List.mem_cons_of_mem hdr member)
  have header : ((hdr :: data).foldl Chain.add {}).hdr = some hdr :=
    Chain.foldl_hdr (c := Chain.add {} hdr) data rfl
  rw [List.foldl_cons, List.foldl_nil, Chain.add, header] at walked
  dsimp only at walked
  rw [last, ends.one, if_pos (by decide), collected] at walked
  rw [seen, ← Option.some.inj walked]

theorem Reported.dispatched (reported : Reported m dev b host head q hdr data st p) :
    dispatch m b host (requestType m hdr) (requestSector m hdr) (data.take 8) = some (some p) := by
  obtain ⟨kept, walked, switched⟩ := reported.answered
  rw [reported.ends.seen_data reported.queue (reported.ends.short reported.queue walked)] at walked
  obtain ⟨-, same, -⟩ := Chain.mk.inj (Option.some.inj walked)
  rwa [← same] at switched

variable (m b host hdr data p)

def requestCount : Nat → Nat → Nat := if requestType m hdr = 0 then readCount b else writeCount

def performed : List Transfer :=
  transfers (requestCount m b hdr) host (data.take 8) 0 (requestSector m hdr)

/-- A read has filled guest memory from the disk, a write the disk from guest memory, and
nothing else. -/
def Performs : Prop :=
  if requestType m hdr = 0 then
    p.backend = b ∧ p.mem = (performed m b host hdr data).foldl (Transfer.load b.image) m
  else p.mem = m ∧ p.backend = (performed m b host hdr data).foldl (Transfer.keep m) b

/-- Every byte of every data descriptor is moved, and the one at position `p` of the chain has
the offset `sector * 512 + p` on the disk. -/
def Transparent : Prop :=
  Performs m b host hdr data p ∧
    movedPairs m (performed m b host hdr data) = chainPairs m data (requestSector m hdr * 512)

variable {m b host hdr data p}

theorem requestCount_le (position k : Nat) : requestCount m b hdr position k ≤ k := by
  unfold requestCount
  split
  · unfold readCount slice
    rw [List.length_take]
    exact Nat.min_le_left _ _
  · exact Nat.le_refl k

theorem Reported.performs (reported : Reported m dev b host head q hdr data st p) :
    Succeeds host (data.take 8) 0 ∧ Performs m b host hdr data p := by
  have switched := reported.dispatched
  unfold Performs performed requestCount
  rcases reported.kind with read | write
  · rw [read] at switched
    obtain ⟨p', done, same⟩ := Option.map_eq_some_iff.mp switched
    obtain rfl := Option.some.inj same
    rw [if_pos read, if_pos read]
    exact doRead_ok done reported.status
  · have other : requestType m hdr ≠ 0 := by rw [write]; decide
    rw [write] at switched
    change (if b.readOnly = true then (traceBlk "write-rejected-ro").bind fun _ => some (some _)
      else (doWrite m host (data.take 8) 0 (requestSector m hdr) b 0).map some) =
        some (some p) at switched
    split at switched
    · rw [traceBlk_rejected] at switched
      cases switched
    · obtain ⟨p', done, same⟩ := Option.map_eq_some_iff.mp switched
      obtain rfl := Option.some.inj same
      rw [if_neg other, if_neg other]
      exact doWrite_ok done reported.status

/-- A read or write that is reported well has moved every byte to its place exactly when it has
data in no more than eight descriptors, all of them but the last are whole sectors, and the host
moved all that it was asked for. -/
theorem blk_ok_transparent_iff (reported : Reported m dev b host head q hdr data st p) :
    Transparent m b host hdr data p ↔
      chainRoom (data.drop 8) = 0 ∧ Aligned (data.take 8) ∧
        Full (requestCount m b hdr) host (data.take 8) 0 (requestSector m hdr) := by
  obtain ⟨succeeds, performs⟩ := reported.performs
  have exact_ : movedPairs m (transfers (requestCount m b hdr) host (data.take 8) 0
    (requestSector m hdr)) =
      chainPairs m (data.take 8 ++ data.drop 8) (requestSector m hdr * 512) ↔ _ :=
    collected_iff (fun position k => requestCount_le position k) succeeds
  rw [List.take_append_drop] at exact_
  unfold Transparent
  rw [and_iff_right performs]
  exact exact_

end Transparency

/-- A read of sector 0 into two buffers, at 320 and at 840; the status byte is at 300. -/
def twoBuffers (first second : Nat) : Memory where
  base := 0
  bytes := VringDesc.encode ⟨256, 16, 1, 1⟩ ++ VringDesc.encode ⟨320, first, 3, 2⟩ ++
    VringDesc.encode ⟨840, second, 3, 3⟩ ++ VringDesc.encode ⟨300, 1, 2, 0⟩ ++ zeros 800
  stores := []

def requestQueue : Queue := { num := 4, ready := 1, descAddr := 0, driverAddr := 64, deviceAddr := 128 }

def buffers (first second : Nat) : List VringDesc := [⟨320, first, 3, 2⟩, ⟨840, second, 3, 3⟩]

def twoSectors : Backend where
  capacitySectors := 2
  readOnly := false
  dirty := none
  image := List.replicate 512 1 ++ List.replicate 512 2
  positive := by decide
  word := by decide
  held := by simp only [List.length_append, List.length_replicate, Nat.reduceMul, Nat.reduceAdd, Nat.le_refl]
  tracks := nofun

structure Runs (first second : Nat) : Prop where
  hdr : readDescriptor (twoBuffers first second) requestQueue 0 = some (some ⟨256, 16, 1, 1⟩)
  one : readDescriptor (twoBuffers first second) requestQueue 1 = some (some ⟨320, first, 3, 2⟩)
  two : readDescriptor (twoBuffers first second) requestQueue 2 = some (some ⟨840, second, 3, 3⟩)
  st : readDescriptor (twoBuffers first second) requestQueue 3 = some (some ⟨300, 1, 2, 0⟩)
  type : requestType (twoBuffers first second) ⟨256, 16, 1, 1⟩ = 0
  sector : requestSector (twoBuffers first second) ⟨256, 16, 1, 1⟩ = 0
  header : (twoBuffers first second).Contains 256 16 ∧ (twoBuffers first second).Ends 256 16
  inside : (twoBuffers first second).Contains 300 1
  status : (dispatch (twoBuffers first second) twoSectors ready 0 0 (buffers first second)).map
    (fun a => a.map Progress.status) = some (some 0)
  finished : (handleRequest (twoBuffers first second) ⟨[requestQueue], 0, 0⟩ twoSectors ready 0).isSome =
    true

theorem Runs.reported {first second : Nat} (runs : Runs first second) : ∃ p,
    Reported (twoBuffers first second) ⟨[requestQueue], 0, 0⟩ twoSectors ready 0 requestQueue
      ⟨256, 16, 1, 1⟩ (buffers first second) ⟨300, 1, 2, 0⟩ p := by
  obtain ⟨a, switched, known⟩ := Option.map_eq_some_iff.mp runs.status
  obtain ⟨p, rfl, fine⟩ := Option.map_eq_some_iff.mp known
  have linked (addr len next : Nat) : VringDesc.hasNext ⟨addr, len, 3, next⟩ = true :=
    (by decide : (3 &&& VringDesc.F_NEXT != 0) = true)
  have ends : EndsInStatus (twoBuffers first second) requestQueue 0 ⟨256, 16, 1, 1⟩
      (buffers first second) ⟨300, 1, 2, 0⟩ :=
    ⟨⟨runs.hdr, rfl, runs.one, linked .., runs.two, linked .., runs.st, rfl⟩, rfl, rfl, runs.inside⟩
  exact ⟨p, rfl, ends, .inl runs.type, runs.header,
    ⟨_, ends.seen_data rfl (by decide : 2 + 2 ≤ 32), by rw [runs.type, runs.sector]; exact switched⟩,
    fine, runs.finished⟩

theorem whole_sectors_are_transparent : ∃ p, Transparent (twoBuffers 512 20) twoSectors ready
    ⟨256, 16, 1, 1⟩ (buffers 512 20) p := by
  obtain ⟨p, reported⟩ := @Runs.reported 512 20 ⟨by decide +kernel,
    by decide +kernel, by decide +kernel, by decide +kernel, by decide +kernel, by decide +kernel,
    by decide +kernel, by decide +kernel, by decide +kernel, by decide +kernel⟩
  have aligned : Aligned (buffers 512 20) :=
    ⟨fun _ => by decide, fun more => absurd more (by decide), trivial⟩
  have full : Full (requestCount (twoBuffers 512 20) twoSectors ⟨256, 16, 1, 1⟩) ready (buffers 512 20) 0
      (requestSector (twoBuffers 512 20) ⟨256, 16, 1, 1⟩) :=
    ⟨fun _ => ⟨512, rfl, by decide +kernel⟩, fun _ => ⟨512, rfl, by decide +kernel⟩, trivial⟩
  exact ⟨p, (blk_ok_transparent_iff reported).mpr ⟨rfl, aligned, full⟩⟩

/-- Two buffers of twenty bytes both get the first twenty bytes of the disk. -/
theorem short_buffers_share_a_sector : ∃ p,
    Reported (twoBuffers 20 20) ⟨[requestQueue], 0, 0⟩ twoSectors ready 0 requestQueue
      ⟨256, 16, 1, 1⟩ (buffers 20 20) ⟨300, 1, 2, 0⟩ p ∧
    ¬ Transparent (twoBuffers 20 20) twoSectors ready ⟨256, 16, 1, 1⟩ (buffers 20 20) p := by
  obtain ⟨p, reported⟩ := @Runs.reported 20 20 ⟨by decide +kernel,
    by decide +kernel, by decide +kernel, by decide +kernel, by decide +kernel, by decide +kernel,
    by decide +kernel, by decide +kernel, by decide +kernel, by decide +kernel⟩
  refine ⟨p, reported, fun transparent => ?_⟩
  have shared : (movedPairs (twoBuffers 20 20) (performed (twoBuffers 20 20) twoSectors ready
      ⟨256, 16, 1, 1⟩ (buffers 20 20)))[20]? ≠ (chainPairs (twoBuffers 20 20) (buffers 20 20)
        (requestSector (twoBuffers 20 20) ⟨256, 16, 1, 1⟩ * 512))[20]? := by decide +kernel
  exact shared (congrArg (fun pairs => pairs[20]?) transparent.2)

end Machinen.Vmm
