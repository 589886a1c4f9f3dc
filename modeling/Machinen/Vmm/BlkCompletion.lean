import Machinen.Vmm.BlkRequests
import Machinen.Vmm.PacketChains

/-! The completion of a block request: for every chain, sector and answer of the host, when the
handler comes through without a trap, writes the status byte it owes and publishes the used
element. -/
namespace Machinen.Vmm

open Bytes

/-- Along a request chain every descriptor can be addressed. -/
def WalkSafe (m : Memory) (q : Queue) : Nat → Nat → Prop
  | 0, _ => True
  | steps + 1, idx =>
    (q.num ≤ idx ∨ m.Addressable (q.descAddr + idx * 16) 16) ∧
      ∀ desc, readDescriptor m q idx = some (some desc) → desc.hasNext = true →
        WalkSafe m q steps desc.next

theorem queueDescriptor_eq {m : Memory} {dev : Device} {qIdx : Nat} {q : Queue}
    (queue : dev.queue? qIdx = some q) (idx : Nat) :
    queueDescriptor m dev qIdx idx = readDescriptor m q idx := by
  unfold queueDescriptor
  rw [queue]

variable {idx sector call : Nat} {c : Chain} {ds data : List VringDesc} {p : Progress}

theorem walkChain_isSome {m : Memory} {dev : Device} {q : Queue} (queue : dev.queue? 0 = some q)
    {steps : Nat} : (walkChain m dev steps idx c).isSome ↔ WalkSafe m q steps idx := by
  induction steps generalizing idx c with
  | zero => exact iff_of_true rfl trivial
  | succ steps ih =>
    unfold walkChain WalkSafe
    rw [queueDescriptor_eq queue, Option.bind_eq_bind, bind_isSome, readDescriptor_isSome]
    refine and_congr_right fun _ => ?_
    constructor
    · intro goes desc read next
      have rest := goes (some desc) read
      dsimp only at rest
      rw [next, if_pos rfl] at rest
      exact ih.mp rest
    · intro safe found read
      cases found with
      | none => rfl
      | some desc =>
        dsimp only
        split
        · rename_i next
          exact ih.mpr (safe desc read next)
        · rfl

theorem walkChain_chainAt {m : Memory} {dev : Device} {q : Queue} (queue : dev.queue? 0 = some q)
    {steps : Nat} {descs : List VringDesc} (chain : m.ChainAt q idx descs) (c : Chain) :
    walkChain m dev steps idx c = some ((descs.take steps).foldl Chain.add c) := by
  induction steps generalizing idx descs c with
  | zero => rfl
  | succ steps ih =>
    unfold walkChain
    rw [queueDescriptor_eq queue]
    match descs, chain with
    | [desc], chain =>
      rw [chain.1, Option.bind_eq_bind, Option.bind_some]
      dsimp only
      rw [chain.2, if_neg nofun, List.take_succ_cons, List.take_nil]
      rfl
    | desc :: next :: rest, chain =>
      rw [chain.1, Option.bind_eq_bind, Option.bind_some]
      dsimp only
      rw [chain.2.1, if_pos rfl, ih chain.2.2]
      rfl

theorem Memory.ChainAt.links {m : Memory} {q : Queue} {first : List VringDesc}
    {last : VringDesc} (chain : m.ChainAt q idx (first ++ [last])) :
    (∀ d ∈ first, d.hasNext = true) ∧ last.hasNext = false := by
  induction first generalizing idx with
  | nil => exact ⟨nofun, chain.2⟩
  | cons desc first ih =>
    obtain ⟨next, rest, split_⟩ : ∃ next rest, first ++ [last] = next :: rest :=
      List.exists_cons_of_ne_nil (by simp)
    rw [List.cons_append, split_] at chain
    have tail := chain.2.2
    rw [← split_] at tail
    obtain ⟨links, ends⟩ := ih tail
    exact ⟨fun d member => (List.mem_cons.mp member).elim (fun same => same ▸ chain.2.1) (links d), ends⟩

theorem Chain.add_hdr {hdr d : VringDesc} (known : c.hdr = some hdr) :
    (c.add d).hdr = some hdr := by
  unfold Chain.add
  rw [known]
  dsimp only
  split
  · rfl
  · split
    · rfl
    · exact known

theorem Chain.add_link {d : VringDesc} (link : d.hasNext = true) :
    (c.add d).statusDesc = c.statusDesc := by
  unfold Chain.add
  split
  · rfl
  · rw [if_neg (by simp [link])]
    split <;> rfl

theorem Chain.foldl_hdr {hdr : VringDesc} (ds : List VringDesc) (known : c.hdr = some hdr) :
    (ds.foldl Chain.add c).hdr = some hdr := by
  induction ds generalizing c with
  | nil => exact known
  | cons d ds ih => exact ih (Chain.add_hdr known)

theorem Chain.foldl_links (links : ∀ d ∈ ds, d.hasNext = true) :
    (ds.foldl Chain.add c).statusDesc = c.statusDesc := by
  induction ds generalizing c with
  | nil => rfl
  | cons d ds ih =>
    rw [List.foldl_cons, ih fun e member => links e (List.mem_cons_of_mem d member),
      Chain.add_link (links d List.mem_cons_self)]

/-- A chain of a header, data and a writable status byte in guest RAM. -/
structure EndsInStatus (m : Memory) (q : Queue) (head : Nat) (hdr : VringDesc) (data : List VringDesc)
    (st : VringDesc) : Prop where
  chain : m.ChainAt q head (hdr :: data ++ [st])
  one : st.len = 1
  writable : st.isWritable = true
  inside : m.Contains st.addr 1

section Status

variable {m : Memory} {dev : Device} {q : Queue} {head : Nat} {hdr st : VringDesc}
  {data : List VringDesc}

theorem EndsInStatus.seen (queue : dev.queue? 0 = some q) (ends : EndsInStatus m q head hdr data st)
    (short : data.length + 2 ≤ 32) : ∃ kept,
    walkChain m dev 32 head {} = some ⟨some hdr, kept, some st⟩ := by
  obtain ⟨links, last⟩ := ends.chain.links
  have long : (hdr :: data ++ [st]).length ≤ 32 := by
    rw [List.length_append, List.length_cons, List.length_singleton]
    omega
  rw [walkChain_chainAt queue ends.chain, List.take_of_length_le long, List.foldl_append]
  have header : ((hdr :: data).foldl Chain.add {}).hdr = some hdr :=
    Chain.foldl_hdr (c := Chain.add {} hdr) data rfl
  refine ⟨((hdr :: data).foldl Chain.add {}).data, ?_⟩
  rw [List.foldl_cons, List.foldl_nil, Chain.add, header]
  dsimp only
  rw [last, ends.one, if_pos (by decide)]

theorem EndsInStatus.unseen (queue : dev.queue? 0 = some q) (ends : EndsInStatus m q head hdr data st)
    (long : 32 < data.length + 2) (walked : walkChain m dev 32 head {} = some c) :
    c.statusDesc = none := by
  obtain ⟨links, -⟩ := ends.chain.links
  have cut : (hdr :: data ++ [st]).take 32 = (hdr :: data).take 32 :=
    List.take_append_of_le_length (by rw [List.length_cons]; omega)
  rw [walkChain_chainAt queue ends.chain, cut] at walked
  obtain rfl := Option.some.inj walked
  exact Chain.foldl_links fun d member => links d (List.mem_of_mem_take member)

theorem EndsInStatus.short (queue : dev.queue? 0 = some q) (ends : EndsInStatus m q head hdr data st)
    {h : Option VringDesc} {kept : List VringDesc} {status : VringDesc}
    (walked : walkChain m dev 32 head {} = some ⟨h, kept, some status⟩) : data.length + 2 ≤ 32 := by
  by_contra long
  cases ends.unseen queue (by omega) walked

end Status

/-- The transfers that a read reaches: each starts below sector 2^54, and their sum is a used
length. -/
def ReadSafe (m : Memory) (b : Backend) (host : Host) : List VringDesc → Nat → Nat → Nat → Prop
  | [], _, _, written => written + 1 < 2 ^ 32
  | d :: ds, call, sector, written =>
    m.Ends d.addr d.len ∧ (¬ m.Contains d.addr d.len → written + 1 < 2 ^ 32) ∧
      (m.Contains d.addr d.len → sector < 2 ^ 54 ∧
        match host call with
        | .failed => written + 1 < 2 ^ 32
        | .upTo n => ReadSafe m b host ds (call + 1) (sector + d.len / 512)
            (written + (slice b.image (sector * 512) (min n d.len)).length))

def WriteSafe (m : Memory) (host : Host) : List VringDesc → Nat → Nat → Nat → Prop
  | [], _, _, _ => True
  | d :: ds, call, sector, total =>
    m.Ends d.addr d.len ∧
      (m.Contains d.addr d.len → sector < 2 ^ 54 ∧
        match host call with
        | .failed => True
        | .upTo n => total + min n d.len < 2 ^ 32 ∧
            WriteSafe m host ds (call + 1) (sector + d.len / 512) (total + min n d.len))

def segmentSector (m : Memory) (d : VringDesc) (i : Nat) : Nat :=
  toNat (slice m.bytes (d.addr - m.base + i * 16) 8)

def segmentCount (m : Memory) (d : VringDesc) (i : Nat) : Nat :=
  toNat (slice m.bytes (d.addr - m.base + i * 16 + 8) 4)

/-- The holes that the first segments of a descriptor ask for. -/
def holes (m : Memory) (d : VringDesc) (n : Nat) : Nat :=
  (List.range n).countP fun i => decide (segmentCount m d i ≠ 0)

/-- The segments of a discard start below sector 2^54, and the host punches every hole that the
discard reaches. -/
def DiscardSafe (m : Memory) (host : Host) : List VringDesc → Nat → Prop
  | [], _ => True
  | d :: ds, call =>
    if d.len / 16 = 0 then DiscardSafe m host ds call
    else m.Ends d.addr (d.len / 16 * 16) ∧
      (m.Contains d.addr (d.len / 16 * 16) →
        (∀ i < d.len / 16, segmentSector m d i < 2 ^ 54 ∧
          (segmentCount m d i ≠ 0 → host (call + holes m d i) ≠ .failed)) ∧
        DiscardSafe m host ds (call + holes m d (d.len / 16)))

/-- The device id has a buffer in guest RAM, or none is asked for. -/
def IdSafe (m : Memory) : List VringDesc → Prop
  | [] => True
  | d :: _ => m.Ends d.addr (min d.len 20) ∧ m.Contains d.addr (min d.len 20)

def SwitchSafe (m : Memory) (b : Backend) (host : Host) (type sector : Nat) (data : List VringDesc) :
    Prop :=
  match type with
  | 0 => ReadSafe m b host data 0 sector 0
  | 1 => b.readOnly = false ∧ WriteSafe m host data 0 sector 0
  | 8 => IdSafe m data
  | 11 => b.readOnly = false → DiscardSafe m host data 0
  | _ => True

theorem guestSlice_eq {m : Memory} {addr len : Nat} (ends : m.Ends addr len) :
    m.guestSlice addr len = some (if m.Contains addr len then some (addr - m.base) else none) := by
  obtain ⟨found, slice_found⟩ := Option.isSome_iff_exists.mp (Memory.guestSlice_isSome.mpr ends)
  rw [slice_found, Memory.guestSlice_contains slice_found]

theorem guestSlice_none {m : Memory} {addr len : Nat} (beyond : ¬ m.Ends addr len) :
    m.guestSlice addr len = none := by
  rw [← Option.not_isSome_iff_eq_none, Memory.guestSlice_isSome]
  exact beyond

theorem offset_eq {A : Type} (f : Nat → Option A) :
    ((i64 sector).bind fun start => (i64 (start * 512)).bind f) =
      if sector < 2 ^ 54 then f (sector * 512) else none := by
  unfold i64
  by_cases small : sector < 2 ^ 54
  · rw [if_pos small, if_pos (by omega), Option.bind_some, if_pos (by omega), Option.bind_some]
  · rw [if_neg small]
    by_cases cast : sector < 2 ^ 63
    · rw [if_pos cast, Option.bind_some, if_neg (by omega), Option.bind_none]
    · rw [if_neg cast, Option.bind_none]

theorem byteOffset_eq {A : Type} (f : Nat → Nat → Option A) :
    ((u64 (sector * 512)).bind fun byteOff => (i64 byteOff).bind (f byteOff)) =
      if sector < 2 ^ 54 then f (sector * 512) (sector * 512) else none := by
  unfold u64 i64
  by_cases small : sector < 2 ^ 54
  · rw [if_pos small, if_pos (by omega), Option.bind_some, if_pos (by omega), Option.bind_some]
  · rw [if_neg small]
    by_cases word : sector * 512 < 2 ^ 64
    · rw [if_pos word, Option.bind_some, if_neg (by omega), Option.bind_none]
    · rw [if_neg word, Option.bind_none]

section Base

variable {m m' : Memory} (base : m'.base = m.base)
include base

theorem ends_congr : m'.Ends = m.Ends := by
  funext addr len
  rw [Memory.Ends, Memory.Ends, base]

variable (length : m'.bytes.length = m.bytes.length)
include length

theorem contains_congr : m'.Contains = m.Contains := by
  funext addr len
  rw [Memory.Contains, Memory.Contains, base, length]

theorem ReadSafe.congr {b : Backend} {host : Host} (ds : List VringDesc) (call sector written : Nat) :
    ReadSafe m' b host ds call sector written ↔ ReadSafe m b host ds call sector written := by
  induction ds generalizing call sector written with
  | nil => exact Iff.rfl
  | cons d ds ih =>
    unfold ReadSafe
    rw [ends_congr base, contains_congr base length]
    cases host call with
    | failed => exact Iff.rfl
    | upTo n => simp only [ih]

end Base

theorem ReadSafe.bound {m : Memory} {b : Backend} {host : Host} {written : Nat}
    (safe : ReadSafe m b host ds call sector written) : written + 1 < 2 ^ 32 := by
  induction ds generalizing call sector written with
  | nil => exact safe
  | cons d ds ih =>
    by_cases inside : m.Contains d.addr d.len
    · have rest := (safe.2.2 inside).2
      cases answer : host call with
      | failed =>
        rw [answer] at rest
        exact rest
      | upTo n =>
        rw [answer] at rest
        have := ih rest
        omega
    · exact safe.2.1 inside

theorem doRead_iff {b : Backend} {host : Host} {written : Nat}
    {m : Memory} (lens : ∀ d ∈ ds, d.len < 2 ^ 32) :
    (∃ p, doRead b host ds call sector m written = some p ∧ p.bytesWritten + 1 < 2 ^ 32) ↔
      ReadSafe m b host ds call sector written := by
  induction ds generalizing call sector written m with
  | nil =>
    constructor
    · rintro ⟨p, done, fits⟩
      obtain rfl := Option.some.inj done
      exact fits
    · exact fun fits => ⟨_, rfl, fits⟩
  | cons d ds ih =>
    have short := lens d List.mem_cons_self
    unfold doRead ReadSafe
    by_cases ends : m.Ends d.addr d.len
    · rw [guestSlice_eq ends, and_iff_right ends]
      by_cases inside : m.Contains d.addr d.len
      · rw [if_pos inside, Option.bind_eq_bind, Option.bind_some, and_iff_right (absurd inside),
          imp_iff_right inside]
        simp only [Option.bind_eq_bind]
        rw [offset_eq]
        split
        · rename_i small
          rw [and_iff_right small]
          cases host call with
          | failed => exact ⟨fun ⟨p, done, fits⟩ => by cases done; exact fits, fun fits => ⟨_, rfl, fits⟩⟩
          | upTo n =>
            dsimp only
            generalize got_eq : slice b.image (sector * 512) (min n d.len) = got
            have got_short : got.length ≤ d.len := by
              rw [← got_eq]
              unfold slice
              rw [List.length_take]
              omega
            have same : ReadSafe (m.write (d.addr - m.base) got) b host ds (call + 1)
                (sector + d.len / 512) (written + got.length) ↔
                  ReadSafe m b host ds (call + 1) (sector + d.len / 512) (written + got.length) :=
              ReadSafe.congr (Memory.write_base m _ got) (store_length m.bytes _ got) ..
            have next : u64 (sector + d.len / 512) = some (sector + d.len / 512) := if_pos (by omega)
            rw [← same, ← ih fun e member => lens e (List.mem_cons_of_mem d member), next]
            unfold u32
            split
            · rfl
            · rename_i large
              refine iff_of_false (by rintro ⟨p, done, -⟩; cases done) fun goes => large ?_
              have := (same.mp ((ih fun e member => lens e (List.mem_cons_of_mem d member)).mp
                goes)).bound
              omega
        · rename_i large
          exact iff_of_false (by rintro ⟨p, done, -⟩; cases done) fun safe => large safe.1
      · rw [if_neg inside, imp_iff_right inside, and_iff_left (fun contains => absurd contains inside)]
        exact ⟨fun ⟨p, done, fits⟩ => by cases done; exact fits, fun fits => ⟨_, rfl, fits⟩⟩
    · rw [guestSlice_none ends]
      exact iff_of_false (by rintro ⟨p, done, -⟩; cases done) fun safe => ends safe.1

theorem doWrite_iff {m : Memory} {host : Host} {total : Nat}
    {b : Backend} (lens : ∀ d ∈ ds, d.len < 2 ^ 32) :
    (doWrite m host ds call sector b total).isSome ↔ WriteSafe m host ds call sector total := by
  induction ds generalizing call sector total b with
  | nil => exact iff_of_true rfl trivial
  | cons d ds ih =>
    have short := lens d List.mem_cons_self
    unfold doWrite WriteSafe
    by_cases ends : m.Ends d.addr d.len
    · rw [guestSlice_eq ends, and_iff_right ends]
      by_cases inside : m.Contains d.addr d.len
      · rw [if_pos inside, Option.bind_eq_bind, Option.bind_some, imp_iff_right inside]
        simp only [Option.bind_eq_bind]
        rw [byteOffset_eq]
        split
        · rename_i small
          rw [and_iff_right small]
          cases host call with
          | failed => exact iff_of_true rfl trivial
          | upTo n =>
            dsimp only
            have moved : ((slice m.bytes (d.addr - m.base) d.len).take n).length = min n d.len := by
              rw [List.length_take, slice_length _ _ _ inside.2]
            have next : u64 (sector + d.len / 512) = some (sector + d.len / 512) := if_pos (by omega)
            rw [moved, next]
            unfold u32
            split
            · rename_i fits
              rw [and_iff_right fits]
              exact ih fun e member => lens e (List.mem_cons_of_mem d member)
            · rename_i large
              exact iff_of_false nofun fun safe => large safe.1
        · rename_i large
          exact iff_of_false nofun fun safe => large safe.1
      · rw [if_neg inside]
        exact iff_of_true rfl fun contains => absurd contains inside
    · rw [guestSlice_none ends]
      exact iff_of_false nofun fun safe => ends safe.1

theorem holes_succ (m : Memory) (d : VringDesc) (n : Nat) :
    holes m d (n + 1) = holes m d n + if segmentCount m d n = 0 then 0 else 1 := by
  unfold holes
  rw [List.range_succ, List.countP_append, List.countP_singleton]
  by_cases empty : segmentCount m d n = 0
  · simp [empty]
  · simp [empty]

section Segments

variable {m : Memory} {host : Host} {d : VringDesc} {first left index : Nat} {b : Backend}

theorem discardSegments_calls {r : Backend × Nat}
    (done : discardSegments m host (d.addr - m.base) left index (first + holes m d index) b = some r) :
    r.2 = first + holes m d (index + left) := by
  induction left generalizing index b with
  | zero =>
    cases done
    rfl
  | succ left ih =>
    have goal : index + (left + 1) = index + 1 + left := by omega
    have next := holes_succ m d index
    simp only [discardSegments, Option.bind_eq_bind, Option.bind_eq_some_iff] at done
    obtain ⟨start, _, offsetBytes, _, lenBytes, length, done⟩ := done
    rw [← segmentCount] at length
    rw [goal]
    split at done
    · rename_i none_
      have empty : segmentCount m d index = 0 := by
        unfold i64 at length
        split at length
        · have := Option.some.inj length
          omega
        · cases length
      have same : holes m d (index + 1) = holes m d index := next.trans (if_pos empty ▸ rfl)
      rw [← same] at done
      exact ih done
    · rename_i some_
      have there : segmentCount m d index ≠ 0 := by
        intro empty
        rw [empty] at length
        exact some_ (Option.some.inj length).symm
      rw [if_neg there] at next
      cases answer : host (first + holes m d index) with
      | failed =>
        simp only [answer, traceBlk_fallback] at done
        cases done
      | upTo n =>
        simp only [answer] at done
        rw [Nat.add_assoc, ← next] at done
        exact ih done

theorem discardSegments_iff (host : Host) (first left index : Nat) (b : Backend) :
    (discardSegments m host (d.addr - m.base) left index (first + holes m d index) b).isSome ↔
      ∀ i, index ≤ i → i < index + left → segmentSector m d i < 2 ^ 54 ∧
        (segmentCount m d i ≠ 0 → host (first + holes m d i) ≠ .failed) := by
  induction left generalizing index b with
  | zero => exact iff_of_true rfl fun i low high => by omega
  | succ left ih =>
    have split_ {Q : Nat → Prop} : (∀ i, index ≤ i → i < index + (left + 1) → Q i) ↔
        Q index ∧ ∀ i, index + 1 ≤ i → i < index + 1 + left → Q i := by
      constructor
      · exact fun all => ⟨all index (Nat.le_refl _) (by omega),
          fun i low high => all i (by omega) (by omega)⟩
      · rintro ⟨here, later⟩ i low high
        by_cases same : i = index
        · exact same ▸ here
        · exact later i (by omega) (by omega)
    have next := holes_succ m d index
    have count : segmentCount m d index < 2 ^ 32 := Nat.lt_of_lt_of_eq (slice_lt _ _ 4) (by decide)
    have length : i64 (segmentCount m d index * 512) = some (segmentCount m d index * 512) :=
      if_pos (by omega)
    unfold discardSegments
    simp only [Option.bind_eq_bind]
    rw [split_, offset_eq, ← segmentSector, ← segmentCount, length, Option.bind_some]
    by_cases small : segmentSector m d index < 2 ^ 54
    · rw [if_pos small, and_assoc, and_iff_right small]
      by_cases empty : segmentCount m d index = 0
      · rw [if_pos empty] at next
        rw [if_pos (by rw [empty, Nat.zero_mul]), and_iff_right fun some_ => absurd empty some_, ← ih,
          next]
        rfl
      · rw [if_neg empty] at next
        rw [if_neg (by omega), imp_iff_right empty]
        cases answer : host (first + holes m d index) with
        | failed => exact iff_of_false (by rw [traceBlk_fallback]; nofun) fun both => both.1 rfl
        | upTo n =>
          rw [and_iff_right nofun, ← ih, next]
          rfl
    · rw [if_neg small]
      exact iff_of_false nofun fun all => small all.1.1

end Segments

theorem doDiscard_iff {m : Memory} {host : Host} {b : Backend} :
    (doDiscard m host ds call b).isSome ↔ DiscardSafe m host ds call := by
  induction ds generalizing call b with
  | nil => exact iff_of_true rfl trivial
  | cons d ds ih =>
    unfold doDiscard DiscardSafe
    dsimp only
    split
    · exact ih
    · by_cases ends : m.Ends d.addr (d.len / 16 * 16)
      · rw [guestSlice_eq ends, and_iff_right ends]
        by_cases inside : m.Contains d.addr (d.len / 16 * 16)
        · rw [if_pos inside, Option.bind_eq_bind, Option.bind_some, imp_iff_right inside]
          simp only [Option.bind_eq_bind]
          have segments {b : Backend} :=
            discardSegments_iff (m := m) (d := d) host call (d.len / 16) 0 b
          rw [show holes m d 0 = 0 from rfl, Nat.add_zero] at segments
          simp only [Nat.zero_le, Nat.zero_add, true_imp_iff] at segments
          have calls {r : Backend × Nat} (ran : discardSegments m host (d.addr - m.base) (d.len / 16) 0
              call b = some r) : r.2 = call + holes m d (d.len / 16) := by
            have counted : r.2 = call + holes m d (0 + d.len / 16) := discardSegments_calls ran
            rwa [Nat.zero_add] at counted
          rw [bind_isSome, segments]
          constructor
          · rintro ⟨fine, rest⟩
            obtain ⟨r, ran⟩ := Option.isSome_iff_exists.mp (segments.mpr fine)
            exact ⟨fine, calls ran ▸ ih.mp (rest r ran)⟩
          · rintro ⟨fine, safe⟩
            exact ⟨fine, fun r ran => ih.mpr ((calls ran).symm ▸ safe)⟩
        · rw [if_neg inside]
          exact iff_of_true rfl fun contains => absurd contains inside
      · rw [guestSlice_none ends]
        exact iff_of_false Bool.false_ne_true fun safe => ends safe.1

theorem doWrite_quiet {m : Memory} {host : Host} {total : Nat} {b : Backend}
    (done : doWrite m host ds call sector b total = some p) : p.bytesWritten = 0 ∧ p.status ≤ 2 := by
  induction ds generalizing call sector total b with
  | nil => exact (Option.some.inj done) ▸ ⟨rfl, Nat.zero_le _⟩
  | cons d ds ih =>
    simp only [doWrite, Option.bind_eq_bind, Option.bind_eq_some_iff] at done
    obtain ⟨found, _, done⟩ := done
    cases found with
    | none => exact (Option.some.inj done) ▸ ⟨rfl, Nat.le_succ 1⟩
    | some off =>
      simp only [Option.bind_eq_some_iff] at done
      obtain ⟨byteOff, _, position, _, done⟩ := done
      cases answer : host call with
      | failed =>
        rw [answer] at done
        exact (Option.some.inj done) ▸ ⟨rfl, Nat.le_succ 1⟩
      | upTo n =>
        simp only [answer, Option.bind_eq_some_iff] at done
        obtain ⟨_, _, _, _, done⟩ := done
        exact ih done

theorem doDiscard_quiet {m : Memory} {host : Host} {b : Backend} (done : doDiscard m host ds call b = some p) :
    p.bytesWritten = 0 ∧ p.status ≤ 2 := by
  induction ds generalizing call b with
  | nil => exact (Option.some.inj done) ▸ ⟨rfl, Nat.zero_le _⟩
  | cons d ds ih =>
    simp only [doDiscard] at done
    split at done
    · exact ih done
    · simp only [Option.bind_eq_bind, Option.bind_eq_some_iff] at done
      obtain ⟨found, _, done⟩ := done
      cases found with
      | none => exact (Option.some.inj done) ▸ ⟨rfl, Nat.le_succ 1⟩
      | some off =>
        obtain ⟨r, _, done⟩ := Option.bind_eq_some_iff.mp done
        exact ih done

theorem one_fits : 0 + 1 < 2 ^ 32 := by decide

theorem doGetId_iff {m : Memory} {b : Backend} :
    (∃ p, doGetId m b ds = some (some p) ∧ p.bytesWritten + 1 < 2 ^ 32) ↔ IdSafe m ds := by
  cases ds with
  | nil => exact iff_of_true ⟨_, rfl, one_fits⟩ trivial
  | cons d ds =>
    unfold doGetId IdSafe
    by_cases ends : m.Ends d.addr (min d.len 20)
    · simp only [guestSlice_eq ends, and_iff_right ends, Option.bind_eq_bind, Option.bind_some]
      by_cases inside : m.Contains d.addr (min d.len 20)
      · rw [if_pos inside]
        exact iff_of_true ⟨_, rfl, by dsimp only; omega⟩ inside
      · rw [if_neg inside]
        exact iff_of_false (by rintro ⟨p, done, -⟩; cases done) inside
    · simp only [guestSlice_none ends, Option.bind_eq_bind, Option.bind_none]
      exact iff_of_false (by rintro ⟨p, done, -⟩; cases done) fun safe => ends safe.1

theorem dispatch_iff {m : Memory} {b : Backend} {host : Host} {type : Nat}
    (lens : ∀ d ∈ data, d.len < 2 ^ 32) :
    (∃ p, dispatch m b host type sector data = some (some p) ∧ p.bytesWritten + 1 < 2 ^ 32) ↔
      SwitchSafe m b host type sector data := by
  unfold dispatch SwitchSafe
  split
  · rw [← doRead_iff lens]
    simp
  · cases readOnly : b.readOnly with
    | true =>
      rw [if_pos rfl, traceBlk_rejected]
      exact iff_of_false (by rintro ⟨p, ⟨⟩, -⟩) fun both => nomatch both.1
    | false =>
      rw [and_iff_right rfl, ← doWrite_iff (b := b) lens, Option.isSome_iff_exists]
      constructor
      · rintro ⟨p, done, -⟩
        obtain ⟨p', ran, -⟩ := Option.map_eq_some_iff.mp done
        exact ⟨p', ran⟩
      · rintro ⟨p, ran⟩
        exact ⟨p, by rw [if_neg nofun, ran]; rfl, by rw [(doWrite_quiet ran).1]; exact one_fits⟩
  · exact iff_of_true ⟨_, rfl, one_fits⟩ trivial
  · exact doGetId_iff
  · cases readOnly : b.readOnly with
    | true => exact iff_of_true ⟨_, rfl, one_fits⟩ nofun
    | false =>
      have returns : (∃ p, doDiscard m host data 0 b = some p) ↔ DiscardSafe m host data 0 := by
        rw [← Option.isSome_iff_exists]
        exact doDiscard_iff
      refine Iff.trans ?_ (imp_iff_right rfl).symm
      rw [← returns]
      constructor
      · rintro ⟨p, done, -⟩
        obtain ⟨p', ran, -⟩ := Option.map_eq_some_iff.mp done
        exact ⟨p', ran⟩
      · rintro ⟨p, ran⟩
        exact ⟨p, by rw [if_neg nofun, ran]; rfl, by rw [(doDiscard_quiet ran).1]; exact one_fits⟩
  · rename_i not_read not_write not_flush not_id not_discard
    refine iff_of_true ⟨_, rfl, one_fits⟩ ?_
    split
    · exact absurd rfl not_read
    · exact absurd rfl not_write
    · exact absurd rfl not_id
    · exact absurd rfl not_discard
    · trivial

theorem doRead_status {b : Backend} {host : Host} {written : Nat} {m : Memory}
    (done : doRead b host ds call sector m written = some p) : p.status ≤ 2 := by
  induction ds generalizing call sector written m with
  | nil => exact (Option.some.inj done) ▸ Nat.zero_le _
  | cons d ds ih =>
    simp only [doRead, Option.bind_eq_bind, Option.bind_eq_some_iff] at done
    obtain ⟨found, _, done⟩ := done
    cases found with
    | none => exact (Option.some.inj done) ▸ Nat.le_succ 1
    | some off =>
      simp only [Option.bind_eq_some_iff] at done
      obtain ⟨start, _, position, _, done⟩ := done
      cases answer : host call with
      | failed =>
        rw [answer] at done
        exact (Option.some.inj done) ▸ Nat.le_succ 1
      | upTo n =>
        simp only [answer, Option.bind_eq_some_iff] at done
        obtain ⟨_, _, _, _, done⟩ := done
        exact ih done

theorem doGetId_status {m : Memory} {b : Backend}
    (done : doGetId m b ds = some (some p)) : p.status ≤ 2 := by
  cases ds with
  | nil =>
    cases done
    exact Nat.zero_le _
  | cons d ds =>
    simp only [doGetId, Option.bind_eq_bind, Option.bind_eq_some_iff] at done
    obtain ⟨found, _, done⟩ := done
    cases found with
    | none => cases done
    | some off =>
      cases done
      exact Nat.zero_le _

theorem dispatch_status {m : Memory} {b : Backend} {host : Host} {type : Nat}
    (done : dispatch m b host type sector data = some (some p)) : p.status ≤ 2 := by
  unfold dispatch at done
  split at done
  · obtain ⟨p', ran, same⟩ := Option.map_eq_some_iff.mp done
    exact (Option.some.inj same) ▸ doRead_status ran
  · split at done
    · rw [traceBlk_rejected] at done
      cases done
    · obtain ⟨p', ran, same⟩ := Option.map_eq_some_iff.mp done
      exact (Option.some.inj same) ▸ (doWrite_quiet ran).2
  · cases done
    exact Nat.zero_le _
  · exact doGetId_status done
  · split at done
    · cases done
      exact Nat.le_succ 1
    · obtain ⟨p', ran, same⟩ := Option.map_eq_some_iff.mp done
      exact (Option.some.inj same) ▸ (doDiscard_quiet ran).2
  · cases done
    exact Nat.le_refl _

/-- The handler up to the used element: the memory, the backend and the used length. A request
that is left without one is the inner `none`. -/
def answerRequest (m : Memory) (dev : Device) (b : Backend) (host : Host) (head : Nat) :
    Option (Option (Memory × Backend × Nat)) := do
  let chain ← walkChain m dev 32 head {}
  match chain.hdr, chain.statusDesc with
  | some hdr, some statusDesc =>
    match ← m.guestSlice hdr.addr 16 with
    | none => return some (m, b, 0)
    | some off =>
      match ← dispatch m b host (toNat (slice m.bytes off 4)) (toNat (slice m.bytes (off + 8) 8)) chain.data with
      | none => return none
      | some p =>
        let found ← p.mem.guestSlice statusDesc.addr 1
        let filled := match found with
          | none => p.mem
          | some off => p.mem.write off (le 1 p.status)
        let len ← u32 (p.bytesWritten + 1)
        return some (filled, p.backend, len)
  | _, _ => return some (m, b, 0)

theorem handleRequest_eq (m : Memory) (dev : Device) (b : Backend) (host : Host) (head : Nat) :
    handleRequest m dev b host head = (answerRequest m dev b host head).bind fun answer =>
      match answer with
      | none => some (m, b)
      | some (filled, b', len) => (queuePushUsed filled dev 0 head len).map fun pushed => (pushed, b') := by
  unfold handleRequest answerRequest
  cases walkChain m dev 32 head {} with
  | none => rfl
  | some chain =>
    obtain ⟨hdr, data, st⟩ := chain
    have bare : (queuePushUsed m dev 0 head 0).bind (fun pushed => pure (pushed, b)) =
        (queuePushUsed m dev 0 head 0).map fun pushed => (pushed, b) := by
      cases queuePushUsed m dev 0 head 0 <;> rfl
    match hdr, st with
    | none, _ => exact bare
    | some _, none => exact bare
    | some hdr, some st =>
      simp only [Option.bind_eq_bind, Option.bind_some]
      cases m.guestSlice hdr.addr 16 with
      | none => rfl
      | some found =>
        cases found with
        | none => exact bare
        | some off =>
          simp only [Option.bind_some]
          cases dispatch m b host (toNat (slice m.bytes off 4)) (toNat (slice m.bytes (off + 8) 8))
            data with
          | none => rfl
          | some answer =>
            cases answer with
            | none => rfl
            | some p =>
              simp only [Option.bind_some, finishRequest, Option.bind_eq_bind]
              cases p.mem.guestSlice st.addr 1 with
              | none => rfl
              | some status =>
                simp only [Option.bind_some]
                cases u32 (p.bytesWritten + 1) with
                | none => rfl
                | some len =>
                  simp only [Option.bind_some, Option.pure_def]
                  cases queuePushUsed _ dev 0 head len <;> rfl

theorem readDescriptor_len {m : Memory} {q : Queue} {d : VringDesc}
    (read : readDescriptor m q idx = some (some d)) : d.len < 2 ^ 32 := by
  unfold readDescriptor at read
  split at read
  · cases read
  · simp only [Option.bind_eq_bind, Option.bind_eq_some_iff, Option.pure_def, Option.some.injEq,
      Option.map_eq_some_iff] at read
    obtain ⟨_, _, _, _, off, rfl, rfl⟩ := read
    exact Nat.lt_of_lt_of_eq (slice_lt _ _ 4) (by decide)

theorem Chain.add_data {d e : VringDesc} (member : e ∈ (c.add d).data) :
    e ∈ c.data ∨ e = d := by
  unfold Chain.add at member
  split at member
  · exact .inl member
  · split at member
    · exact .inl member
    · split at member
      · rcases List.mem_append.mp member with old | new
        · exact .inl old
        · exact .inr (List.mem_singleton.mp new)
      · exact .inl member

theorem walkChain_lens {m : Memory} {dev : Device} {q : Queue} (queue : dev.queue? 0 = some q)
    {steps : Nat} {chain : Chain} (walked : walkChain m dev steps idx c = some chain)
    (lens : ∀ d ∈ c.data, d.len < 2 ^ 32) : ∀ d ∈ chain.data, d.len < 2 ^ 32 := by
  induction steps generalizing idx c with
  | zero => exact (Option.some.inj walked) ▸ lens
  | succ steps ih =>
    simp only [walkChain, queueDescriptor_eq queue, Option.bind_eq_bind,
      Option.bind_eq_some_iff] at walked
    obtain ⟨found, read, walked⟩ := walked
    cases found with
    | none => exact (Option.some.inj walked) ▸ lens
    | some d =>
      have added : ∀ e ∈ (c.add d).data, e.len < 2 ^ 32 := fun e member =>
        (Chain.add_data member).elim (lens e) fun same => same ▸ readDescriptor_len read
      dsimp only at walked
      split at walked
      · exact ih walked added
      · exact (Option.some.inj walked) ▸ added

section Completion

variable (m : Memory) (dev : Device) (b : Backend) (host : Host) (head : Nat)

def requestType (hdr : VringDesc) : Nat := toNat (slice m.bytes (hdr.addr - m.base) 4)
def requestSector (hdr : VringDesc) : Nat := toNat (slice m.bytes (hdr.addr - m.base + 8) 8)

/-- One used element is published for the chain, and if the chain ends in a writable status
descriptor the last store before it is a status byte there. -/
def Completes : Prop :=
  ∃ q filled b' len slot, dev.queue? 0 = some q ∧
    answerRequest m dev b host head = some (some (filled, b', len)) ∧
    usedSlot filled q = some (some slot) ∧
    handleRequest m dev b host head =
      some (writeUsedIdx (writeUsedElem filled slot head len) slot, b') ∧
    ∀ hdr data st, EndsInStatus m q head hdr data st → ∃ before status,
      m.DeviceOnly before ∧ status ≤ 2 ∧ filled = before.write (st.addr - m.base) (le 1 status)

/-- What it takes of the chain, of the arithmetic of its request, and of the used ring. -/
structure Completable (q : Queue) : Prop where
  walk : WalkSafe m q 32 head
  status : ∀ hdr data st, EndsInStatus m q head hdr data st →
    data.length + 2 ≤ 32 ∧ m.Contains hdr.addr 16
  request : ∀ chain hdr st, walkChain m dev 32 head {} = some chain → chain.hdr = some hdr →
    chain.statusDesc = some st → m.Ends hdr.addr 16 ∧
      (m.Contains hdr.addr 16 →
        SwitchSafe m b host (requestType m hdr) (requestSector m hdr) chain.data ∧ m.Ends st.addr 1)
  ring : ∀ filled b' len, answerRequest m dev b host head = some (some (filled, b', len)) →
    ∃ slot, usedSlot filled q = some (some slot)

variable {m dev b host head} {q : Queue}

/-- The memory of a request after its status byte, when that can be reached. -/
def withStatus (p : Progress) (st : VringDesc) : Memory :=
  if p.mem.Contains st.addr 1 then p.mem.write (st.addr - p.mem.base) (le 1 p.status) else p.mem

theorem answerRequest_bare {chain : Chain} (walked : walkChain m dev 32 head {} = some chain)
    (incomplete : chain.hdr = none ∨ chain.statusDesc = none) :
    answerRequest m dev b host head = some (some (m, b, 0)) := by
  unfold answerRequest
  rw [walked, Option.bind_eq_bind, Option.bind_some]
  obtain ⟨hdr, data, st⟩ := chain
  match hdr, st, incomplete with
  | none, _, _ => rfl
  | some _, none, _ => rfl

theorem answerRequest_header {hdr st : VringDesc}
    (walked : walkChain m dev 32 head {} = some ⟨some hdr, data, some st⟩) (ends : m.Ends hdr.addr 16) :
    answerRequest m dev b host head = if m.Contains hdr.addr 16 then
        (dispatch m b host (requestType m hdr) (requestSector m hdr) data).bind fun answer =>
          match answer with
          | none => some none
          | some p =>
            if p.mem.Ends st.addr 1 ∧ p.bytesWritten + 1 < 2 ^ 32 then
              some (some (withStatus p st, p.backend, p.bytesWritten + 1))
            else none
      else some (some (m, b, 0)) := by
  unfold answerRequest
  rw [walked, Option.bind_eq_bind, Option.bind_some]
  dsimp only
  rw [guestSlice_eq ends, Option.bind_eq_bind, Option.bind_some]
  by_cases inside : m.Contains hdr.addr 16
  · simp only [if_pos inside, requestType, requestSector, Option.bind_eq_bind]
    refine congrArg _ (funext fun answer => ?_)
    cases answer with
    | none => rfl
    | some p =>
      dsimp only
      by_cases reachable : p.mem.Ends st.addr 1
      · rw [guestSlice_eq reachable, Option.bind_some]
        unfold u32 withStatus
        by_cases fits : p.bytesWritten + 1 < 2 ^ 32
        · have both : p.mem.Ends st.addr 1 ∧ p.bytesWritten + 1 < 2 ^ 32 := ⟨reachable, fits⟩
          simp only [if_pos fits, if_pos both, Option.bind_some]
          by_cases status : p.mem.Contains st.addr 1
          · simp only [if_pos status]
            rfl
          · simp only [if_neg status]
            rfl
        · have unfit : ¬ (p.mem.Ends st.addr 1 ∧ p.bytesWritten + 1 < 2 ^ 32) := fun both => fits both.2
          rw [if_neg fits, if_neg unfit, Option.bind_none]
      · rw [guestSlice_none reachable, if_neg (fun both => reachable both.1), Option.bind_none]
  · rw [if_neg inside, if_neg inside]
    rfl

theorem answerRequest_blind {hdr st : VringDesc}
    (walked : walkChain m dev 32 head {} = some ⟨some hdr, data, some st⟩)
    (beyond : ¬ m.Ends hdr.addr 16) : answerRequest m dev b host head = none := by
  unfold answerRequest
  rw [walked, Option.bind_eq_bind, Option.bind_some]
  dsimp only
  rw [guestSlice_none beyond]
  rfl

theorem ends_after {type : Nat} (done : dispatch m b host type sector data = some (some p)) :
    p.mem.Ends = m.Ends ∧ p.mem.Contains = m.Contains ∧ p.mem.base = m.base := by
  obtain ⟨added, stores⟩ := (dispatch_effect done).memory.deviceOnly
  exact ⟨ends_congr stores.base_eq, contains_congr stores.base_eq stores.length_eq, stores.base_eq⟩

theorem answerRequest_iff (queue : dev.queue? 0 = some q) :
    (∃ filled b' len, answerRequest m dev b host head = some (some (filled, b', len))) ↔
      WalkSafe m q 32 head ∧ ∀ chain hdr st, walkChain m dev 32 head {} = some chain →
        chain.hdr = some hdr → chain.statusDesc = some st → m.Ends hdr.addr 16 ∧
          (m.Contains hdr.addr 16 →
            SwitchSafe m b host (requestType m hdr) (requestSector m hdr) chain.data ∧
              m.Ends st.addr 1) := by
  rw [← walkChain_isSome queue (c := {})]
  cases walked : walkChain m dev 32 head {} with
  | none =>
    refine iff_of_false ?_ fun both => nomatch both.1
    rintro ⟨filled, b', len, answered⟩
    unfold answerRequest at answered
    rw [walked] at answered
    cases answered
  | some chain =>
    have lens := walkChain_lens queue walked nofun
    obtain ⟨hdr, data, st⟩ := chain
    match hdr, st with
    | none, st =>
      refine iff_of_true ⟨m, b, 0, answerRequest_bare walked (.inl rfl)⟩ ⟨rfl, ?_⟩
      rintro _ hdr _ ⟨⟩ known
      cases known
    | some hdr, none =>
      refine iff_of_true ⟨m, b, 0, answerRequest_bare walked (.inr rfl)⟩ ⟨rfl, ?_⟩
      rintro _ _ st ⟨⟩ _ known
      cases known
    | some hdr, some st =>
      have forms : (∀ chain hdr' st', some (⟨some hdr, data, some st⟩ : Chain) = some chain →
          chain.hdr = some hdr' → chain.statusDesc = some st' → m.Ends hdr'.addr 16 ∧
            (m.Contains hdr'.addr 16 → SwitchSafe m b host (requestType m hdr') (requestSector m hdr')
              chain.data ∧ m.Ends st'.addr 1)) ↔
          m.Ends hdr.addr 16 ∧ (m.Contains hdr.addr 16 →
            SwitchSafe m b host (requestType m hdr) (requestSector m hdr) data ∧ m.Ends st.addr 1) :=
        ⟨fun all => all _ hdr st rfl rfl rfl, by rintro safe _ _ _ ⟨⟩ ⟨⟩ ⟨⟩; exact safe⟩
      rw [forms, Option.isSome_some, eq_self, true_and]
      by_cases ends : m.Ends hdr.addr 16
      · rw [answerRequest_header walked ends, and_iff_right ends]
        by_cases inside : m.Contains hdr.addr 16
        · rw [if_pos inside, imp_iff_right inside, ← dispatch_iff lens]
          constructor
          · rintro ⟨filled, b', len, answered⟩
            obtain ⟨answer, switched, answered⟩ := Option.bind_eq_some_iff.mp answered
            cases answer with
            | none => cases answered
            | some p =>
              dsimp only at answered
              split at answered
              · rename_i fine
                rw [(ends_after switched).1] at fine
                exact ⟨⟨p, switched, fine.2⟩, fine.1⟩
              · cases answered
          · rintro ⟨⟨p, switched, fits⟩, reachable⟩
            refine ⟨withStatus p st, p.backend, p.bytesWritten + 1, ?_⟩
            rw [switched, Option.bind_some]
            exact if_pos ⟨by rw [(ends_after switched).1]; exact reachable, fits⟩
        · rw [if_neg inside]
          exact iff_of_true ⟨m, b, 0, rfl⟩ fun contains => absurd contains inside
      · rw [answerRequest_blind walked ends]
        exact iff_of_false (by rintro ⟨_, _, _, none_⟩; cases none_) fun safe => ends safe.1

theorem Memory.DeviceOnly.longer {m before : Memory} (only : m.DeviceOnly before) (off : Nat)
    (data : Bytes) : before.write off data ≠ m := by
  obtain ⟨added, stores⟩ := only
  intro same
  have lengths := congrArg (fun x => x.stores.length) same
  simp only [Memory.write_stores, stores.stores_eq, List.length_append, List.length_singleton] at lengths
  omega

theorem untouched {filled : Memory} {b' : Backend} {len : Nat} (queue : dev.queue? 0 = some q)
    (answered : answerRequest m dev b host head = some (some (filled, b', len)))
    {hdr st : VringDesc} (ends : EndsInStatus m q head hdr data st)
    (unmet : ¬ (data.length + 2 ≤ 32 ∧ m.Contains hdr.addr 16)) : filled = m := by
  obtain ⟨walk, arithmetic⟩ := (answerRequest_iff queue).mp ⟨_, _, _, answered⟩
  obtain ⟨chain, walked⟩ := Option.isSome_iff_exists.mp ((walkChain_isSome queue (c := {})).mpr walk)
  by_cases short : data.length + 2 ≤ 32
  · obtain ⟨kept, seen⟩ := ends.seen queue short
    have reachable := (arithmetic _ hdr st seen rfl rfl).1
    rw [answerRequest_header seen reachable, if_neg fun inside => unmet ⟨short, inside⟩] at answered
    cases answered
    rfl
  · have cut := ends.unseen queue (by omega) walked
    rw [answerRequest_bare walked (.inr cut)] at answered
    cases answered
    rfl

theorem completable_of_completes (completes : Completes m dev b host head) :
    ∃ q, dev.queue? 0 = some q ∧ Completable m dev b host head q := by
  obtain ⟨q, filled, b', len, slot, queue, answered, slot_found, _, status⟩ := completes
  obtain ⟨walk, arithmetic⟩ := (answerRequest_iff queue).mp ⟨_, _, _, answered⟩
  refine ⟨q, queue, walk, fun hdr data st ends => ?_, arithmetic, fun filled' b'' len' again => ?_⟩
  · by_contra unmet
    obtain ⟨before, byte, only, _, written⟩ := status hdr data st ends
    exact only.longer _ _ (written.symm.trans (untouched queue answered ends unmet))
  · rw [answered] at again
    cases again
    exact ⟨slot, slot_found⟩

/-- A block request completes exactly when its chain, its arithmetic and the used ring allow it. -/
theorem blk_request_completes_iff (m : Memory) (dev : Device) (b : Backend) (host : Host) (head : Nat) :
    Completes m dev b host head ↔ ∃ q, dev.queue? 0 = some q ∧ Completable m dev b host head q := by
  refine ⟨completable_of_completes, ?_⟩
  rintro ⟨q, queue, walk, status, request, ring⟩
  obtain ⟨filled, b', len, answered⟩ := (answerRequest_iff queue).mpr ⟨walk, request⟩
  obtain ⟨slot, slot_found⟩ := ring filled b' len answered
  refine ⟨q, filled, b', len, slot, queue, answered, slot_found, ?_, fun hdr data st ends => ?_⟩
  · rw [handleRequest_eq, answered, Option.bind_some]
    dsimp only
    unfold queuePushUsed pushUsed
    rw [queue]
    dsimp only
    rw [slot_found]
    rfl
  · obtain ⟨short, inside⟩ := status hdr data st ends
    obtain ⟨kept, seen⟩ := ends.seen queue short
    obtain ⟨reachable, _⟩ := request _ hdr st seen rfl rfl
    rw [answerRequest_header seen reachable, if_pos inside] at answered
    obtain ⟨answer, switched, answered⟩ := Option.bind_eq_some_iff.mp answered
    cases answer with
    | none => cases answered
    | some p =>
      dsimp only at answered
      split at answered
      · cases answered
        obtain ⟨_, contains_eq, base_eq⟩ := ends_after switched
        refine ⟨p.mem, p.status, (dispatch_effect switched).memory.deviceOnly, dispatch_status switched, ?_⟩
        rw [withStatus, if_pos (by rw [contains_eq]; exact ends.inside), base_eq]
      · cases answered

end Completion

/-- A posted request: the header at 256, a buffer of twenty bytes, and the status byte at 300. -/
def requestMemory (type sector buffer : Nat) : Memory where
  base := 0
  bytes := VringDesc.encode ⟨256, 16, 1, 1⟩ ++ VringDesc.encode ⟨buffer, 20, 3, 2⟩ ++
    VringDesc.encode ⟨300, 1, 2, 0⟩ ++ zeros 208 ++ le 4 type ++ le 4 0 ++ le 8 sector ++ zeros 48
  stores := []

def requestDevice : Device where
  queues := [{ num := 4, ready := 1, descAddr := 0, driverAddr := 64, deviceAddr := 128 }]

theorem sector_word : 1 * 512 < 2 ^ 64 := by decide

theorem sector_held : 1 * 512 ≤ (zeros 512).length := by simp

def oneSector : Backend where
  capacitySectors := 1
  readOnly := false
  dirty := none
  image := zeros 512
  positive := Nat.one_pos
  word := sector_word
  held := sector_held
  tracks := nofun

def ready (_ : Nat) : HostResult := .upTo 512

/-- The device id of a guest that has no buffer for it in RAM is never answered. -/
theorem get_id_is_left_hanging :
    (handleRequest (requestMemory 8 0 4096) requestDevice oneSector ready 0).map (·.1) =
      some (requestMemory 8 0 4096) ∧
    (handleRequest (requestMemory 0 (2 ^ 54) 272) requestDevice oneSector ready 0).isNone = true ∧
    ¬ Completes (requestMemory 8 0 4096) requestDevice oneSector ready 0 := by
  refine ⟨by decide +kernel, by decide +kernel, ?_⟩
  rintro ⟨q, filled, b', len, slot, queue, answered, -⟩
  have unanswered : (answerRequest (requestMemory 8 0 4096) requestDevice oneSector ready 0).map
      Option.isSome = some false := by decide +kernel
  rw [answered] at unanswered
  cases unanswered

end Machinen.Vmm
