import Mathlib.Data.List.Sort
import Machinen.Vmm.BlkCompletion

/-! The balloon device. The guest reports runs of free pages as descriptors of the reporting queue,
and the host gives their memory back through `madvise`. -/
namespace Machinen.Vmm

open Bytes Extents

def QUEUE_REPORTING : Nat := 2

structure Range where
  addr : Nat
  len : Nat
  deriving DecidableEq, Repr

namespace Range

def Holds (r : Range) (a : Nat) : Prop := r.addr ≤ a ∧ a < r.addr + r.len

def fromBase (base : Nat) (r : Range) : Range := ⟨r.addr - base, r.len⟩

end Range

/-- `madvise` on a range of guest RAM: a call may fail, and what released memory reads as is up to the
kernel. A range has to start at a page of the host; its length is rounded up to pages. -/
structure Madvise (page : Nat) where
  positive : 0 < page
  call : Nat → Range → Bytes → Option Bytes
  length_eq : ∀ n r ram ram', call n r ram = some ram' → ram'.length = ram.length
  starts : ∀ n r ram ram', call n r ram = some ram' → page ∣ r.addr
  outside : ∀ n r ram ram', call n r ram = some ram' →
    ∀ i, i < r.addr ∨ r.addr + divCeil r.len page * page ≤ i → ram'[i]? = ram[i]?

/-- The range lies in RAM; no sum is formed that a guest could make overflow. -/
def inRam (m : Memory) (ramEnd : Nat) (d : VringDesc) : Bool :=
  decide (0 < d.len ∧ m.base ≤ d.addr ∧ d.addr ≤ ramEnd ∧ d.len ≤ ramEnd - d.addr)

def collectRanges (m : Memory) (dev : Device) (ramEnd : Nat) :
    Nat → Nat → List Range → Option (List Range)
  | 0, _, ranges => some ranges
  | steps + 1, idx, ranges => do
    match ← queueDescriptor m dev QUEUE_REPORTING idx with
    | none => return ranges
    | some d =>
      if inRam m ramEnd d then
        if ranges.length < maxChainDescriptors then
          let ranges := ranges ++ [⟨d.addr, d.len⟩]
          if d.hasNext then collectRanges m dev ramEnd steps d.next ranges else return ranges
        else none
      else if d.hasNext then collectRanges m dev ramEnd steps d.next ranges
      else return ranges

def sink (x : Range) : List Range → List Range
  | [] => [x]
  | y :: before => if x.addr < y.addr then y :: sink x before else x :: y :: before

def sortByAddr (rs : List Range) : List Range := (rs.foldl (fun before x => sink x before) []).reverse

def mergeRanges : List Range → Range → List Range → Option (List Range)
  | merged, tail, [] => some (merged ++ [tail])
  | merged, tail, r :: rs => do
    let stop ← u64 (tail.addr + tail.len)
    if stop = r.addr then
      let len ← u64 (tail.len + r.len)
      mergeRanges merged ⟨tail.addr, len⟩ rs
    else if merged.length + 1 < maxChainDescriptors then mergeRanges (merged ++ [tail]) r rs
    else none

/-- RAM and what was given back of it: the calls, and the bytes of those that succeeded. -/
structure Reclaimed where
  mem : Memory
  calls : List Range
  freed : Nat
  deriving DecidableEq, Repr

def reclaimRanges {page : Nat} (madvise : Madvise page) (ramEnd : Nat) :
    List Range → Reclaimed → Option Reclaimed
  | [], done => some done
  | r :: rs, done =>
    if done.mem.base ≤ r.addr ∧ r.addr ≤ ramEnd ∧ r.len ≤ ramEnd - r.addr then do
      let given := r.fromBase done.mem.base
      let stop ← u64 (given.addr + given.len)
      if stop ≤ done.mem.bytes.length then
        match madvise.call done.calls.length given done.mem.bytes with
        | none => reclaimRanges madvise ramEnd rs { done with calls := done.calls ++ [given] }
        | some ram =>
          let freed ← u64 (done.freed + r.len)
          reclaimRanges madvise ramEnd rs ⟨{ done.mem with bytes := ram }, done.calls ++ [given], freed⟩
      else none
    else none

def mergeSorted : List Range → Option (List Range)
  | [] => some []
  | r :: rs => mergeRanges [] r rs

/-- `reported` counts the bytes given back since the device was made. -/
def handleReporting {page : Nat} (madvise : Madvise page) (m : Memory) (dev : Device)
    (reported head : Nat) : Option (Memory × List Range × Nat) := do
  let ramEnd := (m.base + m.bytes.length) % 2 ^ 64
  if ramEnd < m.base then none
  else
    let ranges ← collectRanges m dev ramEnd maxChainDescriptors head []
    let merged ← if ranges.length ≤ maxChainDescriptors then mergeSorted (sortByAddr ranges) else none
    let done ← reclaimRanges madvise ramEnd merged ⟨m, [], 0⟩
    let pushed ← queuePushUsed done.mem dev QUEUE_REPORTING head 0
    return (pushed, done.calls, (reported + done.freed) % 2 ^ 64)

/-! The ranges that are given back -/

def lookedAt (m : Memory) (q : Queue) : Nat → Nat → List VringDesc
  | 0, _ => []
  | steps + 1, idx =>
    match readDescriptor m q idx with
    | some (some d) => d :: if d.hasNext then lookedAt m q steps d.next else []
    | _ => []

theorem lookedAt_chain {m : Memory} {q : Queue} {steps idx : Nat} {descs : List VringDesc}
    (chain : m.ChainAt q idx descs) : lookedAt m q steps idx = descs.take steps := by
  induction steps generalizing idx descs with
  | zero => rfl
  | succ steps ih =>
    unfold lookedAt
    match descs, chain with
    | [desc], chain =>
      rw [chain.1]
      dsimp only
      rw [chain.2, if_neg nofun, List.take_succ_cons, List.take_nil]
    | desc :: next :: rest, chain =>
      rw [chain.1]
      dsimp only
      rw [chain.2.1, if_pos rfl, ih chain.2.2, List.take_succ_cons]

theorem lookedAt_length (m : Memory) (q : Queue) (steps idx : Nat) :
    (lookedAt m q steps idx).length ≤ steps := by
  induction steps generalizing idx with
  | zero => exact Nat.le_refl 0
  | succ steps ih =>
    unfold lookedAt
    split
    · split
      · rename_i d _ _
        exact Nat.succ_le_succ (ih d.next)
      · exact Nat.succ_le_succ (Nat.zero_le steps)
    · exact Nat.zero_le _

theorem lookedAt_len {m : Memory} {q : Queue} {steps idx : Nat} {d : VringDesc}
    (member : d ∈ lookedAt m q steps idx) : d.len < 2 ^ 32 := by
  induction steps generalizing idx with
  | zero => cases member
  | succ steps ih =>
    unfold lookedAt at member
    split at member
    · rename_i e read
      rcases List.mem_cons.mp member with rfl | later
      · exact readDescriptor_len read
      · split at later
        · exact ih later
        · cases later
    · cases member

def rangesOf (m : Memory) (ramEnd : Nat) (descs : List VringDesc) : List Range :=
  (descs.filter (inRam m ramEnd)).map fun d => ⟨d.addr, d.len⟩

theorem rangesOf_cons (m : Memory) (ramEnd : Nat) (d : VringDesc) (descs : List VringDesc) :
    rangesOf m ramEnd (d :: descs) =
      (if inRam m ramEnd d then [⟨d.addr, d.len⟩] else []) ++ rangesOf m ramEnd descs := by
  unfold rangesOf
  rw [List.filter_cons]
  split <;> rfl

theorem collectRanges_eq {m : Memory} {dev : Device} {q : Queue}
    (queue : dev.queue? QUEUE_REPORTING = some q)
    {ramEnd steps idx : Nat} {ranges : List Range} (safe : WalkSafe m q steps idx)
    (room : ranges.length + steps ≤ maxChainDescriptors) :
    collectRanges m dev ramEnd steps idx ranges =
      some (ranges ++ rangesOf m ramEnd (lookedAt m q steps idx)) := by
  induction steps generalizing idx ranges with
  | zero => exact congrArg some (List.append_nil ranges).symm
  | succ steps ih =>
    obtain ⟨found, read⟩ := Option.isSome_iff_exists.mp (readDescriptor_isSome.mpr safe.1)
    unfold collectRanges lookedAt
    rw [queueDescriptor_eq queue, read, Option.bind_eq_bind, Option.bind_some]
    cases found with
    | none => exact congrArg some (List.append_nil ranges).symm
    | some d =>
      dsimp only
      have later := safe.2 d read
      rw [rangesOf_cons]
      by_cases inside : inRam m ramEnd d = true
      · rw [if_pos inside, if_pos inside, if_pos (by omega)]
        split
        · rename_i next
          rw [ih (later next) (by rw [List.length_append, List.length_singleton]; omega),
            List.append_assoc]
        · rfl
      · rw [if_neg inside, if_neg inside, List.nil_append]
        split
        · rename_i next
          exact ih (later next) (by omega)
        · exact congrArg some (List.append_nil ranges).symm

theorem sink_perm (x : Range) (before : List Range) : (sink x before).Perm (x :: before) := by
  induction before with
  | nil => exact .refl _
  | cons y before ih =>
    unfold sink
    split
    · exact (ih.cons y).trans (.swap x y before)
    · exact .refl _

theorem sortByAddr_perm (rs : List Range) : (sortByAddr rs).Perm rs := by
  have placed : ∀ before, (rs.foldl (fun before x => sink x before) before).Perm (rs ++ before) := by
    induction rs with
    | nil => exact fun before => .refl before
    | cons x rs ih =>
      intro before
      exact (ih (sink x before)).trans
        (((sink_perm x before).append_left rs).trans List.perm_middle)
  have all := placed []
  rw [List.append_nil] at all
  exact (List.reverse_perm _).trans all

def totalLen (rs : List Range) : Nat := (rs.map Range.len).sum

def Between (low high : Nat) (rs : List Range) : Prop :=
  ∀ r ∈ rs, low ≤ r.addr ∧ r.addr + r.len ≤ high

structure Joined (rs merged : List Range) : Prop where
  holds : ∀ a, (∃ r ∈ merged, r.Holds a) ↔ ∃ r ∈ rs, r.Holds a
  between : ∀ low high, Between low high rs → Between low high merged
  whole : ∀ page, (∀ r ∈ rs, page ∣ r.len) → ∀ r ∈ merged, page ∣ r.len
  total : totalLen merged = totalLen rs

theorem Joined.refl (rs : List Range) : Joined rs rs :=
  ⟨fun _ => Iff.rfl, fun _ _ between => between, fun _ whole => whole, rfl⟩

theorem Joined.trans {rs merged last : List Range} (one : Joined rs merged) (two : Joined merged last) :
    Joined rs last :=
  ⟨fun a => (two.holds a).trans (one.holds a),
    fun low high between => two.between low high (one.between low high between),
    fun page whole => two.whole page (one.whole page whole), two.total.trans one.total⟩

theorem Joined.of_perm {rs merged : List Range} (perm : merged.Perm rs) : Joined rs merged :=
  ⟨fun _ => ⟨fun ⟨r, member, holds⟩ => ⟨r, perm.mem_iff.mp member, holds⟩,
      fun ⟨r, member, holds⟩ => ⟨r, perm.mem_iff.mpr member, holds⟩⟩,
    fun _ _ between r member => between r (perm.mem_iff.mp member),
    fun _ whole r member => whole r (perm.mem_iff.mp member), (perm.map Range.len).sum_nat⟩

theorem Joined.join (merged rs : List Range) (tail : Range) (len : Nat) :
    Joined (merged ++ tail :: ⟨tail.addr + tail.len, len⟩ :: rs)
      (merged ++ ⟨tail.addr, tail.len + len⟩ :: rs) := by
  refine ⟨fun _ => ?_, fun low high between => ?_, fun page whole => ?_, ?_⟩
  · have both (a : Nat) : (tail.addr ≤ a ∧ a < tail.addr + (tail.len + len)) ↔
        (tail.addr ≤ a ∧ a < tail.addr + tail.len) ∨
          (tail.addr + tail.len ≤ a ∧ a < tail.addr + tail.len + len) := by omega
    simp only [List.mem_append, List.mem_cons, or_and_right, exists_or, exists_eq_left, Range.Holds,
      both, or_assoc]
  · intro r member
    have first := between tail (by simp)
    have second := between ⟨tail.addr + tail.len, len⟩ (by simp)
    dsimp only at second
    simp only [List.mem_append, List.mem_cons] at member
    rcases member with old | rfl | later
    · exact between r (by simp [old])
    · exact ⟨first.1, by dsimp only; omega⟩
    · exact between r (by simp [later])
  · intro r member
    simp only [List.mem_append, List.mem_cons] at member
    rcases member with old | rfl | later
    · exact whole r (by simp [old])
    · exact Nat.dvd_add (whole tail (by simp)) (whole ⟨tail.addr + tail.len, len⟩ (by simp))
    · exact whole r (by simp [later])
  · simp [totalLen, Nat.add_assoc]

theorem mergeRanges_joined {merged rs : List Range} {tail : Range} {high : Nat}
    (between : Between 0 high (merged ++ tail :: rs)) (word : high < 2 ^ 64)
    (few : (merged ++ tail :: rs).length ≤ maxChainDescriptors) :
    ∃ done, mergeRanges merged tail rs = some done ∧ Joined (merged ++ tail :: rs) done := by
  induction rs generalizing merged tail with
  | nil => exact ⟨_, rfl, Joined.refl _⟩
  | cons r rs ih =>
    have first := between tail (by simp)
    have second := between r (by simp)
    have stop : u64 (tail.addr + tail.len) = some (tail.addr + tail.len) := if_pos (by omega)
    rw [List.length_append, List.length_cons, List.length_cons] at few
    unfold mergeRanges
    rw [stop, Option.bind_eq_bind, Option.bind_some]
    split
    · rename_i adjacent
      have sum : u64 (tail.len + r.len) = some (tail.len + r.len) := if_pos (by omega)
      have joined := Joined.join merged rs tail r.len
      have same : (⟨tail.addr + tail.len, r.len⟩ : Range) = r := by rw [adjacent]
      rw [same] at joined
      obtain ⟨done, ran, rest⟩ := ih
        (joined.between 0 high between) (by rw [List.length_append, List.length_cons]; omega)
      rw [sum, Option.bind_some]
      exact ⟨done, ran, joined.trans rest⟩
    · have moved : merged ++ tail :: r :: rs = (merged ++ [tail]) ++ r :: rs := by
        rw [List.append_assoc, List.singleton_append]
      rw [if_pos (by omega)]
      rw [moved] at between ⊢
      exact ih between
        (by rw [← moved, List.length_append, List.length_cons, List.length_cons]; exact few)

theorem mergeSorted_joined {rs : List Range} {high : Nat} (between : Between 0 high rs)
    (word : high < 2 ^ 64) (few : rs.length ≤ maxChainDescriptors) :
    ∃ done, mergeSorted (sortByAddr rs) = some done ∧ Joined rs done := by
  have perm := sortByAddr_perm rs
  have sorted := Joined.of_perm perm
  have short := perm.length_eq
  revert sorted short
  generalize sortByAddr rs = ordered
  intro sorted short
  cases ordered with
  | nil => exact ⟨[], rfl, sorted⟩
  | cons r rest =>
    obtain ⟨done, ran, joined⟩ := @mergeRanges_joined [] rest r high
      (sorted.between 0 high between) word (by rw [List.nil_append]; omega)
    exact ⟨done, ran, sorted.trans joined⟩

theorem reclaimRanges_done {page : Nat} {madvise : Madvise page} {rs : List Range} {done : Reclaimed}
    (between : Between done.mem.base (done.mem.base + done.mem.bytes.length) rs)
    (word : done.mem.base + done.mem.bytes.length < 2 ^ 64) (room : done.freed + totalLen rs < 2 ^ 64) :
    ∃ ram freed, reclaimRanges madvise (done.mem.base + done.mem.bytes.length) rs done =
        some ⟨{ done.mem with bytes := ram }, done.calls ++ rs.map (Range.fromBase done.mem.base),
        freed⟩ ∧
      ram.length = done.mem.bytes.length ∧
      ((∀ r ∈ rs, page ∣ r.len) → ∀ i, (∀ r ∈ rs, ¬ (r.fromBase done.mem.base).Holds i) →
        ram[i]? = done.mem.bytes[i]?) := by
  induction rs generalizing done with
  | nil => exact ⟨_, _, congrArg some (by rw [List.map_nil, List.append_nil]), rfl, fun _ _ _ => rfl⟩
  | cons r rs ih =>
    obtain ⟨low, high⟩ := between r List.mem_cons_self
    have later : Between done.mem.base (done.mem.base + done.mem.bytes.length) rs :=
      fun e member => between e (List.mem_cons_of_mem r member)
    have stop : u64 ((r.fromBase done.mem.base).addr + (r.fromBase done.mem.base).len) =
        some (r.addr - done.mem.base + r.len) := if_pos (by unfold Range.fromBase; dsimp only; omega)
    have total : totalLen (r :: rs) = r.len + totalLen rs := rfl
    unfold reclaimRanges
    rw [if_pos ⟨low, by omega, by omega⟩]
    dsimp only
    rw [stop, Option.bind_eq_bind, Option.bind_some, if_pos (by omega)]
    cases answer : madvise.call done.calls.length (r.fromBase done.mem.base) done.mem.bytes with
    | none =>
      dsimp only
      obtain ⟨ram, freed, ran, length_eq, quiet⟩ := @ih
        { done with calls := done.calls ++ [r.fromBase done.mem.base] } later word (by dsimp only; omega)
      refine ⟨ram, freed, ?_, length_eq, fun whole i out => ?_⟩
      · rw [ran, List.map_cons, List.append_assoc, List.singleton_append]
      · exact quiet (fun e member => whole e (List.mem_cons_of_mem r member)) i
          fun e member => out e (List.mem_cons_of_mem r member)
    | some bytes =>
      dsimp only
      have same := madvise.length_eq _ _ _ _ answer
      have sum : u64 (done.freed + r.len) = some (done.freed + r.len) := if_pos (by omega)
      rw [sum, Option.bind_some]
      obtain ⟨ram, freed, ran, length_eq, quiet⟩ := @ih
        ⟨{ done.mem with bytes := bytes }, done.calls ++ [r.fromBase done.mem.base], done.freed + r.len⟩
        (by dsimp only; rw [same]; exact later) (by dsimp only; rw [same]; exact word)
          (by dsimp only; omega)
      dsimp only at ran length_eq quiet
      rw [same] at ran length_eq
      refine ⟨ram, freed, ?_, length_eq, fun whole i out => ?_⟩
      · rw [ran, List.map_cons, List.append_assoc, List.singleton_append]
      · have rest := quiet (fun e member => whole e (List.mem_cons_of_mem r member)) i
          fun e member => out e (List.mem_cons_of_mem r member)
        rw [rest]
        refine madvise.outside _ _ _ _ answer i ?_
        have len_eq := divCeil_aligned madvise.positive (whole r List.mem_cons_self)
        have away := out r List.mem_cons_self
        unfold Range.Holds at away
        unfold Range.fromBase at away ⊢
        dsimp only at away ⊢
        omega

theorem inRam_iff {m : Memory} (d : VringDesc) (word : m.base + m.bytes.length < 2 ^ 64) :
    inRam m ((m.base + m.bytes.length) % 2 ^ 64) d = true ↔ 0 < d.len ∧ m.Contains d.addr d.len := by
  unfold inRam Memory.Contains
  rw [Nat.mod_eq_of_lt word, decide_eq_true_iff]
  omega

theorem mem_rangesOf {m : Memory} {descs : List VringDesc} {r : Range}
    (word : m.base + m.bytes.length < 2 ^ 64) :
    r ∈ rangesOf m ((m.base + m.bytes.length) % 2 ^ 64) descs ↔
      ∃ d ∈ descs, 0 < d.len ∧ m.Contains d.addr d.len ∧ r = ⟨d.addr, d.len⟩ := by
  unfold rangesOf
  rw [List.mem_map]
  constructor
  · rintro ⟨d, member, rfl⟩
    obtain ⟨member, inside⟩ := List.mem_filter.mp member
    obtain ⟨some_, contains⟩ := (inRam_iff d word).mp inside
    exact ⟨d, member, some_, contains, rfl⟩
  · rintro ⟨d, member, some_, contains, rfl⟩
    exact ⟨d, List.mem_filter.mpr ⟨member, (inRam_iff d word).mpr ⟨some_, contains⟩⟩, rfl⟩

theorem rangesOf_total {m : Memory} {ramEnd : Nat} {descs : List VringDesc}
    (lens : ∀ d ∈ descs, d.len < 2 ^ 32) :
    totalLen (rangesOf m ramEnd descs) ≤ descs.length * 2 ^ 32 := by
  induction descs with
  | nil => exact Nat.zero_le _
  | cons d descs ih =>
    have first := lens d List.mem_cons_self
    have rest := ih fun e member => lens e (List.mem_cons_of_mem d member)
    have length : (d :: descs).length = descs.length + 1 := rfl
    rw [rangesOf_cons, length, Nat.add_mul, Nat.one_mul]
    split
    · have total : totalLen ([⟨d.addr, d.len⟩] ++ rangesOf m ramEnd descs) =
          d.len + totalLen (rangesOf m ramEnd descs) := rfl
      rw [total, Nat.add_comm]
      exact Nat.add_le_add rest (Nat.le_of_lt first)
    · rw [List.nil_append]
      exact Nat.le_trans rest (Nat.le_add_right _ _)

theorem rangesOf_length (m : Memory) (ramEnd : Nat) (descs : List VringDesc) :
    (rangesOf m ramEnd descs).length ≤ descs.length := by
  unfold rangesOf
  rw [List.length_map]
  exact List.length_filter_le _ _

theorem usedSlot_of_contains {m : Memory} {q : Queue} (word : m.base + m.bytes.length < 2 ^ 64)
    (num : 0 < q.num)
    (ring : m.Contains q.deviceAddr (4 + q.num * 8)) : ∃ slot, usedSlot m q = some (some slot) := by
  obtain ⟨low, high⟩ := ring
  have header : m.Contains q.deviceAddr 4 := ⟨low, by omega⟩
  unfold usedSlot
  rw [if_neg (by omega), guestSlice_eq fun _ => by
    omega, if_pos header, Option.bind_eq_bind, Option.bind_some]
  dsimp only
  have inside := Nat.mod_lt (toNat (slice m.bytes (q.deviceAddr - m.base + 2) 2)) num
  have elem : m.Contains (q.deviceAddr + 4 +
      toNat (slice m.bytes (q.deviceAddr - m.base + 2) 2) % q.num * 8) 8 := ⟨by omega, by omega⟩
  have sum : u64 (q.deviceAddr + 4 + toNat (slice m.bytes (q.deviceAddr - m.base + 2) 2) % q.num * 8) =
    some _ :=
    if_pos (by omega)
  rw [sum, Option.bind_eq_bind, Option.bind_some, guestSlice_eq fun _ => by omega, if_pos elem]
  exact ⟨_, rfl⟩

/-- What is given back of RAM for a chain of descriptors: all of each range that lies in RAM, and
nothing else. What is left of RAM afterwards is `ram`. -/
structure GivesBack (m : Memory) (page : Nat) (descs : List VringDesc) (calls : List Range)
    (ram : Bytes) : Prop where
  inside : ∀ r ∈ calls, r.addr + r.len ≤ m.bytes.length
  holds : ∀ i, (∃ r ∈ calls, r.Holds i) ↔
    ∃ d ∈ descs, m.Contains d.addr d.len ∧ Range.Holds ⟨d.addr - m.base, d.len⟩ i
  length_eq : ram.length = m.bytes.length
  quiet : (∀ d ∈ descs, m.Contains d.addr d.len → page ∣ d.len) →
    ∀ i, (¬ ∃ r ∈ calls, r.Holds i) → ram[i]? = m.bytes[i]?

section Reporting

variable {m : Memory} {dev : Device} {q : Queue} {head page : Nat}

theorem givesBack_of_joined {descs : List VringDesc} {merged : List Range} {ram : Bytes}
    (word : m.base + m.bytes.length < 2 ^ 64)
    (joined : Joined (rangesOf m ((m.base + m.bytes.length) % 2 ^ 64) descs) merged)
    (between : Between m.base (m.base + m.bytes.length) merged) (length_eq : ram.length = m.bytes.length)
    (quiet : (∀ r ∈ merged, page ∣ r.len) → ∀ i, (∀ r ∈ merged, ¬ (r.fromBase m.base).Holds i) →
      ram[i]? = m.bytes[i]?) :
    GivesBack m page descs (merged.map (Range.fromBase m.base)) ram := by
  have moved (i : Nat) : (∃ r ∈ merged.map (Range.fromBase m.base), r.Holds i) ↔
      ∃ r ∈ merged, r.Holds (m.base + i) := by
    have same (r : Range) (member : r ∈ merged) :
      (r.fromBase m.base).Holds i ↔ r.Holds (m.base + i) := by
      have low := (between r member).1
      unfold Range.Holds Range.fromBase
      dsimp only
      omega
    constructor
    · rintro ⟨e, member, holds⟩
      obtain ⟨r, known, rfl⟩ := List.mem_map.mp member
      exact ⟨r, known, (same r known).mp holds⟩
    · rintro ⟨r, known, holds⟩
      exact ⟨_, List.mem_map_of_mem known, (same r known).mpr holds⟩
  refine ⟨fun r member => ?_, fun i => ?_, length_eq, fun whole i out => ?_⟩
  · obtain ⟨r, known, rfl⟩ := List.mem_map.mp member
    have bounds := between r known
    unfold Range.fromBase
    dsimp only
    omega
  · rw [moved, joined.holds]
    constructor
    · rintro ⟨r, member, holds⟩
      obtain ⟨d, known, _, contains, rfl⟩ := (mem_rangesOf word).mp member
      refine ⟨d, known, contains, ?_⟩
      have low := contains.1
      unfold Range.Holds at holds ⊢
      dsimp only at holds ⊢
      omega
    · rintro ⟨d, known, contains, holds⟩
      have low := contains.1
      unfold Range.Holds at holds
      dsimp only at holds
      refine ⟨⟨d.addr, d.len⟩, (mem_rangesOf word).mpr ⟨d, known, by omega, contains, rfl⟩, ?_⟩
      unfold Range.Holds
      dsimp only
      omega
  · refine quiet (joined.whole page fun r member => ?_) i fun r member holds =>
      out ⟨_, List.mem_map_of_mem member, holds⟩
    obtain ⟨d, known, _, contains, rfl⟩ := (mem_rangesOf word).mp member
    exact whole d known contains

/-- For every chain whose descriptors can be addressed, the reporting queue gives back exactly the
reported ranges that lie in RAM, and publishes one used element where the used ring does. -/
theorem free_pages_reported (queue : dev.queue? QUEUE_REPORTING = some q)
    (word : m.base + m.bytes.length < 2 ^ 64) (walk : WalkSafe m q maxChainDescriptors head)
    (madvise : Madvise page) (reported : Nat) :
    ∃ calls ram count, GivesBack m page (lookedAt m q maxChainDescriptors head) calls ram ∧
      handleReporting madvise m dev reported head =
        (pushUsed { m with bytes := ram } q head 0).map (fun pushed => (pushed, calls, count)) ∧
      (0 < q.num → m.Contains q.deviceAddr (4 + q.num * 8) →
        ∃ slot, usedSlot { m with bytes := ram } q = some (some slot) ∧
          handleReporting madvise m dev reported head =
            some (writeUsedIdx (writeUsedElem { m with bytes := ram } slot head 0) slot, calls,
            count)) := by
  have end_eq := Nat.mod_eq_of_lt word
  have descs_few := lookedAt_length m q maxChainDescriptors head
  have collected : collectRanges m dev ((m.base + m.bytes.length) % 2 ^ 64) maxChainDescriptors head [] =
      some ([] ++ rangesOf m ((m.base + m.bytes.length) % 2 ^ 64)
        (lookedAt m q maxChainDescriptors head)) :=
    collectRanges_eq queue walk (Nat.le_of_eq (Nat.zero_add _))
  have few := Nat.le_trans (rangesOf_length m ((m.base + m.bytes.length) % 2 ^ 64) _) descs_few
  have total : totalLen (rangesOf m ((m.base + m.bytes.length) % 2 ^ 64)
    (lookedAt m q maxChainDescriptors head)) ≤
      (lookedAt m q maxChainDescriptors head).length * 2 ^ 32 :=
    rangesOf_total fun d member => lookedAt_len member
  have between : Between m.base (m.base + m.bytes.length)
      (rangesOf m ((m.base + m.bytes.length) % 2 ^ 64) (lookedAt m q maxChainDescriptors head)) := by
    intro r member
    obtain ⟨d, _, _, contains, rfl⟩ := (mem_rangesOf word).mp member
    obtain ⟨low, high⟩ := contains
    exact ⟨low, by dsimp only; omega⟩
  obtain ⟨merged, ran, joined⟩ := mergeSorted_joined
    (fun r member => ⟨Nat.zero_le _, (between r member).2⟩) word few
  have bounds := joined.between _ _ between
  have room : 0 + totalLen merged < 2 ^ 64 := by
    rw [joined.total]
    have : maxChainDescriptors = 32 := rfl
    omega
  obtain ⟨ram, freed, gave, length_eq, quiet⟩ := @reclaimRanges_done page madvise merged ⟨m, [], 0⟩
    bounds word room
  refine ⟨_, ram, (reported + freed) % 2 ^ 64, givesBack_of_joined word joined bounds length_eq quiet,
    ?_⟩
  have handled : handleReporting madvise m dev reported head =
      (pushUsed { m with bytes := ram } q head 0).map
        (fun pushed => (pushed, merged.map (Range.fromBase m.base), (reported + freed) % 2 ^ 64)) := by
    unfold handleReporting
    dsimp only
    rw [if_neg (by omega), collected, Option.bind_eq_bind, Option.bind_some, List.nil_append, if_pos few,
      ran, Option.bind_some]
    dsimp only at gave
    rw [end_eq, gave, Option.bind_eq_bind, Option.bind_some]
    unfold queuePushUsed
    rw [queue]
    dsimp only
    cases pushUsed { m with bytes := ram } q head 0 <;> rfl
  refine ⟨handled, fun num ring => ?_⟩
  have same : (({ m with bytes := ram } : Memory)).bytes.length = m.bytes.length := length_eq
  have inside : ({ m with bytes := ram } : Memory).Contains q.deviceAddr (4 + q.num * 8) := by
    unfold Memory.Contains
    rw [same]
    exact ring
  obtain ⟨slot, found⟩ := usedSlot_of_contains (by rw [same]; exact word) num inside
  refine ⟨slot, found, ?_⟩
  rw [handled, pushUsed, found]
  rfl

end Reporting

theorem Memory.ChainAt.walkSafe {m : Memory} {q : Queue} {steps idx : Nat} {descs : List VringDesc}
    (chain : m.ChainAt q idx descs) : WalkSafe m q steps idx := by
  induction steps generalizing idx descs with
  | zero => trivial
  | succ steps ih =>
    match descs, chain with
    | [desc], chain =>
      refine ⟨readDescriptor_isSome.mp (by rw [chain.1]; rfl), fun d read next => ?_⟩
      cases chain.1.symm.trans read
      rw [chain.2] at next
      cases next
    | desc :: following :: rest, chain =>
      refine ⟨readDescriptor_isSome.mp (by rw [chain.1]; rfl), fun d read _ => ?_⟩
      cases chain.1.symm.trans read
      exact ih chain.2.2

/-- Released pages read as zeros, as `MADV_DONTNEED` has it. -/
def dontNeed (page : Nat) (positive : 0 < page) : Madvise page where
  positive := positive
  call _ r ram := if page ∣ r.addr then some
    (store ram r.addr (zeros (divCeil r.len page * page))) else none
  length_eq := by
    intro _ r ram ram' done
    split at done
    · cases done
      exact store_length ..
    · cases done
  starts := by
    intro _ r ram ram' done
    split at done
    · assumption
    · cases done
  outside := by
    intro _ r ram ram' done i out
    split at done
    · cases done
      exact store_outside _ _ _ _ (by rwa [zeros_length])
    · cases done

def reportMemory (addr len : Nat) : Memory where
  base := 0
  bytes := VringDesc.encode ⟨addr, len, 2, 0⟩ ++ zeros 8176
  stores := []

def reportDevice (deviceAddr : Nat) : Device where
  queues := [{}, {}, { num := 4, ready := 1, descAddr := 0, driverAddr := 64, deviceAddr := deviceAddr }]

/-- The second page is given back. -/
theorem second_page_reported :
    ∃ calls ram count, GivesBack (reportMemory 4096 4096) 4096 [⟨4096, 4096, 2, 0⟩] calls ram ∧
      ∃ slot, handleReporting (dontNeed 4096 (by decide)) (reportMemory 4096 4096) (reportDevice 128) 0
        0 =
        some (writeUsedIdx (writeUsedElem { reportMemory 4096 4096 with bytes := ram } slot 0 0) slot,
        calls,
          count) := by
  have size : (reportMemory 4096 4096).bytes.length = 8192 := by
    unfold reportMemory
    rw [List.length_append, zeros_length]
    rfl
  have chain : (reportMemory 4096 4096).ChainAt
      { num := 4, ready := 1, descAddr := 0, driverAddr := 64, deviceAddr := 128 } 0
        [⟨4096, 4096, 2, 0⟩] :=
    ⟨by decide +kernel, by decide +kernel⟩
  have queue : (reportDevice 128).queue? 2 =
      some { num := 4, ready := 1, descAddr := 0, driverAddr := 64, deviceAddr := 128 } := rfl
  have word : (reportMemory 4096 4096).base + (reportMemory 4096 4096).bytes.length < 2 ^ 64 := by
    rw [size]
    decide
  obtain ⟨calls, ram, count, gives, _, published⟩ :=
    free_pages_reported queue word chain.walkSafe (dontNeed 4096 (by decide)) 0
  rw [lookedAt_chain chain] at gives
  obtain ⟨slot, _, handled⟩ := published (by decide) ⟨by decide, by rw [size]; decide⟩
  exact ⟨calls, ram, count, gives, slot, handled⟩

def GivesBackParts (m : Memory) (descs : List VringDesc) (calls : List Range) : Prop :=
  ∀ i, (∃ r ∈ calls, r.Holds i) ↔
    i < m.bytes.length ∧ ∃ d ∈ descs, Range.Holds ⟨d.addr, d.len⟩ (m.base + i)

/-- A report of two pages of which the second is past the end of RAM: neither is given back. And no
used element is published into a ring outside RAM. -/
theorem straddling_report_is_skipped :
    (∃ pushed count, handleReporting (dontNeed 4096 (by decide)) (reportMemory 4096 8192)
      (reportDevice 128) 0 0 =
        some (pushed, [], count) ∧
      ¬ GivesBackParts (reportMemory 4096 8192) [⟨4096, 8192, 2, 0⟩] []) ∧
    ∃ pushed calls count,
      handleReporting (dontNeed 4096 (by decide)) (reportMemory 4096 4096) (reportDevice 16384) 0 0 =
        some (pushed, calls, count) ∧ pushed.stores = [] := by
  have skipped : (handleReporting (dontNeed 4096 (by decide)) (reportMemory 4096 8192) (reportDevice 128)
    0 0).map
      (fun a => a.2.1) = some [] := by decide +kernel
  have unpublished : (handleReporting (dontNeed 4096 (by decide)) (reportMemory 4096 4096)
    (reportDevice 16384)
      0 0).map (fun a => a.1.stores) = some [] := by decide +kernel
  constructor
  · obtain ⟨⟨pushed, calls, count⟩, handled, none_⟩ := Option.map_eq_some_iff.mp skipped
    obtain rfl : calls = [] := none_
    refine ⟨pushed, count, handled, fun parts => ?_⟩
    have size : 4096 < (reportMemory 4096 8192).bytes.length := by
      unfold reportMemory
      rw [List.length_append, zeros_length]
      decide +kernel
    obtain ⟨r, member, _⟩ := (parts 4096).mpr
      ⟨size, ⟨4096, 8192, 2, 0⟩, List.mem_cons_self, by unfold Range.Holds reportMemory; decide⟩
    cases member
  · obtain ⟨⟨pushed, calls, count⟩, handled, none_⟩ := Option.map_eq_some_iff.mp unpublished
    exact ⟨pushed, calls, count, handled, none_⟩

end Machinen.Vmm
