import Machinen.Lib.Bytes

/-! Extents of marked blocks: the scan that finds them, the stream that carries
them and the overlay that lays them down again.
The block size, the set of marked blocks and the reader's checks are parameters. -/
namespace Machinen.Extents

universe u

/-- `while (i < n and p i) i += 1`, with the number of steps left as the first argument. -/
def scan (p : Nat → Bool) : Nat → Nat → Nat
  | 0, i => i
  | steps + 1, i => if p i then scan p steps (i + 1) else i

def scanTo (p : Nat → Bool) (n i : Nat) : Nat := scan p (n - i) i

structure ScanTo (p : Nat → Bool) (n i j : Nat) : Prop where
  forward : i ≤ j
  inside : i ≤ n → j ≤ n
  passed : ∀ k, i ≤ k → k < j → p k = true
  stopped : j < n → p j = false

theorem scanTo_spec (p : Nat → Bool) (n i : Nat) : ScanTo p n i (scanTo p n i) := by
  unfold scanTo
  generalize steps : n - i = s
  induction s generalizing i with
  | zero =>
    simp only [scan]
    exact ⟨Nat.le_refl i, fun h => h, by omega, by omega⟩
  | succ s ih =>
    simp only [scan]
    split
    · rename_i here
      have rest := ih (i + 1) (by omega)
      refine ⟨by have := rest.forward; omega, fun _ => rest.inside (by omega), ?_, rest.stopped⟩
      intro k low high
      rcases Nat.eq_or_lt_of_le low with same | later
      · exact same ▸ here
      · exact rest.passed k later high
    · rename_i here
      exact ⟨Nat.le_refl i, fun h => h, by omega, fun _ => by simpa using here⟩

def divCeil (numerator denominator : Nat) : Nat :=
  if numerator = 0 then 0 else (numerator - 1) / denominator + 1

theorem lt_divCeil_iff {size block : Nat} (positive : 0 < block) (i : Nat) :
    i < divCeil size block ↔ i * block < size := by
  unfold divCeil
  split
  · omega
  · rw [Nat.lt_add_one_iff, Nat.le_div_iff_mul_le positive]
    omega

theorem divCeil_aligned {size block : Nat} (positive : 0 < block) (aligned : block ∣ size) :
    divCeil size block * block = size := by
  obtain ⟨n, rfl⟩ := aligned
  rw [Nat.mul_comm block n]
  have upper : ¬ n < divCeil (n * block) block := fun beyond =>
    Nat.lt_irrefl _ ((lt_divCeil_iff positive n).mp beyond)
  have lower : 0 < n → n - 1 < divCeil (n * block) block := fun some_block =>
    (lt_divCeil_iff positive (n - 1)).mpr (Nat.mul_lt_mul_of_pos_right (by omega) positive)
  have count : divCeil (n * block) block = n := by omega
  rw [count]

variable {cursor : Nat} {e : Extent}

theorem div_le_divCeil {size block : Nat} (positive : 0 < block) (inside : cursor ≤ size) :
    cursor / block ≤ divCeil size block := by
  by_contra beyond
  have past : ¬ divCeil size block * block < size := fun more =>
    Nat.lt_irrefl _ ((lt_divCeil_iff positive (divCeil size block)).mpr more)
  have below : (divCeil size block + 1) * block ≤ cursor :=
    (Nat.le_div_iff_mul_le positive).mp (by omega)
  rw [Nat.add_mul] at below
  omega

structure Extent where
  start : Nat
  stop : Nat
  deriving DecidableEq, Repr

def Extent.len (e : Extent) : Nat := e.stop - e.start

section Scan

variable (block size : Nat) (dirty : Nat → Bool)

/-- The next run of marked blocks at or after `cursor`, clamped to the size. -/
def nextDirtyExtent (cursor : Nat) : Option Extent :=
  let blockCount := divCeil size block
  let startBlock := scanTo (fun b => !dirty b) blockCount (cursor / block)
  if blockCount ≤ startBlock then none
  else
    let stopBlock := scanTo dirty blockCount startBlock
    some ⟨startBlock * block, min (stopBlock * block) size⟩

/-- The caller's loop `while (next_dirty_extent(cursor)) |e| cursor = e.end`.
It does not return within the given number of iterations when the result is `none`. -/
def extentsFrom : Nat → Nat → Option (List Extent)
  | 0, _ => none
  | fuel + 1, cursor =>
    match nextDirtyExtent block size dirty cursor with
    | none => some []
    | some e => (extentsFrom fuel e.stop).map (e :: ·)

end Scan

variable {block size : Nat} {dirty : Nat → Bool}

theorem nextDirtyExtent_none (none_left : nextDirtyExtent block size dirty cursor = none) (b : Nat)
    (from_cursor : cursor / block ≤ b) (inside : b < divCeil size block) : dirty b = false := by
  simp only [nextDirtyExtent] at none_left
  split at none_left
  · rename_i exhausted
    have spec := scanTo_spec (fun b => !dirty b) (divCeil size block) (cursor / block)
    simpa using spec.passed b from_cursor (by omega)
  · contradiction

/-- What one extent says: a maximal marked run that starts at the first marked block. -/
structure NextExtent (block size : Nat) (dirty : Nat → Bool) (cursor : Nat) (e : Extent)
    (first last : Nat) : Prop where
  start_eq : e.start = first * block
  stop_eq : e.stop = min (last * block) size
  after : cursor / block ≤ first
  nonempty : first < last
  inside : last ≤ divCeil size block
  skipped : ∀ b, cursor / block ≤ b → b < first → dirty b = false
  marked : ∀ b, first ≤ b → b < last → dirty b = true

theorem nextDirtyExtent_some (found : nextDirtyExtent block size dirty cursor = some e) :
    ∃ first last, NextExtent block size dirty cursor e first last := by
  simp only [nextDirtyExtent] at found
  split at found
  · contradiction
  · rename_i more
    obtain rfl := Option.some.inj found
    have skip := scanTo_spec (fun b => !dirty b) (divCeil size block) (cursor / block)
    have run := scanTo_spec dirty (divCeil size block)
      (scanTo (fun b => !dirty b) (divCeil size block) (cursor / block))
    have here := skip.stopped (by omega)
    refine ⟨_, _, rfl, rfl, skip.forward, ?_, run.inside (by omega), ?_, run.passed⟩
    · rcases Nat.eq_or_lt_of_le run.forward with same | later
      · have stuck := run.stopped (by omega)
        rw [← same] at stuck
        simp [stuck] at here
      · exact later
    · intro b low high
      simpa using skip.passed b low high

theorem NextExtent.stop_le {first last : Nat}
    (next : NextExtent block size dirty cursor e first last) : e.stop ≤ size := by
  rw [next.stop_eq]
  exact Nat.min_le_right _ _

def TailClean (block size : Nat) (dirty : Nat → Bool) : Prop :=
  block ∣ size ∨ dirty (size / block) = false

instance : Decidable (TailClean block size dirty) := inferInstanceAs (Decidable (_ ∨ _))

theorem NextExtent.stop_aligned {first last : Nat}
    (positive : 0 < block) (clean : TailClean block size dirty)
    (next : NextExtent block size dirty cursor e first last) : e.stop = last * block := by
  rw [next.stop_eq]
  refine Nat.min_eq_left ?_
  rcases clean with aligned | tail
  · calc
      last * block ≤ divCeil size block * block := Nat.mul_le_mul_right _ next.inside
      _ = size := divCeil_aligned positive aligned
  · by_contra cut
    have below : (last - 1) * block < size :=
      (lt_divCeil_iff positive (last - 1)).mp (by have := next.nonempty; have := next.inside; omega)
    have at_tail : size / block = last - 1 := by
      refine Nat.div_eq_of_lt_le (by omega) ?_
      have : last - 1 + 1 = last := by have := next.nonempty; omega
      rw [this]
      omega
    rw [at_tail, next.marked (last - 1) (by have := next.nonempty; omega)
      (by have := next.nonempty; omega)] at tail
    contradiction

theorem extentsFrom_returns (positive : 0 < block) (clean : TailClean block size dirty)
    (fuel cursor : Nat) (inside : cursor ≤ size) (enough : divCeil size block < cursor / block + fuel) :
    ∃ es, extentsFrom block size dirty fuel cursor = some es := by
  induction fuel generalizing cursor with
  | zero =>
    have := div_le_divCeil positive inside
    omega
  | succ fuel ih =>
    simp only [extentsFrom]
    split
    · exact ⟨[], rfl⟩
    · rename_i e found
      obtain ⟨first, last, next⟩ := nextDirtyExtent_some found
      have moved : e.stop / block = last := by
        rw [next.stop_aligned positive clean, Nat.mul_div_cancel _ positive]
      have further : divCeil size block < e.stop / block + fuel := by
        have := next.after
        have := next.nonempty
        omega
      obtain ⟨es, rest⟩ := ih e.stop next.stop_le further
      exact ⟨e :: es, by rw [rest]; rfl⟩

theorem extentsFrom_diverges (positive : 0 < block) (cut : ¬ TailClean block size dirty)
    (fuel cursor : Nat) (inside : cursor ≤ size) : extentsFrom block size dirty fuel cursor = none := by
  have unaligned : ¬ block ∣ size := fun aligned => cut (.inl aligned)
  have tail : dirty (size / block) = true := by
    cases marked : dirty (size / block) with
    | true => rfl
    | false => exact absurd (Or.inr marked) cut
  have tail_inside : size / block < divCeil size block := by
    rw [lt_divCeil_iff positive]
    rcases Nat.eq_or_lt_of_le (Nat.div_mul_le_self size block) with same | less
    · exact absurd ⟨size / block, by rw [Nat.mul_comm, same]⟩ unaligned
    · exact less
  induction fuel generalizing cursor with
  | zero => rfl
  | succ fuel ih =>
    simp only [extentsFrom]
    split
    · rename_i stop
      have cleared := nextDirtyExtent_none stop (size / block) (Nat.div_le_div_right inside) tail_inside
      rw [tail] at cleared
      contradiction
    · rename_i e found
      obtain ⟨first, last, next⟩ := nextDirtyExtent_some found
      rw [ih e.stop next.stop_le]
      rfl

def Covered (es : List Extent) (a : Nat) : Prop := ∃ e ∈ es, e.start ≤ a ∧ a < e.stop

instance (es : List Extent) (a : Nat) : Decidable (Covered es a) :=
  inferInstanceAs (Decidable (∃ e ∈ es, _))

theorem covered_cons (e : Extent) (es : List Extent) (a : Nat) :
    Covered (e :: es) a ↔ (e.start ≤ a ∧ a < e.stop) ∨ Covered es a := by
  simp only [Covered, List.exists_mem_cons_iff]

theorem covered_step {size : Nat} {es : List Extent} {P : Nat → Prop}
    (after : cursor ≤ e.start) (ordered : e.start ≤ e.stop) (inside : e.stop ≤ size)
    (skipped : ∀ a, cursor ≤ a → a < e.start → ¬ P a) (own : ∀ a, e.start ≤ a → a < e.stop → P a)
    (rest : ∀ a, Covered es a ↔ e.stop ≤ a ∧ a < size ∧ P a) (a : Nat) :
    Covered (e :: es) a ↔ cursor ≤ a ∧ a < size ∧ P a := by
  rw [covered_cons, rest a]
  constructor
  · rintro (⟨low, high⟩ | ⟨low, high, here⟩)
    · exact ⟨by omega, by omega, own a low high⟩
    · exact ⟨by omega, high, here⟩
  · rintro ⟨low, high, here⟩
    by_cases early : a < e.start
    · exact absurd here (skipped a low early)
    · by_cases late : a < e.stop
      · exact .inl ⟨by omega, late⟩
      · exact .inr ⟨by omega, high, here⟩

theorem extentsFrom_covered (positive : 0 < block) (clean : TailClean block size dirty)
    (fuel cursor : Nat) (es : List Extent) (aligned : cursor / block * block = cursor)
    (returned : extentsFrom block size dirty fuel cursor = some es) :
    (∀ e ∈ es, e.start ≤ e.stop ∧ e.stop ≤ size) ∧
      ∀ a, Covered es a ↔ cursor ≤ a ∧ a < size ∧ dirty (a / block) = true := by
  induction fuel generalizing cursor es with
  | zero => contradiction
  | succ fuel ih =>
    simp only [extentsFrom] at returned
    split at returned
    · rename_i stop
      obtain rfl := Option.some.inj returned
      refine ⟨by simp, fun a => ⟨by simp [Covered], ?_⟩⟩
      rintro ⟨low, high, marked⟩
      have inside : a / block < divCeil size block :=
        (lt_divCeil_iff positive _).mpr (Nat.lt_of_le_of_lt (Nat.div_mul_le_self a block) high)
      rw [nextDirtyExtent_none stop (a / block) (Nat.div_le_div_right low) inside] at marked
      contradiction
    · rename_i e found
      obtain ⟨rest, more, rfl⟩ := Option.map_eq_some_iff.mp returned
      obtain ⟨first, last, next⟩ := nextDirtyExtent_some found
      have stop_eq := next.stop_aligned positive clean
      have restart : e.stop / block * block = e.stop := by
        rw [stop_eq, Nat.mul_div_cancel _ positive]
      obtain ⟨bounded, covers⟩ := ih e.stop rest restart more
      have ordered : e.start ≤ e.stop := by
        rw [next.start_eq, stop_eq]
        exact Nat.mul_le_mul_right _ (Nat.le_of_lt next.nonempty)
      have started : cursor ≤ e.start := by
        rw [next.start_eq, ← aligned]
        exact Nat.mul_le_mul_right _ next.after
      refine ⟨?_, ?_⟩
      · intro x member
        rcases List.mem_cons.mp member with rfl | member
        · exact ⟨ordered, next.stop_le⟩
        · exact bounded x member
      · have block_of (b a : Nat) : b * block ≤ a ↔ b ≤ a / block := (Nat.le_div_iff_mul_le positive).symm
        refine covered_step started ordered next.stop_le (fun a low early marked => ?_) (fun a low high => ?_)
          covers
        · have from_cursor := Nat.div_le_div_right (c := block) low
          have before : a / block < first := by
            rw [next.start_eq, ← Nat.not_le, block_of, Nat.not_le] at early
            exact early
          rw [next.skipped _ from_cursor before] at marked
          contradiction
        · rw [next.start_eq, block_of] at low
          rw [stop_eq, ← Nat.not_le, block_of, Nat.not_le] at high
          exact next.marked _ low high

section Walk

variable (block size : Nat) (marked : Nat → Bool)

/-- `while (i < size and p i) i = min(i + block, size)`, with the number of steps left first. -/
def walk (p : Nat → Bool) : Nat → Nat → Nat
  | 0, i => i
  | steps + 1, i => if i < size && p i then walk p steps (min (i + block) size) else i

/-- The next run of marked blocks at or after a position. A block is named by its first
position, and the end of the data ends the walk inside a block, too. -/
def nextRun (start : Nat) : Option Extent :=
  let first := walk block size (fun i => !marked i) (size - start) start
  if size ≤ first then none
  else some ⟨first, walk block size marked (size - first) first⟩

/-- The caller's loop over the runs, as `extentsFrom`. -/
def runsFrom : Nat → Nat → Option (List Extent)
  | 0, _ => none
  | fuel + 1, cursor =>
    match nextRun block size marked cursor with
    | none => some []
    | some e => (runsFrom fuel e.stop).map (e :: ·)

def OnBlock (i : Nat) : Prop := i ≤ size ∧ (block ∣ i ∨ i = size)

structure Walked (p : Nat → Bool) (i j : Nat) : Prop where
  forward : i ≤ j
  onBlock : OnBlock block size j
  passed : ∀ a, i ≤ a → a < j → p (a / block * block) = true
  stopped : j < size → p j = false

end Walk

section Runs

variable {marked : Nat → Bool}

theorem walk_spec (positive : 0 < block) (p : Nat → Bool) (steps i : Nat) (enough : size - i ≤ steps)
    (on_block : OnBlock block size i) : Walked block size p i (walk block size p steps i) := by
  induction steps generalizing i with
  | zero => exact ⟨Nat.le_refl i, on_block, by unfold walk; omega, by unfold walk; omega⟩
  | succ steps ih =>
    unfold walk
    split
    · rename_i here
      simp only [Bool.and_eq_true, decide_eq_true_eq] at here
      obtain ⟨q, rfl⟩ : block ∣ i := on_block.2.resolve_right (by omega)
      have next_block : OnBlock block size (min (block * q + block) size) := by
        refine ⟨Nat.min_le_right _ _, ?_⟩
        rcases Nat.le_total (block * q + block) size with whole | cut
        · exact .inl ⟨q + 1, by rw [Nat.min_eq_left whole, Nat.mul_succ]⟩
        · exact .inr (Nat.min_eq_right cut)
      have rest := ih (min (block * q + block) size) (by omega) next_block
      refine ⟨by have := rest.forward; omega, rest.onBlock, ?_, rest.stopped⟩
      intro a low high
      by_cases same : a < min (block * q + block) size
      · have in_block : a / block = q := Nat.div_eq_of_lt_le (by rw [Nat.mul_comm]; exact low)
          (by rw [Nat.add_mul, Nat.mul_comm q, Nat.one_mul]; omega)
        rw [in_block, Nat.mul_comm]
        exact here.2
      · exact rest.passed a (by omega) high
    · rename_i here
      refine ⟨Nat.le_refl i, on_block, by omega, fun inside => ?_⟩
      simpa [inside] using here

theorem nextRun_none (positive : 0 < block) (on_block : OnBlock block size cursor)
    (none_left : nextRun block size marked cursor = none) (a : Nat) (low : cursor ≤ a)
    (high : a < size) : marked (a / block * block) = false := by
  unfold nextRun at none_left
  dsimp only at none_left
  split at none_left
  · rename_i exhausted
    have skip := walk_spec positive (fun i => !marked i) _ cursor (Nat.le_refl _) on_block
    simpa using skip.passed a low (by omega)
  · contradiction

/-- What one run says: it lies after the cursor, and nothing between the two is marked. -/
structure NextRun (block size : Nat) (marked : Nat → Bool) (cursor : Nat) (e : Extent) : Prop where
  after : cursor ≤ e.start
  nonempty : e.start < e.stop
  onBlock : OnBlock block size e.stop
  skipped : ∀ a, cursor ≤ a → a < e.start → marked (a / block * block) = false
  covers : ∀ a, e.start ≤ a → a < e.stop → marked (a / block * block) = true

theorem nextRun_some (positive : 0 < block) (on_block : OnBlock block size cursor)
    (found : nextRun block size marked cursor = some e) : NextRun block size marked cursor e := by
  unfold nextRun at found
  dsimp only at found
  split at found
  · contradiction
  · rename_i more
    obtain rfl := Option.some.inj found
    have skip := walk_spec positive (fun i => !marked i) _ cursor (Nat.le_refl _) on_block
    have run := walk_spec positive marked _ _ (Nat.le_refl _) skip.onBlock
    have here := skip.stopped (by omega)
    refine ⟨skip.forward, ?_, run.onBlock, ?_, run.passed⟩
    · rcases Nat.eq_or_lt_of_le run.forward with same | later
      · have stuck := run.stopped (by omega)
        rw [← same] at stuck
        simp [stuck] at here
      · exact later
    · intro a low high
      simpa using skip.passed a low high

theorem runsFrom_returns (positive : 0 < block) (fuel cursor : Nat)
    (on_block : OnBlock block size cursor) (enough : size - cursor < fuel) :
    ∃ es, runsFrom block size marked fuel cursor = some es := by
  induction fuel generalizing cursor with
  | zero => omega
  | succ fuel ih =>
    unfold runsFrom
    split
    · exact ⟨[], rfl⟩
    · rename_i e found
      have next := nextRun_some positive on_block found
      have after := next.after
      have nonempty := next.nonempty
      have inside := next.onBlock.1
      obtain ⟨es, rest⟩ := ih e.stop next.onBlock (by omega)
      exact ⟨e :: es, by rw [rest]; rfl⟩

theorem runsFrom_covered (positive : 0 < block) (fuel cursor : Nat) (es : List Extent)
    (on_block : OnBlock block size cursor) (returned : runsFrom block size marked fuel cursor = some es) :
    (∀ e ∈ es, e.start ≤ e.stop ∧ e.stop ≤ size) ∧
      ∀ a, Covered es a ↔ cursor ≤ a ∧ a < size ∧ marked (a / block * block) = true := by
  induction fuel generalizing cursor es with
  | zero => contradiction
  | succ fuel ih =>
    unfold runsFrom at returned
    split at returned
    · rename_i stop
      obtain rfl := Option.some.inj returned
      refine ⟨by simp, fun a => ⟨by simp [Covered], ?_⟩⟩
      rintro ⟨low, high, here⟩
      rw [nextRun_none positive on_block stop a low high] at here
      contradiction
    · rename_i e found
      obtain ⟨rest, more, rfl⟩ := Option.map_eq_some_iff.mp returned
      have next := nextRun_some positive on_block found
      have after := next.after
      have nonempty := next.nonempty
      have inside := next.onBlock.1
      obtain ⟨bounded, covers⟩ := ih e.stop rest next.onBlock more
      refine ⟨?_, ?_⟩
      · intro x member
        rcases List.mem_cons.mp member with rfl | member
        · exact ⟨Nat.le_of_lt nonempty, inside⟩
        · exact bounded x member
      · refine covered_step after (Nat.le_of_lt nonempty) inside (fun a low early here => ?_) next.covers covers
        rw [next.skipped a low early] at here
        contradiction

end Runs

end Machinen.Extents
