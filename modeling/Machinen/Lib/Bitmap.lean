import Mathlib

/-! Bitmaps kept as a sequence of 64-bit words. Bits past the last word read
as clear and cannot be set. -/
namespace Machinen

abbrev Word := BitVec 64

namespace Bitmap

def bitSet (bits : List Word) (i : Nat) : Bool :=
  match bits[i / 64]? with
  | none => false
  | some word => (word &&& (1#64 <<< (i % 64))) != 0#64

def setBit (bits : List Word) (i : Nat) : List Word :=
  bits.modify (i / 64) (fun word => word ||| (1#64 <<< (i % 64)))

/-- Set every bit from `lo` up to but not including `hi`. -/
def setRange (bits : List Word) (lo hi : Nat) : List Word :=
  (List.range' lo (hi - lo)).foldl setBit bits

def clearAll (bits : List Word) : List Word := bits.map (fun _ => 0#64)

theorem masked_ne_zero (word : Word) (k : Nat) (small : k < 64) :
    ((word &&& (1#64 <<< k)) != 0#64) = word.getLsbD k := by
  rw [← BitVec.twoPow_eq, BitVec.and_twoPow]
  cases bit : word.getLsbD k with
  | false => simp
  | true =>
    have nonzero : BitVec.twoPow 64 k ≠ 0#64 := by
      intro zero
      have same := congrArg (fun w => BitVec.getLsbD w k) zero
      simp [small] at same
    simpa using nonzero

theorem bitSet_eq (bits : List Word) (i : Nat) :
    bitSet bits i = (bits[i / 64]?.map fun word => word.getLsbD (i % 64)).getD false := by
  unfold bitSet
  cases bits[i / 64]? with
  | none => rfl
  | some word => exact masked_ne_zero word (i % 64) (Nat.mod_lt i (by decide))

@[simp] theorem setBit_length (bits : List Word) (i : Nat) : (setBit bits i).length = bits.length := by
  simp only [setBit, List.length_modify]

@[simp] theorem setRange_length (bits : List Word) (lo hi : Nat) :
    (setRange bits lo hi).length = bits.length := by
  unfold setRange
  generalize List.range' lo (hi - lo) = is
  induction is generalizing bits with
  | nil => rfl
  | cons i is ih => simp only [List.foldl_cons, ih, setBit_length]

@[simp] theorem clearAll_length (bits : List Word) : (clearAll bits).length = bits.length := by
  simp only [clearAll, List.length_map]

theorem bitSet_setBit (bits : List Word) (i j : Nat) :
    bitSet (setBit bits i) j = (bitSet bits j || (decide (i = j) && decide (j / 64 < bits.length))) := by
  simp only [bitSet_eq, setBit, List.getElem?_modify]
  by_cases room : j / 64 < bits.length
  · rw [List.getElem?_eq_getElem room]
    by_cases word : i / 64 = j / 64
    · have low : j % 64 < 64 := Nat.mod_lt j (by decide)
      have same : (i % 64 = j % 64) ↔ i = j := by omega
      have bit : (1#64 <<< (i % 64)).getLsbD (j % 64) = decide (i = j) := by
        rw [← BitVec.twoPow_eq, BitVec.getLsbD_twoPow]
        have small : i % 64 < 64 := Nat.mod_lt i (by decide)
        simp [small, same]
      simp [word, room, bit]
    · have distinct : i ≠ j := fun same => word (by rw [same])
      simp [word, distinct]
  · rw [List.getElem?_eq_none (by omega)]
    simp [room]

theorem bitSet_setRange (bits : List Word) (lo hi j : Nat) :
    bitSet (setRange bits lo hi) j =
      (bitSet bits j || (decide (lo ≤ j ∧ j < hi) && decide (j / 64 < bits.length))) := by
  unfold setRange
  generalize count : hi - lo = n
  induction n generalizing bits lo with
  | zero => simp only [List.range'_zero, List.foldl_nil]; grind
  | succ n ih =>
    rw [List.range'_succ, List.foldl_cons, ih (setBit bits lo) (lo + 1) (by omega),
      bitSet_setBit, setBit_length]
    grind

end Bitmap
end Machinen
