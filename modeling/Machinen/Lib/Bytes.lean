import Mathlib

/-! Byte strings as lists: little-endian words, slices and writes in place.
Everything about a write is read through one lemma, the byte found at an index
after it, so that no proof takes the list apart. -/
namespace Machinen

variable {xs ys zs : Bytes} {off : Nat}

abbrev Bytes := List UInt8

namespace Bytes

/-- The lowest `width` bytes of a number, least significant first. -/
def le : Nat → Nat → Bytes
  | 0, _ => []
  | width + 1, n => UInt8.ofNat n :: le width (n / 256)

/-- The number that a little-endian byte string stands for. -/
def toNat : Bytes → Nat
  | [] => 0
  | b :: bs => b.toNat + 256 * toNat bs

@[simp] theorem le_length (width n : Nat) : (le width n).length = width := by
  induction width generalizing n with
  | zero => rfl
  | succ width ih => simp only [le, List.length_cons, ih]

theorem toNat_le (width n : Nat) (small : n < 256 ^ width) : toNat (le width n) = n := by
  induction width generalizing n with
  | zero => simp only [Nat.pow_zero] at small; simp only [le, toNat]; omega
  | succ width ih =>
    have bound : n / 256 < 256 ^ width := by
      rw [Nat.pow_succ] at small
      exact Nat.div_lt_of_lt_mul (by omega)
    have low : (UInt8.ofNat n).toNat = n % 256 := by simp
    simp only [le, toNat, low, ih _ bound]
    omega

/-- A word that is too narrow keeps the lowest bytes. -/
theorem toNat_le_mod (width n : Nat) : toNat (le width n) = n % 256 ^ width := by
  induction width generalizing n with
  | zero => rw [Nat.pow_zero, Nat.mod_one]; rfl
  | succ width ih =>
    have low : (UInt8.ofNat n).toNat = n % 256 := UInt8.toNat_ofNat'
    unfold le toNat
    rw [low, ih, Nat.pow_succ, Nat.mul_comm (256 ^ width), Nat.mod_mul]

theorem toNat_lt (xs : Bytes) : toNat xs < 256 ^ xs.length := by
  induction xs with
  | nil => exact Nat.one_pos
  | cons b bs ih =>
    have low : b.toNat < 256 := b.toNat_lt
    rw [List.length_cons, Nat.pow_succ]
    unfold toNat
    omega

/-- The bytes of a word are those it was read from. -/
theorem le_toNat (xs : Bytes) : le xs.length (toNat xs) = xs := by
  induction xs with
  | nil => rfl
  | cons b bs ih =>
    have low : b.toNat < 256 := b.toNat_lt
    have rest : (b.toNat + 256 * toNat bs) / 256 = toNat bs := by omega
    have first : UInt8.ofNat (b.toNat + 256 * toNat bs) = b := by
      apply UInt8.toNat_inj.mp
      rw [UInt8.toNat_ofNat']
      omega
    rw [List.length_cons]
    unfold toNat le
    rw [rest, first, ih]

def slice (xs : Bytes) (off len : Nat) : Bytes := (xs.drop off).take len

theorem slice_length (xs : Bytes) (off len : Nat) (fits : off + len ≤ xs.length) :
    (slice xs off len).length = len := by
  simp only [slice, List.length_take, List.length_drop]
  omega

theorem slice_lt (bytes : Bytes) (off width : Nat) : toNat (slice bytes off width) < 256 ^ width :=
  Nat.lt_of_lt_of_le (toNat_lt _) (Nat.pow_le_pow_right (by decide) (List.length_take_le ..))

theorem slice_getElem? (xs : Bytes) (off len i : Nat) :
    (slice xs off len)[i]? = if i < len then xs[off + i]? else none := by
  simp only [slice, List.getElem?_take, List.getElem?_drop]

/-- Store a byte string at an offset; the length of the target never changes. -/
def store (xs : Bytes) (off : Nat) (ys : Bytes) : Bytes :=
  xs.take off ++ (ys.take (xs.length - off) ++ xs.drop (off + ys.length))

@[simp] theorem store_length (xs : Bytes) (off : Nat) (ys : Bytes) :
    (store xs off ys).length = xs.length := by
  simp only [store, List.length_append, List.length_take, List.length_drop]
  omega

theorem store_getElem? (xs : Bytes) (off : Nat) (ys : Bytes) (i : Nat) :
    (store xs off ys)[i]? =
      if off ≤ i ∧ i < off + ys.length ∧ i < xs.length then ys[i - off]? else xs[i]? := by
  by_cases inside : i < xs.length
  · simp only [store, List.getElem?_append, List.length_take, List.getElem?_take,
      List.getElem?_drop]
    grind
  · rw [List.getElem?_eq_none (by simp; omega), if_neg (by omega),
      List.getElem?_eq_none (by omega)]

theorem store_outside (xs : Bytes) (off : Nat) (ys : Bytes) (i : Nat)
    (outside : i < off ∨ off + ys.length ≤ i) : (store xs off ys)[i]? = xs[i]? := by
  rw [store_getElem?, if_neg (by omega)]

theorem store_inside (xs : Bytes) (off : Nat) (ys : Bytes) (i : Nat)
    (fits : off + ys.length ≤ xs.length) (low : off ≤ i) (high : i < off + ys.length) :
    (store xs off ys)[i]? = ys[i - off]? := by
  rw [store_getElem?, if_pos ⟨low, high, by omega⟩]

theorem store_empty (xs : Bytes) (off : Nat) : store xs off [] = xs := by
  apply List.ext_getElem?
  intro i
  rw [store_getElem?, List.length_nil, if_neg (by omega)]

/-- Two adjacent writes are one. -/
theorem store_store (xs : Bytes) (off : Nat) (ys zs : Bytes) :
    store (store xs off ys) (off + ys.length) zs = store xs off (ys ++ zs) := by
  apply List.ext_getElem?
  intro i
  rw [store_getElem?, store_getElem?, store_getElem?, store_length, List.length_append]
  by_cases second : off + ys.length ≤ i ∧ i < off + ys.length + zs.length ∧ i < xs.length
  · rw [if_pos second, if_pos (by omega), List.getElem?_append_right (by omega), Nat.sub_sub]
  · rw [if_neg second]
    by_cases first : off ≤ i ∧ i < off + ys.length ∧ i < xs.length
    · rw [if_pos first, if_pos (by omega), List.getElem?_append_left (by omega)]
    · rw [if_neg first, if_neg (by omega)]

/-- The byte string `ys` stands at the offset. -/
def HoldsAt (xs : Bytes) (off : Nat) (ys : Bytes) : Prop := ∀ t, t < ys.length → xs[off + t]? = ys[t]?

theorem HoldsAt.slice_eq (holds : HoldsAt xs off ys) :
    slice xs off ys.length = ys := by
  apply List.ext_getElem?
  intro t
  rw [slice_getElem?]
  split
  · rename_i inside
    exact holds t inside
  · rw [List.getElem?_eq_none (by omega)]

theorem holdsAt_of_slice (same : slice xs off ys.length = ys) :
    HoldsAt xs off ys := by
  intro t inside
  have read := slice_getElem? xs off ys.length t
  rw [same, if_pos inside] at read
  exact read.symm

theorem HoldsAt.left (holds : HoldsAt xs off (ys ++ zs)) :
    HoldsAt xs off ys := fun t inside => by
  rw [holds t (by rw [List.length_append]; omega), List.getElem?_append_left inside]

theorem HoldsAt.right (holds : HoldsAt xs off (ys ++ zs)) :
    HoldsAt xs (off + ys.length) zs := fun t inside => by
  have within_ : ys.length + t < (ys ++ zs).length := by
    rw [List.length_append]
    omega
  rw [Nat.add_assoc, holds _ within_, List.getElem?_append_right (Nat.le_add_right _ _),
    Nat.add_sub_cancel_left]

theorem HoldsAt.append (first : HoldsAt xs off ys)
    (second : HoldsAt xs (off + ys.length) zs) : HoldsAt xs off (ys ++ zs) := fun t inside => by
  rw [List.length_append] at inside
  by_cases left : t < ys.length
  · rw [first t left, List.getElem?_append_left left]
  · have read := second (t - ys.length) (by omega)
    rw [List.getElem?_append_right (by omega), ← read]
    congr 1
    omega

theorem HoldsAt.fits (holds : HoldsAt xs off ys) (some_ : ys ≠ []) :
    off + ys.length ≤ xs.length := by
  have positive := List.length_pos_iff.mpr some_
  have before : ys.length - 1 < ys.length := by omega
  have last := holds (ys.length - 1) before
  rw [List.getElem?_eq_getElem before] at last
  have inside := (List.getElem?_eq_some_iff.mp last).1
  omega

theorem HoldsAt.store_outside {at_ : Nat} (holds : HoldsAt xs off ys)
    (apart : at_ + zs.length ≤ off ∨ off + ys.length ≤ at_) : HoldsAt (store xs at_ zs) off ys := by
  intro t inside
  rw [Bytes.store_outside _ _ _ _ (by omega)]
  exact holds t inside

theorem holdsAt_store (xs : Bytes) (off : Nat) (ys : Bytes) (fits : off + ys.length ≤ xs.length) :
    HoldsAt (store xs off ys) off ys := by
  intro t inside
  rw [store_inside xs off ys (off + t) fits (Nat.le_add_right _ _) (by omega), Nat.add_sub_cancel_left]

def zeros (n : Nat) : Bytes := List.replicate n 0

@[simp] theorem zeros_length (n : Nat) : (zeros n).length = n := List.length_replicate

/-- A positional file write: bytes past the end are filled with zeros first. -/
def pwrite (xs : Bytes) (off : Nat) (ys : Bytes) : Bytes :=
  if ys = [] then xs else store (xs ++ zeros (off + ys.length - xs.length)) off ys

theorem pwrite_length (xs : Bytes) (off : Nat) (ys : Bytes) :
    (pwrite xs off ys).length = if ys = [] then xs.length else max xs.length (off + ys.length) := by
  unfold pwrite
  split
  · rfl
  · simp only [store_length, List.length_append, zeros, List.length_replicate]
    omega

theorem pwrite_eq_store (xs : Bytes) (off : Nat) (ys : Bytes) (fits : off + ys.length ≤ xs.length) :
    pwrite xs off ys = store xs off ys := by
  unfold pwrite
  split
  · rename_i empty
    refine List.ext_getElem? fun i => ?_
    rw [store_getElem?, empty, List.length_nil, if_neg (by omega)]
  · rw [Nat.sub_eq_zero_of_le fits, zeros, List.replicate_zero, List.append_nil]

theorem pwrite_outside (xs : Bytes) (off : Nat) (ys : Bytes) (i : Nat) (known : i < xs.length)
    (outside : i < off ∨ off + ys.length ≤ i) : (pwrite xs off ys)[i]? = xs[i]? := by
  unfold pwrite
  split
  · rfl
  · rw [store_outside _ _ _ _ outside, List.getElem?_append_left known]

/-- The same words with the most significant byte first. -/
def be (width n : Nat) : Bytes := (le width n).reverse

def ofBe (xs : Bytes) : Nat := toNat xs.reverse

@[simp] theorem be_length (width n : Nat) : (be width n).length = width := by
  rw [be, List.length_reverse, le_length]

theorem ofBe_be (width n : Nat) (small : n < 256 ^ width) : ofBe (be width n) = n := by
  rw [ofBe, be, List.reverse_reverse, toNat_le width n small]

theorem ofBe_be_mod (width n : Nat) : ofBe (be width n) = n % 256 ^ width := by
  rw [ofBe, be, List.reverse_reverse, toNat_le_mod]

theorem be_ofBe (xs : Bytes) : be xs.length (ofBe xs) = xs := by
  rw [be, ofBe, ← List.length_reverse, le_toNat, List.reverse_reverse]

theorem ofBe_lt (xs : Bytes) : ofBe xs < 256 ^ xs.length := by
  rw [ofBe, ← List.length_reverse]
  exact toNat_lt xs.reverse

theorem slice_slice (xs : Bytes) (off len a b : Nat) (inside : a + b ≤ len) :
    slice (slice xs off len) a b = slice xs (off + a) b := by
  unfold slice
  rw [List.drop_take, List.drop_drop, List.take_take, Nat.min_eq_left (by omega)]

theorem drop_eq_slice_append (xs : Bytes) (off len : Nat) :
    xs.drop off = slice xs off len ++ xs.drop (off + len) := by
  rw [slice, ← List.drop_drop, List.take_append_drop]

def le64 (x : UInt64) : Bytes := le 8 x.toNat

def le32 (x : UInt32) : Bytes := le 4 x.toNat

@[simp] theorem le64_length (x : UInt64) : (le64 x).length = 8 := le_length 8 _

@[simp] theorem le32_length (x : UInt32) : (le32 x).length = 4 := le_length 4 _

def word64 (xs : Bytes) (off : Nat) : UInt64 := .ofNat (toNat (slice xs off 8))

def word32 (xs : Bytes) (off : Nat) : UInt32 := .ofNat (toNat (slice xs off 4))

theorem slice_append (front ys rest : Bytes) :
    slice (front ++ (ys ++ rest)) front.length ys.length = ys := by
  rw [slice, List.drop_left, List.take_left]

theorem word64_append (front : Bytes) (x : UInt64) (rest : Bytes) :
    word64 (front ++ (le64 x ++ rest)) front.length = x := by
  unfold word64
  rw [← le64_length x, slice_append, le64, toNat_le 8 _ x.toNat_lt, UInt64.ofNat_toNat]

theorem word32_append (front : Bytes) (x : UInt32) (rest : Bytes) :
    word32 (front ++ (le32 x ++ rest)) front.length = x := by
  unfold word32
  rw [← le32_length x, slice_append, le32, toNat_le 4 _ x.toNat_lt, UInt32.ofNat_toNat]

theorem le64_word64 (inside : off + 8 ≤ xs.length) :
    le64 (word64 xs off) = slice xs off 8 := by
  unfold le64 word64
  rw [UInt64.toNat_ofNat_of_lt' (slice_lt xs off 8)]
  have whole := le_toNat (slice xs off 8)
  rwa [slice_length xs off 8 inside] at whole

theorem le32_word32 (inside : off + 4 ≤ xs.length) :
    le32 (word32 xs off) = slice xs off 4 := by
  unfold le32 word32
  rw [UInt32.toNat_ofNat_of_lt' (slice_lt xs off 4)]
  have whole := le_toNat (slice xs off 4)
  rwa [slice_length xs off 4 inside] at whole

/-- The part of a byte string between two bounds; a bound outside of it is a trap. -/
def part (xs : Bytes) (start stop : Nat) : Option Bytes :=
  if start ≤ stop ∧ stop ≤ xs.length then some (slice xs start (stop - start)) else none

theorem part_some {start stop : Nat} (bounds : start ≤ stop ∧ stop ≤ xs.length) :
    part xs start stop = some (slice xs start (stop - start)) := if_pos bounds

theorem part_shift (front rest : Bytes) (start stop : Nat) :
    part (front ++ rest) (front.length + start) (front.length + stop) = part rest start stop := by
  unfold part slice
  rw [List.length_append, List.drop_append, List.drop_of_length_le (Nat.le_add_right ..),
    Nat.add_sub_cancel_left, Nat.add_sub_add_left, List.nil_append]
  simp only [Nat.add_le_add_iff_left]

end Bytes
end Machinen
