import Machinen.Lib.Bytes

/-! Numbers in base 128, the least significant digit first: every byte but the last has its high bit
set. A number has more than one such string, since zeros may follow its digits. -/
namespace Machinen.Varint

/-- The bytes of the number at the start of a string, of which there are at most `limit`, and the rest. -/
def split : Nat → Bytes → Option (Bytes × Bytes)
  | 0, _ => none
  | _ + 1, [] => none
  | limit + 1, b :: bs =>
    if b.toNat < 128 then some ([b], bs)
    else (split limit bs).map fun (digits, rest) => (b :: digits, rest)

def value : Bytes → Nat
  | [] => 0
  | b :: bs => b.toNat % 128 + 128 * value bs

/-- The shortest string of a number, or of its lowest `limit + 1` digits. -/
def encode : Nat → Nat → Bytes
  | 0, n => [UInt8.ofNat (n % 128)]
  | limit + 1, n =>
    if n < 128 then [UInt8.ofNat n] else UInt8.ofNat (n % 128 + 128) :: encode limit (n / 128)

theorem split_eq {limit : Nat} {bs digits rest : Bytes} (found : split limit bs = some (digits, rest)) :
    bs = digits ++ rest ∧ digits ≠ [] ∧ digits.length ≤ limit := by
  induction limit generalizing bs digits with
  | zero => exact nomatch found
  | succ limit ih =>
    cases bs with
    | nil => exact nomatch found
    | cons b bs =>
      unfold split at found
      split at found
      · cases found
        exact ⟨rfl, List.cons_ne_nil _ _, Nat.le_add_left _ _⟩
      · obtain ⟨⟨more, rest'⟩, inner, same⟩ := Option.map_eq_some_iff.mp found
        cases same
        obtain ⟨rfl, -, short⟩ := ih inner
        exact ⟨rfl, List.cons_ne_nil _ _, Nat.succ_le_succ short⟩

theorem split_append {limit : Nat} {bs digits rest : Bytes} (found : split limit bs = some (digits, rest))
    (more : Bytes) : split limit (digits ++ more) = some (digits, more) := by
  induction limit generalizing bs digits with
  | zero => exact nomatch found
  | succ limit ih =>
    cases bs with
    | nil => exact nomatch found
    | cons b bs =>
      unfold split at found
      split at found
      · rename_i last
        cases found
        rw [List.singleton_append, split, if_pos last]
      · rename_i high
        obtain ⟨⟨digits', rest'⟩, inner, same⟩ := Option.map_eq_some_iff.mp found
        cases same
        rw [List.cons_append, split, if_neg high, ih inner]
        rfl

theorem split_encode {limit : Nat} (n : Nat) (rest : Bytes) :
    split (limit + 1) (encode limit n ++ rest) = some (encode limit n, rest) := by
  induction limit generalizing n with
  | zero =>
    have low : (UInt8.ofNat (n % 128)).toNat < 128 := by
      rw [UInt8.toNat_ofNat']
      omega
    rw [encode, List.singleton_append, split, if_pos low]
  | succ limit ih =>
    unfold encode
    split
    · rename_i small
      have low : (UInt8.ofNat n).toNat < 128 := by
        rw [UInt8.toNat_ofNat']
        omega
      rw [List.singleton_append, split, if_pos low]
    · have high : ¬ (UInt8.ofNat (n % 128 + 128)).toNat < 128 := by
        rw [UInt8.toNat_ofNat']
        omega
      rw [List.cons_append, split, if_neg high, ih (n / 128)]
      rfl

theorem split_mono {limit more : Nat} {bs digits rest : Bytes} (le : limit ≤ more)
    (found : split limit bs = some (digits, rest)) : split more bs = some (digits, rest) := by
  induction limit generalizing more bs digits with
  | zero => exact nomatch found
  | succ limit ih =>
    obtain ⟨more, rfl⟩ : ∃ k, more = k + 1 := ⟨more - 1, by omega⟩
    cases bs with
    | nil => exact nomatch found
    | cons b bs =>
      unfold split at found ⊢
      split at found
      · rename_i last
        rw [if_pos last]
        exact found
      · rename_i high
        obtain ⟨⟨digits', rest'⟩, inner, same⟩ := Option.map_eq_some_iff.mp found
        cases same
        rw [if_neg high, ih (Nat.le_of_succ_le_succ le) inner]
        rfl

theorem value_encode {limit n : Nat} (small : n < 128 ^ (limit + 1)) : value (encode limit n) = n := by
  induction limit generalizing n with
  | zero =>
    have low : (UInt8.ofNat (n % 128)).toNat = n % 128 := by
      rw [UInt8.toNat_ofNat']
      omega
    rw [encode, value, value, low]
    omega
  | succ limit ih =>
    unfold encode
    split
    · have low : (UInt8.ofNat n).toNat = n := by
        rw [UInt8.toNat_ofNat']
        omega
      rw [value, value, low]
      omega
    · have low : (UInt8.ofNat (n % 128 + 128)).toNat = n % 128 + 128 := by
        rw [UInt8.toNat_ofNat']
        omega
      have high : n / 128 < 128 ^ (limit + 1) := by
        rw [Nat.pow_succ] at small
        exact Nat.div_lt_of_lt_mul (by omega)
      rw [value, low, ih high]
      omega

theorem value_lt (bs : Bytes) : value bs < 128 ^ bs.length := by
  induction bs with
  | nil => exact Nat.one_pos
  | cons b bs ih =>
    rw [value, List.length_cons, Nat.pow_succ]
    omega

theorem encode_length {limit n : Nat} {bs : Bytes} (some_ : bs ≠ []) (same : n < 128 ^ bs.length) :
    (encode limit n).length ≤ bs.length := by
  induction limit generalizing n bs with
  | zero => exact List.length_pos_iff.mpr some_
  | succ limit ih =>
    obtain ⟨b, bs, rfl⟩ := List.exists_cons_of_ne_nil some_
    unfold encode
    split
    · exact Nat.le_add_left _ _
    · rename_i large
      have more : bs ≠ [] := by
        rintro rfl
        exact large same
      rw [List.length_cons, Nat.pow_succ] at same
      exact Nat.succ_le_succ (ih more (Nat.div_lt_of_lt_mul (by omega)))

end Machinen.Varint
