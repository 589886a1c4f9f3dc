import Machinen.Lib.Bytes
import Mathlib.Data.Nat.Digits.Defs

/-! Numbers written as digits of a radix up to sixteen, with zeros in front to a width, and read back. -/
namespace Machinen.Radix

def digit (d : Nat) : UInt8 := UInt8.ofNat (Nat.digitChar d).toNat

/-- The value of a digit, whose letters may be of either case. -/
def digit? (byte : UInt8) : Option Nat :=
  if 0x30 ≤ byte ∧ byte ≤ 0x39 then some (byte.toNat - 0x30)
  else if 0x61 ≤ byte ∧ byte ≤ 0x66 then some (byte.toNat - 0x57)
  else if 0x41 ≤ byte ∧ byte ≤ 0x46 then some (byte.toNat - 0x37)
  else none

def encode (radix n : Nat) : Bytes := (Nat.toDigits radix n).map fun c => UInt8.ofNat c.toNat

/-- With zeros in front, as many as the width asks for. -/
def padded (radix width n : Nat) : Bytes :=
  List.replicate (width - (encode radix n).length) 0x30 ++ encode radix n

def valueFrom (radix : Nat) : Nat → Bytes → Option Nat
  | n, [] => some n
  | n, byte :: bytes => (digit? byte).bind fun d => if d < radix then valueFrom radix (radix * n + d) bytes else none

def value (radix : Nat) (bytes : Bytes) : Option Nat := valueFrom radix 0 bytes

theorem digit?_digit : ∀ d < 16, digit? (digit d) = some d := by decide +kernel

theorem encode_eq {radix : Nat} (large : 1 < radix) (n : Nat) :
    encode radix n = if n < radix then [digit n] else encode radix (n / radix) ++ [digit (n % radix)] := by
  unfold encode
  rw [Nat.toDigits_eq_if large]
  split
  · rfl
  · rw [List.map_append]
    rfl

theorem encode_length (radix n : Nat) : (encode radix n).length = (Nat.toDigits radix n).length := List.length_map _

theorem encode_length_le_iff {radix width : Nat} (large : 1 < radix) (some_ : 0 < width) (n : Nat) :
    (encode radix n).length ≤ width ↔ n < radix ^ width := by
  rw [encode_length]
  exact Nat.length_toDigits_le_iff large some_

theorem padded_length (radix width n : Nat) : (padded radix width n).length = max width (encode radix n).length := by
  rw [padded, List.length_append, List.length_replicate]
  omega

theorem valueFrom_append (radix n : Nat) (front back : Bytes) :
    valueFrom radix n (front ++ back) = (valueFrom radix n front).bind fun m => valueFrom radix m back := by
  induction front generalizing n with
  | nil => rfl
  | cons byte front ih =>
    rw [List.cons_append, valueFrom, valueFrom]
    cases digit? byte with
    | none => rfl
    | some d =>
      simp only [Option.bind_some]
      split
      · exact ih _
      · rfl

theorem valueFrom_digit {radix d : Nat} (small : radix ≤ 16) (below : d < radix) (n : Nat) :
    valueFrom radix n [digit d] = some (radix * n + d) := by
  rw [valueFrom, digit?_digit d (by omega), Option.bind_some, if_pos below]
  rfl

theorem value_encode {radix : Nat} (large : 1 < radix) (small : radix ≤ 16) (n : Nat) :
    value radix (encode radix n) = some n := by
  unfold value
  induction n using Nat.strongRecOn with
  | ind n ih =>
    rw [encode_eq large]
    split
    · rename_i below
      simpa using valueFrom_digit small below 0
    · rename_i above
      have less : n / radix < n := Nat.div_lt_self (by omega) large
      rw [valueFrom_append, ih _ less, Option.bind_some,
        valueFrom_digit small (Nat.mod_lt n (by omega)), Nat.div_add_mod]

theorem value_padded {radix : Nat} (large : 1 < radix) (small : radix ≤ 16) (width n : Nat) :
    value radix (padded radix width n) = some n := by
  have zeros : ∀ k, valueFrom radix 0 (List.replicate k 0x30) = some 0 := by
    intro k
    induction k with
    | zero => rfl
    | succ k ih =>
      have zero : digit? 0x30 = some 0 := by decide
      rw [List.replicate_succ, valueFrom, zero, Option.bind_some, if_pos (by omega)]
      exact ih
  rw [value, padded, valueFrom_append, zeros, Option.bind_some]
  exact value_encode large small n

theorem encode_injective {radix : Nat} (large : 1 < radix) (small : radix ≤ 16) {n m : Nat}
    (same : encode radix n = encode radix m) : n = m := by
  have values := congrArg (value radix) same
  rwa [value_encode large small, value_encode large small, Option.some.injEq] at values

/-- No digit is a byte that is none. -/
theorem encode_free {radix : Nat} (large : 1 < radix) (small : radix ≤ 16) {byte : UInt8}
    (other : digit? byte = none) (n : Nat) : byte ∉ encode radix n := by
  induction n using Nat.strongRecOn with
  | ind n ih =>
    have no : ∀ d < radix, byte ≠ digit d := by
      rintro d below rfl
      rw [digit?_digit d (by omega)] at other
      cases other
    rw [encode_eq large]
    split
    · rename_i below
      simpa using no n below
    · rename_i above
      have less : n / radix < n := Nat.div_lt_self (by omega) large
      rw [List.mem_append, List.mem_singleton, not_or]
      exact ⟨ih _ less, no _ (Nat.mod_lt n (by omega))⟩

end Machinen.Radix
