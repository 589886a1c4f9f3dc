import Machinen.Lib.Bytes
import Mathlib.Data.Nat.Digits.Defs

/-! Numbers written in decimal, and two ways to read them back: a reader of unsigned machine
integers that rejects what does not fit, and one that reads the digits in front of anything
else. -/
namespace Machinen.Decimal

def encode (n : Nat) : Bytes := (Nat.toDigits 10 n).map fun digit => UInt8.ofNat digit.toNat

def isDigit (byte : UInt8) : Bool := 0x30 ≤ byte && byte ≤ 0x39

def append (value : Nat) (digit : UInt8) : Nat := value * 10 + (digit.toNat - 0x30)

def value (digits : Bytes) : Nat := digits.foldl append 0

theorem digit_code : ∀ d, d < 10 → UInt8.ofNat (Nat.digitChar d).toNat = UInt8.ofNat (0x30 + d) := by decide

theorem digit_isDigit : ∀ d, d < 10 → isDigit (UInt8.ofNat (0x30 + d)) = true := by decide

theorem digit_value : ∀ d, d < 10 → (UInt8.ofNat (0x30 + d)).toNat - 0x30 = d := by decide

theorem encode_eq (n : Nat) :
    encode n = if n < 10 then [UInt8.ofNat (0x30 + n)] else encode (n / 10) ++
      [UInt8.ofNat (0x30 + n % 10)] := by
  unfold encode
  split
  · rename_i small
    rw [Nat.toDigits_of_lt_base small, List.map_singleton, digit_code n small]
  · rename_i large
    rw [Nat.toDigits_of_base_le (by decide) (by omega), List.map_append, List.map_singleton,
      digit_code _ (Nat.mod_lt n (by decide))]

theorem encode_ne_nil (n : Nat) : encode n ≠ [] := by
  unfold encode
  rw [ne_eq, List.map_eq_nil_iff]
  exact Nat.toDigits_ne_nil

theorem encode_digits (n : Nat) : ∀ digit ∈ encode n, isDigit digit = true := by
  induction n using Nat.strongRecOn with
  | ind n ih =>
    rw [encode_eq]
    split
    · rename_i small
      intro other listed
      exact List.mem_singleton.mp listed ▸ digit_isDigit n small
    · intro other listed
      rcases List.mem_append.mp listed with high | low
      · exact ih (n / 10) (by omega) other high
      · exact List.mem_singleton.mp low ▸ digit_isDigit _ (Nat.mod_lt n (by decide))

theorem encode_free {byte : UInt8} (other : isDigit byte = false) (n : Nat) :
    ∀ digit ∈ encode n, digit ≠ byte := by
  rintro digit listed rfl
  rw [encode_digits n digit listed] at other
  cases other

theorem encode_length {n k : Nat} (small : n < 10 ^ (k + 1)) : (encode n).length ≤ k + 1 := by
  induction k generalizing n with
  | zero =>
    have one : n < 10 := small
    rw [encode_eq, if_pos one]
    exact Nat.le_refl 1
  | succ k ih =>
    rw [encode_eq]
    split
    · exact Nat.le_add_left 1 _
    · rw [List.length_append]
      refine Nat.add_le_add_right (ih ?_) 1
      rw [Nat.pow_succ] at small
      exact Nat.div_lt_of_lt_mul (by omega)

theorem value_append (digits more : Bytes) : value (digits ++ more) = more.foldl append (value digits) :=
  List.foldl_append ..

theorem value_encode (n : Nat) : value (encode n) = n := by
  induction n using Nat.strongRecOn with
  | ind n ih =>
    rw [encode_eq]
    split
    · rename_i small
      simp only [value, List.foldl_cons, List.foldl_nil, append, digit_value n small]
      omega
    · rw [value_append, ih (n / 10) (by omega)]
      simp only [List.foldl_cons, List.foldl_nil, append, digit_value _ (Nat.mod_lt n (by decide : 0 < 10))]
      omega

/-- The digits so far; a number that is too large stays too large. -/
def accumulate (limit : Nat) : Bytes → Nat → Option Nat
  | [], total => some total
  | byte :: rest, total =>
    if byte = 0x5f then accumulate limit rest total
    else if isDigit byte && append total byte ≤ limit then accumulate limit rest (append total byte)
    else none

def unsignedDigits (limit : Nat) (text : Bytes) : Option Nat :=
  if text = [] ∨ text.head? = some 0x5f ∨ text.getLast? = some 0x5f then none else accumulate limit text 0

def unsigned (limit : Nat) (text : Bytes) : Option Nat :=
  if text.head? = some 0x2b then unsignedDigits limit text.tail
  else if text.head? = some 0x2d then (unsignedDigits limit text.tail).filter (· = 0)
  else unsignedDigits limit text

theorem append_le (value : Nat) (digit : UInt8) : value ≤ append value digit := by
  unfold append
  omega

theorem foldl_append_le (digits : Bytes) (total : Nat) : total ≤ digits.foldl append total := by
  induction digits generalizing total with
  | nil => exact Nat.le_refl total
  | cons digit rest ih => exact Nat.le_trans (append_le total digit) (ih _)

theorem accumulate_digits {limit : Nat} {digits : Bytes} (all : ∀ digit ∈ digits, isDigit digit = true)
    (total : Nat) (bounded : total ≤ limit) :
    accumulate limit digits total =
      if digits.foldl append total ≤ limit then some (digits.foldl append total) else none := by
  induction digits generalizing total with
  | nil => exact (if_pos bounded).symm
  | cons digit rest ih =>
    have decimal := all digit List.mem_cons_self
    have plain : digit ≠ 0x5f := by
      rintro rfl
      exact nomatch decimal
    rw [accumulate, if_neg plain, decimal, List.foldl_cons]
    by_cases fits : append total digit ≤ limit
    · rw [if_pos (by rw [Bool.true_and, decide_eq_true fits])]
      exact ih (fun other listed => all other (List.mem_cons_of_mem _ listed)) _ fits
    · have large := foldl_append_le rest (append total digit)
      rw [if_neg (by rw [Bool.true_and, decide_eq_false fits]; exact nofun), if_neg (by omega)]

theorem unsigned_encode (limit n : Nat) : unsigned limit (encode n) = if n ≤
    limit then some n else none := by
  have digits := encode_digits n
  have head : ∀ byte, isDigit byte = false → (encode n).head? ≠ some byte := fun byte other found => by
    rw [digits byte (List.mem_of_head? found)] at other
    cases other
  have last : (encode n).getLast? ≠ some 0x5f := fun found => by
    have digit := digits _ (List.mem_of_getLast? found)
    cases digit
  unfold unsigned unsignedDigits
  rw [if_neg (head _ (by decide)), if_neg (head _ (by decide)),
    if_neg (by simp only [not_or]; exact ⟨encode_ne_nil n, head _ (by decide), last⟩),
    accumulate_digits digits 0 (Nat.zero_le _)]
  change (if value (encode n) ≤ limit then some (value (encode n)) else none) = _
  rw [value_encode]

def isBlank (byte : UInt8) : Bool := byte == 0x20 || (0x09 ≤ byte && byte ≤ 0x0d)

def leading (text : Bytes) : Option Int :=
  let text := text.dropWhile isBlank
  let unsigned := if text.head? = some 0x2b ∨ text.head? = some 0x2d then text.tail else text
  let digits := unsigned.takeWhile isDigit
  if digits = [] then none
  else some (if text.head? = some 0x2d then -(value digits : Int) else value digits)

theorem leading_encode (n : Nat) : leading (encode n) = some (n : Int) := by
  have digits := encode_digits n
  have head : ∀ byte, isDigit byte = false → (encode n).head? ≠ some byte := fun byte other found => by
    rw [digits byte (List.mem_of_head? found)] at other
    cases other
  have solid : (encode n).dropWhile isBlank = encode n := by
    cases encoded : encode n with
    | nil => rfl
    | cons digit rest =>
      have decimal := digits digit (encoded ▸ List.mem_cons_self)
      have plain : isBlank digit = false := by
        revert decimal
        have all : ∀ k : Fin 256, isDigit (UInt8.ofNat k.val) = true →
          isBlank (UInt8.ofNat k.val) = false := by
          decide +kernel
        have known := all ⟨digit.toNat, digit.toNat_lt⟩
        rw [UInt8.ofNat_toNat] at known
        exact known
      rw [List.dropWhile_cons, plain]
      rfl
  have whole : (encode n).takeWhile isDigit = encode n := by
    have grown : (encode n ++ []).takeWhile isDigit = encode n ++ [].takeWhile isDigit :=
      List.takeWhile_append_of_pos digits
    rwa [List.append_nil, List.takeWhile_nil, List.append_nil] at grown
  have unsigned : ¬ ((encode n).head? = some 0x2b ∨ (encode n).head? = some 0x2d) :=
    not_or.mpr ⟨head _ (by decide), head _ (by decide)⟩
  unfold leading
  dsimp only
  rw [solid, if_neg unsigned, whole, if_neg (encode_ne_nil n), if_neg (head _ (by decide)), value_encode]

end Machinen.Decimal
