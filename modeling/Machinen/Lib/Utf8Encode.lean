import Machinen.Lib.Utf8

/-! Which numbers the lenient decoder makes characters of, and the bytes that a text is written as. -/
namespace Machinen.Utf8

variable {acc : Nat} {bounds : List (Nat × Nat)} {bs : Bytes}

theorem follow_lt {v : Nat} {taken : Nat}
    (read : follow acc bounds bs = (some v, taken)) : v < (acc + 1) * 64 ^ bounds.length := by
  induction bounds generalizing acc bs taken with
  | nil =>
    cases bs <;>
    · simp only [follow, Prod.mk.injEq, Option.some.injEq] at read
      simp only [List.length_nil, Nat.pow_zero]
      omega
  | cons bound bounds ih =>
    cases bs with
    | nil => cases read
    | cons b bs =>
      by_cases inside : bound.1 ≤ b.toNat ∧ b.toNat ≤ bound.2
      · rw [follow_inside inside, Prod.mk.injEq] at read
        have below := ih (Prod.ext read.1 rfl)
        have digit : acc * 64 + b.toNat % 64 + 1 ≤ (acc + 1) * 64 := by omega
        calc v < (acc * 64 + b.toNat % 64 + 1) * 64 ^ bounds.length := below
          _ ≤ (acc + 1) * 64 * 64 ^ bounds.length := Nat.mul_le_mul_right _ digit
          _ = (acc + 1) * 64 ^ (bound :: bounds).length := by
            rw [List.length_cons, Nat.pow_succ, Nat.mul_assoc, Nat.mul_comm 64]
      · rw [follow_outside inside] at read
        cases read

theorem follow_between {v : Nat} {bound : Nat × Nat}
    {taken : Nat} (read : follow acc (bound :: bounds) bs = (some v, taken)) :
    ∃ b : UInt8, bound.1 ≤ b.toNat ∧ b.toNat ≤ bound.2 ∧
      (acc * 64 + b.toNat % 64) * 64 ^ bounds.length ≤ v ∧
      v < (acc * 64 + b.toNat % 64 + 1) * 64 ^ bounds.length := by
  cases bs with
  | nil => cases read
  | cons b bs =>
    by_cases inside : bound.1 ≤ b.toNat ∧ b.toNat ≤ bound.2
    · rw [follow_inside inside, Prod.mk.injEq] at read
      have alone : follow (acc * 64 + b.toNat % 64) bounds bs =
          (some v, (follow (acc * 64 + b.toNat % 64) bounds bs).2) := Prod.ext read.1 rfl
      exact ⟨b, inside.1, inside.2, follow_ge alone, follow_lt alone⟩
    · rw [follow_outside inside] at read
      cases read

theorem follow_valid {b : UInt8} {v : Nat} {taken : Nat} (leads : lead b = some (acc, bounds))
    (read : follow acc bounds bs = (some v, taken)) : v < 0xD800 ∨ 0xDFFF < v ∧ v < 0x110000 := by
  unfold lead continuation at leads
  dsimp only at leads
  repeat' split at leads
  all_goals simp only [reduceCtorEq, Option.some.injEq, Prod.mk.injEq] at leads
  all_goals obtain ⟨acc_eq, bounds_eq⟩ := leads
  all_goals subst bounds_eq
  · have below := follow_lt read
    simp only [List.length_nil, Nat.pow_zero] at below
    omega
  all_goals
    obtain ⟨c, above, below, least, most⟩ := follow_between read
    simp only [List.length_cons, List.length_nil, Nat.zero_add, Nat.reduceAdd,
      Nat.reducePow] at least most above below
    omega

/-- A byte that is no character of its own begins none. -/
theorem first_wide {b : UInt8} (wide : 0x80 ≤ b.toNat) : 0x80 ≤ (first b bs).1.toNat := by
  have replaced : 0x80 ≤ replacement.toNat := by decide
  unfold first
  cases leads : lead b with
  | none => exact replaced
  | some found =>
    obtain ⟨acc, bounds⟩ := found
    cases read : (follow acc bounds bs).1 with
    | none =>
      simp only [Option.elim, read]
      exact replaced
    | some v =>
      have large := follow_large wide leads (Prod.ext read rfl)
      have valid := follow_valid leads (Prod.ext read rfl)
      have same : (Char.ofNat v).toNat = v := by
        unfold Char.ofNat
        rw [dif_pos valid]
        rfl
      simp only [Option.elim, read]
      omega

/-- What belongs to a character besides its first byte are no characters of their own. -/
theorem follow_own (high : ∀ bound ∈ bounds, 0x80 ≤ bound.1)
    (bs : Bytes) : ∀ b ∈ bs.take (follow acc bounds bs).2, 0x80 ≤ b.toNat := by
  induction bs generalizing acc bounds with
  | nil => simp
  | cons b bs ih =>
    cases bounds with
    | nil => simp [follow]
    | cons bound bounds =>
      by_cases inside : bound.1 ≤ b.toNat ∧ b.toNat ≤ bound.2
      · rw [follow_inside inside, List.take_succ_cons]
        intro c mem
        rcases List.mem_cons.mp mem with rfl | later
        · exact Nat.le_trans (high bound List.mem_cons_self) inside.1
        · exact ih (fun other member => high other (List.mem_cons_of_mem bound member)) c later
      · rw [follow_outside inside]
        simp

theorem first_own (b : UInt8) (bs : Bytes) : ∀ c ∈ bs.take (first b bs).2, 0x80 ≤ c.toNat := by
  unfold first
  cases leads : lead b with
  | none => simp
  | some found => exact follow_own (lead_bounds leads) bs

/-! Writing -/

def encode (text : Text) : Bytes := text.flatMap String.utf8EncodeChar

theorem encode_append (x y : Text) : encode (x ++ y) = encode x ++ encode y := List.flatMap_append

theorem encode_cons (c : Char) (text : Text) : encode (c :: text) = String.utf8EncodeChar c ++ encode text := rfl

theorem encode_replacement : String.utf8EncodeChar replacement = [0xEF, 0xBF, 0xBD] := by decide

theorem ofNat_toNat {n : Nat} (ascii : n < 0x80) : (Char.ofNat n).toNat = n := by
  unfold Char.ofNat
  rw [dif_pos (.inl (by omega))]
  rfl

theorem encode_ascii {b : UInt8} (ascii : b.toNat < 0x80) :
    String.utf8EncodeChar (Char.ofNat b.toNat) = [b] := by
  have small : (Char.ofNat b.toNat).val.toNat = b.toNat := ofNat_toNat ascii
  unfold String.utf8EncodeChar
  simp [small, show b.toNat ≤ 0x7f by omega]

end Machinen.Utf8
