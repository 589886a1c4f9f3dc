import Machinen.Lib.Bytes

/-! UTF-8 as a lenient decoder reads it: a piece that is the start of no character, or of one that
does not go on, becomes one replacement character. -/
namespace Machinen

variable {acc : Nat} {bounds : List (Nat × Nat)} {b : UInt8} {bs : Bytes}

abbrev Text := List Char

namespace Utf8

def replacement : Char := '\uFFFD'

def continuation : Nat × Nat := (0x80, 0xBF)

/-- What a first byte contributes, and the bounds of each byte that has to follow. -/
def lead (b : UInt8) : Option (Nat × List (Nat × Nat)) :=
  let n := b.toNat
  if n < 0x80 then some (n, [])
  else if n < 0xC2 then none
  else if n < 0xE0 then some (n - 0xC0, [continuation])
  else if n = 0xE0 then some (0, [(0xA0, 0xBF), continuation])
  else if n = 0xED then some (0xD, [(0x80, 0x9F), continuation])
  else if n < 0xF0 then some (n - 0xE0, [continuation, continuation])
  else if n = 0xF0 then some (0, [(0x90, 0xBF), continuation, continuation])
  else if n < 0xF4 then some (n - 0xF0, [continuation, continuation, continuation])
  else if n = 0xF4 then some (4, [(0x80, 0x8F), continuation, continuation])
  else none

/-- The bytes that follow a first one: the number they make, unless one is out of bounds or missing,
and how many were taken. -/
def follow (acc : Nat) : List (Nat × Nat) → Bytes → Option Nat × Nat
  | [], _ => (some acc, 0)
  | _ :: _, [] => (none, 0)
  | bound :: bounds, b :: bs =>
    if bound.1 ≤ b.toNat ∧ b.toNat ≤ bound.2 then
      let later := follow (acc * 64 + b.toNat % 64) bounds bs
      (later.1, later.2 + 1)
    else (none, 0)

/-- The character at a first byte, and how many more bytes are its own. -/
def first (b : UInt8) (bs : Bytes) : Char × Nat :=
  match lead b with
  | none => (replacement, 0)
  | some (acc, bounds) =>
    let followed := follow acc bounds bs
    (followed.1.elim replacement Char.ofNat, followed.2)

/-- The characters from where a number of bytes belong to the one before. -/
def decodeFrom : Nat → Bytes → Text
  | _, [] => []
  | skip + 1, _ :: bs => decodeFrom skip bs
  | 0, b :: bs => (first b bs).1 :: decodeFrom (first b bs).2 bs

def decode (bytes : Bytes) : Text := decodeFrom 0 bytes

/-- A character of three bytes, the first two of one with four, and a letter. -/
example : decode [0xE2, 0x82, 0xAC, 0xF0, 0x9F, 0x41] = ['\u20AC', replacement, 'A'] := by decide

theorem decodeFrom_eq (skip : Nat) (bytes : Bytes) :
    decodeFrom skip bytes = decode (bytes.drop skip) := by
  induction bytes generalizing skip with
  | nil =>
    rw [List.drop_nil]
    cases skip <;> rfl
  | cons b bs ih =>
    cases skip with
    | zero => rfl
    | succ skip => exact ih skip

theorem decode_cons (b : UInt8) (bs : Bytes) :
    decode (b :: bs) = (first b bs).1 :: decode (bs.drop (first b bs).2) := by
  rw [← decodeFrom_eq]
  rfl

theorem follow_inside {bound : Nat × Nat}
    (inside : bound.1 ≤ b.toNat ∧ b.toNat ≤ bound.2) : follow acc (bound :: bounds) (b :: bs) =
      ((follow (acc * 64 + b.toNat % 64) bounds bs).1,
      (follow (acc * 64 + b.toNat % 64) bounds bs).2 + 1) :=
  if_pos inside

theorem follow_outside {bound : Nat × Nat} (outside : ¬ (bound.1 ≤ b.toNat ∧ b.toNat ≤ bound.2)) :
    follow acc (bound :: bounds) (b :: bs) = (none, 0) :=
  if_neg outside

theorem follow_cut {own kept cut : Bytes} {value : Option Nat}
    (read : follow acc bounds (own ++ (kept ++ cut)) = (value, own.length)) :
    follow acc bounds (own ++ kept) = (value, own.length) := by
  induction own generalizing acc bounds value with
  | nil =>
    rw [List.nil_append] at read ⊢
    cases bounds with
    | nil => exact read
    | cons bound bounds =>
      cases kept with
      | cons b kept =>
        rw [List.cons_append] at read
        by_cases inside : bound.1 ≤ b.toNat ∧ b.toNat ≤ bound.2
        · rw [follow_inside inside] at read
          cases read
        · rw [follow_outside inside] at read ⊢
          exact read
      | nil =>
        rw [List.nil_append] at read
        cases cut with
        | nil => exact read
        | cons b cut =>
          by_cases inside : bound.1 ≤ b.toNat ∧ b.toNat ≤ bound.2
          · rw [follow_inside inside] at read
            cases read
          · rw [follow_outside inside] at read
            exact read
  | cons b own ih =>
    rw [List.cons_append] at read ⊢
    cases bounds with
    | nil => cases read
    | cons bound bounds =>
      by_cases inside : bound.1 ≤ b.toNat ∧ b.toNat ≤ bound.2
      · rw [follow_inside inside, Prod.mk.injEq] at read
        have later := ih (Prod.ext read.1 (Nat.succ.inj read.2))
        rw [follow_inside inside, later]
        rfl
      · rw [follow_outside inside] at read
        cases read

theorem follow_taken (acc : Nat) (bounds : List (Nat × Nat)) (bs : Bytes) :
    (follow acc bounds bs).2 ≤ bs.length := by
  induction bs generalizing acc bounds with
  | nil => cases bounds <;> exact Nat.le_refl _
  | cons b bs ih =>
    cases bounds with
    | nil => exact Nat.zero_le _
    | cons bound bounds =>
      unfold follow
      split
      · exact Nat.succ_le_succ (ih _ _)
      · exact Nat.zero_le _

theorem first_cut {own kept cut : Bytes} {c : Char}
    (read : first b (own ++ (kept ++ cut)) = (c, own.length)) :
    first b (own ++ kept) = (c, own.length) := by
  unfold first at read ⊢
  cases leads : lead b with
  | none =>
    rw [leads] at read
    exact read
  | some lead_ =>
    rw [leads] at read
    dsimp only at read ⊢
    rw [Prod.mk.injEq] at read
    rw [follow_cut (Prod.ext rfl read.2)]
    exact Prod.ext read.1 rfl

theorem first_taken (b : UInt8) (bs : Bytes) : (first b bs).2 ≤ bs.length := by
  unfold first
  split
  · exact Nat.zero_le _
  · exact follow_taken _ _ _

theorem decode_split {x y : Text} {bytes : Bytes} (read : decode bytes = x ++ y) :
    ∃ u v, bytes = u ++ v ∧ decode u = x ∧ decode v = y := by
  induction x generalizing bytes with
  | nil => exact ⟨[], bytes, rfl, rfl, read⟩
  | cons c x ih =>
    cases bytes with
    | nil => cases read
    | cons b bs =>
      rw [decode_cons] at read
      obtain ⟨here, later⟩ := List.cons.inj read
      obtain ⟨u, v, parts, left, right⟩ := ih later
      have own : (bs.take (first b bs).2).length = (first b bs).2 :=
        List.length_take_of_le (first_taken b bs)
      have whole : bs = bs.take (first b bs).2 ++ (u ++ v) := by
        rw [← parts, List.take_append_drop]
      have read : first b (bs.take (first b bs).2 ++ (u ++ v)) =
        (c, (bs.take (first b bs).2).length) := by
        rw [← whole, own]
        exact Prod.ext here rfl
      have alone := first_cut read
      refine ⟨b :: (bs.take (first b bs).2 ++ u), v, ?_, ?_, right⟩
      · rw [List.cons_append, List.append_assoc, ← whole]
      · rw [decode_cons, alone, List.drop_left, left]

theorem decodeFrom_length (skip : Nat) (bytes : Bytes) :
    (decodeFrom skip bytes).length ≤ bytes.length := by
  induction bytes generalizing skip with
  | nil => cases skip <;> exact Nat.le_refl _
  | cons b bs ih =>
    cases skip with
    | zero => exact Nat.succ_le_succ (ih _)
    | succ skip => exact Nat.le_succ_of_le (ih _)

theorem decode_length (bytes : Bytes) : (decode bytes).length ≤ bytes.length := decodeFrom_length 0 bytes

theorem decode_piece {bytes : Bytes} {text : Text} (piece : text <:+: decode bytes) :
    ∃ own, own <:+: bytes ∧ decode own = text := by
  obtain ⟨x, y, whole⟩ := piece
  obtain ⟨u, v, rfl, left, _⟩ := decode_split whole.symm
  obtain ⟨u, own, rfl, _, right⟩ := decode_split left
  exact ⟨own, ⟨u, v, rfl⟩, right⟩

/-! Bytes of a single character -/

theorem lead_ascii (ascii : b.toNat < 0x80) : lead b = some (b.toNat, []) := if_pos ascii

theorem lead_bounds (leads : lead b = some (acc, bounds)) : ∀ bound ∈ bounds, 0x80 ≤ bound.1 := by
  have all : ∀ bound ∈ (lead b).elim [] Prod.snd, 0x80 ≤ bound.1 := by
    unfold lead continuation
    dsimp only
    repeat' split
    all_goals
      dsimp only [Option.elim]
      decide
  rw [leads] at all
  exact all

theorem follow_ascii (high : ∀ bound ∈ bounds, 0x80 ≤ bound.1) (ascii : b.toNat < 0x80) (acc : Nat)
    (u v : Bytes) : follow acc bounds (u ++ b :: v) = follow acc bounds u := by
  induction u generalizing acc bounds with
  | nil =>
    cases bounds with
    | nil => rfl
    | cons bound bounds =>
      have low := high bound List.mem_cons_self
      exact follow_outside (by omega)
  | cons c u ih =>
    cases bounds with
    | nil => rfl
    | cons bound bounds =>
      rw [List.cons_append]
      by_cases inside : bound.1 ≤ c.toNat ∧ c.toNat ≤ bound.2
      · rw [follow_inside inside, follow_inside inside,
          ih fun other member => high other (List.mem_cons_of_mem bound member)]
      · rw [follow_outside inside, follow_outside inside]

theorem first_ascii {c : UInt8} (ascii : b.toNat < 0x80) (u v : Bytes) :
    first c (u ++ b :: v) = first c u := by
  unfold first
  cases leads : lead c with
  | none => rfl
  | some found =>
    dsimp only
    rw [follow_ascii (lead_bounds leads) ascii]

theorem decode_ascii (ascii : b.toNat < 0x80) (u v : Bytes) :
    decode (u ++ b :: v) = decode u ++ Char.ofNat b.toNat :: decode v := by
  induction length : u.length using Nat.strongRecOn generalizing u with
  | ind n ih =>
    cases u with
    | nil =>
      have own : first b v = (Char.ofNat b.toNat, 0) := by
        unfold first
        rw [lead_ascii ascii]
        rfl
      rw [List.nil_append, decode_cons, own]
      rfl
    | cons c u =>
      have taken := first_taken c u
      have shorter : (u.drop (first c u).2).length < n := by
        rw [List.length_drop, ← length, List.length_cons]
        omega
      rw [List.cons_append, decode_cons, decode_cons, first_ascii ascii,
        List.drop_append_of_le_length taken, ih _ shorter _ rfl]
      rfl

theorem follow_ge {v : Nat} {taken : Nat}
    (read : follow acc bounds bs = (some v, taken)) : acc * 64 ^ bounds.length ≤ v := by
  induction bounds generalizing acc bs taken with
  | nil =>
    cases read
    exact Nat.le_of_eq (Nat.mul_one v)
  | cons bound bounds ih =>
    cases bs with
    | nil => cases read
    | cons b bs =>
      by_cases inside : bound.1 ≤ b.toNat ∧ b.toNat ≤ bound.2
      · rw [follow_inside inside, Prod.mk.injEq] at read
        have later := ih (Prod.ext read.1 rfl)
        rw [List.length_cons, Nat.pow_succ, Nat.mul_comm _ 64, ← Nat.mul_assoc]
        exact Nat.le_trans (Nat.mul_le_mul_right _ (Nat.le_add_right _ _)) later
      · rw [follow_outside inside] at read
        cases read

theorem follow_second {v : Nat} {bound : Nat × Nat}
    {taken : Nat} (read : follow 0 (bound :: bounds) bs = (some v, taken)) :
    ∃ b : UInt8, bound.1 ≤ b.toNat ∧ b.toNat ≤ bound.2 ∧ b.toNat % 64 * 64 ^ bounds.length ≤ v := by
  cases bs with
  | nil => cases read
  | cons b bs =>
    by_cases inside : bound.1 ≤ b.toNat ∧ b.toNat ≤ bound.2
    · rw [follow_inside inside, Prod.mk.injEq, Nat.zero_mul, Nat.zero_add] at read
      exact ⟨b, inside.1, inside.2, follow_ge (Prod.ext read.1 rfl)⟩
    · rw [follow_outside inside] at read
      cases read

/-- No character of more than one byte is one that a byte can stand for. -/
theorem follow_large (high : 0x80 ≤ b.toNat) {v : Nat}
    {taken : Nat} (leads : lead b = some (acc, bounds)) (read : follow acc bounds bs = (some v, taken)) :
    0x80 ≤ v := by
  have least := follow_ge read
  have second {low up : Nat} {rest : List (Nat × Nat)} (zero : acc = 0)
    (same : bounds = (low, up) :: rest)
      (within : 0x90 ≤ low ∧ up ≤ 0xBF) (more : 64 ≤ 64 ^ rest.length) : 0x80 ≤ v := by
    subst zero same
    obtain ⟨c, above, below, least⟩ := follow_second read
    have digit : 16 ≤ c.toNat % 64 := by omega
    exact Nat.le_trans (Nat.le_trans (by decide) (Nat.mul_le_mul digit more)) least
  unfold lead continuation at leads
  dsimp only at leads
  repeat' split at leads
  all_goals simp only [reduceCtorEq, Option.some.injEq, Prod.mk.injEq] at leads
  all_goals obtain ⟨acc_eq, bounds_eq⟩ := leads
  -- After E0 and F0 it is the second byte that is large, after the others what the first contributes.
  all_goals first
    | (rw [← acc_eq, ← bounds_eq] at least
       simp only [List.length_cons, List.length_nil] at least
       omega)
    | exact second acc_eq.symm bounds_eq.symm (by decide) (by decide)

theorem charOfNat_toNat (v : Nat) : (Char.ofNat v).toNat = v ∨ (Char.ofNat v).toNat = 0 := by
  unfold Char.ofNat
  split
  · exact .inl rfl
  · exact .inr rfl

theorem first_small (some_ : (first b bs).1.toNat ≠ 0)
    (small : (first b bs).1.toNat < 0x80) : b.toNat = (first b bs).1.toNat := by
  have wide : ¬ replacement.toNat < 0x80 := by decide
  unfold first at some_ small ⊢
  cases leads : lead b with
  | none =>
    rw [leads] at small
    exact absurd small wide
  | some found =>
    obtain ⟨acc, bounds⟩ := found
    rw [leads] at some_ small
    dsimp only at some_ small ⊢
    cases read : (follow acc bounds bs).1 with
    | none =>
      rw [read] at small
      exact absurd small wide
    | some v =>
      rw [read] at some_ small
      dsimp only [Option.elim] at some_ small ⊢
      have value := (charOfNat_toNat v).resolve_right some_
      rw [value] at small ⊢
      by_cases ascii : b.toNat < 0x80
      · rw [lead_ascii ascii, Option.some.injEq, Prod.mk.injEq] at leads
        obtain ⟨rfl, rfl⟩ := leads
        exact Option.some.inj read
      · have large := follow_large (Nat.le_of_not_lt ascii) leads (Prod.ext read rfl)
        omega

theorem ascii_of_decode {c : Char} (some_ : c.toNat ≠ 0) (small : c.toNat < 0x80) {bytes : Bytes}
    (member : c ∈ decode bytes) : ∃ b ∈ bytes, b.toNat = c.toNat := by
  induction length : bytes.length using Nat.strongRecOn generalizing bytes with
  | ind n ih =>
    cases bytes with
    | nil => cases member
    | cons b bs =>
      rw [decode_cons] at member
      rcases List.mem_cons.mp member with rfl | later
      · exact ⟨b, List.mem_cons_self, first_small some_ small⟩
      · have shorter : (bs.drop (first b bs).2).length < n := by
          rw [List.length_drop, ← length, List.length_cons]
          omega
        obtain ⟨d, inside, same⟩ := ih _ shorter later rfl
        exact ⟨d, List.mem_cons_of_mem b (List.mem_of_mem_drop inside), same⟩

end Utf8

end Machinen
