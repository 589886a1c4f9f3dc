import Machinen.Vmm.DtbTokens
import Machinen.Lib.Nesting

/-! The walk for the memory node over a run of tokens: where it passes, where it stops the process, and
where it writes. -/
namespace Machinen.Vmm.DtbPatch

open Bytes Framing

/-- The tokens stand at an offset of the blob. -/
def StandAt (dtb : Bytes) (i : Nat) (ts : List Token) : Prop :=
  HoldsAt dtb i (encodeAll ts) ∧ FitsAll i ts

/-- Where the walk comes to over tokens that it passes. -/
def scan (r : Nat) : Walk → List Token → Option Walk
  | w, [] => some w
  | w, t :: ts =>
    match advance r w t with
    | .next w => scan r w ts
    | .patch | .stop _ => none

theorem scan_append (r : Nat) (w : Walk) (ts us : List Token) :
    scan r w (ts ++ us) = (scan r w ts).bind fun w => scan r w us := by
  induction ts generalizing w with
  | nil => rfl
  | cons t ts ih =>
    rw [List.cons_append, scan, scan]
    split
    · exact ih _
    · rfl
    · rfl

theorem encodeAll_cons (t : Token) (ts : List Token) : encodeAll (t :: ts) = t.encode ++ encodeAll ts :=
  List.flatMap_cons

theorem Token.four_le_length (t : Token) : 4 ≤ t.encode.length := by
  cases t <;> simp only [Token.encode, List.length_append, be_length] <;> omega

theorem encodeAll_length_le (ts : List Token) : 4 * ts.length ≤ (encodeAll ts).length := by
  induction ts with
  | nil => exact Nat.le_refl 0
  | cons t ts ih =>
    have first := t.four_le_length
    rw [encodeAll_cons, List.length_append, List.length_cons]
    omega

section Standing

variable {dtb : Bytes} {i : Nat} {t : Token} {ts us : List Token}

theorem standAt_nil (dtb : Bytes) (i : Nat) : StandAt dtb i [] := ⟨nofun, trivial⟩

theorem standAt_cons :
    StandAt dtb i (t :: ts) ↔ (HoldsAt dtb i t.encode ∧ t.Fits i) ∧ StandAt dtb (i + t.encode.length) ts := by
  unfold StandAt
  rw [encodeAll_cons, FitsAll]
  constructor
  · rintro ⟨holds, fits, others⟩
    exact ⟨⟨holds.left, fits⟩, holds.right, others⟩
  · rintro ⟨⟨holds, fits⟩, rest, others⟩
    exact ⟨holds.append rest, fits, others⟩

theorem standAt_append :
    StandAt dtb i (ts ++ us) ↔ StandAt dtb i ts ∧ StandAt dtb (i + (encodeAll ts).length) us := by
  induction ts generalizing i with
  | nil => exact ⟨fun stand => ⟨standAt_nil dtb i, stand⟩, And.right⟩
  | cons t ts ih =>
    rw [List.cons_append, standAt_cons, standAt_cons, ih, encodeAll_cons, List.length_append, Nat.add_assoc,
      and_assoc, and_assoc, and_assoc]

end Standing

section Walking

variable {dtb : Bytes} {r size i left : Nat} {w : Walk}

theorem walkMemory_turn (inside : i + 4 ≤ dtb.length) :
    walkMemory dtb r size (left + 1) i w = andThen (turnMemory dtb r size i w) fun
      | .patched written => ok written
      | .onwards next w => walkMemory dtb r size left next w := by
  rw [walkMemory.eq_def]
  dsimp only
  exact (if_neg (Nat.not_lt.mpr inside)).trans rfl

theorem walkMemory_short (short : dtb.length < i + 4) : walkMemory dtb r size left i w = fail .dtbTruncated := by
  rw [walkMemory.eq_def]
  dsimp only
  rw [if_pos short]

theorem walkMemory_zero : walkMemory dtb r size 0 i w = fail .dtbTruncated := by
  rw [walkMemory.eq_def]
  dsimp only
  split <;> rfl

theorem turnMemory_deep (deep : MAX_FDT_DEPTH ≤ w.depth) : turnMemory dtb r size i w = none := by
  rw [turnMemory, assert, if_neg (Nat.not_lt.mpr deep)]
  rfl

theorem walkMemory_deep (deep : MAX_FDT_DEPTH ≤ w.depth) (inside : i + 4 ≤ dtb.length) (more : 0 < left) :
    walkMemory dtb r size left i w = none := by
  obtain ⟨left, rfl⟩ := Nat.exists_eq_succ_of_ne_zero (Nat.ne_of_gt more)
  rw [walkMemory_turn inside, turnMemory_deep deep]
  rfl

theorem walkMemory_token {t : Token} (holds : HoldsAt dtb i t.encode) (fits : t.Fits i) :
    walkMemory dtb r size (left + 1) i w = none ∨ walkMemory dtb r size (left + 1) i w =
      match advance r w t with
      | .next w => walkMemory dtb r size left (i + t.encode.length) w
      | .patch => ok (store dtb (i + 20) (be 8 size))
      | .stop e => fail e := by
  have wide := t.four_le_length
  have whole := holds.fits (List.ne_nil_of_length_pos (by omega))
  have inside : i + 4 ≤ dtb.length := by omega
  rw [walkMemory_turn inside]
  by_cases shallow : w.depth < MAX_FDT_DEPTH
  · rw [turnMemory_token holds fits shallow]
    cases advance r w t <;> exact .inr rfl
  · rw [turnMemory_deep (Nat.le_of_not_lt shallow)]
    exact .inl rfl

theorem walkMemory_scan {ts : List Token} {w' : Walk} (stand : StandAt dtb i ts)
    (passes : scan r w ts = some w') (enough : ts.length ≤ left) :
    walkMemory dtb r size left i w = none ∨ walkMemory dtb r size left i w =
      walkMemory dtb r size (left - ts.length) (i + (encodeAll ts).length) w' := by
  induction ts generalizing i left w with
  | nil =>
    cases passes
    exact .inr rfl
  | cons t ts ih =>
    obtain ⟨⟨holds, fits⟩, rest⟩ := standAt_cons.mp stand
    rw [List.length_cons] at enough
    obtain ⟨left, rfl⟩ := Nat.exists_eq_succ_of_ne_zero (show left ≠ 0 by omega)
    rcases @walkMemory_token dtb r size i left w t holds fits with stops | goes
    · exact .inl stops
    rw [scan] at passes
    rw [goes]
    cases verdict : advance r w t with
    | next w₁ =>
      rw [verdict] at passes
      rw [encodeAll_cons, List.length_append, List.length_cons, Nat.succ_sub_succ, ← Nat.add_assoc]
      exact ih rest passes (Nat.le_of_succ_le_succ enough)
    | patch | stop =>
      rw [verdict] at passes
      cases passes

/-- The process is stopped where tokens lead down to a depth that the assertion forbids, and more stands
behind them. -/
theorem walkMemory_trap_iff (bounded : dtb.length < i + 4 * left) :
    walkMemory dtb r size left i w = none ↔ ∃ ts w', StandAt dtb i ts ∧ scan r w ts = some w' ∧
      MAX_FDT_DEPTH ≤ w'.depth ∧ i + (encodeAll ts).length + 4 ≤ dtb.length := by
  constructor
  · intro stops
    induction left generalizing i w with
    | zero =>
      rw [walkMemory_zero] at stops
      cases stops
    | succ left ih =>
      by_cases inside : i + 4 ≤ dtb.length
      swap
      · rw [walkMemory_short (Nat.lt_of_not_le inside)] at stops
        cases stops
      by_cases shallow : w.depth < MAX_FDT_DEPTH
      swap
      · exact ⟨[], w, standAt_nil dtb i, rfl, Nat.le_of_not_lt shallow, inside⟩
      rw [walkMemory_turn inside] at stops
      rcases @turnMemory_cases dtb r size i w inside shallow with
        ⟨e, failed⟩ | ⟨b, patched⟩ | ⟨t, holds, fits⟩
      · rw [failed] at stops
        cases stops
      · rw [patched] at stops
        cases stops
      rw [turnMemory_token holds fits shallow] at stops
      have wide := t.four_le_length
      cases verdict : advance r w t with
      | next w₁ =>
        rw [verdict] at stops
        obtain ⟨ts, w', stand, passes, deep, more⟩ := ih (by omega) stops
        refine ⟨t :: ts, w', standAt_cons.mpr ⟨⟨holds, fits⟩, stand⟩, ?_, deep, ?_⟩
        · rw [scan, verdict]
          exact passes
        · rw [encodeAll_cons, List.length_append]
          omega
      | patch | stop =>
        rw [verdict] at stops
        cases stops
  · rintro ⟨ts, w', stand, passes, deep, more⟩
    have wide := encodeAll_length_le ts
    rcases @walkMemory_scan dtb r size i left w ts w' stand passes (by omega) with stops | goes
    · exact stops
    · rw [goes]
      exact walkMemory_deep deep more (by omega)

theorem walkMemory_ok {ts : List Token} {written : Bytes} (stand : StandAt dtb i ts)
    (ended : HoldsAt dtb (i + (encodeAll ts).length) (be 4 FDT_END))
    (done : walkMemory dtb r size left i w = ok written) :
    ∃ front t rest w', ts = front ++ t :: rest ∧ scan r w front = some w' ∧ advance r w' t = .patch ∧
      written = store dtb (i + (encodeAll front).length + 20) (be 8 size) := by
  induction ts generalizing i left w with
  | nil =>
    have inside := ended.fits (List.ne_nil_of_length_pos (by rw [be_length]; decide))
    rw [be_length] at inside
    change i + 4 ≤ dtb.length at inside
    cases left with
    | zero =>
      rw [walkMemory_zero] at done
      cases done
    | succ left =>
      rw [walkMemory_turn inside] at done
      by_cases shallow : w.depth < MAX_FDT_DEPTH
      · have token := readU32_holds (by decide) ended
        rw [turnMemory, assert_true shallow, ok_andThen, show i = i + (encodeAll []).length from rfl, token] at done
        cases done
      · rw [turnMemory_deep (Nat.le_of_not_lt shallow)] at done
        cases done
  | cons t ts ih =>
    obtain ⟨⟨holds, fits⟩, rest⟩ := standAt_cons.mp stand
    rw [encodeAll_cons, List.length_append, ← Nat.add_assoc] at ended
    cases left with
    | zero =>
      rw [walkMemory_zero] at done
      cases done
    | succ left =>
      rcases @walkMemory_token dtb r size i left w t holds fits with stops | goes
      · rw [stops] at done
        cases done
      rw [goes] at done
      cases verdict : advance r w t with
      | next w₁ =>
        rw [verdict] at done
        obtain ⟨front, t', rest', w', rfl, passes, patches, rfl⟩ := ih rest ended done
        refine ⟨t :: front, t', rest', w', rfl, ?_, patches, ?_⟩
        · rw [scan, verdict]
          exact passes
        · rw [encodeAll_cons, List.length_append, ← Nat.add_assoc]
      | patch =>
        rw [verdict] at done
        cases done
        exact ⟨[], t, ts, w, rfl, rfl, verdict, rfl⟩
      | stop =>
        rw [verdict] at done
        cases done

theorem walkMemory_patch {front rest : List Token} {t : Token} {w' : Walk}
    (stand : StandAt dtb i (front ++ t :: rest)) (passes : scan r w front = some w')
    (patches : advance r w' t = .patch) (bounded : dtb.length < i + 4 * left) :
    walkMemory dtb r size left i w = none ∨ walkMemory dtb r size left i w =
      ok (store dtb (i + (encodeAll front).length + 20) (be 8 size)) := by
  obtain ⟨first, second⟩ := standAt_append.mp stand
  obtain ⟨⟨holds, fits⟩, -⟩ := standAt_cons.mp second
  have wide := encodeAll_length_le front
  have inside := holds.fits (List.ne_nil_of_length_pos (Nat.lt_of_lt_of_le (by decide) t.four_le_length))
  have more : front.length < left := by omega
  rcases @walkMemory_scan dtb r size i left w front w' first passes (Nat.le_of_lt more) with stops | goes
  · exact .inl stops
  obtain ⟨more, count⟩ := Nat.exists_eq_succ_of_ne_zero (show left - front.length ≠ 0 by omega)
  rw [goes, count]
  rcases @walkMemory_token dtb r size _ more w' t holds fits with stops | goes
  · exact .inl stops
  · rw [goes, patches]
    exact .inr rfl

end Walking

end Machinen.Vmm.DtbPatch
