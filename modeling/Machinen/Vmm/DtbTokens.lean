import Machinen.Vmm.DtbPatch

/-! The tokens of a structure block, and what one turn of a walk makes of one: the turn goes on, patches
or stops as the token says, and where it goes on there was a token. -/
namespace Machinen.Vmm.DtbPatch

open Bytes Framing

inductive Token where
  | beginNode (name pad : Bytes)
  | endNode
  | prop (nameoff : Nat) (value pad : Bytes)
  | nop
  deriving DecidableEq, Repr

namespace Token

def encode : Token → Bytes
  | beginNode name pad => be 4 FDT_BEGIN_NODE ++ (name ++ ([0] ++ pad))
  | endNode => be 4 FDT_END_NODE
  | prop nameoff value pad =>
    be 4 FDT_PROP ++ (be 4 value.length ++ (be 4 nameoff ++ (value ++ pad)))
  | nop => be 4 FDT_NOP

/-- The name has no NUL, the numbers have 32 bits, and the padding ends at a multiple of four. -/
def Fits (at_ : Nat) : Token → Prop
  | beginNode name pad => (0 ∉ name) ∧ pad.length < 4 ∧ (at_ + 5 + name.length + pad.length) % 4 = 0
  | prop nameoff value pad => nameoff < 2 ^ 32 ∧ value.length < 2 ^ 32 ∧ pad.length < 4 ∧
      (at_ + 12 + value.length + pad.length) % 4 = 0
  | endNode | nop => True

instance (at_ : Nat) : (t : Token) → Decidable (t.Fits at_)
  | beginNode name pad => inferInstanceAs (Decidable ((0 ∉ name) ∧ pad.length < 4 ∧ _ = 0))
  | prop nameoff value pad => inferInstanceAs (Decidable (nameoff < _ ∧ value.length < _ ∧ pad.length < 4 ∧ _ = 0))
  | endNode | nop => instDecidableTrue

end Token

def encodeAll (ts : List Token) : Bytes := ts.flatMap Token.encode

def FitsAll (at_ : Nat) : List Token → Prop
  | [] => True
  | t :: ts => t.Fits at_ ∧ FitsAll (at_ + t.encode.length) ts

instance FitsAll.decidable (at_ : Nat) : (ts : List Token) → Decidable (FitsAll at_ ts)
  | [] => instDecidableTrue
  | t :: ts =>
    have := FitsAll.decidable (at_ + t.encode.length) ts
    inferInstanceAs (Decidable (t.Fits at_ ∧ FitsAll (at_ + t.encode.length) ts))

inductive Verdict where
  | next (w : Walk)
  | patch
  | stop (e : DtbError)
  deriving DecidableEq, Repr

/-- What a token means for the walk; `r` is where the name of the property stands. -/
def advance (r : Nat) (w : Walk) : Token → Verdict
  | .beginNode name _ =>
    if MAX_NAME_BYTES < name.length then .stop .dtbBadName
    else if w.depth + 1 = ROOT_CHILD_DEPTH then .next ⟨w.depth + 1, isMemoryNodeName name⟩
    else .next { w with depth := w.depth + 1 }
  | .endNode =>
    if w.depth = 0 then .stop .dtbBadToken
    else if w.inMemoryNode ∧ w.depth = ROOT_CHILD_DEPTH then .stop .memoryRegNotFound
    else .next { w with depth := w.depth - 1 }
  | .prop nameoff value _ =>
    if w.inMemoryNode ∧ w.depth = ROOT_CHILD_DEPTH ∧ nameoff = r then
      if value.length ≠ 16 then .stop .memoryRegWrongSize else .patch
    else .next w
  | .nop => .next w

theorem ok_andThen {A B : Type} (a : A) (next : A → Checked B) : andThen (ok a) next = next a := rfl

section Reads

variable {dtb : Bytes} {i : Nat}

theorem readU32_eq (inside : i + 4 ≤ dtb.length) : readU32 dtb i = ok (ofBe (slice dtb i 4)) := if_pos inside

theorem readU32_holds {n : Nat} (small : n < 2 ^ 32) (holds : HoldsAt dtb i (be 4 n)) :
    readU32 dtb i = ok n := by
  have length := be_length 4 n
  have inside := holds.fits (fun empty => by rw [empty] at length; cases length)
  have same := holds.slice_eq
  rw [length] at inside same
  rw [readU32_eq inside, same, ofBe_be 4 n small]

theorem assert_true {p : Prop} [Decidable p] (true_ : p) : assert p = ok () := if_pos true_

theorem nameEnd_holds {name : Bytes} (left : Nat) (holds : HoldsAt dtb i (name ++ [0])) (plain : 0 ∉ name) :
    nameEnd dtb left i =
      if name.length ≤ left then .ok (i + name.length) else .error .dtbBadName := by
  induction name generalizing left i with
  | nil =>
    have zero := holds 0 Nat.one_pos
    rw [Nat.add_zero] at zero
    rw [nameEnd.eq_def]
    dsimp only
    rw [zero]
    rfl
  | cons b name ih =>
    have first := holds 0 (Nat.succ_pos _)
    rw [Nat.add_zero] at first
    obtain ⟨here, others⟩ := not_or.mp (fun found => plain (List.mem_cons.mpr found))
    have rest : HoldsAt dtb (i + 1) (name ++ [0]) := @HoldsAt.right _ [b] _ _ holds
    rw [nameEnd.eq_def]
    dsimp only
    rw [first]
    dsimp only [List.cons_append, List.getElem?_cons_zero]
    rw [if_neg (Ne.symm here)]
    cases left with
    | zero => rw [if_neg (by rw [List.length_cons]; omega)]
    | succ left =>
      dsimp only
      rw [ih left rest others, List.length_cons]
      by_cases short : name.length ≤ left
      · rw [if_pos short, if_pos (Nat.succ_le_succ short), Nat.add_assoc, Nat.add_comm 1]
      · rw [if_neg short, if_neg (by omega)]

theorem no_name (left : Nat) (ended : dtb[i]? = none ∨ dtb[i]? = some 0) : ∃ name, 0 ∉ name ∧
    HoldsAt dtb i name ∧ i = i + name.length ∧ name.length ≤ left ∧ (i < dtb.length → dtb[i]? = some 0) := by
  refine ⟨[], List.not_mem_nil, nofun, rfl, Nat.zero_le _, fun inside => ended.resolve_left fun none_ => ?_⟩
  rw [List.getElem?_eq_none_iff] at none_
  omega

theorem nameEnd_ok {left stop : Nat} (found : nameEnd dtb left i = .ok stop) :
    ∃ name, 0 ∉ name ∧ HoldsAt dtb i name ∧ stop = i + name.length ∧ name.length ≤ left ∧
      (stop < dtb.length → dtb[stop]? = some 0) := by
  induction left generalizing i with
  | zero =>
    rw [nameEnd.eq_def] at found
    dsimp only at found
    split at found
    · rename_i none_
      cases found
      exact no_name 0 (.inl none_)
    · rename_i b first
      split at found
      · rename_i zero
        cases found
        exact no_name 0 (.inr (zero ▸ first))
      · cases found
  | succ left ih =>
    rw [nameEnd.eq_def] at found
    dsimp only at found
    split at found
    · rename_i none_
      cases found
      exact no_name _ (.inl none_)
    · rename_i b first
      split at found
      · rename_i zero
        cases found
        exact no_name _ (.inr (zero ▸ first))
      · rename_i other
        obtain ⟨name, plain, holds, rfl, short, ends⟩ := ih found
        have here : HoldsAt dtb i [b] := fun t within_ => by
          obtain rfl : t = 0 := Nat.lt_one_iff.mp within_
          rw [Nat.add_zero]
          exact first
        refine ⟨b :: name, ?_, here.append holds, ?_, Nat.succ_le_succ short, ends⟩
        · exact fun listed => (List.mem_cons.mp listed).elim (fun same => other same.symm) plain
        · rw [List.length_cons]
          omega

theorem alignForward_eq {at_ pad : Nat} (short : pad < 4) (aligned : (at_ + pad) % 4 = 0) :
    alignForward at_ = at_ + pad := by
  unfold alignForward
  omega

theorem skipName_holds {name pad : Bytes} (holds : HoldsAt dtb i (name ++ ([0] ++ pad)))
    (plain : 0 ∉ name) (short : pad.length < 4) (aligned : (i + 1 + name.length + pad.length) % 4 = 0) :
    skipName dtb i = if name.length ≤ MAX_NAME_BYTES then ok (i + 1 + name.length + pad.length)
      else fail .dtbBadName := by
  have inside := holds.fits (by simp)
  simp only [List.length_append, List.length_singleton] at inside
  rw [← List.append_assoc] at holds
  rw [skipName, assert_true (by omega), ok_andThen, nameEnd_holds MAX_NAME_BYTES holds.left plain]
  split
  · rw [andThen_ok, if_neg (by omega), show i + name.length + 1 = i + 1 + name.length by omega,
      alignForward_eq short aligned]
    dsimp only
    rw [if_neg (by omega)]
  · rfl

theorem nameSlice_holds {name rest : Bytes} (holds : HoldsAt dtb i (name ++ ([0] ++ rest)))
    (plain : 0 ∉ name) (short : name.length ≤ MAX_NAME_BYTES) : nameSlice dtb i = ok name := by
  have inside := holds.fits (by simp)
  rw [List.length_append] at inside
  have found : (dtb.drop i).takeWhile (· ≠ 0) = name := by
    have cut : (dtb.drop i).take (name ++ ([0] ++ rest)).length = name ++ ([0] ++ rest) := holds.slice_eq
    rw [← List.take_append_drop (name ++ ([0] ++ rest)).length (dtb.drop i), cut, List.append_assoc,
      List.takeWhile_append_of_pos]
    · simp
    · intro b listed
      have other : b ≠ 0 := fun zero => plain (zero ▸ listed)
      exact decide_eq_true other
  rw [nameSlice, assert_true (by omega), ok_andThen, found]
  dsimp only
  rw [assert_true short, ok_andThen]

theorem skipProp_holds {value pad : Bytes} (holds : HoldsAt dtb i (value ++ pad)) (low : i ≤ dtb.length)
    (short : pad.length < 4) (aligned : (i + value.length + pad.length) % 4 = 0) :
    skipProp dtb i value.length = ok (i + value.length + pad.length) := by
  have inside : i + (value ++ pad).length ≤ dtb.length := by
    by_cases empty : value ++ pad = []
    · rw [empty]
      exact low
    · exact holds.fits empty
  rw [List.length_append] at inside
  rw [skipProp, if_neg (by omega), alignForward_eq short aligned]
  dsimp only
  rw [if_neg (by omega)]

end Reads

/-- A turn over a token does what the token means. -/
theorem turnMemory_token {dtb : Bytes} {r size i : Nat} {w : Walk} {t : Token}
    (holds : HoldsAt dtb i t.encode) (fits : t.Fits i) (shallow : w.depth < MAX_FDT_DEPTH) :
    turnMemory dtb r size i w =
      match advance r w t with
      | .next w => ok (.onwards (i + t.encode.length) w)
      | .patch => ok (.patched (store dtb (i + 20) (be 8 size)))
      | .stop e => fail e := by
  unfold turnMemory
  rw [assert_true shallow, ok_andThen]
  cases t with
  | beginNode name pad =>
    obtain ⟨plain, short, aligned⟩ := fits
    have token := readU32_holds (by decide) holds.left
    have behind := holds.right
    rw [be_length] at behind
    have length : (Token.beginNode name pad).encode.length = 5 + name.length + pad.length := by
      simp only [Token.encode, List.length_append, be_length, List.length_singleton]
      omega
    rw [token, ok_andThen, length]
    dsimp only
    rw [if_pos rfl, if_neg (Nat.not_le.mpr shallow), skipName_holds behind plain short (by omega), advance]
    by_cases long : MAX_NAME_BYTES < name.length
    · rw [if_neg (Nat.not_le.mpr long), if_pos long]
      rfl
    have enough := Nat.le_of_not_lt long
    rw [if_pos enough, if_neg long, ok_andThen, assert_true ⟨Nat.succ_pos _, shallow⟩, ok_andThen,
      show i + 4 + 1 + name.length + pad.length = i + (5 + name.length + pad.length) by omega]
    split
    · rw [nameSlice_holds behind plain enough, ok_andThen, assert_true enough, ok_andThen]
    · rfl
  | endNode =>
    have token := readU32_holds (by decide) holds
    rw [token, ok_andThen, advance]
    dsimp only
    rw [if_neg (by decide), if_pos rfl]
    split
    · rfl
    split
    · rfl
    · rw [Token.encode, be_length]
  | prop nameoff value pad =>
    obtain ⟨offset, size_, short, aligned⟩ := fits
    have token := readU32_holds (by decide) holds.left
    have behind := holds.right
    rw [be_length] at behind
    have plen := readU32_holds size_ behind.left
    have behind' := behind.right
    rw [be_length] at behind'
    have name := readU32_holds offset behind'.left
    have content := behind'.right
    rw [be_length] at content
    have whole := holds.fits (fun empty => by have := congrArg List.length empty; simp [Token.encode] at this)
    have length : (Token.prop nameoff value pad).encode.length = 12 + value.length + pad.length := by
      simp only [Token.encode, List.length_append, be_length]
      omega
    rw [length] at whole ⊢
    rw [token, ok_andThen, advance]
    dsimp only
    rw [if_neg (by decide), if_neg (by decide), if_neg (by decide), if_pos rfl, if_neg (by omega), plen,
      ok_andThen, name, ok_andThen]
    split
    · split
      · rfl
      · rename_i sixteen
        have room : ¬ dtb.length < i + 4 + 8 + 16 := by
          have := not_not.mp sixteen
          omega
        rw [if_neg room, writeInt, if_pos (by omega)]
        rfl
    · rw [show i + 4 + 8 = i + 4 + 4 + 4 by omega, skipProp_holds content (by omega) short (by omega),
        ok_andThen, show i + 4 + 4 + 4 + value.length + pad.length = i + (12 + value.length + pad.length) by omega]
  | nop =>
    have token := readU32_holds (by decide) holds
    rw [token, ok_andThen, advance]
    dsimp only
    rw [if_neg (by decide), if_neg (by decide), if_pos rfl, Token.encode, be_length]

theorem holdsAt_slice {xs : Bytes} {off n : Nat} (fits : off + n ≤ xs.length) :
    HoldsAt xs off (slice xs off n) :=
  holdsAt_of_slice (by rw [slice_length xs off n fits])

theorem holdsAt_word {dtb : Bytes} {i n : Nat} (inside : i + 4 ≤ dtb.length)
    (read : ofBe (slice dtb i 4) = n) : HoldsAt dtb i (be 4 n) := by
  have bytes := be_ofBe (slice dtb i 4)
  rw [slice_length dtb i 4 inside, read] at bytes
  rw [bytes]
  exact holdsAt_slice inside

/-- Where a name is passed, there is one. -/
theorem skipName_cases {dtb : Bytes} {i : Nat} (inside : i ≤ dtb.length) :
    (∃ e, skipName dtb i = fail e) ∨ ∃ name pad, HoldsAt dtb i (name ++ ([0] ++ pad)) ∧ 0 ∉ name ∧
      pad.length < 4 ∧ (i + 1 + name.length + pad.length) % 4 = 0 := by
  unfold skipName
  rw [assert_true inside, ok_andThen]
  cases ended : nameEnd dtb MAX_NAME_BYTES i with
  | error e => exact .inl ⟨e, rfl⟩
  | ok stop =>
    obtain ⟨name, plain, holds, rfl, -, zero⟩ := nameEnd_ok ended
    rw [andThen_ok]
    split
    · exact .inl ⟨_, rfl⟩
    rename_i more
    dsimp only
    split
    · exact .inl ⟨_, rfl⟩
    rename_i fits
    have bounds : i + name.length + 1 ≤ alignForward (i + name.length + 1) ∧
        alignForward (i + name.length + 1) < i + name.length + 5 ∧
        alignForward (i + name.length + 1) % 4 = 0 := by
      unfold alignForward
      omega
    have length := slice_length dtb (i + name.length + 1)
      (alignForward (i + name.length + 1) - (i + name.length + 1)) (by omega)
    refine .inr ⟨name, slice dtb (i + name.length + 1)
      (alignForward (i + name.length + 1) - (i + name.length + 1)), holds.append (HoldsAt.append ?_ ?_),
      plain, ?_, ?_⟩
    · intro t within_
      obtain rfl : t = 0 := Nat.lt_one_iff.mp within_
      exact zero (by omega)
    · rw [List.length_singleton]
      exact holdsAt_slice (by omega)
    · omega
    · rw [length]
      omega

theorem skipProp_cases (dtb : Bytes) (i plen : Nat) :
    (∃ e, skipProp dtb i plen = fail e) ∨ ∃ value pad, HoldsAt dtb i (value ++ pad) ∧
      value.length = plen ∧ pad.length < 4 ∧ (i + value.length + pad.length) % 4 = 0 := by
  unfold skipProp
  split
  · exact .inl ⟨_, rfl⟩
  dsimp only
  split
  · exact .inl ⟨_, rfl⟩
  have bounds : i + plen ≤ alignForward (i + plen) ∧ alignForward (i + plen) < i + plen + 4 ∧
      alignForward (i + plen) % 4 = 0 := by
    unfold alignForward
    omega
  have first := slice_length dtb i plen (by omega)
  have second := slice_length dtb (i + plen) (alignForward (i + plen) - (i + plen)) (by omega)
  refine .inr ⟨slice dtb i plen, slice dtb (i + plen) (alignForward (i + plen) - (i + plen)),
    HoldsAt.append (holdsAt_slice (by omega)) ?_, first, by omega, by omega⟩
  rw [first]
  exact holdsAt_slice (by omega)

/-- A turn ends the walk with an error or a patch, or there is a token to go on over. -/
theorem turnMemory_cases {dtb : Bytes} {r size i : Nat} {w : Walk} (inside : i + 4 ≤ dtb.length)
    (shallow : w.depth < MAX_FDT_DEPTH) :
    (∃ e, turnMemory dtb r size i w = fail e) ∨ (∃ b, turnMemory dtb r size i w = ok (.patched b)) ∨
      ∃ t : Token, HoldsAt dtb i t.encode ∧ t.Fits i := by
  unfold turnMemory
  rw [assert_true shallow, ok_andThen, readU32_eq inside, ok_andThen]
  dsimp only
  generalize read : ofBe (slice dtb i 4) = tok
  have word := holdsAt_word inside read
  have length := be_length 4 tok
  split
  · rename_i begins
    subst begins
    rw [if_neg (Nat.not_le.mpr shallow)]
    rcases skipName_cases (show i + 4 ≤ dtb.length from inside) with ⟨e, failed⟩ | ⟨name, pad, holds,
      plain, short, aligned⟩
    · rw [failed]
      exact .inl ⟨e, rfl⟩
    · refine .inr (.inr ⟨.beginNode name pad, word.append ?_, plain, short, by omega⟩)
      rw [length]
      exact holds
  split
  · rename_i ends
    subst ends
    exact .inr (.inr ⟨.endNode, word, trivial⟩)
  split
  · rename_i nop
    subst nop
    exact .inr (.inr ⟨.nop, word, trivial⟩)
  split
  · rename_i prop
    subst prop
    split
    · exact .inl ⟨_, rfl⟩
    rename_i room
    rw [readU32_eq (by omega), ok_andThen, readU32_eq (by omega), ok_andThen]
    split
    · split
      · exact .inl ⟨_, rfl⟩
      split
      · exact .inl ⟨_, rfl⟩
      · rename_i sixteen
        refine .inr (.inl ⟨store dtb (i + 4 + 8 + 8) (be 8 size), ?_⟩)
        rw [writeInt, if_pos (by omega)]
        rfl
    · have first := slice_length dtb (i + 4) 4 (by omega)
      have second := slice_length dtb (i + 4 + 4) 4 (by omega)
      have size_ := ofBe_lt (slice dtb (i + 4) 4)
      have offset := ofBe_lt (slice dtb (i + 4 + 4) 4)
      rw [first] at size_
      rw [second] at offset
      rcases skipProp_cases dtb (i + 4 + 8) (ofBe (slice dtb (i + 4) 4)) with
        ⟨e, failed⟩ | ⟨value, pad, holds, width, short, aligned⟩
      · rw [failed]
        exact .inl ⟨e, rfl⟩
      · refine .inr (.inr ⟨.prop (ofBe (slice dtb (i + 4 + 4) 4)) value pad, word.append ?_, offset, ?_,
          short, by omega⟩)
        · rw [length, width]
          refine (holdsAt_word (by omega) rfl).append ?_
          rw [be_length]
          refine (holdsAt_word (by omega) rfl).append ?_
          rw [be_length]
          exact holds
        · rw [width]
          exact size_
  split
  · exact .inl ⟨_, rfl⟩
  · exact .inl ⟨_, rfl⟩

end Machinen.Vmm.DtbPatch
