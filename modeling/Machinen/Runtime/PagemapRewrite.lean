import Machinen.Runtime.PagemapFields
import Mathlib.Data.Nat.Bitwise

/-! What the rewriting makes of a pagemap image, entry by entry, and when that is what it is for. -/
namespace Machinen.Runtime.LazyPagemap

open Bytes

theorem number_small {n : Nat} (small : n < 2 ^ 53) : number n = n := if_pos small

theorem bitAnd_two_pow (n : Nat) {i : Nat} (low : i < 31) :
    (bitAnd n (1 <<< i) != 0) = n.testBit i := by
  have power : (1 <<< i) % 2 ^ 32 = 2 ^ i := by
    rw [Nat.one_shiftLeft]
    exact Nat.mod_eq_of_lt (Nat.pow_lt_pow_right (by decide) (by omega))
  have small : 2 ^ i < 2 ^ 31 := Nat.pow_lt_pow_right (by decide) low
  have bit : (n % 2 ^ 32).testBit i = n.testBit i := by
    rw [Nat.testBit_mod_two_pow, decide_eq_true (by omega), Bool.true_and]
  rw [bitAnd, power, Nat.and_two_pow, bit]
  have positive := Nat.two_pow_pos i
  cases n.testBit i with
  | false =>
    rw [Bool.toNat_false, Nat.zero_mul]
    rfl
  | true =>
    have same : (true.toNat * 2 ^ i) % 2 ^ 32 = 2 ^ i := by
      rw [Bool.toNat_true, Nat.one_mul]
      exact Nat.mod_eq_of_lt (by omega)
    rw [toInt32, same, if_pos small, bne_iff_ne]
    omega

/-- The flags that the code writes. -/
def newFlags (flags : Nat) : Nat := number flags % 2 ^ 32 ||| PE_LAZY

theorem or_lazy_lt {n k : Nat} (small : n < 2 ^ k) (wide : 2 ≤ k) : n ||| PE_LAZY < 2 ^ k :=
  Nat.or_lt_two_pow small (Nat.lt_of_lt_of_le (by decide : PE_LAZY < 2 ^ 2)
    (Nat.pow_le_pow_right (by decide) wide))

theorem encodeVarint_bitOr (flags : Nat) : encodeVarint (bitOr (number flags) PE_LAZY) =
    if number flags % 2 ^ 32 < 2 ^ 31 then .ok (Varint.encode 4 (newFlags flags))
    else fail "varint: negative not supported here" := by
  have mask : PE_LAZY % 2 ^ 32 = PE_LAZY := rfl
  have word : newFlags flags < 2 ^ 32 := or_lazy_lt (Nat.mod_lt _ (by decide)) (by decide)
  have whole : newFlags flags % 2 ^ 32 = newFlags flags := Nat.mod_eq_of_lt word
  have more : number flags % 2 ^ 32 ≤ newFlags flags := Nat.left_le_or
  unfold encodeVarint bitOr
  rw [mask, show number flags % 2 ^ 32 ||| PE_LAZY = newFlags flags from rfl, toInt32, whole]
  by_cases small : number flags % 2 ^ 32 < 2 ^ 31
  · have low : newFlags flags < 2 ^ 31 := or_lazy_lt small (by decide)
    rw [if_pos low, if_pos small, if_neg (by omega), Int.toNat_natCast]
  · rw [if_neg (show ¬ newFlags flags < 2 ^ 31 by omega), if_neg small, if_pos (by omega)]

namespace Entry

theorem apply_last {keep : PagemapEntryFields → Option Nat} {name : Nat}
    (sets : ∀ (f : Field) pos fields, keep (f.apply pos fields) =
      ((if f.Holds name then some (Varint.value f.body) else none) <|> keep fields))
    (e : Entry) (pos : Nat) (fields : PagemapEntryFields) :
    keep (e.apply pos fields) = (last name e <|> keep fields) := by
  induction e generalizing pos fields with
  | nil => rfl
  | cons f fs ih =>
    rw [Entry.apply, ih, sets, last]
    cases last name fs <;> rfl

theorem apply_vaddr (f : Field) (pos : Nat) (fields : PagemapEntryFields) : (f.apply pos fields).vaddr =
    ((if f.Holds 1 then some (Varint.value f.body) else none) <|> fields.vaddr) := by
  unfold Field.apply applyPagemapEntryField Field.Holds
  grind

theorem apply_nrPages (f : Field) (pos : Nat) (fields : PagemapEntryFields) :
    (f.apply pos fields).nrPages =
      ((if f.Holds 5 then some (Varint.value f.body) else none) <|> fields.nrPages) := by
  unfold Field.apply applyPagemapEntryField Field.Holds
  grind

theorem apply_compatNrPages (f : Field) (pos : Nat) (fields : PagemapEntryFields) :
    (f.apply pos fields).compatNrPages =
      ((if f.Holds 2 then some (Varint.value f.body) else none) <|> fields.compatNrPages) := by
  unfold Field.apply applyPagemapEntryField Field.Holds
  grind

theorem apply_flags (f : Field) (pos : Nat) (fields : PagemapEntryFields) :
    ((f.apply pos fields).flags, (f.apply pos fields).flagsValPos, (f.apply pos fields).flagsValLen) =
      if f.Holds 4 then (number (Varint.value f.body), ((pos + f.tag.length : Nat) : Int), f.body.length)
      else (fields.flags, fields.flagsValPos, fields.flagsValLen) := by
  unfold Field.apply applyPagemapEntryField Field.Holds
  grind

theorem apply_others {e : Entry} (others : ∀ f ∈ e, ¬ f.Holds 4) (pos : Nat) (fields : PagemapEntryFields) :
    ((e.apply pos fields).flags, (e.apply pos fields).flagsValPos, (e.apply pos fields).flagsValLen) =
      (fields.flags, fields.flagsValPos, fields.flagsValLen) := by
  induction e generalizing pos fields with
  | nil => rfl
  | cons f fs ih =>
    rw [Entry.apply, ih (fun g listed => others g (List.mem_cons_of_mem f listed)), apply_flags,
      if_neg (others f List.mem_cons_self)]

theorem apply_append (front back : Entry) (pos : Nat) (fields : PagemapEntryFields) :
    Entry.apply (front ++ back) pos fields =
      back.apply (pos + (Entry.bytes front).length) (front.apply pos fields) := by
  induction front generalizing pos fields with
  | nil => rfl
  | cons f front ih =>
    rw [List.cons_append, Entry.apply, Entry.apply, ih, Entry.bytes, Entry.bytes, List.flatMap_cons,
      List.length_append, Nat.add_assoc]

theorem flags_cases (e : Entry) : (last 4 e = none ∧ ∀ f ∈ e, ¬ f.Holds 4) ∨
    ∃ front f back, e = front ++ f :: back ∧ f.Holds 4 ∧ (∀ g ∈ back, ¬ g.Holds 4) ∧
      last 4 e = some (Varint.value f.body) := by
  induction e with
  | nil => exact .inl ⟨rfl, nofun⟩
  | cons f fs ih =>
    rcases ih with ⟨nothing, none_⟩ | ⟨front, g, back, rfl, holds, rest, found⟩
    · by_cases here : f.Holds 4
      · refine .inr ⟨[], f, fs, rfl, here, none_, ?_⟩
        rw [last, nothing, if_pos here]
        rfl
      · refine .inl ⟨?_, List.forall_mem_cons.mpr ⟨here, none_⟩⟩
        rw [last, nothing, if_neg here]
        rfl
    · refine .inr ⟨f :: front, g, back, rfl, holds, rest, ?_⟩
      rw [last, found]
      rfl

end Entry

theorem apply_place {front back : Entry} {f : Field} (holds : f.Holds 4) (rest : ∀ g ∈ back, ¬ g.Holds 4) :
    (Entry.apply (front ++ f :: back) 0 {}).flags = number (Varint.value f.body) ∧
    (Entry.apply (front ++ f :: back) 0 {}).flagsValPos =
      ((front.bytes ++ f.tag).length : Nat) ∧
    (Entry.apply (front ++ f :: back) 0 {}).flagsValLen = f.body.length := by
  have kept := Entry.apply_others rest (0 + front.bytes.length + f.bytes.length)
    (f.apply (0 + front.bytes.length) (front.apply 0 {}))
  rw [Entry.apply_flags, if_pos holds, Prod.mk.injEq, Prod.mk.injEq] at kept
  rw [Entry.apply_append, Entry.apply, List.length_append]
  rw [Nat.zero_add] at kept ⊢
  exact kept

theorem apply_reads (e : Entry) : (e.apply 0 {}).vaddr = e.vaddr ∧
    entryPageCount (e.apply 0 {}) = e.pages ∧ (e.apply 0 {}).flags = number e.flags := by
  have none_ : ∀ found : Option Nat, (found <|> none) = found := fun found => by cases found <;> rfl
  refine ⟨?_, ?_, ?_⟩
  · rw [Entry.apply_last Entry.apply_vaddr]
    exact none_ _
  · rw [entryPageCount, Entry.apply_last Entry.apply_nrPages, Entry.apply_last Entry.apply_compatNrPages]
    rw [none_, none_]
    rfl
  · rcases e.flags_cases with ⟨nothing, others⟩ | ⟨front, f, back, rfl, holds, rest, found⟩
    · have kept := Entry.apply_others others 0 {}
      rw [Entry.flags, nothing]
      exact congrArg (·.1) kept
    · rw [(apply_place holds rest).1, Entry.flags, found]
      rfl

namespace Entry

/-- The flags as the code judges them. -/
def NumberLazy (e : Entry) : Prop := (number e.flags).testBit 1 = true

def NumberPresent (e : Entry) : Prop := (number e.flags).testBit 2 = true

/-- The code writes flags into the entry. -/
def ToRewrite (ranges : List VmaRange) (e : Entry) : Prop :=
  ¬ e.NumberLazy ∧ e.NumberPresent ∧ e.Covered ranges

/-- The flags are negative as a signed number of 32 bits. -/
def Negative (e : Entry) : Prop := 2 ^ 31 ≤ number e.flags % 2 ^ 32

instance (e : Entry) : Decidable e.NumberLazy := inferInstanceAs (Decidable (_ = _))
instance (e : Entry) : Decidable e.NumberPresent := inferInstanceAs (Decidable (_ = _))
instance (e : Entry) : Decidable e.Negative := inferInstanceAs (Decidable (_ ≤ _))

instance (ranges : List VmaRange) (e : Entry) : Decidable (e.ToRewrite ranges) :=
  inferInstanceAs (Decidable (_ ∧ _ ∧ _))

/-- What becomes of an entry. -/
def Becomes (ranges : List VmaRange) (e e' : Entry) : Prop :=
  if e.ToRewrite ranges then e.WithFlags e' (LazyPagemap.newFlags e.flags) else e' = e

end Entry

theorem entryIsAlreadyLazy_iff (e : Entry) : entryIsAlreadyLazy (e.apply 0 {}) = true ↔ e.NumberLazy := by
  rw [entryIsAlreadyLazy, (apply_reads e).2.2, PE_LAZY, bitAnd_two_pow _ (by decide)]
  rfl

theorem vaddrInLazyRange_iff (vaddr len : Nat) (ranges : List VmaRange) :
    vaddrInLazyRange vaddr len ranges = true ↔
      ∃ r ∈ ranges, r.lo ≤ (vaddr : Int) ∧ (vaddr + len : Nat) ≤ r.hi := by
  simp only [vaddrInLazyRange, List.any_eq_true, Bool.and_eq_true, decide_eq_true_eq]

theorem entryShouldBecomeLazy_iff (e : Entry) (ranges : List VmaRange) :
    entryShouldBecomeLazy (e.apply 0 {}) ranges = true ↔ e.NumberPresent ∧ e.Covered ranges := by
  obtain ⟨vaddr, pages, flags⟩ := apply_reads e
  unfold entryShouldBecomeLazy Entry.Covered Entry.NumberPresent
  rw [vaddr, pages, flags, PE_PRESENT, bitAnd_two_pow _ (by decide)]
  cases e.vaddr with
  | none => exact iff_of_false nofun fun impossible => impossible.2
  | some vaddr =>
    dsimp only
    rw [Bool.and_eq_true, Bool.and_eq_true, vaddrInLazyRange_iff, decide_eq_true_eq]
    refine and_congr_right fun _ => ⟨And.right, fun inside => ⟨?_, inside⟩⟩
    obtain ⟨r, listed, -⟩ := inside
    exact List.length_pos_of_mem listed

theorem entryOf_withFlags {msg : Bytes} {front back : Entry} {f : Field}
    (read : entryOf msg = some (front ++ f :: back)) (holds : f.Holds 4) (n : Nat) :
    entryOf (front.bytes ++ (f.tag ++ (Varint.encode 4 n ++ back.bytes))) =
      some (front ++ ⟨f.tag, Varint.encode 4 n⟩ :: back) := by
  obtain ⟨rest, found, inner⟩ := fieldOf_cuts.all_cons_some (fieldOf_cuts.all_back read)
  obtain rfl : back.bytes = rest := entryOf_bytes inner
  obtain ⟨⟨tag, more⟩, tagged, found⟩ := Option.bind_eq_some_iff.mp found
  obtain ⟨⟨body, rest'⟩, -, same⟩ := Option.map_eq_some_iff.mp found
  cases same
  have digits : Varint.split 10 (Varint.encode 4 n ++ back.bytes) = some (Varint.encode 4 n, back.bytes) :=
    Varint.split_mono (by decide) (Varint.split_encode n back.bytes)
  have field : fieldOf (tag ++ (Varint.encode 4 n ++ back.bytes)) =
      some (⟨tag, Varint.encode 4 n⟩, back.bytes) := by
    unfold fieldOf
    rw [Varint.split_append tagged, Option.bind_some]
    dsimp only
    rw [show Varint.value tag % 8 = 0 from holds.1, show bodyOf 0 _ = _ from digits]
    rfl
  refine entryOf_append read (List.cons_ne_nil _ _) ?_
  dsimp only
  rw [entryOf, fieldOf_cuts.all_cons (List.append_ne_nil_of_left_ne_nil (Varint.split_eq tagged).2.1 _),
    field, Option.bind_some]
  exact congrArg (Option.map (_ :: ·)) inner

theorem newFlags_lt {flags : Nat} (small : number flags % 2 ^ 32 < 2 ^ 31) : newFlags flags < 2 ^ 31 :=
  or_lazy_lt small (by decide)

theorem fieldOf_number {bs rest : Bytes} {f : Field} {name : Nat} (found : fieldOf bs = some (f, rest))
    (holds : f.Holds name) : f.body ≠ [] := by
  obtain ⟨⟨tag, more⟩, -, found⟩ := Option.bind_eq_some_iff.mp found
  obtain ⟨⟨body, rest'⟩, inner, same⟩ := Option.map_eq_some_iff.mp found
  cases same
  rw [show Varint.value tag % 8 = 0 from holds.1] at inner
  exact (Varint.split_eq inner).2.1

theorem encode_newFlags_length {body : Bytes} (some_ : body ≠ []) :
    (Varint.encode 4 (newFlags (Varint.value body))).length ≤ body.length := by
  have positive := List.length_pos_iff.mpr some_
  have bound := Varint.value_lt body
  have power : 128 ^ body.length = 2 ^ (7 * body.length) := by rw [Nat.pow_mul]
  refine Varint.encode_length some_ ?_
  by_cases small : Varint.value body < 2 ^ 53
  · rw [power] at bound ⊢
    rw [newFlags, number_small small]
    exact or_lazy_lt (Nat.lt_of_le_of_lt (Nat.mod_le _ _) bound) (by omega)
  · have word : newFlags (Varint.value body) < 2 ^ 32 := or_lazy_lt (Nat.mod_lt _ (by decide)) (by decide)
    omega

theorem Entry.bytes_split (front : Entry) (f : Field) (back : Entry) :
    Entry.bytes (front ++ f :: back) =
      Entry.bytes front ++ (f.tag ++ (f.body ++ Entry.bytes back)) := by
  rw [Entry.bytes, List.flatMap_append, List.flatMap_cons, Field.bytes, List.append_assoc]
  rfl

theorem rewriteEntryFlags_spec {msg : Bytes} {e : Entry} (read : entryOf msg = some e)
    (present : e.NumberPresent) :
    if e.Negative then ∃ t, rewriteEntryFlags msg (e.apply 0 {}) = .error t
    else ∃ e', e.WithFlags e' (newFlags e.flags) ∧ entryOf e'.bytes = some e' ∧
      e'.bytes.length ≤ msg.length ∧ rewriteEntryFlags msg (e.apply 0 {}) = .ok ⟨e'.bytes, true, false⟩ := by
  unfold rewriteEntryFlags
  rw [(apply_reads e).2.2, encodeVarint_bitOr]
  by_cases negative : e.Negative
  · rw [if_pos negative, if_neg (Nat.not_lt.mpr negative)]
    exact ⟨_, rfl⟩
  rw [if_neg negative, if_pos (Nat.lt_of_not_le negative)]
  rcases e.flags_cases with ⟨nothing, -⟩ | ⟨front, f, back, rfl, holds, rest, found⟩
  · unfold Entry.NumberPresent Entry.flags at present
    rw [nothing] at present
    exact nomatch present
  have flags : Entry.flags (front ++ f :: back) = Varint.value f.body := by rw [Entry.flags, found]; rfl
  have same := entryOf_bytes read
  obtain ⟨bs, more, mine⟩ := fieldOf_cuts.all_mem read (List.mem_append_right front List.mem_cons_self)
  have shorter := encode_newFlags_length (fieldOf_number mine holds)
  have again := entryOf_withFlags read holds (newFlags (Varint.value f.body))
  have small : newFlags (Varint.value f.body) < 2 ^ 31 := by
    rw [← flags]
    exact newFlags_lt (Nat.lt_of_not_le negative)
  rw [Entry.bytes_split] at same
  obtain ⟨-, at_, length⟩ := @apply_place front back f holds rest
  have written := Entry.bytes_split front ⟨f.tag, Varint.encode 4 (newFlags (Varint.value f.body))⟩ back
  rw [flags]
  refine ⟨front ++ ⟨f.tag, Varint.encode 4 (newFlags (Varint.value f.body))⟩ :: back,
    ⟨front, f, back, _, rfl, holds, rest, rfl, Varint.value_encode (by omega)⟩, by rw [written]; exact again, ?_, ?_⟩
  · rw [written, ← same]
    simp only [List.length_append]
    omega
  · rw [at_, length, written, ← same, ← List.append_assoc]
    dsimp only [bind, Except.bind]
    rw [Int.toNat_natCast, List.take_left, ← List.drop_drop, List.drop_left, List.drop_left]
    simp only [List.append_assoc]
    rfl

/-- One entry: what it says decides whether it is left, written over, or cannot be written. -/
theorem rewriteEntry_spec {msg : Bytes} {e : Entry} (read : entryOf msg = some e)
    (ranges : List VmaRange) :
    if e.ToRewrite ranges ∧ e.Negative then ∃ t, rewriteEntry msg ranges = .error t
    else ∃ e', e.Becomes ranges e' ∧ entryOf e'.bytes = some e' ∧ e'.bytes.length ≤ msg.length ∧
      rewriteEntry msg ranges =
        .ok ⟨e'.bytes, decide (e.ToRewrite ranges), decide e.NumberLazy⟩ := by
  have parsed := parsePagemapEntryFields_entryOf msg
  rw [read] at parsed
  dsimp only at parsed
  have same : e.bytes = msg := entryOf_bytes read
  have kept : ¬ e.ToRewrite ranges → e.Becomes ranges e := fun left => by rw [Entry.Becomes, if_neg left]
  unfold rewriteEntry
  rw [parsed]
  dsimp only [bind, Except.bind]
  by_cases lazy_ : e.NumberLazy
  · have left : ¬ e.ToRewrite ranges := fun rewrites => rewrites.1 lazy_
    rw [if_neg fun both => left both.1, if_pos ((entryIsAlreadyLazy_iff e).mpr lazy_)]
    refine ⟨e, kept left, by rw [same]; exact read, Nat.le_of_eq (congrArg _ same), ?_⟩
    rw [decide_eq_false left, decide_eq_true lazy_, same]
    rfl
  rw [if_neg fun already => lazy_ ((entryIsAlreadyLazy_iff e).mp already)]
  by_cases becomes : e.NumberPresent ∧ e.Covered ranges
  · have rewrites : e.ToRewrite ranges := ⟨lazy_, becomes⟩
    have flagged := rewriteEntryFlags_spec read becomes.1
    rw [(entryShouldBecomeLazy_iff e ranges).mpr becomes]
    by_cases negative : e.Negative
    · rw [if_pos negative] at flagged
      rw [if_pos ⟨rewrites, negative⟩]
      exact flagged
    · rw [if_neg negative] at flagged
      rw [if_neg fun both => negative both.2]
      obtain ⟨e', written, read', shorter, done⟩ := flagged
      refine ⟨e', by rw [Entry.Becomes, if_pos rewrites]; exact written, read', shorter, ?_⟩
      rw [decide_eq_true rewrites, decide_eq_false lazy_]
      exact done
  · have left : ¬ e.ToRewrite ranges := fun rewrites => becomes rewrites.2
    have refused : entryShouldBecomeLazy (e.apply 0 {}) ranges = false :=
      Bool.eq_false_iff.mpr fun should => becomes ((entryShouldBecomeLazy_iff e ranges).mp should)
    rw [refused, if_neg fun both => left both.1]
    refine ⟨e, kept left, by rw [same]; exact read, Nat.le_of_eq (congrArg _ same), ?_⟩
    rw [decide_eq_false left, decide_eq_false lazy_, same]
    rfl

end Machinen.Runtime.LazyPagemap
