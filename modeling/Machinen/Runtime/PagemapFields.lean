import Machinen.Lib.Pieces
import Machinen.Runtime.LazyPagemap

/-! What a pagemap image says: messages with their lengths before them, the entries as lists of fields,
each with the bytes it is written in. The parser of the code is compared with this reading. -/
namespace Machinen.Runtime.LazyPagemap

open Bytes

/-- A field as it is written: the number and the wire type in one varint, then what belongs to it. -/
structure Field where
  tag : Bytes
  body : Bytes
  deriving DecidableEq, Repr

namespace Field

def bytes (f : Field) : Bytes := f.tag ++ f.body

/-- The field holds a number and stands under the given name. -/
def Holds (f : Field) (name : Nat) : Prop := Varint.value f.tag % 8 = 0 ∧ Varint.value f.tag / 8 = name

instance (f : Field) (name : Nat) : Decidable (f.Holds name) := inferInstanceAs (Decidable (_ ∧ _))

end Field

/-- What belongs to a field of a wire type, and the rest; the last may be cut short. -/
def bodyOf (wireType : Nat) (bs : Bytes) : Option (Bytes × Bytes) :=
  match wireType with
  | 0 => Varint.split 10 bs
  | 1 => some (bs.take 8, bs.drop 8)
  | 2 => (Varint.split 10 bs).map fun (len, rest) =>
      (len ++ rest.take (Varint.value len), rest.drop (Varint.value len))
  | 5 => some (bs.take 4, bs.drop 4)
  | _ => none

def fieldOf (bs : Bytes) : Option (Field × Bytes) :=
  (Varint.split 10 bs).bind fun (tag, rest) =>
    (bodyOf (Varint.value tag % 8) rest).map fun (body, rest) => (⟨tag, body⟩, rest)

abbrev Entry := List Field

def entryOf (msg : Bytes) : Option Entry := Pieces.all fieldOf msg

namespace Entry

def bytes (e : Entry) : Bytes := e.flatMap Field.bytes

/-- The last number under a name is the one that counts. -/
def last (name : Nat) : Entry → Option Nat
  | [] => none
  | f :: fs => last name fs <|> if f.Holds name then some (Varint.value f.body) else none

def flags (e : Entry) : Nat := (last 4 e).getD 0

def vaddr (e : Entry) : Option Nat := last 1 e

def pages (e : Entry) : Nat := (last 5 e <|> last 2 e).getD 0

def Lazy (e : Entry) : Prop := e.flags.testBit 1 = true

def Present (e : Entry) : Prop := e.flags.testBit 2 = true

/-- The entry has an address, and all its pages lie in one of the ranges. -/
def Covered (ranges : List VmaRange) (e : Entry) : Prop :=
  match e.vaddr with
  | none => False
  | some vaddr => ∃ r ∈ ranges, r.lo ≤ (vaddr : Int) ∧ (vaddr + e.pages * 4096 : Nat) ≤ r.hi

def ToMark (ranges : List VmaRange) (e : Entry) : Prop := ¬ e.Lazy ∧ e.Present ∧ e.Covered ranges

instance (e : Entry) : Decidable e.Lazy := inferInstanceAs (Decidable (_ = _))
instance (e : Entry) : Decidable e.Present := inferInstanceAs (Decidable (_ = _))

instance (ranges : List VmaRange) (e : Entry) : Decidable (e.Covered ranges) := by
  unfold Covered
  split <;> infer_instance

instance (ranges : List VmaRange) (e : Entry) : Decidable (e.ToMark ranges) :=
  inferInstanceAs (Decidable (_ ∧ _ ∧ _))

/-- The entry with other flags, and otherwise as it is written. -/
def WithFlags (e e' : Entry) (flags : Nat) : Prop :=
  ∃ front f back body, e = front ++ f :: back ∧ f.Holds 4 ∧ (∀ g ∈ back, ¬ g.Holds 4) ∧
    e' = front ++ ⟨f.tag, body⟩ :: back ∧ Varint.value body = flags

end Entry

def messageOf (bs : Bytes) : Option (Bytes × Bytes) :=
  let size := toNat (bs.take 4)
  if bs.length < 4 + size then none else some (slice bs 4 size, bs.drop (4 + size))

def messagesOf (bs : Bytes) : Option (List Bytes) := Pieces.all messageOf bs

/-- A pagemap image: its first eight bytes, the message at the head, and the entries. -/
structure PagemapFile where
  magic : Bytes
  head : Option Bytes
  entries : List Entry
  deriving DecidableEq, Repr

def entriesOf : List Bytes → Option (List Entry)
  | [] => some []
  | msg :: msgs => (entryOf msg).bind fun e => (entriesOf msgs).map (e :: ·)

def fileBehind (magic : Bytes) : List Bytes → Option PagemapFile
  | [] => some ⟨magic, none, []⟩
  | head :: msgs => (entriesOf msgs).map fun entries => ⟨magic, some head, entries⟩

/-- The eight bytes before the messages. -/
def Header (magic : Bytes) : Prop :=
  magic.length = 8 ∧ toNat (slice magic 0 4) = IMG_COMMON_MAGIC ∧ toNat (slice magic 4 4) = PAGEMAP_MAGIC

instance (magic : Bytes) : Decidable (Header magic) := inferInstanceAs (Decidable (_ ∧ _ ∧ _))

def fileOf (input : Bytes) : Option PagemapFile :=
  if Header (input.take 8) then (messagesOf (input.drop 8)).bind (fileBehind (input.take 8)) else none

theorem readVarintLoop_split (front bs : Bytes) (turns result shift : Nat) (low : result < 2 ^ shift)
    (left : shift + 7 * turns = 70) (here : Nat) (at_ : here = front.length) :
    match Varint.split turns bs with
    | some (digits, _) => readVarintLoop (front ++ bs) turns result shift here =
        .ok (result + 2 ^ shift * Varint.value digits, here + digits.length)
    | none => ∃ t, readVarintLoop (front ++ bs) turns result shift here = .error t := by
  subst at_
  induction turns generalizing front bs result shift with
  | zero => exact ⟨_, rfl⟩
  | succ turns ih =>
    cases bs with
    | nil =>
      have read : readVarintLoop (front ++ []) (turns + 1) result shift front.length =
          fail "varint: truncated" := by
        rw [readVarintLoop, List.getElem?_eq_none (by simp)]
      exact ⟨_, read⟩
    | cons b bs =>
      have found : (front ++ b :: bs)[front.length]? = some b := by simp
      have digit : b.toNat &&& 0x7f = b.toNat % 128 := Nat.and_two_pow_sub_one_eq_mod b.toNat 7
      have joined : result ||| (b.toNat &&& 0x7f) <<< shift = result + 2 ^ shift * (b.toNat % 128) := by
        rw [digit, Nat.shiftLeft_eq, Nat.or_comm, Nat.mul_comm, ← Nat.two_pow_add_eq_or_of_lt low,
          Nat.add_comm]
      have tops : ∀ n : Fin 256, n.val &&& 0x80 = 0 ↔ n.val < 128 := by decide +kernel
      have top : b.toNat &&& 0x80 = 0 ↔ b.toNat < 128 := tops ⟨b.toNat, b.toNat_lt⟩
      rw [Varint.split, readVarintLoop, found]
      dsimp only
      rw [joined]
      by_cases final : b.toNat < 128
      · rw [if_pos final, if_pos (top.mpr final)]
        have same : b.toNat % 128 = b.toNat := Nat.mod_eq_of_lt final
        simp only [Varint.value, same, Nat.mul_zero, Nat.add_zero, List.length_singleton]
      · rw [if_neg final, if_neg fun zero => final (top.mp zero)]
        have small : b.toNat % 128 < 128 := Nat.mod_lt _ (by decide)
        have next_low : result + 2 ^ shift * (b.toNat % 128) < 2 ^ (shift + 7) := by
          have step : 2 ^ shift * (b.toNat % 128) + 2 ^ shift ≤ 2 ^ shift * 128 := by
            rw [← Nat.mul_succ]
            exact Nat.mul_le_mul_left _ small
          have wider : 2 ^ (shift + 7) = 2 ^ shift * 128 := Nat.pow_add 2 shift 7
          omega
        by_cases more : 63 < shift + 7
        · obtain rfl : turns = 0 := by omega
          rw [if_pos more]
          exact ⟨_, rfl⟩
        · rw [if_neg more]
          have rest := ih (front ++ [b]) bs _ (shift + 7) next_low (by omega)
          rw [List.append_assoc, List.singleton_append, List.length_append, List.length_singleton] at rest
          cases inner : Varint.split turns bs with
          | none =>
            rw [inner] at rest
            exact rest
          | some found =>
            obtain ⟨digits, after_⟩ := found
            rw [inner] at rest
            dsimp only [Option.map_some] at rest ⊢
            rw [rest, Varint.value, List.length_cons, Nat.pow_add]
            have value : result + 2 ^ shift * (b.toNat % 128) + 2 ^ shift * 2 ^ 7 * Varint.value digits =
                result + 2 ^ shift * (b.toNat % 128 + 128 * Varint.value digits) := by
              have seven : 2 ^ 7 = 128 := rfl
              rw [seven, Nat.mul_add, Nat.mul_assoc, Nat.add_assoc]
            rw [value, Nat.add_assoc front.length, Nat.add_comm 1]

theorem readVarint_split (front bs : Bytes) :
    match Varint.split 10 bs with
    | some (digits, _) =>
      readVarint (front ++ bs) front.length = .ok (Varint.value digits, front.length + digits.length)
    | none => ∃ t, readVarint (front ++ bs) front.length = .error t := by
  have read := readVarintLoop_split front bs 10 0 0 (by decide) rfl front.length rfl
  simp only [Nat.zero_add, Nat.pow_zero, Nat.one_mul] at read
  exact read

theorem bodyOf_eq {wireType : Nat} {bs body rest : Bytes} (found : bodyOf wireType bs = some (body, rest)) :
    bs = body ++ rest := by
  unfold bodyOf at found
  split at found
  · exact (Varint.split_eq found).1
  · cases found
    exact (List.take_append_drop 8 bs).symm
  · obtain ⟨⟨len, more⟩, inner, same⟩ := Option.map_eq_some_iff.mp found
    cases same
    rw [(Varint.split_eq inner).1, List.append_assoc, List.take_append_drop]
  · cases found
    exact (List.take_append_drop 4 bs).symm
  · exact nomatch found

theorem bodyOf_append {wireType : Nat} {bs body rest : Bytes}
    (found : bodyOf wireType bs = some (body, rest)) (whole : rest ≠ []) (more : Bytes) :
    bodyOf wireType (body ++ more) = some (body, more) := by
  have full : ∀ {xs : Bytes} {n : Nat}, xs.drop n ≠ [] → (xs.take n).length = n := fun {xs n} some_ => by
    rw [Ne, List.drop_eq_nil_iff, Nat.not_le] at some_
    exact List.length_take_of_le (Nat.le_of_lt some_)
  have again : ∀ {xs : Bytes} {n : Nat}, xs.drop n ≠ [] → ∀ ys : Bytes,
      (xs.take n ++ ys).take n = xs.take n ∧ (xs.take n ++ ys).drop n = ys := fun {xs n} some_ ys =>
    ⟨List.take_left' (full some_), List.drop_left' (full some_)⟩
  unfold bodyOf at found ⊢
  split at found
  · exact Varint.split_append found more
  · cases found
    rw [(again whole more).1, (again whole more).2]
  · obtain ⟨⟨len, behind⟩, inner, same⟩ := Option.map_eq_some_iff.mp found
    cases same
    dsimp only
    rw [List.append_assoc, Varint.split_append inner, Option.map_some, (again whole more).1,
      (again whole more).2]
  · cases found
    rw [(again whole more).1, (again whole more).2]
  · exact nomatch found

theorem fieldOf_eq {bs rest : Bytes} {f : Field} (found : fieldOf bs = some (f, rest)) :
    bs = f.bytes ++ rest ∧ f.bytes ≠ [] := by
  obtain ⟨⟨tag, behind⟩, tagged, found⟩ := Option.bind_eq_some_iff.mp found
  obtain ⟨⟨body, rest'⟩, inner, same⟩ := Option.map_eq_some_iff.mp found
  cases same
  obtain ⟨rfl, some_, -⟩ := Varint.split_eq tagged
  obtain rfl := bodyOf_eq inner
  exact ⟨(List.append_assoc _ _ _).symm, List.append_ne_nil_of_left_ne_nil some_ _⟩

theorem fieldOf_append {bs rest : Bytes} {f : Field} (found : fieldOf bs = some (f, rest))
    (whole : rest ≠ []) (more : Bytes) : fieldOf (f.bytes ++ more) = some (f, more) := by
  obtain ⟨⟨tag, behind⟩, tagged, found⟩ := Option.bind_eq_some_iff.mp found
  obtain ⟨⟨body, rest'⟩, inner, same⟩ := Option.map_eq_some_iff.mp found
  cases same
  unfold fieldOf Field.bytes
  rw [List.append_assoc, Varint.split_append tagged, Option.bind_some]
  dsimp only
  rw [bodyOf_append inner whole]
  rfl

theorem fieldOf_cuts : Pieces.Cuts fieldOf Field.bytes := fun _ _ _ => fieldOf_eq

theorem entryOf_bytes {msg : Bytes} {e : Entry} (read : entryOf msg = some e) : e.bytes = msg :=
  fieldOf_cuts.all_bytes read

theorem entryOf_append {front back : Entry} {msg : Bytes} (read : entryOf msg = some (front ++ back))
    (whole : back ≠ []) {more : Bytes} {others : Entry} (next : entryOf more = some others) :
    entryOf (Entry.bytes front ++ more) = some (front ++ others) := by
  induction front generalizing msg with
  | nil => exact next
  | cons f front ih =>
    obtain ⟨rest, found, inner⟩ := fieldOf_cuts.all_cons_some read
    have some_ : rest ≠ [] := by
      rintro rfl
      have empty : front ++ back = [] := (Option.some.inj inner).symm
      exact whole (List.append_eq_nil_iff.mp empty).2
    have first_ := (fieldOf_eq found).2
    have behind : entryOf (Entry.bytes front ++ more) = some (front ++ others) := ih inner
    rw [Entry.bytes, List.flatMap_cons, List.append_assoc, entryOf,
      fieldOf_cuts.all_cons (List.append_ne_nil_of_left_ne_nil first_ _), fieldOf_append found some_,
      Option.bind_some]
    exact congrArg (Option.map (f :: ·)) behind

/-- What the code keeps of a field that starts at `pos`. -/
def Field.apply (f : Field) (pos : Nat) (fields : PagemapEntryFields) : PagemapEntryFields :=
  if Varint.value f.tag % 8 = 0 then
    applyPagemapEntryField fields (Varint.value f.tag / 8) (Varint.value f.body) (pos + f.tag.length)
      (pos + f.tag.length + f.body.length)
  else fields

def Entry.apply : Entry → Nat → PagemapEntryFields → PagemapEntryFields
  | [], _, fields => fields
  | f :: fs, pos, fields => Entry.apply fs (pos + f.bytes.length) (f.apply pos fields)

theorem skipField_unsupported {buf : Bytes} {pos wireType : Nat} (not0 : wireType ≠ 0)
    (not1 : wireType ≠ 1) (not2 : wireType ≠ 2) (not5 : wireType ≠ 5) :
    skipField buf pos wireType = fail ("protobuf: unsupported wire type " ++ toString wireType) := by
  unfold skipField
  split
  · exact absurd rfl not0
  · exact absurd rfl not1
  · exact absurd rfl not2
  · exact absurd rfl not5
  · rfl

theorem skipField_bodyOf (front bs : Bytes) (wireType : Nat) :
    match bodyOf wireType bs with
    | some (body, rest) => ∃ next, skipField (front ++ bs) front.length wireType = .ok next ∧
        front.length + body.length ≤ next ∧ (rest ≠ [] → next = front.length + body.length)
    | none => ∃ t, skipField (front ++ bs) front.length wireType = .error t := by
  have cut : ∀ n (xs : Bytes), (xs.take n).length ≤ n ∧ (xs.drop n ≠ [] → n = (xs.take n).length) :=
    fun n xs => ⟨List.length_take_le n xs, fun some_ => by
      rw [Ne, List.drop_eq_nil_iff, Nat.not_le] at some_
      exact (List.length_take_of_le (Nat.le_of_lt some_)).symm⟩
  have read := readVarint_split front bs
  unfold bodyOf
  split
  · rename_i found
    split at found
    · rw [found] at read
      dsimp only at read
      refine ⟨_, ?_, Nat.le_refl _, fun _ => rfl⟩
      unfold skipField
      rw [read]
      rfl
    · cases found
      exact ⟨_, rfl, Nat.add_le_add_left (cut 8 bs).1 _, fun some_ => by rw [← (cut 8 bs).2 some_]⟩
    · obtain ⟨⟨len, more⟩, inner, same⟩ := Option.map_eq_some_iff.mp found
      cases same
      rw [inner] at read
      dsimp only at read
      have bound := cut (Varint.value len) more
      refine ⟨front.length + len.length + Varint.value len, ?_, ?_, fun some_ => ?_⟩
      · unfold skipField
        rw [read]
        rfl
      · rw [List.length_append]
        omega
      · have whole := bound.2 some_
        rw [List.length_append]
        omega
    · cases found
      exact ⟨_, rfl, Nat.add_le_add_left (cut 4 bs).1 _, fun some_ => by rw [← (cut 4 bs).2 some_]⟩
    · exact nomatch found
  · rename_i found
    split at found
    · rw [found] at read
      obtain ⟨t, read⟩ := read
      exact ⟨t, by unfold skipField; rw [read]; rfl⟩
    · exact nomatch found
    · rw [Option.map_eq_none_iff] at found
      rw [found] at read
      obtain ⟨t, read⟩ := read
      exact ⟨t, by unfold skipField; rw [read]; rfl⟩
    · exact nomatch found
    · rename_i not0 not1 not2 not5
      exact ⟨_, skipField_unsupported not0 not1 not2 not5⟩

theorem readPagemapEntryField_fieldOf (front bs : Bytes) (fields : PagemapEntryFields) :
    match fieldOf bs with
    | some (f, rest) => ∃ next, readPagemapEntryField (front ++ bs) front.length fields =
        .ok (next, f.apply front.length fields) ∧
        front.length + f.bytes.length ≤ next ∧ (rest ≠ [] → next = front.length + f.bytes.length)
    | none => ∃ t, readPagemapEntryField (front ++ bs) front.length fields = .error t := by
  have wire : ∀ n : Nat, n &&& 0x7 = n % 8 := fun n => Nat.and_two_pow_sub_one_eq_mod n 3
  have name : ∀ n : Nat, n >>> 3 = n / 8 := fun n => Nat.shiftRight_eq_div_pow n 3
  have tagged := readVarint_split front bs
  unfold fieldOf readPagemapEntryField
  cases first : Varint.split 10 bs with
  | none =>
    rw [first] at tagged
    obtain ⟨t, tagged⟩ := tagged
    exact ⟨t, by rw [tagged]; rfl⟩
  | some found =>
    obtain ⟨tag, behind⟩ := found
    rw [first] at tagged
    obtain ⟨rfl, -, -⟩ := Varint.split_eq first
    dsimp only at tagged
    rw [tagged, ← List.append_assoc, ← List.length_append]
    dsimp only [Option.bind_some, bind, Except.bind]
    rw [wire, name]
    have skipped := skipField_bodyOf (front ++ tag) behind (Varint.value tag % 8)
    by_cases number : Varint.value tag % 8 = 0
    · have read := readVarint_split (front ++ tag) behind
      rw [if_neg (by rw [number]; decide)]
      rw [number] at skipped ⊢
      cases inner : Varint.split 10 behind with
      | none =>
        rw [inner] at read
        obtain ⟨t, read⟩ := read
        rw [show bodyOf 0 behind = none from inner, Option.map_none]
        exact ⟨t, by rw [read]⟩
      | some found =>
        obtain ⟨body, rest⟩ := found
        rw [inner] at read
        rw [show bodyOf 0 behind = some (body, rest) from inner, Option.map_some]
        refine ⟨(front ++ tag).length + body.length, ?_, ?_, fun _ => ?_⟩
        · rw [read, Field.apply]
          dsimp only
          rw [if_pos number, List.length_append]
          rfl
        · rw [Field.bytes, List.length_append, List.length_append]
          dsimp only
          omega
        · rw [Field.bytes, List.length_append, List.length_append]
          dsimp only
          omega
    · rw [if_pos number]
      cases inner : bodyOf (Varint.value tag % 8) behind with
      | none =>
        rw [inner] at skipped
        obtain ⟨t, skipped⟩ := skipped
        exact ⟨t, by rw [skipped]⟩
      | some found =>
        obtain ⟨body, rest⟩ := found
        rw [inner] at skipped
        obtain ⟨next, skipped, low, whole⟩ := skipped
        rw [List.length_append] at low whole
        refine ⟨next, ?_, ?_, fun some_ => ?_⟩
        · rw [skipped, Field.apply]
          dsimp only
          rw [if_neg number]
          rfl
        · rw [Field.bytes, List.length_append]
          dsimp only
          omega
        · rw [Field.bytes, List.length_append, whole some_]
          dsimp only
          omega

theorem parseFieldsFrom_entryOf (front bs : Bytes) (turns pos : Nat) (fields : PagemapEntryFields)
    (enough : bs.length ≤ turns) (low : front.length ≤ pos) (here : bs ≠ [] → pos = front.length) :
    match entryOf bs with
    | some e => parseFieldsFrom (front ++ bs) turns pos fields = .ok (e.apply front.length fields)
    | none => ∃ t, parseFieldsFrom (front ++ bs) turns pos fields = .error t := by
  induction turns generalizing front bs pos fields with
  | zero =>
    obtain rfl := List.eq_nil_of_length_eq_zero (Nat.le_zero.mp enough)
    rfl
  | succ turns ih =>
    by_cases none_ : bs = []
    · subst none_
      rw [parseFieldsFrom, List.append_nil, if_neg (by omega)]
      rfl
    have positive := List.length_pos_iff.mpr none_
    obtain rfl := here none_
    have read := readPagemapEntryField_fieldOf front bs fields
    rw [parseFieldsFrom, if_pos (by rw [List.length_append]; omega), entryOf, fieldOf_cuts.all_cons none_]
    cases found : fieldOf bs with
    | none =>
      rw [found] at read
      obtain ⟨t, read⟩ := read
      exact ⟨t, by rw [read]; rfl⟩
    | some first =>
      obtain ⟨f, rest⟩ := first
      rw [found] at read
      obtain ⟨next, read, beyond, whole⟩ := read
      obtain ⟨rfl, some_⟩ := fieldOf_eq found
      have first_ := List.length_pos_iff.mpr some_
      rw [List.length_append] at enough
      rw [read, Option.bind_some]
      dsimp only [bind, Except.bind]
      have later := ih (front ++ f.bytes) rest next (f.apply front.length fields) (by omega)
        (by rw [List.length_append]; exact beyond) (by rw [List.length_append]; exact whole)
      rw [List.append_assoc, List.length_append] at later
      rw [entryOf] at later
      cases inner : Pieces.all fieldOf rest with
      | none =>
        rw [inner] at later
        exact later
      | some fs =>
        rw [inner] at later
        exact later

theorem parsePagemapEntryFields_entryOf (msg : Bytes) :
    match entryOf msg with
    | some e => parsePagemapEntryFields msg = .ok (e.apply 0 {})
    | none => ∃ t, parsePagemapEntryFields msg = .error t :=
  parseFieldsFrom_entryOf [] msg msg.length 0 {} (Nat.le_refl _) (Nat.le_refl _) fun _ => rfl

end Machinen.Runtime.LazyPagemap
