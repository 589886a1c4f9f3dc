import Machinen.Terminal.Renditions

/-! Select graphic rendition with several items in one control sequence. An item is read as it
is by itself, unless it is a colour in colons without the slot of the colour space and more
parameters follow: the parser takes the red for that slot. -/
namespace Machinen.Vt

open Builder

inductive ColorForm where
  | semicolons
  | colons
  | colonSpace (space : Option UInt16)

/-- The codes of a single style, and whether they set it. -/
def styleCodes : List (Nat × Attribute × Bool) :=
  [(1, .bold, true), (2, .faint, true), (3, .italic, true), (4, .underline, true), (5, .blink, true),
    (6, .blink, true), (7, .inverse, true), (8, .hidden, true), (9, .strikethrough, true),
    (21, .underline, true),
    (22, .bold, false), (23, .italic, false), (24, .underline, false), (25, .blink, false),
    (27, .inverse, false),
    (28, .hidden, false), (29, .strikethrough, false), (53, .overline, true), (55, .overline, false)]

/-- A code that stands alone: a reset, a style, or one of the sixteen colours or the default. -/
def isCode (code : Nat) : Prop :=
  code = 0 ∨ code ∈ styleCodes.map Prod.fst ∨ 30 ≤ code ∧ code ≤ 37 ∨ 90 ≤ code ∧ code ≤ 97 ∨ code = 39 ∨
    40 ≤ code ∧ code ≤ 47 ∨ 100 ≤ code ∧ code ≤ 107 ∨ code = 49 ∨ code = 59

instance (code : Nat) : Decidable (isCode code) := inferInstanceAs (Decidable (_ ∨ _))

/-- An item of a sequence. The styles of an underline in colons are left out: whichever follows, the
parser sets the underline and skips it. -/
inductive SgrItem where
  | code (value : Nat) (known : isCode value)
  | indexed (target : ColorTarget) (colons : Bool) (index : UInt8)
  | rgb (target : ColorTarget) (form : ColorForm) (red green blue : UInt8)

namespace SgrItem

def first : SgrItem → Nat
  | code value _ => value
  | indexed target _ _ => extendedCode target
  | rgb target _ _ _ _ => extendedCode target

def separator : SgrItem → UInt8
  | indexed _ true _ | rgb _ .colons _ _ _ | rgb _ (.colonSpace _) _ _ _ => 0x3a
  | _ => 0x3b

/-- The numbers after the first one; the slot of the colour space may be empty. -/
def arguments : SgrItem → List (Option Nat)
  | code _ _ => []
  | indexed _ _ index => [some 5, some index.toNat]
  | rgb _ (.colonSpace space) red green blue =>
    [some 2, space.map UInt16.toNat, some red.toNat, some green.toNat, some blue.toNat]
  | rgb _ _ red green blue => [some 2, some red.toNat, some green.toNat, some blue.toNat]

def bytes (item : SgrItem) : Bytes :=
  decimal item.first ++ item.arguments.flatMap fun number => item.separator :: number.elim [] decimal

def bare : SgrItem → Bool
  | rgb _ .colons _ _ _ => true
  | _ => false

def apply : SgrItem → Rendition → Rendition
  | code value _, rendition => applyCode value rendition
  | indexed target _ index, rendition => rendition.setColor target (.indexed index)
  | rgb target _ red green blue, rendition => rendition.setColor target (.rgb red green blue)

end SgrItem

def sgr (items : List SgrItem) : Bytes :=
  [0x1b, 0x5b] ++ List.intercalate [0x3b] (items.map SgrItem.bytes) ++ [0x6d]

/-- Only the last item may be a colour in colons without the slot. -/
def Spaced : List SgrItem → Prop
  | [] => True
  | item :: rest => (item.bare = true → rest = []) ∧ Spaced rest

abbrev Entry := UInt8 × Option Nat

def Entry.bytes (entry : Entry) : Bytes := entry.1 :: entry.2.elim [] decimal

def Entry.value (entry : Entry) : Nat := min (entry.2.getD 0) maxParameter

def Builder.push (b : Builder) (entry : Entry) : Builder :=
  { b with
    params := Function.update b.params b.paramCount entry.value
    paramSeparators := Function.update b.paramSeparators b.paramCount entry.1
    paramCount := b.paramCount + 1 }

/-- The builder has read some entries, the separator of the first one apart. -/
structure Builder.Holds (b : Builder) (entries : List Entry) : Prop where
  count : b.paramCount = entries.length
  param : ∀ index entry, entries[index]? = some entry → b.params index = entry.value
  separator : ∀ index entry, entries[index]? = some entry → 0 < index → b.paramSeparators index = entry.1
  fresh : ∀ index, entries.length ≤ index → b.params index = 0

def Entry.Separated (entry : Entry) : Prop := entry.1 = 0x3b ∨ entry.1 = 0x3a

section Entries

variable {b : Builder} {entries : List Entry}

theorem number_read (number : Option Nat) :
    readNumber 0 (number.elim [] decimal) = min (number.getD 0) maxParameter := by
  cases number with
  | none => rfl
  | some number => exact readNumber_decimal number

theorem number_digits (number : Option Nat) : ∀ digit ∈ number.elim [] decimal, isDigit digit = true := by
  cases number with
  | none => exact nofun
  | some number => exact decimal_digits number

theorem feed_entry (csi : b.state = .csi) (holds : b.Holds entries) {entry : Entry} (separated : entry.Separated)
    (room : entries.length < maxParams) : b.feed entry.bytes = some (b.push entry) := by
  have free : b.params b.paramCount = 0 := holds.fresh _ (Nat.le_of_eq holds.count.symm)
  have begun : b.feedByte entry.1 = some { b with
      paramSeparators := Function.update b.paramSeparators b.paramCount entry.1
      paramCount := b.paramCount + 1 } := by
    have digit : isDigit entry.1 = false := by
      rcases separated with same | same <;> rw [same] <;> rfl
    simp only [feedByte, csi, feedCsi, digit]
    rw [if_neg (by decide), if_pos (show entry.1 = 0x3b ∨ entry.1 = 0x3a from separated),
      if_pos (holds.count ▸ room)]
  rw [Entry.bytes, feed_cons, begun, Option.bind_some,
    feed_digits (by exact csi) (number_digits entry.2)]
  simp only [Nat.add_sub_cancel, free, number_read]
  rfl

theorem Builder.Holds.push (holds : b.Holds entries) (entry : Entry) :
    (b.push entry).Holds (entries ++ [entry]) where
  count := by
    rw [List.length_append, List.length_singleton, ← holds.count]
    rfl
  param index other listed := by
    unfold Builder.push
    dsimp only
    by_cases last : index = b.paramCount
    · rw [last, holds.count, List.getElem?_append_right (Nat.le_refl _), Nat.sub_self] at listed
      cases listed
      rw [last, Function.update_self]
    · rw [Function.update_of_ne last]
      have inside := (List.getElem?_eq_some_iff.mp listed).1
      rw [List.length_append, List.length_singleton, ← holds.count] at inside
      rw [List.getElem?_append_left (by rw [← holds.count]; omega)] at listed
      exact holds.param index other listed
  separator index other listed behind := by
    unfold Builder.push
    dsimp only
    by_cases last : index = b.paramCount
    · rw [last, holds.count, List.getElem?_append_right (Nat.le_refl _), Nat.sub_self] at listed
      cases listed
      rw [last, Function.update_self]
    · rw [Function.update_of_ne last]
      have inside := (List.getElem?_eq_some_iff.mp listed).1
      rw [List.length_append, List.length_singleton, ← holds.count] at inside
      rw [List.getElem?_append_left (by rw [← holds.count]; omega)] at listed
      exact holds.separator index other listed behind
  fresh index beyond := by
    rw [List.length_append, List.length_singleton, ← holds.count] at beyond
    unfold Builder.push
    dsimp only
    rw [Function.update_of_ne (by omega)]
    exact holds.fresh index (by rw [← holds.count]; omega)

theorem feed_entries (csi : b.state = .csi) (holds : b.Holds entries) {more : List Entry}
    (small : ∀ entry ∈ more, entry.Separated) (room : entries.length + more.length ≤ maxParams) :
    b.feed (more.flatMap Entry.bytes) = some (more.foldl Builder.push b) ∧
      (more.foldl Builder.push b).Holds (entries ++ more) := by
  induction more generalizing b entries with
  | nil => exact ⟨rfl, (List.append_nil entries).symm ▸ holds⟩
  | cons entry rest ih =>
    rw [List.length_cons] at room
    have first := feed_entry csi holds (small entry List.mem_cons_self) (by omega)
    obtain ⟨fed, held⟩ := ih (b := b.push entry) csi (holds.push entry)
      (fun other listed => small other (List.mem_cons_of_mem _ listed))
      (by rw [List.length_append, List.length_singleton]; omega)
    rw [List.flatMap_cons, feed_append, first, Option.bind_some, List.append_cons]
    exact ⟨fed, held⟩

end Entries

/-- The entries of an item; the separator of the first one stands before the item. -/
def SgrItem.entries (item : SgrItem) : List Entry :=
  (0x3b, some item.first) :: item.arguments.map fun number => (item.separator, number)

theorem SgrItem.entries_bytes (item : SgrItem) : item.entries.flatMap Entry.bytes = 0x3b :: item.bytes := by
  unfold entries bytes
  rw [List.flatMap_cons, List.flatMap_map]
  rfl

theorem SgrItem.entries_length (item : SgrItem) : item.entries.length = 1 + item.arguments.length := by
  unfold entries
  rw [List.length_cons, List.length_map, Nat.add_comm]

theorem isCode_alone {value : Nat} (known : isCode value) : colorTarget value = none ∧ value ≤ 107 := by
  have small : ∀ code ∈ styleCodes.map Prod.fst, colorTarget code = none ∧ code ≤ 107 := by decide
  rcases known with rfl | style | known
  · decide
  · exact small value style
  · refine ⟨?_, by omega⟩
    unfold colorTarget
    split <;> first | omega | rfl

theorem SgrItem.entries_separated (item : SgrItem) : ∀ entry ∈ item.entries, entry.Separated := by
  refine List.forall_mem_cons.mpr ⟨.inl rfl, fun entry listed => ?_⟩
  obtain ⟨number, -, rfl⟩ := List.mem_map.mp listed
  unfold Entry.Separated separator
  dsimp only
  split <;> simp

theorem value_byte (separator : UInt8) (part : UInt8) : Entry.value (separator, some part.toNat) = part.toNat := by
  have := part.toNat_lt
  unfold Entry.value maxParameter maxU16
  dsimp only [Option.getD_some]
  omega

theorem SgrItem.value_first (item : SgrItem) (separator : UInt8) :
    Entry.value (separator, some item.first) = item.first := by
  have extended : ∀ target : ColorTarget, extendedCode target ≤ 107 := by
    intro target
    cases target <;> decide
  have small : item.first ≤ 107 := by
    cases item with
    | code value known => exact (isCode_alone known).2
    | indexed target _ _ => exact extended target
    | rgb target _ _ _ _ => exact extended target
  unfold Entry.value maxParameter maxU16
  dsimp only [Option.getD_some]
  omega

section Items

variable {b : Builder} {all : List Entry} {index : Nat} {rendition : Rendition} {P : Rendition → Prop}

theorem Ends.item (holds : b.Holds all) (item : SgrItem)
    (here : ∀ k entry, item.entries[k]? = some entry → all[index + k]? = some entry)
    (next : ∀ entry, all[index + item.entries.length]? = some entry → entry.1 = 0x3b)
    (spaced : item.bare = true → all.length = index + item.entries.length)
    (rest : Ends b (index + item.entries.length) (item.apply rendition) P) : Ends b index rendition P := by
  have param : ∀ k entry, item.entries[k]? = some entry → b.params (index + k) = entry.value :=
    fun k entry listed => holds.param _ entry (here k entry listed)
  have first : b.params index = item.first := (param 0 _ rfl).trans (item.value_first _)
  have byte : ∀ k separator (part : UInt8), item.entries[k]? = some (separator, some part.toNat) →
    b.params (index + k) = part.toNat :=
    fun k separator part listed => (param k _ listed).trans (value_byte separator part)
  have separator : ∀ k entry, item.entries[k + 1]? = some entry →
    b.paramSeparators (index + (k + 1)) = entry.1 :=
    fun k entry listed => holds.separator _ entry (here (k + 1) entry listed) (Nat.succ_pos _)
  have bound : ∀ k entry, item.entries[k]? = some entry → index + k < b.paramCount :=
    fun k entry listed => holds.count ▸ (List.getElem?_eq_some_iff.mp (here k entry listed)).1
  cases item with
  | code value known =>
    have plain : b.paramSeparators (index + 1) ≠ 0x3a ∨ b.paramCount ≤ index + 1 := by
      by_cases more : index + 1 < all.length
      · have entry := List.getElem?_eq_getElem more
        rw [holds.separator _ _ entry (Nat.succ_pos _), next _ entry]
        exact .inl (by decide)
      · exact .inr (by rw [holds.count]; omega)
    refine Ends.step index (bound 0 _ rfl) ?_ (Nat.le_refl _) rest
    have same : b.params index = value := first
    simp only [applyParameter, same, (isCode_alone known).1]
    rw [if_neg (by rintro ⟨-, inside, colon⟩; exact plain.elim (· colon) fun less => by omega)]
    rfl
  | indexed target colons palette =>
    have two : b.params (index + 2) = palette.toNat := byte 2 _ palette rfl
    refine Ends.extended (bound 2 _ rfl) first (param 1 _ rfl) ?_
    rw [two, indexedColor_toNat]
    exact rest
  | rgb target form red green blue =>
    cases form with
    | semicolons =>
      have colon : b.paramSeparators (index + 1) = 0x3b := separator 0 _ rfl
      have two : b.params (index + 0 + 2) = red.toNat := byte 2 _ red rfl
      have three : b.params (index + 0 + 3) = green.toNat := byte 3 _ green rfl
      have four : b.params (index + 0 + 4) = blue.toNat := byte 4 _ blue rfl
      refine Ends.rgb (if_neg fun both => absurd (colon.symm.trans both.1) (by decide)) (bound 4 _ rfl)
        first (param 1 _ rfl) ?_
      rw [two, three, four, rgbColor_toNat]
      exact rest
    | colons =>
      have length : b.paramCount = index + 5 := holds.count.trans (spaced rfl)
      have two : b.params (index + 0 + 2) = red.toNat := byte 2 _ red rfl
      have three : b.params (index + 0 + 3) = green.toNat := byte 3 _ green rfl
      have four : b.params (index + 0 + 4) = blue.toNat := byte 4 _ blue rfl
      refine Ends.rgb (if_neg fun both => absurd both.2 (by omega)) (bound 4 _ rfl) first
        (param 1 _ rfl) ?_
      rw [two, three, four, rgbColor_toNat]
      exact rest
    | colonSpace space =>
      have colon : b.paramSeparators (index + 1) = 0x3a := separator 0 _ rfl
      have room : index + 5 < b.paramCount := bound 5 _ rfl
      have three : b.params (index + 1 + 2) = red.toNat := byte 3 _ red rfl
      have four : b.params (index + 1 + 3) = green.toNat := byte 4 _ green rfl
      have five : b.params (index + 1 + 4) = blue.toNat := byte 5 _ blue rfl
      refine Ends.rgb (if_pos ⟨colon, by omega⟩) (bound 5 _ rfl) first (param 1 _ rfl) ?_
      rw [three, four, five, rgbColor_toNat]
      exact rest

theorem Ends.items (before : List Entry) (items : List SgrItem)
    (holds : b.Holds (before ++ items.flatMap SgrItem.entries)) (spaced : Spaced items)
    (now : P (items.foldl (fun rendition item => item.apply rendition) rendition)) :
    Ends b before.length rendition P := by
  induction items generalizing before rendition with
  | nil =>
    rw [List.flatMap_nil, List.append_nil] at holds
    exact Ends.done (Nat.le_of_eq holds.count) now
  | cons item rest ih =>
    rw [List.flatMap_cons] at holds
    refine Ends.item holds item (fun k entry listed => ?_) (fun entry listed => ?_) (fun bare => ?_) ?_
    · have inside := (List.getElem?_eq_some_iff.mp listed).1
      rw [List.getElem?_append_right (Nat.le_add_right _ _), Nat.add_sub_cancel_left,
        List.getElem?_append_left inside]
      exact listed
    · rw [List.getElem?_append_right (Nat.le_add_right _ _), Nat.add_sub_cancel_left,
        List.getElem?_append_right (Nat.le_refl _), Nat.sub_self] at listed
      cases rest with
      | nil => exact nomatch listed
      | cons other rest => exact Option.some.inj listed ▸ rfl
    · rw [spaced.1 bare, List.flatMap_nil, List.append_nil, List.length_append]
    · rw [← List.append_assoc] at holds
      have later := ih (before ++ item.entries) holds spaced.2 now
      rwa [List.length_append] at later

end Items

def Builder.settled (b : Builder) : Builder :=
  { b with params := fun _ => 0, paramSeparators := fun _ => 0, paramCount := 1, csiPrivate := false }

def Builder.rendered (b : Builder) (rendition : Rendition) : Builder :=
  { b.settled with utf8Remaining := 0, lastCell := none, rendition }

/-- One sequence with all the items does the same as one for each of them. -/
def Composes (items : List SgrItem) : Prop :=
  ∀ b : Builder, b.state = .ground →
    (b.feed (sgr items)).map settled = (b.feed (items.flatMap fun item => sgr [item])).map settled

theorem joined_bytes (item : SgrItem) (rest : List SgrItem) :
    List.intercalate [0x3b] ((item :: rest).map SgrItem.bytes) =
      item.bytes ++ rest.flatMap fun other => 0x3b :: other.bytes := by
  induction rest generalizing item with
  | nil => simp [List.intercalate]
  | cons other rest ih =>
    have next := ih other
    unfold List.intercalate at next ⊢
    rw [List.map_cons, List.map_cons, List.intersperse_cons_cons, List.flatten_cons, List.flatten_cons,
      ← List.map_cons, next]
    simp

theorem pushes_same (more : List Entry) {b c : Builder} (params : c.params = b.params)
    (separators : c.paramSeparators = b.paramSeparators) (count : c.paramCount = b.paramCount) :
    more.foldl Builder.push b = { b with
      params := (more.foldl Builder.push c).params
      paramSeparators := (more.foldl Builder.push c).paramSeparators
      paramCount := (more.foldl Builder.push c).paramCount } := by
  induction more generalizing b c with
  | nil =>
    rw [List.foldl_nil, List.foldl_nil, params, separators, count]
  | cons entry rest ih =>
    refine (ih (b := b.push entry) (c := c.push entry) ?_ ?_ ?_).trans rfl
    · unfold Builder.push
      rw [params, count]
    · unfold Builder.push
      rw [separators, count]
    · unfold Builder.push
      rw [count]

/-- A builder that has read the first number of a sequence. -/
def Builder.begun (b : Builder) (first : Nat) : Builder :=
  { b with
    state := .csi
    utf8Remaining := 0
    lastCell := none
    params := Function.update (fun _ => 0) 0 first
    paramSeparators := fun _ => 0
    paramCount := 1
    csiPrivate := false }

theorem begun_holds (b : Builder) (item : SgrItem) : (b.begun item.first).Holds [(0x3b, some item.first)] where
  count := rfl
  param index entry listed := by
    cases index with
    | zero =>
      cases listed
      exact (Function.update_self 0 item.first fun _ => 0).trans (item.value_first _).symm
    | succ index => exact nomatch listed
  separator index entry listed behind := by
    cases index with
    | zero => exact absurd behind (Nat.lt_irrefl 0)
    | succ index => exact nomatch listed
  fresh index beyond := by
    have behind : 0 < index := beyond
    exact Function.update_of_ne (Nat.ne_of_gt behind) item.first fun _ => 0

/-- The entries of some items after the first number. -/
def moreEntries (item : SgrItem) (rest : List SgrItem) : List Entry :=
  (item.arguments.map fun number => (item.separator, number)) ++ rest.flatMap SgrItem.entries

def held (item : SgrItem) (rest : List SgrItem) : Builder :=
  (moreEntries item rest).foldl Builder.push
    (begun { cells := [], inactiveCells := [], rows := 1, columns := 1 } item.first)

theorem sgr_bytes (item : SgrItem) (rest : List SgrItem) :
    sgr (item :: rest) = [0x1b, 0x5b] ++ (decimal item.first ++
      ((moreEntries item rest).flatMap Entry.bytes ++ [0x6d])) := by
  unfold sgr moreEntries
  rw [joined_bytes, List.flatMap_append, List.flatMap_map, List.flatMap_assoc]
  simp only [SgrItem.entries_bytes, SgrItem.bytes, List.append_assoc]
  rfl

theorem feed_number {b : Builder} (ground : b.state = .ground) (item : SgrItem) (more : Bytes) :
    b.feed ([0x1b, 0x5b] ++ (decimal item.first ++ more)) = (b.begun item.first).feed more := by
  have digits : ∀ digit ∈ decimal item.first, isDigit digit = true := decimal_digits _
  have read : readNumber 0 (decimal item.first) = item.first :=
    (readNumber_decimal _).trans (item.value_first 0x3b)
  rw [feed_append, feed_introducer ground, Option.bind_some, feed_append, feed_digits rfl digits,
    Option.bind_some]
  dsimp only
  rw [read]
  rfl

theorem feed_sgr (item : SgrItem) (rest : List SgrItem)
    (fits : ((item :: rest).flatMap SgrItem.entries).length ≤ maxParams) :
    (held item rest).Holds ((item :: rest).flatMap SgrItem.entries) ∧
      ∀ b : Builder, b.state = .ground → (b.feed (sgr (item :: rest))).map settled =
        some (b.rendered ((held item rest).applyFrom (held item rest).paramCount 0 b.rendition)) := by
  have whole : (item :: rest).flatMap SgrItem.entries =
    [(0x3b, some item.first)] ++ moreEntries item rest := by
    rw [List.flatMap_cons]
    rfl
  have separated : ∀ entry ∈ (item :: rest).flatMap SgrItem.entries, entry.Separated := by
    intro entry listed
    obtain ⟨other, -, inside⟩ := List.mem_flatMap.mp listed
    exact other.entries_separated entry inside
  rw [whole] at fits separated ⊢
  rw [List.length_append] at fits
  have more : ∀ entry ∈ moreEntries item rest, Entry.Separated entry :=
    fun entry listed => separated entry (List.mem_append_right _ listed)
  refine ⟨(feed_entries rfl (begun_holds _ item) more fits).2, fun b ground => ?_⟩
  have pushed : (moreEntries item rest).foldl Builder.push (b.begun item.first) = { b.begun item.first with
      params := (held item rest).params
      paramSeparators := (held item rest).paramSeparators
      paramCount := (held item rest).paramCount } := pushes_same _ rfl rfl rfl
  have applied : applyFrom { b.begun item.first with
      params := (held item rest).params
      paramSeparators := (held item rest).paramSeparators
      paramCount := (held item rest).paramCount } (held item rest).paramCount 0 b.rendition =
        (held item rest).applyFrom (held item rest).paramCount 0 b.rendition := by
    apply applyFrom_congr <;> rfl
  rw [sgr_bytes, feed_number ground item, feed_append,
    (feed_entries rfl (begun_holds b item) more fits).1,
    Option.bind_some, pushed, feed_final rfl (by decide) (by decide), ← applied]
  unfold rendered settled
  rw [ground]
  rfl

theorem SgrItem.arguments_few (item : SgrItem) : item.arguments.length ≤ 5 := by
  cases item with
  | code value known => exact Nat.zero_le 5
  | indexed target colons index => exact Nat.le_of_ble_eq_true rfl
  | rgb target form red green blue => cases form <;> exact Nat.le_of_ble_eq_true rfl

theorem SgrItem.short (item : SgrItem) : ([item].flatMap SgrItem.entries).length ≤ maxParams := by
  have few := item.arguments_few
  rw [List.flatMap_singleton, SgrItem.entries_length]
  unfold maxParams
  omega

/-- What the items of a list do one after the other. -/
def applyAll (items : List SgrItem) (rendition : Rendition) : Rendition :=
  items.foldl (fun rendition item => item.apply rendition) rendition

theorem spaced_reads {item : SgrItem} {rest : List SgrItem}
    (fits : ((item :: rest).flatMap SgrItem.entries).length ≤ maxParams) (spaced : Spaced (item :: rest))
    {b : Builder} (ground : b.state = .ground) :
    (b.feed (sgr (item :: rest))).map settled =
      some (b.rendered (applyAll (item :: rest) b.rendition)) := by
  obtain ⟨holds, fed⟩ := feed_sgr item rest fits
  have ends : Ends (held item rest) 0 b.rendition (· = applyAll (item :: rest) b.rendition) :=
    Ends.items [] (item :: rest) holds spaced rfl
  rw [fed b ground, ends _ (Nat.le_refl _)]

theorem each_reads (items : List SgrItem) {b : Builder} {c : Builder} {rendition : Rendition}
    (ground : c.state = .ground) (reached : c.settled = b.rendered rendition) :
    (c.feed (items.flatMap fun item => sgr [item])).map settled =
      some (b.rendered (applyAll items rendition)) := by
  induction items generalizing c rendition with
  | nil => exact congrArg some reached
  | cons item rest ih =>
    have active : c.rendition = rendition := congrArg Builder.rendition reached
    have single := spaced_reads item.short ⟨fun _ => rfl, trivial⟩ ground
    obtain ⟨d, fed, settles⟩ := Option.map_eq_some_iff.mp single
    have next : d.settled = b.rendered (item.apply rendition) := by
      have same : c.rendered (applyAll [item] c.rendition) = c.settled.rendered (item.apply c.rendition) :=
        rfl
      rw [settles, same, reached, active]
      rfl
    have still : d.state = .ground := (congrArg Builder.state settles).trans ground
    rw [List.flatMap_cons, feed_append, fed, Option.bind_some]
    exact ih still next

theorem spaced_composes {items : List SgrItem} (some_ : items ≠ [])
    (fits : (items.flatMap SgrItem.entries).length ≤ maxParams)
    (spaced : Spaced items) : Composes items := by
  intro b ground
  cases items with
  | nil => exact absurd rfl some_
  | cons item rest =>
    have single := spaced_reads item.short ⟨fun _ => rfl, trivial⟩ ground
    obtain ⟨c, fed, settles⟩ := Option.map_eq_some_iff.mp single
    have still : c.state = .ground := (congrArg Builder.state settles).trans ground
    rw [spaced_reads fits spaced ground, List.flatMap_cons, feed_append, fed, Option.bind_some]
    exact (each_reads rest still settles).symm

def Rendition.color (rendition : Rendition) : ColorTarget → Color
  | .foreground => rendition.foreground
  | .background => rendition.background
  | .underline => rendition.underlineColor

def Color.isRgb : Color → Bool
  | .rgb _ _ _ => true
  | _ => false

theorem setColor_color (rendition : Rendition) (target other : ColorTarget) (color : Color) :
    (rendition.setColor target color).color other = if other =
      target then color else rendition.color other := by
  cases target <;> cases other <;> rfl

theorem setColor_attributes (rendition : Rendition) (target : ColorTarget) (color : Color) :
    (rendition.setColor target color).attributes = rendition.attributes := by
  cases target <;> rfl

theorem isCode_tells {value : Nat} (known : isCode value) :
    (∃ style on, ∀ rendition, (applyCode value rendition).attributes style = on) ∨
      ∃ target, ∀ rendition, ((applyCode value rendition).color target).isRgb = false := by
  rcases known with rfl | style | palette
  · exact .inr ⟨.foreground, fun _ => rfl⟩
  · have table : ∀ entry ∈ styleCodes, ∀ rendition, (applyCode entry.1 rendition).attributes entry.2.1 =
      entry.2.2 := by
      simp only [styleCodes, List.forall_mem_cons]
      refine ⟨?_, ?_, ?_, ?_, ?_, ?_, ?_, ?_, ?_, ?_, ?_, ?_, ?_, ?_, ?_, ?_, ?_, ?_, ?_, nofun⟩
        <;> exact fun _ => rfl
    obtain ⟨entry, listed, rfl⟩ := List.mem_map.mp style
    exact .inl ⟨_, _, table entry listed⟩
  · refine .inr ?_
    rcases palette with ⟨low, high⟩ | ⟨low, high⟩ | rfl | ⟨low, high⟩ | ⟨low, high⟩ | rfl | rfl
    · refine ⟨.foreground, fun rendition => ?_⟩
      interval_cases value <;> rfl
    · refine ⟨.foreground, fun rendition => ?_⟩
      interval_cases value <;> rfl
    · exact ⟨.foreground, fun _ => rfl⟩
    · refine ⟨.background, fun rendition => ?_⟩
      interval_cases value <;> rfl
    · refine ⟨.background, fun rendition => ?_⟩
      interval_cases value <;> rfl
    · exact ⟨.background, fun _ => rfl⟩
    · exact ⟨.underline, fun _ => rfl⟩

theorem composes_reads {item : SgrItem} {rest : List SgrItem} (composes : Composes (item :: rest))
    (fits : ((item :: rest).flatMap SgrItem.entries).length ≤ maxParams) (rendition : Rendition) :
    (held item rest).applyFrom (held item rest).paramCount 0 rendition =
      applyAll (item :: rest) rendition := by
  let b : Builder := { cells := [], inactiveCells := [], rows := 1, columns := 1, rendition }
  have joined := (feed_sgr item rest fits).2 b rfl
  have single := spaced_reads item.short ⟨fun _ => rfl, trivial⟩ (show b.state = .ground from rfl)
  obtain ⟨c, fed, settles⟩ := Option.map_eq_some_iff.mp single
  have still : c.state = .ground := congrArg Builder.state settles
  have apart := each_reads rest still settles
  have both := composes b rfl
  rw [joined, List.flatMap_cons, feed_append, fed, Option.bind_some, apart] at both
  exact congrArg Builder.rendition (Option.some.inj both)

section Attributes

variable {style : Attribute} {rendition other : Rendition}

theorem applyCode_attributes (same : rendition.attributes style = other.attributes style) (code : Nat) :
    (applyCode code rendition).attributes style = (applyCode code other).attributes style := by
  have set : ∀ changed on {rendition other : Rendition},
    rendition.attributes style = other.attributes style →
      (rendition.set changed on).attributes style = (other.set changed on).attributes style := by
    intro changed on rendition other same
    simp only [Rendition.set, Function.update_apply, same]
  unfold applyCode
  split
  case h_1 => rfl
  case h_12 => exact set _ _ (set _ _ same)
  case h_19 => exact same
  case h_20 => exact same
  case h_23 => exact same
  case h_24 =>
    split
    · exact same
    split
    · exact same
    split
    · exact same
    split
    · exact same
    · exact same
  all_goals exact set _ _ same

theorem applyParameter_attributes (same : rendition.attributes style = other.attributes style) (b : Builder)
    (index : Nat) : (b.applyParameter index rendition).1 = (b.applyParameter index other).1 ∧
      (b.applyParameter index rendition).2.attributes style =
        (b.applyParameter index other).2.attributes style := by
  unfold applyParameter
  dsimp only
  split
  · unfold applyExtendedColor
    dsimp only
    split
    · exact ⟨rfl, same⟩
    split
    · split
      · exact ⟨rfl, same⟩
      · exact ⟨rfl, by rw [setColor_attributes, setColor_attributes, same]⟩
    split
    · exact ⟨rfl, same⟩
    generalize (if b.paramSeparators (index + 1) = 0x3a ∧ b.paramCount - index ≥ 6 then index + 1 + 1 + 1
      else index + 1 + 1) = red
    split
    · exact ⟨rfl, same⟩
    · exact ⟨rfl, by rw [setColor_attributes, setColor_attributes, same]⟩
  · exact ⟨rfl, applyCode_attributes same _⟩

theorem applyFrom_attributes (same : rendition.attributes style = other.attributes style) (b : Builder)
    (fuel index : Nat) :
    (b.applyFrom fuel index rendition).attributes style =
      (b.applyFrom fuel index other).attributes style := by
  induction fuel generalizing index rendition other with
  | zero => exact same
  | succ fuel ih =>
    obtain ⟨used, next⟩ := applyParameter_attributes same b index
    unfold applyFrom
    split
    · generalize b.applyParameter index rendition = turn at used next ⊢
      generalize b.applyParameter index other = turn' at used next ⊢
      obtain ⟨at_, after_⟩ := turn
      obtain ⟨at', after'⟩ := turn'
      cases used
      exact ih next _
    · exact same

end Attributes

section Misread

variable {target : ColorTarget} {red green blue : UInt8} {next : SgrItem}

theorem misread (fits : ([.rgb target .colons red green blue, next].flatMap SgrItem.entries).length ≤
    maxParams) (fuel : Nat) (rendition : Rendition) :
    (held (.rgb target .colons red green blue) [next]).applyFrom (fuel + 1) 0 rendition =
      (held (.rgb target .colons red green blue) [next]).applyFrom fuel 6
        (rendition.setColor target (rgbColor green.toNat blue.toNat next.first)) := by
  obtain ⟨holds, -⟩ := feed_sgr _ _ fits
  have colon : (held (.rgb target .colons red green blue) [next]).paramSeparators 1 = 0x3a :=
    holds.separator 1 _ rfl Nat.one_pos
  have room : 6 ≤ (held (.rgb target .colons red green blue) [next]).paramCount := by
    rw [holds.count]
    exact Nat.le_add_left 6 _
  have zero : (held (.rgb target .colons red green blue) [next]).params 0 = extendedCode target :=
    (holds.param 0 _ rfl).trans (SgrItem.value_first (.rgb target .colons red green blue) _)
  have mode : (held (.rgb target .colons red green blue) [next]).params 1 = 2 := holds.param 1 _ rfl
  have three : (held (.rgb target .colons red green blue) [next]).params (0 + 1 + 2) = green.toNat :=
    (holds.param 3 _ rfl).trans (value_byte _ green)
  have four : (held (.rgb target .colons red green blue) [next]).params (0 + 1 + 3) = blue.toNat :=
    (holds.param 4 _ rfl).trans (value_byte _ blue)
  have five : (held (.rgb target .colons red green blue) [next]).params (0 + 1 + 4) = next.first :=
    (holds.param 5 _ rfl).trans (next.value_first _)
  have slots : (if (held (.rgb target .colons red green blue) [next]).paramSeparators (0 + 1) = 0x3a ∧
      (held (.rgb target .colons red green blue) [next]).paramCount - 0 ≥ 6 then 1 else 0) = 1 :=
    if_pos ⟨colon, room⟩
  have applied := Ends.applyParameter_rgb slots (by omega) zero mode rendition
  rw [three, four, five] at applied
  rw [applyFrom, if_pos (by omega), applied]

theorem misread_style (style : Attribute) {mode : Nat} (small : mode ≤ maxParameter)
    (fits : ([.rgb target .colons red green blue, next].flatMap SgrItem.entries).length ≤ maxParams)
    (listed : ([.rgb target .colons red green blue, next].flatMap SgrItem.entries)[6]? =
      some (next.separator, some mode))
    (alone : colorTarget mode = none ∧ ¬ (mode = 4 ∨ mode = 21))
    (sets : ∀ rendition, (applyCode mode rendition).attributes style = true)
    (keeps : ∀ rendition, (next.apply rendition).attributes = rendition.attributes) :
    ¬ Composes [.rgb target .colons red green blue, next] := by
  intro composes
  have same := composes_reads composes fits
  obtain ⟨holds, -⟩ := feed_sgr _ _ fits
  have room : 6 < (held (.rgb target .colons red green blue) [next]).paramCount :=
    holds.count ▸ (List.getElem?_eq_some_iff.mp listed).1
  have here : (held (.rgb target .colons red green blue) [next]).params 6 = mode :=
    (holds.param 6 _ listed).trans (Nat.min_eq_left small)
  obtain ⟨fuel, count⟩ : ∃ fuel, (held (.rgb target .colons red green blue) [next]).paramCount =
    fuel + 1 + 1 :=
    ⟨(held (.rgb target .colons red green blue) [next]).paramCount - 2, by omega⟩
  have turn : ∀ rendition, (held (.rgb target .colons red green blue) [next]).applyFrom (fuel + 1) 6
    rendition =
      (held (.rgb target .colons red green blue) [next]).applyFrom fuel 7 (applyCode mode rendition) := by
    intro rendition
    rw [applyFrom, if_pos room]
    simp only [applyParameter, here, alone.1]
    rw [if_neg fun both => alone.2 both.1]
  have stays : ∀ rendition, (applyAll [.rgb target .colons red green blue, next] rendition).attributes =
    rendition.attributes :=
    fun rendition => (keeps _).trans (setColor_attributes ..)
  have forgets : ∀ rendition other : Rendition,
      ((held (.rgb target .colons red green blue) [next]).applyFrom fuel 7
        (applyCode mode rendition)).attributes style =
        ((held (.rgb target .colons red green blue) [next]).applyFrom fuel 7
          (applyCode mode other)).attributes style :=
    fun rendition other => applyFrom_attributes ((sets rendition).trans (sets other).symm) _ fuel 7
  have off := same {}
  have on := same { attributes := fun _ => true }
  rw [count, misread fits, turn] at off on
  have both := (congrArg (fun rendition => rendition.attributes style) off).symm.trans
    ((forgets _ _).trans (congrArg (fun rendition => rendition.attributes style) on))
  rw [stays, stays] at both
  cases both

theorem bare_differs (fits : ([.rgb target .colons red green blue, next].flatMap SgrItem.entries).length ≤
    maxParams) : ¬ Composes [.rgb target .colons red green blue, next] := by
  cases next with
  | code value known =>
    intro composes
    obtain ⟨holds, -⟩ := feed_sgr _ _ fits
    have count : (held (.rgb target .colons red green blue) [.code value known]).paramCount = 6 :=
      holds.count
    have same : ∀ rendition : Rendition, rendition.setColor target (rgbColor green.toNat blue.toNat value) =
        applyCode value (rendition.setColor target (.rgb red green blue)) := by
      intro rendition
      have read := composes_reads composes fits rendition
      rw [count, misread fits] at read
      rw [applyFrom, if_neg (by rw [count]; decide)] at read
      exact read
    rcases isCode_tells known with ⟨style, on, tells⟩ | ⟨other, tells⟩
    · have read := congrFun (congrArg Rendition.attributes (same { attributes := fun _ => !on })) style
      rw [tells, setColor_attributes] at read
      exact Bool.not_ne_self on read
    · have color := congrArg (fun rendition => (rendition.color other).isRgb)
        (same ⟨fun _ => false, .rgb 0 0 0, .rgb 0 0 0, .rgb 0 0 0⟩)
      rw [tells, setColor_color] at color
      split at color
      · cases color
      · cases other <;> cases color
  | indexed other colons index =>
    exact misread_style .blink (show 5 ≤ maxParameter by decide) fits rfl
      ⟨rfl, by decide⟩ (fun _ => rfl) fun _ => setColor_attributes ..
  | rgb other form _ _ _ =>
    refine misread_style .faint (show 2 ≤ maxParameter by decide) fits ?_
      ⟨rfl, by decide⟩ (fun _ => rfl) fun _ => setColor_attributes ..
    cases form <;> rfl

theorem part_differs {items : List SgrItem} (fits : (items.flatMap SgrItem.entries).length ≤ maxParams)
    (unspaced : ¬ Spaced items) : ∃ part, part <:+: items ∧ part ≠ [] ∧ ¬ Composes part := by
  induction items with
  | nil => exact absurd trivial unspaced
  | cons item rest ih =>
    by_cases later : Spaced rest
    · have crowds : item.bare = true ∧ rest ≠ [] := by
        by_contra fine
        exact unspaced ⟨fun bare => not_not.mp fun more => fine ⟨bare, more⟩, later⟩
      cases rest with
      | nil => exact absurd rfl crowds.2
      | cons next rest =>
        have start : [item, next] <:+: item :: next :: rest := ⟨[], rest, rfl⟩
        refine ⟨[item, next], start, nofun, ?_⟩
        rw [List.flatMap_cons, List.flatMap_cons, List.length_append, List.length_append] at fits
        have short : ([item, next].flatMap SgrItem.entries).length ≤ maxParams := by
          rw [List.flatMap_cons, List.flatMap_singleton, List.length_append]
          omega
        cases item with
        | rgb target form red green blue =>
          cases form with
          | colons => exact bare_differs short
          | semicolons => exact nomatch crowds.1
          | colonSpace space => exact nomatch crowds.1
        | code value known => exact nomatch crowds.1
        | indexed target colons index => exact nomatch crowds.1
    · rw [List.flatMap_cons, List.length_append] at fits
      obtain ⟨part, inside, some_, differs⟩ := ih (by omega) later
      exact ⟨part, inside.trans (List.infix_cons (List.infix_refl rest)), some_, differs⟩

end Misread

theorem Spaced.of_append {before items : List SgrItem} (spaced : Spaced (before ++ items)) :
    Spaced items := by
  induction before with
  | nil => exact spaced
  | cons item rest ih => exact ih spaced.2

theorem Spaced.left {items after_ : List SgrItem} (spaced : Spaced (items ++ after_)) : Spaced items := by
  induction items with
  | nil => trivial
  | cons item rest ih => exact ⟨fun bare => (List.append_eq_nil_iff.mp (spaced.1 bare)).1, ih spaced.2⟩

theorem empty_differs : ¬ Composes [] := by
  intro composes
  have both := composes
    { cells := [], inactiveCells := [], rows := 1, columns := 1, rendition := { attributes := fun _ => true } } rfl
  have attributes := congrArg (Option.map fun b => b.rendition.attributes .bold) both
  revert attributes
  decide

/-- The items of a list that has some, and of every part of it, do the same in one sequence as
in their own, just when nothing follows a colour in colons without the slot. -/
theorem sgr_composes_iff {items : List SgrItem}
    (fits : (items.flatMap SgrItem.entries).length ≤ maxParams) :
    (Composes items ∧ ∀ part, part <:+: items → part ≠ [] → Composes part) ↔ items ≠ [] ∧ Spaced items := by
  constructor
  · rintro ⟨whole, parts⟩
    refine ⟨fun none_ => empty_differs (none_ ▸ whole), ?_⟩
    by_contra unspaced
    obtain ⟨part, inside, some_, differs⟩ := part_differs fits unspaced
    exact differs (parts part inside some_)
  · rintro ⟨some_, spaced⟩
    refine ⟨spaced_composes some_ fits spaced, fun part inside more => ?_⟩
    obtain ⟨before, after_, rfl⟩ := inside
    rw [List.flatMap_append, List.flatMap_append, List.length_append, List.length_append] at fits
    exact spaced_composes more (by omega) spaced.left.of_append

/-- Bold, a palette colour, and a colour in colons with the slot before one without it. -/
def paints : List SgrItem :=
  [.code 1 (by decide), .indexed .underline true 200, .rgb .background (.colonSpace none) 1 2 3,
    .rgb .foreground .colons 4 5 6]

theorem paints_compose :
    (Composes paints ∧ ∀ part, part <:+: paints → part ≠ [] → Composes part) ↔ paints ≠ [] ∧
      Spaced paints :=
  sgr_composes_iff (by decide)

/-- `38:2:1:2:3;1` paints the colour 2, 3, 1 and is not bold. -/
theorem bold_is_blue : ∃ c d, Builder.feed { cells := [], inactiveCells := [], rows := 1, columns := 1 }
      (sgr [.rgb .foreground .colons 1 2 3, .code 1 (by decide)]) = some c ∧
    Builder.feed { cells := [], inactiveCells := [], rows := 1, columns := 1 }
      ([.rgb .foreground .colons 1 2 3, .code 1 (by decide)].flatMap fun item => sgr [item]) = some d ∧
    c.rendition.foreground = .rgb 2 3 1 ∧ c.rendition.attributes .bold = false ∧
    d.rendition.foreground = .rgb 1 2 3 ∧ d.rendition.attributes .bold = true ∧
    ¬ Composes [.rgb .foreground .colons 1 2 3, .code 1 (by decide)] :=
  ⟨_, _, rfl, rfl, rfl, rfl, rfl, rfl, bare_differs (by decide)⟩

end Machinen.Vt
