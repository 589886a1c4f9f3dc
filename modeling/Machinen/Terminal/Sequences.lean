import Machinen.Terminal.Twins

/-! How the parser reads the numbers of a control sequence. -/
namespace Machinen.Vt

open Builder

theorem feed_append (b : Builder) (bytes more : Bytes) :
    b.feed (bytes ++ more) = (b.feed bytes).bind fun c => c.feed more := Run.exec_append ..

theorem feed_cons (b : Builder) (byte : UInt8) (more : Bytes) :
    b.feed (byte :: more) = (b.feedByte byte).bind fun c => c.feed more := rfl

/-- The value of a parameter to which more digits are appended. -/
def readNumber (value : Nat) (digits : Bytes) : Nat :=
  digits.foldl (fun value digit => saturatingAdd (saturatingMul value 10) digit.toNat - 0x30) value

/-- The parser takes the digit's offset off a sum that has reached its bound. -/
def maxParameter : Nat := maxU16 - 0x30

theorem readNumber_append (value : Nat) (digits more : Bytes) :
    readNumber value (digits ++ more) = readNumber (readNumber value digits) more := List.foldl_append ..

theorem feed_digits {b : Builder} (csi : b.state = .csi) {digits : Bytes}
    (all : ∀ digit ∈ digits, isDigit digit = true) :
    b.feed digits = some { b with
      params := Function.update b.params (b.paramCount - 1) (readNumber (b.params (b.paramCount - 1)) digits) } := by
  induction digits generalizing b with
  | nil =>
    simp only [readNumber, List.foldl_nil, Function.update_eq_self]
    rfl
  | cons digit rest ih =>
    have first : b.feedByte digit = some { b with
        params := Function.update b.params (b.paramCount - 1)
          (saturatingAdd (saturatingMul (b.params (b.paramCount - 1)) 10) digit.toNat - 0x30) } := by
      simp only [feedByte, csi, feedCsi, all digit List.mem_cons_self, if_true]
    rw [feed_cons, first, Option.bind_some, ih (by exact csi) fun other listed =>
      all other (List.mem_cons_of_mem _ listed)]
    simp only [Function.update_self, Function.update_idem]
    rfl

theorem decimal_eq (n : Nat) :
    decimal n = if n < 10 then [UInt8.ofNat (0x30 + n)] else decimal (n / 10) ++
      [UInt8.ofNat (0x30 + n % 10)] := by
  have digit : ∀ d, d < 10 → UInt8.ofNat (Nat.digitChar d).toNat = UInt8.ofNat (0x30 + d) := by decide
  unfold decimal
  split
  · rename_i small
    rw [Nat.toDigits_of_lt_base small, List.map_singleton, digit n small]
  · rename_i large
    rw [Nat.toDigits_of_base_le (by decide) (by omega), List.map_append, List.map_singleton,
      digit _ (Nat.mod_lt n (by decide))]

theorem decimal_digits (n : Nat) : ∀ digit ∈ decimal n, isDigit digit = true := by
  have digit : ∀ d, d < 10 → isDigit (UInt8.ofNat (0x30 + d)) = true := by decide
  induction n using Nat.strongRecOn with
  | ind n ih =>
    rw [decimal_eq]
    split
    · rename_i small
      intro other listed
      exact List.mem_singleton.mp listed ▸ digit n small
    · intro other listed
      rcases List.mem_append.mp listed with high | low
      · exact ih (n / 10) (by omega) other high
      · exact List.mem_singleton.mp low ▸ digit _ (Nat.mod_lt n (by decide))

theorem readNumber_decimal (n : Nat) : readNumber 0 (decimal n) = min n maxParameter := by
  have digit : ∀ d, d < 10 → (UInt8.ofNat (0x30 + d)).toNat = 0x30 + d := by decide
  induction n using Nat.strongRecOn with
  | ind n ih =>
    rw [decimal_eq]
    split
    · rename_i one
      simp only [readNumber, List.foldl_cons, List.foldl_nil, saturatingMul, saturatingAdd, digit n one,
        maxParameter, maxU16]
      omega
    · rw [readNumber_append, ih (n / 10) (by omega)]
      simp only [readNumber, List.foldl_cons, List.foldl_nil, saturatingMul, saturatingAdd,
        digit _ (Nat.mod_lt n (by decide : 0 < 10)), maxParameter, maxU16]
      omega

theorem isDigit_le {digit : UInt8} (is : isDigit digit = true) : 0x30 ≤ digit.toNat := by
  simp only [isDigit, Bool.and_eq_true, decide_eq_true_eq] at is
  exact UInt8.le_iff_toNat_le.mp is.1

theorem readNumber_mono {value low : Nat} {digits : Bytes} (all : ∀ digit ∈ digits, isDigit digit = true)
    (le : low ≤ value) (small : low ≤ maxParameter) : low ≤ readNumber value digits := by
  induction digits generalizing value with
  | nil => exact le
  | cons digit rest ih =>
    rw [List.forall_mem_cons] at all
    have offset := isDigit_le all.1
    refine ih all.2 ?_
    simp only [saturatingAdd, saturatingMul, maxParameter] at small ⊢
    omega

theorem decimal_ne_nil (n : Nat) : decimal n ≠ [] := by
  unfold decimal
  rw [ne_eq, List.map_eq_nil_iff]
  exact Nat.toDigits_ne_nil

/-- Digits that are appended to a number multiply it by ten or more. -/
theorem readNumber_grows {value : Nat} (n : Nat) (small : 10 * value ≤ maxParameter) :
    10 * value ≤ readNumber value (decimal n) := by
  have all := decimal_digits n
  cases digits : decimal n with
  | nil => exact absurd digits (decimal_ne_nil n)
  | cons digit rest =>
    rw [digits, List.forall_mem_cons] at all
    have offset := isDigit_le all.1
    change 10 * value ≤ readNumber (saturatingAdd (saturatingMul value 10) digit.toNat - 0x30) rest
    refine readNumber_mono all.2 ?_ small
    simp only [saturatingAdd, saturatingMul, maxParameter] at small ⊢
    omega

/-- What the parser holds after some numbers: all of them while there is room, and behind
that one number made of the digits of all the others. -/
structure Reads (all : List Nat) (params : Nat → Nat) (separators : Nat → UInt8) (count : Nat) : Prop where
  some_ : all ≠ []
  counted : count = min all.length maxParams
  exact : ∀ index value, all[index]? = some value → index + 1 < maxParams ∨ all.length ≤ maxParams →
    params index = value
  merged : ∀ value, all[maxParams - 1]? = some value → maxParams < all.length →
    10 * value ≤ params (maxParams - 1)
  plain : ∀ index, separators index ≠ 0x3a
  fresh : ∀ index, count ≤ index → params index = 0

namespace Reads

variable {all : List Nat} {params : Nat → Nat} {separators : Nat → UInt8} {count : Nat}

theorem start (value : Nat) (params : Nat → Nat) (separators : Nat → UInt8) (same : params 0 = value)
    (zero : ∀ index, 1 ≤ index → params index = 0) (plain : ∀ index, separators index ≠ 0x3a) :
    Reads [value] params separators 1 where
  some_ := nofun
  counted := rfl
  exact := by
    intro index other listed _
    cases index with
    | zero =>
      cases listed
      exact same
    | succ index => exact nomatch listed
  merged := fun value listed => nomatch listed
  plain := plain
  fresh := zero

theorem next (reads : Reads all params separators count) (value : Nat) (small : value ≤ maxParameter)
    (low : ∀ other ∈ all, 10 * other ≤ maxParameter) :
    ∃ params' separators' count', (∀ b : Builder, b.state = .csi → b.params = params →
        b.paramSeparators = separators → b.paramCount = count →
        b.feed (sgrParameter value) = some { b with
          params := params', paramSeparators := separators', paramCount := count' }) ∧
      Reads (all ++ [value]) params' separators' count' := by
  have counted := reads.counted
  have nonempty : 0 < all.length := List.length_pos_iff.mpr reads.some_
  unfold maxParams at counted
  by_cases room : count < maxParams
  · refine ⟨Function.update params count (readNumber 0 (decimal value)),
      Function.update separators count 0x3b, count + 1, ?_, ?_⟩
    · rintro b csi rfl rfl rfl
      have separated : b.feedByte 0x3b = some { b with
          paramSeparators := Function.update b.paramSeparators b.paramCount 0x3b
          paramCount := b.paramCount + 1 } := by
        simp only [feedByte, csi, feedCsi]
        rw [if_neg (by decide), if_pos (by decide), if_pos room]
      rw [sgrParameter, feed_cons, separated, Option.bind_some,
        feed_digits (by exact csi) (decimal_digits value)]
      simp only [Nat.add_sub_cancel, reads.fresh b.paramCount (Nat.le_refl _)]
    · have length : all.length = count := by
        unfold maxParams at room
        omega
      refine ⟨by simp, ?_, ?_, ?_, ?_, ?_⟩
      · rw [List.length_append, List.length_singleton, length]
        omega
      · intro index other listed exact_
        by_cases last : index = count
        · subst last
          rw [List.getElem?_append_right (Nat.le_of_eq length), length, Nat.sub_self] at listed
          cases listed
          rw [Function.update_self, readNumber_decimal, Nat.min_eq_left small]
        · have before : index < all.length := by
            have bound := (List.getElem?_eq_some_iff.mp listed).1
            rw [List.length_append, List.length_singleton] at bound
            omega
          rw [List.getElem?_append_left before] at listed
          rw [Function.update_of_ne last]
          exact reads.exact index other listed (.inr (by omega))
      · intro other _ exceeds
        rw [List.length_append, List.length_singleton] at exceeds
        omega
      · intro index
        by_cases last : index = count
        · subst last
          rw [Function.update_self]
          decide
        · rw [Function.update_of_ne last]
          exact reads.plain index
      · intro index beyond
        rw [Function.update_of_ne (by omega)]
        exact reads.fresh index (by omega)
  · have full : count = maxParams := by
      unfold maxParams at room ⊢
      omega
    have long : maxParams ≤ all.length := by
      unfold maxParams at room ⊢
      omega
    refine ⟨Function.update params (maxParams - 1) (readNumber (params (maxParams - 1)) (decimal value)),
      separators, count, ?_, ?_⟩
    · rintro b csi rfl rfl rfl
      have separated : b.feedByte 0x3b = some b := by
        simp only [feedByte, csi, feedCsi]
        rw [if_neg (by decide), if_pos (by decide), if_neg room]
      rw [sgrParameter, feed_cons, separated, Option.bind_some, feed_digits csi (decimal_digits value),
        full]
    · refine ⟨by simp, ?_, ?_, ?_, reads.plain, ?_⟩
      · rw [List.length_append, List.length_singleton]
        omega
      · intro index other listed exact_
        rw [List.length_append, List.length_singleton] at exact_
        have early : index + 1 < maxParams := by omega
        rw [List.getElem?_append_left (by omega)] at listed
        rw [Function.update_of_ne (by omega)]
        exact reads.exact index other listed (.inl early)
      · intro other listed _
        rw [List.getElem?_append_left (by unfold maxParams at long ⊢; omega)] at listed
        rw [Function.update_self]
        have bound := low other (List.mem_of_getElem? listed)
        by_cases more : maxParams < all.length
        · exact readNumber_mono (decimal_digits value) (reads.merged other listed more) bound
        · have same := reads.exact _ other listed (.inr (Nat.le_of_not_lt more))
          rw [same]
          exact readNumber_grows value bound
      · intro index beyond
        rw [Function.update_of_ne (by unfold maxParams at full ⊢; omega)]
        exact reads.fresh index beyond

theorem list (reads : Reads all params separators count) (values : List Nat)
    (small : ∀ value ∈ all ++ values, 10 * value ≤ maxParameter) :
    ∃ params' separators' count', (∀ b : Builder, b.state = .csi → b.params = params →
        b.paramSeparators = separators → b.paramCount = count →
        b.feed (values.flatMap sgrParameter) = some { b with
          params := params', paramSeparators := separators', paramCount := count' }) ∧
      Reads (all ++ values) params' separators' count' := by
  induction values generalizing all params separators count with
  | nil =>
    refine ⟨params, separators, count, ?_, (List.append_nil all).symm ▸ reads⟩
    rintro b - rfl rfl rfl
    rfl
  | cons value rest ih =>
    have listed : value ∈ all ++ value :: rest := by simp
    obtain ⟨params₁, separators₁, count₁, first, reads₁⟩ := reads.next value
      (by have := small value listed; omega) fun other old => small other (List.mem_append_left _ old)
    rw [List.append_cons] at small ⊢
    obtain ⟨params₂, separators₂, count₂, more, reads₂⟩ := ih reads₁ small
    refine ⟨params₂, separators₂, count₂, ?_, reads₂⟩
    intro b csi same same' same''
    rw [List.flatMap_cons, feed_append, first b csi same same' same'', Option.bind_some]
    exact more _ csi rfl rfl rfl

end Reads

/-! A builder in the ground state, and the sequences a checkpoint is made of. -/

structure Shows (b : Builder) (rows columns : Nat) (cells : List Cell) (row column : Nat)
    (rendition : Rendition) : Prop where
  rows : b.rows = rows
  columns : b.columns = columns
  cells : b.cells = cells
  row : b.cursorRow = row
  column : b.cursorColumn = column
  rendition : b.rendition = rendition
  state : b.state = .ground
  primary : b.inAlternateScreen = false

variable {b : Builder} {rows columns row column : Nat} {cells : List Cell} {rendition : Rendition}

theorem feedGround_other {byte : UInt8} (other : isContinuation byte = false) (b : Builder) :
    b.feedGround byte = feedCharacter { b with utf8Remaining := 0, lastCell := none } byte := by
  unfold feedGround
  rw [if_neg (by rw [other]; exact fun both => nomatch both.2)]

theorem feed_introducer (ground : b.state = .ground) :
    b.feed [0x1b, 0x5b] = some { b with
      state := .csi
      utf8Remaining := 0
      lastCell := none
      params := fun _ => 0
      paramSeparators := fun _ => 0
      paramCount := 1
      csiPrivate := false } := by
  have escaped : b.feedByte 0x1b =
    some { b with state := .escape, utf8Remaining := 0, lastCell := none } := by
    simp only [feedByte, ground, feedGround_other (show isContinuation 0x1b = false by decide)]
    rfl
  rw [feed_cons, escaped, Option.bind_some, feed_cons]
  rfl

theorem feed_final (csi : b.state = .csi) {final : UInt8} (ends : isFinal final = true)
    (plain : ¬ (isDigit final = true ∨ final = 0x3b ∨ final = 0x3a ∨ final = 0x3f ∨ final = 0x3e ∨
      final = 0x21)) :
    b.feed [final] = (b.executeCsi final).map fun c => { c with state := .ground } := by
  simp only [not_or] at plain
  obtain ⟨digit, semicolon, colon, question, greater, bang⟩ := plain
  rw [feed_cons]
  simp only [feedByte, csi, feedCsi, digit, semicolon, colon, question, greater, bang, ends, or_self,
    if_false, if_true]
  cases b.executeCsi final <;> rfl

theorem feed_cursor (shows_ : Shows b rows columns cells row column rendition) {row' column' : Nat}
    (rowSmall : 10 * row' ≤ maxParameter) (columnSmall : 10 * column' ≤ maxParameter) (someRow : 0 < row')
    (someColumn : 0 < column') :
    ∃ c, b.feed (cursorBytes row' column') = some c ∧
      Shows c rows columns cells (min (row' - 1) (rows - 1)) (min (column' - 1) (columns - 1)) rendition ∧
      c.utf8Remaining = 0 := by
  have first : readNumber 0 (decimal row') = row' := by
    rw [readNumber_decimal, Nat.min_eq_left (by omega)]
  obtain ⟨params, separators, count, second, reads⟩ := (Reads.start row'
    (Function.update (fun _ => 0) 0 (readNumber 0 (decimal row'))) (fun _ => 0)
    (by rw [Function.update_self, first])
    (fun index le => Function.update_of_ne (by omega) ..) (fun _ => by decide)).next column'
      (by omega) (fun other listed => List.mem_singleton.mp listed ▸ rowSmall)
  have counted : count = 2 := reads.counted
  have zeroth : params 0 = row' := reads.exact 0 row' rfl (.inl (by decide))
  have next : params 1 = column' := reads.exact 1 column' rfl (.inl (by decide))
  have bytes : cursorBytes row' column' =
      [0x1b, 0x5b] ++ (decimal row' ++ (sgrParameter column' ++ [0x48])) := by
    simp only [cursorBytes, sgrParameter, List.append_assoc, List.cons_append, List.nil_append]
  rw [bytes, feed_append, feed_introducer shows_.state, Option.bind_some, feed_append,
    feed_digits rfl (decimal_digits row'), Option.bind_some, feed_append, second _ rfl rfl rfl rfl,
    Option.bind_some, feed_final rfl (by decide) (by decide)]
  refine ⟨_, rfl, ⟨shows_.rows, shows_.columns, shows_.cells, ?_, ?_, shows_.rendition, rfl,
    shows_.primary⟩, rfl⟩
  · change min (parameter _ 0 1 - 1) (b.rows - 1) = _
    unfold parameter
    rw [shows_.rows, if_neg]
    · change min (params 0 - 1) _ = _
      rw [zeroth]
    · change ¬ (0 ≥ count ∨ params 0 = 0)
      omega
  · change min (parameter _ 1 1 - 1) (b.columns - 1) = _
    unfold parameter
    rw [shows_.columns, if_neg]
    · change min (params 1 - 1) _ = _
      rw [next]
    · change ¬ (1 ≥ count ∨ params 1 = 0)
      omega

end Machinen.Vt
