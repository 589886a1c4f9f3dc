import Machinen.Terminal.Bounds

/-! Which cells a step of the builder may redraw. Every control function stays inside the part
of the grid that it addresses, but for an erase up to a cursor that stands behind the last
column. -/
namespace Machinen.Vt

variable {start stop : Nat} {byte : UInt8}

open Builder

section Csi

variable {b c : Builder}

def Spared (b : Builder) (part : Nat × Nat) (c : Builder) : Prop :=
  ∀ index, index < part.1 ∨ part.2 ≤ index → c.cells[index]? = b.cells[index]?

def Builder.csiPart (b : Builder) (final : UInt8) : Nat × Nat :=
  let start := b.cursorRow * b.columns
  let here := start + b.cursorColumn
  match Char.ofNat final.toNat with
  | 'J' => b.displayPart (b.parameter 0 0)
  | 'K' => b.linePart (b.parameter 0 0)
  | '@' | 'P' => (here, start + b.columns)
  | 'X' => (here, min (here + b.parameter 0 1) (start + b.columns))
  | 'L' | 'M' => (start, b.rows * b.columns)
  | 'S' | 'T' => (0, b.rows * b.columns)
  | 'h' | 'l' => if b.csiPrivate then (0, b.rows * b.columns) else (0, 0)
  | _ => (0, 0)

/-- An erase up to a cursor behind the last column, which takes the first cell of the next
row with it: that cell does not exist, or it is not blank already. -/
def Builder.overruns (b : Builder) (final : UInt8) : Prop :=
  (final = 0x4a ∨ final = 0x4b) ∧ b.parameter 0 0 = 1 ∧ b.cursorColumn = b.columns ∧
    b.cells[(b.cursorRow + 1) * b.columns]? ≠ some (blankCell b.rendition)

instance (b : Builder) (final : UInt8) : Decidable (b.overruns final) :=
  inferInstanceAs (Decidable (_ ∧ _ ∧ _ ∧ _))

theorem fill_inside {cells cells' : List Cell} {blank : Cell}
    (filled : fill cells start stop blank = some cells') {index : Nat} (low : start ≤ index)
    (high : index < stop) : cells'[index]? = some blank := by
  unfold fill at filled
  split at filled
  · rename_i bounds
    cases filled
    have front : (cells.take start).length = start := by
      rw [List.length_take]
      omega
    rw [List.getElem?_append_right (by omega), front,
      List.getElem?_append_left (by rw [List.length_replicate]; omega),
      List.getElem?_replicate, if_pos (by omega)]
  · exact nomatch filled

theorem erase_behind (order : start ≤ stop) (already : b.cells[stop]? = some (blankCell b.rendition)) :
    ∃ c, b.withCells (fill b.cells start (stop + 1) (blankCell b.rendition)) = some c ∧
      Spared b (start, stop) c := by
  have inside := (List.getElem?_eq_some_iff.mp already).1
  have filled : fill b.cells start (stop + 1) (blankCell b.rendition) = some _ :=
    if_pos ⟨by omega, by omega⟩
  refine ⟨_, congrArg (Option.map _) filled, fun index apart => ?_⟩
  by_cases here : index = stop
  · subst here
    exact (fill_inside filled order (Nat.lt_succ_self _)).trans already.symm
  · exact (fill_redrawn filled).outside index (by omega)

theorem erase_over (order : start ≤ stop) (other : b.cells[stop]? ≠ some (blankCell b.rendition))
    (done : b.withCells (fill b.cells start (stop + 1) (blankCell b.rendition)) = some c) :
    ¬ Spared b (start, stop) c := by
  obtain ⟨cells, filled, rfl⟩ := Option.map_eq_some_iff.mp done
  intro spared
  have same : cells[stop]? = b.cells[stop]? := spared stop (.inr (Nat.le_refl _))
  exact other (same ▸ fill_inside filled order (Nat.lt_succ_self _))

theorem final_of_char {final : UInt8} {char : Char} (read : Char.ofNat final.toNat = char) :
    final = UInt8.ofNat char.toNat := by
  rw [← byte_of_char read, UInt8.ofNat_toNat]

theorem Touched.spared (touched : Touched b start stop c) : Spared b (start, stop) c :=
  fun index apart => touched.cells.outside index apart

theorem eraseDisplay_spared (ordered : b.Ordered) {mode : Nat}
    (fine : mode = 1 → b.cursorColumn = b.columns →
      b.cells[(b.cursorRow + 1) * b.columns]? = some (blankCell b.rendition)) :
    ∃ c, b.eraseDisplay mode = some c ∧ Spared b (b.displayPart mode) c := by
  have narrow := ordered.narrow
  by_cases behind : mode = 1 ∧ b.cursorColumn = b.columns
  · obtain ⟨rfl, edge⟩ := behind
    have next : b.cursorRow * b.columns + b.cursorColumn = (b.cursorRow + 1) * b.columns := by
      rw [edge, Nat.succ_mul]
    unfold eraseDisplay displayPart
    simp only
    rw [Nat.min_eq_right (by omega), next, ← Nat.succ_mul]
    exact erase_behind (Nat.zero_le _) (fine rfl edge)
  · obtain ⟨c, done, touched⟩ := eraseDisplay_touched ordered mode fun one => by omega
    exact ⟨c, done, touched.spared⟩

theorem eraseLine_spared (ordered : b.Ordered) {mode : Nat}
    (fine : mode = 1 → b.cursorColumn = b.columns →
      b.cells[(b.cursorRow + 1) * b.columns]? = some (blankCell b.rendition)) :
    ∃ c, b.eraseLine mode = some c ∧ Spared b (b.linePart mode) c := by
  have narrow := ordered.narrow
  by_cases behind : mode = 1 ∧ b.cursorColumn = b.columns
  · obtain ⟨rfl, edge⟩ := behind
    have next : b.cursorRow * b.columns + b.cursorColumn = (b.cursorRow + 1) * b.columns := by
      rw [edge, Nat.succ_mul]
    unfold eraseLine linePart
    simp only
    rw [Nat.min_eq_right (by omega), next, ← Nat.succ_mul]
    exact erase_behind (by rw [Nat.succ_mul]; omega) (fine rfl edge)
  · obtain ⟨c, done, touched⟩ := eraseLine_touched ordered mode fun one => by omega
    exact ⟨c, done, touched.spared⟩

theorem whole_spared (stays : b.Stays c) (ordered : b.Ordered) : Spared b (0, b.rows * b.columns) c := by
  intro index apart
  have length : c.cells.length = b.cells.length := by
    rw [stays.ordered.length, stays.rows, stays.columns, ordered.length]
  have beyond : b.rows * b.columns ≤ index := apart.resolve_left (Nat.not_lt_zero _)
  rw [List.getElem?_eq_none (by rw [length, ordered.length]; exact beyond),
    List.getElem?_eq_none (by rw [ordered.length]; exact beyond)]

theorem executeCsi_spared (ordered : b.Ordered) (quiet : b.utf8Remaining = 0) {final : UInt8}
    (fine : ¬ b.overruns final) : ∃ c, b.executeCsi final = some c ∧ Spared b (b.csiPart final) c := by
  have fits {char : Char} (read : Char.ofNat final.toNat = char)
    (erases : UInt8.ofNat char.toNat = 0x4a ∨ UInt8.ofNat char.toNat = 0x4b) :
      b.parameter 0 0 = 1 → b.cursorColumn = b.columns →
        b.cells[(b.cursorRow + 1) * b.columns]? = some (blankCell b.rendition) := by
    intro one edge
    by_contra other
    exact fine ⟨final_of_char read ▸ erases, one, edge, other⟩
  have drawn {x : Option Builder} {start stop : Nat} (touched : ∃ c, x = some c ∧ Touched b start stop c) :
      ∃ c, x = some c ∧ Spared b (start, stop) c := by
    obtain ⟨c, done, touched⟩ := touched
    exact ⟨c, done, touched.spared⟩
  have same : ∀ {c : Builder}, c.cells = b.cells → ∃ d, some c = some d ∧ Spared b (0, 0) d :=
    fun cells => ⟨_, rfl, fun _ _ => by rw [cells]⟩
  have length := ordered.length
  unfold executeCsi csiPart
  split
  all_goals
    rename_i read
    simp only [read]
  case h_13 => exact eraseDisplay_spared ordered (fits read (.inl rfl))
  case h_14 => exact eraseLine_spared ordered (fits read (.inr rfl))
  case h_15 => exact drawn (insertCells_touched ordered _)
  case h_16 => exact drawn (deleteCells_touched ordered _)
  case h_17 => exact drawn (eraseCells_touched ordered _)
  case h_18 => exact length ▸ drawn (insertLines_touched ordered _)
  case h_19 => exact length ▸ drawn (deleteLines_touched ordered _)
  case h_20 => exact length ▸ drawn (times_touched ordered (fun _ => scrollUp_touched) _ quiet)
  case h_21 => exact length ▸ drawn (times_touched ordered (fun _ => scrollDown_touched) _ quiet)
  case h_24 =>
    refine ⟨_, rfl, ?_⟩
    cases b.csiPrivate
    · exact fun _ _ => rfl
    · exact whole_spared (setPrivateMode_stays ordered quiet true) ordered
  case h_25 =>
    refine ⟨_, rfl, ?_⟩
    cases b.csiPrivate
    · exact fun _ _ => rfl
    · exact whole_spared (setPrivateMode_stays ordered quiet false) ordered
  all_goals exact same rfl

theorem executeCsi_overruns {final : UInt8} (over_ : b.overruns final)
    (done : b.executeCsi final = some c) : ¬ Spared b (b.csiPart final) c := by
  obtain ⟨erases, one, edge, other⟩ := over_
  have next : b.cursorRow * b.columns + b.cursorColumn = (b.cursorRow + 1) * b.columns := by
    rw [edge, Nat.succ_mul]
  have stop : min ((b.cursorRow + 1) * b.columns + 1) (b.cursorRow * b.columns + b.columns) =
    (b.cursorRow + 1) * b.columns := by
    rw [Nat.succ_mul]
    omega
  rcases erases with rfl | rfl
  · have part : b.csiPart 0x4a = (0, (b.cursorRow + 1) * b.columns) := by
      change b.displayPart (b.parameter 0 0) = _
      rw [one]
      unfold displayPart
      simp only
      rw [next, stop]
    rw [part]
    change b.eraseDisplay (b.parameter 0 0) = some c at done
    rw [one] at done
    unfold eraseDisplay at done
    simp only [next] at done
    exact erase_over (Nat.zero_le _) other done
  · have part : b.csiPart 0x4b = (b.cursorRow * b.columns, (b.cursorRow + 1) * b.columns) := by
      change b.linePart (b.parameter 0 0) = _
      rw [one]
      unfold linePart
      simp only
      rw [next, stop]
    rw [part]
    change b.eraseLine (b.parameter 0 0) = some c at done
    rw [one] at done
    unfold eraseLine at done
    simp only [next] at done
    exact erase_over (by rw [Nat.succ_mul]; omega) other done

end Csi

/-- The cells that an escape sequence without parameters addresses. -/
def Builder.escapePart (b : Builder) (byte : UInt8) : Nat × Nat :=
  match Char.ofNat byte.toNat with
  | 'D' | 'E' => if b.cursorRow + 1 < b.rows then (0, 0) else (0, b.rows * b.columns)
  | 'M' => if 0 < b.cursorRow then (0, 0) else (0, b.rows * b.columns)
  | 'c' => (0, b.rows * b.columns)
  | _ => (0, 0)

/-- A character goes into the cell under the cursor or, behind the last column, into the first
one of the next row. -/
def Builder.groundPart (b : Builder) (byte : UInt8) : Nat × Nat :=
  let here := b.cursorRow * b.columns + b.cursorColumn
  if 0 < b.utf8Remaining ∧ isContinuation byte then
    match b.lastCell with
    | some index => (index, index + 1)
    | none => (0, 0)
  else if byte = 0x0a ∨ byte = 0x0b ∨ byte = 0x0c then
    if b.cursorRow + 1 < b.rows then (0, 0) else (0, b.rows * b.columns)
  else if (continuations byte).isSome then
    if b.cursorColumn < b.columns ∨ b.cursorRow + 1 < b.rows then (here, here + 1) else (0,
      b.rows * b.columns)
  else (0, 0)

def Builder.addressed (b : Builder) (byte : UInt8) : Nat × Nat :=
  match b.state with
  | .ground => b.groundPart byte
  | .escape => b.escapePart byte
  | .csi => b.csiPart byte
  | .osc | .oscEscape => (0, 0)

section Bytes

variable {b c : Builder}

theorem feedCsi_stays (ordered : b.Ordered) (csi : b.state = .csi)
    (done : b.feedCsi byte = some c) : b.Stays c := by
  have quiet : b.utf8Remaining = 0 := ordered.quiet (by rw [csi]; exact nofun)
  unfold feedCsi at done
  dsimp only at done
  split at done
  · exact Option.some.inj done ▸ ⟨{ ordered with }, rfl, rfl⟩
  split at done
  · split at done
    · exact Option.some.inj done ▸ ⟨{ ordered with }, rfl, rfl⟩
    · exact Option.some.inj done ▸ .refl ordered
  split at done
  · cases done
    split
    · exact ⟨{ ordered with }, rfl, rfl⟩
    · exact .refl ordered
  split at done
  · obtain ⟨d, executed, rfl⟩ := Option.map_eq_some_iff.mp done
    have stays := executeCsi_stays ordered quiet executed
    exact ⟨{ stays.ordered with quiet := fun other => absurd rfl other }, stays.rows, stays.columns⟩
  · exact Option.some.inj done ▸ .refl ordered

theorem feedCsi_spared (ordered : b.Ordered) (csi : b.state = .csi)
    (fine : ¬ b.overruns byte) : ∃ c, b.feedCsi byte = some c ∧ Spared b (b.csiPart byte) c := by
  have quiet : b.utf8Remaining = 0 := ordered.quiet (by rw [csi]; exact nofun)
  unfold feedCsi
  dsimp only
  split
  · exact ⟨_, rfl, fun _ _ => rfl⟩
  split
  · split
    · exact ⟨_, rfl, fun _ _ => rfl⟩
    · exact ⟨_, rfl, fun _ _ => rfl⟩
  split
  · refine ⟨_, rfl, fun _ _ => ?_⟩
    split <;> rfl
  split
  · obtain ⟨c, executed, spared⟩ := executeCsi_spared ordered quiet fine
    exact ⟨{ c with state := .ground }, by rw [executed]; rfl, spared⟩
  · exact ⟨_, rfl, fun _ _ => rfl⟩

theorem feedCsi_overruns (over_ : b.overruns byte)
    (done : b.feedCsi byte = some c) : ¬ Spared b (b.csiPart byte) c := by
  have final : b.feedCsi byte = (b.executeCsi byte).map fun b => { b with state := .ground } := by
    rcases over_.1 with rfl | rfl <;> rfl
  rw [final] at done
  obtain ⟨d, executed, same⟩ := Option.map_eq_some_iff.mp done
  have cells : c.cells = d.cells := by rw [← same]
  intro spared
  exact executeCsi_overruns over_ executed fun index apart => cells ▸ spared index apart

theorem feedEscape_safe (ordered : b.Ordered) (escape : b.state = .escape) (byte : UInt8) :
    ∃ c, b.feedEscape byte = some c ∧ b.Stays c ∧ Spared b (b.escapePart byte) c := by
  have quiet : b.utf8Remaining = 0 := ordered.quiet (by rw [escape]; exact nofun)
  have ground : Builder.Ordered { b with state := .ground } := { ordered with quiet := fun _ => quiet }
  have feed {d : Builder} (ordered : d.Ordered) (still : d.utf8Remaining = 0) (rows : d.rows = b.rows)
      (columns : d.columns = b.columns) (row : d.cursorRow = b.cursorRow) (cells : d.cells = b.cells) :
      ∃ c, d.lineFeed = some c ∧ b.Stays c ∧
        Spared b (if b.cursorRow + 1 < b.rows then (0, 0) else (0, b.rows * b.columns)) c := by
    obtain ⟨c, fed, stays, -, moved⟩ := Stays.lineFeed ordered still
    rw [row, rows] at moved
    refine ⟨c, fed, ⟨stays.ordered, stays.rows.trans rows, stays.columns.trans columns⟩, ?_⟩
    split at moved
    · rename_i below
      rw [if_pos below]
      exact fun _ _ => by rw [moved.2, cells]
    · rename_i bottom
      rw [if_neg bottom]
      have whole := whole_spared stays ordered
      rw [rows, columns] at whole
      exact fun index apart => (whole index apart).trans (by rw [cells])
  unfold feedEscape escapePart
  dsimp only
  split
  case h_1 => exact ⟨_, rfl, ⟨{ ground with quiet := fun _ => quiet }, rfl, rfl⟩, fun _ _ => rfl⟩
  case h_2 => exact ⟨_, rfl, ⟨{ ground with quiet := fun _ => quiet }, rfl, rfl⟩, fun _ _ => rfl⟩
  case h_3 => exact ⟨_, rfl, ⟨{ ground with }, rfl, rfl⟩, fun _ _ => rfl⟩
  case h_4 =>
    have stays := Stays.restore ground
    exact ⟨_, rfl, ⟨stays.ordered, stays.rows, stays.columns⟩, fun _ _ => rfl⟩
  case h_5 =>
    rename_i read
    simp only [read]
    exact feed ground quiet rfl rfl rfl rfl
  case h_6 =>
    rename_i read
    simp only [read]
    exact feed (Stays.moved ground ordered.inside (Nat.zero_le _)).ordered quiet rfl rfl rfl rfl
  case h_7 =>
    rename_i read
    simp only [read]
    obtain ⟨c, fed, stays, unmoved⟩ := Stays.reverseIndex ground quiet
    refine ⟨c, fed, ⟨stays.ordered, stays.rows, stays.columns⟩, ?_⟩
    split
    · rename_i above
      exact fun _ _ => by rw [unmoved above]
    · exact fun index apart => whole_spared stays ground index apart
  case h_8 =>
    rename_i read
    simp only [read]
    have stays := Stays.reset ground quiet
    exact ⟨_, rfl, ⟨stays.ordered, stays.rows, stays.columns⟩,
      fun index apart => whole_spared stays ground index apart⟩
  case h_9 => exact ⟨_, rfl, ⟨ground, rfl, rfl⟩, fun _ _ => rfl⟩

theorem place_safe (ordered : b.Ordered) (ground : b.state = .ground)
    (before : b.cursorColumn < b.columns) {count : Nat} (starts : continuations byte = some count) :
    ∃ c, b.place byte count = some c ∧ b.Stays c ∧
      Spared b (b.cursorRow * b.columns + b.cursorColumn, b.cursorRow * b.columns + b.cursorColumn + 1)
        c := by
  have line := ordered.line
  have owes := Owes.start starts b.rendition
  have inside : b.cursorRow * b.columns + b.cursorColumn < b.cells.length := by omega
  refine ⟨_, if_pos inside, ⟨{ ordered with
    length := (List.length_set ..).trans ordered.length
    formed := ?_
    narrow := before
    last := ?_
    quiet := fun other => absurd ground other }, rfl, rfl⟩, fun index apart => ?_⟩
  · intro cell listed
    rcases List.mem_or_eq_of_mem_set listed with old | new
    · exact ordered.formed cell old
    · exact new ▸ .inr ⟨_, owes⟩
  · intro _ index same
    cases same
    exact ⟨_, List.getElem?_set_self inside, owes⟩
  · exact List.getElem?_set_ne (by omega)

theorem putCharacter_safe (ordered : b.Ordered) (ground : b.state = .ground)
    (quiet : b.utf8Remaining = 0) {count : Nat} (starts : continuations byte = some count) :
    ∃ c, b.putCharacter byte count = some c ∧ b.Stays c ∧
      Spared b (if b.cursorColumn < b.columns ∨ b.cursorRow + 1 < b.rows then
        (b.cursorRow * b.columns + b.cursorColumn, b.cursorRow * b.columns + b.cursorColumn + 1)
        else (0, b.rows * b.columns)) c := by
  have narrow := ordered.narrow
  unfold putCharacter wrap
  by_cases before : b.cursorColumn < b.columns
  · rw [if_neg (Nat.not_le_of_lt before), if_pos (.inl before)]
    exact place_safe ordered ground before starts
  · have edge : b.cursorColumn = b.columns := by omega
    rw [if_pos (Nat.le_of_not_lt before)]
    obtain ⟨d, fed, stays, column, moved⟩ :=
      Stays.lineFeed (Stays.moved ordered ordered.inside (Nat.zero_le b.columns)).ordered quiet
    have state : d.state = .ground := (lineFeed_still fed).1.trans ground
    have width : d.cursorColumn < d.columns := by
      rw [column, stays.columns]
      exact ordered.columns.1
    obtain ⟨c, placed, more, spared⟩ := place_safe stays.ordered state width starts
    have whole : b.Stays c := ⟨more.ordered, more.rows.trans stays.rows, more.columns.trans stays.columns⟩
    refine ⟨c, by rw [fed]; exact placed, whole, ?_⟩
    dsimp only at moved
    split at moved
    · rename_i below
      rw [if_pos (.inr below)]
      intro index apart
      refine (spared index ?_).trans (by rw [moved.2])
      rw [edge] at apart
      dsimp only at apart ⊢
      rw [moved.1, column, stays.columns, Nat.succ_mul]
      omega
    · rename_i bottom
      rw [if_neg (by omega)]
      exact whole_spared whole ordered

theorem feedCharacter_safe (ordered : b.Ordered) (ground : b.state = .ground) (quiet : b.utf8Remaining = 0)
    (byte : UInt8) (other : ¬ (0 < b.utf8Remaining ∧ isContinuation byte)) :
    ∃ c, b.feedCharacter byte = some c ∧ b.Stays c ∧ Spared b (b.groundPart byte) c := by
  have columns := ordered.columns
  have narrow := ordered.narrow
  unfold feedCharacter groundPart
  dsimp only
  rw [if_neg other]
  split
  · rename_i escape
    exact ⟨_, rfl, ⟨{ ordered with quiet := fun _ => quiet }, rfl, rfl⟩, fun _ _ => rfl⟩
  split
  · exact ⟨_, rfl, .moved ordered ordered.inside (Nat.zero_le _), fun _ _ => rfl⟩
  split
  · obtain ⟨c, fed, stays, -, moved⟩ := Stays.lineFeed ordered quiet
    refine ⟨c, fed, stays, ?_⟩
    split at moved
    · rename_i below
      rw [if_pos below]
      exact fun _ _ => by rw [moved.2]
    · rename_i bottom
      rw [if_neg bottom]
      exact whole_spared stays ordered
  split
  · exact ⟨_, rfl, .moved ordered ordered.inside (by omega), fun _ _ => rfl⟩
  split
  · exact ⟨_, rfl, .moved ordered ordered.inside (by omega), fun _ _ => rfl⟩
  split
  · rename_i starts
    rw [starts]
    exact putCharacter_safe ordered ground quiet starts
  · exact ⟨b, rfl, .refl ordered, fun _ _ => rfl⟩

theorem feedGround_safe (ordered : b.Ordered) (ground : b.state = .ground) (byte : UInt8) :
    ∃ c, b.feedGround byte = some c ∧ b.Stays c ∧ Spared b (b.groundPart byte) c := by
  unfold feedGround
  by_cases continues : 0 < b.utf8Remaining ∧ isContinuation byte
  · rw [if_pos continues]
    unfold extendCell groundPart
    rw [if_pos continues]
    cases last : b.lastCell with
    | none =>
      exact ⟨_, rfl, ⟨{ ordered with
        last := fun _ index same => absurd same nofun
        quiet := fun other => absurd ground other }, rfl, rfl⟩, fun _ _ => rfl⟩
    | some index =>
      obtain ⟨cell, found, owes⟩ := ordered.last continues.1 index last
      obtain ⟨owed, one⟩ : ∃ owed, b.utf8Remaining = owed + 1 := ⟨b.utf8Remaining - 1, by omega⟩
      rw [one] at owes
      obtain ⟨room, still⟩ := owes.extend continues.2
      have inside := (List.getElem?_eq_some_iff.mp found).1
      refine ⟨{ b with
        cells := b.cells.set index { cell with bytes := cell.bytes ++ [byte] }
        utf8Remaining := b.utf8Remaining - 1 }, ?_, ⟨{ ordered with
        length := (List.length_set ..).trans ordered.length
        formed := ?_
        last := ?_
        quiet := fun other => absurd ground other }, rfl, rfl⟩, fun other apart => ?_⟩
      · simp only [found, Option.bind_eq_bind, Option.bind_some, if_pos room, Option.map_some, last]
      · intro cell' listed
        rcases List.mem_or_eq_of_mem_set listed with old | new
        · exact ordered.formed cell' old
        · exact new ▸ .inr ⟨_, still⟩
      · intro _ index' same
        cases last.symm.trans same
        refine ⟨_, List.getElem?_set_self inside, ?_⟩
        have less : b.utf8Remaining - 1 = owed := by omega
        exact less ▸ still
      · simp only at apart
        exact List.getElem?_set_ne (by omega)
  · rw [if_neg continues]
    have fresh : Builder.Ordered { b with utf8Remaining := 0, lastCell := none } :=
      { ordered with last := fun owing => absurd owing (Nat.lt_irrefl 0), quiet := fun _ => rfl }
    obtain ⟨c, fed, stays, spared⟩ := feedCharacter_safe fresh ground rfl byte fun both =>
      Nat.lt_irrefl 0 both.1
    refine ⟨c, fed, ⟨stays.ordered, stays.rows, stays.columns⟩, fun index apart => spared index ?_⟩
    unfold groundPart at apart ⊢
    dsimp only at apart ⊢
    rw [if_neg continues] at apart
    rwa [if_neg fun both => Nat.lt_irrefl 0 both.1]

theorem feedByte_stays (ordered : b.Ordered) (done : b.feedByte byte = some c) :
    b.Stays c := by
  unfold feedByte at done
  split at done
  · rename_i ground
    obtain ⟨d, fed, stays, -⟩ := feedGround_safe ordered ground byte
    cases fed.symm.trans done
    exact stays
  · rename_i escape
    obtain ⟨d, fed, stays, -⟩ := feedEscape_safe ordered escape byte
    cases fed.symm.trans done
    exact stays
  · rename_i csi
    exact feedCsi_stays ordered csi done
  · rename_i osc
    have quiet : b.utf8Remaining = 0 := ordered.quiet (by rw [osc]; exact nofun)
    cases done
    split
    · exact ⟨{ ordered with quiet := fun _ => quiet }, rfl, rfl⟩
    split
    · exact ⟨{ ordered with quiet := fun _ => quiet }, rfl, rfl⟩
    · exact .refl ordered
  · rename_i osc
    have quiet : b.utf8Remaining = 0 := ordered.quiet (by rw [osc]; exact nofun)
    exact Option.some.inj done ▸ ⟨{ ordered with quiet := fun _ => quiet }, rfl, rfl⟩

theorem feedByte_spared_iff (ordered : b.Ordered) (byte : UInt8) :
    (∃ c, b.feedByte byte = some c ∧ Spared b (b.addressed byte) c) ↔
      ¬ (b.state = .csi ∧ b.overruns byte) := by
  unfold feedByte addressed
  cases state : b.state with
  | ground =>
    obtain ⟨c, fed, -, spared⟩ := feedGround_safe ordered state byte
    exact iff_of_true ⟨c, fed, spared⟩ fun both => nomatch both.1
  | escape =>
    obtain ⟨c, fed, -, spared⟩ := feedEscape_safe ordered state byte
    exact iff_of_true ⟨c, fed, spared⟩ fun both => nomatch both.1
  | csi =>
    constructor
    · rintro ⟨c, fed, spared⟩ ⟨-, over_⟩
      exact feedCsi_overruns over_ fed spared
    · exact fun fine => feedCsi_spared ordered state fun over_ => fine ⟨rfl, over_⟩
  | osc =>
    refine iff_of_true ⟨_, rfl, fun _ _ => ?_⟩ fun both => nomatch both.1
    split
    · rfl
    split <;> rfl
  | oscEscape => exact iff_of_true ⟨_, rfl, fun _ _ => rfl⟩ fun both => nomatch both.1

end Bytes

/-- A cell that is in both grids stays at its row and column, and the rest is blank. -/
def Builder.Regrown (b c : Builder) : Prop :=
  ∀ row column, row < c.rows → column < c.columns → c.cells[row * c.columns + column]? =
    if row < b.rows ∧ column < b.columns then b.cells[row * b.columns + column]? else some {}

theorem regrown_refl (b : Builder) : b.Regrown b :=
  fun row column below before => by rw [if_pos ⟨below, before⟩]

theorem resized_drawn {source cells : List Cell} {oldRows oldColumns rows columns : Nat}
    (length : cells.length = rows * columns)
    (grid : ∀ row column, row < rows → column < columns → cells[row * columns + column]? =
      if row < oldRows ∧ column < oldColumns then source[row * oldColumns + column]? else some {}) :
    ∀ cell ∈ cells, cell ∈ source ∨ cell = {} := by
  intro cell listed
  obtain ⟨index, inside, rfl⟩ := List.mem_iff_getElem.mp listed
  have room : index < rows * columns := length ▸ inside
  have wide : 0 < columns := Nat.pos_of_mul_pos_left (Nat.zero_lt_of_lt room)
  have here := grid (index / columns) (index % columns) ((Nat.div_lt_iff_lt_mul wide).mpr room)
    (Nat.mod_lt _ wide)
  rw [Nat.mul_comm, Nat.div_add_mod, List.getElem?_eq_getElem inside] at here
  split at here
  · exact .inl (List.mem_of_getElem? here.symm)
  · exact .inr (Option.some.inj here)

theorem resize_safe {b : Builder} (ordered : b.Ordered) (rows columns : Nat) (allocated : Bool) :
    ∃ c, b.resize rows columns allocated = some c ∧ c.Ordered ∧ b.Regrown c := by
  unfold resize
  split
  · exact ⟨b, rfl, ordered, regrown_refl b⟩
  rename_i changes
  have size : validSize rows columns = true := by
    cases valid : validSize rows columns
    · exact absurd (.inl valid) changes
    · rfl
  obtain ⟨cells, copied, length, grid⟩ := resizedCells_some ordered.length rows columns
  obtain ⟨inactive, copied', length', grid'⟩ := resizedCells_some ordered.spare rows columns
  have blank : Cell.Formed {} := .inl rfl
  have bounds : (0 < rows ∧ rows ≤ maxDimension) ∧ 0 < columns ∧ columns ≤ maxDimension := by
    unfold validSize at size
    simp only [Bool.not_eq_true', Bool.or_eq_false_iff, beq_eq_false_iff_ne,
      decide_eq_false_iff_not] at size
    omega
  refine ⟨{ b with
    cells := cells
    inactiveCells := inactive
    rows := rows
    columns := columns
    cursorRow := min b.cursorRow (rows - 1)
    cursorColumn := min b.cursorColumn (columns - 1)
    lastCell := none }, by rw [copied, copied']; rfl, ?_, fun row column below before => grid row column below before⟩
  exact { ordered with
    rows := bounds.1
    columns := bounds.2
    length := length
    spare := length'
    formed := fun cell listed => (resized_drawn length grid cell listed).elim (ordered.formed cell) (· ▸ blank)
    spareFormed := fun cell listed =>
    (resized_drawn length' grid' cell listed).elim (ordered.spareFormed cell) (· ▸ blank)
    inside := (Nat.lt_of_le_of_lt (Nat.min_le_right ..) (Nat.pred_lt (Nat.ne_of_gt bounds.1.1)))
    narrow := (Nat.le_trans (Nat.min_le_right ..) (Nat.pred_le _))
    last := fun _ _ same => absurd same nofun }

/-- An event ends, and changes only the cells that it addresses. -/
def Confined (b : Builder) (event : Event) : Prop :=
  ∃ c, b.handle event = some c ∧ match event with
    | .byte byte => Spared b (b.addressed byte) c
    | .resize _ _ _ => b.Regrown c

def Builder.strays (b : Builder) : Event → Prop
  | .byte byte => b.state = .csi ∧ b.overruns byte
  | .resize _ _ _ => False

instance (b : Builder) : (event : Event) → Decidable (b.strays event)
  | .byte byte => inferInstanceAs (Decidable (b.state = .csi ∧ b.overruns byte))
  | .resize _ _ _ => inferInstanceAs (Decidable False)

section Runs

variable {b c : Builder}

theorem handle_ordered (b : Builder) (event : Event) (c : Builder) (ordered : b.Ordered)
    (done : b.handle event = some c) : c.Ordered := by
  cases event with
  | byte byte => exact (feedByte_stays ordered done).ordered
  | resize rows columns allocated =>
    obtain ⟨d, resized, kept, -⟩ := resize_safe ordered rows columns allocated
    cases resized.symm.trans done
    exact kept

theorem confined_iff (b : Builder) (event : Event) (ordered : b.Ordered) :
    Confined b event ↔ ¬ b.strays event := by
  cases event with
  | byte byte => exact feedByte_spared_iff ordered byte
  | resize rows columns allocated =>
    obtain ⟨c, resized, -, regrown⟩ := resize_safe ordered rows columns allocated
    exact iff_of_true ⟨c, resized, regrown⟩ not_false

theorem init_ordered {rows columns : Nat} (started : init rows columns = some b) : b.Ordered := by
  unfold init at started
  split at started
  · rename_i size
    cases started
    unfold validSize at size
    simp only [Bool.not_eq_true', Bool.or_eq_false_iff, beq_eq_false_iff_ne,
      decide_eq_false_iff_not] at size
    have blank : ∀ cell ∈ List.replicate (rows * columns) ({} : Cell), cell.Formed :=
      fun cell listed => List.eq_of_mem_replicate listed ▸ .inl rfl
    exact {
      rows := by dsimp only; omega
      columns := by dsimp only; omega
      length := List.length_replicate ..
      spare := List.length_replicate ..
      formed := blank
      spareFormed := blank
      inside := by dsimp only; omega
      narrow := Nat.zero_le _
      last := fun owing => absurd owing (Nat.lt_irrefl 0)
      quiet := fun _ => rfl }
  · exact nomatch started

theorem meets_confined_iff (ordered : b.Ordered) (events : List Event) :
    Run.Meets handle Confined b events ↔ Run.Meets handle (fun b event => ¬ b.strays event) b events :=
  Run.Meets.iff_of_invariant confined_iff handle_ordered events ordered

/-- From its start, a builder of any size stays in bounds, and every event keeps to the cells
that it addresses just as long as no erase runs over the end of a full row. -/
theorem builder_confined {rows columns : Nat} (started : init rows columns = some b) (events : List Event) :
    (Run.Meets handle Confined b events ↔ Run.Meets handle (fun b event => ¬ b.strays event) b events) ∧
      ∀ c, b.exec events = some c →
        c.cursorRow < c.rows ∧ c.cursorColumn ≤ c.columns ∧ c.cells.length = c.rows * c.columns := by
  have ordered := init_ordered started
  refine ⟨meets_confined_iff ordered events, fun c run => ?_⟩
  have reached : c.Ordered := Run.exec_invariant handle_ordered events ordered run
  exact ⟨reached.inside, reached.narrow, reached.length⟩

end Runs

def screen (rows columns : Nat) : Builder := {
  cells := List.replicate (rows * columns) {}
  inactiveCells := List.replicate (rows * columns) {}
  rows := rows
  columns := columns }

def typed (bytes : Bytes) : List Event := bytes.map .byte

/-- `ab`, and the line erased to its end and up to the cursor, in a row with room. -/
def roomyErase : List Event := typed [0x61, 0x62, 0x1b, 0x5b, 0x4b, 0x1b, 0x5b, 0x31, 0x4b] ++
    [.resize 3 2 true]

theorem builder_confined_roomyErase :
    Run.Meets handle (fun b event => ¬ b.strays event) (screen 2 3) roomyErase ∧
      Run.Meets handle Confined (screen 2 3) roomyErase :=
  have fine : Run.Meets handle (fun b event => ¬ b.strays event) (screen 2 3) roomyErase := by
    decide +kernel
  have started : init 2 3 = some (screen 2 3) := rfl
  ⟨fine, (builder_confined started roomyErase).1.mpr fine⟩

/-- `c` in the second row, and `ab` fills the first one; then the line is erased up to the cursor. -/
def fullErase : List Event :=
  typed [0x0a, 0x63, 0x1b, 0x5b, 0x48, 0x61, 0x62, 0x1b, 0x5b, 0x31, 0x4b]

/-- The `c` goes too, and in the last row the builder writes behind its grid. -/
theorem fullErase_escapes :
    ((screen 2 2).exec fullErase).map (fun b => b.cells[2]?) = some (some ({} : Cell)) ∧
      ¬ Run.Meets handle Confined (screen 2 2) fullErase ∧
      (screen 1 2).exec fullErase = none := by
  refine ⟨by decide +kernel, ?_, by decide +kernel⟩
  have started : init 2 2 = some (screen 2 2) := rfl
  rw [meets_confined_iff (init_ordered started)]
  decide +kernel

end Machinen.Vt
