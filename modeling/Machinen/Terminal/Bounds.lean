import Machinen.Terminal.Resize
import Machinen.Terminal.Twins

/-! Every step of the builder keeps the cursor and the grids in bounds. -/
namespace Machinen.Vt

open Builder

/-- Cells before `start` and from `stop` on are as they were; the others are blank or were
somewhere in the grid. -/
structure Redrawn (cells : List Cell) (start stop : Nat) (blank : Cell) (cells' : List Cell) : Prop where
  length : cells'.length = cells.length
  outside : ∀ index, index < start ∨ stop ≤ index → cells'[index]? = cells[index]?
  drawn : ∀ cell ∈ cells', cell ∈ cells ∨ cell = blank

section Grids

variable {cells cells' cells'' : List Cell} {start stop : Nat} {blank : Cell}

theorem Redrawn.refl (cells : List Cell) (start stop : Nat) (blank : Cell) :
    Redrawn cells start stop blank cells :=
  ⟨rfl, fun _ _ => rfl, fun _ listed => .inl listed⟩

theorem Redrawn.widen (redrawn : Redrawn cells start stop blank cells') {start' stop' : Nat}
    (low : start' ≤ start) (high : stop ≤ stop') : Redrawn cells start' stop' blank cells' :=
  { redrawn with outside := fun index apart => redrawn.outside index (by omega) }

theorem Redrawn.trans (one : Redrawn cells start stop blank cells')
    (two : Redrawn cells' start stop blank cells'') : Redrawn cells start stop blank cells'' where
  length := two.length.trans one.length
  outside index apart := (two.outside index apart).trans (one.outside index apart)
  drawn cell listed := by
    rcases two.drawn cell listed with kept | blank_
    · exact one.drawn cell kept
    · exact .inr blank_

theorem splice_redrawn {middle : List Cell} (width : start + middle.length = stop)
    (inside : stop ≤ cells.length) (drawn : ∀ cell ∈ middle, cell ∈ cells ∨ cell = blank) :
    Redrawn cells start stop blank (cells.take start ++ (middle ++ cells.drop stop)) := by
  have front : (cells.take start).length = start := by
    rw [List.length_take]
    omega
  refine ⟨?_, fun index apart => ?_, fun cell listed => ?_⟩
  · rw [List.length_append, List.length_append, front, List.length_drop]
    omega
  · rw [List.getElem?_append, front]
    rcases apart with before | after_
    · rw [if_pos before, List.getElem?_take, if_pos before]
    · rw [if_neg (by omega), List.getElem?_append_right (by omega), List.getElem?_drop]
      congr 1
      omega
  · rcases List.mem_append.mp listed with left | right
    · exact .inl (List.mem_of_mem_take left)
    · rcases List.mem_append.mp right with new | rest
      · exact drawn cell new
      · exact .inl (List.mem_of_mem_drop rest)

theorem fill_redrawn (filled : fill cells start stop blank = some cells') :
    Redrawn cells start stop blank cells' := by
  unfold fill at filled
  split at filled
  · rename_i bounds
    cases filled
    exact splice_redrawn (by rw [List.length_replicate]; omega) bounds.2 fun cell listed =>
      .inr (List.eq_of_mem_replicate listed)
  · exact nomatch filled

theorem copy_redrawn {target source count : Nat} (copied : copy cells target source count = some cells') :
    Redrawn cells target (target + count) blank cells' := by
  unfold copy at copied
  split at copied
  · rename_i bounds
    cases copied
    exact splice_redrawn (by rw [List.length_take, List.length_drop]; omega) bounds.1 fun cell listed =>
      .inl (List.mem_of_mem_drop (List.mem_of_mem_take listed))
  · exact nomatch copied

theorem redraw_redrawn {moves : Bool} {target source count low high : Nat}
    (drawn : (copyWhen moves cells target source count >>= fun kept => fill kept start stop blank) =
      some cells')
    (copies : low ≤ target ∧ target + count ≤ high) (fills : low ≤ start ∧ stop ≤ high) :
    Redrawn cells low high blank cells' := by
  obtain ⟨kept, moved, filled⟩ := Option.bind_eq_some_iff.mp drawn
  refine Redrawn.trans ?_ ((fill_redrawn filled).widen fills.1 fills.2)
  unfold copyWhen at moved
  split at moved
  · exact (copy_redrawn moved).widen copies.1 copies.2
  · cases moved
    exact .refl cells low high blank

theorem redraw_some (moves : Bool) {target source count : Nat} (blank : Cell)
    (copies : target + count ≤ cells.length ∧ source + count ≤ cells.length)
    (fills : start ≤ stop ∧ stop ≤ cells.length) :
    ∃ cells', (copyWhen moves cells target source count >>= fun kept => fill kept start stop blank) =
      some cells' := by
  have moved : ∃ kept, copyWhen moves cells target source count = some kept ∧
    kept.length = cells.length := by
    unfold copyWhen
    split
    · have some_ : copy cells target source count = some _ := if_pos copies
      exact ⟨_, some_, copy_length some_⟩
    · exact ⟨cells, rfl, rfl⟩
  obtain ⟨kept, moved, length⟩ := moved
  have filled : fill kept start stop blank = some _ := if_pos ⟨fills.1, length ▸ fills.2⟩
  exact ⟨_, by rw [moved]; exact filled⟩

end Grids

/-- What holds of every builder: its grids have the size of the window, the cursor is inside
or one behind the last column, and only a character that is in its cell is unfinished. -/
structure Builder.Ordered (b : Builder) : Prop where
  rows : 0 < b.rows ∧ b.rows ≤ maxDimension
  columns : 0 < b.columns ∧ b.columns ≤ maxDimension
  length : b.cells.length = b.rows * b.columns
  spare : b.inactiveCells.length = b.rows * b.columns
  formed : ∀ cell ∈ b.cells, cell.Formed
  spareFormed : ∀ cell ∈ b.inactiveCells, cell.Formed
  inside : b.cursorRow < b.rows
  narrow : b.cursorColumn ≤ b.columns
  last : 0 < b.utf8Remaining → ∀ index, b.lastCell = some index →
    ∃ cell, b.cells[index]? = some cell ∧ Owes b.utf8Remaining cell
  quiet : b.state ≠ .ground → b.utf8Remaining = 0

/-- Only cells of a range were redrawn, and nothing else of the builder changed. -/
structure Touched (b : Builder) (start stop : Nat) (c : Builder) : Prop where
  same : c = { b with cells := c.cells }
  cells : Redrawn b.cells start stop (blankCell b.rendition) c.cells

theorem Touched.refl (b : Builder) (start stop : Nat) : Touched b start stop b := ⟨rfl, .refl ..⟩

theorem Touched.trans {b c d : Builder} {start stop : Nat} (one : Touched b start stop c)
    (two : Touched c start stop d) : Touched b start stop d where
  same := by rw [two.same, one.same]
  cells := by
    have rendition : c.rendition = b.rendition := by rw [one.same]
    have next := two.cells
    rw [rendition] at next
    exact one.cells.trans next

theorem withCells_touched {b c : Builder} {x : Option (List Cell)} {start stop : Nat}
    (drawn : b.withCells x = some c)
    (redrawn : ∀ cells, x = some cells → Redrawn b.cells start stop (blankCell b.rendition) cells) :
    Touched b start stop c := by
  obtain ⟨cells, found, rfl⟩ := Option.map_eq_some_iff.mp drawn
  exact ⟨rfl, redrawn cells found⟩

theorem erase_touched {b : Builder} {start stop low high : Nat}
    (bounds : start ≤ stop ∧ stop ≤ b.cells.length) (window : low ≤ start ∧ stop ≤ high) :
    ∃ c, b.withCells (fill b.cells start stop (blankCell b.rendition)) = some c ∧ Touched b low high c := by
  have drawn : b.withCells (fill b.cells start stop (blankCell b.rendition)) = some _ :=
    congrArg (Option.map _) (if_pos bounds)
  exact ⟨_, drawn, withCells_touched drawn fun _ found => (fill_redrawn found).widen window.1 window.2⟩

/-- A shift and the erase of what it leaves, inside the grid and a window. -/
theorem redraw_touched {b : Builder} {moves : Bool} {target source count start stop low high : Nat}
    (copies : target + count ≤ b.cells.length ∧ source + count ≤ b.cells.length)
    (fills : start ≤ stop ∧ stop ≤ b.cells.length)
    (window : (low ≤ target ∧ target + count ≤ high) ∧ low ≤ start ∧ stop ≤ high) :
    ∃ c, b.withCells (copyWhen moves b.cells target source count >>=
        fun kept => fill kept start stop (blankCell b.rendition)) = some c ∧ Touched b low high c := by
  obtain ⟨cells, found⟩ := redraw_some moves (blankCell b.rendition) copies fills
  have drawn : b.withCells (copyWhen moves b.cells target source count >>=
      fun kept => fill kept start stop (blankCell b.rendition)) = some { b with cells } := by
    rw [found]
    rfl
  exact ⟨_, drawn, withCells_touched drawn fun _ found => redraw_redrawn found window.1 window.2⟩

section Erasing

variable {b c : Builder} (ordered : b.Ordered)
include ordered

theorem Builder.Ordered.line : b.cursorRow * b.columns + b.columns ≤ b.cells.length := by
  have below := Nat.mul_le_mul_right b.columns ordered.inside
  rw [Nat.succ_mul] at below
  rw [ordered.length]
  exact below

theorem Builder.Ordered.touched {start stop : Nat} (quiet : b.utf8Remaining = 0)
    (touched : Touched b start stop c) : c.Ordered := by
  have formed : ∀ cell ∈ c.cells, cell.Formed := by
    intro cell listed
    rcases touched.cells.drawn cell listed with old | blank
    · exact ordered.formed cell old
    · exact blank ▸ blank_formed b.rendition
  rw [touched.same]
  exact { ordered with
    length := touched.cells.length.trans ordered.length
    formed := formed
    last := fun owing => absurd quiet (Nat.ne_of_gt owing) }

theorem scrollUp_touched : ∃ c, b.scrollUp = some c ∧ Touched b 0 b.cells.length c := by
  have line := ordered.line
  exact redraw_touched (by omega) (by omega) (by omega)

theorem scrollDown_touched : ∃ c, b.scrollDown = some c ∧ Touched b 0 b.cells.length c := by
  have line := ordered.line
  exact redraw_touched (by omega) (by omega) (by omega)

theorem insertCells_touched (amount : Nat) : ∃ c, b.insertCells amount = some c ∧
    Touched b (b.cursorRow * b.columns + b.cursorColumn) (b.cursorRow * b.columns + b.columns) c := by
  have line := ordered.line
  have narrow := ordered.narrow
  exact redraw_touched (by omega) (by omega) (by omega)

theorem deleteCells_touched (amount : Nat) : ∃ c, b.deleteCells amount = some c ∧
    Touched b (b.cursorRow * b.columns + b.cursorColumn) (b.cursorRow * b.columns + b.columns) c := by
  have line := ordered.line
  have narrow := ordered.narrow
  exact redraw_touched (by omega) (by omega) (by omega)

theorem eraseCells_touched (amount : Nat) : ∃ c, b.eraseCells amount = some c ∧
    Touched b (b.cursorRow * b.columns + b.cursorColumn)
      (min (b.cursorRow * b.columns + b.cursorColumn + amount) (b.cursorRow * b.columns + b.columns))
        c := by
  have line := ordered.line
  have narrow := ordered.narrow
  exact erase_touched (by omega) (by omega)

theorem shift_le (amount : Nat) :
    b.cursorRow * b.columns + min amount (b.rows - b.cursorRow) * b.columns ≤ b.cells.length := by
  have inside := ordered.inside
  rw [← Nat.add_mul, ordered.length]
  exact Nat.mul_le_mul_right _ (by omega)

theorem insertLines_touched (amount : Nat) : ∃ c, b.insertLines amount = some c ∧
    Touched b (b.cursorRow * b.columns) b.cells.length c := by
  have fits := shift_le ordered amount
  exact redraw_touched (by omega) (by omega) (by omega)

theorem deleteLines_touched (amount : Nat) : ∃ c, b.deleteLines amount = some c ∧
    Touched b (b.cursorRow * b.columns) b.cells.length c := by
  have fits := shift_le ordered amount
  exact redraw_touched (by omega) (by omega) (by omega)

/-- The cells that an erase of the display addresses. -/
def Builder.displayPart (b : Builder) (mode : Nat) : Nat × Nat :=
  let here := b.cursorRow * b.columns + b.cursorColumn
  match mode with
  | 0 => (here, b.rows * b.columns)
  | 1 => (0, min (here + 1) (b.cursorRow * b.columns + b.columns))
  | 2 | 3 => (0, b.rows * b.columns)
  | _ => (0, 0)

/-- Those of an erase of the line, all of them in the row of the cursor. -/
def Builder.linePart (b : Builder) (mode : Nat) : Nat × Nat :=
  let start := b.cursorRow * b.columns
  let here := start + b.cursorColumn
  match mode with
  | 0 => (here, start + b.columns)
  | 1 => (start, min (here + 1) (start + b.columns))
  | 2 => (start, start + b.columns)
  | _ => (0, 0)

theorem eraseDisplay_touched (mode : Nat) (fine : mode = 1 → b.cursorColumn < b.columns) :
    ∃ c, b.eraseDisplay mode = some c ∧ Touched b (b.displayPart mode).1 (b.displayPart mode).2 c := by
  have line := ordered.line
  have narrow := ordered.narrow
  have length := ordered.length
  unfold eraseDisplay displayPart
  split
  · simp only
    exact erase_touched (by omega) (by omega)
  · have inside := fine rfl
    simp only
    exact erase_touched (by omega) (by omega)
  · simp only
    exact erase_touched (by omega) (by omega)
  · simp only
    exact erase_touched (by omega) (by omega)
  · exact ⟨b, rfl, .refl b _ _⟩

theorem eraseLine_touched (mode : Nat) (fine : mode = 1 → b.cursorColumn < b.columns) :
    ∃ c, b.eraseLine mode = some c ∧ Touched b (b.linePart mode).1 (b.linePart mode).2 c := by
  have line := ordered.line
  have narrow := ordered.narrow
  unfold eraseLine linePart
  split
  · simp only
    exact erase_touched (by omega) (by omega)
  · have inside := fine rfl
    simp only
    exact erase_touched (by omega) (by omega)
  · simp only
    exact erase_touched (by omega) (by omega)
  · exact ⟨b, rfl, .refl b _ _⟩

theorem times_touched {op : Builder → Option Builder}
    (each : ∀ b : Builder, b.Ordered → ∃ c, op b = some c ∧ Touched b 0 b.cells.length c) (count : Nat)
    (quiet : b.utf8Remaining = 0) : ∃ c, times count op b = some c ∧ Touched b 0 b.cells.length c := by
  induction count generalizing b with
  | zero => exact ⟨b, rfl, .refl b _ _⟩
  | succ count ih =>
    obtain ⟨d, first, touched⟩ := each b ordered
    have still : d.utf8Remaining = 0 := by
      rw [touched.same]
      exact quiet
    obtain ⟨c, rest, more⟩ := ih (ordered.touched quiet touched) still
    rw [touched.cells.length] at more
    refine ⟨c, ?_, touched.trans more⟩
    rw [times, first]
    exact rest

end Erasing

/-- An erase touches some part of the grid, be it the wrong one. -/
theorem eraseDisplay_touches {b c : Builder} {mode : Nat} (done : b.eraseDisplay mode = some c) :
    ∃ start stop, Touched b start stop c := by
  unfold eraseDisplay at done
  dsimp only at done
  split at done
  · exact ⟨_, _, withCells_touched done fun _ found => fill_redrawn found⟩
  · exact ⟨_, _, withCells_touched done fun _ found => fill_redrawn found⟩
  · exact ⟨_, _, withCells_touched done fun _ found => fill_redrawn found⟩
  · exact ⟨_, _, withCells_touched done fun _ found => fill_redrawn found⟩
  · cases done
    exact ⟨0, 0, .refl b 0 0⟩

theorem eraseLine_touches {b c : Builder} {mode : Nat} (done : b.eraseLine mode = some c) :
    ∃ start stop, Touched b start stop c := by
  unfold eraseLine at done
  dsimp only at done
  split at done
  · exact ⟨_, _, withCells_touched done fun _ found => fill_redrawn found⟩
  · exact ⟨_, _, withCells_touched done fun _ found => fill_redrawn found⟩
  · exact ⟨_, _, withCells_touched done fun _ found => fill_redrawn found⟩
  · cases done
    exact ⟨0, 0, .refl b 0 0⟩

/-! Every step keeps the order -/

/-- A builder in order, of the same size. -/
structure Builder.Stays (b c : Builder) : Prop where
  ordered : c.Ordered
  rows : c.rows = b.rows
  columns : c.columns = b.columns

namespace Builder.Stays

variable {b c : Builder}

theorem trans {d : Builder} (one : b.Stays c) (two : c.Stays d) : b.Stays d :=
  ⟨two.ordered, two.rows.trans one.rows, two.columns.trans one.columns⟩

theorem of_touched (ordered : b.Ordered) (quiet : b.utf8Remaining = 0) {start stop : Nat}
    (touched : Touched b start stop c) : b.Stays c :=
  ⟨ordered.touched quiet touched, by rw [touched.same], by rw [touched.same]⟩

variable (ordered : b.Ordered)
include ordered

theorem refl : b.Stays b := ⟨ordered, rfl, rfl⟩

theorem moved {row column : Nat} (inside : row < b.rows) (narrow : column ≤ b.columns) :
    b.Stays { b with cursorRow := row, cursorColumn := column } :=
  ⟨{ ordered with inside, narrow }, rfl, rfl⟩

theorem lineFeed (quiet : b.utf8Remaining = 0) :
    ∃ c, b.lineFeed = some c ∧ b.Stays c ∧ c.cursorColumn = b.cursorColumn ∧
    if b.cursorRow + 1 < b.rows then c.cursorRow = b.cursorRow + 1 ∧
      c.cells = b.cells else c.cursorRow = b.cursorRow := by
  unfold Builder.lineFeed
  split
  · rename_i below
    exact ⟨_, rfl, ⟨{ ordered with inside := below }, rfl, rfl⟩, rfl, rfl, rfl⟩
  · obtain ⟨c, scrolled, touched⟩ := scrollUp_touched ordered
    exact ⟨c, scrolled, of_touched ordered quiet touched, by rw [touched.same], by rw [touched.same]⟩

theorem reverseIndex (quiet : b.utf8Remaining = 0) : ∃ c, b.reverseIndex = some c ∧ b.Stays c ∧
    (0 < b.cursorRow → c.cells = b.cells) := by
  have inside := ordered.inside
  unfold Builder.reverseIndex
  split
  · rename_i above
    refine ⟨_, rfl, ⟨{ ordered with inside := ?_ }, rfl, rfl⟩, fun _ => rfl⟩
    change b.cursorRow - 1 < b.rows
    omega
  · rename_i top
    obtain ⟨c, scrolled, touched⟩ := scrollDown_touched ordered
    exact ⟨c, scrolled, of_touched ordered quiet touched, fun above => absurd above top⟩

theorem enter (quiet : b.utf8Remaining = 0) : b.Stays b.enterAlternateScreen := by
  unfold Builder.enterAlternateScreen
  split
  · exact refl ordered
  · exact ⟨{ ordered with
      length := (List.length_replicate ..).trans ordered.spare
      spare := ordered.length
      formed := fun cell listed => List.eq_of_mem_replicate listed ▸ .inl rfl
      spareFormed := ordered.formed
      inside := ordered.rows.1
      narrow := Nat.zero_le _
      last := fun owing => absurd quiet (Nat.ne_of_gt owing) }, rfl, rfl⟩

theorem leave (quiet : b.utf8Remaining = 0) : b.Stays b.leaveAlternateScreen := by
  have rows := ordered.rows
  have columns := ordered.columns
  unfold Builder.leaveAlternateScreen
  split
  · refine ⟨{ ordered with
      length := ordered.spare
      spare := ordered.length
      formed := ordered.spareFormed
      spareFormed := ordered.formed
      inside := ?_
      narrow := ?_
      last := fun owing => absurd quiet (Nat.ne_of_gt owing) }, rfl, rfl⟩
    · change min b.primaryRow (b.rows - 1) < b.rows
      omega
    · change min b.primaryColumn (b.columns - 1) ≤ b.columns
      omega
  · exact refl ordered

theorem restore : b.Stays b.restoreCursor := by
  have rows := ordered.rows
  have columns := ordered.columns
  exact moved ordered (by omega) (by omega)

theorem reset (quiet : b.utf8Remaining = 0) : b.Stays b.reset := by
  have left : b.Stays (if b.inAlternateScreen then b.leaveAlternateScreen else b) := by
    split
    · exact leave ordered quiet
    · exact refl ordered
  refine left.trans ⟨{ left.ordered with
    length := (List.length_replicate ..).trans left.ordered.length
    spare := (List.length_replicate ..).trans left.ordered.spare
    formed := fun cell listed => List.eq_of_mem_replicate listed ▸ .inl rfl
    spareFormed := fun cell listed => List.eq_of_mem_replicate listed ▸ .inl rfl
    inside := left.ordered.rows.1
    narrow := Nat.zero_le _
    last := fun owing => absurd owing (Nat.lt_irrefl 0)
    quiet := fun _ => rfl }, rfl, rfl⟩

end Builder.Stays

section Csi

variable {b c : Builder}

theorem setPrivateMode_stays (ordered : b.Ordered) (quiet : b.utf8Remaining = 0) (enabled : Bool) :
    b.Stays (b.setPrivateMode enabled) := by
  have both : ∀ modes : List Nat, ∀ b : Builder, b.Ordered → b.utf8Remaining = 0 →
      b.Stays (modes.foldl (fun b mode =>
        if isScreenMode mode then (if
          enabled then b.enterAlternateScreen else b.leaveAlternateScreen) else b) b) := by
    intro modes
    induction modes with
    | nil => exact fun b ordered _ => .refl ordered
    | cons mode rest ih =>
      intro b ordered quiet
      have first : b.Stays (if isScreenMode mode then
          (if enabled then b.enterAlternateScreen else b.leaveAlternateScreen) else b) ∧
          (if isScreenMode mode then (if enabled then b.enterAlternateScreen else b.leaveAlternateScreen)
            else b).utf8Remaining = 0 := by
        unfold enterAlternateScreen leaveAlternateScreen
        split
        · split
          · exact ⟨Stays.enter ordered quiet, by split <;> exact quiet⟩
          · exact ⟨Stays.leave ordered quiet, by split <;> exact quiet⟩
        · exact ⟨.refl ordered, quiet⟩
      exact first.1.trans (ih _ first.1.ordered first.2)
  exact both _ b ordered quiet

/-- A control sequence leaves the builder in order, even where it redraws the wrong cells. -/
theorem executeCsi_stays (ordered : b.Ordered) (quiet : b.utf8Remaining = 0) {final : UInt8}
    (done : b.executeCsi final = some c) : b.Stays c := by
  have rows := ordered.rows
  have columns := ordered.columns
  have inside := ordered.inside
  have narrow := ordered.narrow
  have touches {x : Option Builder} {start stop : Nat} (drawn : ∃ c, x = some c ∧ Touched b start stop c)
      (done : x = some c) : b.Stays c := by
    obtain ⟨d, same, touched⟩ := drawn
    cases same.symm.trans done
    exact .of_touched ordered quiet touched
  unfold executeCsi at done
  dsimp only at done
  split at done
  case h_1 => exact Option.some.inj done ▸ .moved ordered (by omega) narrow
  case h_2 => exact Option.some.inj done ▸ .moved ordered (by omega) narrow
  case h_3 => exact Option.some.inj done ▸ .moved ordered inside (by omega)
  case h_4 => exact Option.some.inj done ▸ .moved ordered inside (by omega)
  case h_5 => exact Option.some.inj done ▸ .moved ordered inside (by omega)
  case h_6 => exact Option.some.inj done ▸ .moved ordered (by omega) (by omega)
  case h_7 => exact Option.some.inj done ▸ .moved ordered (by omega) (by omega)
  case h_8 => exact Option.some.inj done ▸ .moved ordered inside (by omega)
  case h_9 => exact Option.some.inj done ▸ .moved ordered inside (by omega)
  case h_10 => exact Option.some.inj done ▸ .moved ordered (by omega) (by omega)
  case h_11 => exact Option.some.inj done ▸ .moved ordered (by omega) (by omega)
  case h_12 => exact Option.some.inj done ▸ .moved ordered (by omega) narrow
  case h_13 =>
    obtain ⟨start, stop, touched⟩ := eraseDisplay_touches done
    exact .of_touched ordered quiet touched
  case h_14 =>
    obtain ⟨start, stop, touched⟩ := eraseLine_touches done
    exact .of_touched ordered quiet touched
  case h_15 => exact touches (insertCells_touched ordered _) done
  case h_16 => exact touches (deleteCells_touched ordered _) done
  case h_17 => exact touches (eraseCells_touched ordered _) done
  case h_18 => exact touches (insertLines_touched ordered _) done
  case h_19 => exact touches (deleteLines_touched ordered _) done
  case h_20 => exact touches (times_touched ordered (fun _ => scrollUp_touched) _ quiet) done
  case h_21 => exact touches (times_touched ordered (fun _ => scrollDown_touched) _ quiet) done
  case h_22 => exact Option.some.inj done ▸ ⟨{ ordered with }, rfl, rfl⟩
  case h_23 => exact Option.some.inj done ▸ .restore ordered
  case h_24 =>
    cases done
    split
    · exact setPrivateMode_stays ordered quiet true
    · exact .refl ordered
  case h_25 =>
    cases done
    split
    · exact setPrivateMode_stays ordered quiet false
    · exact .refl ordered
  case h_26 => exact Option.some.inj done ▸ ⟨{ ordered with }, rfl, rfl⟩
  case h_27 => exact Option.some.inj done ▸ .refl ordered

end Csi

end Machinen.Vt
