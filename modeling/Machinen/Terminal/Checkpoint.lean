import Machinen.Terminal.Renditions

/-! What a fresh builder shows after a checkpoint: every painted cell as it was, up to the
rendition it is read back with. -/
namespace Machinen.Vt

open Builder

/-- The rendition that the bytes of a rendition leave behind. -/
noncomputable def reread (rendition : Rendition) : Rendition := (feed_rendition rendition).choose

theorem reread_eq (rendition : Rendition) : reread rendition = rendition ↔ rendition.Fits :=
  (feed_rendition rendition).choose_spec.1

theorem reread_default : reread {} = {} := (reread_eq {}).mpr (by decide)

section Feeding

variable {b : Builder} {rows columns row column : Nat} {cells : List Cell} {rendition : Rendition}

theorem feed_reread (new : Rendition) (shows_ : Shows b rows columns cells row column rendition) :
    ∃ c, b.feed (renditionBytes new) = some c ∧ Shows c rows columns cells row column (reread new) :=
  (feed_rendition new).choose_spec.2 shows_

theorem starts_plain {lead : UInt8} {count : Nat} (starts : continuations lead = some count) :
    isContinuation lead = false ∧ (b.feedCharacter lead = b.putCharacter lead count) := by
  have none_ : ∀ n : Fin 256, ∀ byte, byte = UInt8.ofNat n.val → isContinuation byte = true ∨ byte = 0x1b ∨
      byte = 0x0d ∨ byte = 0x0a ∨ byte = 0x0b ∨ byte = 0x0c ∨ byte = 0x08 ∨ byte = 0x09 →
      continuations byte = none := by
    simp only [forall_eq]
    decide +kernel
  have away : ¬ (isContinuation lead = true ∨ lead = 0x1b ∨ lead = 0x0d ∨ lead = 0x0a ∨
      lead = 0x0b ∨ lead = 0x0c ∨ lead = 0x08 ∨ lead = 0x09) :=
    fun control => nomatch (none_ ⟨lead.toNat, lead.toNat_lt⟩ lead UInt8.ofNat_toNat.symm
      control).symm.trans starts
  simp only [not_or] at away
  obtain ⟨plain, escape, return_, newline, tab, form, back, tabulator⟩ := away
  refine ⟨Bool.eq_false_iff.mpr plain, ?_⟩
  unfold feedCharacter
  rw [if_neg escape, if_neg return_, if_neg (by simp only [not_or]; exact ⟨newline, tab, form⟩),
    if_neg back, if_neg tabulator, starts]

theorem feed_rest {index owed : Nat} {lead : UInt8} {done rest : Bytes} (ground : b.state = .ground)
    (all : ∀ byte ∈ rest, isContinuation byte = true) (remaining : b.utf8Remaining = rest.length + owed)
    (last : b.lastCell = some index) (here : b.cells[index]? = some ⟨lead :: done, rendition⟩)
    (room : done.length + rest.length ≤ 3) :
    b.feed rest = some { b with
      cells := b.cells.set index ⟨lead :: done ++ rest, rendition⟩
      utf8Remaining := owed } := by
  induction rest generalizing b done with
  | nil =>
    obtain ⟨inside, same⟩ := List.getElem?_eq_some_iff.mp here
    rw [List.append_nil, ← same, List.set_getElem_self inside, ← (remaining.trans (Nat.zero_add owed))]
    rfl
  | cons byte rest ih =>
    obtain ⟨inside, -⟩ := List.getElem?_eq_some_iff.mp here
    rw [List.length_cons] at remaining room
    have extended : b.extendCell byte = some (b.cells.set index ⟨lead :: (done ++ [byte]), rendition⟩) := by
      unfold extendCell
      rw [last]
      simp only [here, Option.bind_eq_bind, Option.bind_some]
      rw [if_pos (by rw [List.length_cons]; unfold Cell.capacity; omega), List.cons_append]
    have first : b.feedByte byte = some { b with
        cells := b.cells.set index ⟨lead :: (done ++ [byte]), rendition⟩
        utf8Remaining := b.utf8Remaining - 1 } := by
      simp only [feedByte, ground, feedGround]
      rw [if_pos ⟨by omega, all byte List.mem_cons_self⟩, extended]
      rfl
    have found : ({ b with
        cells := b.cells.set index ⟨lead :: (done ++ [byte]), rendition⟩
        utf8Remaining := b.utf8Remaining - 1 } : Builder).cells[index]? =
        some ⟨lead :: (done ++ [byte]), rendition⟩ := List.getElem?_set_self inside
    have rested := @ih { b with
      cells := b.cells.set index ⟨lead :: (done ++ [byte]), rendition⟩
      utf8Remaining := b.utf8Remaining - 1 } (done ++ [byte]) ground
      (fun other listed => all other (List.mem_cons_of_mem _ listed))
      (show b.utf8Remaining - 1 = rest.length + owed by omega) last found
      (by rw [List.length_append, List.length_singleton]; omega)
    rw [feed_cons, first, Option.bind_some, rested]
    simp only [List.set_set, List.cons_append, List.append_assoc, List.nil_append]

theorem feed_character {before after_ : List Cell} {old : Cell} {glyph : Bytes} {owed : Nat} {r : Rendition}
    (owes : Owes owed ⟨glyph, r⟩)
    (shows_ : Shows b rows columns (before ++ old :: after_) row column rendition)
    (here : before.length = row * columns + column) (inside : column < columns) :
    ∃ c, b.feed glyph = some c ∧
      Shows c rows columns (before ++ ⟨glyph, rendition⟩ :: after_) row (column + 1) rendition := by
  obtain ⟨lead, rest, bytes, starts, all⟩ := owes
  change glyph = lead :: rest at bytes
  subst bytes
  have small := continuations_le starts
  obtain ⟨plain, put⟩ := starts_plain (b := { b with utf8Remaining := 0, lastCell := none }) starts
  have index : b.cursorRow * b.columns + b.cursorColumn = before.length := by
    rw [shows_.row, shows_.columns, shows_.column, here]
  have placed : b.feedByte lead = some { b with
      cells := before ++ ⟨[lead], rendition⟩ :: after_
      lastCell := some before.length
      utf8Remaining := rest.length + owed
      cursorColumn := b.cursorColumn + 1 } := by
    have narrow : ¬ b.cursorColumn ≥ b.columns := by
      rw [shows_.column, shows_.columns]
      omega
    have grounded : b.feedByte lead = b.feedGround lead := by
      unfold feedByte
      rw [shows_.state]
    rw [grounded, feedGround_other plain, put]
    unfold putCharacter wrap
    rw [if_neg narrow, Option.bind_some]
    unfold place
    dsimp only
    rw [index, shows_.cells, shows_.rendition, if_pos (by simp), List.set_append_right _ _ (Nat.le_refl _),
      Nat.sub_self]
    rfl
  rw [feed_cons, placed, Option.bind_some,
    feed_rest (by exact shows_.state) all rfl rfl (List.getElem?_append_right (Nat.le_refl _) |>.trans (by
      rw [Nat.sub_self]
      rfl)) (by rw [List.length_nil]; omega)]
  refine ⟨_, rfl, shows_.rows, shows_.columns, ?_, shows_.row, congrArg (· + 1) shows_.column,
    shows_.rendition, shows_.state, shows_.primary⟩
  dsimp only
  rw [List.set_append_right _ _ (Nat.le_refl _), Nat.sub_self]
  rfl

theorem glyph_owes {cell : Cell} (formed : cell.Formed) :
    ∃ owed, Owes owed ⟨cell.glyph, cell.rendition⟩ := by
  unfold Cell.glyph
  rcases formed with none_ | ⟨owed, owes⟩
  · rw [if_pos none_]
    exact ⟨0, Owes.start (by decide) _⟩
  · obtain ⟨lead, rest, bytes, more⟩ := owes
    rw [if_neg (by rw [bytes]; exact nofun)]
    exact ⟨owed, lead, rest, bytes, more⟩

noncomputable def repaint (cell : Cell) : Cell := ⟨cell.glyph, reread cell.rendition⟩

theorem feed_cells {painted before old after_ : List Cell} {emitted : Rendition}
    (formed : ∀ cell ∈ painted, cell.Formed)
    (shows_ : Shows b rows columns (before ++ (old ++ after_)) row column (reread emitted))
    (here : before.length = row * columns + column) (covers : old.length = painted.length)
    (inside : column + painted.length ≤ columns) :
    ∃ c, b.feed (paintCells emitted painted).1 = some c ∧
      Shows c rows columns (before ++ (painted.map repaint ++ after_)) row (column + painted.length)
        (reread (paintCells emitted painted).2) := by
  induction painted generalizing b before old column emitted with
  | nil =>
    cases List.length_eq_zero_iff.mp covers
    exact ⟨b, rfl, shows_⟩
  | cons cell rest ih =>
    cases old with
    | nil => exact nomatch covers
    | cons under old =>
      rw [List.length_cons] at inside
      have changed : ∃ c, b.feed (if emitted ≠ cell.rendition then renditionBytes cell.rendition else []) =
        some c ∧
          Shows c rows columns (before ++ (under :: old ++ after_)) row column (reread cell.rendition) := by
        by_cases same : emitted = cell.rendition
        · rw [if_neg (not_not.mpr same)]
          exact ⟨b, rfl, same ▸ shows_⟩
        · rw [if_pos same]
          exact feed_reread cell.rendition shows_
      obtain ⟨c, fed, shown⟩ := changed
      obtain ⟨owed, owes⟩ := glyph_owes (formed cell List.mem_cons_self)
      rw [List.cons_append] at shown
      obtain ⟨d, fedGlyph, shownGlyph⟩ := feed_character owes shown here (by omega)
      rw [List.append_cons] at shownGlyph
      obtain ⟨e, fedRest, shownRest⟩ := ih (fun other listed =>
        formed other (List.mem_cons_of_mem _ listed))
        shownGlyph (by rw [List.length_append, List.length_singleton]; omega) (Nat.succ.inj covers)
          (by omega)
      refine ⟨e, ?_, ?_⟩
      · change b.feed ((if emitted ≠ cell.rendition then renditionBytes cell.rendition else []) ++
          cell.glyph ++ (paintCells cell.rendition rest).1) = some e
        rw [List.append_assoc, feed_append, fed, Option.bind_some, feed_append, fedGlyph, Option.bind_some]
        exact fedRest
      · rw [List.append_assoc, Nat.add_right_comm] at shownRest
        exact shownRest

end Feeding
theorem lastOccupied_some {cells : List Cell} {width last : Nat}
    (found : lastOccupied cells width = some last) :
    last < width ∧ ∀ column cell, last < column → column < width → cells[column]? = some cell →
      occupied cell = false := by
  induction width with
  | zero => exact nomatch found
  | succ width ih =>
    unfold lastOccupied at found
    split at found
    · cases found
      exact ⟨Nat.lt_succ_self _, fun column cell above below => absurd below (by omega)⟩
    · rename_i free
      obtain ⟨less, rest⟩ := ih found
      refine ⟨Nat.lt_succ_of_lt less, fun column cell above below here => ?_⟩
      by_cases same : column = width
      · subst same
        rw [here] at free
        exact Bool.eq_false_iff.mpr free
      · exact rest column cell above (by omega) here

theorem lastOccupied_none {cells : List Cell} {width : Nat} (none_ : lastOccupied cells width = none) :
    ∀ column cell, column < width → cells[column]? = some cell → occupied cell = false := by
  induction width with
  | zero => exact fun column cell below => absurd below (Nat.not_lt_zero _)
  | succ width ih =>
    unfold lastOccupied at none_
    split at none_
    · exact nomatch none_
    · rename_i free
      intro column cell below here
      by_cases same : column = width
      · subst same
        rw [here] at free
        exact Bool.eq_false_iff.mpr free
      · exact ih none_ column cell (by omega) here

/-- The cells that a checkpoint leaves in a row. -/
noncomputable def shownRow (b : Builder) (index : Nat) : List Cell :=
  match b.lastOccupiedColumn index with
  | none => List.replicate b.columns {}
  | some last => ((b.row index).take (last + 1)).map repaint ++ List.replicate (b.columns - (last + 1)) {}

/-- A builder that a checkpoint can be taken of. -/
structure Sound (b : Builder) : Prop where
  rows : 0 < b.rows ∧ b.rows ≤ maxDimension
  columns : 0 < b.columns ∧ b.columns ≤ maxDimension
  length : b.cells.length = b.rows * b.columns
  formed : ∀ cell ∈ b.cells, cell.Formed
  inside : b.cursorRow < b.rows
  narrow : b.cursorColumn ≤ b.columns
  primary : b.inAlternateScreen = false

section Rows

variable {b : Builder} (sound : Sound b)
include sound

theorem row_length {index : Nat} (inside : index < b.rows) : (b.row index).length = b.columns := by
  have enough : (index + 1) * b.columns ≤ b.rows * b.columns := Nat.mul_le_mul_right _ inside
  rw [Nat.succ_mul] at enough
  unfold row
  rw [List.length_take, List.length_drop, sound.length]
  omega

theorem shownRow_length {index : Nat} (inside : index < b.rows) :
    (shownRow b index).length = b.columns := by
  unfold shownRow
  split
  · exact List.length_replicate ..
  · rename_i last found
    have := (lastOccupied_some found).1
    rw [List.length_append, List.length_map, List.length_take, row_length sound inside,
      List.length_replicate]
    omega

theorem row_formed (index : Nat) : ∀ cell ∈ b.row index, cell.Formed :=
  fun cell listed => sound.formed cell (List.mem_of_mem_drop (List.mem_of_mem_take listed))

theorem feed_row {c : Builder} {done after_ : List Cell} {row column index : Nat} {emitted : Rendition}
    (inside : index < b.rows)
    (shows_ : Shows c b.rows b.columns (done ++ (List.replicate b.columns ({} : Cell) ++ after_)) row column
      (reread emitted))
    (here : done.length = index * b.columns) :
    ∃ d row' column', c.feed (b.paintRow emitted index).1 = some d ∧
      Shows d b.rows b.columns (done ++ (shownRow b index ++ after_)) row' column'
        (reread (b.paintRow emitted index).2) := by
  have rows := sound.rows
  have columns := sound.columns
  unfold maxDimension at rows columns
  unfold paintRow shownRow
  cases found : b.lastOccupiedColumn index with
  | none => exact ⟨c, row, column, rfl, shows_⟩
  | some last =>
    have less := (lastOccupied_some found).1
    have width := row_length sound inside
    have taken : ((b.row index).take (last + 1)).length = last + 1 := by
      rw [List.length_take, width]
      omega
    obtain ⟨d, moved, shown, -⟩ := feed_cursor shows_
      (show 10 * (index + 1) ≤ maxParameter by unfold maxParameter maxU16; omega)
      (show 10 * 1 ≤ maxParameter by decide) (Nat.succ_pos _) Nat.one_pos
    rw [Nat.add_sub_cancel, Nat.sub_self, Nat.zero_min, Nat.min_eq_left (by omega),
      show b.columns = last + 1 + (b.columns - (last + 1)) by
        omega, List.replicate_add, List.append_assoc] at shown
    rw [show last + 1 + (b.columns - (last + 1)) = b.columns by omega] at shown
    obtain ⟨e, painted, shown⟩ := feed_cells
      (fun cell (listed : cell ∈ (b.row index).take (last + 1)) =>
      row_formed sound index cell (List.mem_of_mem_take listed)) shown here
      (by rw [List.length_replicate, taken]) (by rw [taken]; omega)
    refine ⟨e, index, 0 + ((b.row index).take (last + 1)).length, ?_, ?_⟩
    · dsimp only
      rw [feed_append, moved, Option.bind_some]
      exact painted
    · dsimp only
      rw [List.append_assoc]
      exact shown

theorem feed_rows {fresh c : Builder} {done : List Cell} {row column : Nat} {emitted : Rendition}
    {output : Bytes} (count start : Nat) (all : start + count = b.rows) (fed : fresh.feed output = some c)
    (shows_ : Shows c b.rows b.columns (done ++ List.replicate (count * b.columns) ({} : Cell)) row column
      (reread emitted))
    (here : done.length = start * b.columns) :
    ∃ d row' column', fresh.feed (b.paintRows (List.range' start count) (output, emitted)).1 = some d ∧
      Shows d b.rows b.columns (done ++ (List.range' start count).flatMap (shownRow b)) row' column'
        (reread (b.paintRows (List.range' start count) (output, emitted)).2) := by
  induction count generalizing start c done row column emitted output with
  | zero =>
    rw [Nat.zero_mul] at shows_
    exact ⟨c, row, column, fed, shows_⟩
  | succ count ih =>
    rw [Nat.succ_mul, Nat.add_comm, List.replicate_add] at shows_
    obtain ⟨d, row', column', painted, shown⟩ := feed_row sound (by omega) shows_ here
    rw [← List.append_assoc] at shown
    have fedRow : fresh.feed (output ++ (b.paintRow emitted start).1) = some d := by
      rw [feed_append, fed, Option.bind_some]
      exact painted
    obtain ⟨e, row'', column'', rest, shownRest⟩ := ih (start + 1) (by omega) fedRow shown
      (by rw [List.length_append, here, shownRow_length sound (by omega), Nat.succ_mul])
    refine ⟨e, row'', column'', rest, ?_⟩
    rw [List.range'_succ, List.flatMap_cons, ← List.append_assoc]
    exact shownRest

end Rows
end Machinen.Vt
