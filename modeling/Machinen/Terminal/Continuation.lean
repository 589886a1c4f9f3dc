import Machinen.Terminal.Checkpoint

/-! A stream that is cut in two. A fresh builder that is fed the checkpoint of the first part
and then the second part shows what one builder shows that is fed both, exactly when nothing
is pending at the cut and every rendition fits in the parameters of the parser. -/
namespace Machinen.Vt

open Builder

/-- Two cells that look the same: a blank of which no rendition is visible may have another. -/
def Cell.Alike (cell cell' : Cell) : Prop :=
  cell'.glyph = cell.glyph ∧ (cell'.rendition = cell.rendition ∨ cell.glyph = [0x20] ∧
    blankRenditionIsVisible cell.rendition = false ∧ blankRenditionIsVisible cell'.rendition = false)

theorem Cell.Alike.refl (cell : Cell) : Cell.Alike cell cell := ⟨rfl, .inl rfl⟩

/-- The visible grid, the cursor and the active rendition. -/
structure Agree (b c : Builder) : Prop where
  rows : c.rows = b.rows
  columns : c.columns = b.columns
  cells : List.Forall₂ Cell.Alike b.cells c.cells
  cursorRow : c.cursorRow = b.cursorRow
  cursorColumn : c.cursorColumn = b.cursorColumn
  rendition : c.rendition = b.rendition

/-- No sequence, no character and no wrap is pending, and no rendition has more parameters
than the parser keeps. -/
structure Builder.Resumable (b : Builder) : Prop where
  state : b.state = .ground
  column : b.cursorColumn < b.columns
  character : b.utf8Remaining = 0
  rendition : b.rendition.Fits
  cells : ∀ cell ∈ b.cells, cell.rendition.Fits

theorem forall₂_glyphs {cells cells' : List Cell} (alike : List.Forall₂ Cell.Alike cells cells')
    (index : Nat) : (cells'[index]?).map Cell.glyph = (cells[index]?).map Cell.glyph := by
  induction alike generalizing index with
  | nil => rfl
  | cons first rest ih =>
    cases index with
    | zero => exact congrArg some first.1
    | succ index => exact ih index

theorem Twin.agree {R C : Nat} {b c : Builder} (twin : Twin Cell.Alike R C b c) : Agree b c :=
  ⟨twin.rows, twin.columns, twin.cells, twin.cursorRow, twin.cursorColumn, twin.rendition⟩

theorem init_some {rows columns : Nat} {fresh : Builder} (size : init rows columns = some fresh) :
    (0 < rows ∧ rows ≤ maxDimension) ∧ (0 < columns ∧ columns ≤ maxDimension) ∧
    fresh = { cells := List.replicate (rows * columns) {}, inactiveCells := List.replicate (rows * columns) {},
              rows, columns } := by
  unfold init validSize at size
  split at size
  · rename_i valid
    simp only [Bool.not_eq_true', Bool.or_eq_false_iff, beq_eq_false_iff_ne,
      decide_eq_false_iff_not] at valid
    exact ⟨by omega, by omega, (Option.some.inj size).symm⟩
  · cases size

section Streams

variable {rows columns : Nat} {fresh b : Builder} {stream : Bytes} (size : init rows columns = some fresh)
include size

theorem init_twin {A : Cell → Cell → Prop} (formed : ∀ cell : Cell, cell.Formed → A cell cell) :
    Twin A rows columns fresh fresh := by
  obtain ⟨height, width, rfl⟩ := init_some size
  exact {
    rows := rfl
    columns := rfl
    cursorRow := rfl
    cursorColumn := rfl
    state := rfl
    rendition := rfl
    utf8Remaining := rfl
    primary := ⟨rfl, rfl⟩
    csi := nofun
    cells := forall₂_replicate (formed _ (.inl rfl)) _
    last := fun owing => absurd owing (Nat.lt_irrefl 0)
    quiet := fun _ => rfl
    inside := height.1
    length := List.length_replicate ..
    size := ⟨rfl, rfl⟩
    wide := width.1
    narrow := Nat.zero_le _ }

theorem feed_reset : ∃ c, fresh.feed [0x1b, 0x63] = some c ∧
    Shows c rows columns (List.replicate (rows * columns) ({} : Cell)) 0 0 {} := by
  obtain ⟨-, -, rfl⟩ := init_some size
  refine ⟨_, rfl, rfl, rfl, ?_, rfl, rfl, rfl, rfl, rfl⟩
  exact congrArg (List.replicate · ({} : Cell)) (List.length_replicate ..)

theorem fed_twin (plain : Plain fresh stream) (fed : fresh.feed stream = some b) :
    Twin (fun cell _ => cell.Formed) rows columns b b := by
  have related := feed_twin (A := fun cell _ => cell.Formed) (init_twin size fun _ formed => formed)
    (fun _ formed => formed) plain
  rw [fed] at related
  cases related with
  | some twin => exact twin

theorem fed_sound (plain : Plain fresh stream) (fed : fresh.feed stream = some b) :
    Sound b ∧ b.rows = rows ∧ b.columns = columns := by
  have twin := fed_twin size plain fed
  obtain ⟨height, width, -⟩ := init_some size
  refine ⟨⟨twin.size.1 ▸ height, twin.size.2 ▸ width, twin.length, ?_, twin.inside, twin.narrow,
    twin.primary.1⟩, twin.size⟩
  intro cell listed
  obtain ⟨index, inside, rfl⟩ := List.getElem_of_mem listed
  exact twin.cells.get inside inside

end Streams

theorem invisible_fits {rendition : Rendition} (invisible : blankRenditionIsVisible rendition = false) :
    rendition.Fits := by
  unfold blankRenditionIsVisible at invisible
  simp only [Bool.or_eq_false_iff, bne_eq_false_iff_eq] at invisible
  obtain ⟨background, ⟨⟨underline, inverse⟩, strikethrough⟩, overline⟩ := invisible
  have styles : attributeOrder.filter rendition.attributes =
      [.bold, .faint, .italic, .blink, .hidden].filter rendition.attributes := by
    simp only [attributeOrder, List.filter_cons, underline, inverse, strikethrough, overline]
    rfl
  have few : ([.bold, .faint, .italic, .blink, .hidden].filter rendition.attributes).length ≤ 5 :=
    List.length_filter_le ..
  have foreground := colorParameters_length rendition.foreground .foreground
  have line := colorParameters_length rendition.underlineColor .underline
  unfold Rendition.Fits renditionParameters maxParams
  rw [background, styles, show colorParameters .default .background = [] from rfl, List.append_nil,
    List.length_append, List.length_append, List.length_map]
  omega

theorem glyph_twice (cell : Cell) (rendition : Rendition) :
    (⟨cell.glyph, rendition⟩ : Cell).glyph = cell.glyph := by
  have some_ : cell.glyph ≠ [] := by
    unfold Cell.glyph
    split
    · exact nofun
    · assumption
  exact if_neg some_

theorem repaint_alike (cell : Cell) : Cell.Alike cell (repaint cell) ↔ cell.rendition.Fits := by
  constructor
  · rintro ⟨-, same | ⟨-, invisible, -⟩⟩
    · exact (reread_eq _).mp same
    · exact invisible_fits invisible
  · intro fits
    exact ⟨glyph_twice cell _, .inl ((reread_eq _).mpr fits)⟩

theorem unpainted_alike {cell : Cell} (free : occupied cell = false) :
    Cell.Alike cell {} ∧ cell.rendition.Fits := by
  unfold occupied at free
  rw [Bool.or_eq_false_iff] at free
  have none_ : cell.bytes = [] := by simpa using free.1
  have blank : cell.glyph = [0x20] := if_pos none_
  exact ⟨⟨blank.symm, .inr ⟨blank, free.2, rfl⟩⟩, invisible_fits free.2⟩

theorem forall₂_map_iff {α β : Type} {R : α → β → Prop} {P : α → Prop} {f : α → β}
    (same : ∀ a, R a (f a) ↔ P a) (list : List α) : List.Forall₂ R list (list.map f) ↔ ∀ a ∈ list, P a := by
  induction list with
  | nil => simp
  | cons a rest ih => simp [same, ih]

theorem forall₂_append_iff {α β : Type} {R : α → β → Prop} {front back : List α} {front' back' : List β}
    (same : front.length = front'.length) :
    List.Forall₂ R (front ++ back) (front' ++ back') ↔ List.Forall₂ R front front' ∧
      List.Forall₂ R back back' := by
  constructor
  · intro related
    have first := List.forall₂_take front.length related
    have rest := List.forall₂_drop front.length related
    rw [List.take_left, same, List.take_left] at first
    rw [List.drop_left, same, List.drop_left] at rest
    exact ⟨first, rest⟩
  · rintro ⟨first, rest⟩
    exact List.rel_append first rest

theorem forall₂_replicate_right {α β : Type} {R : α → β → Prop} {b : β} {list : List α}
    (all : ∀ a ∈ list, R a b) : List.Forall₂ R list (List.replicate list.length b) := by
  induction list with
  | nil => exact .nil
  | cons a rest ih =>
    exact .cons (all a List.mem_cons_self) (ih fun other listed =>
      all other (List.mem_cons_of_mem _ listed))

section Repainted

variable {b : Builder} (sound : Sound b)
include sound

omit sound in
theorem row_tail {index : Nat} {start : Nat}
    (free : ∀ column cell, start ≤ column → (b.row index)[column]? = some cell → occupied cell = false) :
    ∀ cell ∈ (b.row index).drop start, occupied cell = false := by
  intro cell listed
  obtain ⟨column, found⟩ := List.getElem?_of_mem listed
  rw [List.getElem?_drop] at found
  exact free _ cell (Nat.le_add_right _ _) found

theorem row_alike {index : Nat} (inside : index < b.rows) :
    List.Forall₂ Cell.Alike (b.row index) (shownRow b index) ↔ ∀ cell ∈ b.row index,
    cell.rendition.Fits := by
  have width := row_length sound inside
  have short : ∀ {column cell}, (b.row index)[column]? = some cell → column < b.columns := fun found => by
    rw [← width]
    exact (List.getElem?_eq_some_iff.mp found).1
  unfold shownRow
  cases found : b.lastOccupiedColumn index with
  | none =>
    have free : ∀ cell ∈ (b.row index).drop 0, occupied cell = false :=
      row_tail fun column cell _ here => lastOccupied_none found column cell (short here) here
    rw [List.drop_zero] at free
    rw [← width]
    exact ⟨fun _ cell listed => (unpainted_alike (free cell listed)).2,
      fun _ => forall₂_replicate_right fun cell listed => (unpainted_alike (free cell listed)).1⟩
  | some last =>
    obtain ⟨less, behind⟩ := lastOccupied_some found
    have free : ∀ cell ∈ (b.row index).drop (last + 1), occupied cell = false :=
      row_tail fun column cell above here => behind column cell above (short here) here
    have rest : b.columns - (last + 1) = ((b.row index).drop (last + 1)).length := by
      rw [List.length_drop, width]
    have back := forall₂_replicate_right (R := Cell.Alike) fun cell listed =>
      (unpainted_alike (free cell listed)).1
    have split : List.Forall₂ Cell.Alike ((b.row index).take (last + 1) ++ (b.row index).drop (last + 1))
        (((b.row index).take (last + 1)).map repaint ++ List.replicate (b.columns - (last + 1))
        ({} : Cell)) ↔ _ :=
      forall₂_append_iff (List.length_map ..).symm
    rw [List.take_append_drop, forall₂_map_iff repaint_alike] at split
    dsimp only
    rw [split, show b.columns - (last + 1) =
      ((b.row index).drop (last + 1)).length by rw [List.length_drop, width]]
    constructor
    · rintro ⟨early, -⟩ cell listed
      rw [← List.take_append_drop (last + 1) (b.row index)] at listed
      rcases List.mem_append.mp listed with front | late
      · exact early cell front
      · exact (unpainted_alike (free cell late)).2
    · intro fits
      exact ⟨fun cell listed => fits cell (List.mem_of_mem_take listed), back⟩

theorem rows_flatMap (count start : Nat) (all : start + count = b.rows) :
    (List.range' start count).flatMap b.row = b.cells.drop (start * b.columns) := by
  induction count generalizing start with
  | zero =>
    rw [List.drop_of_length_le (by rw [sound.length, ← all]; exact Nat.le_refl _)]
    rfl
  | succ count ih =>
    rw [List.range'_succ, List.flatMap_cons, ih (start + 1) (by omega), Nat.succ_mul, ← List.drop_drop]
    exact List.take_append_drop ..

theorem rows_alike (count start : Nat) (all : start + count = b.rows) :
    List.Forall₂ Cell.Alike ((List.range' start count).flatMap b.row)
      ((List.range' start count).flatMap (shownRow b)) ↔
      ∀ cell ∈ (List.range' start count).flatMap b.row, cell.rendition.Fits := by
  induction count generalizing start with
  | zero => exact ⟨fun _ _ listed => (List.not_mem_nil listed).elim, fun _ => List.Forall₂.nil⟩
  | succ count ih =>
    have same : (b.row start).length = (shownRow b start).length := by
      rw [row_length sound (by omega), shownRow_length sound (by omega)]
    rw [List.range'_succ, List.flatMap_cons, List.flatMap_cons, List.forall_mem_append,
      forall₂_append_iff same, row_alike sound (by omega), ih (start + 1) (by omega)]

theorem cells_alike : List.Forall₂ Cell.Alike b.cells ((List.range b.rows).flatMap (shownRow b)) ↔
    ∀ cell ∈ b.cells, cell.rendition.Fits := by
  have rows := rows_flatMap sound b.rows 0 (Nat.zero_add _)
  have alike := rows_alike sound b.rows 0 (Nat.zero_add _)
  rw [Nat.zero_mul, List.drop_zero] at rows
  rw [rows] at alike
  rw [List.range_eq_range']
  exact alike

theorem checkpoint_replays {fresh : Builder} (size : init b.rows b.columns = some fresh) :
    ∃ c, fresh.feed b.checkpoint = some c ∧
      Shows c b.rows b.columns ((List.range b.rows).flatMap (shownRow b)) b.cursorRow
        (min b.cursorColumn (b.columns - 1)) (reread b.rendition) ∧ c.utf8Remaining = 0 := by
  obtain ⟨⟨someRow, fewRows⟩, ⟨someColumn, fewColumns⟩, -⟩ := init_some size
  unfold maxDimension at fewRows fewColumns
  obtain ⟨c, cleared, blank⟩ := feed_reset size
  have start : Shows c b.rows b.columns ([] ++ List.replicate (b.rows * b.columns) ({} : Cell)) 0 0
    (reread {}) := by
    rw [reread_default]
    exact blank
  obtain ⟨d, row, column, painted, shown⟩ := feed_rows sound b.rows 0 (Nat.zero_add _) cleared start
    (Nat.zero_mul _).symm
  rw [← List.range_eq_range', List.nil_append] at shown
  rw [← List.range_eq_range'] at painted
  obtain ⟨e, changed, shownNext⟩ : ∃ e, d.feed
      (if (b.paintRows (List.range b.rows) ([0x1b, 0x63], {})).2 ≠ b.rendition then renditionBytes
        b.rendition else []) =
        some e ∧ Shows e b.rows b.columns ((List.range b.rows).flatMap (shownRow b)) row column
          (reread b.rendition) := by
    by_cases same : (b.paintRows (List.range b.rows) ([0x1b, 0x63], {})).2 = b.rendition
    · rw [if_neg (not_not.mpr same), ← same]
      exact ⟨d, rfl, shown⟩
    · rw [if_pos same]
      exact feed_reread b.rendition shown
  have inside := sound.inside
  have narrow := sound.narrow
  obtain ⟨f, moved, shownLast, quiet⟩ := feed_cursor shownNext
    (show 10 * (b.cursorRow + 1) ≤ maxParameter by unfold maxParameter maxU16; omega)
    (show 10 * (b.cursorColumn + 1) ≤ maxParameter by unfold maxParameter maxU16; omega)
    (Nat.succ_pos _) (Nat.succ_pos _)
  rw [Nat.add_sub_cancel, Nat.add_sub_cancel, Nat.min_eq_left (by omega)] at shownLast
  refine ⟨f, ?_, shownLast, quiet⟩
  unfold checkpoint
  dsimp only
  rw [feed_append, feed_append, painted, Option.bind_some, changed, Option.bind_some, moved]

end Repainted

section Remainders

variable {rows columns : Nat} {fresh b c : Builder} {stream : Bytes}

/-- A question mark is printed, or is a part of what is pending. -/
theorem question_pending (pending : b.state ≠ .ground) :
    b.leavesScreen 0x3f = false ∧
    ∃ d, b.feedByte 0x3f = some d ∧ d.cursorColumn = b.cursorColumn := by
  unfold leavesScreen feedByte
  cases state : b.state with
  | ground => exact absurd state pending
  | escape => exact ⟨rfl, _, rfl, rfl⟩
  | csi => exact ⟨rfl, _, rfl, rfl⟩
  | osc => exact ⟨rfl, _, rfl, rfl⟩
  | oscEscape => exact ⟨rfl, _, rfl, rfl⟩

theorem question_printed (ground : c.state = .ground) (narrow : c.cursorColumn < c.columns) {d : Builder}
    (fed : c.feedByte 0x3f = some d) : d.cursorColumn = c.cursorColumn + 1 := by
  have put : c.feedGround 0x3f = place { c with utf8Remaining := 0, lastCell := none } 0x3f 0 := by
    have grounded := feedGround_other (show isContinuation 0x3f = false by decide) c
    have printed : feedCharacter { c with utf8Remaining := 0, lastCell := none } 0x3f =
      putCharacter { c with utf8Remaining := 0, lastCell := none } 0x3f 0 := rfl
    rw [grounded, printed]
    unfold putCharacter wrap
    rw [if_neg (Nat.not_le_of_lt narrow)]
    rfl
  have grounded : c.feedByte 0x3f = c.feedGround 0x3f := by
    unfold feedByte
    rw [ground]
  rw [grounded, put] at fed
  unfold place at fed
  dsimp only at fed
  split at fed
  · cases fed
    rfl
  · cases fed

theorem continuation_lost (ground : c.state = .ground) (none_ : c.utf8Remaining = 0) :
    ∃ d, c.feedByte 0x80 = some d ∧ d.cells = c.cells := by
  refine ⟨{ c with utf8Remaining := 0, lastCell := none }, ?_, rfl⟩
  unfold feedByte feedGround
  rw [ground, none_]
  rfl

theorem continuation_kept (ground : b.state = .ground) {index : Nat} {cell : Cell} {owed : Nat}
    (pending : 0 < b.utf8Remaining) (last : b.lastCell = some index) (here : b.cells[index]? = some cell)
    (owes : Owes (owed + 1) cell) :
    ∃ d, b.feedByte 0x80 = some d ∧ d.cells[index]? = some { cell with bytes := cell.bytes ++ [0x80] } := by
  have inside := (List.getElem?_eq_some_iff.mp here).1
  refine ⟨{ b with
    cells := b.cells.set index { cell with bytes := cell.bytes ++ [0x80] }
    utf8Remaining := b.utf8Remaining - 1 }, ?_, List.getElem?_set_self inside⟩
  unfold feedByte feedGround
  rw [ground]
  dsimp only
  rw [if_pos ⟨pending, by decide⟩]
  unfold extendCell
  rw [last]
  simp only [here, Option.bind_eq_bind, Option.bind_some]
  rw [if_pos (owes.extend (show isContinuation 0x80 = true by decide)).1]
  rfl

end Remainders

section Continuation

variable {rows columns : Nat} {fresh b : Builder} {stream : Bytes} (size : init rows columns = some fresh)
  (plain : Plain fresh stream) (fed : fresh.feed stream = some b)
include size plain fed

omit size plain in
theorem feed_remainder (remainder : Bytes) : fresh.feed (stream ++ remainder) = b.feed remainder := by
  rw [feed_append, fed]
  rfl

omit size in
theorem plain_remainder (remainder : Bytes) : Plain fresh (stream ++ remainder) ↔ Plain b remainder :=
  (Run.Meets.append_iff fed).trans (and_iff_right plain)

theorem resumable_continues (resumable : b.Resumable) {remainder : Bytes} (more : Plain b remainder) :
    Option.Rel Agree (b.feed remainder) ((fresh.feed b.checkpoint).bind fun c => c.feed remainder) := by
  obtain ⟨sound, rfl, rfl⟩ := fed_sound size plain fed
  have twin := fed_twin size plain fed
  have column := resumable.column
  obtain ⟨c, replayed, shown, quiet⟩ := checkpoint_replays sound size
  have same : Twin Cell.Alike b.rows b.columns b c := { twin with
    rows := shown.rows
    columns := shown.columns
    cursorRow := shown.row
    cursorColumn := shown.column.trans (Nat.min_eq_left (by omega))
    state := shown.state.trans resumable.state.symm
    rendition := shown.rendition.trans ((reread_eq _).mpr resumable.rendition)
    utf8Remaining := quiet.trans resumable.character.symm
    primary := ⟨sound.primary, shown.primary⟩
    csi := fun csi => nomatch resumable.state.symm.trans csi
    cells := shown.cells ▸ (cells_alike sound).mpr resumable.cells
    last := fun owing => absurd resumable.character (Nat.ne_of_gt owing) }
  rw [replayed, Option.bind_some]
  exact rel_imp (feed_twin same (fun cell _ => Cell.Alike.refl cell) more) fun _ _ => Twin.agree

theorem continues_resumable
    (continues : ∀ remainder, Plain b remainder →
      Option.Rel Agree (b.feed remainder) ((fresh.feed b.checkpoint).bind fun c => c.feed remainder)) :
    b.Resumable := by
  obtain ⟨sound, rfl, rfl⟩ := fed_sound size plain fed
  have twin := fed_twin size plain fed
  obtain ⟨c, replayed, shown, quiet⟩ := checkpoint_replays sound size
  simp only [replayed, Option.bind_some] at continues
  have width := twin.wide
  have now : Agree b c := by
    have related := continues [] trivial
    cases related with
    | some agreed => exact agreed
  have column : b.cursorColumn < b.columns := by
    have same := shown.column.symm.trans now.cursorColumn
    omega
  -- a question mark moves the cursor of the replay
  have state : b.state = .ground := by
    by_contra pending
    obtain ⟨stays, d, waited, still⟩ := question_pending pending
    have related := continues [0x3f] ⟨stays, by rw [waited]; trivial⟩
    rw [feed_cons, waited, feed_cons] at related
    cases printed : c.feedByte 0x3f with
    | none =>
      rw [printed] at related
      cases related
    | some e =>
      rw [printed] at related
      have moved := question_printed shown.state (by rw [now.cursorColumn, now.columns]; exact column)
        printed
      cases related with
      | some agreed =>
        have same := agreed.cursorColumn
        rw [moved, still, now.cursorColumn] at same
        omega
  -- a continuation byte is lost by the replay
  have character : b.utf8Remaining = 0 := by
    by_contra owing
    have pending := Nat.pos_of_ne_zero owing
    obtain ⟨index, cell, last, -, here, -, owes⟩ := twin.last pending
    rw [← Nat.succ_pred_eq_of_pos pending] at owes
    obtain ⟨d, kept, extended⟩ := continuation_kept state pending last here owes
    obtain ⟨e, lost, unchanged⟩ := continuation_lost shown.state quiet
    have stays : b.leavesScreen 0x80 = false := by
      unfold leavesScreen
      rw [state]
    have related := continues [0x80] ⟨stays, by rw [kept]; trivial⟩
    rw [feed_cons, kept, feed_cons, lost] at related
    cases related with
    | some agreed =>
      have cells := agreed.cells
      rw [unchanged] at cells
      have old := forall₂_glyphs now.cells index
      have new := forall₂_glyphs cells index
      rw [old, extended, here] at new
      obtain ⟨lead, rest, bytes, -⟩ := owes
      simp only [Option.map_some, Option.some.injEq, Cell.glyph, bytes] at new
      simp at new
  exact ⟨state, column, character, (reread_eq _).mp (shown.rendition.symm.trans now.rendition),
    (cells_alike sound).mp (shown.cells ▸ now.cells)⟩

/-- A replay goes on as the stream does, whatever follows, exactly when nothing is pending and
every rendition fits. -/
theorem checkpoint_continues_iff :
    (∀ remainder, Plain fresh (stream ++ remainder) →
      Option.Rel Agree (fresh.feed (stream ++ remainder))
        ((fresh.feed b.checkpoint).bind fun c => c.feed remainder)) ↔ b.Resumable := by
  simp only [feed_remainder fed, plain_remainder plain fed]
  exact ⟨continues_resumable size plain fed,
    fun resumable _ => resumable_continues size plain fed resumable⟩

end Continuation

instance (b : Builder) : Decidable b.Resumable :=
  decidable_of_iff (b.state = .ground ∧ b.cursorColumn < b.columns ∧ b.utf8Remaining = 0 ∧
    b.rendition.Fits ∧
      ∀ cell ∈ b.cells, cell.rendition.Fits)
    ⟨fun ⟨state, column, character, rendition, cells⟩ => ⟨state, column, character, rendition, cells⟩,
     fun ⟨state, column, character, rendition, cells⟩ => ⟨state, column, character, rendition, cells⟩⟩

instance (b : Builder) (bytes : Bytes) : Decidable (Plain b bytes) :=
  inferInstanceAs (Decidable (Run.Meets _ _ _ _))

/-- A red letter, a line feed and another red letter, cut where nothing is pending. -/
theorem checkpoint_continues_red : ∃ fresh b, init 2 3 = some fresh ∧
    fresh.feed [0x1b, 0x5b, 0x33, 0x31, 0x6d, 0x61, 0x0a, 0x62] = some b ∧
    ∀ remainder, Plain fresh ([0x1b, 0x5b, 0x33, 0x31, 0x6d, 0x61, 0x0a, 0x62] ++ remainder) →
      Option.Rel Agree (fresh.feed ([0x1b, 0x5b, 0x33, 0x31, 0x6d, 0x61, 0x0a, 0x62] ++ remainder))
        ((fresh.feed b.checkpoint).bind fun c => c.feed remainder) := by
  refine ⟨_, _, rfl, rfl, (@checkpoint_continues_iff 2 3 _ _ _ rfl ?_ rfl).mpr ?_⟩
  · decide +kernel
  · decide +kernel

theorem agree_glyphs {x x' : Option Builder} (agree : Option.Rel Agree x x') :
    x'.map (fun c => c.cells.map Cell.glyph) = x.map fun c => c.cells.map Cell.glyph := by
  cases agree with
  | none => rfl
  | some both =>
    refine congrArg some (List.ext_getElem? fun index => ?_)
    rw [List.getElem?_map, List.getElem?_map]
    exact forall₂_glyphs both.cells index

/-- After two letters on a line of two columns the wrap is pending; the replay of the
checkpoint has its cursor on the second letter, which the next letter overwrites. -/
theorem pending_wrap_lost : ∃ fresh b, init 2 2 = some fresh ∧ fresh.feed [0x61, 0x62] = some b ∧
    Plain fresh [0x61, 0x62, 0x63] ∧
    (fresh.feed [0x61, 0x62, 0x63]).map (fun c => c.cells.map Cell.glyph) =
      some [[0x61], [0x62], [0x63], [0x20]] ∧
    ((fresh.feed b.checkpoint).bind fun c => c.feed [0x63]).map (fun c => c.cells.map Cell.glyph) =
      some [[0x61], [0x63], [0x20], [0x20]] ∧
    ¬ Option.Rel Agree (fresh.feed [0x61, 0x62, 0x63]) ((fresh.feed b.checkpoint).bind fun c =>
      c.feed [0x63]) := by
  refine ⟨_, _, rfl, rfl, by decide +kernel, ?whole, ?replay, fun agree => ?_⟩
  case whole => decide +kernel
  case replay => decide +kernel
  have same := agree_glyphs agree
  revert same
  decide +kernel

end Machinen.Vt
