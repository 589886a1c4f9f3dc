import Machinen.Terminal.Builder

/-! Two builders that are fed the same bytes. What may differ between them is what no later
byte can read: the cells, as far as a relation on cells allows it, the saved cursor and the
parameters outside of a control sequence. -/
namespace Machinen.Vt

open Builder

/-- A character of which some continuation bytes are still to come. -/
def Owes (owed : Nat) (cell : Cell) : Prop :=
  ∃ lead rest, cell.bytes = lead :: rest ∧ continuations lead = some (rest.length + owed) ∧
    ∀ byte ∈ rest, isContinuation byte = true

def Cell.Formed (cell : Cell) : Prop := cell.bytes = [] ∨ ∃ owed, Owes owed cell

variable {byte : UInt8} {count : Nat} {cell : Cell} {c : Builder}

theorem continuations_le (starts : continuations byte = some count) :
    count ≤ 3 := by
  unfold continuations at starts
  split at starts
  · cases starts; omega
  split at starts
  · cases starts; omega
  split at starts
  · cases starts; omega
  split at starts
  · cases starts; omega
  · cases starts

theorem Owes.extend {owed : Nat} (owes : Owes (owed + 1) cell) (continues : isContinuation byte = true) :
    cell.bytes.length < Cell.capacity ∧ Owes owed { cell with bytes := cell.bytes ++ [byte] } := by
  obtain ⟨lead, rest, bytes, count, all⟩ := owes
  have := continuations_le count
  refine ⟨?_, lead, rest ++ [byte], ?_, ?_, ?_⟩
  · rw [bytes, List.length_cons]
    unfold Cell.capacity
    omega
  · change cell.bytes ++ [byte] = _
    rw [bytes, List.cons_append]
  · rw [count, List.length_append, List.length_singleton]
    congr 1
    omega
  · intro other listed
    rcases List.mem_append.mp listed with old | new
    · exact all other old
    · exact List.mem_singleton.mp new ▸ continues

theorem Owes.start (starts : continuations byte = some count)
    (rendition : Rendition) : Owes count ⟨[byte], rendition⟩ :=
  ⟨byte, [], rfl, (by simpa using starts), fun _ listed => nomatch listed⟩

theorem blank_formed (rendition : Rendition) : (blankCell rendition).Formed := .inl rfl

/-- A byte that enters or leaves the alternate screen, or saves or restores the cursor. -/
def Builder.leavesScreen (b : Builder) (byte : UInt8) : Bool :=
  match b.state with
  | .escape => byte == 0x37 || byte == 0x38
  | .csi => byte == 0x73 || byte == 0x75 || ((byte == 0x68 || byte == 0x6c) && b.csiPrivate &&
      ((List.range b.paramCount).map b.params).any isScreenMode)
  | _ => false

/-- A stream that does neither. -/
def Plain (b : Builder) (bytes : Bytes) : Prop :=
  Run.Meets feedByte (fun b byte => b.leavesScreen byte = false) b bytes

structure Twin (A : Cell → Cell → Prop) (R C : Nat) (b b' : Builder) : Prop where
  rows : b'.rows = b.rows
  columns : b'.columns = b.columns
  cursorRow : b'.cursorRow = b.cursorRow
  cursorColumn : b'.cursorColumn = b.cursorColumn
  state : b'.state = b.state
  rendition : b'.rendition = b.rendition
  utf8Remaining : b'.utf8Remaining = b.utf8Remaining
  primary : b.inAlternateScreen = false ∧ b'.inAlternateScreen = false
  csi : b.state = .csi → b'.params = b.params ∧ b'.paramSeparators = b.paramSeparators ∧
    b'.paramCount = b.paramCount ∧ b'.csiPrivate = b.csiPrivate
  cells : List.Forall₂ A b.cells b'.cells
  last : 0 < b.utf8Remaining → ∃ index cell, b.lastCell = some index ∧ b'.lastCell = some index ∧
    b.cells[index]? = some cell ∧ b'.cells[index]? = some cell ∧ Owes b.utf8Remaining cell
  quiet : b.state ≠ .ground → b.utf8Remaining = 0
  inside : b.cursorRow < b.rows
  length : b.cells.length = b.rows * b.columns
  size : b.rows = R ∧ b.columns = C
  wide : 0 < b.columns
  narrow : b.cursorColumn ≤ b.columns

section Grids

variable {A : Cell → Cell → Prop} {cells cells' : List Cell}

theorem forall₂_replicate {cell' : Cell} (related : A cell cell') (count : Nat) :
    List.Forall₂ A (List.replicate count cell) (List.replicate count cell') := by
  induction count with
  | zero => exact .nil
  | succ count ih => exact .cons related ih

theorem fill_twin (grids : List.Forall₂ A cells cells') {cell' : Cell} (related : A cell cell')
    (start stop : Nat) :
    Option.Rel (List.Forall₂ A) (fill cells start stop cell) (fill cells' start stop cell') := by
  unfold fill
  rw [← grids.length_eq]
  split
  · exact .some (List.rel_append (List.forall₂_take start grids)
      (List.rel_append (forall₂_replicate related _) (List.forall₂_drop stop grids)))
  · exact .none

theorem copy_twin (grids : List.Forall₂ A cells cells') (target source count : Nat) :
    Option.Rel (List.Forall₂ A) (copy cells target source count) (copy cells' target source count) := by
  unfold copy
  rw [← grids.length_eq]
  split
  · exact .some (List.rel_append (List.forall₂_take target grids)
      (List.rel_append (List.forall₂_take count (List.forall₂_drop source grids))
        (List.forall₂_drop (target + count) grids)))
  · exact .none

theorem rel_bind {α β : Type} {R : α → α → Prop} {S : β → β → Prop} {x x' : Option α} {f f' : α → Option β}
    (first : Option.Rel R x x') (rest : ∀ a a', x = some a → R a a' → Option.Rel S (f a) (f' a')) :
    Option.Rel S (x.bind f) (x'.bind f') := by
  cases first with
  | some related => exact rest _ _ rfl related
  | none => exact .none

theorem rel_map {α β : Type} {R : α → α → Prop} {S : β → β → Prop} {x x' : Option α} {f f' : α → β}
    (first : Option.Rel R x x') (rest : ∀ a a', R a a' → S (f a) (f' a')) :
    Option.Rel S (x.map f) (x'.map f') := by
  cases first with
  | some related => exact .some (rest _ _ related)
  | none => exact .none

theorem rel_imp {α : Type} {R S : α → α → Prop} {x x' : Option α} (related : Option.Rel R x x')
    (weaker : ∀ a a', R a a' → S a a') : Option.Rel S x x' := by
  cases related with
  | some both => exact .some (weaker _ _ both)
  | none => exact .none

theorem copyWhen_twin (grids : List.Forall₂ A cells cells') (moves : Bool) (target source count : Nat) :
    Option.Rel (List.Forall₂ A) (copyWhen moves cells target source count)
      (copyWhen moves cells' target source count) := by
  unfold copyWhen
  split
  · exact copy_twin grids target source count
  · exact .some grids

theorem set_twin (grids : List.Forall₂ A cells cells') {cell' : Cell} (related : A cell cell')
    (index : Nat) : List.Forall₂ A (cells.set index cell) (cells'.set index cell') := by
  induction grids generalizing index with
  | nil => exact .nil
  | cons first rest ih =>
    cases index with
    | zero => exact .cons related rest
    | succ index => exact .cons first (ih index)

theorem fill_length {start stop : Nat} (filled : fill cells start stop cell = some cells') :
    cells'.length = cells.length := by
  unfold fill at filled
  split at filled
  · cases filled
    simp only [List.length_append, List.length_take, List.length_replicate, List.length_drop]
    omega
  · cases filled

theorem copy_length {target source : Nat} (copied : copy cells target source count = some cells') :
    cells'.length = cells.length := by
  unfold copy at copied
  split at copied
  · cases copied
    simp only [List.length_append, List.length_take, List.length_drop]
    omega
  · cases copied

end Grids
theorem applyFrom_congr {b b' : Builder} (params : b'.params = b.params)
    (separators : b'.paramSeparators = b.paramSeparators) (count : b'.paramCount = b.paramCount)
    (fuel index : Nat) (rendition : Rendition) :
    b'.applyFrom fuel index rendition = b.applyFrom fuel index rendition := by
  have turn : ∀ index rendition, b'.applyParameter index rendition = b.applyParameter index rendition := by
    intro index rendition
    unfold applyParameter applyExtendedColor
    rw [params, separators, count]
  induction fuel generalizing index rendition with
  | zero => rfl
  | succ fuel ih => simp only [Builder.applyFrom, turn, count, ih]

section Steps

variable {A : Cell → Cell → Prop} {R C : Nat} {b b' : Builder}

namespace Twin

theorem withCells (twin : Twin A R C b b') (quiet : b.utf8Remaining = 0) {x x' : Option (List Cell)}
    (grids : Option.Rel (List.Forall₂ A) x x')
    (length : ∀ cells, x = some cells → cells.length = b.cells.length) :
    Option.Rel (Twin A R C) (b.withCells x) (b'.withCells x') := by
  cases grids with
  | none => exact .none
  | some related =>
    refine .some { twin with cells := related, length := (length _ rfl).trans twin.length, last := ?_ }
    intro owing
    exact absurd quiet (Nat.ne_of_gt owing)

theorem erase (twin : Twin A R C b b') (quiet : b.utf8Remaining = 0)
    (formed : ∀ cell : Cell, cell.Formed → A cell cell) (start stop : Nat) :
    Option.Rel (Twin A R C) (b.withCells (fill b.cells start stop (blankCell b.rendition)))
      (b'.withCells (fill b'.cells start stop (blankCell b.rendition))) :=
  twin.withCells quiet (fill_twin twin.cells (formed _ (blank_formed _)) start stop) fun _ => fill_length

theorem redraw (twin : Twin A R C b b') (quiet : b.utf8Remaining = 0)
    (formed : ∀ cell : Cell, cell.Formed → A cell cell) (moves : Bool)
    (target source count start stop : Nat) :
    Option.Rel (Twin A R C)
      (b.withCells (copyWhen moves b.cells target source count >>=
        fun kept => fill kept start stop (blankCell b.rendition)))
      (b'.withCells (copyWhen moves b'.cells target source count >>=
        fun kept => fill kept start stop (blankCell b.rendition))) := by
  have grids := rel_bind (copyWhen_twin twin.cells moves target source count)
    fun _ _ _ kept => fill_twin kept (formed _ (blank_formed b.rendition)) start stop
  refine twin.withCells quiet grids fun cells drawn => ?_
  obtain ⟨kept, moved, filled⟩ := Option.bind_eq_some_iff.mp drawn
  rw [fill_length filled]
  unfold copyWhen at moved
  split at moved
  · exact copy_length moved
  · cases moved
    rfl

theorem moved (twin : Twin A R C b b') {row row' column column' : Nat} (inside : row < b.rows)
    (rows : row' = row) (columns : column' = column) (narrow : column ≤ b.columns) :
    Twin A R C { b with cursorRow := row, cursorColumn := column }
      { b' with cursorRow := row', cursorColumn := column' } :=
  { twin with cursorRow := rows, cursorColumn := columns, inside, narrow }

theorem some_rows (twin : Twin A R C b b') : 0 < b.rows := Nat.zero_lt_of_lt twin.inside

theorem row_lt (twin : Twin A R C b b') (row : Nat) : min row (b.rows - 1) < b.rows :=
  Nat.lt_of_le_of_lt (Nat.min_le_right _ _) (Nat.sub_lt twin.some_rows Nat.one_pos)

variable (twin : Twin A R C b b') (quiet : b.utf8Remaining = 0)
  (formed : ∀ cell : Cell, cell.Formed → A cell cell)
include twin quiet formed

theorem scrollUp : Option.Rel (Twin A R C) b.scrollUp b'.scrollUp := by
  unfold Builder.scrollUp
  rw [twin.columns, twin.rendition, ← twin.cells.length_eq]
  apply twin.redraw quiet formed

theorem scrollDown : Option.Rel (Twin A R C) b.scrollDown b'.scrollDown := by
  unfold Builder.scrollDown
  rw [twin.columns, twin.rendition, ← twin.cells.length_eq]
  apply twin.redraw quiet formed

theorem lineFeed : Option.Rel (Twin A R C) b.lineFeed b'.lineFeed := by
  have row : b'.cursorRow + 1 = b.cursorRow + 1 := congrArg (· + 1) twin.cursorRow
  have same : b'.cursorRow + 1 < b'.rows ↔ b.cursorRow + 1 < b.rows := by rw [row, twin.rows]
  unfold Builder.lineFeed
  by_cases below : b.cursorRow + 1 < b.rows
  · rw [if_pos below, if_pos (same.mpr below)]
    exact .some { twin with cursorRow := row, inside := below }
  · rw [if_neg below, if_neg fun above => below (same.mp above)]
    exact twin.scrollUp quiet formed

theorem reverseIndex : Option.Rel (Twin A R C) b.reverseIndex b'.reverseIndex := by
  have row : b'.cursorRow - 1 = b.cursorRow - 1 := congrArg (· - 1) twin.cursorRow
  have same : b'.cursorRow > 0 ↔ b.cursorRow > 0 := by rw [twin.cursorRow]
  have inside := twin.inside
  unfold Builder.reverseIndex
  by_cases lower : b.cursorRow > 0
  · rw [if_pos lower, if_pos (same.mpr lower)]
    refine .some { twin with cursorRow := row, inside := ?_ }
    change b.cursorRow - 1 < b.rows
    omega
  · rw [if_neg lower, if_neg fun above => lower (same.mp above)]
    exact twin.scrollDown quiet formed

theorem eraseDisplay (mode : Nat) : Option.Rel (Twin A R C) (b.eraseDisplay mode)
    (b'.eraseDisplay mode) := by
  unfold Builder.eraseDisplay
  rw [twin.cursorRow, twin.cursorColumn, twin.columns, twin.rendition, ← twin.cells.length_eq]
  split
  · exact twin.erase quiet formed ..
  · exact twin.erase quiet formed ..
  · exact twin.erase quiet formed ..
  · exact twin.erase quiet formed ..
  · exact .some twin

theorem eraseLine (mode : Nat) : Option.Rel (Twin A R C) (b.eraseLine mode) (b'.eraseLine mode) := by
  unfold Builder.eraseLine
  rw [twin.cursorRow, twin.cursorColumn, twin.columns, twin.rendition]
  split
  · exact twin.erase quiet formed ..
  · exact twin.erase quiet formed ..
  · exact twin.erase quiet formed ..
  · exact .some twin

theorem insertCells (amount : Nat) : Option.Rel (Twin A R C) (b.insertCells amount)
    (b'.insertCells amount) := by
  unfold Builder.insertCells
  rw [twin.cursorRow, twin.cursorColumn, twin.columns, twin.rendition]
  apply twin.redraw quiet formed

theorem deleteCells (amount : Nat) : Option.Rel (Twin A R C) (b.deleteCells amount)
    (b'.deleteCells amount) := by
  unfold Builder.deleteCells
  rw [twin.cursorRow, twin.cursorColumn, twin.columns, twin.rendition]
  apply twin.redraw quiet formed

theorem eraseCells (amount : Nat) : Option.Rel (Twin A R C) (b.eraseCells amount)
    (b'.eraseCells amount) := by
  unfold Builder.eraseCells
  rw [twin.cursorRow, twin.cursorColumn, twin.columns, twin.rendition]
  exact twin.erase quiet formed ..

theorem insertLines (amount : Nat) : Option.Rel (Twin A R C) (b.insertLines amount)
    (b'.insertLines amount) := by
  unfold Builder.insertLines
  rw [twin.rows, twin.cursorRow, twin.columns, twin.rendition, ← twin.cells.length_eq]
  apply twin.redraw quiet formed

theorem deleteLines (amount : Nat) : Option.Rel (Twin A R C) (b.deleteLines amount)
    (b'.deleteLines amount) := by
  unfold Builder.deleteLines
  rw [twin.rows, twin.cursorRow, twin.columns, twin.rendition, ← twin.cells.length_eq]
  apply twin.redraw quiet formed

omit quiet in
theorem reset : Twin A R C b.reset b'.reset := by
  have still : ∀ c : Builder, c.inAlternateScreen = false →
      (if c.inAlternateScreen = true then c.leaveAlternateScreen else c) = c :=
    fun c primary => if_neg (by rw [primary]; exact nofun)
  unfold Builder.reset
  rw [still b twin.primary.1, still b' twin.primary.2]
  exact { twin with
    cursorRow := rfl
    cursorColumn := rfl
    rendition := rfl
    utf8Remaining := rfl
    cells := by
      change List.Forall₂ A (List.replicate b.cells.length {}) (List.replicate b'.cells.length {})
      rw [twin.cells.length_eq]
      exact forall₂_replicate (formed _ (.inl rfl)) _
    last := fun owing => absurd owing (Nat.lt_irrefl 0)
    quiet := fun _ => rfl
    inside := twin.some_rows
    narrow := Nat.zero_le _
    length := (List.length_replicate ..).trans twin.length }

omit quiet formed in
theorem parameter (csi : b.state = .csi) (index default : Nat) :
    b'.parameter index default = b.parameter index default := by
  obtain ⟨params, -, count, -⟩ := twin.csi csi
  unfold Builder.parameter
  rw [params, count]

omit quiet formed in
theorem applySgr (csi : b.state = .csi) : Twin A R C b.applySgr b'.applySgr := by
  obtain ⟨params, separators, count, -⟩ := twin.csi csi
  refine { twin with rendition := ?_ }
  unfold Builder.applySgr
  rw [count, twin.rendition]
  exact applyFrom_congr params separators count ..

end Twin

theorem times_twin {op : Builder → Option Builder}
    (each : ∀ b b', Twin A R C b b' → b.utf8Remaining = 0 → Option.Rel (Twin A R C) (op b) (op b'))
    (still : ∀ b c, op b = some c → c.utf8Remaining = b.utf8Remaining) (count : Nat) {b b' : Builder}
    (twin : Twin A R C b b') (quiet : b.utf8Remaining = 0) :
    Option.Rel (Twin A R C) (times count op b) (times count op b') := by
  induction count generalizing b b' with
  | zero => exact .some twin
  | succ count ih =>
    exact rel_bind (each b b' twin quiet) fun c c' done related => ih related ((still b c done).trans quiet)

theorem withCells_still {b : Builder} {x : Option (List Cell)} (drawn : b.withCells x = some c) :
    c.utf8Remaining = b.utf8Remaining := by
  obtain ⟨cells, -, rfl⟩ := Option.map_eq_some_iff.mp drawn
  rfl

theorem noScreenMode {b : Builder} {enabled : Bool}
    (none_ : ((List.range b.paramCount).map b.params).any isScreenMode = false) :
    b.setPrivateMode enabled = b := by
  unfold setPrivateMode
  generalize (List.range b.paramCount).map b.params = modes at none_ ⊢
  induction modes with
  | nil => rfl
  | cons mode rest ih =>
    rw [List.any_cons, Bool.or_eq_false_iff] at none_
    rw [List.foldl_cons, if_neg (by rw [none_.1]; exact nofun)]
    exact ih none_.2

theorem byte_of_char {c : Char} (read : Char.ofNat byte.toNat = c) :
    byte.toNat = c.toNat := by
  have valid : byte.toNat.isValidChar := .inl (Nat.lt_trans byte.toNat_lt (by decide))
  rw [← read, Char.ofNat, dif_pos valid]
  rfl

theorem executeCsi_twin (twin : Twin A R C b b') (formed : ∀ cell : Cell, cell.Formed → A cell cell)
    (csi : b.state = .csi) {final : UInt8} (plain : b.leavesScreen final = false) :
    Option.Rel (Twin A R C) (b.executeCsi final) (b'.executeCsi final) := by
  have quiet : b.utf8Remaining = 0 := twin.quiet (by rw [csi]; exact nofun)
  have inside := twin.inside
  obtain ⟨params, -, count, private_⟩ := twin.csi csi
  unfold leavesScreen at plain
  rw [csi] at plain
  simp only [Bool.or_eq_false_iff, beq_eq_false_iff_ne] at plain
  obtain ⟨⟨notSave, notRestore⟩, noMode⟩ := plain
  have byte : ∀ {c : Char}, Char.ofNat final.toNat = c → final = UInt8.ofNat c.toNat := fun read => by
    rw [← byte_of_char read, UInt8.ofNat_toNat]
  have stays : ∀ enabled, (final = 0x68 ∨ final = 0x6c) →
      (if b.csiPrivate then b.setPrivateMode enabled else b) = b ∧
      (if b'.csiPrivate then b'.setPrivateMode enabled else b') = b' := by
    intro enabled mode
    rw [private_]
    cases open_ : b.csiPrivate with
    | false => exact ⟨rfl, rfl⟩
    | true =>
      have none_ : ((List.range b.paramCount).map b.params).any isScreenMode = false := by
        rcases mode with rfl | rfl <;> simpa [open_] using noMode
      exact ⟨noScreenMode none_, noScreenMode (by rw [params, count]; exact none_)⟩
  have narrow := twin.narrow
  have edge : ∀ column, min column (b.columns - 1) ≤ b.columns := fun column => by omega
  unfold executeCsi
  rw [twin.parameter csi, twin.parameter csi, twin.parameter csi]
  split
  · exact .some (twin.moved (by omega) (by rw [twin.cursorRow]) twin.cursorColumn narrow)
  · exact .some (twin.moved (twin.row_lt _) (by rw [twin.cursorRow, twin.rows]) twin.cursorColumn narrow)
  · exact .some (twin.moved inside twin.cursorRow (by rw [twin.cursorColumn, twin.columns]) (edge _))
  · exact .some (twin.moved inside twin.cursorRow (by rw [twin.cursorColumn, twin.columns]) (edge _))
  · exact .some (twin.moved inside twin.cursorRow (by rw [twin.cursorColumn]) (by omega))
  · exact .some (twin.moved (twin.row_lt _) (by rw [twin.cursorRow, twin.rows]) rfl (Nat.zero_le _))
  · exact .some (twin.moved (by omega) (by rw [twin.cursorRow]) rfl (Nat.zero_le _))
  · exact .some (twin.moved inside twin.cursorRow (by rw [twin.columns]) (edge _))
  · exact .some (twin.moved inside twin.cursorRow (by rw [twin.columns]) (edge _))
  · exact .some (twin.moved (twin.row_lt _) (by rw [twin.rows]) (by rw [twin.columns]) (edge _))
  · exact .some (twin.moved (twin.row_lt _) (by rw [twin.rows]) (by rw [twin.columns]) (edge _))
  · exact .some (twin.moved (twin.row_lt _) (by rw [twin.rows]) twin.cursorColumn narrow)
  · exact twin.eraseDisplay quiet formed _
  · exact twin.eraseLine quiet formed _
  · exact twin.insertCells quiet formed _
  · exact twin.deleteCells quiet formed _
  · exact twin.eraseCells quiet formed _
  · exact twin.insertLines quiet formed _
  · exact twin.deleteLines quiet formed _
  · exact times_twin (fun _ _ related quiet => related.scrollUp quiet formed) (fun _ _ => withCells_still) _
      twin quiet
  · exact times_twin (fun _ _ related quiet => related.scrollDown quiet formed) (fun _ _ => withCells_still)
      _ twin quiet
  · rename_i read
    exact absurd (byte read) notSave
  · rename_i read
    exact absurd (byte read) notRestore
  · rename_i read
    obtain ⟨same, same'⟩ := stays true (.inl (byte read))
    rw [same, same']
    exact .some twin
  · rename_i read
    obtain ⟨same, same'⟩ := stays false (.inr (byte read))
    rw [same, same']
    exact .some twin
  · exact .some (twin.applySgr csi)
  · exact .some twin

theorem feedCsi_twin (twin : Twin A R C b b') (formed : ∀ cell : Cell, cell.Formed → A cell cell)
    (csi : b.state = .csi) (plain : b.leavesScreen byte = false) :
    Option.Rel (Twin A R C) (b.feedCsi byte) (b'.feedCsi byte) := by
  obtain ⟨params, separators, count, private_⟩ := twin.csi csi
  have quiet : b.utf8Remaining = 0 := twin.quiet (by rw [csi]; exact nofun)
  unfold feedCsi
  split
  · exact .some { twin with csi := fun _ => ⟨by rw [params, count], separators, count, private_⟩ }
  split
  · by_cases room : b.paramCount < maxParams
    · rw [if_pos room, if_pos (count ▸ room)]
      exact .some { twin with csi := fun _ => ⟨params, by rw [separators, count], by rw [count], private_⟩ }
    · rw [if_neg room, if_neg (count ▸ room)]
      exact .some twin
  split
  · split
    · exact .some { twin with csi := fun _ => ⟨params, separators, count, rfl⟩ }
    · exact .some twin
  split
  · refine rel_map (executeCsi_twin twin formed csi plain) fun c c' related => ?_
    exact { related with state := rfl, csi := nofun, quiet := fun other => absurd rfl other }
  · exact .some twin

theorem feedEscape_twin (twin : Twin A R C b b') (formed : ∀ cell : Cell, cell.Formed → A cell cell)
    (escape : b.state = .escape) (plain : b.leavesScreen byte = false) :
    Option.Rel (Twin A R C) (b.feedEscape byte) (b'.feedEscape byte) := by
  have quiet : b.utf8Remaining = 0 := twin.quiet (by rw [escape]; exact nofun)
  have ground : Twin A R C { b with state := .ground } { b' with state := .ground } :=
    { twin with state := rfl, csi := nofun, quiet := fun _ => quiet }
  unfold leavesScreen at plain
  rw [escape] at plain
  simp only [Bool.or_eq_false_iff, beq_eq_false_iff_ne] at plain
  obtain ⟨notSave, notRestore⟩ := plain
  have read : ∀ {c : Char}, Char.ofNat byte.toNat = c → byte = UInt8.ofNat c.toNat := fun read => by
    rw [← byte_of_char read, UInt8.ofNat_toNat]
  unfold feedEscape
  split
  · exact .some { ground with state := rfl, csi := fun _ => ⟨rfl, rfl, rfl, rfl⟩, quiet := fun _ => quiet }
  · exact .some { ground with state := rfl, csi := nofun, quiet := fun _ => quiet }
  · rename_i other
    exact absurd (read other) notSave
  · rename_i other
    exact absurd (read other) notRestore
  · exact ground.lineFeed quiet formed
  · exact (ground.moved twin.inside twin.cursorRow rfl (Nat.zero_le _)).lineFeed quiet formed
  · exact ground.reverseIndex quiet formed
  · exact .some (ground.reset formed)
  · exact .some ground

theorem scrollUp_ground {b : Builder} (done : b.scrollUp = some c) : c.state = b.state := by
  obtain ⟨cells, -, rfl⟩ := Option.map_eq_some_iff.mp done
  rfl

theorem scrollUp_column {b : Builder} (done : b.scrollUp = some c) :
    c.cursorColumn = b.cursorColumn ∧ c.columns = b.columns := by
  obtain ⟨cells, -, rfl⟩ := Option.map_eq_some_iff.mp done
  exact ⟨rfl, rfl⟩

theorem lineFeed_still {b : Builder} (done : b.lineFeed = some c) :
    c.state = b.state ∧ c.cursorColumn = b.cursorColumn ∧ c.columns = b.columns := by
  unfold lineFeed at done
  split at done
  · cases done
    exact ⟨rfl, rfl, rfl⟩
  · exact ⟨scrollUp_ground done, scrollUp_column done⟩

theorem place_twin (twin : Twin A R C b b') (formed : ∀ cell : Cell, cell.Formed → A cell cell)
    (ground : b.state = .ground) (before : b.cursorColumn < b.columns)
    (starts : continuations byte = some count) :
    Option.Rel (Twin A R C) (b.place byte count) (b'.place byte count) := by
  have owes := Owes.start starts b.rendition
  have index : b'.cursorRow * b'.columns + b'.cursorColumn = b.cursorRow * b.columns + b.cursorColumn := by
    rw [twin.cursorRow, twin.columns, twin.cursorColumn]
  have length := twin.cells.length_eq
  unfold place
  by_cases inside : b.cursorRow * b.columns + b.cursorColumn < b.cells.length
  · rw [if_pos inside, if_pos (by rw [index, ← length]; exact inside)]
    refine .some { twin with
      cursorColumn := congrArg (· + 1) twin.cursorColumn
      utf8Remaining := rfl
      cells := ?_
      last := fun _ => ⟨_, _, rfl, congrArg some index, ?_, ?_, owes⟩
      quiet := fun other => absurd ground other
      narrow := before
      length := (List.length_set ..).trans twin.length }
    · rw [index, twin.rendition]
      exact set_twin twin.cells (formed _ (.inr ⟨_, owes⟩)) _
    · exact List.getElem?_set_self inside
    · change (b'.cells.set _ _)[_]? = _
      rw [index, twin.rendition]
      exact List.getElem?_set_self (length ▸ inside)
  · rw [if_neg inside, if_neg (by rw [index, ← length]; exact inside)]
    exact .none

theorem putCharacter_twin (twin : Twin A R C b b') (formed : ∀ cell : Cell, cell.Formed → A cell cell)
    (ground : b.state = .ground) (quiet : b.utf8Remaining = 0)
    (starts : continuations byte = some count) :
    Option.Rel (Twin A R C) (b.putCharacter byte count) (b'.putCharacter byte count) := by
  have same : b'.cursorColumn ≥ b'.columns ↔ b.cursorColumn ≥ b.columns := by
    rw [twin.cursorColumn, twin.columns]
  unfold putCharacter wrap
  by_cases last : b.cursorColumn ≥ b.columns
  · rw [if_pos last, if_pos (same.mpr last)]
    have fed := (twin.moved twin.inside twin.cursorRow (Eq.refl 0) (Nat.zero_le _)).lineFeed quiet formed
    refine rel_bind fed fun c c' done related => ?_
    obtain ⟨state, column, columns⟩ := lineFeed_still done
    exact place_twin related formed (state.trans ground) (by rw [column, columns]; exact twin.wide) starts
  · rw [if_neg last, if_neg fun later => last (same.mp later)]
    exact place_twin twin formed ground (Nat.lt_of_not_ge last) starts

theorem feedCharacter_twin (twin : Twin A R C b b') (formed : ∀ cell : Cell, cell.Formed → A cell cell)
    (ground : b.state = .ground) (quiet : b.utf8Remaining = 0) (byte : UInt8) :
    Option.Rel (Twin A R C) (b.feedCharacter byte) (b'.feedCharacter byte) := by
  unfold feedCharacter
  split
  · exact .some { twin with state := rfl, csi := nofun, quiet := fun _ => quiet }
  split
  · exact .some (twin.moved twin.inside twin.cursorRow rfl (Nat.zero_le _))
  split
  · exact twin.lineFeed quiet formed
  have narrow := twin.narrow
  split
  · exact .some (twin.moved twin.inside twin.cursorRow (by rw [twin.cursorColumn]) (by omega))
  split
  · exact .some (twin.moved twin.inside twin.cursorRow (by rw [twin.cursorColumn, twin.columns]) (by omega))
  split
  · exact putCharacter_twin twin formed ground quiet ‹_›
  · exact .some twin

theorem feedGround_twin (twin : Twin A R C b b') (formed : ∀ cell : Cell, cell.Formed → A cell cell)
    (ground : b.state = .ground) (byte : UInt8) :
    Option.Rel (Twin A R C) (b.feedGround byte) (b'.feedGround byte) := by
  unfold feedGround
  by_cases continues : 0 < b.utf8Remaining ∧ isContinuation byte = true
  · rw [if_pos continues, if_pos (by rw [twin.utf8Remaining]; exact continues)]
    obtain ⟨index, cell, here, here', found, found', owes⟩ := twin.last continues.1
    obtain ⟨owed, same⟩ : ∃ owed, b.utf8Remaining = owed + 1 :=
      ⟨_, (Nat.succ_pred_eq_of_pos continues.1).symm⟩
    rw [same] at owes
    obtain ⟨room, still⟩ := owes.extend continues.2
    have inside := (List.getElem?_eq_some_iff.mp found).1
    have inside' := (List.getElem?_eq_some_iff.mp found').1
    have extended : b.extendCell byte = some
      (b.cells.set index { cell with bytes := cell.bytes ++ [byte] }) := by
      unfold extendCell
      rw [here]
      simp only [found, Option.bind_eq_bind, Option.bind_some, if_pos room]
    have extended' : b'.extendCell byte = some
      (b'.cells.set index { cell with bytes := cell.bytes ++ [byte] }) := by
      unfold extendCell
      rw [here']
      simp only [found', Option.bind_eq_bind, Option.bind_some, if_pos room]
    rw [extended, extended']
    refine .some { twin with
      utf8Remaining := congrArg (· - 1) twin.utf8Remaining
      cells := set_twin twin.cells (formed _ (.inr ⟨_, still⟩)) index
      last := fun _ => ⟨index, _, here, here', List.getElem?_set_self inside, List.getElem?_set_self inside', ?_⟩
      quiet := fun other => absurd ground other
      length := (List.length_set ..).trans twin.length }
    change Owes (b.utf8Remaining - 1) _
    rw [same]
    exact still
  · rw [if_neg continues, if_neg (by rw [twin.utf8Remaining]; exact continues)]
    have fresh : Twin A R C { b with utf8Remaining := 0, lastCell := none }
        { b' with utf8Remaining := 0, lastCell := none } :=
      { twin with utf8Remaining := rfl, last := fun owing => absurd owing (Nat.lt_irrefl 0), quiet := fun _ => rfl }
    exact feedCharacter_twin fresh formed ground rfl byte

/-- What one byte does to two builders that agree. -/
theorem feedByte_twin (twin : Twin A R C b b') (formed : ∀ cell : Cell, cell.Formed → A cell cell)
    (plain : b.leavesScreen byte = false) :
    Option.Rel (Twin A R C) (b.feedByte byte) (b'.feedByte byte) := by
  unfold feedByte
  rw [twin.state]
  cases state : b.state with
  | ground => exact feedGround_twin twin formed state byte
  | escape => exact feedEscape_twin twin formed state plain
  | csi => exact feedCsi_twin twin formed state plain
  | osc =>
    have quiet : b.utf8Remaining = 0 := twin.quiet (by rw [state]; exact nofun)
    refine .some ?_
    split
    · exact { twin with state := rfl, csi := nofun, quiet := fun _ => quiet }
    split
    · exact { twin with state := rfl, csi := nofun, quiet := fun _ => quiet }
    · exact twin
  | oscEscape =>
    have quiet : b.utf8Remaining = 0 := twin.quiet (by rw [state]; exact nofun)
    refine .some { twin with state := rfl, csi := ?_, quiet := fun _ => quiet }
    split <;> exact nofun

/-- What a stream does. -/
theorem feed_twin (twin : Twin A R C b b') (formed : ∀ cell : Cell, cell.Formed → A cell cell)
    {bytes : Bytes} (plain : Plain b bytes) : Option.Rel (Twin A R C) (b.feed bytes) (b'.feed bytes) := by
  unfold Builder.feed
  induction bytes generalizing b b' with
  | nil => exact .some twin
  | cons byte rest ih =>
    exact rel_bind (feedByte_twin twin formed plain.1) fun c c' next related => ih related (plain.tail next)

end Steps
end Machinen.Vt
