import Machinen.Terminal.Confined

/-! The alternate screen: what is fed to a builder while it shows that screen leaves the other
one as it was, until the builder is reset or goes back to it. -/
namespace Machinen.Vt

open Builder

structure Shelf where
  cells : List Cell
  row : Nat
  column : Nat
  hidden : Bool
  rows : Nat
  columns : Nat

namespace Builder

def shelf (b : Builder) : Shelf :=
  ⟨b.inactiveCells, b.primaryRow, b.primaryColumn, b.inAlternateScreen, b.rows, b.columns⟩

/-- An `h` or an `l` changes the screen in this state. -/
def switches (b : Builder) : Bool :=
  b.state == .csi && b.csiPrivate && ((List.range b.paramCount).map b.params).any isScreenMode

def uncovers (b : Builder) (byte : UInt8) : Bool :=
  b.state == .escape && byte == 0x63 || b.switches && byte == 0x6c

end Builder

section Shelves

variable {b c : Builder}

theorem withCells_shelf {x : Option (List Cell)} (done : b.withCells x = some c) : c.shelf = b.shelf := by
  obtain ⟨cells, -, rfl⟩ := Option.map_eq_some_iff.mp done
  rfl

theorem times_shelf {op : Builder → Option Builder} (each : ∀ {b c}, op b = some c → c.shelf = b.shelf)
    (count : Nat) (done : times count op b = some c) : c.shelf = b.shelf := by
  induction count generalizing b with
  | zero => exact Option.some.inj done ▸ rfl
  | succ count ih =>
    obtain ⟨d, first, rest⟩ := Option.bind_eq_some_iff.mp done
    exact (ih rest).trans (each first)

theorem lineFeed_shelf (done : b.lineFeed = some c) : c.shelf = b.shelf := by
  unfold lineFeed at done
  split at done
  · exact Option.some.inj done ▸ rfl
  · exact withCells_shelf done

theorem reverseIndex_shelf (done : b.reverseIndex = some c) : c.shelf = b.shelf := by
  unfold reverseIndex at done
  split at done
  · exact Option.some.inj done ▸ rfl
  · exact withCells_shelf done

theorem foldl_settled (modes : List Nat) (enabled : Bool) (settled : b.inAlternateScreen = enabled) :
    modes.foldl (fun b mode =>
      if isScreenMode mode then (if enabled then b.enterAlternateScreen else b.leaveAlternateScreen) else b)
        b = b := by
  induction modes with
  | nil => rfl
  | cons mode rest ih =>
    have still : (if isScreenMode mode then (if
      enabled then b.enterAlternateScreen else b.leaveAlternateScreen) else b) = b := by
      unfold enterAlternateScreen leaveAlternateScreen
      subst settled
      cases screen : b.inAlternateScreen <;> split <;> rfl
    rw [List.foldl_cons, still]
    exact ih

theorem foldl_switches (modes : List Nat) (enabled : Bool) (listed : modes.any isScreenMode = true)
    (settles : (if enabled then b.enterAlternateScreen else b.leaveAlternateScreen).inAlternateScreen =
      enabled) :
    modes.foldl (fun b mode =>
      if isScreenMode mode then (if enabled then b.enterAlternateScreen else b.leaveAlternateScreen) else b)
        b = if enabled then b.enterAlternateScreen else b.leaveAlternateScreen := by
  induction modes with
  | nil => exact nomatch listed
  | cons mode rest ih =>
    rw [List.foldl_cons]
    by_cases here : isScreenMode mode
    · rw [if_pos here]
      exact foldl_settled rest enabled settles
    · rw [if_neg here]
      refine ih ?_
      rwa [List.any_cons, Bool.eq_false_iff.mpr here, Bool.false_or] at listed

theorem foldl_other (modes : List Nat) (enabled : Bool) (none_ : modes.any isScreenMode = false) :
    modes.foldl (fun b mode =>
      if isScreenMode mode then (if enabled then b.enterAlternateScreen else b.leaveAlternateScreen) else b)
        b = b := by
  induction modes with
  | nil => rfl
  | cons mode rest ih =>
    rw [List.any_cons, Bool.or_eq_false_iff] at none_
    rw [List.foldl_cons, none_.1]
    exact ih none_.2

theorem executeCsi_shelf (csi : b.state = .csi) (covered : b.inAlternateScreen = true) {final : UInt8}
    (stays : b.uncovers final = false) (done : b.executeCsi final = some c) : c.shelf = b.shelf := by
  unfold executeCsi at done
  dsimp only at done
  split at done
  case h_13 =>
    unfold eraseDisplay at done
    dsimp only at done
    split at done
    · exact withCells_shelf done
    · exact withCells_shelf done
    · exact withCells_shelf done
    · exact withCells_shelf done
    · exact Option.some.inj done ▸ rfl
  case h_14 =>
    unfold eraseLine at done
    dsimp only at done
    split at done
    · exact withCells_shelf done
    · exact withCells_shelf done
    · exact withCells_shelf done
    · exact Option.some.inj done ▸ rfl
  case h_15 => exact withCells_shelf done
  case h_16 => exact withCells_shelf done
  case h_17 => exact withCells_shelf done
  case h_18 => exact withCells_shelf done
  case h_19 => exact withCells_shelf done
  case h_20 => exact times_shelf withCells_shelf _ done
  case h_21 => exact times_shelf withCells_shelf _ done
  case h_24 =>
    cases done
    split
    · exact congrArg shelf (foldl_settled _ true covered)
    · rfl
  case h_25 read =>
    cases done
    split
    · rename_i private_
      have byte : final = 0x6c := final_of_char read
      unfold uncovers switches at stays
      rw [csi, private_, byte] at stays
      exact congrArg shelf (foldl_other _ false (by simpa using stays))
    · rfl
  all_goals exact Option.some.inj done ▸ rfl

theorem putCharacter_shelf {byte : UInt8} {count : Nat} (done : b.putCharacter byte count = some c) :
    c.shelf = b.shelf := by
  obtain ⟨d, wrapped, placed⟩ := Option.bind_eq_some_iff.mp done
  have first : d.shelf = b.shelf := by
    unfold wrap at wrapped
    split at wrapped
    · exact (lineFeed_shelf wrapped).trans rfl
    · exact Option.some.inj wrapped ▸ rfl
  unfold place at placed
  dsimp only at placed
  split at placed
  · exact Option.some.inj placed ▸ first
  · exact nomatch placed

theorem feedCharacter_shelf {byte : UInt8} (done : b.feedCharacter byte = some c) : c.shelf = b.shelf := by
  unfold feedCharacter at done
  split at done
  · exact Option.some.inj done ▸ rfl
  split at done
  · exact Option.some.inj done ▸ rfl
  split at done
  · exact lineFeed_shelf done
  split at done
  · exact Option.some.inj done ▸ rfl
  split at done
  · exact Option.some.inj done ▸ rfl
  split at done
  · exact putCharacter_shelf done
  · exact Option.some.inj done ▸ rfl

theorem feedEscape_shelf (escape : b.state = .escape) {byte : UInt8} (stays : b.uncovers byte = false)
    (done : b.feedEscape byte = some c) : c.shelf = b.shelf := by
  unfold feedEscape at done
  dsimp only at done
  split at done
  case h_5 => exact (lineFeed_shelf done).trans rfl
  case h_6 => exact (lineFeed_shelf done).trans rfl
  case h_7 => exact (reverseIndex_shelf done).trans rfl
  case h_8 read =>
    have clears : byte = 0x63 := final_of_char read
    unfold uncovers at stays
    rw [escape, clears] at stays
    exact nomatch stays
  all_goals exact Option.some.inj done ▸ rfl

theorem feedCsi_shelf (csi : b.state = .csi) (covered : b.inAlternateScreen = true) {byte : UInt8}
    (stays : b.uncovers byte = false) (done : b.feedCsi byte = some c) : c.shelf = b.shelf := by
  unfold feedCsi at done
  dsimp only at done
  split at done
  · exact Option.some.inj done ▸ rfl
  split at done
  · split at done
    · exact Option.some.inj done ▸ rfl
    · exact Option.some.inj done ▸ rfl
  split at done
  · cases done
    split <;> rfl
  split at done
  · obtain ⟨d, executed, rfl⟩ := Option.map_eq_some_iff.mp done
    have same : d.shelf = b.shelf := executeCsi_shelf csi covered stays executed
    exact same
  · exact Option.some.inj done ▸ rfl

theorem feedByte_shelf (covered : b.inAlternateScreen = true) {byte : UInt8}
    (stays : b.uncovers byte = false) (done : b.feedByte byte = some c) : c.shelf = b.shelf := by
  unfold feedByte at done
  split at done
  · unfold feedGround at done
    split at done
    · obtain ⟨cells, -, rfl⟩ := Option.map_eq_some_iff.mp done
      rfl
    · exact (feedCharacter_shelf done).trans rfl
  · rename_i escape
    exact feedEscape_shelf escape stays done
  · rename_i csi
    exact feedCsi_shelf csi covered stays done
  · cases done
    split
    · rfl
    split <;> rfl
  · exact Option.some.inj done ▸ rfl

theorem feed_shelf {stream : Bytes} (covered : b.inAlternateScreen = true)
    (stays : Run.Meets feedByte (fun b byte => b.uncovers byte = false) b stream)
    (fed : b.feed stream = some c) : c.shelf = b.shelf := by
  have keeps : ∀ (d : Builder) (byte : UInt8) (e : Builder), d.shelf = b.shelf → d.uncovers byte = false →
      d.feedByte byte = some e → e.shelf = b.shelf := by
    intro d byte e same stays done
    have hidden : d.inAlternateScreen = true := (congrArg Shelf.hidden same).trans covered
    exact (feedByte_shelf hidden stays done).trans same
  exact Run.exec_guarded keeps stream rfl stays fed

/-! A visit to the alternate screen -/

theorem switches_csi (switches : b.switches = true) :
    b.state = .csi ∧ b.csiPrivate = true ∧ ((List.range b.paramCount).map b.params).any isScreenMode =
      true := by
  unfold Builder.switches at switches
  simp only [Bool.and_eq_true, beq_iff_eq] at switches
  exact ⟨switches.1.1, switches.1.2, switches.2⟩

theorem feedByte_modes (csi : b.state = .csi) (private_ : b.csiPrivate = true) :
    b.feedByte 0x68 = some { b.setPrivateMode true with state := .ground } ∧
      b.feedByte 0x6c = some { b.setPrivateMode false with state := .ground } := by
  have high : b.executeCsi 0x68 = some (if b.csiPrivate then b.setPrivateMode true else b) := rfl
  have low : b.executeCsi 0x6c = some (if b.csiPrivate then b.setPrivateMode false else b) := rfl
  rw [if_pos private_] at high low
  have highFinal : b.feedCsi 0x68 = (b.executeCsi 0x68).map fun b => { b with state := .ground } := rfl
  have lowFinal : b.feedCsi 0x6c = (b.executeCsi 0x6c).map fun b => { b with state := .ground } := rfl
  unfold feedByte
  rw [csi]
  exact ⟨highFinal.trans (by rw [high]; rfl), lowFinal.trans (by rw [low]; rfl)⟩

theorem feedByte_enters (switches : b.switches = true) (primary : b.inAlternateScreen = false) :
    b.feedByte 0x68 = some { b.enterAlternateScreen with state := .ground } := by
  obtain ⟨csi, private_, listed⟩ := switches_csi switches
  have entered : b.setPrivateMode true = b.enterAlternateScreen :=
    foldl_switches _ true listed (by unfold enterAlternateScreen; simp only [primary]; rfl)
  rw [(feedByte_modes csi private_).1, entered]

theorem feedByte_leaves (switches : b.switches = true) (covered : b.inAlternateScreen = true) :
    b.feedByte 0x6c = some { b.leaveAlternateScreen with state := .ground } := by
  obtain ⟨csi, private_, listed⟩ := switches_csi switches
  have left : b.setPrivateMode false = b.leaveAlternateScreen :=
    foldl_switches _ false listed (by unfold leaveAlternateScreen; simp only [covered]; rfl)
  rw [(feedByte_modes csi private_).2, left]

theorem visit_restores (ordered : b.Ordered) (primary : b.inAlternateScreen = false) {d e : Builder}
    {stream : Bytes} (enters : b.switches = true) (entered : b.feedByte 0x68 = some d)
    (stays : Run.Meets feedByte (fun b byte => b.uncovers byte = false) d stream)
    (fed : d.feed stream = some e) (leaves : e.switches = true) (left : e.feedByte 0x6c = some c) :
    c.cells = b.cells ∧ c.cursorRow = b.cursorRow ∧
      c.cursorColumn = min b.cursorColumn (b.columns - 1) := by
  have inside := ordered.inside
  have shelved : d.shelf = ⟨b.cells, b.cursorRow, b.cursorColumn, true, b.rows, b.columns⟩ := by
    cases (feedByte_enters enters primary).symm.trans entered
    unfold enterAlternateScreen
    simp only [primary]
    rfl
  have covered : d.inAlternateScreen = true := congrArg Shelf.hidden shelved
  have kept : e.shelf = _ := (feed_shelf covered stays fed).trans shelved
  have hidden : e.inAlternateScreen = true := congrArg Shelf.hidden kept
  cases (feedByte_leaves leaves hidden).symm.trans left
  unfold leaveAlternateScreen
  rw [if_pos hidden]
  have cells : e.inactiveCells = b.cells := congrArg Shelf.cells kept
  have row : e.primaryRow = b.cursorRow := congrArg Shelf.row kept
  have column : e.primaryColumn = b.cursorColumn := congrArg Shelf.column kept
  have rows : e.rows = b.rows := congrArg Shelf.rows kept
  have columns : e.columns = b.columns := congrArg Shelf.columns kept
  refine ⟨cells, ?_, ?_⟩
  · change min e.primaryRow (e.rows - 1) = _
    rw [row, rows]
    omega
  · change min e.primaryColumn (e.columns - 1) = _
    rw [column, columns]

/-- Whatever is fed on the alternate screen, however often it is entered again, the primary
screen has its cells and its cursor back afterwards just when no wrap was pending on it. -/
theorem alternate_isolated {rows columns : Nat} {first d e : Builder} {events : List Event} {stream : Bytes}
    (started : init rows columns = some first) (run : first.exec events = some b)
    (primary : b.inAlternateScreen = false) (enters : b.switches = true)
    (entered : b.feedByte 0x68 = some d)
    (stays : Run.Meets feedByte (fun b byte => b.uncovers byte = false) d stream)
    (fed : d.feed stream = some e) (leaves : e.switches = true) (left : e.feedByte 0x6c = some c) :
    (c.cells = b.cells ∧ c.cursorRow = b.cursorRow ∧ c.cursorColumn = b.cursorColumn) ↔
      b.cursorColumn < b.columns := by
  have reached : b.Ordered := Run.exec_invariant handle_ordered events (init_ordered started) run
  obtain ⟨cells, row, column⟩ := visit_restores reached primary enters entered stays fed leaves left
  have wide := reached.columns
  have narrow := reached.narrow
  rw [column]
  constructor
  · rintro ⟨-, -, same⟩
    omega
  · exact fun before => ⟨cells, row, by omega⟩

end Shelves

/-- What comes before the `h` or the `l` of a change of the screen. -/
def screenMode : Bytes := [0x1b, 0x5b, 0x3f, 0x34, 0x37]

/-- An editor enters the screen again, erases it and scrolls it. -/
def editor : Bytes := screenMode ++ [0x68, 0x1b, 0x5b, 0x32, 0x4a, 0x78, 0x0a, 0x0a, 0x79] ++ screenMode

theorem alternate_isolated_editor : ∃ b d e c, (screen 2 2).exec (typed (0x61 :: screenMode)) = some b ∧
    b.feedByte 0x68 = some d ∧ d.feed editor = some e ∧ e.feedByte 0x6c = some c ∧
    ((c.cells = b.cells ∧ c.cursorRow = b.cursorRow ∧ c.cursorColumn = b.cursorColumn) ↔
      b.cursorColumn < b.columns) := by
  have started : init 2 2 = some (screen 2 2) := rfl
  refine ⟨_, _, _, _, rfl, rfl, rfl, rfl, ?_⟩
  refine @alternate_isolated _ _ 2 2 _ _ _ (typed (0x61 :: screenMode)) editor started rfl rfl ?_ rfl ?_
    rfl ?_ rfl
  · decide +kernel
  · decide +kernel
  · decide +kernel

/-- After `ab` on a line of two columns, an editor that comes and goes leaves the cursor on the `b`. -/
theorem full_line_moves : ∃ b d e c, (screen 2 2).exec (typed ([0x61, 0x62] ++ screenMode)) = some b ∧
    b.inAlternateScreen = false ∧ b.feedByte 0x68 = some d ∧
    Run.Meets feedByte (fun b byte => b.uncovers byte = false) d editor ∧ d.feed editor = some e ∧
    e.feedByte 0x6c = some c ∧ c.inAlternateScreen = false ∧ b.cursorColumn = 2 ∧ c.cursorColumn = 1 := by
  refine ⟨_, _, _, _, rfl, rfl, rfl, ?_, rfl, rfl, rfl, rfl, rfl⟩
  decide +kernel

end Machinen.Vt
