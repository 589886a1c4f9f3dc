import Machinen.Lib.Run
import Machinen.Lib.Bytes
import Mathlib.Data.Fintype.Pi

/-! The checkpoint builder of the session worker: a VT parser over a grid of cells, and
the checkpoint it writes, an ordinary VT stream that paints the visible cells. A step that
leaves the bounds of the grid has no result. -/
namespace Machinen.Vt

def maxDimension : Nat := 1000
def maxU16 : Nat := 65535

inductive Attribute where
  | bold | faint | italic | underline | blink | inverse | hidden | strikethrough | overline
deriving DecidableEq, Repr

instance : Fintype Attribute where
  elems := {.bold, .faint, .italic, .underline, .blink, .inverse, .hidden, .strikethrough, .overline}
  complete style := by cases style <;> decide

inductive Color where
  | default
  | indexed (index : UInt8)
  | rgb (red green blue : UInt8)
deriving DecidableEq, Repr

structure Rendition where
  attributes : Attribute → Bool := fun _ => false
  foreground : Color := .default
  background : Color := .default
  underlineColor : Color := .default
deriving DecidableEq

/-- The bytes are the first `len` of the four that a cell has room for. -/
structure Cell where
  bytes : Bytes := []
  rendition : Rendition := {}
deriving DecidableEq

def Cell.capacity : Nat := 4

inductive ParseState where
  | ground | escape | csi | osc | oscEscape
deriving DecidableEq, Repr

inductive ColorTarget where
  | foreground | background | underline
deriving DecidableEq, Repr

structure Builder where
  cells : List Cell
  inactiveCells : List Cell
  rows : Nat
  columns : Nat
  cursorRow : Nat := 0
  cursorColumn : Nat := 0
  savedRow : Nat := 0
  savedColumn : Nat := 0
  primaryRow : Nat := 0
  primaryColumn : Nat := 0
  inAlternateScreen : Bool := false
  state : ParseState := .ground
  params : Nat → Nat := fun _ => 0
  paramSeparators : Nat → UInt8 := fun _ => 0
  paramCount : Nat := 1
  csiPrivate : Bool := false
  rendition : Rendition := {}
  utf8Remaining : Nat := 0
  lastCell : Option Nat := none

def maxParams : Nat := 16

def validSize (rows columns : Nat) : Bool :=
  !(rows == 0 || columns == 0 || decide (maxDimension < rows) || decide (maxDimension < columns))

def Builder.init (rows columns : Nat) : Option Builder :=
  if validSize rows columns then
    some {
      cells := List.replicate (rows * columns) {}
      inactiveCells := List.replicate (rows * columns) {}
      rows := rows
      columns := columns }
  else none

def fill (cells : List Cell) (start stop : Nat) (cell : Cell) : Option (List Cell) :=
  if start ≤ stop ∧ stop ≤ cells.length then
    some (cells.take start ++ (List.replicate (stop - start) cell ++ cells.drop stop))
  else none

/-- Copy `count` cells to `target` from `source`, as if by way of a second grid. -/
def copy (cells : List Cell) (target source count : Nat) : Option (List Cell) :=
  if target + count ≤ cells.length ∧ source + count ≤ cells.length then
    some (cells.take target ++ ((cells.drop source).take count ++ cells.drop (target + count)))
  else none

/-- The copy that a scroll or a shift makes when anything is left to move. -/
def copyWhen (moves : Bool) (cells : List Cell) (target source count : Nat) : Option (List Cell) :=
  if moves then copy cells target source count else some cells

def saturatingAdd (a b : Nat) : Nat := min (a + b) maxU16

def saturatingMul (a b : Nat) : Nat := min (a * b) maxU16

def indexedColor (index : Nat) : Color := .indexed (UInt8.ofNat (min index 255))

def rgbColor (red green blue : Nat) : Color :=
  .rgb (UInt8.ofNat (min red 255)) (UInt8.ofNat (min green 255)) (UInt8.ofNat (min blue 255))

def blankCell (rendition : Rendition) : Cell := { rendition }

def blankRenditionIsVisible (rendition : Rendition) : Bool :=
  rendition.background != .default || (rendition.attributes .underline || rendition.attributes .inverse ||
    rendition.attributes .strikethrough || rendition.attributes .overline)

namespace Rendition

def set (rendition : Rendition) (style : Attribute) (on : Bool) : Rendition :=
  { rendition with attributes := Function.update rendition.attributes style on }

def setColor (rendition : Rendition) (target : ColorTarget) (color : Color) : Rendition :=
  match target with
  | .foreground => { rendition with foreground := color }
  | .background => { rendition with background := color }
  | .underline => { rendition with underlineColor := color }

end Rendition

namespace Builder

/-- The grid after some slices of it have been written. -/
def withCells (b : Builder) (cells : Option (List Cell)) : Option Builder :=
  cells.map fun cells => { b with cells }

def parameter (b : Builder) (index default : Nat) : Nat :=
  if index ≥ b.paramCount ∨ b.params index = 0 then default else b.params index

def times (count : Nat) (op : Builder → Option Builder) (b : Builder) : Option Builder :=
  match count with
  | 0 => some b
  | count + 1 => (op b).bind (times count op)

def scrollUp (b : Builder) : Option Builder := b.withCells do
  let kept ← copyWhen (b.cells.length > b.columns) b.cells 0 b.columns (b.cells.length - b.columns)
  fill kept (b.cells.length - b.columns) b.cells.length (blankCell b.rendition)

def scrollDown (b : Builder) : Option Builder := b.withCells do
  let kept ← copyWhen (b.cells.length > b.columns) b.cells b.columns 0 (b.cells.length - b.columns)
  fill kept 0 b.columns (blankCell b.rendition)

def lineFeed (b : Builder) : Option Builder :=
  if b.cursorRow + 1 < b.rows then some { b with cursorRow := b.cursorRow + 1 } else b.scrollUp

def reverseIndex (b : Builder) : Option Builder :=
  if b.cursorRow > 0 then some { b with cursorRow := b.cursorRow - 1 } else b.scrollDown

/-- A character after the last column goes to the next line. -/
def wrap (b : Builder) : Option Builder :=
  if b.cursorColumn ≥ b.columns then lineFeed { b with cursorColumn := 0 } else some b

def place (b : Builder) (byte : UInt8) (continuation : Nat) : Option Builder :=
  let index := b.cursorRow * b.columns + b.cursorColumn
  if index < b.cells.length then
    some { b with
      cells := b.cells.set index ⟨[byte], b.rendition⟩
      lastCell := some index
      utf8Remaining := continuation
      cursorColumn := b.cursorColumn + 1 }
  else none

def putCharacter (b : Builder) (byte : UInt8) (continuation : Nat) : Option Builder :=
  b.wrap.bind fun b => b.place byte continuation

def eraseDisplay (b : Builder) (mode : Nat) : Option Builder :=
  let index := b.cursorRow * b.columns + b.cursorColumn
  let blank := blankCell b.rendition
  match mode with
  | 0 => b.withCells (fill b.cells index b.cells.length blank)
  | 1 => b.withCells (fill b.cells 0 (index + 1) blank)
  | 2 | 3 => b.withCells (fill b.cells 0 b.cells.length blank)
  | _ => some b

def eraseLine (b : Builder) (mode : Nat) : Option Builder :=
  let start := b.cursorRow * b.columns
  let cursor := start + b.cursorColumn
  let blank := blankCell b.rendition
  match mode with
  | 0 => b.withCells (fill b.cells cursor (start + b.columns) blank)
  | 1 => b.withCells (fill b.cells start (cursor + 1) blank)
  | 2 => b.withCells (fill b.cells start (start + b.columns) blank)
  | _ => some b

def insertCells (b : Builder) (amount : Nat) : Option Builder :=
  let start := b.cursorRow * b.columns
  let cursor := start + b.cursorColumn
  let count := min amount (b.columns - b.cursorColumn)
  let stop := start + b.columns
  b.withCells do
    let kept ← copyWhen (count < stop - cursor) b.cells (cursor + count) cursor (stop - count - cursor)
    fill kept cursor (cursor + count) (blankCell b.rendition)

def deleteCells (b : Builder) (amount : Nat) : Option Builder :=
  let start := b.cursorRow * b.columns
  let cursor := start + b.cursorColumn
  let count := min amount (b.columns - b.cursorColumn)
  let stop := start + b.columns
  b.withCells do
    let kept ← copyWhen (count < stop - cursor) b.cells cursor (cursor + count) (stop - count - cursor)
    fill kept (stop - count) stop (blankCell b.rendition)

def eraseCells (b : Builder) (amount : Nat) : Option Builder :=
  let start := b.cursorRow * b.columns + b.cursorColumn
  let count := min amount (b.columns - b.cursorColumn)
  b.withCells (fill b.cells start (start + count) (blankCell b.rendition))

def insertLines (b : Builder) (amount : Nat) : Option Builder :=
  let count := min amount (b.rows - b.cursorRow)
  let start := b.cursorRow * b.columns
  let shift := count * b.columns
  b.withCells do
    let kept ← copyWhen (shift < b.cells.length - start) b.cells (start + shift) start
      (b.cells.length - shift - start)
    fill kept start (start + shift) (blankCell b.rendition)

def deleteLines (b : Builder) (amount : Nat) : Option Builder :=
  let count := min amount (b.rows - b.cursorRow)
  let start := b.cursorRow * b.columns
  let shift := count * b.columns
  b.withCells do
    let kept ← copyWhen (shift < b.cells.length - start) b.cells start (start + shift)
      (b.cells.length - shift - start)
    fill kept (b.cells.length - shift) b.cells.length (blankCell b.rendition)

def enterAlternateScreen (b : Builder) : Builder :=
  if b.inAlternateScreen then b
  else { b with
    primaryRow := b.cursorRow
    primaryColumn := b.cursorColumn
    cells := List.replicate b.inactiveCells.length {}
    inactiveCells := b.cells
    cursorRow := 0
    cursorColumn := 0
    inAlternateScreen := true }

def leaveAlternateScreen (b : Builder) : Builder :=
  if b.inAlternateScreen then { b with
    cells := b.inactiveCells
    inactiveCells := b.cells
    cursorRow := min b.primaryRow (b.rows - 1)
    cursorColumn := min b.primaryColumn (b.columns - 1)
    inAlternateScreen := false }
  else b

def isScreenMode (mode : Nat) : Bool := mode == 47 || mode == 1047 || mode == 1049

def setPrivateMode (b : Builder) (enabled : Bool) : Builder :=
  ((List.range b.paramCount).map b.params).foldl (fun b mode =>
    if isScreenMode mode then (if enabled then b.enterAlternateScreen else b.leaveAlternateScreen)
    else b) b

def saveCursor (b : Builder) : Builder :=
  { b with savedRow := b.cursorRow, savedColumn := b.cursorColumn }

def restoreCursor (b : Builder) : Builder :=
  { b with cursorRow := min b.savedRow (b.rows - 1), cursorColumn := min b.savedColumn (b.columns - 1) }

def reset (b : Builder) : Builder :=
  let b := if b.inAlternateScreen then b.leaveAlternateScreen else b
  { b with
    cells := List.replicate b.cells.length {}
    inactiveCells := List.replicate b.inactiveCells.length {}
    cursorRow := 0
    cursorColumn := 0
    savedRow := 0
    savedColumn := 0
    rendition := {}
    utf8Remaining := 0
    lastCell := none }

/-- The codes that stand alone. -/
def applyCode (code : Nat) (rendition : Rendition) : Rendition :=
  match code with
  | 0 => {}
  | 1 => rendition.set .bold true
  | 2 => rendition.set .faint true
  | 3 => rendition.set .italic true
  | 4 | 21 => rendition.set .underline true
  | 5 | 6 => rendition.set .blink true
  | 7 => rendition.set .inverse true
  | 8 => rendition.set .hidden true
  | 9 => rendition.set .strikethrough true
  | 22 => (rendition.set .bold false).set .faint false
  | 23 => rendition.set .italic false
  | 24 => rendition.set .underline false
  | 25 => rendition.set .blink false
  | 27 => rendition.set .inverse false
  | 28 => rendition.set .hidden false
  | 29 => rendition.set .strikethrough false
  | 39 => { rendition with foreground := .default }
  | 49 => { rendition with background := .default }
  | 53 => rendition.set .overline true
  | 55 => rendition.set .overline false
  | 59 => { rendition with underlineColor := .default }
  | code =>
    if 30 ≤ code ∧ code ≤ 37 then { rendition with foreground := indexedColor (code - 30) }
    else if 40 ≤ code ∧ code ≤ 47 then { rendition with background := indexedColor (code - 40) }
    else if 90 ≤ code ∧ code ≤ 97 then { rendition with foreground := indexedColor (8 + code - 90) }
    else if 100 ≤ code ∧ code ≤ 107 then { rendition with background := indexedColor (8 + code - 100) }
    else rendition

def colorTarget (code : Nat) : Option ColorTarget :=
  match code with
  | 38 => some .foreground
  | 48 => some .background
  | 58 => some .underline
  | _ => none

def applyExtendedColor (b : Builder) (start : Nat) (target : ColorTarget) (rendition : Rendition) :
    Nat × Rendition :=
  let modeIndex := start + 1
  if modeIndex ≥ b.paramCount then (start, rendition)
  else
    let mode := b.params modeIndex
    if mode = 5 then
      let colorIndex := modeIndex + 1
      if colorIndex ≥ b.paramCount then (modeIndex, rendition)
      else (colorIndex, rendition.setColor target (indexedColor (b.params colorIndex)))
    else if mode ≠ 2 then (modeIndex, rendition)
    else
      -- the colon form has a slot for a colour space before the colour
      let redIndex := if b.paramSeparators modeIndex = 0x3a ∧ b.paramCount - start ≥ 6
        then modeIndex + 1 + 1 else modeIndex + 1
      if redIndex + 2 ≥ b.paramCount then (modeIndex, rendition)
      else (redIndex + 2, rendition.setColor target
        (rgbColor (b.params redIndex) (b.params (redIndex + 1)) (b.params (redIndex + 2))))

/-- One turn of the loop over the parameters, and the last index it has used. -/
def applyParameter (b : Builder) (index : Nat) (rendition : Rendition) : Nat × Rendition :=
  let code := b.params index
  match colorTarget code with
  | some target => b.applyExtendedColor index target rendition
  | none =>
    let styled := (code = 4 ∨ code = 21) ∧ index + 1 < b.paramCount ∧ b.paramSeparators (index + 1) = 0x3a
    (if styled then index + 1 else index, applyCode code rendition)

def applyFrom (b : Builder) : Nat → Nat → Rendition → Rendition
  | 0, _, rendition => rendition
  | fuel + 1, index, rendition =>
    if index < b.paramCount then
      let (used, rendition) := b.applyParameter index rendition
      b.applyFrom fuel (used + 1) rendition
    else rendition

def applySgr (b : Builder) : Builder :=
  { b with rendition := b.applyFrom b.paramCount 0 b.rendition }

def executeCsi (b : Builder) (final : UInt8) : Option Builder :=
  let first := b.parameter 0 1
  match Char.ofNat final.toNat with
  | 'A' => some { b with cursorRow := b.cursorRow - first }
  | 'B' => some { b with cursorRow := min (saturatingAdd b.cursorRow first) (b.rows - 1) }
  | 'C' | 'a' => some { b with cursorColumn := min (saturatingAdd b.cursorColumn first) (b.columns - 1) }
  | 'D' => some { b with cursorColumn := b.cursorColumn - first }
  | 'E' => some { b with
      cursorRow := min (saturatingAdd b.cursorRow first) (b.rows - 1)
      cursorColumn := 0 }
  | 'F' => some { b with cursorRow := b.cursorRow - first, cursorColumn := 0 }
  | 'G' | '`' => some { b with cursorColumn := min (first - 1) (b.columns - 1) }
  | 'H' | 'f' => some { b with
      cursorRow := min (b.parameter 0 1 - 1) (b.rows - 1)
      cursorColumn := min (b.parameter 1 1 - 1) (b.columns - 1) }
  | 'd' => some { b with cursorRow := min (first - 1) (b.rows - 1) }
  | 'J' => b.eraseDisplay (b.parameter 0 0)
  | 'K' => b.eraseLine (b.parameter 0 0)
  | '@' => b.insertCells first
  | 'P' => b.deleteCells first
  | 'X' => b.eraseCells first
  | 'L' => b.insertLines first
  | 'M' => b.deleteLines first
  | 'S' => times first scrollUp b
  | 'T' => times first scrollDown b
  | 's' => some b.saveCursor
  | 'u' => some b.restoreCursor
  | 'h' => some (if b.csiPrivate then b.setPrivateMode true else b)
  | 'l' => some (if b.csiPrivate then b.setPrivateMode false else b)
  | 'm' => some b.applySgr
  | _ => some b

def isDigit (byte : UInt8) : Bool := 0x30 ≤ byte && byte ≤ 0x39

def isFinal (byte : UInt8) : Bool := 0x40 ≤ byte && byte ≤ 0x7e

def feedCsi (b : Builder) (byte : UInt8) : Option Builder :=
  if isDigit byte then
    let index := b.paramCount - 1
    some { b with
      params := Function.update b.params index
        (saturatingAdd (saturatingMul (b.params index) 10) byte.toNat - 0x30) }
  else if byte = 0x3b ∨ byte = 0x3a then
    if b.paramCount < maxParams then
      some { b with
        paramSeparators := Function.update b.paramSeparators b.paramCount byte
        paramCount := b.paramCount + 1 }
    else some b
  else if byte = 0x3f ∨ byte = 0x3e ∨ byte = 0x21 then
    some (if byte = 0x3f then { b with csiPrivate := true } else b)
  else if isFinal byte then
    (b.executeCsi byte).map fun b => { b with state := .ground }
  else some b

def beginCsi (b : Builder) : Builder :=
  { b with
    state := .csi
    params := fun _ => 0
    paramSeparators := fun _ => 0
    paramCount := 1
    csiPrivate := false }

def feedEscape (b : Builder) (byte : UInt8) : Option Builder :=
  let b := { b with state := .ground }
  match Char.ofNat byte.toNat with
  | '[' => some b.beginCsi
  | ']' => some { b with state := .osc }
  | '7' => some b.saveCursor
  | '8' => some b.restoreCursor
  | 'D' => b.lineFeed
  | 'E' => lineFeed { b with cursorColumn := 0 }
  | 'M' => b.reverseIndex
  | 'c' => some b.reset
  | _ => some b

def isContinuation (byte : UInt8) : Bool := 0x80 ≤ byte && byte ≤ 0xbf

/-- How many continuation bytes follow a byte that starts a character. -/
def continuations (byte : UInt8) : Option Nat :=
  if 0x20 ≤ byte ∧ byte ≤ 0x7e then some 0
  else if 0xc2 ≤ byte ∧ byte ≤ 0xdf then some 1
  else if 0xe0 ≤ byte ∧ byte ≤ 0xef then some 2
  else if 0xf0 ≤ byte ∧ byte ≤ 0xf4 then some 3
  else none

def extendCell (b : Builder) (byte : UInt8) : Option (List Cell) :=
  match b.lastCell with
  | some index => do
    let cell ← b.cells[index]?
    if cell.bytes.length < Cell.capacity
    then some (b.cells.set index { cell with bytes := cell.bytes ++ [byte] }) else some b.cells
  | none => some b.cells

def feedCharacter (b : Builder) (byte : UInt8) : Option Builder :=
  if byte = 0x1b then some { b with state := .escape }
  else if byte = 0x0d then some { b with cursorColumn := 0 }
  else if byte = 0x0a ∨ byte = 0x0b ∨ byte = 0x0c then b.lineFeed
  else if byte = 0x08 then some { b with cursorColumn := b.cursorColumn - 1 }
  else if byte = 0x09 then
    some { b with cursorColumn := min ((b.cursorColumn + 8) / 8 * 8) (b.columns - 1) }
  else match continuations byte with
    | some count => b.putCharacter byte count
    | none => some b

def feedGround (b : Builder) (byte : UInt8) : Option Builder :=
  if 0 < b.utf8Remaining ∧ isContinuation byte then
    (b.extendCell byte).map fun cells => { b with cells, utf8Remaining := b.utf8Remaining - 1 }
  else feedCharacter { b with utf8Remaining := 0, lastCell := none } byte

def feedByte (b : Builder) (byte : UInt8) : Option Builder :=
  match b.state with
  | .ground => b.feedGround byte
  | .escape => b.feedEscape byte
  | .csi => b.feedCsi byte
  | .osc => some (if byte = 0x07 then { b with state := .ground }
    else if byte = 0x1b then { b with state := .oscEscape } else b)
  | .oscEscape => some { b with state := if byte = 0x5c then .ground else .osc }

def feed (b : Builder) (bytes : Bytes) : Option Builder := Run.exec feedByte b bytes

end Builder

def decimal (n : Nat) : Bytes := (Nat.toDigits 10 n).map fun digit => UInt8.ofNat digit.toNat

def sgrParameter (value : Nat) : Bytes := 0x3b :: decimal value

def attributeCode : Attribute → Nat
  | .bold => 1
  | .faint => 2
  | .italic => 3
  | .underline => 4
  | .blink => 5
  | .inverse => 7
  | .hidden => 8
  | .strikethrough => 9
  | .overline => 53

def attributeOrder : List Attribute :=
  [.bold, .faint, .italic, .underline, .blink, .inverse, .hidden, .strikethrough, .overline]

def extendedCode : ColorTarget → Nat
  | .foreground => 38
  | .background => 48
  | .underline => 58

def colorParameters (color : Color) (target : ColorTarget) : List Nat :=
  match color with
  | .default => []
  | .rgb red green blue => [extendedCode target, 2, red.toNat, green.toNat, blue.toNat]
  | .indexed index =>
    let paletteIndex := index.toNat
    if target = .foreground ∧ paletteIndex < 8 then [30 + paletteIndex]
    else if target = .foreground ∧ paletteIndex < 16 then [90 + paletteIndex - 8]
    else if target = .background ∧ paletteIndex < 8 then [40 + paletteIndex]
    else if target = .background ∧ paletteIndex < 16 then [100 + paletteIndex - 8]
    else [extendedCode target, 5, paletteIndex]

/-- The parameters after the leading 0. -/
def renditionParameters (rendition : Rendition) : List Nat :=
  ((attributeOrder.filter rendition.attributes).map attributeCode) ++
    colorParameters rendition.foreground .foreground ++
    colorParameters rendition.background .background ++
    colorParameters rendition.underlineColor .underline

def renditionBytes (rendition : Rendition) : Bytes :=
  [0x1b, 0x5b, 0x30] ++ (renditionParameters rendition).flatMap sgrParameter ++ [0x6d]

def cursorBytes (row column : Nat) : Bytes :=
  [0x1b, 0x5b] ++ decimal row ++ [0x3b] ++ decimal column ++ [0x48]

/-- What is painted for a cell. -/
def Cell.glyph (cell : Cell) : Bytes := if cell.bytes = [] then [0x20] else cell.bytes

/-- The bytes that paint some cells, and the rendition last emitted. -/
def paintCells (emitted : Rendition) : List Cell → Bytes × Rendition
  | [] => ([], emitted)
  | cell :: rest =>
    let change := if emitted ≠ cell.rendition then renditionBytes cell.rendition else []
    let (bytes, last) := paintCells cell.rendition rest
    (change ++ cell.glyph ++ bytes, last)

namespace Builder

def row (b : Builder) (index : Nat) : List Cell := (b.cells.drop (index * b.columns)).take b.columns

def occupied (cell : Cell) : Bool := cell.bytes ≠ [] || blankRenditionIsVisible cell.rendition

/-- The scan of the columns of a row from the last one down. -/
def lastOccupied (cells : List Cell) : Nat → Option Nat
  | 0 => none
  | column + 1 => if cells[column]?.any occupied then some column else lastOccupied cells column

def lastOccupiedColumn (b : Builder) (index : Nat) : Option Nat := lastOccupied (b.row index) b.columns

def paintRow (b : Builder) (emitted : Rendition) (index : Nat) : Bytes × Rendition :=
  match b.lastOccupiedColumn index with
  | none => ([], emitted)
  | some last =>
    let (bytes, rendition) := paintCells emitted ((b.row index).take (last + 1))
    (cursorBytes (index + 1) 1 ++ bytes, rendition)

def paintRows (b : Builder) : List Nat → Bytes × Rendition → Bytes × Rendition
  | [], output => output
  | index :: rest, (output, emitted) =>
    let (bytes, last) := b.paintRow emitted index
    b.paintRows rest (output ++ bytes, last)

def checkpoint (b : Builder) : Bytes :=
  let (output, emitted) := b.paintRows (List.range b.rows) ([0x1b, 0x63], {})
  output ++ (if emitted ≠ b.rendition then renditionBytes b.rendition else []) ++
    cursorBytes (b.cursorRow + 1) (b.cursorColumn + 1)

end Builder
end Machinen.Vt
