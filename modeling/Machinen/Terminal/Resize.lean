import Machinen.Terminal.Builder

/-! The builder's other input: the window is resized, and both screens get a new grid. -/
namespace Machinen.Vt

/-- One turn of the copy of `resizedCells`. -/
def copyRow (source : List Cell) (oldColumns columns copyColumns : Nat) (replacement : List Cell)
    (row : Nat) : Option (List Cell) :=
  let oldStart := row * oldColumns
  let newStart := row * columns
  if newStart + copyColumns ≤ replacement.length ∧ oldStart + copyColumns ≤ source.length then
    some (replacement.take newStart ++ ((source.drop oldStart).take copyColumns ++
      replacement.drop (newStart + copyColumns)))
  else none

def resizedCells (source : List Cell) (oldRows oldColumns rows columns : Nat) : Option (List Cell) :=
  (List.range (min rows oldRows)).foldlM (copyRow source oldColumns columns (min columns oldColumns))
    (List.replicate (rows * columns) {})

/-- What the worker does to its builder. An allocation may fail. -/
inductive Event where
  | byte (byte : UInt8)
  | resize (rows columns : Nat) (allocated : Bool)

namespace Builder

def resize (b : Builder) (rows columns : Nat) (allocated : Bool) : Option Builder :=
  if validSize rows columns = false ∨ rows = b.rows ∧ columns = b.columns ∨ allocated = false then some b
  else do
    let cells ← resizedCells b.cells b.rows b.columns rows columns
    let inactiveCells ← resizedCells b.inactiveCells b.rows b.columns rows columns
    return { b with
      cells := cells
      inactiveCells := inactiveCells
      rows := rows
      columns := columns
      cursorRow := min b.cursorRow (rows - 1)
      cursorColumn := min b.cursorColumn (columns - 1)
      lastCell := none }

def handle (b : Builder) : Event → Option Builder
  | .byte byte => b.feedByte byte
  | .resize rows columns allocated => b.resize rows columns allocated

abbrev exec : Builder → List Event → Option Builder := Run.exec handle

end Builder

/-! A resized grid -/

section Resized

variable {source : List Cell} {oldColumns columns copyColumns : Nat}

theorem copyRow_some {replacement : List Cell} {row : Nat} (wide : copyColumns ≤ columns)
    (room : (row + 1) * columns ≤ replacement.length)
    (known : row * oldColumns + copyColumns ≤ source.length) :
    ∃ cells, copyRow source oldColumns columns copyColumns replacement row = some cells ∧
      cells.length = replacement.length ∧
      ∀ index, cells[index]? = if row * columns ≤ index ∧ index < row * columns + copyColumns then
        source[row * oldColumns + (index - row * columns)]? else replacement[index]? := by
  rw [Nat.succ_mul] at room
  have fits : row * columns + copyColumns ≤ replacement.length := by omega
  have front : (replacement.take (row * columns)).length = row * columns := by
    rw [List.length_take]
    omega
  have middle : ((source.drop (row * oldColumns)).take copyColumns).length = copyColumns := by
    rw [List.length_take, List.length_drop]
    omega
  refine ⟨_, if_pos ⟨fits, known⟩, ?_, fun index => ?_⟩
  · rw [List.length_append, List.length_append, front, middle, List.length_drop]
    omega
  · rw [List.getElem?_append, front]
    by_cases before : index < row * columns
    · rw [if_pos before, if_neg (by omega), List.getElem?_take, if_pos before]
    rw [if_neg before, List.getElem?_append, middle]
    by_cases inside : index - row * columns < copyColumns
    · rw [if_pos inside, if_pos (by omega), List.getElem?_take, if_pos inside, List.getElem?_drop]
    · rw [if_neg inside, if_neg (by omega), List.getElem?_drop]
      congr 1
      omega

theorem copyRows_some {rows count : Nat} (wide : copyColumns ≤ columns) (few : count ≤ rows)
    (known : ∀ row < count, row * oldColumns + copyColumns ≤ source.length) :
    ∃ cells, (List.range count).foldlM (copyRow source oldColumns columns copyColumns)
        (List.replicate (rows * columns) ({} : Cell)) = some cells ∧
      cells.length = rows * columns ∧
      ∀ row column, row < rows → column < columns → cells[row * columns + column]? =
        if row < count ∧ column < copyColumns then source[row * oldColumns + column]? else some {} := by
  induction count with
  | zero =>
    refine ⟨_, rfl, List.length_replicate .., fun row column below before => ?_⟩
    have inside : (row + 1) * columns ≤ rows * columns := Nat.mul_le_mul_right _ below
    rw [Nat.succ_mul] at inside
    rw [if_neg (fun both => Nat.not_lt_zero _ both.1), List.getElem?_replicate, if_pos (by omega)]
  | succ count ih =>
    obtain ⟨cells, copied, length, grid⟩ := ih (Nat.le_of_succ_le few) fun row below =>
      known row (Nat.lt_succ_of_lt below)
    have room : (count + 1) * columns ≤ cells.length := length ▸ Nat.mul_le_mul_right _ few
    obtain ⟨cells', next, length', grid'⟩ := copyRow_some wide room (known count (Nat.lt_succ_self _))
    refine ⟨cells', ?_, length'.trans length, fun row column below before => ?_⟩
    · simp only [List.range_succ, List.foldlM_append, copied, Option.bind_eq_bind, Option.bind_some,
        List.foldlM_cons, List.foldlM_nil, next]
      rfl
    · rw [grid', grid row column below before]
      by_cases here : row = count
      · subst here
        by_cases narrow : column < copyColumns
        · rw [if_pos (by omega), if_pos ⟨Nat.lt_succ_self _, narrow⟩, Nat.add_sub_cancel_left]
        · rw [if_neg (by omega), if_neg (fun both => narrow both.2), if_neg (fun both => narrow both.2)]
      · have apart : ¬ (count * columns ≤ row * columns + column ∧
          row * columns + column < count * columns + copyColumns) := by
          rintro ⟨low, high⟩
          rcases Nat.lt_or_gt_of_ne here with above | under
          · have := Nat.mul_le_mul_right columns above
            rw [Nat.succ_mul] at this
            omega
          · have := Nat.mul_le_mul_right columns under
            rw [Nat.succ_mul] at this
            omega
        rw [if_neg apart]
        congr 1
        simp only [eq_iff_iff, and_congr_left_iff]
        intro _
        omega

end Resized

theorem resizedCells_some {source : List Cell} {oldRows oldColumns : Nat}
    (length : source.length = oldRows * oldColumns)
    (rows columns : Nat) : ∃ cells, resizedCells source oldRows oldColumns rows columns = some cells ∧
      cells.length = rows * columns ∧
      ∀ row column, row < rows → column < columns → cells[row * columns + column]? =
        if row < oldRows ∧ column < oldColumns then source[row * oldColumns + column]? else some {} := by
  have known : ∀ row < min rows oldRows, row * oldColumns + min columns oldColumns ≤ source.length := by
    intro row below
    have inside : (row + 1) * oldColumns ≤ oldRows * oldColumns := Nat.mul_le_mul_right _ (by omega)
    rw [Nat.succ_mul] at inside
    omega
  obtain ⟨cells, copied, size, grid⟩ := copyRows_some (Nat.min_le_left columns oldColumns)
    (Nat.min_le_left rows oldRows) known
  refine ⟨cells, copied, size, fun row column below before => ?_⟩
  rw [grid row column below before]
  congr 1
  simp only [eq_iff_iff]
  omega

end Machinen.Vt
