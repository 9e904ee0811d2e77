import Chip8.Proofs.Bits
import Chip8.Proofs.Display.Parity
import Chip8.Proofs.Text

/-!
# Views of the screen

A cell is reached by its coordinates, by its place in the bytes, by column and row, or as a character
of the text. Whatever the screen holds, these are views of the same byte.
-/
namespace Chip8.Display

variable {cx cy : Nat}

theorem getElem?_toBytes (d : Display) (hx : cx < 64) (hy : cy < 32) :
    d.toBytes[cy * 64 + cx]? = some (d.get cx cy) := by
  have hplace : (index cx cy).val = cy * 64 + cx := by
    simp only [index]
    omega
  rw [← hplace]
  exact getElem?_toList d.cells (index cx cy)

theorem getElem?_rows (d : Display) (hy : cy < 32) :
    d.rows[cy]? = some ((d.toBytes.drop (cy * 64)).take 64) := by
  rw [rows, List.getElem?_map, height, List.getElem?_range hy]
  rfl

theorem row_getD (d : Display) (hx : cx < 64) (hy : cy < 32) :
    ((d.toBytes.drop (cy * 64)).take 64).getD cx dark = d.get cx cy := by
  rw [List.getD_eq_getElem?_getD, List.getElem?_take_of_lt hx, List.getElem?_drop,
    getElem?_toBytes d hx hy]
  rfl

theorem getElem?_toColumns (d : Display) (hx : cx < 64) (hy : cy < 32) :
    (d.toColumns[cx]?).bind (·[cy]?) = some (d.get cx cy) := by
  have hcolumn : d.toColumns[cx]? = some (d.rows.map fun row => row.getD cx dark) := by
    rw [toColumns, List.getElem?_map, width, List.getElem?_range hx]
    rfl
  rw [hcolumn, Option.bind_some, List.getElem?_map, getElem?_rows d hy, Option.map_some,
    row_getD d hx hy]

def mark (b : UInt8) : Char := if b ≠ 0 then '#' else '.'

theorem isOn_iff (d : Display) (x y : Int) : d.isOn x y = true ↔ d.get x y ≠ 0 := by
  rw [isOn, bne_iff_ne]
  rfl

theorem toList_line (d : Display) (cy : Nat) :
    (d.line cy).toList = (List.range 64).map fun (cx : Nat) => mark (d.get cx cy) := by
  rw [line, String.toList_ofList]
  apply List.map_congr_left
  intro cx _
  simp only [mark, isOn_iff]

theorem lines_text (d : Display) :
    Text.lines d.text = (List.range 32).map fun cy => (d.line cy).toList := by
  rw [text, Text.lines_intercalate]
  · simp [height]
  · simp [height]
  · intro l hl
    obtain ⟨cy, -, rfl⟩ := List.mem_map.mp hl
    rw [toList_line]
    simp only [List.mem_map, not_exists, not_and, mark]
    intro cx _
    split
    · decide
    · decide

theorem getElem?_text (d : Display) (hx : cx < 64) (hy : cy < 32) :
    ((Text.lines d.text)[cy]?).bind (·[cx]?) = some (mark (d.get cx cy)) := by
  rw [lines_text, List.getElem?_map, List.getElem?_range hy, Option.map_some, Option.bind_some,
    toList_line, List.getElem?_map, List.getElem?_range hx, Option.map_some]

theorem get_wrapped (d : Display) (x y : Int) :
    d.get (x % 64).toNat (y % 32).toNat = d.get x y := by
  have hindex : index (x % 64).toNat (y % 32).toNat = index x y := by
    rw [index_eq_iff]
    omega
  rw [get, hindex, get]

theorem get_set_cell (d : Display) (x y v x' y' : Int) :
    (d.set x y v).get x' y' =
      if x % 64 = x' % 64 ∧ y % 32 = y' % 32 then UInt8.ofInt v else d.get x' y' := by
  simp only [set, get, get_set, index_eq_iff]

/-- All views agree on a screen of any bytes and at coordinates of any size and sign. The text is
32 lines of 64 characters. A cell that is written holds the low byte of what is written, and every
other cell keeps its byte. -/
theorem views_agree (d : Display) (x y : Int) :
    let column := (x % 64).toNat
    let row := (y % 32).toNat
    let lines := Text.lines d.text
    (d.toBytes.length = 2048 ∧ d.toBytes[row * 64 + column]? = some (d.get x y)) ∧
    ((d.toColumns.length = 64 ∧ ∀ cells ∈ d.toColumns, cells.length = 32) ∧
      (d.toColumns[column]?).bind (·[row]?) = some (d.get x y)) ∧
    (d.isOn x y = true ↔ d.get x y ≠ 0) ∧
    ((lines.length = 32 ∧ ∀ line ∈ lines, line.length = 64) ∧
      (lines[row]?).bind (·[column]?) = some (if d.get x y ≠ 0 then '#' else '.')) ∧
    ∀ v x' y' : Int, ((d.set x y v).get x' y').toNat =
      if x % 64 = x' % 64 ∧ y % 32 = y' % 32 then Bits.and v 0xFF else (d.get x' y').toNat := by
  intro column row lines
  have hcolumn : column < 64 := by omega
  have hrow : row < 32 := by omega
  have hwrap : d.get column row = d.get x y := get_wrapped d x y
  refine ⟨⟨?_, ?_⟩, ⟨⟨?_, ?_⟩, ?_⟩, isOn_iff d x y, ⟨⟨?_, ?_⟩, ?_⟩, ?_⟩
  · simp [toBytes]
  · rw [getElem?_toBytes d hcolumn hrow, hwrap]
  · simp [toColumns, width]
  · simp [toColumns, rows, height]
  · rw [getElem?_toColumns d hcolumn hrow, hwrap]
  · simp [lines, lines_text]
  · simp [lines, lines_text, toList_line]
  · rw [getElem?_text d hcolumn hrow, hwrap, mark]
  · intro v x' y'
    rw [get_set_cell]
    split
    · exact Bits.toNat_ofInt_eq_and v
    · rfl

end Chip8.Display
