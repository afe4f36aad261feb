import GridRobot.World.Basic

/-!
# Pictures of a world

A world is drawn with one sign for each cell, one line for each row, and north
at the top.

**Results.**
* `length_pictureRows`, `length_of_mem_pictureRows`: a picture has as many lines
  as the world is high, each as long as the world is wide.
-/

namespace GridRobot

namespace World

/-- The signs of the row at height `y`, from west to east. -/
def pictureRow (w : World) (y : Nat) : List Char :=
  (List.range w.width).map fun x => (w.stored (y * w.width + x)).glyph

/-- The rows of signs, the northernmost first. -/
def pictureRows (w : World) : List (List Char) :=
  (List.range w.height).reverse.map w.pictureRow

/-- The picture as text; a newline ends each row. -/
def picture (w : World) : String :=
  String.ofList (w.pictureRows.flatMap (· ++ ['\n']))

theorem length_pictureRows (w : World) : w.pictureRows.length = w.height := by
  simp [pictureRows]

theorem length_of_mem_pictureRows (w : World) {row : List Char}
    (h : row ∈ w.pictureRows) : row.length = w.width := by
  simp only [pictureRows, List.mem_map] at h
  obtain ⟨y, _, rfl⟩ := h
  simp [pictureRow]

end World

end GridRobot
