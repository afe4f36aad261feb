import Mathlib
import GridRobot.World.Picture
import GridRobot.Proofs.Text.Lines
import GridRobot.Proofs.World.Construction

/-!
# The views of a world agree

A world is looked at in three ways: cell by cell through its coordinates, as the list of all its
cells, and as a picture.  Each of them finds the place of a cell in its own way: by the index of the
row and the column, by the remainder and the quotient of the index, and by going through the rows
from the north to the south and through each row from the west to the east.  They show the same
cells.

A picture has one sign for all piles above nine.  Where there is no such pile it tells the whole
world, its width and its height included.

**Results.**
* `World.Valid.cell_ofNat`: the cell at a column and a row.
* `World.Valid.coordinates_entries`, `World.Valid.cell_of_mem_entries`: the list of all cells goes
  through the rows, and agrees with the cells by coordinates.
* `World.splitOn_picture`: the lines of a picture.
* `World.Valid.eq_of_picture`: worlds without large piles are told apart by their pictures.
* `World.views_agree`: the three views show the same.
-/

namespace GridRobot

namespace Cell

/-- The sign that stands for a cell in a picture: a dot for an open cell, a hash for a wall, the
digit of a pile of at most nine, and a star for a larger pile. -/
inductive DrawnAs : Cell → Char → Prop
  | empty : DrawnAs empty '.'
  | wall : DrawnAs wall '#'
  | digit {n : UInt32} {sign : Char} (hle : n.toNat ≤ 9)
      (hsign : sign.toNat = '0'.toNat + n.toNat) : DrawnAs (beepers n) sign
  | star {n : UInt32} (hlt : 9 < n.toNat) : DrawnAs (beepers n) '*'

theorem drawnAs_glyph (c : Cell) : c.DrawnAs c.glyph := by
  cases c with
  | empty => exact .empty
  | wall => exact .wall
  | beepers n =>
      rw [glyph]
      split
      · rename_i hle
        have hle : n.toNat ≤ 9 := hle
        exact .digit hle (Nat.toNat_digitChar_of_lt_ten (Nat.lt_succ_of_le hle))
      · rename_i hlt
        exact .star (Nat.lt_of_not_le hlt)

/-- The cell that a sign stands for, if large piles are left out. -/
def ofSign (sign : Char) : Cell :=
  if sign = '.' then empty
  else if sign = '#' then wall
  else beepers (.ofNat (sign.toNat - '0'.toNat))

theorem DrawnAs.eq_ofSign {c : Cell} {sign : Char} (h : c.DrawnAs sign) (hsmall : c.pile ≤ 9) :
    c = ofSign sign := by
  cases h with
  | empty => rfl
  | wall => rfl
  | @digit n sign hle hsign =>
      have hopen : sign ≠ '.' := by
        rintro rfl
        simp at hsign
        omega
      have hwall : sign ≠ '#' := by
        rintro rfl
        simp at hsign
        omega
      rw [ofSign, if_neg hopen, if_neg hwall, hsign, Nat.add_sub_cancel_left, UInt32.ofNat_toNat]
  | star hlt => exact absurd hsmall (Nat.not_le.2 hlt)

theorem DrawnAs.ne_newline {c : Cell} {sign : Char} (h : c.DrawnAs sign) : sign ≠ '\n' := by
  cases h with
  | empty => decide
  | wall => decide
  | digit _ hsign =>
      rintro rfl
      simp at hsign
      omega
  | star => decide

/-- Cells without large piles are told apart by their signs. -/
theorem glyph_inj {c d : Cell} (hc : c.pile ≤ 9) (hd : d.pile ≤ 9) (h : c.glyph = d.glyph) :
    c = d := by
  rw [c.drawnAs_glyph.eq_ofSign hc, h, ← d.drawnAs_glyph.eq_ofSign hd]

end Cell

namespace World

variable {w v : World} {x y r : Nat}

theorem Valid.cell_ofNat (hw : w.Valid) (hx : x < w.width) (hy : y < w.height) :
    w.cell (.ofNat x) (.ofNat y) = .ok (w.stored (y * w.width + x)) := by
  have hwidth := hw.width_le
  have hheight := hw.height_le
  unfold maxCells at hwidth hheight
  have hcolumn : (UInt64.ofNat x).toNat = x :=
    UInt64.toNat_ofNat_of_lt' (Nat.lt_trans (Nat.lt_of_lt_of_le hx hwidth) (by decide))
  have hrow : (UInt64.ofNat y).toNat = y :=
    UInt64.toNat_ofNat_of_lt' (Nat.lt_trans (Nat.lt_of_lt_of_le hy hheight) (by decide))
  have hcell := hw.maps.cell_eq (.ofNat x) (.ofNat y) (by rwa [hcolumn]) (by rwa [hrow])
  rwa [hcolumn, hrow] at hcell

/-! ### The list of all cells -/

theorem map_range_mul (width height : Nat) (hwidth : 0 < width) :
    (List.range (width * height)).map (fun i => (i % width, i / width))
      = (List.range height).flatMap fun y => (List.range width).map fun x => (x, y) := by
  induction height with
  | zero =>
      rfl
  | succ height ih =>
      rw [Nat.mul_succ, List.range_add, List.map_append, ih, List.range_succ, List.flatMap_append,
        List.flatMap_singleton, List.map_map]
      refine congrArg (_ ++ ·) (List.map_congr_left fun x hx => ?_)
      have hx := List.mem_range.1 hx
      simp [Nat.mul_add_div hwidth, Nat.div_eq_of_lt hx, Nat.mod_eq_of_lt hx]

theorem mem_entries_iff {c : Cell} :
    (x, y, c) ∈ w.entries ↔ ∃ i, w.cells[i]? = some c ∧ i % w.width = x ∧ i / w.width = y := by
  simp only [entries, List.mem_map, Prod.exists, List.mem_zipIdx_iff_getElem?, Prod.mk.injEq]
  constructor
  · rintro ⟨_, i, hi, hx, hy, rfl⟩
    exact ⟨i, by simpa using hi, hx, hy⟩
  · rintro ⟨i, hi, hx, hy⟩
    exact ⟨c, i, by simpa using hi, hx, hy, rfl⟩

/-- The list of all cells goes through the rows from the south to the north, and through each row
from the west to the east. -/
theorem Valid.coordinates_entries (hw : w.Valid) :
    w.entries.map (fun e => (e.1, e.2.1))
      = (List.range w.height).flatMap fun y => (List.range w.width).map fun x => (x, y) := by
  have hindices : w.cells.toList.zipIdx.map Prod.snd = List.range (w.width * w.height) := by
    rw [List.zipIdx_map_snd, Array.length_toList, hw.size_eq, List.range_eq_range']
  rw [← map_range_mul _ _ hw.width_pos, ← hindices, entries, List.map_map, List.map_map]
  rfl

theorem Valid.cell_of_mem_entries (hw : w.Valid) {c : Cell} (h : (x, y, c) ∈ w.entries) :
    w.cell (.ofNat x) (.ofNat y) = .ok c := by
  obtain ⟨i, hi, rfl, rfl⟩ := mem_entries_iff.1 h
  obtain ⟨hlt, rfl⟩ := Array.getElem?_eq_some_iff.1 hi
  obtain ⟨_, _, hcolumn, hrow⟩ := hw.writeBack_spec hlt
  rw [hw.cell_ofNat hcolumn hrow, Nat.div_add_mod', stored, Array.getD_eq_getD_getElem?, hi,
    Option.getD_some]

/-! ### The picture -/

theorem splitOn_picture (w : World) : w.picture.toList.splitOn '\n' = w.pictureRows ++ [[]] := by
  rw [picture, String.toList_ofList]
  refine Text.splitOn_flatMap_newline fun row hrow hmem => ?_
  obtain ⟨y, _, rfl⟩ := List.mem_map.1 hrow
  obtain ⟨x, _, hsign⟩ := List.mem_map.1 hmem
  exact (Cell.drawnAs_glyph _).ne_newline hsign

theorem getElem?_pictureRow (hx : x < w.width) (y : Nat) :
    (w.pictureRow y)[x]? = some (w.stored (y * w.width + x)).glyph := by
  rw [pictureRow, List.getElem?_map, List.getElem?_range hx, Option.map_some]

/-- The lines of a picture count from the north. -/
theorem getElem?_pictureRows (hr : r < w.height) :
    w.pictureRows[r]? = some (w.pictureRow (w.height - 1 - r)) := by
  rw [pictureRows, List.getElem?_map, List.getElem?_reverse (by simpa using hr), List.length_range,
    List.getElem?_range (by omega), Option.map_some]

theorem pile_stored_le {n : UInt32} (h : ∀ c ∈ w.cells, c.pile ≤ n) (i : Nat) :
    (w.stored i).pile ≤ n := by
  rw [stored, Array.getD_eq_getD_getElem?]
  by_cases hi : i < w.cells.size
  · rw [Array.getElem?_eq_getElem hi, Option.getD_some]
    exact h _ (Array.getElem_mem hi)
  · rw [Array.getElem?_eq_none (Nat.le_of_not_lt hi), Option.getD_none, Cell.pile_empty]
    exact UInt32.zero_le

/-- Valid worlds without large piles are told apart by their pictures, whatever their sizes. -/
theorem Valid.eq_of_picture (hv : v.Valid) (hw : w.Valid) (hsmall : ∀ c ∈ v.cells, c.pile ≤ 9)
    (hsmall' : ∀ c ∈ w.cells, c.pile ≤ 9) (h : v.picture = w.picture) : v = w := by
  have hlines : v.pictureRows ++ [[]] = w.pictureRows ++ [[]] := by
    rw [← splitOn_picture, h, splitOn_picture]
  have hrows : v.pictureRows = w.pictureRows := List.append_cancel_right hlines
  have hheight : v.height = w.height := by
    rw [← length_pictureRows, hrows, length_pictureRows]
  -- rows are counted from the south and lines from the north, so equal heights are needed first
  have hrow (y : Nat) (hy : y < w.height) : v.pictureRow y = w.pictureRow y := by
    have hline := getElem?_pictureRows (w := v) (r := w.height - 1 - y) (by omega)
    rw [hrows, getElem?_pictureRows (by omega), hheight, Nat.sub_sub_self (by omega)] at hline
    exact (Option.some.inj hline).symm
  have hwidth : v.width = w.width := by
    simpa [pictureRow] using congrArg List.length (hrow 0 hw.height_pos)
  refine Maps.eq ⟨hv, hwidth, hheight, fun x y hx hy => ?_⟩ hw.maps
  have hsign := getElem?_pictureRow (hwidth ▸ hx) y.toNat
  rw [hrow y.toNat hy, getElem?_pictureRow hx] at hsign
  have hcell := Cell.glyph_inj (pile_stored_le hsmall' _) (pile_stored_le hsmall _)
    (Option.some.inj hsign)
  rw [hv.maps.cell_eq x y (hwidth ▸ hx) (hheight ▸ hy), ← hcell]

/-- **The views of a world agree.**  In a valid world the list of all cells goes through the
coordinates row by row, each pair once, and has the cell that is found at them.  The picture has as
many lines as the world is high, every line has as many signs as the world is wide, and a newline
stands behind each of them; the sign at a column of a line stands for the cell at this column in the
row that counts from the north.  Valid worlds in which no pile is larger than nine are equal if they
have the same picture. -/
theorem views_agree :
    (∀ w : World, w.Valid →
      w.entries.map (fun e => (e.1, e.2.1))
        = ((List.range w.height).flatMap fun y => (List.range w.width).map fun x => (x, y)) ∧
      (∀ x y c, (x, y, c) ∈ w.entries → w.cell (.ofNat x) (.ofNat y) = .ok c) ∧
      ∃ lines, w.picture.toList.splitOn '\n' = lines ++ [[]] ∧
        lines.length = w.height ∧ (∀ line ∈ lines, line.length = w.width) ∧
        ∀ r x, r < w.height → x < w.width →
          ∃ c sign, w.cell (.ofNat x) (.ofNat (w.height - 1 - r)) = .ok c ∧
            lines[r]?.bind (·[x]?) = some sign ∧ c.DrawnAs sign) ∧
    ∀ v w : World, v.Valid → w.Valid → (∀ c ∈ v.cells, c.pile ≤ 9) → (∀ c ∈ w.cells, c.pile ≤ 9) →
      v.picture = w.picture → v = w := by
  refine ⟨fun w hw => ⟨hw.coordinates_entries, fun x y c => hw.cell_of_mem_entries,
    w.pictureRows, w.splitOn_picture, w.length_pictureRows,
    fun line => w.length_of_mem_pictureRows, fun r x hr hx => ?_⟩,
    fun v w hv hw => hv.eq_of_picture hw⟩
  refine ⟨_, _, hw.cell_ofNat hx (by omega), ?_, Cell.drawnAs_glyph _⟩
  rw [getElem?_pictureRows hr, Option.bind_some, getElem?_pictureRow hx]

/-- A wall and a pile of nine stand in the south of a world that is three cells wide and two cells
high, and a large pile in its north-east corner.  Without the large pile the world is the one that
is built by hand from its picture. -/
theorem views_agree_on_wide_world :
    let large : World := ⟨3, 2, #[.empty, .wall, .beepers 9, .beepers 1, .empty, .beepers 10]⟩
    let small : World := ⟨3, 2, #[.empty, .wall, .beepers 9, .beepers 1, .empty, .empty]⟩
    let built : World := (⟨3, 2, Array.replicate 6 .empty⟩ : World).updateAll
      [⟨1, 0, .write .wall⟩, ⟨2, 0, .write (.beepers 8)⟩, ⟨0, 1, .add⟩, ⟨2, 0, .add⟩]
    large.Valid ∧
      large.entries.map (fun e => (e.1, e.2.1))
        = [(0, 0), (1, 0), (2, 0), (0, 1), (1, 1), (2, 1)] ∧
      large.cell 2 1 = .ok (.beepers 10) ∧
      (∃ lines, large.picture.toList.splitOn '\n' = lines ++ [[]] ∧ lines.length = 2 ∧
        ∃ c sign, large.cell 2 0 = .ok c ∧ lines[1]?.bind (·[2]?) = some sign ∧ c.DrawnAs sign) ∧
      built.Valid ∧ small.Valid ∧ (∀ c ∈ built.cells, c.pile ≤ 9) ∧
      (∀ c ∈ small.cells, c.pile ≤ 9) ∧ built.picture = small.picture ∧ built = small := by
  intro large small built
  have hlarge : large.Valid := (check_eq_ok_iff large).1 (by decide +kernel)
  have hsmall : small.Valid := (check_eq_ok_iff small).1 (by decide +kernel)
  have hbuilt : built.Valid := (check_eq_ok_iff built).1 (by decide +kernel)
  have hpiles : ∀ c ∈ built.cells, c.pile ≤ 9 := by decide +kernel
  have hpiles' : ∀ c ∈ small.cells, c.pile ≤ 9 := by decide +kernel
  have hpicture : built.picture = small.picture := by decide +kernel
  obtain ⟨hviews, hpictures⟩ := views_agree
  obtain ⟨hcoordinates, hcells, lines, hlines, hlength, _, hsigns⟩ := hviews large hlarge
  refine ⟨hlarge, hcoordinates, hcells 2 1 _ (by decide +kernel),
    ⟨lines, hlines, hlength, hsigns 1 2 (by decide) (by decide)⟩, hbuilt, hsmall, hpiles, hpiles',
    hpicture, hpictures built small hbuilt hsmall hpiles hpiles' hpicture⟩

end World

end GridRobot
