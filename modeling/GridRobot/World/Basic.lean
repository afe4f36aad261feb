import GridRobot.World.Cell

/-!
# The world

A world is a rectangular grid of cells, stored row by row from the south edge
up.  Cells are addressed by 64-bit words which are read as signed numbers, so
that a walk over an edge has a coordinate too; a cell outside the grid is
reported, never stored.

The type holds the data as it is, so that a world that comes from a file can be
checked: `World.check` accepts exactly the worlds whose stored cells fill a grid
of legal size and in which no pile is empty (`World.Valid`).

**Results.**
* `check_eq_ok_iff`: the check accepts exactly the valid worlds.
* `valid_of_blank`: a new world is valid.
* `Valid.store`: storing a tidy cell keeps a world valid.
* `index_lt_size`: in a valid world an index that is handed out lies in the store.
-/

namespace GridRobot

/-- A 64-bit word read as a signed coordinate. -/
def signed (w : UInt64) : Int :=
  w.toInt64.toInt

/-- Why a world cannot be built, read or changed. -/
inductive WorldError
  | outside (x y : Int) (width height : Nat)
  | noCells (width height : Nat)
  | tooLarge (width height : Nat)
  | emptyPile (x y : Nat)
  | cellCount (width height expected found : Nat)
  deriving DecidableEq, Repr

/-- A grid of `width` by `height` cells, row by row from the south edge. -/
structure World where
  width : Nat
  height : Nat
  cells : Array Cell
  deriving DecidableEq, Repr

namespace World

/-- The most cells a world may have: two to the power of 24. -/
def maxCells : Nat := 16777216

end World

namespace WorldError

/-- The text of an error. -/
def message : WorldError → String
  | outside x y w h => s!"cell ({x}, {y}) is outside the {w}x{h} world"
  | noCells w h => s!"world dimensions must be at least 1x1, got {w}x{h}"
  | tooLarge w h => s!"a {w}x{h} world exceeds the limit of {World.maxCells} cells"
  | emptyPile x y => s!"cell ({x}, {y}) holds an empty beeper pile"
  | cellCount w h expected found =>
      s!"world stores {found} cells but {w}x{h} needs {expected}"

end WorldError

namespace World

/-! ### Size -/

/-- The number of cells of a grid, if it is a legal size. -/
def area (width height : Nat) : Except WorldError Nat :=
  if width = 0 ∨ height = 0 then .error (.noCells width height)
  else if width * height ≤ maxCells then .ok (width * height)
  else .error (.tooLarge width height)

/-- A world of open cells. -/
def blank (width height : Nat) : Except WorldError World :=
  (area width height).map fun n => ⟨width, height, Array.replicate n .empty⟩

/-! ### Cells by index -/

/-- The cell stored at an index. -/
def stored (w : World) (i : Nat) : Cell :=
  w.cells.getD i .empty

/-- The world with another cell at an index. -/
def store (w : World) (i : Nat) (c : Cell) : World :=
  { w with cells := w.cells.setIfInBounds i c }

/-- Whether the coordinates name a cell of the grid. -/
def inBounds (w : World) (x y : Int) : Bool :=
  0 ≤ x && 0 ≤ y && x < w.width && y < w.height

/-- The index of the cell at the coordinates. -/
def index (w : World) (x y : Int) : Except WorldError Nat :=
  if w.inBounds x y then .ok (y.toNat * w.width + x.toNat)
  else .error (.outside x y w.width w.height)

/-- Whether a robot cannot enter the coordinates: a wall, or no cell at all. -/
def blocked (w : World) (x y : Int) : Bool :=
  match w.index x y with
  | .ok i => w.stored i == .wall
  | .error _ => true

/-! ### Cells by coordinates -/

/-- The cell at the coordinates. -/
def cell (w : World) (x y : UInt64) : Except WorldError Cell :=
  (w.index (signed x) (signed y)).map w.stored

/-- The world with another cell at the coordinates. -/
def setCell (w : World) (x y : UInt64) (c : Cell) : Except WorldError World :=
  (w.index (signed x) (signed y)).map fun i => w.store i c.tidy

/-- The number of beepers at the coordinates. -/
def beepers (w : World) (x y : UInt64) : Except WorldError UInt32 :=
  (w.cell x y).map Cell.pile

/-- The world with one more beeper at the coordinates, and the size of the pile.
A wall gives way to a pile of one. -/
def addBeeper (w : World) (x y : UInt64) : Except WorldError (UInt32 × World) :=
  (w.index (signed x) (signed y)).map fun i =>
    let n := Cell.oneMore (w.stored i).pile
    (n, w.store i (.beepers n))

/-- The world with one beeper less at the coordinates, and the number of beepers
left; nothing where there is no beeper to take. -/
def takeBeeper (w : World) (x y : UInt64) : Except WorldError (Option (UInt32 × World)) :=
  (w.index (signed x) (signed y)).map fun i =>
    let n := (w.stored i).pile
    if n = 0 then none
    else some (n - 1, w.store i (Cell.beepers (n - 1)).tidy)

/-- Every cell with its coordinates, in storage order. -/
def entries (w : World) : List (Nat × Nat × Cell) :=
  w.cells.toList.zipIdx.map fun (c, i) => (i % w.width, i / w.width, c)

/-! ### The check of stored data -/

/-- A world that the operations can build: a legal size, one cell for each pair of
coordinates, and no empty pile. -/
structure Valid (w : World) : Prop where
  width_pos : 0 < w.width
  height_pos : 0 < w.height
  size_le : w.width * w.height ≤ maxCells
  size_eq : w.cells.size = w.width * w.height
  no_empty_pile : .beepers 0 ∉ w.cells

/-- Accepts the valid worlds and names the first fault of any other. -/
def check (w : World) : Except WorldError Unit := do
  let expected ← area w.width w.height
  if w.cells.size ≠ expected then
    throw (.cellCount w.width w.height expected w.cells.size)
  match w.cells.findIdx? (· == .beepers 0) with
  | some i => throw (.emptyPile (i % w.width) (i / w.width))
  | none => pure ()

/-! ### Equations -/

theorem inBounds_iff (w : World) (x y : Int) :
    w.inBounds x y = true ↔ 0 ≤ x ∧ 0 ≤ y ∧ x < w.width ∧ y < w.height := by
  simp [inBounds, and_assoc]

theorem area_eq_ok_iff (width height n : Nat) :
    area width height = .ok n ↔
      0 < width ∧ 0 < height ∧ width * height ≤ maxCells ∧ n = width * height := by
  unfold area
  split
  · rename_i h
    constructor
    · intro h'; cases h'
    · rintro ⟨hw, hh, _⟩; omega
  · rename_i h
    split
    · rename_i hle
      constructor
      · intro h'
        cases h'
        exact ⟨by omega, by omega, hle, rfl⟩
      · rintro ⟨_, _, _, rfl⟩; rfl
    · rename_i hlt
      constructor
      · intro h'; cases h'
      · rintro ⟨_, _, hle, _⟩; exact absurd hle hlt

@[simp] theorem store_width (w : World) (i : Nat) (c : Cell) :
    (w.store i c).width = w.width := rfl

@[simp] theorem store_height (w : World) (i : Nat) (c : Cell) :
    (w.store i c).height = w.height := rfl

@[simp] theorem size_store (w : World) (i : Nat) (c : Cell) :
    (w.store i c).cells.size = w.cells.size := by
  simp [store]

theorem stored_store (w : World) (i j : Nat) (c : Cell) (h : i < w.cells.size) :
    (w.store i c).stored j = if j = i then c else w.stored j := by
  simp only [stored, store, Array.getD_eq_getD_getElem?, Array.getElem?_setIfInBounds]
  by_cases hji : j = i
  · subst hji
    simp [h]
  · simp [hji, Ne.symm hji]

theorem index_lt_size {w : World} (hw : w.Valid) {x y : Int} {i : Nat}
    (h : w.index x y = .ok i) : i < w.cells.size := by
  unfold index at h
  split at h
  · rename_i hb
    cases h
    obtain ⟨hx, hy, hxw, hyh⟩ := (inBounds_iff w x y).1 hb
    rw [hw.size_eq]
    have h1 : y.toNat + 1 ≤ w.height := by omega
    have h2 := Nat.mul_le_mul_right w.width h1
    rw [Nat.add_mul, Nat.one_mul, Nat.mul_comm w.height] at h2
    omega
  · cases h

theorem check_eq_ok_iff (w : World) : w.check = .ok () ↔ w.Valid := by
  unfold check
  cases harea : area w.width w.height with
  | error e =>
      constructor
      · intro h; cases h
      · intro h
        have := (area_eq_ok_iff w.width w.height _).2
          ⟨h.width_pos, h.height_pos, h.size_le, rfl⟩
        rw [harea] at this
        cases this
  | ok n =>
      obtain ⟨hw, hh, hle, rfl⟩ := (area_eq_ok_iff _ _ _).1 harea
      by_cases hsize : w.cells.size = w.width * w.height
      · cases hfind : w.cells.findIdx? (· == .beepers 0) with
        | none =>
            simp only [bind, Except.bind, hsize, ne_eq, not_true, if_false,
              pure, Except.pure, true_iff]
            refine ⟨hw, hh, hle, hsize, fun hmem => ?_⟩
            have := Array.findIdx?_eq_none_iff.1 hfind _ hmem
            simp at this
        | some i =>
            simp only [bind, Except.bind, hsize, ne_eq, not_true, if_false]
            constructor
            · intro h; cases h
            · intro h
              obtain ⟨hi, hp, _⟩ := Array.findIdx?_eq_some_iff_getElem.1 hfind
              simp only [beq_iff_eq] at hp
              exact absurd (hp ▸ Array.getElem_mem hi) h.no_empty_pile
      · simp only [bind, Except.bind, hsize, ne_eq, not_false_iff, if_true]
        constructor
        · intro h; cases h
        · intro h; exact absurd h.size_eq hsize

theorem valid_of_blank {width height : Nat} {w : World}
    (h : blank width height = .ok w) : w.Valid := by
  unfold blank at h
  cases harea : area width height with
  | error e => rw [harea] at h; cases h
  | ok n =>
      rw [harea] at h
      cases h
      obtain ⟨hw, hh, hle, rfl⟩ := (area_eq_ok_iff _ _ _).1 harea
      exact ⟨hw, hh, hle, by simp, by simp⟩

theorem Valid.width_le {w : World} (hw : w.Valid) : w.width ≤ maxCells :=
  Nat.le_trans (Nat.le_mul_of_pos_right _ hw.height_pos) hw.size_le

theorem Valid.height_le {w : World} (hw : w.Valid) : w.height ≤ maxCells :=
  Nat.le_trans (Nat.le_mul_of_pos_left _ hw.width_pos) hw.size_le

theorem Valid.store {w : World} (hw : w.Valid) (i : Nat) {c : Cell}
    (hc : c ≠ .beepers 0) : (w.store i c).Valid := by
  refine ⟨hw.width_pos, hw.height_pos, hw.size_le, by simp [hw.size_eq], fun hmem => ?_⟩
  rcases Array.mem_or_eq_of_mem_setIfInBounds hmem with h | h
  · exact hw.no_empty_pile h
  · exact hc h.symm

end World

end GridRobot
