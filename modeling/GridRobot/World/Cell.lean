/-!
# Cells

What stands on one cell of the grid.  A pile of beepers is counted in 32 bits.
A pile of no beepers can be written down, but it is not tidy: the world stores
an open cell instead of it.

**Results.**
* `tidy_ne_pile_zero`: a tidy cell is no pile of no beepers.
-/

namespace GridRobot

/-- The contents of one cell. -/
inductive Cell
  | empty
  | wall
  | beepers (count : UInt32)
  deriving DecidableEq, Repr

namespace Cell

/-- The number of beepers on the cell, zero where there is no pile. -/
def pile : Cell → UInt32
  | beepers n => n
  | _ => 0

/-- The cell with a pile of no beepers turned into an open cell. -/
def tidy : Cell → Cell
  | beepers n => if n = 0 then empty else beepers n
  | c => c

/-- The most beepers a pile can hold. -/
def fullPile : UInt32 := 4294967295

/-- The size of a pile after one more beeper; a full pile stays as it is. -/
def oneMore (n : UInt32) : UInt32 :=
  if n = fullPile then n else n + 1

/-- The sign of the cell in a picture: piles above nine share one sign. -/
def glyph : Cell → Char
  | empty => '.'
  | wall => '#'
  | beepers n => if n ≤ 9 then Nat.digitChar n.toNat else '*'

@[simp] theorem pile_empty : empty.pile = 0 := rfl

@[simp] theorem pile_wall : wall.pile = 0 := rfl

@[simp] theorem pile_beepers (n : UInt32) : (beepers n).pile = n := rfl

@[simp] theorem tidy_empty : empty.tidy = empty := rfl

@[simp] theorem tidy_wall : wall.tidy = wall := rfl

theorem tidy_beepers (n : UInt32) :
    (beepers n).tidy = if n = 0 then empty else beepers n := rfl

theorem tidy_ne_pile_zero (c : Cell) : c.tidy ≠ beepers 0 := by
  cases c with
  | empty => simp
  | wall => simp
  | beepers n => by_cases h : n = 0 <;> simp [tidy, h]

@[simp] theorem pile_tidy (c : Cell) : c.tidy.pile = c.pile := by
  cases c with
  | empty => rfl
  | wall => rfl
  | beepers n => by_cases h : n = 0 <;> simp [tidy, h]

end Cell

end GridRobot
