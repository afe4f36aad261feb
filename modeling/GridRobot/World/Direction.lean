/-!
# Compass directions

The four directions a robot can face, the two quarter turns, and the unit step
that each direction takes on the grid.  The first coordinate grows to the east
and the second one to the north.

**Results.**
* `left_right`, `right_left`: the two turns undo each other.
* `left_left_left_left`: four left turns lead back.
* `step_left_left`: the step of the opposite direction is the negated step.
-/

namespace GridRobot

/-- A compass direction. -/
inductive Direction
  | north
  | east
  | south
  | west
  deriving DecidableEq, Repr

namespace Direction

/-- A quarter turn counter-clockwise. -/
def left : Direction → Direction
  | north => west
  | west => south
  | south => east
  | east => north

/-- A quarter turn clockwise. -/
def right : Direction → Direction
  | north => east
  | east => south
  | south => west
  | west => north

/-- The change of the two coordinates in one step forward. -/
def step : Direction → Int × Int
  | north => (0, 1)
  | east => (1, 0)
  | south => (0, -1)
  | west => (-1, 0)

/-- The direction as a lower-case word. -/
def word : Direction → String
  | north => "north"
  | east => "east"
  | south => "south"
  | west => "west"

@[simp] theorem left_right (d : Direction) : d.right.left = d := by
  cases d <;> rfl

@[simp] theorem right_left (d : Direction) : d.left.right = d := by
  cases d <;> rfl

theorem left_left_left_left (d : Direction) : d.left.left.left.left = d := by
  cases d <;> rfl

theorem step_left_left (d : Direction) :
    d.left.left.step = (-d.step.1, -d.step.2) := by
  cases d <;> rfl

end Direction

end GridRobot
