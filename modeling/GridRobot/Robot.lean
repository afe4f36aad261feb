import GridRobot.Program.Action
import GridRobot.Program.Condition
import GridRobot.World.Basic

/-!
# The robot and its scene

A robot has a place, written as two 64-bit words, and a direction.  Together
with a world it makes a scene.  An action turns a scene into another one or is
refused with a reason; a condition is a yes-or-no question about a scene.

**Results.**
* `perform_turnLeft`, `perform_turnRight`: turning never fails.
* `holds_frontIsBlocked`, `holds_noBeepersPresent`: the paired conditions are
  opposites.
-/

namespace GridRobot

/-- A robot: where it stands and where it looks. -/
structure Robot where
  x : UInt64
  y : UInt64
  facing : Direction
  deriving DecidableEq, Repr

namespace Robot

/-- The robot as text. -/
def text (r : Robot) : String :=
  s!"({r.x}, {r.y}) facing {r.facing.word}"

/-- Whether the robot stands on a cell of the world that is no wall. -/
def fits (r : Robot) (w : World) : Bool :=
  !w.blocked (signed r.x) (signed r.y)

/-- The coordinates one step ahead, which need not lie in any world. -/
def front (r : Robot) : Int × Int :=
  (signed r.x + r.facing.step.1, signed r.y + r.facing.step.2)

/-- The robot one step ahead, where the step leads to a place with coordinates. -/
def advance (r : Robot) : Robot :=
  { r with x := .ofNat r.front.1.toNat, y := .ofNat r.front.2.toNat }

/-- The robot after a quarter turn counter-clockwise. -/
def turnLeft (r : Robot) : Robot :=
  { r with facing := r.facing.left }

/-- The robot after a quarter turn clockwise. -/
def turnRight (r : Robot) : Robot :=
  { r with facing := r.facing.right }

end Robot

/-- Why an action is refused. -/
inductive ActionError
  | blocked (robot : Robot)
  | noBeeper (x y : UInt64)
  | offGrid (cause : WorldError)
  deriving DecidableEq, Repr

namespace ActionError

/-- The text of an error. -/
def message : ActionError → String
  | blocked r => s!"blocked: cannot move from {r.text}"
  | noBeeper x y => s!"no beeper to pick up at ({x}, {y})"
  | offGrid e => s!"agent is off the grid: {e.message}"

end ActionError

/-- A robot in a world. -/
structure Scene where
  robot : Robot
  world : World
  deriving DecidableEq, Repr

namespace Scene

/-- Whether a wall or the edge of the world is right ahead. -/
def frontBlocked (s : Scene) : Bool :=
  s.world.blocked s.robot.front.1 s.robot.front.2

/-- The number of beepers under the robot, zero when it is off the grid. -/
def beepersHere (s : Scene) : UInt32 :=
  match s.world.beepers s.robot.x s.robot.y with
  | .ok n => n
  | .error _ => 0

/-- Step forward. -/
def move (s : Scene) : Except ActionError Scene :=
  if s.frontBlocked then .error (.blocked s.robot)
  else .ok { s with robot := s.robot.advance }

/-- Take a beeper from the cell under the robot. -/
def pickUp (s : Scene) : Except ActionError Scene :=
  match s.world.takeBeeper s.robot.x s.robot.y with
  | .ok (some (_, w)) => .ok { s with world := w }
  | .ok none => .error (.noBeeper s.robot.x s.robot.y)
  | .error e => .error (.offGrid e)

/-- Put a beeper on the cell under the robot. -/
def putDown (s : Scene) : Except ActionError Scene :=
  match s.world.addBeeper s.robot.x s.robot.y with
  | .ok (_, w) => .ok { s with world := w }
  | .error e => .error (.offGrid e)

/-- The scene after an action. -/
def perform (s : Scene) : Action → Except ActionError Scene
  | .move => s.move
  | .pickUp => s.pickUp
  | .putDown => s.putDown
  | .turnLeft => .ok { s with robot := s.robot.turnLeft }
  | .turnRight => .ok { s with robot := s.robot.turnRight }

/-- Whether a condition holds. -/
def holds (s : Scene) : Condition → Bool
  | .frontIsClear => !s.frontBlocked
  | .frontIsBlocked => s.frontBlocked
  | .beepersPresent => s.beepersHere != 0
  | .noBeepersPresent => s.beepersHere == 0
  | .facing d => s.robot.facing == d

@[simp] theorem perform_turnLeft (s : Scene) :
    s.perform .turnLeft = .ok { s with robot := s.robot.turnLeft } := rfl

@[simp] theorem perform_turnRight (s : Scene) :
    s.perform .turnRight = .ok { s with robot := s.robot.turnRight } := rfl

theorem holds_frontIsBlocked (s : Scene) :
    s.holds .frontIsBlocked = !s.holds .frontIsClear := by
  simp [holds]

theorem holds_noBeepersPresent (s : Scene) :
    s.holds .noBeepersPresent = !s.holds .beepersPresent := by
  simp [holds, bne]

end Scene

end GridRobot
