import GridRobot.World.Direction

/-!
# Conditions

What a program can ask about the robot and its world.  Asking changes nothing
and always has an answer.
-/

namespace GridRobot

/-- A question about the robot and the cells next to it. -/
inductive Condition
  | frontIsClear
  | frontIsBlocked
  | beepersPresent
  | noBeepersPresent
  | facing (direction : Direction)
  deriving DecidableEq, Repr

namespace Condition

/-- The word for a condition. -/
def word : Condition → String
  | frontIsClear => "front_is_clear"
  | frontIsBlocked => "front_is_blocked"
  | beepersPresent => "beepers_present"
  | noBeepersPresent => "no_beepers_present"
  | facing .north => "facing_north"
  | facing .east => "facing_east"
  | facing .south => "facing_south"
  | facing .west => "facing_west"

end Condition

end GridRobot
