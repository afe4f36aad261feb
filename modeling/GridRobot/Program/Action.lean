/-!
# Actions

The five actions a robot can carry out.  Each has a word, which names it in
listings, in status lines and as the label of a block.
-/

namespace GridRobot

/-- An action of the robot. -/
inductive Action
  | move
  | pickUp
  | putDown
  | turnLeft
  | turnRight
  deriving DecidableEq, Repr

namespace Action

/-- The word for an action. -/
def word : Action → String
  | move => "move"
  | pickUp => "pick_up"
  | putDown => "put_down"
  | turnLeft => "turn_left"
  | turnRight => "turn_right"

end Action

end GridRobot
