import GridRobot.Program.Action
import GridRobot.Program.Condition

/-!
# Instructions

Straight-line code for the robot.  An instruction carries an action out, or
jumps, always or when a condition does not hold.  A jump names its target by the
distance from itself.  Every instruction knows the line of the program that it
came from.

Distances and targets are whole numbers of any size here.  Where they are kept in
signed words of 64 bits, a distance can be added to an index only if the sum is
such a word, too.  Code of which this is true is `Code.InWords`, and what is said
of a jump of other code is said of its target as a whole number.

**Results.**
* `Code.mem_targets_iff`: a target is the target of some jump.
-/

namespace GridRobot

/-- What an instruction does.  The distance of a jump is counted from the jump itself. -/
inductive Op
  | act (action : Action)
  | jumpIfFalse (condition : Condition) (offset : Int)
  | jump (offset : Int)
  deriving DecidableEq, Repr

/-- An operation with the line it came from. -/
structure Instruction where
  line : Nat
  op : Op
  deriving DecidableEq, Repr

/-- A sequence of instructions, addressed by index. -/
abbrev Code := List Instruction

namespace Instruction

/-- The distance of a jump. -/
def offset? (i : Instruction) : Option Int :=
  match i.op with
  | .act _ => none
  | .jumpIfFalse _ d => some d
  | .jump d => some d

/-- The index that a jump at index `ip` leads to; it may lie outside the code. -/
def target? (i : Instruction) (ip : Nat) : Option Int :=
  i.offset?.map (ip + ·)

end Instruction

namespace Code

/-- The targets of all jumps, in the order of the jumps. -/
def targets (code : Code) : List Int :=
  code.zipIdx.filterMap fun (i, ip) => i.target? ip

/-- The targets of all jumps are signed words of 64 bits, so adding a distance to the index of its
jump does not overflow. -/
def InWords (code : Code) : Prop :=
  ∀ t ∈ code.targets, Int64.minValue.toInt ≤ t ∧ t ≤ Int64.maxValue.toInt

instance (code : Code) : Decidable code.InWords :=
  inferInstanceAs
    (Decidable (∀ t ∈ code.targets, Int64.minValue.toInt ≤ t ∧ t ≤ Int64.maxValue.toInt))

theorem mem_targets_iff {code : Code} {t : Int} :
    t ∈ code.targets ↔
      ∃ (ip : Nat) (i : Instruction), code[ip]? = some i ∧ i.target? ip = some t := by
  simp only [targets, List.mem_filterMap, Prod.exists, List.mem_zipIdx_iff_getElem?]
  exact exists_comm

end Code

end GridRobot
