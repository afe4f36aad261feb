import GridRobot.Program.Action
import GridRobot.Program.Condition

/-!
# Blocks and programs

A program is a list of blocks.  A block is an action, a choice between two lists
of blocks, a counted loop over a list of blocks, or a call of a macro by its
name.  The position of a top-level block in its program is its line.
-/

namespace GridRobot

/-- A block of a structured program. -/
inductive Block
  | act (action : Action)
  | choose (condition : Condition) (yes no : List Block)
  | times (count : UInt32) (body : List Block)
  | call (name : String)
  deriving Repr

namespace Block

/-- The label of a block in a list of blocks. -/
def label : Block → String
  | act a => a.word
  | choose c _ _ => s!"if {c.word}"
  | times n _ => s!"repeat {n}"
  | call name => name

end Block

/-- A program: its top-level blocks in order. -/
abbrev Program := List Block

namespace Program

/-- The program with a block put in front of a line, or at the end. -/
def insert? (p : Program) (line : Nat) (b : Block) : Option Program :=
  if line ≤ p.length then some (p.take line ++ b :: p.drop line) else none

/-- The block at a line, and the program without it. -/
def remove? (p : Program) (line : Nat) : Option (Block × Program) :=
  p[line]?.map fun old => (old, p.eraseIdx line)

/-- The block at a line, and the program with another block in its place. -/
def replace? (p : Program) (line : Nat) (b : Block) : Option (Block × Program) :=
  p[line]?.map fun old => (old, p.set line b)

end Program

end GridRobot
