import GridRobot.Robot

/-!
# The log of a run

Every executed instruction leaves an event: an action carried out, a condition
tested, or a jump taken.  The log of a run holds one entry for each event and
says with it whether the run goes on, has come to its end or is stuck at an
action that was refused.  What a run shows to the outside, its phase, its last
line and its status, is read off the newest entry.  A machine that is stored keeps
these apart from each other (`Registers`), and shows the same.

**Results.**
* `phase_ne_uncompiled`, `phase_ne_ready`: a run with an entry has begun.
-/

namespace GridRobot

/-- The stages in the life of a machine. -/
inductive Phase
  | uncompiled
  | ready
  | running
  | completed
  | failed
  deriving DecidableEq, Repr

namespace Phase

/-- Whether no more steps follow until code is loaded again. -/
def isFinished : Phase → Bool
  | completed | failed => true
  | _ => false

/-- The word for a phase. -/
def word : Phase → String
  | uncompiled => "uncompiled"
  | ready => "ready"
  | running => "running"
  | completed => "completed"
  | failed => "failed"

theorem isFinished_iff {p : Phase} : p.isFinished = true ↔ p = .completed ∨ p = .failed := by
  cases p <;> simp [isFinished]

end Phase

/-- What an executed instruction did.  An action is kept with the robot as it left it. -/
inductive Event
  | acted (line : Nat) (action : Action) (robot : Robot)
  | tested (line : Nat) (condition : Condition) (verdict : Bool)
  | jumped (line : Nat)
  deriving DecidableEq, Repr

namespace Event

/-- The line of the instruction. -/
def line : Event → Nat
  | acted l _ _ => l
  | tested l _ _ => l
  | jumped l => l

/-- The event as text. -/
def text : Event → String
  | acted l a r => s!"line {l}: {a.word} ok, agent at {r.text}"
  | tested l c verdict =>
      let answer := if verdict then "true" else "false"
      s!"line {l}: {c.word} is {answer}"
  | jumped l => s!"line {l}: jump"

end Event

/-- An entry of the log. -/
inductive LogEntry
  | went (event : Event)
  | ended (event : Event)
  | nothingToDo
  | stuck (line : Nat) (action : Action) (cause : ActionError)
  deriving DecidableEq, Repr

namespace LogEntry

/-- The phase of a run whose newest entry this is. -/
def phase : LogEntry → Phase
  | went _ => .running
  | ended _ => .completed
  | nothingToDo => .completed
  | stuck .. => .failed

/-- The line of the instruction that the entry tells of. -/
def line? : LogEntry → Option Nat
  | went e => some e.line
  | ended e => some e.line
  | nothingToDo => none
  | stuck l _ _ => some l

/-- The entry as a status line. -/
def text : LogEntry → String
  | went e => e.text
  | ended e => s!"{e.text}; program completed"
  | nothingToDo => "program completed"
  | stuck l a e => s!"line {l}: {a.word} failed: {e.message}"

theorem phase_ne_uncompiled (e : LogEntry) : e.phase ≠ .uncompiled := by
  cases e <;> simp [phase]

theorem phase_ne_ready (e : LogEntry) : e.phase ≠ .ready := by
  cases e <;> simp [phase]

end LogEntry

end GridRobot
