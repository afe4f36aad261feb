import GridRobot.Machine.Basic

/-!
# The registers of a machine

A machine as it is stored.  There is no log from which the rest could be read off: the code, the
cursor, the phase, the line executed last, the status line, the trace and the count of steps stand
each in a register of its own, beside the step limit.  Nothing in the type keeps them together.
Loading, unloading and every exit of a step write those that they have to.

A step leaves at one of eight exits: there is no code, the run is over, the cursor has passed the
last instruction, an action is refused, a jump leads outside the code from behind a condition or
without one, or an instruction has been executed and was the last one or not.

Targets are computed in signed words of 64 bits.  A sum that does not fit wraps around, unless sums
are checked and the program stops.  Neither occurs with code that is `Code.InWords`: there a jump
leads where its distance says.

**Results.**
* `runToEnd_eq`: a run to the end, round by round.
-/

namespace GridRobot

/-- The registers.  The trace has the oldest line first. -/
structure Registers where
  program : Option (Array Instruction)
  cursor : Nat
  phase : Phase
  lastLine : Option Nat
  status : String
  trace : Array String
  steps : Nat
  maxSteps : Option Nat
  deriving DecidableEq, Repr

namespace Registers

/-- Without code. -/
def idle (maxSteps : Option Nat) : Registers where
  program := none
  cursor := 0
  phase := .uncompiled
  lastLine := none
  status := ""
  trace := #[]
  steps := 0
  maxSteps := maxSteps

/-- At the start of some code. -/
def load (r : Registers) (code : Code) : Registers :=
  { r with
    program := some code.toArray
    cursor := 0
    phase := .ready
    lastLine := none
    status := "ready"
    trace := #[]
    steps := 0 }

/-- The code is dropped; the step limit stays. -/
def unload (r : Registers) : Registers :=
  { r with
    program := none
    cursor := 0
    phase := .uncompiled
    lastLine := none
    status := ""
    trace := #[]
    steps := 0 }

/-- The loaded code; without code there are no instructions. -/
def code (r : Registers) : Code :=
  (r.program.getD #[]).toList

/-- The line executed last, or the one to begin with. -/
def line? (r : Registers) : Option Nat :=
  r.lastLine.or (r.program.bind fun code => code[r.cursor]?.map Instruction.line)

/-- Write a status line down. -/
def record (r : Registers) (text : String) : Registers :=
  { r with trace := r.trace.push text, status := text }

/-- Come to the end of the code. -/
def complete (r : Registers) (text : String) : Registers :=
  { r with phase := .completed }.record text

/-- Leave the step behind an instruction that has been executed. -/
def proceed (r : Registers) (size next : Nat) (event : Event) (s : Scene) :
    Except RunError Bool × Registers × Scene :=
  let r := { r with cursor := next, lastLine := some event.line }
  if next < size then
    (.ok true, { r with phase := .running }.record event.text, s)
  else
    (.ok false, r.complete s!"{event.text}; program completed", s)

/-- The index that a jump leads to, in code of the given size.  The sum is taken as a word. -/
def jumpTarget (index : Nat) (offset : Int) (size : Nat) : Except RunError Nat :=
  let target := (Int64.ofInt (index + offset)).toInt
  if target < 0 ∨ size < target then
    .error (.jumpOutOfBounds index offset target size)
  else
    .ok target.toNat

/-- One step: the answer, the registers and the scene afterwards.  The step is counted before the
instruction is executed, so a jump that is lost has been counted. -/
def step (r : Registers) (s : Scene) : Except RunError Bool × Registers × Scene :=
  match r.program with
  | none => (.error .notCompiled, r, s)
  | some code =>
      if r.phase.isFinished then (.error (.runFinished r.phase), r, s)
      else
        match code[r.cursor]? with
        | none => (.ok false, r.complete "program completed", s)
        | some i =>
            let r := { r with steps := r.steps + 1 }
            match i.op with
            | .act a =>
                match s.perform a with
                | .ok s => r.proceed code.size (r.cursor + 1) (.acted i.line a s.robot) s
                | .error e =>
                    let text := s!"line {i.line}: {a.word} failed: {e.message}"
                    (.ok false,
                      { r with lastLine := some i.line, phase := .failed }.record text, s)
            | .jumpIfFalse c d =>
                if s.holds c then
                  r.proceed code.size (r.cursor + 1) (.tested i.line c true) s
                else
                  match jumpTarget r.cursor d code.size with
                  | .ok next => r.proceed code.size next (.tested i.line c false) s
                  | .error e => (.error e, r, s)
            | .jump d =>
                match jumpTarget r.cursor d code.size with
                | .ok next => r.proceed code.size next (.jumped i.line) s
                | .error e => (.error e, r, s)

/-- One round of a run to the end: the registers and the scene with which it goes on, or the
result with which it stops. -/
def round (r : Registers) (s : Scene) :
    (Registers × Scene) ⊕ (Except RunError Phase × Registers × Scene) :=
  match r.maxSteps.filter (· ≤ r.steps) with
  | some limit => .inr (.error (.stepLimitExceeded limit), r, s)
  | none =>
      match r.step s with
      | (.ok true, r, s) => .inl (r, s)
      | (.ok false, r, s) => .inr (.ok r.phase, r, s)
      | (.error e, r, s) => .inr (.error e, r, s)

/-- A run to the end: the phase it reaches or an error, the registers and the scene. -/
def runToEnd (r : Registers) (s : Scene) : Except RunError Phase × Registers × Scene :=
  have : Nonempty (Except RunError Phase × Registers × Scene) := ⟨.error .notCompiled, r, s⟩
  Id.run (repeatM (fun (r, s) => pure (r.round s)) (r, s))

theorem runToEnd_eq (r : Registers) (s : Scene) :
    r.runToEnd s =
      match r.round s with
      | .inl (r, s) => r.runToEnd s
      | .inr result => result := by
  have : Nonempty (Except RunError Phase × Registers × Scene) := ⟨.error .notCompiled, r, s⟩
  rw [runToEnd, run_repeatM_eq]
  rcases r.round s with ⟨r', s'⟩ | result <;> rfl

end Registers

/-! ### Machines in registers -/

/-- What the registers hold for a run. -/
def Run.registers (r : Run) (maxSteps : Option Nat) : Registers where
  program := some r.code
  cursor := r.cursor
  phase := r.phase
  lastLine := r.log.head?.bind LogEntry.line?
  status := r.status
  trace := r.trace.toArray
  steps := r.steps
  maxSteps := maxSteps

namespace Machine

/-- What the registers hold for a machine. -/
def registers (m : Machine) : Registers :=
  match m.current with
  | none => .idle m.maxSteps
  | some r => r.registers m.maxSteps

/-- The outcome of a call, with the machine in its registers. -/
def stored {α : Type} (outcome : α × Machine × Scene) : α × Registers × Scene :=
  (outcome.1, outcome.2.1.registers, outcome.2.2)

end Machine

end GridRobot
