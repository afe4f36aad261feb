import GridRobot.Code.Instruction
import GridRobot.Machine.Log

/-!
# The machine

A machine executes code one instruction at a time in a scene.  It holds at most
one run: the code, the index of the next instruction, the number of instructions
begun, and the log.  A step answers whether another step may follow.

A run to the end repeats the step while another one may follow.  With a step
limit it stops with an error as soon as the limit is reached, before the next
step is looked at.

This is the machine in the form in which it is reasoned about: what it shows to the
outside is read off its log.  How it is stored, with every part of its state written
at each exit of a step, is in `GridRobot.Machine.Registers`.

**Results.**
* `step_of_no_run`, `step_of_finished`: when a step is refused outright.
* `run_repeatM_eq`: how a loop is unrolled.
* `runToEnd_eq`: a run to the end, round by round.
* `runToEnd_of_exhausted`, `runToEnd_of_not_exhausted`: a run to the end, step by step.
-/

namespace GridRobot

/-- A loop without effects, round by round. -/
theorem run_repeatM_eq {α β : Type} [Nonempty β] (f : α → α ⊕ β) (a : α) :
    Id.run (repeatM (fun a => pure (f a)) a) =
      match f a with
      | .inl a => Id.run (repeatM (fun a => pure (f a)) a)
      | .inr b => b := by
  rw [repeatM_eq_of_monadTail (m := Id), repeatM.body, pure_bind]
  cases f a <;> rfl

/-- Why a machine cannot go on. -/
inductive RunError
  | notCompiled
  | runFinished (phase : Phase)
  | jumpOutOfBounds (index : Nat) (offset target : Int) (size : Nat)
  | stepLimitExceeded (limit : Nat)
  deriving DecidableEq, Repr

namespace RunError

/-- The text of an error. -/
def message : RunError → String
  | notCompiled =>
      "runtime error: no compiled program\n  hint: compile the program before stepping"
  | runFinished p =>
      s!"runtime error: run already {p.word}\n  hint: recompile to start a fresh run"
  | jumpOutOfBounds index offset target size =>
      s!"runtime error: jump out of bounds: ip={index}, offset={offset}, "
        ++ s!"target={target}, length={size}"
  | stepLimitExceeded limit =>
      s!"runtime error: execution step limit exceeded ({limit})"

end RunError

/-- What executing one instruction leads to. -/
inductive Effect
  | next (cursor : Nat) (event : Event) (scene : Scene)
  | refused (action : Action) (cause : ActionError)
  | lost (offset : Int)
  deriving DecidableEq, Repr

namespace Scene

/-- The index that a jump from `ip` leads to, in code of the given size.  The end of
the code can be reached, nothing beyond it.  The target is the sum as a whole number;
in signed words of 64 bits it is the same for code with `Code.InWords`. -/
def landing? (size ip : Nat) (offset : Int) : Option Nat :=
  let target := ip + offset
  if 0 ≤ target ∧ target ≤ size then some target.toNat else none

/-- The effect of the instruction at index `ip` in code of the given size. -/
def execute (s : Scene) (size ip : Nat) (i : Instruction) : Effect :=
  match i.op with
  | .act a =>
      match s.perform a with
      | .ok s => .next (ip + 1) (.acted i.line a s.robot) s
      | .error e => .refused a e
  | .jumpIfFalse c d =>
      if s.holds c then .next (ip + 1) (.tested i.line c true) s
      else
        match landing? size ip d with
        | some target => .next target (.tested i.line c false) s
        | none => .lost d
  | .jump d =>
      match landing? size ip d with
      | some target => .next target (.jumped i.line) s
      | none => .lost d

end Scene

/-- A run of some code.  The log has the newest entry first. -/
structure Run where
  code : Array Instruction
  cursor : Nat
  steps : Nat
  log : List LogEntry
  deriving DecidableEq, Repr

namespace Run

/-- A run that has not begun. -/
def start (code : Code) : Run :=
  ⟨code.toArray, 0, 0, []⟩

/-- The phase of the run. -/
def phase (r : Run) : Phase :=
  match r.log with
  | [] => .ready
  | e :: _ => e.phase

/-- The status line of the newest entry. -/
def status (r : Run) : String :=
  match r.log with
  | [] => "ready"
  | e :: _ => e.text

/-- The line executed last, or the one to begin with. -/
def line? (r : Run) : Option Nat :=
  (r.log.head?.bind LogEntry.line?).or (r.code[r.cursor]?.map Instruction.line)

/-- The status lines of all entries, oldest first. -/
def trace (r : Run) : List String :=
  r.log.reverse.map LogEntry.text

/-- One step: the answer, the run and the scene afterwards.  A refused action and a
lost jump leave the cursor and the scene as they are. -/
def step (r : Run) (s : Scene) : Except RunError Bool × Run × Scene :=
  if r.phase.isFinished then (.error (.runFinished r.phase), r, s)
  else
    match r.code[r.cursor]? with
    | none => (.ok false, { r with log := .nothingToDo :: r.log }, s)
    | some i =>
        let r := { r with steps := r.steps + 1 }
        match s.execute r.code.size r.cursor i with
        | .next cursor event s =>
            if cursor < r.code.size then
              (.ok true, { r with cursor := cursor, log := .went event :: r.log }, s)
            else
              (.ok false, { r with cursor := cursor, log := .ended event :: r.log }, s)
        | .refused a e =>
            (.ok false, { r with log := .stuck i.line a e :: r.log }, s)
        | .lost d =>
            (.error (.jumpOutOfBounds r.cursor d (r.cursor + d) r.code.size), r, s)

end Run

/-- A machine: a step limit and, when code is loaded, a run. -/
structure Machine where
  maxSteps : Option Nat
  current : Option Run
  deriving DecidableEq, Repr

namespace Machine

/-- A machine without code. -/
def idle (maxSteps : Option Nat) : Machine :=
  ⟨maxSteps, none⟩

/-- The machine at the start of some code. -/
def load (m : Machine) (code : Code) : Machine :=
  { m with current := some (.start code) }

/-- The machine without its code; the step limit stays. -/
def unload (m : Machine) : Machine :=
  { m with current := none }

/-- The loaded code. -/
def code? (m : Machine) : Option Code :=
  m.current.map (·.code.toList)

/-- The phase of the machine. -/
def phase (m : Machine) : Phase :=
  (m.current.map Run.phase).getD .uncompiled

/-- The index of the next instruction. -/
def cursor (m : Machine) : Nat :=
  (m.current.map Run.cursor).getD 0

/-- The number of instructions begun since the code was loaded. -/
def steps (m : Machine) : Nat :=
  (m.current.map Run.steps).getD 0

/-- The status line, empty without code. -/
def status (m : Machine) : String :=
  (m.current.map Run.status).getD ""

/-- The line executed last, or the one to begin with. -/
def line? (m : Machine) : Option Nat :=
  m.current.bind Run.line?

/-- The log since the code was loaded, the newest entry first. -/
def log (m : Machine) : List LogEntry :=
  (m.current.map Run.log).getD []

/-- The status lines of all steps since the code was loaded. -/
def trace (m : Machine) : List String :=
  (m.current.map Run.trace).getD []

/-- One step: the answer, the machine and the scene afterwards. -/
def step (m : Machine) (s : Scene) : Except RunError Bool × Machine × Scene :=
  match m.current with
  | none => (.error .notCompiled, m, s)
  | some r =>
      let (answer, r, s) := r.step s
      (answer, { m with current := some r }, s)

/-- The limit, when it is reached. -/
def exhausted? (m : Machine) : Option Nat :=
  m.maxSteps.filter (· ≤ m.steps)

/-- One round of a run to the end: the machine and the scene with which it goes on, or the
result with which it stops. -/
def round (m : Machine) (s : Scene) :
    (Machine × Scene) ⊕ (Except RunError Phase × Machine × Scene) :=
  match m.exhausted? with
  | some limit => .inr (.error (.stepLimitExceeded limit), m, s)
  | none =>
      match m.step s with
      | (.ok true, m, s) => .inl (m, s)
      | (.ok false, m, s) => .inr (.ok m.phase, m, s)
      | (.error e, m, s) => .inr (.error e, m, s)

/-- A run to the end: the phase it reaches or an error, the machine and the scene.  Code
that jumps back may keep it going for ever. -/
def runToEnd (m : Machine) (s : Scene) : Except RunError Phase × Machine × Scene :=
  have : Nonempty (Except RunError Phase × Machine × Scene) := ⟨.error .notCompiled, m, s⟩
  Id.run (repeatM (fun (m, s) => pure (m.round s)) (m, s))

/-! ### Equations -/

@[simp] theorem phase_load (m : Machine) (code : Code) : (m.load code).phase = .ready := rfl

@[simp] theorem code?_load (m : Machine) (code : Code) : (m.load code).code? = some code := by
  simp [code?, load, Run.start]

@[simp] theorem code?_unload (m : Machine) : m.unload.code? = none := rfl

theorem step_of_no_run {m : Machine} (h : m.current = none) (s : Scene) :
    m.step s = (.error .notCompiled, m, s) := by
  simp [step, h]

theorem step_of_finished {m : Machine} (h : m.phase.isFinished = true) (s : Scene) :
    m.step s = (.error (.runFinished m.phase), m, s) := by
  obtain ⟨n, _ | r⟩ := m
  · simp [phase, Phase.isFinished] at h
  · simp only [phase, Option.map_some, Option.getD_some] at h ⊢
    simp [step, Run.step, h]

theorem runToEnd_eq (m : Machine) (s : Scene) :
    m.runToEnd s =
      match m.round s with
      | .inl (m, s) => m.runToEnd s
      | .inr result => result := by
  have : Nonempty (Except RunError Phase × Machine × Scene) := ⟨.error .notCompiled, m, s⟩
  rw [runToEnd, run_repeatM_eq]
  rcases m.round s with ⟨m', s'⟩ | result <;> rfl

theorem runToEnd_of_exhausted {m : Machine} {limit : Nat} (h : m.exhausted? = some limit)
    (s : Scene) : m.runToEnd s = (.error (.stepLimitExceeded limit), m, s) := by
  rw [runToEnd_eq, round, h]

theorem runToEnd_of_not_exhausted {m : Machine} (h : m.exhausted? = none) (s : Scene) :
    m.runToEnd s =
      match m.step s with
      | (.ok true, m, s) => m.runToEnd s
      | (.ok false, m, s) => (.ok m.phase, m, s)
      | (.error e, m, s) => (.error e, m, s) := by
  rw [runToEnd_eq, round, h]
  rcases m.step s with ⟨(e | _ | _), m', t⟩ <;> rfl

end Machine

end GridRobot
