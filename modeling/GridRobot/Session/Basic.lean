import GridRobot.Binary.Reader
import GridRobot.Code.Lowering
import GridRobot.Machine.Basic

/-!
# Sessions

A session holds a scene, a program with its macros, and the machine that runs
the compiled program.  The robot of a session stands on an open cell of a valid
world: `Session.check` tests this for data from outside, and no operation breaks
it.  An edit of the program or of the macros takes the compiled code away from
the machine.

**Results.**
* `check_eq_ok_iff`: what the check accepts.
* `code?_setProgram`, `code?_setMacros`: an edit leaves the machine without code.
* `compile_of_ok`, `compile_of_error`: the two outcomes of compiling.
-/

namespace GridRobot

/-- Why a session refuses an operation or cannot be read. -/
inductive SessionError
  | compile (cause : CompileError)
  | run (cause : RunError)
  | world (cause : WorldError)
  | robotOutside (robot : Robot) (width height : Nat)
  | wallUnderRobot (x y : UInt64)
  | robotNotOnOpenCell (robot : Robot)
  | insertPastEnd (line size : Nat)
  | file
  | binary (cause : BinaryError)
  | json
  deriving DecidableEq, Repr

namespace SessionError

/-- The text of an error. -/
def message : SessionError → String
  | compile e => e.message
  | run e => e.message
  | world e => e.message
  | robotOutside r w h =>
      s!"invalid session: agent at {r.text} is outside the {w}x{h} world or on a wall"
  | wallUnderRobot x y =>
      s!"invalid session: cannot place a wall under the agent at ({x}, {y})"
  | robotNotOnOpenCell r => s!"invalid session: agent at {r.text} is not on an open cell"
  | insertPastEnd line size =>
      s!"invalid session: cannot insert at line {line} of a {size}-block program"
  | file => "cannot access session file"
  | binary e => s!"cannot decode binary session: {e.message}"
  | json => "cannot decode json session"

end SessionError

/-- A scene, a program with its macros, and a machine. -/
structure Session where
  scene : Scene
  program : Program
  macros : Macros
  machine : Machine

/-- What a step tells. -/
structure Report where
  goesOn : Bool
  phase : Phase
  status : String
  line : Option Nat
  robot : Robot
  deriving DecidableEq, Repr

namespace Session

/-! ### Making sessions -/

/-- Accepts a session with a valid world and a robot on an open cell. -/
def check (s : Session) : Except SessionError Unit :=
  match s.scene.world.check with
  | .error e => .error (.world e)
  | .ok () =>
      if s.scene.robot.fits s.scene.world then .ok ()
      else .error (.robotOutside s.scene.robot s.scene.world.width s.scene.world.height)

/-- The session, if it passes the check. -/
def checked (s : Session) : Except SessionError Session :=
  s.check.map fun _ => s

/-- A session with an empty program. -/
def ofScene (scene : Scene) : Except SessionError Session :=
  checked ⟨scene, [], .empty, .idle none⟩

/-- A session in a world, the robot in the south-west corner facing east. -/
def ofWorld (w : World) : Except SessionError Session :=
  ofScene ⟨⟨0, 0, .east⟩, w⟩

/-- A session in a world of open cells. -/
def new (width height : Nat) : Except SessionError Session :=
  match World.blank width height with
  | .ok w => ofWorld w
  | .error e => .error (.world e)

/-! ### The scene -/

/-- The session with another cell in its world; no wall is put under the robot. -/
def setCell (s : Session) (x y : UInt64) (c : Cell) : Except SessionError Session :=
  if c = .wall ∧ s.scene.robot.x = x ∧ s.scene.robot.y = y then
    .error (.wallUnderRobot x y)
  else
    match s.scene.world.setCell x y c with
    | .ok w => .ok { s with scene := { s.scene with world := w } }
    | .error e => .error (.world e)

/-- The session with the robot on an open cell of its world. -/
def placeRobot (s : Session) (r : Robot) : Except SessionError Session :=
  if r.fits s.scene.world then .ok { s with scene := { s.scene with robot := r } }
  else .error (.robotNotOnOpenCell r)

/-! ### The program and its macros -/

/-- The session without compiled code. -/
def unload (s : Session) : Session :=
  { s with machine := s.machine.unload }

/-- The session with another program. -/
def setProgram (s : Session) (p : Program) : Session :=
  { s with program := p }.unload

/-- The session with one more block at the end of the program. -/
def push (s : Session) (b : Block) : Session :=
  s.setProgram (s.program ++ [b])

/-- The session with a block put in front of a line. -/
def insert (s : Session) (line : Nat) (b : Block) : Except SessionError Session :=
  match s.program.insert? line b with
  | some p => .ok (s.setProgram p)
  | none => .error (.insertPastEnd line s.program.length)

/-- The block at a line and the session without it; nothing where there is none. -/
def remove? (s : Session) (line : Nat) : Option (Block × Session) :=
  (s.program.remove? line).map fun (old, p) => (old, s.setProgram p)

/-- The block at a line and the session with another one in its place. -/
def replace? (s : Session) (line : Nat) (b : Block) : Option (Block × Session) :=
  (s.program.replace? line b).map fun (old, p) => (old, s.setProgram p)

/-- The session with other macros. -/
def setMacros (s : Session) (m : Macros) : Session :=
  { s with macros := m }.unload

/-- The session with a body under a name. -/
def define (s : Session) (name : String) (body : List Block) : Session :=
  s.setMacros (s.macros.define name body)

/-- The body under a name and the session without it; nothing where there is none. -/
def undefine? (s : Session) (name : String) : Option (List Block × Session) :=
  (s.macros.body? name).map fun old => (old, s.setMacros (s.macros.erase name))

/-! ### Running -/

/-- The session with a fresh machine that has the given step limit. -/
def limitSteps (s : Session) (maxSteps : Option Nat) : Session :=
  { s with machine := .idle maxSteps }

/-- Compile the program: the number of instructions and the session at their start.
Without code the machine is left empty. -/
def compile (s : Session) : Except CompileError Nat × Session :=
  match s.program.compile s.macros with
  | .ok code => (.ok code.length, { s with machine := s.machine.load code })
  | .error e => (.error e, s.unload)

/-- The state of the machine as a report. -/
def report (s : Session) (goesOn : Bool) : Report :=
  ⟨goesOn, s.machine.phase, s.machine.status, s.machine.line?, s.scene.robot⟩

/-- Execute one instruction. -/
def step (s : Session) : Except RunError Report × Session :=
  let (answer, m, scene) := s.machine.step s.scene
  let s := { s with machine := m, scene := scene }
  (answer.map s.report, s)

/-- Run the compiled program to its end. -/
def run (s : Session) : Except RunError Phase × Session :=
  let (answer, m, scene) := s.machine.runToEnd s.scene
  (answer, { s with machine := m, scene := scene })

/-! ### Equations -/

theorem check_eq_ok_iff (s : Session) :
    s.check = .ok () ↔ s.scene.world.Valid ∧ s.scene.robot.fits s.scene.world = true := by
  unfold check
  cases h : s.scene.world.check with
  | error e =>
      constructor
      · intro h'; cases h'
      · rintro ⟨hv, _⟩
        rw [(World.check_eq_ok_iff _).2 hv] at h
        cases h
  | ok u =>
      have hv := (World.check_eq_ok_iff _).1 h
      by_cases hf : s.scene.robot.fits s.scene.world = true <;> simp [hf, hv]

theorem checked_eq_ok_iff (s t : Session) :
    s.checked = .ok t ↔ t = s ∧ s.scene.world.Valid ∧ s.scene.robot.fits s.scene.world = true := by
  rw [← check_eq_ok_iff, checked]
  cases s.check with
  | error e => simp [Except.map]
  | ok u => simp [Except.map, eq_comm]

@[simp] theorem code?_setProgram (s : Session) (p : Program) :
    (s.setProgram p).machine.code? = none := rfl

@[simp] theorem code?_setMacros (s : Session) (m : Macros) :
    (s.setMacros m).machine.code? = none := rfl

theorem compile_of_ok {s : Session} {code : Code} (h : s.program.compile s.macros = .ok code) :
    s.compile = (.ok code.length, { s with machine := s.machine.load code }) := by
  simp [compile, h]

theorem compile_of_error {s : Session} {e : CompileError}
    (h : s.program.compile s.macros = .error e) : s.compile = (.error e, s.unload) := by
  simp [compile, h]

end Session

end GridRobot
