import GridRobot.Code.Listing
import GridRobot.Session.Basic
import GridRobot.World.Picture

/-!
# Printouts

What a command prints about a session: the status lines of a run and the scene
it ends in, or the listings of the program and of its macros.  A printout that
breaks off or ends badly carries an error.

**Results.**
* `stepping_eq`: stepping, round by round.
* `run_of_compile_error`: a session that does not compile prints nothing.
-/

namespace GridRobot

/-- Printed text, and the error it ends with. -/
structure Printout where
  text : String
  error : Option String
  deriving DecidableEq, Repr

namespace Printout

/-- The scene at the end of a run, and an error when an action was refused. -/
def ending (s : Session) : Printout where
  text := s!"\n{s.scene.world.picture}agent {s.scene.robot.text}\n"
  error :=
    if s.machine.phase = .failed then
      some s!"run failed at line {s.machine.line?.getD 0}"
    else none

/-- Text in front of a printout. -/
def after (text : String) (p : Printout) : Printout :=
  { p with text := text ++ p.text }

/-- One round of stepping behind the status lines of the steps before: the session and the
lines with which it goes on, or the printout with which it stops. -/
def round (s : Session) (lines : String) : (Session × String) ⊕ Printout :=
  match s.step with
  | (.error e, _) => .inr ⟨lines, some e.message⟩
  | (.ok report, s) =>
      let lines := lines ++ report.status ++ "\n"
      if report.goesOn then .inl (s, lines) else .inr ((ending s).after lines)

/-- Steps while another one may follow.  The limit is not looked at. -/
def stepping (s : Session) (lines : String) : Printout :=
  have : Nonempty Printout := ⟨⟨lines, none⟩⟩
  Id.run (repeatM (fun (s, lines) => pure (round s lines)) (s, lines))

/-- A run of the program of a session, with a status line for every step or only for
the last one. -/
def run (s : Session) (trace : Bool) : Printout :=
  match s.compile with
  | (.error e, _) => ⟨"", some e.message⟩
  | (.ok n, s) =>
      let first := s!"compiled {n} instructions\n"
      if trace then stepping s first
      else
        match s.run with
        | (.error e, _) => ⟨first, some e.message⟩
        | (.ok _, s) => (ending s).after (first ++ s.machine.status ++ "\n")

/-- The row of a block in the list of blocks. -/
def labelRow (line : Nat) (b : Block) : String :=
  s!"L{Listing.lineColumn line}{b.label}\n"

/-- The listings of macros, up to the first one without code. -/
def macroSheets (m : Macros) : List String → String → Printout
  | [], text => ⟨text, none⟩
  | name :: names, text =>
      match m.compile name 0 with
      | .ok code => macroSheets m names (text ++ code.sheet name)
      | .error e => ⟨text, some e.message⟩

/-- The blocks of the program of a session, the listing of its code, and the listings of
its macros. -/
def listings (s : Session) : Printout :=
  let labels := String.join (s.program.zipIdx.map fun (b, line) => labelRow line b) ++ "\n"
  match s.program.compile s.macros with
  | .ok code => macroSheets s.macros s.macros.names (labels ++ code.sheet "main")
  | .error e => ⟨labels, some e.message⟩

theorem stepping_eq (s : Session) (lines : String) :
    stepping s lines =
      match round s lines with
      | .inl (s, lines) => stepping s lines
      | .inr p => p := by
  have : Nonempty Printout := ⟨⟨lines, none⟩⟩
  rw [stepping, run_repeatM_eq]
  rcases round s lines with ⟨s', lines'⟩ | p <;> rfl

theorem run_of_compile_error {s : Session} {e : CompileError}
    (h : s.program.compile s.macros = .error e) (trace : Bool) :
    run s trace = ⟨"", some e.message⟩ := by
  simp [run, Session.compile_of_error h]

end Printout

end GridRobot
