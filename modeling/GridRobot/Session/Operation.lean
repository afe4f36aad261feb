import GridRobot.Session.Basic

/-!
# Operations on sessions

Everything that can be done to a session is a value of the type `Operation`.
`Session.apply` carries an operation out and gives its answer together with the
session afterwards.  An operation that is refused answers with the reason.

**Results.**
* `apply_of_setCell_error`, `apply_of_placeRobot_error`: a refused operation leaves the
  session as it was.
-/

namespace GridRobot

/-- What can be done to a session. -/
inductive Operation
  | setCell (x y : UInt64) (c : Cell)
  | placeRobot (r : Robot)
  | setProgram (p : Program)
  | push (b : Block)
  | insert (line : Nat) (b : Block)
  | remove (line : Nat)
  | replace (line : Nat) (b : Block)
  | define (name : String) (body : List Block)
  | undefine (name : String)
  | limitSteps (maxSteps : Option Nat)
  | compile
  | step
  | run
  deriving Repr

/-- The answer to an operation that is carried out. -/
inductive Answer
  | done
  | block (old : Option Block)
  | body (old : Option (List Block))
  | size (instructions : Nat)
  | report (r : Report)
  | phase (p : Phase)
  deriving Repr

namespace Session

/-- The answer to an operation and the session after it. -/
def apply (s : Session) : Operation → Except SessionError Answer × Session
  | .setCell x y c => settle (s.setCell x y c)
  | .placeRobot r => settle (s.placeRobot r)
  | .setProgram p => (.ok .done, s.setProgram p)
  | .push b => (.ok .done, s.push b)
  | .insert line b => settle (s.insert line b)
  | .remove line =>
      match s.remove? line with
      | some (old, t) => (.ok (.block (some old)), t)
      | none => (.ok (.block none), s)
  | .replace line b =>
      match s.replace? line b with
      | some (old, t) => (.ok (.block (some old)), t)
      | none => (.ok (.block none), s)
  | .define name body => (.ok (.body (s.macros.body? name)), s.define name body)
  | .undefine name =>
      match s.undefine? name with
      | some (old, t) => (.ok (.body (some old)), t)
      | none => (.ok (.body none), s)
  | .limitSteps n => (.ok .done, s.limitSteps n)
  | .compile =>
      let (answer, t) := s.compile
      ((answer.map .size).mapError .compile, t)
  | .step =>
      let (answer, t) := s.step
      ((answer.map .report).mapError .run, t)
  | .run =>
      let (answer, t) := s.run
      ((answer.map .phase).mapError .run, t)
where
  /-- The answer to an operation with no value; refused, it keeps the session.  This relies on the
  order in which the edits work: the place of a wall, the bounds of the world, the place of the
  robot and the number of the line are tested before anything is written, so a refused edit has
  not written anything that would have to be undone. -/
  settle : Except SessionError Session → Except SessionError Answer × Session
    | .ok t => (.ok .done, t)
    | .error e => (.error e, s)

theorem apply_of_setCell_error {s : Session} {x y : UInt64} {c : Cell} {e : SessionError}
    (h : s.setCell x y c = .error e) : s.apply (.setCell x y c) = (.error e, s) := by
  simp [apply, apply.settle, h]

theorem apply_of_placeRobot_error {s : Session} {r : Robot} {e : SessionError}
    (h : s.placeRobot r = .error e) : s.apply (.placeRobot r) = (.error e, s) := by
  simp [apply, apply.settle, h]

end Session

end GridRobot
