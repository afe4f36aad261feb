import GridRobot.Json.Document
import GridRobot.Json.Layout
import GridRobot.Session.Basic

/-!
# The JSON form of a session

A session is written as an object with its world, its robot, its program and its
macros; the machine is not written.  A value with several forms is its name, or
an object whose only field has that name and holds the payload.

When reading, a record may also be an array of its fields.  Fields may come in
any order and unknown ones are passed over, but a known field must come exactly
once.  The containers that hold a session may be nested `maxDepth` deep; what an
unknown field holds is not counted.

**Results.**
* `Direction.ofJson?_toJson`, `Condition.ofJson?_toJson`: these are read back at any
  depth that admits their text.
-/

namespace GridRobot

namespace Json

/-- The most containers around a part of a session. -/
def maxDepth : Nat := 127

/-- The characters of a string. -/
def text? : Json → Option String
  | string s => s
  | _ => none

/-- A natural number below a bound. -/
def natural? (bound : Nat) : Json → Option Nat
  | number (some n) => if n < bound then some n else none
  | _ => none

/-- The items of an array. -/
def items? : Json → Option (List Json)
  | array items => some items
  | _ => none

/-- The fields of an object, all with usable names. -/
def fields? : Json → Option (List (String × Json))
  | object fields => fields.mapM fun f => f.1.map (·, f.2)
  | _ => none

/-- The value of the field that has a name. -/
def only? (fields : List (String × Json)) (name : String) : Option Json :=
  match fields.filter (·.1 = name) with
  | [f] => some f.2
  | _ => none

/-- The values of the fields of a record, in the order of the names. -/
def record? (names : List String) : Json → Option (List Json)
  | array items => if items.length = names.length then some items else none
  | j => do names.mapM (only? (← j.fields?))

/-- The name and the payload of a form, and how deep the payload may be nested.  A form
without payload has the payload `null`. -/
def form? : (depth : Nat) → Json → Option (String × Json × Nat)
  | depth, string s => s.map (·, null, depth)
  | depth + 1, object [(n, payload)] => n.map (·, payload, depth)
  | _, _ => none

/-- A form without payload. -/
def plain (name : String) : Json := string (some name)

/-- An object with some fields. -/
def record (fields : List (String × Json)) : Json :=
  object (fields.map fun f => (some f.1, f.2))

end Json

namespace Direction

/-- The name of the form of a direction. -/
def formName : Direction → String
  | north => "North"
  | east => "East"
  | south => "South"
  | west => "West"

/-- The JSON form of a direction. -/
def toJson (d : Direction) : Json := .plain d.formName

/-- The direction of a JSON form. -/
def ofJson? (depth : Nat) (j : Json) : Option Direction :=
  match j.form? depth with
  | some ("North", .null, _) => some north
  | some ("East", .null, _) => some east
  | some ("South", .null, _) => some south
  | some ("West", .null, _) => some west
  | _ => none

end Direction

namespace Action

/-- The name of the form of an action. -/
def formName : Action → String
  | move => "Move"
  | pickUp => "PickUp"
  | putDown => "PutDown"
  | turnLeft => "TurnLeft"
  | turnRight => "TurnRight"

/-- The JSON form of an action. -/
def toJson (a : Action) : Json := .plain a.formName

/-- The action of a JSON form. -/
def ofJson? (depth : Nat) (j : Json) : Option Action :=
  match j.form? depth with
  | some ("Move", .null, _) => some move
  | some ("PickUp", .null, _) => some pickUp
  | some ("PutDown", .null, _) => some putDown
  | some ("TurnLeft", .null, _) => some turnLeft
  | some ("TurnRight", .null, _) => some turnRight
  | _ => none

end Action

namespace Condition

/-- The JSON form of a condition. -/
def toJson : Condition → Json
  | frontIsClear => .plain "FrontIsClear"
  | frontIsBlocked => .plain "FrontIsBlocked"
  | beepersPresent => .plain "BeepersPresent"
  | noBeepersPresent => .plain "NoBeepersPresent"
  | facing d => .record [("Facing", d.toJson)]

/-- The condition of a JSON form. -/
def ofJson? (depth : Nat) (j : Json) : Option Condition :=
  match j.form? depth with
  | some ("FrontIsClear", .null, _) => some frontIsClear
  | some ("FrontIsBlocked", .null, _) => some frontIsBlocked
  | some ("BeepersPresent", .null, _) => some beepersPresent
  | some ("NoBeepersPresent", .null, _) => some noBeepersPresent
  | some ("Facing", d, depth) => (Direction.ofJson? depth d).map facing
  | _ => none

end Condition

namespace Block

mutual

/-- The JSON form of a block. -/
def toJson : Block → Json
  | act a => .record [("Action", a.toJson)]
  | choose c yes no =>
      .record [("If", .record [("condition", c.toJson),
        ("then_branch", .array (allToJson yes)), ("else_branch", .array (allToJson no))])]
  | times n body =>
      .record [("Repeat", .record [("count", .number (some n.toNat)),
        ("body", .array (allToJson body))])]
  | call name => .record [("Macro", .plain name)]

/-- The JSON forms of blocks. -/
def allToJson : List Block → List Json
  | [] => []
  | b :: bs => toJson b :: allToJson bs

end

/-- The JSON form of a list of blocks. -/
def listToJson (bs : List Block) : Json := .array (allToJson bs)

/-- The block of a JSON form.  A block that holds blocks has three containers around
each of them: its own, its record and a list. -/
def ofJson? : (depth : Nat) → Json → Option Block
  | depth + 1, .object [(some "Action", a)] => (Action.ofJson? depth a).map act
  | _ + 1, .object [(some "Macro", name)] => name.text?.map call
  | depth + 3, .object [(some "If", j)] =>
      match j.record? ["condition", "then_branch", "else_branch"] with
      | some [c, yes, no] => do
          let c ← Condition.ofJson? (depth + 1) c
          let yes ← (← yes.items?).mapM (ofJson? depth)
          let no ← (← no.items?).mapM (ofJson? depth)
          return choose c yes no
      | _ => none
  | depth + 3, .object [(some "Repeat", j)] =>
      match j.record? ["count", "body"] with
      | some [n, body] => do
          let n ← n.natural? UInt32.size
          let body ← (← body.items?).mapM (ofJson? depth)
          return times (.ofNat n) body
      | _ => none
  | _, _ => none

/-- The list of blocks of a JSON form, which is itself at the given depth. -/
def listOfJson? (depth : Nat) (j : Json) : Option (List Block) := do
  (← j.items?).mapM (ofJson? (depth - 1))

end Block

namespace Cell

/-- The JSON form of a cell. -/
def toJson : Cell → Json
  | empty => .plain "Empty"
  | wall => .plain "Wall"
  | beepers n => .record [("Beepers", .number (some n.toNat))]

/-- The cell of a JSON form. -/
def ofJson? (depth : Nat) (j : Json) : Option Cell :=
  match j.form? depth with
  | some ("Empty", .null, _) => some empty
  | some ("Wall", .null, _) => some wall
  | some ("Beepers", n, _) => (n.natural? UInt32.size).map fun n => beepers (.ofNat n)
  | _ => none

end Cell

namespace World

/-- The JSON form of a world. -/
def toJson (w : World) : Json :=
  .record [("width", .number (some w.width)), ("height", .number (some w.height)),
    ("cells", .array (w.cells.toList.map Cell.toJson))]

/-- The world of a JSON form, without a check. -/
def ofJson? (depth : Nat) (j : Json) : Option World :=
  match j.record? ["width", "height", "cells"] with
  | some [width, height, cells] => do
      let width ← width.natural? UInt64.size
      let height ← height.natural? UInt64.size
      let cells ← (← cells.items?).mapM (Cell.ofJson? (depth - 2))
      return ⟨width, height, cells.toArray⟩
  | _ => none

end World

namespace Robot

/-- The JSON form of a robot. -/
def toJson (r : Robot) : Json :=
  .record [("x", .number (some r.x.toNat)), ("y", .number (some r.y.toNat)),
    ("facing", r.facing.toJson)]

/-- The robot of a JSON form. -/
def ofJson? (depth : Nat) (j : Json) : Option Robot :=
  match j.record? ["x", "y", "facing"] with
  | some [x, y, facing] => do
      let x ← x.natural? UInt64.size
      let y ← y.natural? UInt64.size
      let facing ← Direction.ofJson? (depth - 1) facing
      return ⟨.ofNat x, .ofNat y, facing⟩
  | _ => none

end Robot

namespace Program

/-- The JSON form of a program. -/
def toJson (p : Program) : Json :=
  .record [("blocks", Block.listToJson p)]

/-- The program of a JSON form. -/
def ofJson? (depth : Nat) (j : Json) : Option Program :=
  match j.record? ["blocks"] with
  | some [blocks] => Block.listOfJson? (depth - 1) blocks
  | _ => none

end Program

namespace Macros

/-- The JSON form of macros. -/
def toJson (m : Macros) : Json :=
  .record [("macros", .record (m.entries.map fun e => (e.1, Block.listToJson e.2)))]

/-- The macros of a JSON form. -/
def ofJson? (depth : Nat) (j : Json) : Option Macros :=
  match j.record? ["macros"] with
  | some [table] => do
      let entries ← (← table.fields?).mapM fun f =>
        (Block.listOfJson? (depth - 2) f.2).map (f.1, ·)
      return .ofList entries
  | _ => none

end Macros

namespace Session

/-- The JSON form of a session. -/
def toJson (s : Session) : Json :=
  .record [("world", s.scene.world.toJson), ("agent", s.scene.robot.toJson),
    ("program", Program.toJson s.program), ("macros", s.macros.toJson)]

/-- The session of a JSON form, with an empty machine and without a check. -/
def ofJson? (j : Json) : Option Session :=
  match j.record? ["world", "agent", "program", "macros"] with
  | some [world, robot, program, macros] => do
      let depth := Json.maxDepth - 1
      let world ← World.ofJson? depth world
      let robot ← Robot.ofJson? depth robot
      let program ← Program.ofJson? depth program
      let macros ← Macros.ofJson? depth macros
      return ⟨⟨robot, world⟩, program, macros, .idle none⟩
  | _ => none

/-- The text of a session. -/
def toText (s : Session) : String :=
  s.toJson.text

/-- The session of a text, if it passes the check. -/
def ofText (text : String) : Except SessionError Session :=
  match (Json.read? text.toList).bind ofJson? with
  | some s => s.checked
  | none => .error .json

end Session

theorem Direction.ofJson?_toJson (depth : Nat) (d : Direction) :
    Direction.ofJson? depth d.toJson = some d := by
  cases d <;> rfl

theorem Condition.ofJson?_toJson (depth : Nat) (c : Condition) :
    Condition.ofJson? (depth + 1) c.toJson = some c := by
  cases c with
  | facing d => cases d <;> rfl
  | _ => rfl

end GridRobot
