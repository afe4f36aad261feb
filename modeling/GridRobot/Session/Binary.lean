import GridRobot.Binary.Reader
import GridRobot.Session.Basic

/-!
# The binary form of a session

A session is written as its world, its robot, its program and its macros, one
after the other and without names; the machine is not written.  A value with
several forms starts with the number of its form.  The macros are written in the
order of their names and may be read in any order; the last one of a name
counts.  Bytes behind the session are not looked at.

Blocks hold blocks, so a reader of blocks is built for a depth.  Every level
begins with a byte of its own, and the number of bytes is depth enough: a reader
without depth is only ever asked when no bytes are left.
-/

namespace GridRobot

namespace Direction

/-- The directions in the order of their numbers. -/
def all : List Direction := [north, east, south, west]

/-- The bytes of a direction. -/
def toBytes (d : Direction) : Bytes :=
  Bytes.ofNumber (all.idxOf d)

/-- Reads a direction. -/
def read : Reader Direction := Reader.variant all

end Direction

namespace Action

/-- The actions in the order of their numbers. -/
def all : List Action := [move, pickUp, putDown, turnLeft, turnRight]

/-- The bytes of an action. -/
def toBytes (a : Action) : Bytes :=
  Bytes.ofNumber (all.idxOf a)

/-- Reads an action. -/
def read : Reader Action := Reader.variant all

end Action

namespace Condition

/-- The bytes of a condition. -/
def toBytes : Condition → Bytes
  | frontIsClear => Bytes.ofNumber 0
  | frontIsBlocked => Bytes.ofNumber 1
  | beepersPresent => Bytes.ofNumber 2
  | noBeepersPresent => Bytes.ofNumber 3
  | facing d => Bytes.ofNumber 4 ++ d.toBytes

/-- Reads a condition. -/
def read : Reader Condition := do
  match ← Reader.form with
  | 0 => return frontIsClear
  | 1 => return frontIsBlocked
  | 2 => return beepersPresent
  | 3 => return noBeepersPresent
  | 4 => return facing (← Direction.read)
  | _ => throw .unknownVariant

end Condition

namespace Block

mutual

/-- The bytes of a block. -/
def toBytes : Block → Bytes
  | act a => Bytes.ofNumber 0 ++ a.toBytes
  | choose c yes no =>
      Bytes.ofNumber 1 ++ c.toBytes
        ++ (Bytes.ofNumber yes.length ++ allToBytes yes)
        ++ (Bytes.ofNumber no.length ++ allToBytes no)
  | times n body =>
      Bytes.ofNumber 2 ++ Bytes.ofNumber n.toNat
        ++ (Bytes.ofNumber body.length ++ allToBytes body)
  | call name => Bytes.ofNumber 3 ++ Bytes.ofText name

/-- The bytes of blocks one after the other. -/
def allToBytes : List Block → Bytes
  | [] => []
  | b :: bs => toBytes b ++ allToBytes bs

end

/-- The bytes of a counted list of blocks. -/
def listToBytes (bs : List Block) : Bytes :=
  Bytes.ofNumber bs.length ++ allToBytes bs

/-- Reads a block in which blocks are nested at most `depth` deep. -/
def readNested : (depth : Nat) → Reader Block
  | 0 => throw .endOfData
  | depth + 1 => do
      match ← Reader.form with
      | 0 => return act (← Action.read)
      | 1 =>
          let c ← Condition.read
          let yes ← Reader.list (readNested depth)
          let no ← Reader.list (readNested depth)
          return choose c yes no
      | 2 =>
          let n ← Reader.short
          let body ← Reader.list (readNested depth)
          return times n body
      | 3 => return call (← Reader.text)
      | _ => throw .unknownVariant

/-- Reads a counted list of blocks. -/
def readList : Reader (List Block) := do
  let bytes ← get
  Reader.list (readNested bytes.length)

end Block

namespace Cell

/-- The bytes of a cell. -/
def toBytes : Cell → Bytes
  | empty => Bytes.ofNumber 0
  | wall => Bytes.ofNumber 1
  | beepers n => Bytes.ofNumber 2 ++ Bytes.ofNumber n.toNat

/-- Reads a cell. -/
def read : Reader Cell := do
  match ← Reader.form with
  | 0 => return empty
  | 1 => return wall
  | 2 => return beepers (← Reader.short)
  | _ => throw .unknownVariant

end Cell

namespace World

/-- The bytes of a world. -/
def toBytes (w : World) : Bytes :=
  Bytes.ofNumber w.width ++ Bytes.ofNumber w.height ++ Bytes.ofList Cell.toBytes w.cells.toList

/-- Reads a world as it is written, without a check. -/
def read : Reader World := do
  let width ← Reader.word
  let height ← Reader.word
  let cells ← Reader.list Cell.read
  return ⟨width, height, cells.toArray⟩

end World

namespace Robot

/-- The bytes of a robot. -/
def toBytes (r : Robot) : Bytes :=
  Bytes.ofNumber r.x.toNat ++ Bytes.ofNumber r.y.toNat ++ r.facing.toBytes

/-- Reads a robot. -/
def read : Reader Robot := do
  let x ← Reader.word
  let y ← Reader.word
  let facing ← Direction.read
  return ⟨.ofNat x, .ofNat y, facing⟩

end Robot

namespace Macros

/-- The bytes of a named list of blocks. -/
def entryToBytes (entry : String × List Block) : Bytes :=
  Bytes.ofText entry.1 ++ Block.listToBytes entry.2

/-- Reads a named list of blocks. -/
def readEntry : Reader (String × List Block) := do
  let name ← Reader.text
  let body ← Block.readList
  return (name, body)

/-- The bytes of the macros. -/
def toBytes (m : Macros) : Bytes :=
  Bytes.ofList entryToBytes m.entries

/-- Reads macros. -/
def read : Reader Macros := do
  return .ofList (← Reader.list readEntry)

end Macros

namespace Session

/-- The bytes of a session. -/
def toBytes (s : Session) : Bytes :=
  s.scene.world.toBytes ++ s.scene.robot.toBytes ++ Block.listToBytes s.program
    ++ s.macros.toBytes

/-- Reads a session as it is written, with an empty machine and without a check. -/
def read : Reader Session := do
  let world ← World.read
  let robot ← Robot.read
  let program ← Block.readList
  let macros ← Macros.read
  return ⟨⟨robot, world⟩, program, macros, .idle none⟩

/-- The session that the bytes begin with, if it passes the check. -/
def ofBytes (bytes : Bytes) : Except SessionError Session :=
  match read bytes with
  | .ok (s, _) => s.checked
  | .error e => .error (.binary e)

end Session

end GridRobot
