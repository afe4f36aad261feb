import GridRobot.Command.Arguments
import GridRobot.Command.Printout
import GridRobot.Session.File

/-!
# Carrying commands out

A command is carried out against a disk, which reads and writes files.  Its
outcome is what it prints to the two channels and the exit code: zero, one after
an error, two when the arguments are not understood.
-/

namespace GridRobot

/-- Reading a file gives its contents or nothing; writing one tells whether it worked. -/
structure Disk (m : Type → Type) where
  read : String → m (Option Bytes)
  write : String → Bytes → m Bool

/-- What a command leaves behind besides files. -/
structure Outcome where
  code : UInt32
  output : String
  errors : String
  deriving DecidableEq, Repr

namespace Outcome

/-- The outcome of an error with a cause. -/
def failed (text cause : String) : Outcome :=
  ⟨1, "", s!"Error: {text}\n\nCaused by:\n    {cause}\n"⟩

/-- The outcome of a printout. -/
def ofPrintout (p : Printout) : Outcome :=
  match p.error with
  | none => ⟨0, p.text, ""⟩
  | some e => ⟨1, p.text, s!"Error: {e}\n"⟩

/-- The outcome when no command is carried out. -/
def ofStop : Stop → Outcome
  | .page text => ⟨0, text, ""⟩
  | .misuse e => ⟨2, "", s!"{e.message}\n\nFor more information, try '--help'.\n"⟩

end Outcome

namespace Session

/-- The example: walk east and collect beepers, turn around, put one down. -/
def demo : Except SessionError Session := do
  let s ← new 6 3
  let s ← s.setCell 2 0 (.beepers 1)
  let s ← s.setCell 4 0 (.beepers 2)
  let s ← s.setCell 5 1 .wall
  let s := s.define "collect" [.choose .beepersPresent [.act .pickUp] []]
  let s := s.define "turn_around" [.times 2 [.act .turnLeft]]
  let s := s.push (.times 5 [.act .move, .call "collect"])
  let s := s.push (.call "turn_around")
  return s.push (.act .putDown)

end Session

namespace Command

variable {m : Type → Type} [Monad m]

/-- Does something with the session in a file. -/
def withSession (disk : Disk m) (file : String) (f : Session → Printout) : m Outcome := do
  let session := match ← disk.read file with
    | some bytes => Session.ofFile file bytes
    | none => .error .file
  match session with
  | .ok s => return .ofPrintout (f s)
  | .error e => return .failed s!"failed to load '{file}'" e.message

/-- Runs the example, after it has been saved where this is asked for. -/
def runDemo (disk : Disk m) (save : Option String) : m Outcome := do
  match Session.demo, save with
  | .error e, _ => return .ofPrintout ⟨"", some e.message⟩
  | .ok s, none => return .ofPrintout (.run s true)
  | .ok s, some file =>
      if ← disk.write file (s.toFile file) then
        return .ofPrintout ((Printout.run s true).after s!"saved demo session to {file}\n")
      else
        return .failed s!"failed to save '{file}'" SessionError.file.message

/-- Carries a command out. -/
def perform (disk : Disk m) : Command → m Outcome
  | run file trace maxSteps =>
      withSession disk file fun s => .run (s.limitSteps maxSteps) trace
  | disasm file => withSession disk file .listings
  | demo save => runDemo disk save

/-- Carries out what the words of the command line ask for. -/
def execute (disk : Disk m) (words : List String) : m Outcome :=
  match parse words with
  | .ok c => c.perform disk
  | .error stop => return .ofStop stop

end Command

namespace Folder

/-- The name of a file of the folder that a path leads to: steps that stay in the folder,
and then a plain name.  A path has less than 4096 bytes. -/
def resolve? (path : String) : Option String :=
  match (path.toList.splitOn '/').reverse with
  | [] => none
  | name :: steps =>
      let name := String.ofList name
      let stays := steps.all (fun s => s == ['.'] || s == [])
        && (steps.getLast?.getD ['.'] == ['.'])
      if stays && isPlainName name && path.utf8ByteSize < 4096 then some name else none

/-- A folder as a disk. -/
def disk : Disk (StateM Folder) where
  read path := return (resolve? path).bind (← get).read?
  write path bytes := do
    match resolve? path with
    | some name =>
        modify (·.write name bytes)
        return true
    | none => return false

end Folder

end GridRobot
