import GridRobot.Session.Binary
import GridRobot.Session.Json

/-!
# Session files

A session file holds the JSON form when its name ends in `.json` with something
in front of it, and the binary form otherwise.  A folder holds files by plain
names, that is, names of entries of the folder itself.

**Results.**
* `read?_write`: a written file is read back, and the others stay.
-/

namespace GridRobot

/-- Whether a path asks for the JSON form.  Only the name at its end counts. -/
def isJsonName (path : String) : Bool :=
  let reversed := path.toList.reverse.takeWhile (· != '/')
  match reversed.dropWhile (· != '.') with
  | '.' :: _ :: _ => reversed.takeWhile (· != '.') == ['n', 'o', 's', 'j']
  | _ => false

/-- Whether a name can be that of an entry of a folder. -/
def isPlainName (name : String) : Bool :=
  name != "" && name != "." && name != ".." && name.utf8ByteSize ≤ 255
    && name.toList.all fun c => c != '/' && c != '\x00'

/-- Files by name. -/
structure Folder where
  files : List (String × Bytes)

namespace Folder

/-- The folder without files. -/
def empty : Folder := ⟨[]⟩

/-- The contents of a file. -/
def read? (f : Folder) (name : String) : Option Bytes :=
  f.files.lookup name

/-- The folder with a file of some contents. -/
def write (f : Folder) (name : String) (bytes : Bytes) : Folder :=
  ⟨(name, bytes) :: f.files.filter (·.1 ≠ name)⟩

theorem read?_write (f : Folder) (name : String) (bytes : Bytes) (other : String) :
    (f.write name bytes).read? other = if other = name then some bytes else f.read? other := by
  unfold write read?
  rw [List.lookup_cons]
  by_cases h : other = name
  · simp [h]
  · simp only [beq_false_of_ne h, h, if_false]
    rw [Macros.lookup_filter (fun k => decide (k ≠ name))]
    simp [h]

end Folder

namespace Session

/-- The contents of the file of a session under a name. -/
def toFile (s : Session) (name : String) : Bytes :=
  if isJsonName name then s.toText.toUTF8.data.toList else s.toBytes

/-- The session in a file with a name and contents. -/
def ofFile (name : String) (bytes : Bytes) : Except SessionError Session :=
  if isJsonName name then
    match String.fromUTF8? ⟨bytes.toArray⟩ with
    | some text => ofText text
    | none => .error .file
  else
    ofBytes bytes

/-- The folder with the session in a file. -/
def save (s : Session) (name : String) (f : Folder) : Except SessionError Folder :=
  if isPlainName name then .ok (f.write name (s.toFile name)) else .error .file

/-- The session in a file of the folder. -/
def load (name : String) (f : Folder) : Except SessionError Session :=
  match if isPlainName name then f.read? name else none with
  | some bytes => ofFile name bytes
  | none => .error .file

end Session

end GridRobot
