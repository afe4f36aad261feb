import GridRobot.Json.Numeral
import GridRobot.Json.Quoted

/-!
# Writing documents

A document is written with every part of a container on a line of its own, two
more blanks from the margin than the container, and an empty container on one
line.

Every function puts its text in front of what follows, so that no text is copied
when it becomes part of a longer one.

**Results.**
* `write_append`: what follows a value does not change its text.
-/

namespace GridRobot

namespace Json

/-- A new line at some depth. -/
def newline (depth : Nat) (rest : List Char) : List Char :=
  '\n' :: (List.replicate (2 * depth) ' ' ++ rest)

/-- The name of a field. -/
def writeName (name : JsonText) (rest : List Char) : List Char :=
  Quoted.write name ++ ':' :: ' ' :: rest

mutual

/-- The text of a value at some depth. -/
def write (depth : Nat) : Json → List Char → List Char
  | null, rest => 'n' :: 'u' :: 'l' :: 'l' :: rest
  | bool true, rest => 't' :: 'r' :: 'u' :: 'e' :: rest
  | bool false, rest => 'f' :: 'a' :: 'l' :: 's' :: 'e' :: rest
  | number n, rest => Numeral.write n ++ rest
  | string s, rest => Quoted.write s ++ rest
  | array [], rest => '[' :: ']' :: rest
  | array (j :: js), rest =>
      '[' :: newline (depth + 1)
        (write (depth + 1) j (writeItems (depth + 1) js (newline depth (']' :: rest))))
  | object [], rest => '{' :: '}' :: rest
  | object ((n, j) :: fields), rest =>
      '{' :: newline (depth + 1) (writeName n
        (write (depth + 1) j (writeFields (depth + 1) fields (newline depth ('}' :: rest)))))

/-- The text of the items of an array behind its first one. -/
def writeItems (depth : Nat) : List Json → List Char → List Char
  | [], rest => rest
  | j :: js, rest => ',' :: newline depth (write depth j (writeItems depth js rest))

/-- The text of the fields of an object behind its first one. -/
def writeFields (depth : Nat) : List (JsonText × Json) → List Char → List Char
  | [], rest => rest
  | (n, j) :: fields, rest =>
      ',' :: newline depth (writeName n (write depth j (writeFields depth fields rest)))

end

/-- The text of a document. -/
def text (j : Json) : String :=
  String.ofList (write 0 j [])

theorem newline_append (depth : Nat) (rest more : List Char) :
    newline depth rest ++ more = newline depth (rest ++ more) := by
  simp [newline]

theorem writeName_append (name : JsonText) (rest more : List Char) :
    writeName name rest ++ more = writeName name (rest ++ more) := by
  simp [writeName]

mutual

theorem write_append (depth : Nat) (j : Json) (rest more : List Char) :
    write depth j rest ++ more = write depth j (rest ++ more) := by
  match j with
  | null => rfl
  | bool true => rfl
  | bool false => rfl
  | number n => simp [write]
  | string s => simp [write]
  | array [] => rfl
  | array (j :: js) =>
      simp only [write, List.cons_append, newline_append, write_append, writeItems_append]
  | object [] => rfl
  | object ((n, j) :: fields) =>
      simp only [write, List.cons_append, newline_append, writeName_append, write_append,
        writeFields_append]

theorem writeItems_append (depth : Nat) (js : List Json) (rest more : List Char) :
    writeItems depth js rest ++ more = writeItems depth js (rest ++ more) := by
  match js with
  | [] => rfl
  | j :: js =>
      simp only [writeItems, List.cons_append, newline_append, write_append,
        writeItems_append depth js]

theorem writeFields_append (depth : Nat) (fields : List (JsonText × Json))
    (rest more : List Char) :
    writeFields depth fields rest ++ more = writeFields depth fields (rest ++ more) := by
  match fields with
  | [] => rfl
  | (n, j) :: fields =>
      simp only [writeFields, List.cons_append, newline_append, writeName_append, write_append,
        writeFields_append depth fields]

end

end Json

end GridRobot
