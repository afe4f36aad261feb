import GridRobot.Json.Token

/-!
# Reading documents

**Input.**  The characters of a text.

**Algorithm.**  The tokens of the text drive an automaton.  Its state says what
must come next and holds the containers that are still open, the innermost
first, each with the parts it has so far.  Every text has at most one reading,
and a document may be nested as deep as it likes.

**Results.**
* `readFrom_of_blank`, `readFrom_of_token`: a run of the automaton, token by token.
-/

namespace GridRobot

namespace Json

/-- An open container with its parts, newest first; an object also has the name of the
field that is being read. -/
inductive Frame
  | array (items : List Json)
  | object (fields : List (JsonText × Json)) (name : JsonText)
  deriving Repr

/-- What has been read, by what must come next: a value; a value or the end of an
array; a name, or the end of an object without fields; a colon; or, behind a value,
what the innermost container admits. -/
inductive State
  | value (outer : List Frame)
  | items (outer : List Frame)
  | name (outer : List Frame) (fields : List (JsonText × Json))
  | colon (outer : List Frame) (fields : List (JsonText × Json)) (name : JsonText)
  | after (outer : List Frame) (j : Json)
  deriving Repr

namespace State

/-- The state after a token where a value must come. -/
def begin (outer : List Frame) : Token → Option State
  | .value j => some (after outer j)
  | .openArray => some (items outer)
  | .openObject => some (name outer [])
  | _ => none

/-- The state after a token behind a value. -/
def resume (j : Json) : List Frame → Token → Option State
  | .array done :: outer, .comma => some (value (.array (j :: done) :: outer))
  | .array done :: outer, .closeArray => some (after outer (.array (j :: done).reverse))
  | .object done n :: outer, .comma => some (name outer ((n, j) :: done))
  | .object done n :: outer, .closeObject =>
      some (after outer (.object ((n, j) :: done).reverse))
  | _, _ => none

/-- The state after a token. -/
def step : State → Token → Option State
  | value outer, t => begin outer t
  | items outer, .closeArray => some (after outer (.array []))
  | items outer, t => begin (.array [] :: outer) t
  | name outer [], .closeObject => some (after outer (.object []))
  | name outer fields, .value (.string n) => some (colon outer fields n)
  | name .., _ => none
  | colon outer fields n, .colon => some (value (.object fields n :: outer))
  | colon .., _ => none
  | after outer j, t => resume j outer t

/-- The value of a text that ends here. -/
def result? : State → Option Json
  | after [] j => some j
  | _ => none

end State

/-- The value of a text of which the state has been read. -/
def readFrom (s : State) (cs : List Char) : Option Json :=
  match _hcs : cs.dropWhile Token.isBlank with
  | [] => s.result?
  | c :: rest =>
      match _hread : Token.read? (c :: rest) with
      | none => none
      | some (t, rest) =>
          match s.step t with
          | none => none
          | some s => readFrom s rest
termination_by cs.length
decreasing_by
  have h1 := Token.length_read?_lt _hread
  have h2 := (List.dropWhile_sublist (l := cs) Token.isBlank).length_le
  rw [_hcs] at h2
  omega

theorem readFrom_of_blank {s : State} {cs : List Char}
    (h : cs.dropWhile Token.isBlank = []) : readFrom s cs = s.result? := by
  rw [readFrom]
  split <;> simp_all

theorem readFrom_of_token {s : State} {cs rest : List Char} {t : Token}
    (hne : cs.dropWhile Token.isBlank ≠ [])
    (h : Token.read? (cs.dropWhile Token.isBlank) = some (t, rest)) :
    readFrom s cs = (s.step t).bind (readFrom · rest) := by
  rw [readFrom]
  split
  · contradiction
  · rename_i hcs
    rw [hcs] at h
    split
    · simp_all
    · rename_i hread
      rw [h] at hread
      cases hread
      cases s.step t <;> rfl

/-- The value of a text. -/
def read? (cs : List Char) : Option Json :=
  readFrom (.value []) cs

end Json

end GridRobot
