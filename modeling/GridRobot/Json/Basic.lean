/-!
# JSON values

A value keeps of its text what can be used: of a number its value if it is
written as a natural number, of a string its characters if its escapes spell
characters.  An object keeps its fields in order, repeated names and all.
-/

namespace GridRobot

/-- The characters of a string, or nothing for a string with half a surrogate pair. -/
abbrev JsonText := Option String

/-- A JSON value. -/
inductive Json
  | null
  | bool (b : Bool)
  | number (natural : Option Nat)
  | string (text : JsonText)
  | array (items : List Json)
  | object (fields : List (JsonText × Json))
  deriving Repr

end GridRobot
