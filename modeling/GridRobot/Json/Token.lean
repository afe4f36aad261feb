import GridRobot.Json.Numeral
import GridRobot.Json.Quoted

/-!
# Tokens

The pieces of a JSON text: brackets, commas, colons, and the values without
parts.

**Results.**
* `length_read?_lt`: reading a token goes forward.
-/

namespace GridRobot

/-- A piece of a JSON text.  A value stands for itself. -/
inductive Token
  | openArray
  | closeArray
  | openObject
  | closeObject
  | comma
  | colon
  | value (j : Json)
  deriving Repr

namespace Token

/-- Blank, tab, line feed and carriage return. -/
def isBlank (c : Char) : Bool :=
  c == ' ' || c == '\t' || c == '\n' || c == '\r'

/-- The token at the front of a text that begins with no blank, and what follows it. -/
def read? : List Char → Option (Token × List Char)
  | '[' :: rest => some (openArray, rest)
  | ']' :: rest => some (closeArray, rest)
  | '{' :: rest => some (openObject, rest)
  | '}' :: rest => some (closeObject, rest)
  | ',' :: rest => some (comma, rest)
  | ':' :: rest => some (colon, rest)
  | '"' :: rest => (Quoted.read? rest).map fun p => (value (.string p.1), p.2)
  | 'n' :: 'u' :: 'l' :: 'l' :: rest => some (value .null, rest)
  | 't' :: 'r' :: 'u' :: 'e' :: rest => some (value (.bool true), rest)
  | 'f' :: 'a' :: 'l' :: 's' :: 'e' :: rest => some (value (.bool false), rest)
  | cs => (Numeral.read? cs).map fun p => (value (.number p.1), p.2)

theorem length_read?_lt {cs rest : List Char} {t : Token} (h : read? cs = some (t, rest)) :
    rest.length < cs.length := by
  unfold read? at h
  split at h
  case h_7 =>
    simp only [Option.map_eq_some_iff] at h
    obtain ⟨⟨s, r⟩, hs, heq⟩ := h
    cases heq
    exact Nat.lt_succ_of_lt (Quoted.length_read?_lt hs)
  case h_11 =>
    simp only [Option.map_eq_some_iff] at h
    obtain ⟨⟨n, r⟩, hn, heq⟩ := h
    cases heq
    exact Numeral.length_read?_lt hn
  all_goals
    cases h
    simp only [List.length_cons]
    omega

end Token

end GridRobot
