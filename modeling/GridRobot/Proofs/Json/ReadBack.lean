import GridRobot.Proofs.Json.Tokens

/-!
# Documents are read back

The text of a value, read where a value must come, leads the reader to the state behind
that value, and the margins in it are passed over.  The proof follows the writer, so there
is one statement for a value and one for the parts of each kind of container behind its
first part; it says where the reader stands inside any containers that are still open.

**Results.**
* `Json.readFrom_write`: where a value must come, it is read back.
* `Json.read?_text`: a document is read back.
-/

namespace GridRobot

namespace Json

variable {s : State} {outer : List Frame} {cs rest : List Char}

/-! ### Steps of the reader -/

theorem readFrom_eq (s : State) (cs : List Char) :
    readFrom s cs =
      match cs.dropWhile Token.isBlank with
      | [] => s.result?
      | c :: rest =>
          (Token.read? (c :: rest)).bind fun p => (s.step p.1).bind (readFrom · p.2) := by
  rw [readFrom]
  split
  · rename_i hcs
    rw [hcs]
  · rename_i hcs
    rw [hcs]
    split
    · rename_i hread
      simp [hread]
    · rename_i t rest hread
      simp only [hread, Option.bind_some]
      cases s.step t <;> rfl

theorem readFrom_cons_of_blank (s : State) {c : Char} (hc : Token.isBlank c = true)
    (cs : List Char) : readFrom s (c :: cs) = readFrom s cs := by
  rw [readFrom_eq, readFrom_eq s cs, List.dropWhile_cons_of_pos hc]

theorem readFrom_newline (s : State) (depth : Nat) (rest : List Char) :
    readFrom s (newline depth rest) = readFrom s rest := by
  rw [newline, readFrom_cons_of_blank s (by decide)]
  induction 2 * depth with
  | zero =>
      rfl
  | succ n ih =>
      rw [List.replicate_succ, List.cons_append, readFrom_cons_of_blank s (by decide), ih]

theorem readFrom_of_head {c : Char} {t : Token} (hc : Token.isBlank c = false)
    (h : Token.read? (c :: cs) = some (t, rest)) :
    readFrom s (c :: cs) = (s.step t).bind (readFrom · rest) := by
  rw [readFrom_eq, List.dropWhile_cons_of_neg (by simp [hc])]
  simp only [h, Option.bind_some]

/-- In the state a value must come inside some containers: any token but the end of an array
is taken as its beginning. -/
def State.Awaits (s : State) (outer : List Frame) : Prop :=
  ∀ t, t ≠ .closeArray → s.step t = State.begin outer t

theorem awaits_value (outer : List Frame) : (State.value outer).Awaits outer :=
  fun _ _ => rfl

theorem awaits_items (outer : List Frame) : (State.items outer).Awaits (.array [] :: outer) := by
  intro t ht
  cases t with
  | closeArray => exact absurd rfl ht
  | _ => rfl

/-! ### Values without parts -/

theorem readFrom_of_scalar (hs : s.Awaits outer) {c : Char} {j : Json}
    (hc : Token.isBlank c = false) (h : Token.read? (c :: cs) = some (.value j, rest)) :
    readFrom s (c :: cs) = readFrom (.after outer j) rest := by
  rw [readFrom_of_head hc h, hs _ (by simp)]
  rfl

theorem isBlank_of_isDigit {c : Char} (h : c.isDigit = true) : Token.isBlank c = false := by
  rw [Bool.eq_false_iff]
  intro hblank
  simp only [Token.isBlank, Bool.or_eq_true, beq_iff_eq] at hblank
  rcases hblank with ((rfl | rfl) | rfl) | rfl <;> contradiction

theorem readFrom_numeral (hs : s.Awaits outer) (n : Option Nat) (hrest : Numeral.Stops rest) :
    readFrom s (Numeral.write n ++ rest) = readFrom (.after outer (.number n)) rest := by
  have hread := Token.read?_numeral n hrest
  cases hcs : Numeral.write n ++ rest with
  | nil =>
      rw [hcs] at hread
      cases hread
  | cons c cs =>
      rw [hcs] at hread
      refine readFrom_of_scalar hs ?_ hread
      rcases Numeral.write_append_eq_cons hcs with hdigit | ⟨_, rfl⟩
      · exact isBlank_of_isDigit hdigit
      · rfl

theorem readFrom_quoted (hs : s.Awaits outer) (text : JsonText) (rest : List Char) :
    readFrom s (Quoted.write text ++ rest) = readFrom (.after outer (.string text)) rest := by
  have hread := Token.read?_quoted text rest
  cases text with
  | some text => exact readFrom_of_scalar hs rfl hread
  | none => exact readFrom_of_scalar hs rfl hread

/-- The name of a field is read where a name must come, with the colon behind it. -/
theorem readFrom_writeName (outer : List Frame) (fields : List (JsonText × Json))
    (name : JsonText) (rest : List Char) :
    readFrom (.name outer fields) (writeName name rest)
      = readFrom (.value (.object fields name :: outer)) rest := by
  have hcolon : readFrom (.colon outer fields name) (':' :: ' ' :: rest)
      = readFrom (.value (.object fields name :: outer)) rest := by
    rw [readFrom_of_head (t := .colon) (by decide) rfl]
    exact readFrom_cons_of_blank _ (by decide) rest
  have hread := Token.read?_quoted name (':' :: ' ' :: rest)
  have hstep : (State.name outer fields).step (.value (.string name))
      = some (.colon outer fields name) := by
    cases fields <;> rfl
  rw [writeName, ← hcolon]
  cases name with
  | some name => exact (readFrom_of_head rfl hread).trans (by rw [hstep]; rfl)
  | none => exact (readFrom_of_head rfl hread).trans (by rw [hstep]; rfl)

/-! ### Containers -/

theorem readFrom_openArray (hs : s.Awaits outer) (rest : List Char) :
    readFrom s ('[' :: rest) = readFrom (.items outer) rest := by
  rw [readFrom_of_head (t := .openArray) (by decide) rfl, hs _ (by simp)]
  rfl

theorem readFrom_openObject (hs : s.Awaits outer) (rest : List Char) :
    readFrom s ('{' :: rest) = readFrom (.name outer []) rest := by
  rw [readFrom_of_head (t := .openObject) (by decide) rfl, hs _ (by simp)]
  rfl

theorem stops_writeItems (depth margin : Nat) (js : List Json) (rest : List Char) :
    Numeral.Stops (writeItems depth js (newline margin rest)) := by
  cases js <;> simp [writeItems, newline, Numeral.Stops]

theorem stops_writeFields (depth margin : Nat) (fields : List (JsonText × Json))
    (rest : List Char) : Numeral.Stops (writeFields depth fields (newline margin rest)) := by
  cases fields <;> simp [writeFields, newline, Numeral.Stops]

mutual

/-- Where a value must come, the text of a value is read as that value. -/
theorem readFrom_write {s : State} {outer : List Frame} (hs : s.Awaits outer) (depth : Nat)
    (j : Json) {rest : List Char} (hrest : ∀ n, j = .number n → Numeral.Stops rest) :
    readFrom s (write depth j rest) = readFrom (.after outer j) rest := by
  match j with
  | null => exact readFrom_of_scalar hs (by decide) rfl
  | bool true => exact readFrom_of_scalar hs (by decide) rfl
  | bool false => exact readFrom_of_scalar hs (by decide) rfl
  | number n => exact readFrom_numeral hs n (hrest n rfl)
  | string text => exact readFrom_quoted hs text rest
  | array [] =>
      rw [write, readFrom_openArray hs, readFrom_of_head (t := .closeArray) (by decide) rfl]
      rfl
  | array (j :: js) =>
      rw [write, readFrom_openArray hs, readFrom_newline,
        readFrom_write (awaits_items outer) (depth + 1) j fun _ _ => stops_writeItems ..,
        readFrom_writeItems outer [] (depth + 1) depth j js rest]
      rfl
  | object [] =>
      rw [write, readFrom_openObject hs, readFrom_of_head (t := .closeObject) (by decide) rfl]
      rfl
  | object ((name, j) :: fields) =>
      rw [write, readFrom_openObject hs, readFrom_newline, readFrom_writeName,
        readFrom_write (awaits_value _) (depth + 1) j fun _ _ => stops_writeFields ..,
        readFrom_writeFields outer [] (depth + 1) depth name j fields rest]
      rfl

/-- Behind an item of an array, the other items and the end of the array are read. -/
theorem readFrom_writeItems (outer : List Frame) (done : List Json) (depth margin : Nat)
    (j : Json) (js : List Json) (rest : List Char) :
    readFrom (.after (.array done :: outer) j) (writeItems depth js (newline margin (']' :: rest)))
      = readFrom (.after outer (.array (done.reverse ++ j :: js))) rest := by
  match js with
  | [] =>
      rw [writeItems, readFrom_newline, readFrom_of_head (t := .closeArray) (by decide) rfl]
      simp [State.step, State.resume]
  | k :: js =>
      -- The comma ends the value in front, which joins the items that are done.
      rw [writeItems, readFrom_of_head (t := .comma) (by decide) rfl]
      simp only [State.step, State.resume, Option.bind_some]
      rw [readFrom_newline,
        readFrom_write (awaits_value _) depth k fun _ _ => stops_writeItems ..,
        readFrom_writeItems outer (j :: done) depth margin k js rest]
      simp

/-- Behind a field of an object, the other fields and the end of the object are read. -/
theorem readFrom_writeFields (outer : List Frame) (done : List (JsonText × Json))
    (depth margin : Nat) (name : JsonText) (j : Json) (fields : List (JsonText × Json))
    (rest : List Char) :
    readFrom (.after (.object done name :: outer) j)
        (writeFields depth fields (newline margin ('}' :: rest)))
      = readFrom (.after outer (.object (done.reverse ++ (name, j) :: fields))) rest := by
  match fields with
  | [] =>
      rw [writeFields, readFrom_newline, readFrom_of_head (t := .closeObject) (by decide) rfl]
      simp [State.step, State.resume]
  | (name', k) :: fields =>
      rw [writeFields, readFrom_of_head (t := .comma) (by decide) rfl]
      simp only [State.step, State.resume, Option.bind_some]
      rw [readFrom_newline, readFrom_writeName,
        readFrom_write (awaits_value _) depth k fun _ _ => stops_writeFields ..,
        readFrom_writeFields outer ((name, j) :: done) depth margin name' k fields rest]
      simp

end

/-- The text of a document is read as that document. -/
theorem read?_text (j : Json) : read? j.text.toList = some j := by
  have hend : Numeral.Stops [] := trivial
  have hread := readFrom_write (awaits_value []) 0 j fun _ _ => hend
  rw [text, String.toList_ofList, read?, hread, readFrom_of_blank rfl]
  rfl

end Json

end GridRobot
