import GridRobot.Code.Instruction

/-!
# Listings

Code as text, one row for each instruction with its index, its line and its
operation.  A row that some jump leads to carries a mark and has a rule above
it; a jump to the end of the code shows as one more row.

**Results.**
* `getD_marks`: a position is marked exactly when a jump leads to it.
-/

namespace GridRobot

namespace Listing

/-- A number in at least `width` digits. -/
def padded (width n : Nat) : String :=
  String.ofList ((Nat.toDigits 10 n).leftpad width '0')

/-- An index in at least four signs, the minus sign among them. -/
def index : Int → String
  | .ofNat n => padded 4 n
  | .negSucc n => "-" ++ padded 3 (n + 1)

/-- A distance with its sign, zero as positive. -/
def distance : Int → String
  | .ofNat n => "+" ++ padded 0 n
  | .negSucc n => "-" ++ padded 0 (n + 1)

/-- A line number, filled up with blanks to four signs. -/
def lineColumn (n : Nat) : String :=
  String.ofList ((Nat.toDigits 10 n).rightpad 4 ' ')

/-- A jump at index `ip` by its distance, its direction and its target. -/
def jump (ip : Nat) (offset : Int) : String :=
  let arrow := if offset < 0 then "↑" else "↓"
  s!"{distance offset} {arrow} (→ {index (ip + offset)})"

/-- The operation at index `ip`. -/
def op (ip : Nat) : Op → String
  | .act a => s!"ACT         {a.word}"
  | .jumpIfFalse c d => s!"JUMP_FALSE  {c.word} {jump ip d}"
  | .jump d => s!"JUMP        {jump ip d}"

/-- A row of a listing: a rule, which stands above a row that a jump leads to, the
instruction at an index, or the end behind the last instruction. -/
inductive Row
  | rule
  | instruction (marked : Bool) (ip : Nat) (i : Instruction)
  | ending (size : Nat)
  deriving DecidableEq, Repr

/-- The text of a row. -/
def Row.text : Row → String
  | rule => "      ┌──────────────────────────────────\n"
  | instruction marked ip i =>
      let sign := if marked then "►" else " "
      s!"{index ip} {sign} L{lineColumn i.line}{op ip i.op}\n"
  | ending size => s!"{index size} ► END\n"

/-- The rows of the instruction at index `ip`. -/
def rowsAt (marked : Bool) (ip : Nat) (i : Instruction) : List Row :=
  if marked then [.rule, .instruction true ip i] else [.instruction false ip i]

end Listing

namespace Code

/-- Mark a position; one that is not there is passed over. -/
def mark (marks : Array Bool) (t : Int) : Array Bool :=
  if 0 ≤ t then marks.setIfInBounds t.toNat true else marks

@[simp] theorem size_mark (marks : Array Bool) (t : Int) :
    (mark marks t).size = marks.size := by
  unfold mark
  split <;> simp

/-- For every index of the code and for its end, whether a jump leads there. -/
def marks (code : Code) : Array Bool :=
  code.targets.foldl mark (Array.replicate (code.length + 1) false)

/-- The rows of the listing. -/
def rows (code : Code) : List Listing.Row :=
  let marks := code.marks
  let last := !code.isEmpty && marks.getD code.length false
  (code.zipIdx.flatMap fun (i, ip) => Listing.rowsAt (marks.getD ip false) ip i)
    ++ if last then [.ending code.length] else []

/-- The listing of the code. -/
def listing (code : Code) : String :=
  String.join (code.rows.map Listing.Row.text)

/-- The listing under a heading with a title and the number of instructions. -/
def sheet (title : String) (code : Code) : String :=
  let line := String.ofList (List.replicate 40 '═')
  s!"{line}\n {title}\n {code.length} instructions\n{line}\n{code.listing}\n"

theorem getD_foldl_mark (ts : List Int) (marks : Array Bool) {ip : Nat}
    (h : ip < marks.size) :
    (ts.foldl mark marks).getD ip false
      = (marks.getD ip false || decide ((ip : Int) ∈ ts)) := by
  induction ts generalizing marks with
  | nil => simp
  | cons t ts ih =>
      rw [List.foldl_cons, ih _ (by simpa using h)]
      have hstep : (mark marks t).getD ip false
          = (marks.getD ip false || decide ((ip : Int) = t)) := by
        by_cases ht : (ip : Int) = t
        · subst ht
          simp [mark, h, Array.getD_eq_getD_getElem?]
        · have hne : ¬ (0 ≤ t ∧ t.toNat = ip) := by omega
          by_cases hpos : 0 ≤ t
          · have hne : t.toNat ≠ ip := fun h => hne ⟨hpos, h⟩
            simp [mark, hpos, ht, hne, Array.getD_eq_getD_getElem?]
          · simp [mark, hpos, ht]
      simp [hstep, Bool.or_assoc]

theorem getD_marks (code : Code) {ip : Nat} (h : ip ≤ code.length) :
    code.marks.getD ip false = decide ((ip : Int) ∈ code.targets) := by
  rw [marks, getD_foldl_mark _ _ (by simp; omega)]
  simp [Array.getD_eq_getD_getElem?, Nat.lt_succ_of_le h]

end Code

end GridRobot
