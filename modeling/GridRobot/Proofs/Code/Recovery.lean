import Mathlib
import GridRobot.Proofs.Code.Rows

/-!
# Code is recovered from its listing

The columns of a listing have no fixed ends.  A line fills its column up with blanks, but one of
four digits or more touches the operation behind it, and distances and targets are as long as they
need to be.  Still nothing is lost: the digits of the line end at the keyword of the operation, and
every other part ends at a blank.  Numbers of rows, marks, rules, arrows and targets are not needed
for the code, and are passed over.

**Results.**
* `Listing.readDistance?_distance`, `Listing.readOp?_op`: distances and operations are read back.
* `Listing.Row.readInstruction?_line`: what instruction stands in a row, if there is one.
* `Code.instructions_listing`: the instructions in the listing of some code are this code.
* `Code.listing_inj`: no two pieces of code have the same listing.
-/

namespace GridRobot

namespace Listing

open Text (takeWhile_append_of_head? dropWhile_append_of_head?)

/-! ### Reading operations -/

/-- The distance that digits spell behind their sign. -/
def readDistance? : List Char → Option Int
  | '+' :: ds => (readDigits? ds).map fun n => (n : Int)
  | '-' :: ds => (readDigits? ds).map fun n => -(n : Int)
  | _ => none

/-- The action with a given word. -/
def readAction? (word : List Char) : Option Action :=
  [.move, .pickUp, .putDown, .turnLeft, .turnRight].find? fun a : Action => a.word.toList = word

/-- The condition with a given word. -/
def readCondition? (word : List Char) : Option Condition :=
  [.frontIsClear, .frontIsBlocked, .beepersPresent, .noBeepersPresent, .facing .north,
    .facing .east, .facing .south, .facing .west].find? fun c : Condition => c.word.toList = word

/-- The first word of a text, and what stands behind the blanks that end it. -/
def firstWord (cs : List Char) : List Char × List Char :=
  (cs.takeWhile (· ≠ ' '), (cs.dropWhile (· ≠ ' ')).dropWhile (· = ' '))

/-- The operation that a keyword begins.  A distance ends at the blank in front of its direction. -/
def readOp? (cs : List Char) : Option Op :=
  let (keyword, rest) := firstWord cs
  if keyword = "ACT".toList then
    (readAction? rest).map .act
  else if keyword = "JUMP".toList then
    (readDistance? (firstWord rest).1).map .jump
  else if keyword = "JUMP_FALSE".toList then do
    let (condition, rest) := firstWord rest
    let c ← readCondition? condition
    let d ← readDistance? (firstWord rest).1
    return .jumpIfFalse c d
  else
    none

/-- The instruction that a row tells: the digits behind the letter in front of the line, and the
operation behind these digits and the blanks that fill the column up. -/
def readInstruction? (row : List Char) : Option Instruction :=
  match row.dropWhile (· ≠ 'L') with
  | [] => none
  | _ :: rest => do
      let line ← readDigits? (rest.takeWhile Char.isDigit)
      let op ← readOp? ((rest.dropWhile Char.isDigit).dropWhile (· = ' '))
      return ⟨line, op⟩

/-- The instructions in the rows of a text, one after the other. -/
def instructions (text : String) : Code :=
  (text.toList.splitOn '\n').filterMap readInstruction?

/-! ### Operations are read back -/

/-- Characters among which there is no blank. -/
def Solid (cs : List Char) : Prop :=
  ∀ c ∈ cs, c ≠ ' '

/-- A word ends at its first blank, and what stands behind it begins with something else. -/
theorem firstWord_append {word rest : List Char} (blanks : Nat) (hword : Solid word)
    (hrest : ∀ c ∈ rest.head?, c ≠ ' ') :
    firstWord (word ++ List.replicate (blanks + 1) ' ' ++ rest) = (word, rest) := by
  have hstop : ∀ c ∈ word, decide (c ≠ ' ') = true := fun c hc => by simpa using hword c hc
  have hblank : ∀ c ∈ List.replicate (blanks + 1) ' ', decide (c = ' ') = true :=
    fun c hc => by simpa using List.eq_of_mem_replicate hc
  have hend : ∀ c ∈ (List.replicate (blanks + 1) ' ' ++ rest).head?, decide (c ≠ ' ') = false := by
    simp [List.replicate_succ]
  rw [firstWord, List.append_assoc, takeWhile_append_of_head? hstop hend,
    dropWhile_append_of_head? hstop hend,
    dropWhile_append_of_head? hblank fun c hc => by simpa using hrest c hc]

theorem solid_distance (d : Int) : Solid (distance d).toList := by
  have hdigits (n : Nat) : Solid (padded 0 n).toList := fun c hc =>
    ne_of_isDigit (isDigit_of_mem_padded hc) (by decide)
  cases d with
  | ofNat n =>
      rw [distance, String.toList_append]
      exact List.forall_mem_append.2 ⟨by simp, hdigits n⟩
  | negSucc n =>
      rw [distance, String.toList_append]
      exact List.forall_mem_append.2 ⟨by simp, hdigits (n + 1)⟩

theorem solid_condition (c : Condition) : Solid c.word.toList := by
  rcases c with _ | _ | _ | _ | ⟨_ | _ | _ | _⟩ <;> simp [Condition.word, Solid]

theorem readDistance?_distance (d : Int) : readDistance? (distance d).toList = some d := by
  cases d with
  | ofNat n =>
      simp [distance, readDistance?, readDigits?_padded]
  | negSucc n =>
      simp [distance, readDistance?, readDigits?_padded, Int.negSucc_eq]

theorem readAction?_word (a : Action) : readAction? a.word.toList = some a := by
  cases a <;> rfl

theorem readCondition?_word (c : Condition) : readCondition? c.word.toList = some c := by
  rcases c with _ | _ | _ | _ | ⟨_ | _ | _ | _⟩ <;> rfl

theorem firstWord_jump (ip : Nat) (d : Int) :
    ∃ rest, firstWord (jump ip d).toList = ((distance d).toList, rest) := by
  have htext : (jump ip d).toList
      = (distance d).toList ++ List.replicate 1 ' '
        ++ (if d < 0 then '↑' else '↓') :: (" (→ ".toList ++ (index (ip + d)).toList ++ [')']) := by
    by_cases hd : d < 0 <;> simp [jump, toString, hd]
  rw [htext, firstWord_append 0 (solid_distance d) (by split <;> simp)]
  exact ⟨_, rfl⟩

theorem head?_jump (ip : Nat) (d : Int) : ∀ c ∈ (jump ip d).toList.head?, c ≠ ' ' := by
  cases d with
  | ofNat n => simp [jump, distance, toString]
  | negSucc n => simp [jump, distance, toString]

theorem firstWord_op_act (ip : Nat) (a : Action) :
    firstWord (op ip (.act a)).toList = ("ACT".toList, a.word.toList) := by
  have htext : (op ip (.act a)).toList
      = "ACT".toList ++ List.replicate 9 ' ' ++ a.word.toList := by
    simp [op, toString, List.replicate]
  rw [htext]
  exact firstWord_append 8 (by simp [Solid]) (by cases a <;> simp [Action.word])

theorem firstWord_op_jump (ip : Nat) (d : Int) :
    firstWord (op ip (.jump d)).toList = ("JUMP".toList, (jump ip d).toList) := by
  have htext : (op ip (.jump d)).toList
      = "JUMP".toList ++ List.replicate 8 ' ' ++ (jump ip d).toList := by
    simp [op, toString, List.replicate]
  rw [htext]
  exact firstWord_append 7 (by simp [Solid]) (head?_jump ip d)

theorem firstWord_op_jumpIfFalse (ip : Nat) (c : Condition) (d : Int) :
    ∃ rest, firstWord (op ip (.jumpIfFalse c d)).toList = ("JUMP_FALSE".toList, rest) ∧
      firstWord rest = (c.word.toList, (jump ip d).toList) := by
  have htext : (op ip (.jumpIfFalse c d)).toList = "JUMP_FALSE".toList ++ List.replicate 2 ' '
      ++ (c.word.toList ++ List.replicate 1 ' ' ++ (jump ip d).toList) := by
    simp [op, toString, List.replicate]
  rw [htext]
  refine ⟨_, firstWord_append 1 (by simp [Solid]) ?_,
    firstWord_append 0 (solid_condition c) (head?_jump ip d)⟩
  rcases c with _ | _ | _ | _ | ⟨_ | _ | _ | _⟩ <;> simp [Condition.word]

/-- An operation is read back without its index. -/
theorem readOp?_op (ip : Nat) (o : Op) : readOp? (op ip o).toList = some o := by
  cases o with
  | act a =>
      rw [readOp?, firstWord_op_act]
      simp [readAction?_word]
  | jumpIfFalse c d =>
      obtain ⟨rest, hkeyword, hcondition⟩ := firstWord_op_jumpIfFalse ip c d
      obtain ⟨_, hdistance⟩ := firstWord_jump ip d
      rw [readOp?, hkeyword]
      simp [hcondition, hdistance, readCondition?_word, readDistance?_distance]
  | jump d =>
      obtain ⟨_, hdistance⟩ := firstWord_jump ip d
      rw [readOp?, firstWord_op_jump]
      simp [hdistance, readDistance?_distance]

/-! ### Rows are read back -/

theorem head?_op (ip : Nat) (o : Op) :
    ∀ c ∈ (op ip o).toList.head?, c.isDigit = false ∧ c ≠ ' ' := by
  cases o with
  | act a => simp [op, toString]
  | jumpIfFalse c d => simp [op, toString]
  | jump d => simp [op, toString]

/-- The digits of a line are told from what stands behind them, with blanks between or without. -/
theorem lineColumn_append (n : Nat) {rest : List Char}
    (hrest : ∀ c ∈ rest.head?, c.isDigit = false ∧ c ≠ ' ') :
    readDigits? (((lineColumn n).toList ++ rest).takeWhile Char.isDigit) = some n ∧
      (((lineColumn n).toList ++ rest).dropWhile Char.isDigit).dropWhile (· = ' ') = rest := by
  have hdigits : ∀ c ∈ Nat.toDigits 10 n, c.isDigit = true := fun c hc =>
    Nat.isDigit_of_mem_toDigits (by decide) (by decide) hc
  have hpadded : Nat.toDigits 10 n = (padded 0 n).toList := by
    simp [padded, List.leftpad]
  have hblank : ∀ k, ∀ c ∈ List.replicate k ' ', decide (c = ' ') = true :=
    fun k c hc => by simpa using List.eq_of_mem_replicate hc
  -- behind four digits or more no blank follows, and it is the keyword that ends them
  have hend : ∀ k, ∀ c ∈ (List.replicate k ' ' ++ rest).head?, c.isDigit = false := by
    intro k
    cases k with
    | zero => exact fun c hc => (hrest c hc).1
    | succ k => simp [List.replicate_succ]
  rw [lineColumn, String.toList_ofList, List.rightpad, List.append_assoc,
    takeWhile_append_of_head? hdigits (hend _), dropWhile_append_of_head? hdigits (hend _),
    dropWhile_append_of_head? (hblank _) fun c hc => by simpa using (hrest c hc).2, hpadded]
  exact ⟨readDigits?_padded 0 n, rfl⟩

namespace Row

/-- The instruction that a row lists. -/
def instruction? : Row → Option Instruction
  | instruction _ _ i => some i
  | _ => none

/-- The letter in front of the line stands nowhere before. -/
theorem forall_mem_number_ne (n : Nat) (sign : Char) (hsign : sign ≠ 'L') :
    ∀ c ∈ (padded 4 n).toList ++ [' ', sign, ' '], decide (c ≠ 'L') = true := by
  refine List.forall_mem_append.2 ⟨fun c hc => ?_, by simp [hsign]⟩
  simpa using ne_of_isDigit (isDigit_of_mem_padded hc) (d := 'L') (by decide)

/-- What is read from a row is the instruction that it lists. -/
theorem readInstruction?_line (row : Row) : readInstruction? row.line = row.instruction? := by
  cases row with
  | rule =>
      rw [line_eq text_rule]
      rfl
  | instruction marked ip i =>
      have hsplit : front marked ip i.line ++ (op ip i.op).toList
          = ((padded 4 ip).toList ++ [' ', if marked then '►' else ' ', ' '])
            ++ 'L' :: ((lineColumn i.line).toList ++ (op ip i.op).toList) := by
        simp [front]
      obtain ⟨hline, hop⟩ := lineColumn_append i.line (head?_op ip i.op)
      rw [line_eq (text_instruction marked ip i), hsplit, readInstruction?,
        dropWhile_append_of_head? (forall_mem_number_ne ip _ (by split <;> decide)) (by simp)]
      simp [hline, hop, readOp?_op, instruction?]
  | ending size =>
      have hsplit : (padded 4 size).toList ++ ' ' :: '►' :: [' ', 'E', 'N', 'D']
          = ((padded 4 size).toList ++ [' ', '►', ' ']) ++ ['E', 'N', 'D'] := by
        simp
      rw [line_eq (text_ending size), hsplit, readInstruction?,
        List.dropWhile_append_of_pos (forall_mem_number_ne size _ (by decide))]
      rfl

end Row

end Listing

namespace Code

open Listing (Row)

/-- The instructions in the listing of some code are this code. -/
theorem instructions_listing (code : Code) : Listing.instructions code.listing = code := by
  have hending : (if code ≠ [] ∧ code.JumpsTo code.length
      then (Row.instruction? (.ending code.length)).toList else []) = [] := by
    split <;> rfl
  rw [Listing.instructions, listing,
    Listing.filterMap_splitOn_join_text Row.readInstruction?_line rfl code.rows,
    code.filterMap_rows Row.instruction? rfl fun _ _ _ => rfl, hending, List.append_nil,
    List.mapIdx_eq_zipIdx_map]
  exact List.zipIdx_map_fst 0 code

/-- **Nothing is lost in a listing.**  Two pieces of code with the same listing are equal: they have
the same instructions in the same order, with the same lines, actions, conditions and distances,
however large. -/
theorem listing_inj (code other : Code) : code.listing = other.listing ↔ code = other := by
  constructor
  · intro h
    rw [← instructions_listing code, h, instructions_listing]
  · rintro rfl
    rfl

end Code

end GridRobot
