import Mathlib
import GridRobot.Code.Listing
import GridRobot.Proofs.Code.Forward
import GridRobot.Proofs.Text.Lines

/-!
# Listings are read back

A listing is a text, and what it tells is read off the text alone: it is cut into rows at the ends
of the lines, and a row tells its number in front of the first blank, whether it carries the mark
behind this blank, and the target that is printed behind an arrow.  A rule has no number and is
passed over.

**Results.**
* `Listing.splitOn_join_text`: the text falls into its rows again.
* `Listing.Row.readout?_line`: what is read off a row is what the row was made of.
* `Code.rows_eq`: which rows there are, which carry a mark, and where rules stand.
* `Code.readouts_listing`: what is read off the listing of some code.
-/

namespace GridRobot

namespace Listing

open Text (takeWhile_append_of_head? dropWhile_append_of_head?)

/-! ### Reading numbers -/

/-- The number that digits spell, zeros in front of it included. -/
def readDigits? (ds : List Char) : Option Nat :=
  if ds ≠ [] ∧ ∀ c ∈ ds, c.isDigit = true then some (Nat.ofDigitChars 10 ds 0) else none

/-- The number that digits spell behind a minus sign, or without one. -/
def readIndex? : List Char → Option Int
  | '-' :: ds => (readDigits? ds).map fun n => -(n : Int)
  | ds => (readDigits? ds).map fun n => (n : Int)

theorem ne_of_isDigit {c d : Char} (hc : c.isDigit = true) (hd : d.isDigit = false) : c ≠ d := by
  rintro rfl
  rw [hc] at hd
  cases hd

theorem isDigit_of_mem_padded {width n : Nat} {c : Char} (hc : c ∈ (padded width n).toList) :
    c.isDigit = true := by
  rw [padded, String.toList_ofList, List.leftpad, List.mem_append] at hc
  rcases hc with hzero | hdigit
  · rw [List.eq_of_mem_replicate hzero]
    rfl
  · exact Nat.isDigit_of_mem_toDigits (by decide) (by decide) hdigit

theorem sign_or_isDigit_of_mem_index {t : Int} {c : Char} (hc : c ∈ (index t).toList) :
    c = '-' ∨ c.isDigit = true := by
  cases t with
  | ofNat n =>
      exact .inr (isDigit_of_mem_padded hc)
  | negSucc n =>
      rw [index, String.toList_append, List.mem_append] at hc
      rcases hc with hminus | hdigit
      · exact .inl (by simpa using hminus)
      · exact .inr (isDigit_of_mem_padded hdigit)

theorem ofDigitChars_replicate_zero (k : Nat) (ds : List Char) :
    Nat.ofDigitChars 10 (List.replicate k '0' ++ ds) 0 = Nat.ofDigitChars 10 ds 0 := by
  induction k with
  | zero =>
      rfl
  | succ k ih =>
      rw [List.replicate_succ, List.cons_append, Nat.ofDigitChars_cons]
      exact ih

theorem readDigits?_padded (width n : Nat) : readDigits? (padded width n).toList = some n := by
  have hne : (padded width n).toList ≠ [] := by
    simp [padded, List.leftpad, Nat.toDigits_ne_nil]
  rw [readDigits?, if_pos ⟨hne, fun c hc => isDigit_of_mem_padded hc⟩, padded,
    String.toList_ofList, List.leftpad, ofDigitChars_replicate_zero, Nat.ofDigitChars_ten_toDigits]

theorem readIndex?_index (t : Int) : readIndex? (index t).toList = some t := by
  cases t with
  | ofNat n =>
      have hread := readDigits?_padded 4 n
      have hdigits := @isDigit_of_mem_padded 4 n
      rw [index]
      unfold readIndex?
      split
      · rename_i ds heq
        exact absurd rfl (ne_of_isDigit (hdigits (heq ▸ List.mem_cons_self)) (by decide))
      · rw [hread]
        rfl
  | negSucc n =>
      simp [index, readIndex?, readDigits?_padded, Int.negSucc_eq]

/-! ### Reading rows -/

/-- What a row tells: its number, whether it carries the mark, and the target of its jump. -/
structure Readout where
  number : Nat
  marked : Bool
  target? : Option Int
  deriving DecidableEq, Repr

/-- The target that is printed in a row, behind the arrow and in front of the bracket. -/
def printedTarget? (row : List Char) : Option Int :=
  match row.dropWhile (· ≠ '→') with
  | '→' :: ' ' :: rest => readIndex? (rest.takeWhile (· ≠ ')'))
  | _ => none

/-- What is read off a row.  The number ends at the first blank, and the mark stands behind it. -/
def readout? (row : List Char) : Option Readout :=
  (readDigits? (row.takeWhile (· ≠ ' '))).map fun n =>
    ⟨n, (row.dropWhile (· ≠ ' '))[1]? = some '►', printedTarget? row⟩

/-- What is read off the rows of a text, one after the other. -/
def readouts (text : String) : List Readout :=
  (text.toList.splitOn '\n').filterMap readout?

namespace Row

/-- The characters of a row, without the end of the line. -/
def line (row : Row) : List Char :=
  row.text.toList.dropLast

/-- What a row should tell. -/
def readout? : Row → Option Readout
  | rule => none
  | instruction marked ip i => some ⟨ip, marked, i.target? ip⟩
  | ending size => some ⟨size, true, none⟩

end Row

/-- Characters without an end of the line and without an arrow in front of a target. -/
def Plain (cs : List Char) : Prop :=
  ∀ c ∈ cs, c ≠ '\n' ∧ c ≠ '→'

theorem Plain.append {as bs : List Char} (has : Plain as) (hbs : Plain bs) : Plain (as ++ bs) := by
  intro c hc
  rcases List.mem_append.1 hc with hc | hc
  · exact has c hc
  · exact hbs c hc

theorem plain_of_isDigit {cs : List Char} (h : ∀ c ∈ cs, c.isDigit = true) : Plain cs := by
  intro c hc
  exact ⟨ne_of_isDigit (h c hc) (by decide), ne_of_isDigit (h c hc) (by decide)⟩

theorem plain_padded (width n : Nat) : Plain (padded width n).toList :=
  plain_of_isDigit fun _ hc => isDigit_of_mem_padded hc

theorem plain_distance (d : Int) : Plain (distance d).toList := by
  cases d with
  | ofNat n =>
      rw [distance, String.toList_append]
      exact .append (by simp [Plain]) (plain_padded 0 n)
  | negSucc n =>
      rw [distance, String.toList_append]
      exact .append (by simp [Plain]) (plain_padded 0 (n + 1))

theorem plain_lineColumn (n : Nat) : Plain (lineColumn n).toList := by
  rw [lineColumn, String.toList_ofList, List.rightpad]
  refine .append (plain_of_isDigit fun c hc => ?_) fun c hc => ?_
  · exact Nat.isDigit_of_mem_toDigits (by decide) (by decide) hc
  · rw [List.eq_of_mem_replicate hc]
    decide

theorem plain_action (a : Action) : Plain a.word.toList := by
  cases a <;> simp [Action.word, Plain]

theorem plain_condition (c : Condition) : Plain c.word.toList := by
  rcases c with _ | _ | _ | _ | ⟨_ | _ | _ | _⟩ <;> simp [Condition.word, Plain]

/-- Characters that end with the target `t`, behind the only arrow among them. -/
def TellsTarget (t : Int) (cs : List Char) : Prop :=
  ∃ before, Plain before ∧ cs = before ++ '→' :: ' ' :: ((index t).toList ++ [')'])

theorem Plain.append_tellsTarget {as cs : List Char} {t : Int} (has : Plain as)
    (h : TellsTarget t cs) : TellsTarget t (as ++ cs) := by
  obtain ⟨before, hbefore, rfl⟩ := h
  exact ⟨as ++ before, has.append hbefore, (List.append_assoc ..).symm⟩

theorem tellsTarget_jump (ip : Nat) (d : Int) : TellsTarget (ip + d) (jump ip d).toList := by
  by_cases hd : d < 0
  · refine ⟨(distance d).toList ++ [' ', '↑', ' ', '('], ?_, ?_⟩
    · exact (plain_distance d).append (by simp [Plain])
    · simp [jump, toString, hd]
  · refine ⟨(distance d).toList ++ [' ', '↓', ' ', '('], ?_, ?_⟩
    · exact (plain_distance d).append (by simp [Plain])
    · simp [jump, toString, hd]

/-- An operation without a target has no arrow, and one with a target tells it. -/
theorem op_cases (ip : Nat) (i : Instruction) :
    (i.target? ip = none ∧ Plain (op ip i.op).toList) ∨
      ∃ t, i.target? ip = some t ∧ TellsTarget t (op ip i.op).toList := by
  obtain ⟨line, o⟩ := i
  cases o with
  | act a =>
      refine .inl ⟨rfl, ?_⟩
      have hword : (op ip (.act a)).toList = "ACT         ".toList ++ a.word.toList := by
        simp [op, toString]
      rw [hword]
      exact .append (by simp [Plain]) (plain_action a)
  | jumpIfFalse c d =>
      refine .inr ⟨ip + d, rfl, ?_⟩
      have hword : (op ip (.jumpIfFalse c d)).toList
          = ("JUMP_FALSE  ".toList ++ c.word.toList ++ [' ']) ++ (jump ip d).toList := by
        simp [op, toString]
      rw [hword]
      refine Plain.append_tellsTarget ?_ (tellsTarget_jump ip d)
      exact .append (.append (by simp [Plain]) (plain_condition c)) (by simp [Plain])
  | jump d =>
      refine .inr ⟨ip + d, rfl, ?_⟩
      have hword : (op ip (.jump d)).toList = "JUMP        ".toList ++ (jump ip d).toList := by
        simp [op, toString]
      rw [hword]
      exact Plain.append_tellsTarget (by simp [Plain]) (tellsTarget_jump ip d)

theorem printedTarget?_of_plain {row : List Char} (h : Plain row) : printedTarget? row = none := by
  have hdrop : row.dropWhile (· ≠ '→') = [] := by
    rw [List.dropWhile_eq_nil_iff]
    intro c hc
    simpa using (h c hc).2
  rw [printedTarget?, hdrop]

theorem printedTarget?_of_tellsTarget {row : List Char} {t : Int} (h : TellsTarget t row) :
    printedTarget? row = some t := by
  obtain ⟨before, hbefore, rfl⟩ := h
  have hdrop : (before ++ '→' :: ' ' :: ((index t).toList ++ [')'])).dropWhile (· ≠ '→')
      = '→' :: ' ' :: ((index t).toList ++ [')']) := by
    exact dropWhile_append_of_head? (fun c hc => by simpa using (hbefore c hc).2) (by simp)
  have htake : ((index t).toList ++ [')']).takeWhile (· ≠ ')') = (index t).toList := by
    refine takeWhile_append_of_head? (fun c hc => ?_) (by simp)
    rcases sign_or_isDigit_of_mem_index hc with rfl | hdigit
    · rfl
    · simpa using ne_of_isDigit hdigit (d := ')') (by decide)
  rw [printedTarget?, hdrop]
  simp only
  rw [htake, readIndex?_index]

theorem TellsTarget.not_mem_newline {t : Int} {cs : List Char} (h : TellsTarget t cs) :
    '\n' ∉ cs := by
  obtain ⟨before, hbefore, rfl⟩ := h
  have hfirst : '\n' ∉ before := fun hc => (hbefore _ hc).1 rfl
  have hindex : '\n' ∉ (index t).toList := fun hc => by
    rcases sign_or_isDigit_of_mem_index hc with heq | hdigit
    · exact absurd heq (by decide)
    · exact absurd rfl (ne_of_isDigit hdigit (by decide))
  simp [hfirst, hindex]

/-- A number, a blank, and a sign behind it are read off the front of a row. -/
theorem readout?_append (width n : Nat) (sign : Char) (rest : List Char) :
    readout? ((padded width n).toList ++ ' ' :: sign :: rest)
      = some ⟨n, sign = '►', printedTarget? ((padded width n).toList ++ ' ' :: sign :: rest)⟩ := by
  have hblank : ∀ c ∈ (padded width n).toList, decide (c ≠ ' ') = true := by
    intro c hc
    simpa using ne_of_isDigit (isDigit_of_mem_padded hc) (d := ' ') (by decide)
  have htake : ((padded width n).toList ++ ' ' :: sign :: rest).takeWhile (· ≠ ' ')
      = (padded width n).toList :=
    takeWhile_append_of_head? hblank (by simp)
  have hdrop : ((padded width n).toList ++ ' ' :: sign :: rest).dropWhile (· ≠ ' ')
      = ' ' :: sign :: rest :=
    dropWhile_append_of_head? hblank (by simp)
  rw [readout?, htake, hdrop, readDigits?_padded]
  simp

namespace Row

/-- What stands in front of the operation: the number, a blank, the mark, and the line. -/
def front (marked : Bool) (ip line : Nat) : List Char :=
  (padded 4 ip).toList ++ ' ' :: (if marked then '►' else ' ') ::
    ' ' :: 'L' :: (lineColumn line).toList

/-- The target of the jump in a row. -/
def target? : Row → Option Int
  | instruction _ ip i => i.target? ip
  | _ => none

theorem text_rule :
    rule.text.toList = (List.replicate 6 ' ' ++ '┌' :: List.replicate 34 '─') ++ ['\n'] := by
  simp [text, List.replicate]

theorem text_instruction (marked : Bool) (ip : Nat) (i : Instruction) :
    (instruction marked ip i).text.toList
      = (front marked ip i.line ++ (op ip i.op).toList) ++ ['\n'] := by
  cases marked <;> simp [text, front, index, toString]

theorem text_ending (size : Nat) :
    (ending size).text.toList
      = ((padded 4 size).toList ++ ' ' :: '►' :: [' ', 'E', 'N', 'D']) ++ ['\n'] := by
  simp [text, index, toString]

theorem line_eq {row : Row} {cs : List Char} (h : row.text.toList = cs ++ ['\n']) :
    row.line = cs := by
  rw [line, h, List.dropLast_concat]

theorem text_eq_line (row : Row) : row.text.toList = row.line ++ ['\n'] := by
  cases row with
  | rule => rw [line_eq text_rule, text_rule]
  | instruction marked ip i => rw [line_eq (text_instruction marked ip i), text_instruction]
  | ending size => rw [line_eq (text_ending size), text_ending]

theorem plain_front (marked : Bool) (ip line : Nat) : Plain (front marked ip line) := by
  have hsign : Plain [' ', if marked then '►' else ' ', ' ', 'L'] := by
    cases marked <;> simp [Plain]
  exact (plain_padded 4 ip).append (hsign.append (plain_lineColumn line))

/-- A row without a target has no arrow, and one with a target tells it. -/
theorem line_cases (row : Row) :
    (row.target? = none ∧ Plain row.line) ∨
      ∃ t, row.target? = some t ∧ TellsTarget t row.line := by
  cases row with
  | rule =>
      refine .inl ⟨rfl, ?_⟩
      rw [line_eq text_rule]
      simp [Plain]
  | instruction marked ip i =>
      have hfront := plain_front marked ip i.line
      rw [line_eq (text_instruction marked ip i)]
      rcases op_cases ip i with ⟨hnone, hplain⟩ | ⟨t, hsome, htells⟩
      · exact .inl ⟨hnone, hfront.append hplain⟩
      · exact .inr ⟨t, hsome, hfront.append_tellsTarget htells⟩
  | ending size =>
      refine .inl ⟨rfl, ?_⟩
      rw [line_eq (text_ending size)]
      exact (plain_padded 4 size).append (by simp [Plain])

/-- Every row is one line. -/
theorem not_mem_newline (row : Row) : '\n' ∉ row.line := by
  rcases row.line_cases with ⟨_, hplain⟩ | ⟨t, _, htells⟩
  · exact fun hc => (hplain _ hc).1 rfl
  · exact htells.not_mem_newline

theorem printedTarget?_line (row : Row) : printedTarget? row.line = row.target? := by
  rcases row.line_cases with ⟨hnone, hplain⟩ | ⟨t, hsome, htells⟩
  · rw [hnone, printedTarget?_of_plain hplain]
  · rw [hsome, printedTarget?_of_tellsTarget htells]

/-- What is read off a row is what the row was made of. -/
theorem readout?_line (row : Row) : Listing.readout? row.line = row.readout? := by
  have htarget := row.printedTarget?_line
  cases row with
  | rule =>
      rw [line_eq text_rule]
      rfl
  | instruction marked ip i =>
      rw [line_eq (text_instruction marked ip i), front, List.append_assoc] at htarget ⊢
      rw [List.cons_append, List.cons_append] at htarget ⊢
      rw [readout?_append, htarget]
      cases marked <;> rfl
  | ending size =>
      rw [line_eq (text_ending size)] at htarget ⊢
      rw [readout?_append, htarget]
      rfl

end Row

/-- A text that is made of rows falls into them again. -/
theorem splitOn_join_text (rows : List Row) :
    (String.join (rows.map Row.text)).toList.splitOn '\n' = rows.map Row.line ++ [[]] := by
  have hlines : (String.join (rows.map Row.text)).toList
      = (rows.map Row.line).flatMap (· ++ ['\n']) := by
    rw [String.toList_join, List.flatMap_map, List.flatMap_map]
    exact List.flatMap_congr fun row _ => row.text_eq_line
  rw [hlines]
  refine Text.splitOn_flatMap_newline fun line hline => ?_
  obtain ⟨row, _, rfl⟩ := List.mem_map.1 hline
  exact row.not_mem_newline

/-- What is read line by line off a text that is made of rows. -/
theorem filterMap_splitOn_join_text {α : Type} {read : List Char → Option α}
    {told : Row → Option α} (hline : ∀ row : Row, read row.line = told row) (hnil : read [] = none)
    (rows : List Row) :
    ((String.join (rows.map Row.text)).toList.splitOn '\n').filterMap read
      = rows.filterMap told := by
  rw [splitOn_join_text, List.filterMap_append, List.filterMap_map,
    List.filterMap_cons_none hnil, List.filterMap_nil, List.append_nil]
  exact List.filterMap_congr fun row _ => hline row

end Listing

/-! ### The rows of some code -/

namespace Code

open Listing (Row Readout)

/-- Some jump of the code leads to the index. -/
def JumpsTo (code : Code) (n : Nat) : Prop :=
  ∃ (ip : Nat) (i : Instruction), code[ip]? = some i ∧ i.target? ip = some (n : Int)

variable {code : Code} {n : Nat}

instance (code : Code) (n : Nat) : Decidable (code.JumpsTo n) :=
  decidable_of_iff ((n : Int) ∈ code.targets) mem_targets_iff

theorem getD_marks_eq_jumpsTo (h : n ≤ code.length) :
    code.marks.getD n false = decide (code.JumpsTo n) := by
  rw [getD_marks code h]
  exact decide_eq_decide.2 mem_targets_iff

/-- The rows of a listing: one for each instruction, in order, marked and with a rule above it if a
jump leads there, and one for the end if a jump leads to it. -/
theorem rows_eq (code : Code) :
    code.rows
      = (code.mapIdx fun ip i =>
          if code.JumpsTo ip then [Row.rule, .instruction true ip i]
          else [.instruction false ip i]).flatten
        ++ if code ≠ [] ∧ code.JumpsTo code.length then [.ending code.length] else [] := by
  have hinstruction : ∀ p ∈ code.zipIdx,
      Listing.rowsAt (code.marks.getD p.2 false) p.2 p.1
        = if code.JumpsTo p.2 then [Row.rule, .instruction true p.2 p.1]
          else [.instruction false p.2 p.1] := by
    intro p hp
    have hle : p.2 ≤ code.length := Nat.le_of_lt (List.snd_lt_of_mem_zipIdx hp)
    simp only [Listing.rowsAt, getD_marks_eq_jumpsTo hle, decide_eq_true_eq]
  rw [rows, getD_marks_eq_jumpsTo (Nat.le_refl _), List.mapIdx_eq_zipIdx_map, ← List.flatMap_def]
  refine congrArg₂ (· ++ ·) (List.flatMap_congr hinstruction) ?_
  simp

/-- What the rows of a listing tell, if every row of an instruction tells something and a rule
nothing. -/
theorem filterMap_rows {α : Type} (code : Code) (told : Row → Option α)
    {tells : Bool → Nat → Instruction → α} (hrule : told .rule = none)
    (hinstruction : ∀ marked ip i, told (.instruction marked ip i) = some (tells marked ip i)) :
    code.rows.filterMap told
      = (code.mapIdx fun ip i => tells (code.JumpsTo ip) ip i)
        ++ if code ≠ [] ∧ code.JumpsTo code.length then (told (.ending code.length)).toList
          else [] := by
  have hrows (ip : Nat) (i : Instruction) :
      (if code.JumpsTo ip then [Row.rule, .instruction true ip i]
        else [.instruction false ip i]).filterMap told = [tells (code.JumpsTo ip) ip i] := by
    by_cases hjump : code.JumpsTo ip <;> simp [hjump, hrule, hinstruction]
  have hending : (if code ≠ [] ∧ code.JumpsTo code.length then [Row.ending code.length]
      else []).filterMap told
      = if code ≠ [] ∧ code.JumpsTo code.length then (told (.ending code.length)).toList
        else [] := by
    split
    · cases hend : told (.ending code.length) <;> simp [hend]
    · rfl
  rw [rows_eq, List.filterMap_append, hending, List.mapIdx_eq_zipIdx_map,
    List.mapIdx_eq_zipIdx_map, List.filterMap_flatten, List.map_map]
  simp only [Function.comp_def, hrows, ← List.flatMap_def, ← List.map_eq_flatMap]

/-- What is read off a listing: the rows of the instructions are numbered in order, a row carries
the mark if a jump leads there, and a jump tells its target. -/
theorem readouts_listing (code : Code) :
    Listing.readouts code.listing
      = (code.mapIdx fun ip i => (⟨ip, code.JumpsTo ip, i.target? ip⟩ : Readout))
        ++ if code ≠ [] ∧ code.JumpsTo code.length then [⟨code.length, true, none⟩] else [] := by
  rw [Listing.readouts, listing,
    Listing.filterMap_splitOn_join_text Row.readout?_line rfl code.rows]
  exact code.filterMap_rows Row.readout? rfl fun _ _ _ => rfl

end Code

end GridRobot
