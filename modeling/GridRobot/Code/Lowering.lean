import GridRobot.Code.Instruction
import GridRobot.Program.Macros

/-!
# Lowering programs to code

**Input.**  A program and a table of macros.

**Algorithm.**  A block is lowered after its parts, so every jump distance is
known when the jump is written.  A choice becomes

    jump-if-false (T + 2)   the T instructions of the first branch
    jump (E + 1)            the E instructions of the second branch

A loop is written out: the code of its body, as often as the loop says.  A call
is replaced by the code of the body of its macro.  The names of the macros that
are being replaced are handed down in a list, the outermost first; a name that
is met again is a cycle.

The code of a list of blocks may not exceed `maxInstructions`, and neither may a
loop.  The test is made after every block on the length so far, and for a loop
before its body is copied.

**Results.**
* `expand_of_mem`, `expand_of_undefined`, `expand_of_body`: the three outcomes of
  a call.
* `repeated_eq_flatten`: a loop writes its body out.
* `length_choice`: the length of a choice.
-/

namespace GridRobot

/-- The most instructions that a list of blocks may be lowered to: two to the power of 20. -/
def maxInstructions : Nat := 1048576

/-- Why a program has no code. -/
inductive CompileError
  | unknownMacro (name : String) (line : Nat)
  | macroCycle (chain : List String)
  | tooManyInstructions (line : Nat)
  deriving DecidableEq, Repr

namespace CompileError

/-- The text of an error. -/
def message : CompileError → String
  | unknownMacro name line =>
      s!"compile error: unknown macro '{name}' at line {line}\n"
        ++ "  hint: define the macro before running the program"
  | macroCycle chain =>
      let first := chain.headD ""
      let path := " -> ".intercalate chain
      s!"compile error: macro '{first}' expands into itself ({path})\n"
        ++ "  hint: macros cannot call themselves, directly or through other macros"
  | tooManyInstructions line =>
      s!"compile error: block at line {line} unrolls to more than "
        ++ s!"{maxInstructions} instructions\n  hint: lower the repeat counts"

end CompileError

namespace Code

/-- The code of a choice between two branches. -/
def choice (line : Nat) (c : Condition) (yes no : Code) : Code :=
  ⟨line, .jumpIfFalse c (yes.length + 2)⟩ :: yes ++ ⟨line, .jump (no.length + 1)⟩ :: no

/-- The code of a loop: the body `n` times.  Nothing is copied for an empty body. -/
def repeated (n : Nat) (body : Code) : Code :=
  if body.isEmpty then [] else (List.replicate n body).flatten

theorem repeated_eq_flatten (n : Nat) (body : Code) :
    repeated n body = (List.replicate n body).flatten := by
  cases body with
  | nil => induction n <;> simp [repeated]
  | cons i body => simp [repeated]

@[simp] theorem length_repeated (n : Nat) (body : Code) :
    (repeated n body).length = n * body.length := by
  simp [repeated_eq_flatten]

@[simp] theorem length_choice (line : Nat) (c : Condition) (yes no : Code) :
    (choice line c yes no).length = yes.length + no.length + 2 := by
  simp [choice]
  omega

end Code

namespace Block

section Lower

variable (expand : String → Except CompileError Code) (line : Nat)

mutual

/-- The code of a block, every instruction with the same line; `expand` gives the
code of a macro. -/
def lower : Block → Except CompileError Code
  | act a => .ok [⟨line, .act a⟩]
  | choose c yes no => do
      let yes ← lowerAll 0 yes
      let no ← lowerAll 0 no
      return Code.choice line c yes no
  | times n body => do
      let body ← lowerAll 0 body
      if body.length * n.toNat ≤ maxInstructions then
        return Code.repeated n.toNat body
      else
        throw (.tooManyInstructions line)
  | call name => expand name

/-- The code of a list of blocks that follows `used` instructions of the same list. -/
def lowerAll (used : Nat) : List Block → Except CompileError Code
  | [] => .ok []
  | b :: bs => do
      let first ← lower b
      if used + first.length ≤ maxInstructions then
        let rest ← lowerAll (used + first.length) bs
        return first ++ rest
      else
        throw (.tooManyInstructions line)

end

end Lower

end Block

namespace Macros

/-- The names that are not on the stack. -/
def fresh (m : Macros) (stack : List String) : List String :=
  m.names.filter (· ∉ stack)

theorem length_fresh_lt (m : Macros) {stack : List String} {name : String}
    (hname : name ∈ m.names) (hstack : name ∉ stack) :
    (m.fresh (stack ++ [name])).length < (m.fresh stack).length := by
  unfold fresh
  have hsplit : m.names.filter (· ∉ stack ++ [name])
      = (m.names.filter (· ∉ stack)).filter (· ≠ name) := by
    rw [List.filter_filter]
    congr 1
    funext x
    simp [Bool.and_comm]
  rw [hsplit, List.length_filter_lt_length_iff_exists]
  exact ⟨name, List.mem_filter.2 ⟨hname, by simpa using hstack⟩, by simp⟩

/-- The code that a call of `name` stands for, inside the macros on the stack. -/
def expand (m : Macros) (line : Nat) (stack : List String) (name : String) :
    Except CompileError Code :=
  if _hstack : name ∈ stack then
    .error (.macroCycle (stack.dropWhile (· ≠ name) ++ [name]))
  else
    match _hbody : m.body? name with
    | none => .error (.unknownMacro name line)
    | some body =>
        Block.lowerAll (fun called => expand m line (stack ++ [name]) called) line 0 body
termination_by (m.fresh stack).length
decreasing_by
  exact m.length_fresh_lt ((m.isSome_body? name).1 (by simp [_hbody])) _hstack

/-- The code of a list of blocks inside the macros on the stack. -/
def lowerAll (m : Macros) (line : Nat) (stack : List String) (blocks : List Block) :
    Except CompileError Code :=
  Block.lowerAll (m.expand line stack) line 0 blocks

/-- The code of a macro on its own, for a given line. -/
def compile (m : Macros) (name : String) (line : Nat) : Except CompileError Code :=
  m.expand line [] name

theorem expand_of_mem (m : Macros) (line : Nat) {stack : List String} {name : String}
    (h : name ∈ stack) :
    m.expand line stack name
      = .error (.macroCycle (stack.dropWhile (· ≠ name) ++ [name])) := by
  rw [expand, dif_pos h]

theorem expand_of_undefined (m : Macros) (line : Nat) {stack : List String}
    {name : String} (h : name ∉ stack) (hbody : m.body? name = none) :
    m.expand line stack name = .error (.unknownMacro name line) := by
  rw [expand, dif_neg h]
  split <;> simp_all

theorem expand_of_body (m : Macros) (line : Nat) {stack : List String} {name : String}
    {body : List Block} (h : name ∉ stack) (hbody : m.body? name = some body) :
    m.expand line stack name = m.lowerAll line (stack ++ [name]) body := by
  rw [expand, dif_neg h]
  split <;> simp_all [lowerAll]

end Macros

namespace Program

/-- The code of the blocks from a line on, after `used` instructions. -/
def compileFrom (m : Macros) (line used : Nat) : List Block → Except CompileError Code
  | [] => .ok []
  | b :: bs => do
      let first ← b.lower (m.expand line []) line
      if used + first.length ≤ maxInstructions then
        let rest ← compileFrom m (line + 1) (used + first.length) bs
        return first ++ rest
      else
        throw (.tooManyInstructions line)

/-- The code of a program: that of its blocks in order, each with its own line. -/
def compile (p : Program) (m : Macros) : Except CompileError Code :=
  compileFrom m 0 0 p

end Program

end GridRobot
