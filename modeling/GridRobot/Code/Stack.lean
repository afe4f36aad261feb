import GridRobot.Code.Lowering

/-!
# Lowering on one stack

**Input.**  Blocks, a table of macros, a stack of names, and how many bodies of macros may be
entered one inside the other.

**Algorithm.**  The same as `Macros.lowerAll`, but the names of the macros that are being replaced
are not handed down: they lie on one stack, on which all calls work.  The name of a macro is put on
the stack before its body is lowered, and taken off when the body comes back, be it with code or
with an error.  Every list of blocks that is entered leaves the stack of this moment behind.

The bodies of macros may call each other in a circle, so nothing in the blocks and the table bounds
the depth at once.  A lowering that comes to a body below the depth that is admitted gives up, which
is neither code nor an error.

**Results.**
* `Lowering.run_pure`, `Lowering.run_throw`, `Lowering.run_bind`: how lowerings are put together.
* `Lowering.run_entering`, `Lowering.run_pushing`: what is done around the blocks of a list and
  around the body of a macro.
* `Macros.run_replace_of_mem`, `Macros.run_replace_of_undefined`, `Macros.run_replace_of_body`: the
  outcomes of a call.
-/

namespace GridRobot

/-- What is written while blocks are lowered: the names of the macros that are being replaced, the
outermost first, and the stacks with which lists of blocks were entered, the latest first. -/
structure Worksheet where
  stack : List String
  entered : List (List String)
  deriving DecidableEq, Repr

/-- A lowering works on a worksheet and ends with a value or an error, or it gives up. -/
abbrev Lowering := ExceptT CompileError (StateT Worksheet Option)

namespace Lowering

variable {α β : Type}

/-- How a lowering ends that begins with a worksheet. -/
def run (act : Lowering α) (w : Worksheet) : Option (Except CompileError α × Worksheet) :=
  StateT.run (ExceptT.run act) w

/-- The lowering that gives up. -/
def giveUp : Lowering α :=
  ExceptT.lift (StateT.lift none)

/-- Leave the stack of this moment behind, and go on with a lowering. -/
def entering (act : Lowering α) : Lowering α := do
  modify fun w => { w with entered := w.stack :: w.entered }
  act

/-- Put a name on the stack for the time of a lowering.  Its result is not passed on before the
name is taken off again, and it may be an error. -/
def pushing (name : String) (act : Lowering α) : Lowering α := (do
  modify fun w => { w with stack := w.stack ++ [name] }
  let result ← ExceptT.run act
  modify fun w => { w with stack := w.stack.dropLast }
  return result : StateT Worksheet Option (Except CompileError α))

theorem run_pure (a : α) (w : Worksheet) : run (pure a) w = some (.ok a, w) := rfl

theorem run_throw (e : CompileError) (w : Worksheet) :
    run (throw e : Lowering α) w = some (.error e, w) := rfl

theorem run_bind (act : Lowering α) (next : α → Lowering β) (w : Worksheet) :
    run (act >>= next) w = (run act w).bind fun
      | (.ok a, w) => run (next a) w
      | (.error e, w) => some (.error e, w) := by
  simp only [run, ExceptT.run_bind, StateT.run_bind]
  refine congrArg (Option.bind _) (funext fun (result, w) => ?_)
  cases result <;> rfl

theorem run_get_bind (next : Worksheet → Lowering α) (w : Worksheet) :
    run (get >>= next) w = run (next w) w := rfl

theorem run_entering (act : Lowering α) (w : Worksheet) :
    run (entering act) w = run act ⟨w.stack, w.stack :: w.entered⟩ := by
  rw [entering, run_bind]
  rfl

theorem run_pushing (name : String) (act : Lowering α) (w : Worksheet) :
    run (pushing name act) w
      = (run act ⟨w.stack ++ [name], w.entered⟩).map fun (result, w) =>
          (result, ⟨w.stack.dropLast, w.entered⟩) := by
  rw [Option.map_eq_bind]
  rfl

end Lowering

namespace Block

section Lower

variable (replace : String → Lowering Code) (line : Nat)

mutual

/-- The code of a block on one stack; `replace` gives the code of a macro. -/
def lowerOn : Block → Lowering Code
  | act a => return [⟨line, .act a⟩]
  | choose c yes no => do
      let yes ← .entering (lowerAllOn 0 yes)
      let no ← .entering (lowerAllOn 0 no)
      return Code.choice line c yes no
  | times n body => do
      let body ← .entering (lowerAllOn 0 body)
      if body.length * n.toNat ≤ maxInstructions then
        return Code.repeated n.toNat body
      else
        throw (.tooManyInstructions line)
  | call name => replace name

/-- The code of a list of blocks that follows `used` instructions of the same list. -/
def lowerAllOn (used : Nat) : List Block → Lowering Code
  | [] => return []
  | b :: bs => do
      let first ← lowerOn b
      if used + first.length ≤ maxInstructions then
        let rest ← lowerAllOn (used + first.length) bs
        return first ++ rest
      else
        throw (.tooManyInstructions line)

end

end Lower

end Block

namespace Macros

/-- The code that a call of `name` stands for, with at most `depth` bodies one inside the other. -/
def replace (m : Macros) (line depth : Nat) (name : String) : Lowering Code := do
  let w ← get
  if name ∈ w.stack then
    throw (.macroCycle (w.stack.dropWhile (· ≠ name) ++ [name]))
  else
    match m.body? name with
    | none => throw (.unknownMacro name line)
    | some body =>
        match depth with
        | 0 => .giveUp
        | depth + 1 =>
            .pushing name (.entering (Block.lowerAllOn (replace m line depth) line 0 body))

/-- The code of a list of blocks, with at most `depth` bodies one inside the other. -/
def enter (m : Macros) (line depth : Nat) (bs : List Block) : Lowering Code :=
  .entering (Block.lowerAllOn (m.replace line depth) line 0 bs)

variable (m : Macros) (line : Nat) {depth : Nat} {name : String} {w : Worksheet}

theorem run_replace_of_mem (h : name ∈ w.stack) :
    (m.replace line depth name).run w
      = some (.error (.macroCycle (w.stack.dropWhile (· ≠ name) ++ [name])), w) := by
  rw [replace.eq_def, Lowering.run_get_bind, if_pos h]
  exact Lowering.run_throw _ w

theorem run_replace_of_undefined (h : name ∉ w.stack) (hbody : m.body? name = none) :
    (m.replace line depth name).run w = some (.error (.unknownMacro name line), w) := by
  rw [replace.eq_def, Lowering.run_get_bind, if_neg h, hbody]
  exact Lowering.run_throw _ w

theorem run_replace_of_body {body : List Block} (h : name ∉ w.stack)
    (hbody : m.body? name = some body) :
    (m.replace line (depth + 1) name).run w
      = (Lowering.pushing name (m.enter line depth body)).run w := by
  rw [replace.eq_def, Lowering.run_get_bind, if_neg h, hbody]
  rfl

end Macros

end GridRobot
