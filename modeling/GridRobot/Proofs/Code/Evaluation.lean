import GridRobot.Program.Macros
import GridRobot.Robot

/-!
# Evaluation of programs

What a program means is said on its blocks, without any code.  Blocks are evaluated
one after the other.  An action is attempted; a choice asks its condition once and
evaluates one of its branches; a loop evaluates its body as often as it says; a call
evaluates the body of its macro.  Nothing more is evaluated after an action that is
refused.

Macros may call each other without end, and a name may have no body.  There is no
evaluation in these cases, and there is never more than one.

**Results.**
* `Macros.Evaluates.append`: lists of blocks are evaluated one after the other.
* `Macros.Evaluates.unique`, `Program.Evaluates.unique`: blocks have one evaluation at
  most.
-/

namespace GridRobot

/-- How far an evaluation has come: the scene it has reached, the actions it has attempted
with their lines, and the line and the cause when the last one was refused. -/
structure Evaluation where
  scene : Scene
  attempts : List (Nat × Action)
  refusal : Option (Nat × ActionError)
  deriving DecidableEq, Repr

namespace Evaluation

/-- Nothing is attempted yet. -/
def start (s : Scene) : Evaluation :=
  ⟨s, [], none⟩

/-- One more action; refused, it leaves the scene as it is. -/
def attempt (e : Evaluation) (line : Nat) (a : Action) : Evaluation :=
  match e.scene.perform a with
  | .ok s => ⟨s, e.attempts ++ [(line, a)], none⟩
  | .error cause => ⟨e.scene, e.attempts ++ [(line, a)], some (line, cause)⟩

end Evaluation

/-- The evaluation of blocks, all of whose actions have the same line, leads from one state
to another. -/
inductive Macros.Evaluates (m : Macros) (line : Nat) :
    List Block → Evaluation → Evaluation → Prop
  | nil {e : Evaluation} : Evaluates m line [] e e
  | refused {bs : List Block} {e : Evaluation} (he : e.refusal ≠ none) :
      Evaluates m line bs e e
  | act {a : Action} {bs : List Block} {e last : Evaluation}
      (he : e.refusal = none)
      (hrest : Evaluates m line bs (e.attempt line a) last) :
      Evaluates m line (.act a :: bs) e last
  | choose {c : Condition} {yes no bs : List Block} {e next last : Evaluation}
      (he : e.refusal = none)
      (hbranch : Evaluates m line (if e.scene.holds c then yes else no) e next)
      (hrest : Evaluates m line bs next last) :
      Evaluates m line (.choose c yes no :: bs) e last
  | times {n : UInt32} {body bs : List Block} {e next last : Evaluation}
      (he : e.refusal = none)
      (hbody : Evaluates m line (List.replicate n.toNat body).flatten e next)
      (hrest : Evaluates m line bs next last) :
      Evaluates m line (.times n body :: bs) e last
  | call {name : String} {body bs : List Block} {e next last : Evaluation}
      (he : e.refusal = none)
      (hname : m.body? name = some body)
      (hbody : Evaluates m line body e next)
      (hrest : Evaluates m line bs next last) :
      Evaluates m line (.call name :: bs) e last

namespace Macros.Evaluates

variable {m : Macros} {line : Nat} {bs xs ys : List Block} {e next last : Evaluation}

theorem eq_of_refused (h : m.Evaluates line bs e last) (he : e.refusal ≠ none) : last = e := by
  cases h with
  | nil =>
      rfl
  | refused _ =>
      rfl
  | act hthrough _ =>
      exact absurd hthrough he
  | choose hthrough _ _ =>
      exact absurd hthrough he
  | times hthrough _ _ =>
      exact absurd hthrough he
  | call hthrough _ _ _ =>
      exact absurd hthrough he

theorem append (hxs : m.Evaluates line xs e next) (hys : m.Evaluates line ys next last) :
    m.Evaluates line (xs ++ ys) e last := by
  induction hxs with
  | nil =>
      exact hys
  | refused he =>
      rw [hys.eq_of_refused he]
      exact .refused he
  | act he _ ih =>
      exact .act he (ih hys)
  | choose he hbranch _ _ ih =>
      exact .choose he hbranch (ih hys)
  | times he hbody _ _ ih =>
      exact .times he hbody (ih hys)
  | call he hname hbody _ _ ih =>
      exact .call he hname hbody (ih hys)

/-- Blocks have one evaluation at most. -/
theorem unique (h : m.Evaluates line bs e last) (h' : m.Evaluates line bs e next) :
    next = last := by
  induction h generalizing next with
  | nil =>
      cases h' <;> rfl
  | refused he =>
      exact h'.eq_of_refused he
  | act he _ ih =>
      cases h' with
      | refused he' =>
          exact absurd he he'
      | act _ hrest' =>
          exact ih hrest'
  | choose he _ _ ihbranch ih =>
      cases h' with
      | refused he' =>
          exact absurd he he'
      | choose _ hbranch' hrest' =>
          rw [ihbranch hbranch'] at hrest'
          exact ih hrest'
  | times he _ _ ihbody ih =>
      cases h' with
      | refused he' =>
          exact absurd he he'
      | times _ hbody' hrest' =>
          rw [ihbody hbody'] at hrest'
          exact ih hrest'
  | call he hname _ _ ihbody ih =>
      cases h' with
      | refused he' =>
          exact absurd he he'
      | call _ hname' hbody' hrest' =>
          rw [hname] at hname'
          cases hname'
          rw [ihbody hbody'] at hrest'
          exact ih hrest'

end Macros.Evaluates

/-- The evaluation of the blocks of a program from a line on leads from one state to
another. -/
inductive Program.EvaluatesFrom (m : Macros) : Nat → Program → Evaluation → Evaluation → Prop
  | nil {line : Nat} {e : Evaluation} : EvaluatesFrom m line [] e e
  | refused {line : Nat} {p : Program} {e : Evaluation} (he : e.refusal ≠ none) :
      EvaluatesFrom m line p e e
  | cons {line : Nat} {b : Block} {bs : Program} {e next last : Evaluation}
      (he : e.refusal = none)
      (hfirst : m.Evaluates line [b] e next)
      (hrest : EvaluatesFrom m (line + 1) bs next last) :
      EvaluatesFrom m line (b :: bs) e last

namespace Program

/-- A program is evaluated in a scene, with a result. -/
def Evaluates (p : Program) (m : Macros) (s : Scene) (e : Evaluation) : Prop :=
  EvaluatesFrom m 0 p (.start s) e

theorem EvaluatesFrom.unique {m : Macros} {line : Nat} {p : Program} {e next last : Evaluation}
    (h : EvaluatesFrom m line p e last) (h' : EvaluatesFrom m line p e next) : next = last := by
  induction h generalizing next with
  | nil =>
      cases h' <;> rfl
  | refused he =>
      cases h' with
      | nil =>
          rfl
      | refused _ =>
          rfl
      | cons he' _ _ =>
          exact absurd he' he
  | cons he hfirst _ ih =>
      cases h' with
      | refused he' =>
          exact absurd he he'
      | cons _ hfirst' hrest' =>
          rw [hfirst.unique hfirst'] at hrest'
          exact ih hrest'

theorem Evaluates.unique {p : Program} {m : Macros} {s : Scene} {e e' : Evaluation}
    (h : p.Evaluates m s e) (h' : p.Evaluates m s e') : e' = e :=
  EvaluatesFrom.unique h h'

end Program

end GridRobot
