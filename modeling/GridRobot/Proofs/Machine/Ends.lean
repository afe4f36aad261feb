import GridRobot.Proofs.Machine.Step

/-!
# Runs that end

A run to the end is a loop, and code that jumps back may keep it going.  The
relation `Machine.Ends` says that the loop does end, after how many steps and with
which result.  What a run to the end keeps is shown by induction on this relation
from what a single step keeps.

**Results.**
* `Ends.runToEnd_eq`: a loop that ends has the result that the relation says.
* `Ends.invariant`: what every step keeps, a run to the end keeps.
-/

namespace GridRobot

namespace Machine

/-- The run of the machine to its end takes `n` steps and has a result: the answer, the
machine and the scene. -/
inductive Ends : Machine → Scene → Nat → Except RunError Phase × Machine × Scene → Prop
  | exhausted {m : Machine} {s : Scene} {limit : Nat}
      (hlimit : m.exhausted? = some limit) :
      Ends m s 0 (.error (.stepLimitExceeded limit), m, s)
  | stopped {m m' : Machine} {s t : Scene}
      (hlimit : m.exhausted? = none)
      (hstep : m.step s = (.ok false, m', t)) :
      Ends m s 1 (.ok m'.phase, m', t)
  | failed {m m' : Machine} {s t : Scene} {e : RunError}
      (hlimit : m.exhausted? = none)
      (hstep : m.step s = (.error e, m', t)) :
      Ends m s 1 (.error e, m', t)
  | next {m m' : Machine} {s t : Scene} {n : Nat}
      {result : Except RunError Phase × Machine × Scene}
      (hlimit : m.exhausted? = none)
      (hstep : m.step s = (.ok true, m', t))
      (hrest : Ends m' t n result) :
      Ends m s (n + 1) result

theorem Ends.runToEnd_eq {m : Machine} {s : Scene} {n : Nat}
    {result : Except RunError Phase × Machine × Scene} (h : m.Ends s n result) :
    m.runToEnd s = result := by
  induction h with
  | exhausted hlimit =>
      rw [runToEnd_of_exhausted hlimit]
  | stopped hlimit hstep =>
      rw [runToEnd_of_not_exhausted hlimit, hstep]
  | failed hlimit hstep =>
      rw [runToEnd_of_not_exhausted hlimit, hstep]
  | next hlimit hstep _ ih =>
      rw [runToEnd_of_not_exhausted hlimit, hstep]
      exact ih

/-- What every step of a machine keeps, a run to the end keeps. -/
theorem Ends.invariant {P : Machine → Scene → Prop}
    (hP : ∀ m s, P m s → P (m.step s).2.1 (m.step s).2.2)
    {m : Machine} {s : Scene} {n : Nat} {result : Except RunError Phase × Machine × Scene}
    (h : m.Ends s n result) (hm : P m s) : P result.2.1 result.2.2 := by
  induction h with
  | exhausted _ =>
      exact hm
  | stopped _ hstep =>
      have := hP _ _ hm
      rwa [hstep] at this
  | failed _ hstep =>
      have := hP _ _ hm
      rwa [hstep] at this
  | next _ hstep _ ih =>
      have := hP _ _ hm
      rw [hstep] at this
      exact ih this

end Machine

end GridRobot
