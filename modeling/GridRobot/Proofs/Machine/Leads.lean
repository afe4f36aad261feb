import GridRobot.Proofs.Machine.Ends

/-!
# Paths through code

A path goes from one index of some code to another by executing instructions, and
says nothing about logs, phases or limits.  Pieces of code that stand somewhere
inside larger code have paths of their own there, which are put one behind the
other.  A path from the start of the code to its end, or to an action that is
refused, is a run of a machine without a step limit.

**Results.**
* `Code.Leads.trans`: paths are put one behind the other.
* `Run.ends_completed`: a path to the end of the code is a completed run.
* `Run.ends_failed`: a path to a refused action is a failed run.
-/

namespace GridRobot

/-- The action that an event tells of, with its line. -/
def Event.attempt? : Event → Option (Nat × Action)
  | .acted line a _ => some (line, a)
  | .tested .. => none
  | .jumped _ => none

/-- The action that an entry tells of, carried out or refused, with its line. -/
def LogEntry.attempt? : LogEntry → Option (Nat × Action)
  | .went e => e.attempt?
  | .ended e => e.attempt?
  | .nothingToDo => none
  | .stuck line a _ => some (line, a)

/-- The actions that have been attempted, with their lines, the oldest first. -/
def Run.attempts (r : Run) : List (Nat × Action) :=
  r.log.reverse.filterMap LogEntry.attempt?

/-- The actions that have been attempted since the code was loaded. -/
def Machine.attempts (m : Machine) : List (Nat × Action) :=
  (m.current.map Run.attempts).getD []

namespace Code

/-! ### Pieces of code in place -/

/-- A piece of code stands at an index. -/
def At (code : Code) (ip : Nat) (piece : Code) : Prop :=
  piece <+: code.drop ip

variable {code : Code} {ip : Nat}

theorem at_self (code : Code) : code.At 0 code :=
  List.prefix_rfl

theorem At.left {first rest : Code} (h : code.At ip (first ++ rest)) : code.At ip first :=
  (List.prefix_append first rest).trans h

theorem At.right {first rest : Code} (h : code.At ip (first ++ rest)) :
    code.At (ip + first.length) rest := by
  obtain ⟨tail, htail⟩ := h
  have hdrop : code.drop (ip + first.length) = rest ++ tail := by
    rw [← List.drop_drop, ← htail, List.append_assoc, List.drop_left]
  exact ⟨tail, hdrop.symm⟩

theorem At.head {i : Instruction} {rest : Code} (h : code.At ip (i :: rest)) :
    code[ip]? = some i := by
  obtain ⟨tail, htail⟩ := h
  have hget := congrArg (·[0]?) htail
  simpa using hget.symm

theorem At.tail {i : Instruction} {rest : Code} (h : code.At ip (i :: rest)) :
    code.At (ip + 1) rest := by
  have hsplit : code.At ip ([i] ++ rest) := h
  exact hsplit.right

theorem At.end_le {i : Instruction} {rest : Code} (h : code.At ip (i :: rest)) :
    ip + rest.length + 1 ≤ code.length := by
  have hle := List.IsPrefix.length_le h
  rw [List.length_drop, List.length_cons] at hle
  omega

/-! ### Paths -/

/-- Instructions are executed from one index and scene to another, and leave events. -/
inductive Leads (code : Code) : Nat → Scene → List Event → Nat → Scene → Prop
  | here {ip : Nat} {s : Scene} : Leads code ip s [] ip s
  | step {ip next exit : Nat} {s t u : Scene} {i : Instruction} {event : Event}
      {events : List Event}
      (hi : code[ip]? = some i)
      (hx : s.Executes code.length ip i.line i.op (.next next event t))
      (hrest : Leads code next t events exit u) :
      Leads code ip s (event :: events) exit u

theorem Leads.trans {mid exit : Nat} {s t u : Scene} {before after : List Event}
    (hbefore : code.Leads ip s before mid t) (hafter : code.Leads mid t after exit u) :
    code.Leads ip s (before ++ after) exit u := by
  induction hbefore with
  | here =>
      exact hafter
  | step hi hx _ ih =>
      exact .step hi hx (ih hafter)

theorem Leads.one {next : Nat} {s t : Scene} {i : Instruction} {event : Event}
    (hi : code[ip]? = some i)
    (hx : s.Executes code.length ip i.line i.op (.next next event t)) :
    code.Leads ip s [event] next t :=
  .step hi hx .here

/-- A path that is not empty has a last instruction. -/
theorem Leads.last {exit : Nat} {s t : Scene} {events : List Event}
    (h : code.Leads ip s events exit t) :
    (events = [] ∧ ip = exit ∧ s = t) ∨
      ∃ before event mid u i, events = before ++ [event] ∧ code.Leads ip s before mid u ∧
        code[mid]? = some i ∧
        u.Executes code.length mid i.line i.op (.next exit event t) := by
  induction h with
  | here =>
      exact .inl ⟨rfl, rfl, rfl⟩
  | @step ip next exit s t u i event events hi hx hrest ih =>
      right
      rcases ih with ⟨rfl, rfl, rfl⟩ | ⟨before, last, mid, v, j, rfl, hpath, hj, hlast⟩
      · exact ⟨[], event, ip, s, i, rfl, .here, hi, hx⟩
      · exact ⟨event :: before, last, mid, v, j, rfl, .step hi hx hpath, hj, hlast⟩

end Code

/-! ### Paths as runs -/

namespace Run

theorem attempts_cons (code : Array Instruction) (cursor steps : Nat) (entry : LogEntry)
    (log : List LogEntry) :
    attempts ⟨code, cursor, steps, entry :: log⟩ =
      log.reverse.filterMap LogEntry.attempt? ++ entry.attempt?.toList := by
  cases h : entry.attempt? <;> simp [attempts, h]

/-- A run without a step limit follows a path as long as the path stays inside the code. -/
theorem advance {r : Run} {s t : Scene} {ip : Nat} {events : List Event}
    (hpath : Code.Leads r.code.toList r.cursor s events ip t)
    (hphase : r.phase.isFinished = false) (hip : ip < r.code.size) :
    ∃ r', r'.code = r.code ∧ r'.cursor = ip ∧ r'.phase.isFinished = false ∧
      r'.attempts = r.attempts ++ events.filterMap Event.attempt? ∧
      ∀ n result, Machine.Ends ⟨none, some r'⟩ t n result →
        Machine.Ends ⟨none, some r⟩ s (events.length + n) result := by
  generalize hcode : r.code.toList = code at hpath
  generalize hcursor : r.cursor = start at hpath
  induction hpath generalizing r with
  | here =>
      refine ⟨r, rfl, hcursor, hphase, by simp, fun n result hends => ?_⟩
      simpa using hends
  | @step start next ip s t u i event events hi hx hrest ih =>
      subst hcode hcursor
      rw [Array.getElem?_toList] at hi
      rw [Array.length_toList] at hx
      have hnext : next < r.code.size := by
        cases hrest with
        | here =>
            exact hip
        | step hj _ _ =>
            rw [Array.getElem?_toList] at hj
            exact (Array.getElem?_eq_some_iff.1 hj).1
      obtain ⟨r', hcode', hcursor', hphase', hattempts, hends⟩ :=
        @ih ⟨r.code, next, r.steps + 1, .went event :: r.log⟩ rfl hip rfl rfl
      refine ⟨r', hcode', hcursor', hphase', ?_, fun n result hresult => ?_⟩
      · rw [hattempts, attempts_cons, List.append_assoc]
        cases hattempt : event.attempt? <;> simp [attempts, LogEntry.attempt?, hattempt]
      · have hstep := Machine.step_eq (m := ⟨none, some r⟩) rfl (.went hphase hi hx hnext)
        have hrun := Machine.Ends.next rfl hstep (hends n result hresult)
        rw [List.length_cons, Nat.add_right_comm]
        exact hrun

/-- A path to the end of the code is a completed run. -/
theorem ends_completed {r : Run} {s t : Scene} {events : List Event}
    (hpath : Code.Leads r.code.toList r.cursor s events r.code.size t)
    (hphase : r.phase.isFinished = false) :
    ∃ n r', Machine.Ends ⟨none, some r⟩ s n (.ok .completed, ⟨none, some r'⟩, t) ∧
      r'.attempts = r.attempts ++ events.filterMap Event.attempt? := by
  rcases hpath.last with ⟨rfl, hcursor, rfl⟩ | ⟨before, event, mid, u, i, rfl, hbefore, hi, hx⟩
  · have hend : r.code[r.cursor]? = none := by
      rw [hcursor]
      simp
    have hstep := Machine.step_eq (m := ⟨none, some r⟩) rfl (.nothingToDo hphase hend (s := s))
    refine ⟨1, _, .stopped rfl hstep, ?_⟩
    rw [attempts_cons]
    simp [attempts, LogEntry.attempt?]
  · rw [Array.getElem?_toList] at hi
    rw [Array.length_toList] at hx
    have hmid : mid < r.code.size := (Array.getElem?_eq_some_iff.1 hi).1
    obtain ⟨r', hcode, rfl, hphase', hattempts, hends⟩ := advance hbefore hphase hmid
    rw [← hcode] at hi hx
    have hstep := Machine.step_eq (m := ⟨none, some r'⟩) rfl (.ended hphase' hi hx (Nat.le_refl _))
    rw [hcode] at hstep
    refine ⟨_, _, hends 1 _ (.stopped rfl hstep), ?_⟩
    rw [attempts_cons, List.filterMap_append, ← List.append_assoc, ← hattempts]
    cases hattempt : event.attempt? <;> simp [attempts, LogEntry.attempt?, hattempt]

/-- A path to an action that is refused is a failed run, which stays at the action. -/
theorem ends_failed {r : Run} {s t : Scene} {ip : Nat} {events : List Event} {line : Nat}
    {a : Action} {cause : ActionError}
    (hpath : Code.Leads r.code.toList r.cursor s events ip t)
    (hphase : r.phase.isFinished = false)
    (hi : r.code.toList[ip]? = some ⟨line, .act a⟩) (ha : t.perform a = .error cause) :
    ∃ n r', Machine.Ends ⟨none, some r⟩ s n (.ok .failed, ⟨none, some r'⟩, t) ∧
      r'.attempts = r.attempts ++ events.filterMap Event.attempt? ++ [(line, a)] ∧
      r'.line? = some line := by
  rw [Array.getElem?_toList] at hi
  have hip : ip < r.code.size := (Array.getElem?_eq_some_iff.1 hi).1
  obtain ⟨r', hcode, rfl, hphase', hattempts, hends⟩ := advance hpath hphase hip
  rw [← hcode] at hi
  have hstep := Machine.step_eq (m := ⟨none, some r'⟩) rfl (.stuck hphase' hi (.refused ha))
  refine ⟨_, _, hends 1 _ (.stopped rfl hstep), ?_, rfl⟩
  rw [attempts_cons, ← hattempts]
  simp [attempts, LogEntry.attempt?]

end Run

end GridRobot
