import GridRobot.Machine.Basic

/-!
# What a step can do

The step of a run, read as a list of cases.  `Scene.Executes` says what one
instruction can lead to, and `Run.Steps` what one step of a run can lead to; the
functions `Scene.execute` and `Run.step` do exactly this.  Every fact about steps
is shown on these cases, so the functions themselves are opened only here.

**Results.**
* `Scene.landing?_eq_some_iff`: a jump lands at its target, unless this is outside
  the code.
* `Scene.executes_execute`, `Run.steps_step`: the functions do one of the cases.
* `Scene.Executes.execute_eq`, `Run.Steps.step_eq`: whatever is one of the cases is
  what the functions do.
* `Machine.code?_eq_none_iff`: a machine has no code exactly when it is uncompiled.
* `Machine.step_eq`, `Machine.step_cases`: a machine with code steps its run.
* `Machine.step_ne_exceeded`: a single step does not look at the limit.
* `Machine.code?_step`, `Machine.scene_step`: a step keeps the code, and the scene
  except for one action.
-/

namespace GridRobot

namespace Scene

theorem landing?_eq_some_iff {size ip target : Nat} {d : Int} :
    landing? size ip d = some target ↔ (ip : Int) + d = target ∧ target ≤ size := by
  unfold landing?
  dsimp only
  split
  · rename_i h
    simp only [Option.some.injEq]
    omega
  · rename_i h
    simp only [reduceCtorEq, false_iff]
    omega

/-- What the operation at index `ip`, with its line, can lead to in code of some size. -/
inductive Executes (s : Scene) (size ip line : Nat) : Op → Effect → Prop
  | acted {a : Action} {t : Scene} (h : s.perform a = .ok t) :
      Executes s size ip line (.act a) (.next (ip + 1) (.acted line a t.robot) t)
  | refused {a : Action} {cause : ActionError} (h : s.perform a = .error cause) :
      Executes s size ip line (.act a) (.refused a cause)
  | passed {c : Condition} {d : Int} (h : s.holds c = true) :
      Executes s size ip line (.jumpIfFalse c d) (.next (ip + 1) (.tested line c true) s)
  | skipped {c : Condition} {d : Int} {target : Nat} (h : s.holds c = false)
      (hland : landing? size ip d = some target) :
      Executes s size ip line (.jumpIfFalse c d) (.next target (.tested line c false) s)
  | skippedOut {c : Condition} {d : Int} (h : s.holds c = false)
      (hland : landing? size ip d = none) :
      Executes s size ip line (.jumpIfFalse c d) (.lost d)
  | jumped {d : Int} {target : Nat} (hland : landing? size ip d = some target) :
      Executes s size ip line (.jump d) (.next target (.jumped line) s)
  | jumpedOut {d : Int} (hland : landing? size ip d = none) :
      Executes s size ip line (.jump d) (.lost d)

theorem executes_execute (s : Scene) (size ip : Nat) (i : Instruction) :
    s.Executes size ip i.line i.op (s.execute size ip i) := by
  unfold execute
  cases hop : i.op with
  | act a =>
      cases hperform : s.perform a with
      | ok t =>
          simp only [hperform]
          exact .acted hperform
      | error cause =>
          simp only [hperform]
          exact .refused hperform
  | jumpIfFalse c d =>
      cases hholds : s.holds c with
      | true =>
          simp only [hholds, if_true]
          exact .passed hholds
      | false =>
          cases hland : landing? size ip d with
          | some target =>
              simp only [hholds, hland, Bool.false_eq_true, if_false]
              exact .skipped hholds hland
          | none =>
              simp only [hholds, hland, Bool.false_eq_true, if_false]
              exact .skippedOut hholds hland
  | jump d =>
      cases hland : landing? size ip d with
      | some target =>
          simp only [hland]
          exact .jumped hland
      | none =>
          simp only [hland]
          exact .jumpedOut hland

theorem Executes.execute_eq {s : Scene} {size ip : Nat} {i : Instruction} {effect : Effect}
    (h : s.Executes size ip i.line i.op effect) : s.execute size ip i = effect := by
  obtain ⟨line, op⟩ := i
  cases h with
  | acted h => simp [execute, h]
  | refused h => simp [execute, h]
  | passed h => simp [execute, h]
  | skipped h hland => simp [execute, h, hland]
  | skippedOut h hland => simp [execute, h, hland]
  | jumped hland => simp [execute, hland]
  | jumpedOut hland => simp [execute, hland]

/-- An instruction changes the scene by an action or not at all. -/
theorem Executes.scene_cases {s t : Scene} {size ip line next : Nat} {op : Op} {event : Event}
    (h : s.Executes size ip line op (.next next event t)) :
    t = s ∨ ∃ a, s.perform a = .ok t := by
  cases h with
  | acted h =>
      exact .inr ⟨_, h⟩
  | passed _ =>
      exact .inl rfl
  | skipped _ _ =>
      exact .inl rfl
  | jumped _ =>
      exact .inl rfl

end Scene

namespace Run

/-- The answer to a step, the run and the scene after it. -/
inductive Steps (r : Run) (s : Scene) : Except RunError Bool × Run × Scene → Prop
  | finished (hphase : r.phase.isFinished = true) :
      Steps r s (.error (.runFinished r.phase), r, s)
  | nothingToDo (hphase : r.phase.isFinished = false)
      (hend : r.code[r.cursor]? = none) :
      Steps r s (.ok false, { r with log := .nothingToDo :: r.log }, s)
  | went {i : Instruction} {next : Nat} {event : Event} {t : Scene}
      (hphase : r.phase.isFinished = false)
      (hi : r.code[r.cursor]? = some i)
      (hx : s.Executes r.code.size r.cursor i.line i.op (.next next event t))
      (hnext : next < r.code.size) :
      Steps r s
        (.ok true, ⟨r.code, next, r.steps + 1, .went event :: r.log⟩, t)
  | ended {i : Instruction} {next : Nat} {event : Event} {t : Scene}
      (hphase : r.phase.isFinished = false)
      (hi : r.code[r.cursor]? = some i)
      (hx : s.Executes r.code.size r.cursor i.line i.op (.next next event t))
      (hnext : r.code.size ≤ next) :
      Steps r s
        (.ok false, ⟨r.code, next, r.steps + 1, .ended event :: r.log⟩, t)
  | stuck {i : Instruction} {a : Action} {cause : ActionError}
      (hphase : r.phase.isFinished = false)
      (hi : r.code[r.cursor]? = some i)
      (hx : s.Executes r.code.size r.cursor i.line i.op (.refused a cause)) :
      Steps r s
        (.ok false, ⟨r.code, r.cursor, r.steps + 1, .stuck i.line a cause :: r.log⟩, s)
  | lost {i : Instruction} {d : Int}
      (hphase : r.phase.isFinished = false)
      (hi : r.code[r.cursor]? = some i)
      (hx : s.Executes r.code.size r.cursor i.line i.op (.lost d)) :
      Steps r s
        (.error (.jumpOutOfBounds r.cursor d (r.cursor + d) r.code.size),
          { r with steps := r.steps + 1 }, s)

theorem phase_ne_uncompiled (r : Run) : r.phase ≠ .uncompiled := by
  unfold phase
  cases r.log with
  | nil =>
      intro h
      cases h
  | cons entry log =>
      exact entry.phase_ne_uncompiled

theorem steps_step (r : Run) (s : Scene) : r.Steps s (r.step s) := by
  unfold step
  by_cases hphase : r.phase.isFinished = true
  · rw [if_pos hphase]
    exact .finished hphase
  · rw [if_neg hphase]
    replace hphase : r.phase.isFinished = false := by simpa using hphase
    cases hi : r.code[r.cursor]? with
    | none =>
        exact .nothingToDo hphase hi
    | some i =>
        have hx := s.executes_execute r.code.size r.cursor i
        dsimp only
        generalize s.execute r.code.size r.cursor i = effect at hx
        cases effect with
        | next next event t =>
            by_cases hnext : next < r.code.size
            · simp only [hnext, if_true]
              exact .went hphase hi hx hnext
            · simp only [hnext, if_false]
              exact .ended hphase hi hx (by omega)
        | refused a cause =>
            exact .stuck hphase hi hx
        | lost d =>
            exact .lost hphase hi hx

theorem Steps.step_eq {r : Run} {s : Scene} {x : Except RunError Bool × Run × Scene}
    (h : r.Steps s x) : r.step s = x := by
  cases h with
  | finished hphase =>
      simp [step, hphase]
  | nothingToDo hphase hend =>
      simp [step, hphase, hend]
  | went hphase hi hx hnext =>
      simp [step, hphase, hi, hx.execute_eq, hnext]
  | ended hphase hi hx hnext =>
      simp [step, hphase, hi, hx.execute_eq, Nat.not_lt.2 hnext]
  | stuck hphase hi hx =>
      simp [step, hphase, hi, hx.execute_eq]
  | lost hphase hi hx =>
      simp [step, hphase, hi, hx.execute_eq]

theorem Steps.code_eq {r r' : Run} {s t : Scene} {answer : Except RunError Bool}
    (h : r.Steps s (answer, r', t)) : r'.code = r.code := by
  cases h <;> rfl

theorem Steps.scene_cases {r r' : Run} {s t : Scene} {answer : Except RunError Bool}
    (h : r.Steps s (answer, r', t)) : t = s ∨ ∃ a, s.perform a = .ok t := by
  cases h with
  | finished _ =>
      exact .inl rfl
  | nothingToDo _ _ =>
      exact .inl rfl
  | went _ _ hx _ =>
      exact hx.scene_cases
  | ended _ _ hx _ =>
      exact hx.scene_cases
  | stuck _ _ _ =>
      exact .inl rfl
  | lost _ _ _ =>
      exact .inl rfl

end Run

namespace Machine

theorem code?_eq_none_iff (m : Machine) : m.code? = none ↔ m.phase = .uncompiled := by
  unfold code? phase
  cases m.current with
  | none =>
      simp
  | some r =>
      simp [r.phase_ne_uncompiled]

theorem step_eq {m : Machine} {r r' : Run} {s t : Scene} {answer : Except RunError Bool}
    (hr : m.current = some r) (h : r.Steps s (answer, r', t)) :
    m.step s = (answer, ⟨m.maxSteps, some r'⟩, t) := by
  simp [step, hr, h.step_eq]

theorem exists_steps {m : Machine} {r : Run} (hr : m.current = some r) (s : Scene) :
    ∃ answer r' t, r.Steps s (answer, r', t) ∧ m.step s = (answer, ⟨m.maxSteps, some r'⟩, t) := by
  have hsteps := r.steps_step s
  exact ⟨_, _, _, hsteps, step_eq hr hsteps⟩

/-- A machine without code refuses the step, and one with code steps its run. -/
theorem step_cases (m : Machine) (s : Scene) :
    (m.current = none ∧ m.step s = (.error .notCompiled, m, s)) ∨
      ∃ r answer r' t, m.current = some r ∧ r.Steps s (answer, r', t) ∧
        m.step s = (answer, ⟨m.maxSteps, some r'⟩, t) := by
  cases hr : m.current with
  | none =>
      exact .inl ⟨rfl, step_of_no_run hr s⟩
  | some r =>
      obtain ⟨answer, r', t, hsteps, hstep⟩ := exists_steps hr s
      exact .inr ⟨r, answer, r', t, rfl, hsteps, hstep⟩

theorem code?_step (m : Machine) (s : Scene) : (m.step s).2.1.code? = m.code? := by
  rcases m.step_cases s with ⟨_, hstep⟩ | ⟨r, answer, r', t, hr, hsteps, hstep⟩
  · rw [hstep]
  · rw [hstep]
    simp [code?, hr, hsteps.code_eq]

theorem step_ne_exceeded (m : Machine) (s : Scene) (limit : Nat) :
    (m.step s).1 ≠ .error (.stepLimitExceeded limit) := by
  intro h
  rcases m.step_cases s with ⟨_, hstep⟩ | ⟨r, answer, r', t, _, hsteps, hstep⟩
  · rw [hstep] at h
    cases h
  · rw [hstep] at h
    cases h
    cases hsteps

theorem scene_step (m : Machine) (s : Scene) :
    (m.step s).2.2 = s ∨ ∃ a, s.perform a = .ok (m.step s).2.2 := by
  rcases m.step_cases s with ⟨_, hstep⟩ | ⟨r, answer, r', t, _, hsteps, hstep⟩
  · rw [hstep]
    exact .inl rfl
  · rw [hstep]
    exact hsteps.scene_cases

end Machine

end GridRobot
