import GridRobot.Proofs.Code.Forward
import GridRobot.Proofs.Machine.Ends

/-!
# Progress of a run

In forward code every step that goes on moves the cursor on.  So the number of
instructions executed never exceeds the cursor, no jump is ever lost, and a run
comes to an end whatever happens to the scene between two steps.  `Run.OnCourse`
is the invariant of such runs.

**Results.**
* `Run.OnCourse.steps`: a step keeps a run on course.
* `Run.OnCourse.lt_cursor`: a step that goes on moves the cursor on.
* `Run.OnCourse.not_jumpOutOfBounds`: a run on course loses no jump.
* `Machine.OnCourse.moves`: a step of a run on course is the last one or gets on.
* `Machine.OnCourse.ends`: a run on course ends.
* `Machine.OnCourse.invariant_runToEnd`: what every step keeps, a run to the end keeps.
-/

namespace GridRobot

namespace Run

/-- A run of forward code that has executed at most as many instructions as its cursor has
passed; until it is over, the cursor is inside the code, or at the start of no code. -/
structure OnCourse (r : Run) : Prop where
  forward : Code.Forward r.code.toList
  steps_le : r.phase.isFinished = false → r.steps ≤ r.cursor
  cursor_lt : r.phase.isFinished = false → r.cursor < max r.code.size 1

theorem onCourse_start {code : Code} (hcode : code.Forward) : (start code).OnCourse where
  forward := by simpa [start] using hcode
  steps_le := fun _ => Nat.le_refl 0
  cursor_lt := fun _ => Nat.lt_of_lt_of_le Nat.one_pos (Nat.le_max_right _ _)

theorem onCourse_of_finished {r : Run} (hforward : Code.Forward r.code.toList)
    (hphase : r.phase.isFinished = true) : r.OnCourse where
  forward := hforward
  steps_le := fun h => by simp [hphase] at h
  cursor_lt := fun h => by simp [hphase] at h

namespace OnCourse

variable {r r' : Run} {s t : Scene} {i : Instruction}

theorem distance_pos (h : r.OnCourse) (hi : r.code[r.cursor]? = some i) {d : Int}
    (hd : i.offset? = some d) : 0 < d ∧ r.cursor + d ≤ r.code.size := by
  have hi : r.code.toList[r.cursor]? = some i := by simpa using hi
  simpa using Code.forward_iff.1 h.forward r.cursor i d hi hd

/-- What an instruction leads to lies behind it. -/
theorem lt_next (h : r.OnCourse) (hi : r.code[r.cursor]? = some i) {next : Nat} {event : Event}
    (hx : s.Executes r.code.size r.cursor i.line i.op (.next next event t)) :
    r.cursor < next := by
  generalize hop : i.op = op at hx
  cases hx with
  | acted _ =>
      exact Nat.lt_succ_self _
  | passed _ =>
      exact Nat.lt_succ_self _
  | skipped _ hland =>
      have hd := (h.distance_pos hi (by rw [Instruction.offset?, hop])).1
      have htarget := (Scene.landing?_eq_some_iff.1 hland).1
      omega
  | jumped hland =>
      have hd := (h.distance_pos hi (by rw [Instruction.offset?, hop])).1
      have htarget := (Scene.landing?_eq_some_iff.1 hland).1
      omega

theorem landing?_ne_none (h : r.OnCourse) (hi : r.code[r.cursor]? = some i) {d : Int}
    (hd : i.offset? = some d) : Scene.landing? r.code.size r.cursor d ≠ none := by
  obtain ⟨hpos, hle⟩ := h.distance_pos hi hd
  have hland : Scene.landing? r.code.size r.cursor d = some (r.cursor + d).toNat := by
    rw [Scene.landing?_eq_some_iff]
    omega
  rw [hland]
  exact Option.some_ne_none _

theorem not_lost (h : r.OnCourse) (hi : r.code[r.cursor]? = some i) {d : Int} :
    ¬ s.Executes r.code.size r.cursor i.line i.op (.lost d) := by
  intro hx
  generalize hop : i.op = op at hx
  cases hx with
  | skippedOut _ hland =>
      exact h.landing?_ne_none hi (by rw [Instruction.offset?, hop]) hland
  | jumpedOut hland =>
      exact h.landing?_ne_none hi (by rw [Instruction.offset?, hop]) hland

variable {answer : Except RunError Bool}

/-- A step keeps a run on course. -/
theorem steps (h : r.OnCourse) (hstep : r.Steps s (answer, r', t)) : r'.OnCourse := by
  cases hstep with
  | finished _ =>
      exact h
  | nothingToDo _ _ =>
      exact onCourse_of_finished h.forward rfl
  | @went i next event t hphase hi hx hnext =>
      have hlt := h.lt_next hi hx
      have hle := h.steps_le hphase
      refine ⟨h.forward, fun _ => ?_, fun _ => ?_⟩
      · show r.steps + 1 ≤ next
        omega
      · exact Nat.lt_of_lt_of_le hnext (Nat.le_max_left _ _)
  | ended _ _ _ _ =>
      exact onCourse_of_finished h.forward rfl
  | stuck _ _ _ =>
      exact onCourse_of_finished h.forward rfl
  | lost _ hi hx =>
      exact absurd hx (h.not_lost hi)

/-- A step that goes on moves the cursor on, by one instruction executed. -/
theorem lt_cursor (h : r.OnCourse) (hstep : r.Steps s (.ok true, r', t)) :
    r.cursor < r'.cursor ∧ r'.steps = r.steps + 1 := by
  cases hstep with
  | went _ hi hx _ =>
      exact ⟨h.lt_next hi hx, rfl⟩

theorem not_jumpOutOfBounds (h : r.OnCourse) (hstep : r.Steps s (answer, r', t))
    (index : Nat) (offset target : Int) (size : Nat) :
    answer ≠ .error (.jumpOutOfBounds index offset target size) := by
  rintro rfl
  cases hstep with
  | lost _ hi hx =>
      exact h.not_lost hi hx

end OnCourse

end Run

namespace Machine

/-- The run of the machine, if there is one, is on course. -/
def OnCourse (m : Machine) : Prop :=
  ∀ r, m.current = some r → r.OnCourse

theorem onCourse_of_no_run {m : Machine} (h : m.current = none) : m.OnCourse := by
  intro r hr
  rw [h] at hr
  cases hr

theorem onCourse_load {m : Machine} {code : Code} (hcode : code.Forward) :
    (m.load code).OnCourse := by
  intro r hr
  cases hr
  exact Run.onCourse_start hcode

theorem OnCourse.step {m : Machine} (h : m.OnCourse) (s : Scene) :
    (m.step s).2.1.OnCourse := by
  rcases m.step_cases s with ⟨_, hstep⟩ | ⟨r, answer, r', t, hr, hsteps, hstep⟩
  · rwa [hstep]
  · rw [hstep]
    intro r'' hr''
    cases hr''
    exact (h r hr).steps hsteps

theorem OnCourse.not_jumpOutOfBounds {m : Machine} (h : m.OnCourse) (s : Scene)
    (index : Nat) (offset target : Int) (size : Nat) :
    (m.step s).1 ≠ .error (.jumpOutOfBounds index offset target size) := by
  rcases m.step_cases s with ⟨_, hstep⟩ | ⟨r, answer, r', t, hr, hsteps, hstep⟩
  · rw [hstep]
    intro heq
    cases heq
  · rw [hstep]
    exact (h r hr).not_jumpOutOfBounds hsteps index offset target size

theorem OnCourse.cursor_lt {m : Machine} (h : m.OnCourse) {s : Scene}
    (hstep : (m.step s).1 = .ok true) : m.cursor < (m.step s).2.1.cursor := by
  rcases m.step_cases s with ⟨_, heq⟩ | ⟨r, answer, r', t, hr, hsteps, heq⟩
  · rw [heq] at hstep
    cases hstep
  · rw [heq] at hstep ⊢
    cases hstep
    simpa [cursor, hr] using ((h r hr).lt_cursor hsteps).1

/-- Before the end, fewer instructions have been executed than there are. -/
theorem OnCourse.steps_lt {m : Machine} (h : m.OnCourse) {code : Code}
    (hcode : m.code? = some code) (hphase : m.phase.isFinished = false) :
    m.steps < max code.length 1 := by
  obtain ⟨r, hr, rfl⟩ := Option.map_eq_some_iff.1 hcode
  simp only [phase, steps, hr, Option.map_some, Option.getD_some] at hphase ⊢
  exact Nat.lt_of_le_of_lt ((h r hr).steps_le hphase) ((h r hr).cursor_lt hphase)

/-- What a step makes of a machine whose run is on course: nothing when the run is over, and
otherwise the run is over afterwards or the cursor has moved on by one instruction executed. -/
inductive Moves (m : Machine) : Machine → Prop
  | unmoved (hphase : m.phase.isFinished = true) : Moves m m
  | last {m' : Machine} (hphase' : m'.phase.isFinished = true) : Moves m m'
  | advanced {m' : Machine} (hcursor : m.cursor < m'.cursor) (hsteps : m'.steps = m.steps + 1) :
      Moves m m'

theorem OnCourse.moves {m : Machine} (h : m.OnCourse) {code : Code}
    (hcode : m.code? = some code) (s : Scene) : m.Moves (m.step s).2.1 := by
  obtain ⟨r, hr, rfl⟩ := Option.map_eq_some_iff.1 hcode
  obtain ⟨answer, r', t, hsteps, heq⟩ := exists_steps hr s
  rw [heq]
  cases hsteps with
  | finished hphase =>
      have hm : (⟨m.maxSteps, some r⟩ : Machine) = m := by rw [← hr]
      have hover : m.phase.isFinished = true := by simpa [phase, hr] using hphase
      simpa only [hm] using .unmoved hover
  | nothingToDo _ _ =>
      exact .last rfl
  | went hphase hi hx hnext =>
      refine .advanced ?_ ?_
      · simpa [cursor, hr] using (h r hr).lt_next hi hx
      · simp [steps, hr]
  | ended _ _ _ _ =>
      exact .last rfl
  | stuck _ _ _ =>
      exact .last rfl
  | lost _ hi hx =>
      exact absurd hx ((h r hr).not_lost hi)

/-- How far the cursor is from the end of the code. -/
def distance (m : Machine) : Nat :=
  (m.current.map fun r => r.code.size - r.cursor).getD 0

theorem OnCourse.distance_lt {m m' : Machine} {s t : Scene} (h : m.OnCourse)
    (hstep : m.step s = (.ok true, m', t)) : m'.distance < m.distance := by
  rcases m.step_cases s with ⟨_, heq⟩ | ⟨r, answer, r', u, hr, hsteps, heq⟩
  · rw [heq] at hstep
    cases hstep
  · rw [heq] at hstep
    cases hstep
    have hlt := ((h r hr).lt_cursor hsteps).1
    cases hsteps with
    | went _ hi _ _ =>
        have hcursor := (Array.getElem?_eq_some_iff.1 hi).1
        simp only [distance, hr, Option.map_some, Option.getD_some]
        simp only at hlt
        omega

/-- A run on course ends, in whatever scene. -/
theorem OnCourse.ends {m : Machine} (h : m.OnCourse) (s : Scene) :
    ∃ n result, m.Ends s n result := by
  cases hlimit : m.exhausted? with
  | some limit =>
      exact ⟨0, _, .exhausted hlimit⟩
  | none =>
      have hkeep := h.step s
      cases hstep : m.step s with
      | mk answer rest =>
          obtain ⟨m', t⟩ := rest
          rw [hstep] at hkeep
          match answer with
          | .ok true =>
              have hlt := h.distance_lt hstep
              obtain ⟨n, result, hends⟩ := OnCourse.ends (m := m') hkeep t
              exact ⟨n + 1, result, .next hlimit hstep hends⟩
          | .ok false =>
              exact ⟨1, _, .stopped hlimit hstep⟩
          | .error e =>
              exact ⟨1, _, .failed hlimit hstep⟩
termination_by m.distance

/-- What every step keeps, a run to the end keeps. -/
theorem OnCourse.invariant_runToEnd {P : Machine → Scene → Prop}
    (hP : ∀ m s, P m s → P (m.step s).2.1 (m.step s).2.2)
    {m : Machine} {s : Scene} (h : m.OnCourse) (hm : P m s) :
    P (m.runToEnd s).2.1 (m.runToEnd s).2.2 := by
  obtain ⟨n, result, hends⟩ := h.ends s
  rw [hends.runToEnd_eq]
  exact hends.invariant hP hm

end Machine

end GridRobot
