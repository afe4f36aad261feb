import GridRobot.Proofs.Machine.Ends

/-!
# Where a run stands

A machine may be given any code, with jumps back and jumps to nowhere in it, and between
two calls anything may happen to the scene.  Still its cursor, its log and its code fit
together.  The invariant is `Run.Settled`: what the newest entry of the log says fixes where
the cursor stands.

The answer to a step is read off the phases before and after it, and an error leaves the run
as it was, but for the count of a step that has lost its jump.

**Results.**
* `Run.Settled.steps`: a step keeps a run settled.
* `Run.Steps.phase_of_ok`, `Run.Steps.eq_runFinished_iff`, `Run.Steps.eq_jumpOutOfBounds_iff`,
  `Run.Steps.keeps_of_error`: what the answer to a step says.
* `Machine.Reachable.settled`: whatever has been called, the run of a machine is settled.
-/

namespace GridRobot

namespace Scene

/-- The distance of the jump that an operation takes, if it takes one. -/
def taken? (s : Scene) : Op → Option Int
  | .act _ => none
  | .jumpIfFalse c d => if s.holds c then none else some d
  | .jump d => some d

variable {s t : Scene} {size ip line : Nat} {op : Op}

/-- An instruction inside the code leads at most to its end. -/
theorem Executes.next_le (hip : ip < size) {next : Nat} {event : Event}
    (hx : s.Executes size ip line op (.next next event t)) : next ≤ size := by
  cases hx with
  | acted _ => exact hip
  | passed _ => exact hip
  | skipped _ hland => exact (landing?_eq_some_iff.1 hland).2
  | jumped hland => exact (landing?_eq_some_iff.1 hland).2

theorem landing?_eq_none_iff {d : Int} :
    landing? size ip d = none ↔ (ip : Int) + d < 0 ∨ (size : Int) < ip + d := by
  unfold landing?
  dsimp only
  split
  · rename_i h
    simp only [reduceCtorEq, false_iff]
    omega
  · rename_i h
    simp only [true_iff]
    omega

/-- A jump is lost when it is taken and leads outside the code. -/
theorem executes_lost_iff {d : Int} :
    s.Executes size ip line op (.lost d) ↔
      s.taken? op = some d ∧ ((ip : Int) + d < 0 ∨ (size : Int) < ip + d) := by
  rw [← landing?_eq_none_iff]
  constructor
  · intro hx
    cases hx with
    | skippedOut h hland => exact ⟨by simp [taken?, h], hland⟩
    | jumpedOut hland => exact ⟨rfl, hland⟩
  · rintro ⟨htaken, hland⟩
    cases op with
    | act a => cases htaken
    | jumpIfFalse c d' =>
        cases hc : s.holds c with
        | true =>
            simp [taken?, hc] at htaken
        | false =>
            obtain rfl : d' = d := by simpa [taken?, hc] using htaken
            exact .skippedOut hc hland
    | jump d' =>
        cases htaken
        exact .jumpedOut hland

/-- At some index of some code stands a jump that is taken and that leads outside the code. -/
structure LosesJump (s : Scene) (code : Code) (index : Nat) (offset : Int) : Prop where
  taken : ∃ i, code[index]? = some i ∧ s.taken? i.op = some offset
  outside : (index : Int) + offset < 0 ∨ (code.length : Int) < index + offset

end Scene

/-- The number of jumps that an error tells of: one or none. -/
def RunError.lostJumps : RunError → Nat
  | jumpOutOfBounds _ _ _ _ => 1
  | _ => 0

namespace Run

/-- Where the cursor stands, by the newest entry of the log: at the start of a run that has not
begun, inside the code of one that goes on, at the end of one that has come to its end, and at
the action that was refused. -/
def Settled (r : Run) : Prop :=
  match r.log with
  | [] => r.cursor = 0
  | .went _ :: _ => r.cursor < r.code.size
  | .ended _ :: _ => r.cursor = r.code.size
  | .nothingToDo :: _ => r.cursor = r.code.size
  | .stuck line a _ :: _ => r.code[r.cursor]? = some ⟨line, .act a⟩

variable {r r' : Run} {s t : Scene} {answer : Except RunError Bool}

theorem Settled.cursor_le (h : r.Settled) : r.cursor ≤ r.code.size := by
  unfold Settled at h
  split at h
  · omega
  · omega
  · omega
  · omega
  · exact Nat.le_of_lt (Array.getElem?_eq_some_iff.1 h).1

theorem Settled.of_ready (h : r.Settled) (hphase : r.phase = .ready) :
    r.cursor = 0 ∧ r.trace = [] := by
  obtain ⟨code, cursor, steps, log⟩ := r
  cases log with
  | nil => exact ⟨h, rfl⟩
  | cons entry log => exact absurd hphase entry.phase_ne_ready

theorem Settled.of_running (h : r.Settled) (hphase : r.phase = .running) :
    r.cursor < r.code.size ∧ r.trace ≠ [] := by
  obtain ⟨code, cursor, steps, _ | ⟨entry, log⟩⟩ := r
  · cases hphase
  · cases entry with
    | went event => exact ⟨h, by simp [trace]⟩
    | _ => cases hphase

theorem Settled.of_completed (h : r.Settled) (hphase : r.phase = .completed) :
    r.cursor = r.code.size := by
  obtain ⟨code, cursor, steps, _ | ⟨entry, log⟩⟩ := r
  · cases hphase
  · cases entry with
    | ended event => exact h
    | nothingToDo => exact h
    | _ => cases hphase

theorem Settled.of_failed (h : r.Settled) (hphase : r.phase = .failed) :
    ∃ line a, r.code[r.cursor]? = some ⟨line, .act a⟩ ∧ r.line? = some line := by
  obtain ⟨code, cursor, steps, _ | ⟨entry, log⟩⟩ := r
  · cases hphase
  · cases entry with
    | stuck line a cause => exact ⟨line, a, h, rfl⟩
    | _ => cases hphase

/-- The status of a run that has begun is the newest line of its trace. -/
theorem getLast?_trace (r : Run) (htrace : r.trace ≠ []) : r.trace.getLast? = some r.status := by
  obtain ⟨code, cursor, steps, log⟩ := r
  cases log with
  | nil => exact absurd rfl htrace
  | cons entry log => simp [trace, status]

/-- A step keeps a run settled, whatever the code. -/
theorem Settled.steps (h : r.Settled) (hstep : r.Steps s (answer, r', t)) : r'.Settled := by
  cases hstep with
  | finished _ =>
      exact h
  | nothingToDo _ hend =>
      exact Nat.le_antisymm h.cursor_le (Array.getElem?_eq_none_iff.1 hend)
  | went _ _ _ hnext =>
      exact hnext
  | ended _ hi hx hnext =>
      -- No jump leads beyond the end of the code, so the cursor is exactly there.
      exact Nat.le_antisymm (hx.next_le (Array.getElem?_eq_some_iff.1 hi).1) hnext
  | @stuck i a cause _ hi hx =>
      obtain ⟨line, op⟩ := i
      cases hx
      exact hi
  | lost _ _ _ =>
      exact h

/-! ### What a step answers -/

theorem Steps.phase_of_ok {goesOn : Bool} (h : r.Steps s (.ok goesOn, r', t)) :
    (goesOn = true ↔ r'.phase = .running) ∧
      (goesOn = false ↔ r'.phase = .completed ∨ r'.phase = .failed) := by
  cases h with
  | nothingToDo _ _ => simp [phase, LogEntry.phase]
  | went _ _ _ _ => simp [phase, LogEntry.phase]
  | ended _ _ _ _ => simp [phase, LogEntry.phase]
  | stuck _ _ _ => simp [phase, LogEntry.phase]

theorem Steps.eq_runFinished_iff (h : r.Steps s (answer, r', t)) (p : Phase) :
    answer = .error (.runFinished p) ↔ r.phase = p ∧ p.isFinished = true := by
  have hunfinished (hphase : r.phase.isFinished = false) :
      ¬ (r.phase = p ∧ p.isFinished = true) := by
    rintro ⟨rfl, hp⟩
    rw [hphase] at hp
    cases hp
  cases h with
  | finished hphase =>
      simp only [Except.error.injEq, RunError.runFinished.injEq]
      exact ⟨fun heq => ⟨heq, heq ▸ hphase⟩, fun h => h.1⟩
  | nothingToDo hphase _ => simpa using hunfinished hphase
  | went hphase _ _ _ => simpa using hunfinished hphase
  | ended hphase _ _ _ => simpa using hunfinished hphase
  | stuck hphase _ _ => simpa using hunfinished hphase
  | lost hphase _ _ => simpa using hunfinished hphase

theorem Steps.eq_jumpOutOfBounds_iff (h : r.Steps s (answer, r', t)) {index size : Nat}
    {offset target : Int} :
    answer = .error (.jumpOutOfBounds index offset target size) ↔
      r.phase.isFinished = false ∧ s.LosesJump r.code.toList r.cursor offset ∧
        index = r.cursor ∧ target = r.cursor + offset ∧ size = r.code.size := by
  constructor
  · rintro rfl
    cases h with
    | lost hphase hi hx =>
        obtain ⟨htaken, hout⟩ := Scene.executes_lost_iff.1 hx
        exact ⟨hphase, ⟨⟨_, by simpa using hi, htaken⟩, by simpa using hout⟩, rfl, rfl, rfl⟩
  · rintro ⟨hphase, ⟨⟨i, hi, htaken⟩, hout⟩, rfl, rfl, rfl⟩
    rw [Array.getElem?_toList] at hi
    rw [Array.length_toList] at hout
    -- The step is a function, so it does not do anything else but lose this jump.
    have hlost := Steps.lost hphase hi (Scene.executes_lost_iff.2 ⟨htaken, hout⟩)
    exact congrArg Prod.fst (h.step_eq.symm.trans hlost.step_eq)

/-- An error leaves the scene as it is, and the run too, but that a lost jump is counted. -/
theorem Steps.keeps_of_error {e : RunError} (h : r.Steps s (.error e, r', t)) :
    t = s ∧ r' = { r with steps := r.steps + e.lostJumps } := by
  cases h with
  | finished _ => exact ⟨rfl, rfl⟩
  | lost _ _ _ => exact ⟨rfl, rfl⟩

end Run

namespace Machine

/-- The machines that calls lead to, each call made in any scene.  A run to the end leads
somewhere only if it ends. -/
inductive Reachable : Machine → Prop
  | idle (maxSteps : Option Nat) : Reachable (idle maxSteps)
  | load {m : Machine} (h : Reachable m) (code : Code) : Reachable (m.load code)
  | unload {m : Machine} (h : Reachable m) : Reachable m.unload
  | step {m : Machine} (h : Reachable m) (s : Scene) : Reachable (m.step s).2.1
  | run {m : Machine} (h : Reachable m) {s : Scene} {n : Nat}
      {result : Except RunError Phase × Machine × Scene} (hends : m.Ends s n result) :
      Reachable result.2.1

/-- The run of the machine, if there is one, is settled. -/
def Settled (m : Machine) : Prop :=
  ∀ r, m.current = some r → r.Settled

theorem settled_of_no_run {m : Machine} (h : m.current = none) : m.Settled := by
  intro r hr
  rw [h] at hr
  cases hr

theorem Settled.step {m : Machine} (h : m.Settled) (s : Scene) : (m.step s).2.1.Settled := by
  rcases m.step_cases s with ⟨_, hstep⟩ | ⟨r, answer, r', t, hr, hsteps, hstep⟩
  · rwa [hstep]
  · rw [hstep]
    intro r'' hr''
    cases hr''
    exact (h r hr).steps hsteps

theorem Reachable.settled {m : Machine} (h : m.Reachable) : m.Settled := by
  induction h with
  | idle maxSteps =>
      exact settled_of_no_run rfl
  | load _ code _ =>
      intro r hr
      cases hr
      rfl
  | unload _ _ =>
      exact settled_of_no_run rfl
  | step _ s ih =>
      exact ih.step s
  | run _ hends ih =>
      exact hends.invariant (P := fun m _ => m.Settled) (fun m s hm => hm.step s) ih

theorem running_of_step {m m' : Machine} {s t : Scene} (h : m.step s = (.ok true, m', t)) :
    m'.phase = .running := by
  rcases m.step_cases s with ⟨_, hstep⟩ | ⟨r, answer, r', u, _, hsteps, hstep⟩
  · rw [h] at hstep
    cases hstep
  · rw [h] at hstep
    cases hstep
    exact hsteps.phase_of_ok.1.1 rfl

end Machine

end GridRobot
