import GridRobot.Proofs.Machine.Coherence

/-!
# What the count of steps counts

A step counts its instruction before it executes it.  Of the exits behind that, all but one leave
an entry in the log: an instruction that has been executed, one that was the last, and an action
that was refused.  The exit at which a jump is lost leaves none.  A run of no code comes to its
end with an entry of its own and without an instruction.

So the count is the number of entries and of jumps that were lost, and to say this the calls are
followed together with the number of jumps that have been lost since code was loaded.

**Results.**
* `Run.Tallied.steps`: a step keeps the count and the log together.
* `Machine.ReachableLosing.tallied`: so does every call.
* `Machine.Reachable.steps_eq`: what the count is, whatever has been called.
* `Machine.lost_jump_counted`: a count above the number of entries.
-/

namespace GridRobot

/-- The number of jumps that are lost when this is the answer to a call. -/
def lostBy {α : Type} : Except RunError α → Nat
  | .ok _ => 0
  | .error e => e.lostJumps

namespace Run

/-- The count of a run and its log fit together when some jumps have been lost.  Without code
nothing is counted, and there is at most the entry for having nothing to do. -/
def Tallied (r : Run) (lost : Nat) : Prop :=
  if r.code.size = 0 then r.steps = 0 ∧ lost = 0 ∧ (r.log = [] ∨ r.log = [.nothingToDo])
  else r.steps = r.log.length + lost

variable {r r' : Run} {s t : Scene} {answer : Except RunError Bool} {lost : Nat}

theorem tallied_of_empty (hcode : r.code.size = 0) :
    r.Tallied lost ↔ r.steps = 0 ∧ lost = 0 ∧ (r.log = [] ∨ r.log = [.nothingToDo]) := by
  rw [Tallied, if_pos hcode]

theorem tallied_of_instructions (hcode : r.code.size ≠ 0) :
    r.Tallied lost ↔ r.steps = r.log.length + lost := by
  rw [Tallied, if_neg hcode]

/-- Without code there is nothing to do in the first step and nothing at all after it. -/
theorem Tallied.steps_of_empty (h : r.Tallied lost) (hcode : r.code.size = 0)
    (hstep : r.Steps s (answer, r', t)) : r'.Tallied (lost + lostBy answer) := by
  have hnone : r.code[r.cursor]? = none := Array.getElem?_eq_none_iff.2 (by omega)
  cases hstep with
  | finished _ =>
      exact h
  | nothingToDo hphase _ =>
      obtain ⟨hsteps, hlost, hlog | hlog⟩ := (tallied_of_empty hcode).1 h
      · rw [hlog]
        exact (tallied_of_empty (r := { r with log := [.nothingToDo] }) hcode).2
          ⟨hsteps, hlost, .inr rfl⟩
      · simp [phase, hlog, LogEntry.phase, Phase.isFinished] at hphase
  | went _ hi _ _ =>
      rw [hnone] at hi
      cases hi
  | ended _ hi _ _ =>
      rw [hnone] at hi
      cases hi
  | stuck _ hi _ =>
      rw [hnone] at hi
      cases hi
  | lost _ hi _ =>
      rw [hnone] at hi
      cases hi

/-- The cursor of a settled run that is not over stands at an instruction. -/
theorem Settled.cursor_lt (h : r.Settled) (hphase : r.phase.isFinished = false)
    (hcode : r.code.size ≠ 0) : r.cursor < r.code.size := by
  obtain ⟨code, cursor, steps, _ | ⟨entry, log⟩⟩ := r
  · have hstart : cursor = 0 := h
    exact hstart ▸ Nat.pos_of_ne_zero hcode
  · cases entry with
    | went event => exact h
    | _ => simp [phase, LogEntry.phase, Phase.isFinished] at hphase

/-- With every step the count grows as the log does, and once more when a jump is lost. -/
theorem Tallied.steps (h : r.Tallied lost) (hsettled : r.Settled)
    (hstep : r.Steps s (answer, r', t)) : r'.Tallied (lost + lostBy answer) := by
  by_cases hcode : r.code.size = 0
  · exact h.steps_of_empty hcode hstep
  · have hcode' : r'.code.size ≠ 0 := by rwa [hstep.code_eq]
    rw [tallied_of_instructions hcode] at h
    rw [tallied_of_instructions hcode']
    cases hstep with
    | finished _ =>
        exact h
    | nothingToDo hphase hend =>
        exact absurd (hsettled.cursor_lt hphase hcode)
          (Nat.not_lt.2 (Array.getElem?_eq_none_iff.1 hend))
    | went _ _ _ _ =>
        simp only [lostBy, List.length_cons]
        omega
    | ended _ _ _ _ =>
        simp only [lostBy, List.length_cons]
        omega
    | stuck _ _ _ =>
        simp only [lostBy, List.length_cons]
        omega
    | lost _ _ _ =>
        simp only [lostBy, RunError.lostJumps]
        omega

end Run

namespace Machine

/-- The machines that calls lead to, with the number of jumps that have been lost since code was
loaded or unloaded last. -/
inductive ReachableLosing : Machine → Nat → Prop
  | idle (maxSteps : Option Nat) : ReachableLosing (idle maxSteps) 0
  | load {m : Machine} {lost : Nat} (h : ReachableLosing m lost) (code : Code) :
      ReachableLosing (m.load code) 0
  | unload {m : Machine} {lost : Nat} (h : ReachableLosing m lost) : ReachableLosing m.unload 0
  | step {m : Machine} {lost : Nat} (h : ReachableLosing m lost) (s : Scene) :
      ReachableLosing (m.step s).2.1 (lost + lostBy (m.step s).1)
  | run {m : Machine} {lost : Nat} (h : ReachableLosing m lost) {s : Scene} {n : Nat}
      {result : Except RunError Phase × Machine × Scene} (hends : m.Ends s n result) :
      ReachableLosing result.2.1 (lost + lostBy result.1)

/-- The count and the log of the run fit together; without a run no jump is lost. -/
def Tallied (m : Machine) (lost : Nat) : Prop :=
  match m.current with
  | none => lost = 0
  | some r => r.Tallied lost

variable {m m' : Machine} {s t : Scene} {answer : Except RunError Bool} {lost n : Nat}

theorem reachable_iff_exists_losing : m.Reachable ↔ ∃ lost, m.ReachableLosing lost := by
  constructor
  · intro h
    induction h with
    | idle maxSteps =>
        exact ⟨0, .idle maxSteps⟩
    | load _ code ih =>
        obtain ⟨_, ih⟩ := ih
        exact ⟨0, ih.load code⟩
    | unload _ ih =>
        obtain ⟨_, ih⟩ := ih
        exact ⟨0, ih.unload⟩
    | step _ s ih =>
        obtain ⟨_, ih⟩ := ih
        exact ⟨_, ih.step s⟩
    | run _ hends ih =>
        obtain ⟨_, ih⟩ := ih
        exact ⟨_, ih.run hends⟩
  · rintro ⟨lost, h⟩
    induction h with
    | idle maxSteps => exact .idle maxSteps
    | load _ code ih => exact ih.load code
    | unload _ ih => exact ih.unload
    | step _ s ih => exact ih.step s
    | run _ hends ih => exact ih.run hends

theorem tallied_of_no_run (h : m.current = none) : m.Tallied lost ↔ lost = 0 := by
  rw [Tallied, h]

theorem tallied_of_run {r : Run} (h : m.current = some r) :
    m.Tallied lost ↔ r.Tallied lost := by
  rw [Tallied, h]

theorem Tallied.step (h : m.Tallied lost) (hm : m.Settled)
    (hstep : m.step s = (answer, m', t)) : m'.Tallied (lost + lostBy answer) := by
  rcases m.step_cases s with ⟨hnone, heq⟩ | ⟨r, answer', r', t', hr, hsteps, heq⟩
  · rw [hstep] at heq
    cases heq
    exact h
  · rw [hstep] at heq
    cases heq
    rw [tallied_of_run hr] at h
    exact (tallied_of_run rfl).2 (h.steps (hm r hr) hsteps)

/-- Only the last step of a run to the end can lose a jump. -/
theorem Tallied.ends {result : Except RunError Phase × Machine × Scene} (h : m.Tallied lost)
    (hm : m.Settled) (hends : m.Ends s n result) :
    result.2.1.Tallied (lost + lostBy result.1) := by
  induction hends with
  | exhausted _ =>
      exact h
  | stopped _ hstep =>
      exact h.step hm hstep
  | failed _ hstep =>
      exact h.step hm hstep
  | @next m m' s t n result _ hstep _ ih =>
      have hkeep := hm.step s
      rw [hstep] at hkeep
      exact ih (h.step hm hstep) hkeep

theorem tallied_load (m : Machine) (code : Code) : (m.load code).Tallied 0 := by
  rw [tallied_of_run rfl]
  by_cases hcode : (Run.start code).code.size = 0
  · exact (Run.tallied_of_empty hcode).2 ⟨rfl, rfl, .inl rfl⟩
  · exact (Run.tallied_of_instructions hcode).2 rfl

theorem ReachableLosing.tallied (h : m.ReachableLosing lost) : m.Tallied lost := by
  induction h with
  | idle maxSteps =>
      exact (tallied_of_no_run rfl).2 rfl
  | load _ code _ =>
      exact tallied_load _ code
  | unload _ _ =>
      exact (tallied_of_no_run rfl).2 rfl
  | step h s ih =>
      exact ih.step (reachable_iff_exists_losing.2 ⟨_, h⟩).settled rfl
  | run h hends ih =>
      exact ih.ends (reachable_iff_exists_losing.2 ⟨_, h⟩).settled hends

/-- **What the count of steps counts.**  Whatever has been called, some number of jumps has been
lost since code was loaded last.  When the code is empty and its run has come to its end, there is
one line in the trace and no step.  Otherwise there are as many steps as lines in the trace and
jumps that have been lost; so while none has been lost, the steps are the instructions that have
been executed and logged. -/
theorem Reachable.steps_eq (h : m.Reachable) :
    (∃ lost, m.ReachableLosing lost) ∧
      ∀ lost, m.ReachableLosing lost →
        (m.code? = some [] ∧ m.phase = .completed →
          m.trace.length = 1 ∧ m.steps = 0 ∧ lost = 0) ∧
        (¬ (m.code? = some [] ∧ m.phase = .completed) → m.steps = m.trace.length + lost) := by
  refine ⟨reachable_iff_exists_losing.1 h, fun lost hlosing => ?_⟩
  have htallied := hlosing.tallied
  cases hr : m.current with
  | none =>
      have hlost := (tallied_of_no_run hr).1 htallied
      simp [code?, steps, trace, hr, hlost]
  | some r =>
      rw [tallied_of_run hr] at htallied
      have hcode : m.code? = some [] ↔ r.code.size = 0 := by
        simp [code?, hr]
      have hphase : m.phase = r.phase := by simp [phase, hr]
      have hsteps : m.steps = r.steps := by simp [steps, hr]
      have htrace : m.trace.length = r.log.length := by simp [trace, hr, Run.trace]
      rw [hcode, hphase, hsteps, htrace]
      by_cases hempty : r.code.size = 0
      · obtain ⟨hzero, rfl, hlog | hlog⟩ := (Run.tallied_of_empty hempty).1 htallied
        · simp [Run.phase, hlog, hzero]
        · simp [Run.phase, LogEntry.phase, hlog, hzero, hempty]
      · have heq := (Run.tallied_of_instructions hempty).1 htallied
        exact ⟨fun hdone => absurd hdone.1 hempty, fun _ => heq⟩

/-- A loop has been cut off by a limit of three, no code has been run, and code has lost its jump
twice behind a turn. -/
theorem steps_eq_after_lost_jumps :
    let s : Scene := ⟨⟨0, 0, .east⟩, ⟨1, 1, #[.empty]⟩⟩
    let cutOff := ((idle (some 3)).load [⟨0, .act .turnLeft⟩, ⟨1, .jump (-1)⟩]).runToEnd s
    let idled := ((cutOff.2.1.load []).step s).2.1
    let m := ((idled.load [⟨0, .act .turnLeft⟩, ⟨1, .jump 5⟩]).step s).2.1
    let twice := ((m.step s).2.1.step s).2.1
    (cutOff.2.1.Reachable ∧ cutOff.2.1.ReachableLosing 0 ∧
      cutOff.2.1.steps = cutOff.2.1.trace.length) ∧
    (idled.ReachableLosing 0 ∧ idled.trace.length = 1 ∧ idled.steps = 0) ∧
    twice.ReachableLosing 2 ∧ twice.steps = twice.trace.length + 2 := by
  intro s cutOff idled m twice
  have hends : ((idle (some 3)).load [⟨0, .act .turnLeft⟩, ⟨1, .jump (-1)⟩]).Ends s 3 _ :=
    .next rfl rfl (.next rfl rfl (.next rfl rfl (.exhausted rfl)))
  have hcutOff : cutOff = _ := hends.runToEnd_eq
  have hlosing : cutOff.2.1.ReachableLosing 0 := by
    rw [hcutOff]
    exact .run (.load (.idle (some 3)) _) hends
  have hidled : idled.ReachableLosing 0 := .step (.load hlosing []) s
  have htwice : twice.ReachableLosing 2 := .step (.step (.step (.load hidled _) s) s) s
  have hreach : cutOff.2.1.Reachable := reachable_iff_exists_losing.2 ⟨0, hlosing⟩
  have hreach' : idled.Reachable := reachable_iff_exists_losing.2 ⟨0, hidled⟩
  have hreach'' : twice.Reachable := reachable_iff_exists_losing.2 ⟨2, htwice⟩
  have hcode : cutOff.2.1.code? ≠ some [] := by
    rw [hcutOff]
    decide
  have hidle := (hreach'.steps_eq.2 0 hidled).1 ⟨rfl, rfl⟩
  refine ⟨⟨hreach, hlosing, ?_⟩, ⟨hidled, hidle.1, hidle.2.1⟩, htwice, ?_⟩
  · exact (hreach.steps_eq.2 0 hlosing).2 fun hdone => hcode hdone.1
  · refine (hreach''.steps_eq.2 2 htwice).2 fun hdone => ?_
    have hphase : twice.phase = .running := rfl
    rw [hphase] at hdone
    cases hdone.2

/-- A jump that is lost is counted, though nothing is executed and nothing is logged; with a limit
of one it uses up the limit. -/
theorem lost_jump_counted :
    let s : Scene := ⟨⟨0, 0, .east⟩, ⟨1, 1, #[.empty]⟩⟩
    let m := (((idle (some 1)).load [⟨0, .jump 5⟩]).step s).2.1
    m.Reachable ∧ m.code? ≠ some [] ∧ m.steps = 1 ∧ m.trace = [] ∧
      (m.runToEnd s).1 = .error (.stepLimitExceeded 1) := by
  intro s m
  refine ⟨.step (.load (.idle (some 1)) _) s, by decide, rfl, rfl, ?_⟩
  rw [runToEnd_of_exhausted rfl]

end Machine

end GridRobot
