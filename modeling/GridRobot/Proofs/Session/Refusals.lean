import Mathlib
import GridRobot.Proofs.Machine.Coherence
import GridRobot.Proofs.Session.Safety

/-!
# Refused operations have no effect

An operation that is refused leaves the session as it was, the machine with its log and its count
of steps included.  For edits this is how they are written.  A step has an exit at which the step
has been counted already, the loss of a jump; the run of a reachable session is on course, so this
exit is never taken.  A run that has made one step with which it goes on is not refused later:
from there it comes to its end or reaches the limit.

Compiling and failing at an action do have an effect, and it is said exactly which.

**Results.**
* `Machine.Ends.exceeded_of_unfinished`: only the limit stops a run in the middle.
* `Machine.Ends.eq_of_refused`: a run that is refused has not done anything.
* `Scene.Sound.error_of_perform`: why an action of a sound scene is refused.
* `Session.Reachable.refused_keeps`: what is left alone by operations that fail.
-/

namespace GridRobot

namespace Machine

variable {m m' : Machine} {s t : Scene} {e : RunError} {n : Nat}

/-- A step that answers with an error has done nothing. -/
theorem OnCourse.eq_of_step_error (hm : m.OnCourse) (h : m.step s = (.error e, m', t)) :
    m' = m ∧ t = s := by
  rcases m.step_cases s with ⟨_, hstep⟩ | ⟨r, answer, r', u, hr, hsteps, hstep⟩
  · rw [h] at hstep
    cases hstep
    exact ⟨rfl, rfl⟩
  · rw [h] at hstep
    cases hstep
    cases hsteps with
    | finished _ => exact ⟨by rw [← hr], rfl⟩
    | lost _ _ _ => exact absurd (congrArg Prod.fst h) (hm.not_jumpOutOfBounds _ _ _ _ _)

theorem OnCourse.of_step (hm : m.OnCourse) {answer : Except RunError Bool}
    (h : m.step s = (answer, m', t)) : m'.OnCourse := by
  have hcourse := hm.step s
  rwa [h] at hcourse

/-- A run of some code that is not over yet ends with an error only at the limit. -/
theorem Ends.exceeded_of_unfinished (h : m.Ends s n (.error e, m', t)) (hm : m.OnCourse)
    (hcode : m.phase ≠ .uncompiled) (hphase : m.phase.isFinished = false) :
    ∃ limit, e = .stepLimitExceeded limit := by
  generalize hresult : (Except.error e, m', t) = result at h
  induction h with
  | @exhausted _ _ limit _ =>
      cases hresult
      exact ⟨limit, rfl⟩
  | stopped _ _ =>
      cases hresult
  | @failed m _ s _ _ _ hstep =>
      cases hresult
      rcases m.step_cases s with ⟨hnone, _⟩ | ⟨r, answer, r', u, hr, hsteps, heq⟩
      · exact absurd (by simp [phase, hnone]) hcode
      · rw [hstep] at heq
        cases heq
        cases hsteps with
        | finished hover =>
            simp [phase, hr, hover] at hphase
        | lost _ _ _ =>
            exact absurd (congrArg Prod.fst hstep) (hm.not_jumpOutOfBounds _ _ _ _ _)
  | next _ hstep _ ih =>
      have hrunning := running_of_step hstep
      exact ih (hm.of_step hstep) (by simp [hrunning]) (by rw [hrunning]; rfl) hresult

/-- A run to the end that ends with an error, but not at the limit, has done nothing. -/
theorem Ends.eq_of_refused (h : m.Ends s n (.error e, m', t)) (hm : m.OnCourse)
    (hlimit : ∀ limit, e ≠ .stepLimitExceeded limit) : m' = m ∧ t = s := by
  cases h with
  | exhausted _ =>
      exact ⟨rfl, rfl⟩
  | failed _ hstep =>
      exact hm.eq_of_step_error hstep
  | next _ hstep hrest =>
      -- After the first step the run has begun, so only the limit can stop it with an error.
      have hrunning := running_of_step hstep
      obtain ⟨limit, rfl⟩ := hrest.exceeded_of_unfinished (hm.of_step hstep) (by simp [hrunning])
        (by rw [hrunning]; rfl)
      exact absurd rfl (hlimit limit)

end Machine

/-- An action is refused because the way is blocked or because there is no beeper. -/
theorem Scene.Sound.error_of_perform {s : Scene} (hs : s.Sound) {a : Action} {cause : ActionError}
    (h : s.perform a = .error cause) :
    cause = .blocked s.robot ∨ cause = .noBeeper s.robot.x s.robot.y := by
  obtain ⟨i, hi, _⟩ := Robot.fits_iff.1 hs.fits
  cases a with
  | move =>
      rw [perform, move] at h
      split at h
      · cases h
        exact .inl rfl
      · cases h
  | pickUp =>
      rw [perform_pickUp hi] at h
      split at h
      · cases h
        exact .inr rfl
      · cases h
  | putDown =>
      rw [perform_putDown hi] at h
      cases h
  | turnLeft =>
      cases h
  | turnRight =>
      cases h

/-- Operations together with the answers by which they say that they have not been carried out.
Every edit among them looks first for what it is to change, the cell, the place of the robot, the
line or the name, and writes only when it has found it; so that the session is kept is how these
are written, for a step and a run it has to be proved. -/
inductive Operation.Refused : Operation → Except SessionError Answer → Prop
  | setCell {x y : UInt64} {c : Cell} {e : SessionError} : Refused (.setCell x y c) (.error e)
  | placeRobot {r : Robot} {e : SessionError} : Refused (.placeRobot r) (.error e)
  | insert {line : Nat} {b : Block} {e : SessionError} : Refused (.insert line b) (.error e)
  | remove {line : Nat} : Refused (.remove line) (.ok (.block none))
  | replace {line : Nat} {b : Block} : Refused (.replace line b) (.ok (.block none))
  | undefine {name : String} : Refused (.undefine name) (.ok (.body none))
  | step {e : SessionError} : Refused .step (.error e)
  | runNotCompiled : Refused .run (.error (.run .notCompiled))
  | runFinished {p : Phase} : Refused .run (.error (.run (.runFinished p)))

namespace Session

/-- The next instruction is an action that the scene refuses. -/
structure FailsAt (s : Session) (line : Nat) (a : Action) (cause : ActionError) : Prop where
  unfinished : s.machine.phase.isFinished = false
  next : ∃ code, s.machine.code? = some code ∧ code[s.machine.cursor]? = some ⟨line, .act a⟩
  refused : s.scene.perform a = .error cause

variable {s : Session} {line : Nat} {a : Action} {cause : ActionError}

theorem settle_of_error {x : Except SessionError Session} {e : SessionError}
    (h : (apply.settle s x).1 = .error e) : (apply.settle s x).2 = s := by
  cases x with
  | ok t => cases h
  | error e => rfl

theorem apply_step_of_error (hs : s.machine.OnCourse) {e : SessionError}
    (h : (s.apply .step).1 = .error e) : (s.apply .step).2 = s := by
  rcases hstep : s.machine.step s.scene with ⟨e | goesOn, m, scene⟩
  · obtain ⟨rfl, rfl⟩ := hs.eq_of_step_error hstep
    simp only [apply, step, hstep]
  · simp [apply, step, hstep, Except.map, Except.mapError] at h

theorem apply_run_of_error (hs : s.machine.OnCourse) {e : RunError}
    (h : (s.apply .run).1 = .error (.run e)) (hlimit : ∀ limit, e ≠ .stepLimitExceeded limit) :
    (s.apply .run).2 = s := by
  obtain ⟨n, ⟨e' | p, m, scene⟩, hends⟩ := hs.ends s.scene
  · have hrun := hends.runToEnd_eq
    simp only [apply, run, hrun, Except.map, Except.mapError, Except.error.injEq,
      SessionError.run.injEq] at h
    subst h
    obtain ⟨rfl, rfl⟩ := hends.eq_of_refused hs hlimit
    simp only [apply, run, hrun]
  · simp [apply, run, hends.runToEnd_eq, Except.map, Except.mapError] at h

/-- Every operation that is refused leaves the session as it was. -/
theorem apply_of_refused (hs : s.machine.OnCourse) {op : Operation}
    (h : op.Refused (s.apply op).1) : (s.apply op).2 = s := by
  generalize hanswer : (s.apply op).1 = answer at h
  cases h with
  | setCell =>
      exact settle_of_error hanswer
  | placeRobot =>
      exact settle_of_error hanswer
  | insert =>
      exact settle_of_error hanswer
  | @remove line =>
      cases hremove : s.remove? line with
      | none => simp only [apply, hremove]
      | some old => simp [apply, hremove] at hanswer
  | @replace line b =>
      cases hreplace : s.replace? line b with
      | none => simp only [apply, hreplace]
      | some old => simp [apply, hreplace] at hanswer
  | @undefine name =>
      cases hundefine : s.undefine? name with
      | none => simp only [apply, hundefine]
      | some old => simp [apply, hundefine] at hanswer
  | step =>
      exact apply_step_of_error hs hanswer
  | runNotCompiled =>
      exact apply_run_of_error hs hanswer (by simp)
  | runFinished =>
      exact apply_run_of_error hs hanswer (by simp)

/-- Compiling in vain takes the run away and keeps everything else. -/
theorem apply_compile_of_error {e : SessionError} (h : (s.apply .compile).1 = .error e) :
    (s.apply .compile).2 = { s with machine := .idle s.machine.maxSteps } := by
  cases hcode : s.program.compile s.macros with
  | ok code => simp [apply, compile_of_ok hcode, Except.map, Except.mapError] at h
  | error e => simp only [apply, compile_of_error hcode, unload, Machine.unload, Machine.idle]

/-- The run stays where it is and notes the failure. -/
theorem FailsAt.exists_step (h : s.FailsAt line a cause) :
    ∃ r report, s.machine.current = some r ∧ report.goesOn = false ∧ report.phase = .failed ∧
      s.step = (.ok report, { s with
        machine := ⟨s.machine.maxSteps,
          some ⟨r.code, r.cursor, r.steps + 1, .stuck line a cause :: r.log⟩⟩ }) := by
  obtain ⟨hphase, ⟨code, hcode, hi⟩, hrefused⟩ := h
  obtain ⟨r, hr, rfl⟩ := Option.map_eq_some_iff.1 hcode
  simp only [Machine.phase, Machine.cursor, hr, Option.map_some, Option.getD_some,
    Array.getElem?_toList] at hphase hi
  have hsteps : r.Steps s.scene _ := .stuck hphase hi (.refused hrefused)
  refine ⟨r, _, hr, ?_, ?_, by rw [step, Machine.step_eq hr hsteps]; rfl⟩
  · rfl
  · rfl

/-- A step fails only where an action is refused. -/
theorem exists_failsAt {report : Report} {t : Session} (h : s.step = (.ok report, t))
    (hphase : t.machine.phase = .failed) : ∃ line a cause, s.FailsAt line a cause := by
  rcases s.machine.step_cases s.scene with ⟨_, hstep⟩ | ⟨r, answer, r', u, hr, hsteps, hstep⟩
  · simp [step, hstep, Except.map] at h
  · simp only [step, hstep, Prod.mk.injEq] at h
    obtain ⟨hanswer, rfl⟩ := h
    cases hsteps with
    | finished _ => cases hanswer
    | nothingToDo _ _ => cases hphase
    | went _ _ _ _ => cases hphase
    | ended _ _ _ _ => cases hphase
    | @stuck i a cause hunfinished hi hx =>
        obtain ⟨line, op⟩ := i
        cases hx with
        | refused hrefused =>
            exact ⟨line, a, cause, by simpa [Machine.phase, hr] using hunfinished,
              ⟨r.code.toList, by simp [Machine.code?, hr],
                by simpa [Machine.cursor, hr] using hi⟩, hrefused⟩
    | lost _ _ _ => cases hanswer

/-- **Failed operations are atomic.**  An operation on a reachable session that is refused leaves
all of it as it was.  Compiling in vain only takes the run away from the machine.  A step fails
exactly where the next instruction is an action that the scene refuses, because the way is blocked
or because there is no beeper; then the scene and the cursor stay, as do the program, the macros
and the code. -/
theorem Reachable.refused_keeps (h : s.Reachable) :
    (∀ op : Operation, op.Refused (s.apply op).1 → (s.apply op).2 = s) ∧
    (∀ e, (s.apply .compile).1 = .error e →
      (s.apply .compile).2 = { s with machine := .idle s.machine.maxSteps }) ∧
    (∀ line a cause, s.FailsAt line a cause →
      (cause = .blocked s.scene.robot ∨ cause = .noBeeper s.scene.robot.x s.scene.robot.y) ∧
      ∃ report t, s.step = (.ok report, t) ∧ report.goesOn = false ∧ report.phase = .failed ∧
        t.scene = s.scene ∧ t.machine.cursor = s.machine.cursor ∧
        t.machine.log = .stuck line a cause :: s.machine.log ∧
        t.program = s.program ∧ t.macros = s.macros ∧ t.machine.code? = s.machine.code?) ∧
    (∀ report t, s.step = (.ok report, t) → t.machine.phase = .failed →
      ∃ line a cause, s.FailsAt line a cause) := by
  refine ⟨fun op => apply_of_refused h.onCourse, fun e => apply_compile_of_error, ?_,
    fun report t => exists_failsAt⟩
  intro line a cause hfails
  refine ⟨h.sound.error_of_perform hfails.refused, ?_⟩
  obtain ⟨r, report, hr, hgoesOn, hphase, hstep⟩ := hfails.exists_step
  refine ⟨report, _, hstep, hgoesOn, hphase, rfl, ?_, ?_, rfl, rfl, ?_⟩
  · simp [Machine.cursor, hr]
  · simp [Machine.log, hr]
  · simp [Machine.code?, hr]

/-- The robot walks against the edge: before, edits beside the program and the world are refused;
after, there is no more step; and then a call of a macro that is not there cannot be compiled. -/
theorem refused_keeps_at_edge :
    let first : Session := ⟨⟨⟨0, 0, .east⟩, ⟨1, 1, #[.empty]⟩⟩, [], .empty, .idle none⟩
    let s := first.after [.push (.act .move), .limitSteps (some 9), .compile]
    let edits : List Operation :=
      [.setCell 0 0 .wall, .setCell 1 0 .empty, .placeRobot ⟨0, 1, .north⟩,
        .insert 2 (.act .pickUp), .remove 1, .replace 1 (.act .pickUp), .undefine "gone"]
    let halted := s.after [.step]
    let broken := halted.after [.push (.call "gone")]
    (s.Reachable ∧ ∀ op ∈ edits, op.Refused (s.apply op).1 ∧ (s.apply op).2 = s) ∧
    (s.FailsAt 0 .move (.blocked ⟨0, 0, .east⟩) ∧ halted.machine.phase = .failed ∧
      halted.scene = s.scene ∧ halted.machine.cursor = s.machine.cursor) ∧
    (∀ op ∈ [Operation.step, .run],
      op.Refused (halted.apply op).1 ∧ (halted.apply op).2 = halted) ∧
    (∀ op ∈ [Operation.step, .run],
      op.Refused (broken.apply op).1 ∧ (broken.apply op).2 = broken) ∧
    (∃ e, (broken.apply .compile).1 = .error e ∧
      (broken.apply .compile).2 = { broken with machine := .idle (some 9) }) := by
  intro first s edits halted broken
  have hnew : Session.new 1 1 = .ok first := by cbv
  have hs : s.Reachable := (Reachable.made (.new hnew)).after _
  have hhalted : halted.Reachable := hs.after _
  have hbroken : broken.Reachable := hhalted.after _
  obtain ⟨hrefused, _, hfails, _⟩ := hs.refused_keeps
  obtain ⟨hrefusedHalted, _⟩ := hhalted.refused_keeps
  obtain ⟨hrefusedBroken, hcompile, _⟩ := hbroken.refused_keeps
  have hedits : ∀ op ∈ edits, op.Refused (s.apply op).1 := by
    simp only [edits, List.forall_mem_cons]
    refine ⟨?_, ?_, ?_, ?_, ?_, ?_, ?_, by simp⟩
    · exact .setCell (e := .wallUnderRobot 0 0)
    · exact .setCell (e := .world (.outside 1 0 1 1))
    · exact .placeRobot (e := .robotNotOnOpenCell ⟨0, 1, .north⟩)
    · exact .insert (e := .insertPastEnd 2 1)
    · exact .remove
    · exact .replace
    · exact .undefine
  have hmove : s.FailsAt 0 .move (.blocked ⟨0, 0, .east⟩) :=
    ⟨rfl, ⟨[⟨0, .act .move⟩], rfl, rfl⟩, by rfl⟩
  obtain ⟨_, _, t, hstep, _, _, hscene, hcursor, _⟩ := hfails _ _ _ hmove
  have hafter : t = halted := (congrArg Prod.snd hstep).symm
  rw [hafter] at hscene hcursor
  have hphase : halted.machine.phase = .failed := rfl
  have hstepHalted : Operation.step.Refused (halted.apply .step).1 :=
    .step (e := .run (.runFinished .failed))
  have hrunHalted : Operation.run.Refused (halted.apply .run).1 := by
    have hends : halted.machine.Ends halted.scene 1 _ :=
      .failed rfl (Machine.step_of_finished (congrArg Phase.isFinished hphase) _)
    rw [apply, run, hends.runToEnd_eq]
    exact .runFinished
  have hstepBroken : Operation.step.Refused (broken.apply .step).1 :=
    .step (e := .run .notCompiled)
  have hrunBroken : Operation.run.Refused (broken.apply .run).1 := by
    have hends : broken.machine.Ends broken.scene 1 _ :=
      .failed rfl (Machine.step_of_no_run rfl _)
    rw [apply, run, hends.runToEnd_eq]
    exact .runNotCompiled
  have hprogram : Program.compile [.act .move, .call "gone"] .empty =
      .error (.unknownMacro "gone" 1) := by cbv
  have hunknown : (broken.apply .compile).1 = .error (.compile (.unknownMacro "gone" 1)) := by
    rw [apply, compile_of_error (s := broken) hprogram]
    rfl
  have hlimit : broken.machine.maxSteps = some 9 := rfl
  refine ⟨⟨hs, fun op hop => ⟨hedits op hop, hrefused op (hedits op hop)⟩⟩,
    ⟨hmove, hphase, hscene, hcursor⟩, ?_, ?_, ?_⟩
  · simp only [List.forall_mem_cons]
    exact ⟨⟨hstepHalted, hrefusedHalted _ hstepHalted⟩, ⟨hrunHalted, hrefusedHalted _ hrunHalted⟩,
      by simp⟩
  · simp only [List.forall_mem_cons]
    exact ⟨⟨hstepBroken, hrefusedBroken _ hstepBroken⟩, ⟨hrunBroken, hrefusedBroken _ hrunBroken⟩,
      by simp⟩
  · have hkeeps := hcompile _ hunknown
    rw [hlimit] at hkeeps
    exact ⟨_, hunknown, hkeeps⟩

end Session

end GridRobot
