import Mathlib
import GridRobot.Machine.Registers
import GridRobot.Proofs.Machine.Coherence

/-!
# The state of a machine in registers

The registers of a machine are written at every exit of a step, and nothing in their type keeps
the cursor, the phase, the status and the trace together.  What does is an invariant: whatever has
been called, they hold what a machine with a log shows whose run is settled.  One square for each
call carries it, the square of a step being one case for each exit.  Jumps back and jumps to
nowhere are allowed in the code, but the targets have to be words, for otherwise the sums that are
computed are not the targets.

The answer to a step is read off the phases before and after it.  An error leaves the phase as it
was, so a phase alone does not tell whether the step has succeeded: registers whose jump is lost
stay at a running phase, and those whose run is over stay over.

**Results.**
* `Machine.registers_step`, `Machine.Ends.registers_ends`: the calls on machines with a log and
  on registers are the same.
* `Registers.Reachable.exists_holds`: whatever has been called, the registers hold what some machine
  shows.
* `Registers.Reachable.coherent_and_answersTruly`: whatever has been called, the registers fit
  together, and the answer to the next step says what it should.
* `Registers.phase_without_answer`: the phase after a step alone does not tell its answer.
-/

namespace GridRobot

/-! ### One step -/

namespace Registers

variable {index size next : Nat} {offset : Int}

theorem jumpTarget_of_landing (hword : (Int64.ofInt (index + offset)).toInt = index + offset)
    (hland : Scene.landing? size index offset = some next) :
    jumpTarget index offset size = .ok next := by
  obtain ⟨htarget, hle⟩ := Scene.landing?_eq_some_iff.1 hland
  rw [jumpTarget, hword, htarget]
  rw [if_neg (by omega), Int.toNat_natCast]

theorem jumpTarget_of_lost (hword : (Int64.ofInt (index + offset)).toInt = index + offset)
    (hland : Scene.landing? size index offset = none) :
    jumpTarget index offset size
      = .error (.jumpOutOfBounds index offset (index + offset) size) := by
  rw [jumpTarget, hword]
  exact if_pos (Scene.landing?_eq_none_iff.1 hland)

variable {r : Registers} {code : Array Instruction} {s t : Scene} {line : Nat} {op : Op}

/-- Taken as a word, the target of a jump is what it is as a whole number. -/
theorem toInt_target (hwords : Code.InWords code.toList) (hi : code[index]? = some ⟨line, op⟩)
    (hd : Instruction.offset? ⟨line, op⟩ = some offset) :
    (Int64.ofInt (index + offset)).toInt = index + offset := by
  have htarget : Instruction.target? ⟨line, op⟩ index = some (index + offset) := by
    rw [Instruction.target?, hd, Option.map_some]
  obtain ⟨hlo, hhi⟩ :=
    hwords _ (Code.mem_targets_iff.2 ⟨index, ⟨line, op⟩, by simpa using hi, htarget⟩)
  rw [Int64.toInt_minValue] at hlo
  rw [Int64.toInt_maxValue] at hhi
  exact Int64.toInt_ofInt_of_le hlo (by omega)

theorem step_of_over (hprogram : r.program = some code) (hphase : r.phase.isFinished = true)
    (s : Scene) : r.step s = (.error (.runFinished r.phase), r, s) := by
  simp [step, hprogram, hphase]

section Exits

variable (hprogram : r.program = some code) (hphase : r.phase.isFinished = false)

include hprogram hphase

theorem step_of_end (hend : code[r.cursor]? = none) (s : Scene) :
    r.step s = (.ok false, r.complete "program completed", s) := by
  simp [step, hprogram, hphase, hend]

variable (hi : code[r.cursor]? = some ⟨line, op⟩) (hwords : Code.InWords code.toList)

include hi

theorem step_of_refused {a : Action} {cause : ActionError}
    (hx : s.Executes code.size r.cursor line op (.refused a cause)) :
    r.step s = (.ok false, { r with
      steps := r.steps + 1
      lastLine := some line
      phase := .failed }.record (LogEntry.stuck line a cause).text, s) := by
  cases hx with
  | refused h => simp [step, hprogram, hphase, hi, h, LogEntry.text]

include hwords

theorem step_of_next {event : Event}
    (hx : s.Executes code.size r.cursor line op (.next next event t)) :
    r.step s = { r with steps := r.steps + 1 }.proceed code.size next event t := by
  cases hx with
  | acted h =>
      simp [step, hprogram, hphase, hi, h]
  | passed h =>
      simp [step, hprogram, hphase, hi, h]
  | skipped h hland =>
      have htarget := jumpTarget_of_landing (toInt_target hwords hi rfl) hland
      simp [step, hprogram, hphase, hi, h, htarget]
  | jumped hland =>
      have htarget := jumpTarget_of_landing (toInt_target hwords hi rfl) hland
      simp [step, hprogram, hphase, hi, htarget]

theorem step_of_lost (hx : s.Executes code.size r.cursor line op (.lost offset)) :
    r.step s = (.error (.jumpOutOfBounds r.cursor offset (r.cursor + offset) code.size),
      { r with steps := r.steps + 1 }, s) := by
  cases hx with
  | skippedOut h hland =>
      have htarget := jumpTarget_of_lost (toInt_target hwords hi rfl) hland
      simp [step, hprogram, hphase, hi, h, htarget]
  | jumpedOut hland =>
      have htarget := jumpTarget_of_lost (toInt_target hwords hi rfl) hland
      simp [step, hprogram, hphase, hi, htarget]

end Exits

end Registers

namespace Run

variable {r r' : Run} {s t : Scene} {answer : Except RunError Bool}

/-- One more entry in the log is written to four registers. -/
theorem registers_cons (code : Array Instruction) (cursor steps : Nat) (entry : LogEntry)
    (log : List LogEntry) (maxSteps : Option Nat) :
    (Run.mk code cursor steps (entry :: log)).registers maxSteps
      = { (Run.mk code cursor steps log).registers maxSteps with
          phase := entry.phase
          lastLine := entry.line? }.record entry.text := by
  simp [registers, Registers.record, phase, status, trace]

/-- Only a run that has not begun is unfinished with its cursor behind the last instruction. -/
theorem Settled.log_eq_nil (h : r.Settled) (hphase : r.phase.isFinished = false)
    (hend : r.code[r.cursor]? = none) : r.log = [] := by
  obtain ⟨code, cursor, steps, _ | ⟨entry, log⟩⟩ := r
  · rfl
  · cases entry with
    | went event => exact absurd h (Nat.not_lt.2 (Array.getElem?_eq_none_iff.1 hend))
    | _ => simp [phase, LogEntry.phase, Phase.isFinished] at hphase

/-- A step of a run and a step in the registers are the same, exit by exit. -/
theorem Steps.registers_step (h : r.Steps s (answer, r', t)) (hsettled : r.Settled)
    (hwords : Code.InWords r.code.toList) (maxSteps : Option Nat) :
    (r.registers maxSteps).step s = (answer, r'.registers maxSteps, t) := by
  cases h with
  | finished hphase =>
      exact Registers.step_of_over rfl hphase s
  | nothingToDo hphase hend =>
      -- The log is empty, so the registers have no line yet that the new entry would hide.
      have hline : (r.registers maxSteps).lastLine = none := by
        simp [registers, hsettled.log_eq_nil hphase hend]
      rw [Registers.step_of_end rfl hphase hend, registers_cons, Registers.complete]
      simp [Registers.record, LogEntry.phase, LogEntry.text, LogEntry.line?, ← hline]
  | @went i next event _ hphase hi hx hnext =>
      rw [Registers.step_of_next rfl hphase hi hwords hx, Registers.proceed, if_pos hnext,
        registers_cons]
      rfl
  | @ended i next event _ hphase hi hx hnext =>
      rw [Registers.step_of_next rfl hphase hi hwords hx, Registers.proceed,
        if_neg (Nat.not_lt.2 hnext), registers_cons]
      rfl
  | stuck hphase hi hx =>
      rw [Registers.step_of_refused rfl hphase hi hx, registers_cons]
      rfl
  | lost hphase hi hx =>
      rw [Registers.step_of_lost rfl hphase hi hwords hx]
      rfl

end Run

/-! ### Calls -/

namespace Registers

/-- The rounds of a run to the end come to a result. -/
inductive Ends : Registers → Scene → Except RunError Phase × Registers × Scene → Prop
  | stopped {r : Registers} {s : Scene} {result : Except RunError Phase × Registers × Scene}
      (h : r.round s = .inr result) : Ends r s result
  | next {r r' : Registers} {s t : Scene} {result : Except RunError Phase × Registers × Scene}
      (h : r.round s = .inl (r', t)) (hrest : Ends r' t result) : Ends r s result

theorem Ends.runToEnd_eq {r : Registers} {s : Scene}
    {result : Except RunError Phase × Registers × Scene} (h : r.Ends s result) :
    r.runToEnd s = result := by
  induction h with
  | stopped h => rw [Registers.runToEnd_eq, h]
  | next h _ ih =>
      rw [Registers.runToEnd_eq, h]
      exact ih

end Registers

namespace Machine

/-- The targets of the loaded code are words. -/
def InWords (m : Machine) : Prop :=
  ∀ code, m.code? = some code → code.InWords

variable {m : Machine} {s : Scene}

theorem InWords.step (h : m.InWords) (s : Scene) : (m.step s).2.1.InWords := by
  intro code hcode
  exact h code (by rwa [code?_step] at hcode)

theorem registers_of_no_run (h : m.current = none) : m.registers = .idle m.maxSteps := by
  rw [registers, h]

theorem registers_of_run {r : Run} (h : m.current = some r) :
    m.registers = r.registers m.maxSteps := by
  rw [registers, h]

theorem registers_load (m : Machine) (code : Code) :
    m.registers.load code = (m.load code).registers := by
  obtain ⟨maxSteps, _ | r⟩ := m
  · rfl
  · rfl

theorem registers_unload (m : Machine) : m.registers.unload = m.unload.registers := by
  obtain ⟨maxSteps, _ | r⟩ := m
  · rfl
  · rfl

theorem registers_exhausted? (m : Machine) :
    m.registers.maxSteps.filter (· ≤ m.registers.steps) = m.exhausted? := by
  obtain ⟨maxSteps, _ | r⟩ := m
  · rfl
  · rfl

theorem registers_phase (m : Machine) : m.registers.phase = m.phase := by
  obtain ⟨maxSteps, _ | r⟩ := m
  · rfl
  · rfl

/-- A step of a machine and a step in its registers are the same. -/
theorem registers_step (hsettled : m.Settled) (hwords : m.InWords) (s : Scene) :
    m.registers.step s = stored (m.step s) := by
  rcases m.step_cases s with ⟨hnone, hstep⟩ | ⟨r, answer, r', t, hr, hsteps, hstep⟩
  · rw [hstep, stored, registers_of_no_run hnone]
    rfl
  · rw [hstep, stored, registers_of_run hr]
    exact hsteps.registers_step (hsettled r hr) (hwords _ (by simp [code?, hr])) m.maxSteps

/-- A round of a run to the end and a round in the registers are the same. -/
theorem registers_round (hsettled : m.Settled) (hwords : m.InWords) (s : Scene) :
    m.registers.round s = (m.round s).map (fun (m, s) => (m.registers, s)) stored := by
  rw [Registers.round, registers_exhausted?, round]
  cases hlimit : m.exhausted? with
  | some limit => rfl
  | none =>
      dsimp only
      rw [registers_step hsettled hwords]
      rcases m.step s with ⟨e | goesOn, m', t⟩
      · rfl
      · cases goesOn with
        | true => rfl
        | false => simp [stored, registers_phase]

/-- A run to the end that ends does the same in the registers. -/
theorem Ends.registers_ends {n : Nat} {result : Except RunError Phase × Machine × Scene}
    (h : m.Ends s n result) (hsettled : m.Settled) (hwords : m.InWords) :
    m.registers.Ends s (stored result) := by
  induction h with
  | exhausted hlimit =>
      refine .stopped ?_
      rw [registers_round hsettled hwords, round, hlimit]
      rfl
  | stopped hlimit hstep =>
      refine .stopped ?_
      rw [registers_round hsettled hwords, round, hlimit, hstep]
      rfl
  | failed hlimit hstep =>
      refine .stopped ?_
      rw [registers_round hsettled hwords, round, hlimit, hstep]
      rfl
  | @next m m' s t n result hlimit hstep _ ih =>
      have hsettled' := hsettled.step s
      have hwords' := hwords.step s
      rw [hstep] at hsettled' hwords'
      refine .next ?_ (ih hsettled' hwords')
      rw [registers_round hsettled hwords, round, hlimit, hstep]
      rfl

end Machine

namespace Registers

variable {r r' : Registers} {m : Machine} {s t : Scene}

/-- The registers that calls lead to, each call made in any scene.  Of the code that is loaded only
this is asked, that the targets of its jumps are words.  A run to the end leads somewhere only if
it ends. -/
inductive Reachable : Registers → Prop
  | idle (maxSteps : Option Nat) : Reachable (idle maxSteps)
  | load {r : Registers} (h : Reachable r) {code : Code} (hwords : code.InWords) :
      Reachable (r.load code)
  | unload {r : Registers} (h : Reachable r) : Reachable r.unload
  | step {r : Registers} (h : Reachable r) (s : Scene) : Reachable (r.step s).2.1
  | run {r : Registers} (h : Reachable r) {s : Scene}
      {result : Except RunError Phase × Registers × Scene} (hends : r.Ends s result) :
      Reachable result.2.1

/-- The registers hold what a machine shows, whose run is settled and whose targets are words. -/
structure Holds (r : Registers) (m : Machine) : Prop where
  eq : m.registers = r
  settled : m.Settled
  inWords : m.InWords

theorem holds_of_no_run (h : m.current = none) : m.registers.Holds m where
  eq := rfl
  settled := Machine.settled_of_no_run h
  inWords := by simp [Machine.InWords, Machine.code?, h]

theorem Holds.load (h : r.Holds m) {code : Code} (hwords : code.InWords) :
    (r.load code).Holds (m.load code) where
  eq := by rw [← h.eq, Machine.registers_load]
  settled := by
    intro run hrun
    cases hrun
    rfl
  inWords := by
    intro code' hcode
    rw [Machine.code?_load] at hcode
    cases hcode
    exact hwords

theorem Holds.step (h : r.Holds m) (s : Scene) : (r.step s).2.1.Holds (m.step s).2.1 where
  eq := by rw [← h.eq, Machine.registers_step h.settled h.inWords, Machine.stored]
  settled := h.settled.step s
  inWords := h.inWords.step s

/-- A round changes the registers by a step or not at all. -/
theorem Holds.round (h : r.Holds m) (s : Scene) :
    match r.round s with
    | .inl (r', _) => ∃ m', r'.Holds m'
    | .inr result => ∃ m', result.2.1.Holds m' := by
  rw [Registers.round]
  cases r.maxSteps.filter (· ≤ r.steps) with
  | some limit =>
      exact ⟨m, h⟩
  | none =>
      have hkeep := h.step s
      rcases hstep : r.step s with ⟨e | goesOn, r', t⟩
      · rw [hstep] at hkeep
        exact ⟨_, hkeep⟩
      · rw [hstep] at hkeep
        cases goesOn with
        | true => exact ⟨_, hkeep⟩
        | false => exact ⟨_, hkeep⟩

theorem Ends.exists_holds {result : Except RunError Phase × Registers × Scene}
    (hends : r.Ends s result) (h : r.Holds m) : ∃ m', result.2.1.Holds m' := by
  induction hends generalizing m with
  | @stopped _ s _ hround =>
      have hkeep := h.round s
      rwa [hround] at hkeep
  | @next _ _ s _ _ hround _ ih =>
      have hkeep := h.round s
      rw [hround] at hkeep
      obtain ⟨_, hkeep⟩ := hkeep
      exact ih hkeep

theorem Reachable.exists_holds (h : r.Reachable) : ∃ m, r.Holds m := by
  induction h with
  | idle maxSteps =>
      exact ⟨.idle maxSteps, holds_of_no_run (m := .idle maxSteps) rfl⟩
  | load _ hwords ih =>
      obtain ⟨m, hm⟩ := ih
      exact ⟨_, hm.load hwords⟩
  | unload _ ih =>
      obtain ⟨m, hm⟩ := ih
      refine ⟨m.unload, ?_⟩
      rw [← hm.eq, Machine.registers_unload]
      exact holds_of_no_run rfl
  | step _ s ih =>
      obtain ⟨m, hm⟩ := ih
      exact ⟨_, hm.step s⟩
  | run _ hends ih =>
      obtain ⟨m, hm⟩ := ih
      exact hends.exists_holds hm

/-! ### Registers that fit together -/

/-- The cursor, the phase, the status, the trace and the code fit together. -/
structure Coherent (r : Registers) : Prop where
  cursor_le : r.cursor ≤ r.code.length
  uncompiled : r.phase = .uncompiled ↔ r.program = none
  ready : r.phase = .ready → r.cursor = 0 ∧ r.trace = #[]
  running : r.phase = .running → r.cursor < r.code.length ∧ r.trace ≠ #[]
  completed : r.phase = .completed → r.cursor = r.code.length
  failed : r.phase = .failed →
    ∃ i a, r.code[r.cursor]? = some i ∧ i.op = .act a ∧ r.line? = some i.line
  status : r.trace ≠ #[] → r.trace.back? = some r.status

theorem coherent_idle (maxSteps : Option Nat) : (idle maxSteps).Coherent := by
  refine ⟨Nat.le_refl 0, by simp [idle], ?_, ?_, ?_, ?_, fun htrace => absurd rfl htrace⟩
  all_goals
    intro hphase
    cases hphase

theorem coherent_of_settled {run : Run} (h : run.Settled) (maxSteps : Option Nat) :
    (run.registers maxSteps).Coherent where
  cursor_le := h.cursor_le
  uncompiled := iff_of_false run.phase_ne_uncompiled (by simp [Run.registers])
  ready := fun hphase => by simpa [Run.registers] using h.of_ready hphase
  running := fun hphase => by simpa [Run.registers, code] using h.of_running hphase
  completed := h.of_completed
  failed := fun hphase => by
    obtain ⟨line, a, hi, hline⟩ := h.of_failed hphase
    exact ⟨⟨line, .act a⟩, a, by simpa [code, Run.registers] using hi, rfl, hline⟩
  status := fun htrace => by
    simpa [Run.registers] using run.getLast?_trace (by simpa [Run.registers] using htrace)

theorem Holds.coherent (h : r.Holds m) : r.Coherent := by
  rw [← h.eq]
  cases hr : m.current with
  | none =>
      rw [Machine.registers_of_no_run hr]
      exact coherent_idle m.maxSteps
  | some run =>
      rw [Machine.registers_of_run hr]
      exact coherent_of_settled (h.settled run hr) m.maxSteps

/-! ### The answer to a step -/

/-- What the answer to a step in a scene says about the registers before and after the step. -/
structure AnswersTruly (r : Registers) (s : Scene) : Prop where
  phase_of_ok : ∀ goesOn, (r.step s).1 = .ok goesOn →
    (goesOn = true ↔ (r.step s).2.1.phase = .running) ∧
      (goesOn = false ↔ (r.step s).2.1.phase = .completed ∨ (r.step s).2.1.phase = .failed)
  not_compiled : (r.step s).1 = .error .notCompiled ↔ r.phase = .uncompiled
  run_finished : ∀ p, (r.step s).1 = .error (.runFinished p) ↔
    r.phase = p ∧ (p = .completed ∨ p = .failed)
  jump_out_of_bounds : ∀ index offset target size,
    (r.step s).1 = .error (.jumpOutOfBounds index offset target size) ↔
      r.phase.isFinished = false ∧ s.LosesJump r.code r.cursor offset ∧
        index = r.cursor ∧ target = r.cursor + offset ∧ size = r.code.length
  no_limit : ∀ limit, (r.step s).1 ≠ .error (.stepLimitExceeded limit)
  keeps_of_error : ∀ e, (r.step s).1 = .error e →
    (r.step s).2.2 = s ∧ (r.step s).2.1 = { r with steps := r.steps + e.lostJumps }

theorem answersTruly_idle (maxSteps : Option Nat) (s : Scene) :
    (idle maxSteps).AnswersTruly s := by
  have hstep : (idle maxSteps).step s = (.error .notCompiled, idle maxSteps, s) := rfl
  refine ⟨?_, ?_, ?_, ?_, ?_, ?_⟩
  · simp [hstep]
  · rw [hstep]
    exact iff_of_true rfl rfl
  · intro p
    rw [hstep]
    constructor
    · intro heq
      cases heq
    · rintro ⟨rfl, hp⟩
      simp [idle] at hp
  · intro index offset target size
    rw [hstep]
    constructor
    · intro heq
      cases heq
    · rintro ⟨_, ⟨⟨i, hi, _⟩, _⟩, _⟩
      simp [idle, code] at hi
  · simp [hstep]
  · rw [hstep]
    rintro e ⟨⟩
    exact ⟨rfl, rfl⟩

theorem answersTruly_of_settled {run : Run} (h : run.Settled)
    (hwords : Code.InWords run.code.toList) (maxSteps : Option Nat) (s : Scene) :
    (run.registers maxSteps).AnswersTruly s := by
  rcases hx : run.step s with ⟨answer, run', t⟩
  have hsteps : run.Steps s (answer, run', t) := hx ▸ run.steps_step s
  have hstep := hsteps.registers_step h hwords maxSteps
  refine ⟨?_, ?_, ?_, ?_, ?_, ?_⟩
  · rw [hstep]
    rintro goesOn rfl
    exact hsteps.phase_of_ok
  · rw [hstep]
    exact iff_of_false (fun heq => by cases heq; cases hsteps) run.phase_ne_uncompiled
  · intro p
    rw [hstep, ← Phase.isFinished_iff]
    exact hsteps.eq_runFinished_iff p
  · intro index offset target size
    rw [hstep]
    exact hsteps.eq_jumpOutOfBounds_iff
  · rw [hstep]
    rintro limit rfl
    cases hsteps
  · rw [hstep]
    rintro e rfl
    obtain ⟨rfl, rfl⟩ := hsteps.keeps_of_error
    exact ⟨rfl, rfl⟩

theorem Holds.answersTruly (h : r.Holds m) (s : Scene) : r.AnswersTruly s := by
  rw [← h.eq]
  cases hr : m.current with
  | none =>
      rw [Machine.registers_of_no_run hr]
      exact answersTruly_idle m.maxSteps s
  | some run =>
      rw [Machine.registers_of_run hr]
      exact answersTruly_of_settled (h.settled run hr) (h.inWords _ (by simp [Machine.code?, hr]))
        m.maxSteps s

/-- **The state of a machine.**  Whatever has been called and whatever has been done to the scene
in between, the cursor, the phase, the status, the trace and the code fit together, and the answer
to the next step tells where the machine stood and where it stands then. -/
theorem Reachable.coherent_and_answersTruly (h : r.Reachable) :
    r.Coherent ∧ ∀ s, r.AnswersTruly s := by
  obtain ⟨m, hm⟩ := h.exists_holds
  exact ⟨hm.coherent, hm.answersTruly⟩

/-- A loop is cut off by the limit and unloaded, and a code whose second instruction may jump
to nowhere is loaded and stepped once, in front of a wall. -/
theorem coherent_and_answersTruly_before_lost_jump :
    let s : Scene := ⟨⟨0, 0, .east⟩, ⟨1, 1, #[.empty]⟩⟩
    let turning : Code := [⟨0, .act .turnLeft⟩, ⟨1, .jump (-1)⟩]
    let leaving : Code := [⟨0, .act .turnLeft⟩, ⟨1, .jumpIfFalse .frontIsClear (-5)⟩]
    let cutOff := ((idle (some 3)).load turning).runToEnd s
    let r := ((cutOff.2.1.unload.load leaving).step s).2.1
    turning.InWords ∧ leaving.InWords ∧ cutOff.1 = .error (.stepLimitExceeded 3) ∧ r.Reachable ∧
      r.phase = .running ∧ (r.step s).1 = .error (.jumpOutOfBounds 1 (-5) (-4) 2) ∧
      r.Coherent ∧ ∀ s, r.AnswersTruly s := by
  intro s turning leaving cutOff r
  have hturning : turning.InWords := by decide
  have hleaving : leaving.InWords := by decide
  -- the registers after the limit are those of the run with these three entries
  let run : Run := ⟨turning.toArray, 1, 3,
    [.went (.acted 0 .turnLeft ⟨0, 0, .west⟩), .went (.jumped 1),
      .went (.acted 0 .turnLeft ⟨0, 0, .north⟩)]⟩
  have hmachine : ((Machine.idle (some 3)).load turning).Ends s 3
      (.error (.stepLimitExceeded 3), ⟨some 3, some run⟩, ⟨⟨0, 0, .west⟩, s.world⟩) :=
    .next rfl rfl (.next rfl rfl (.next rfl rfl (.exhausted rfl)))
  have hholds := (holds_of_no_run (m := .idle (some 3)) rfl).load hturning
  have hends : ((idle (some 3)).load turning).Ends s
      (.error (.stepLimitExceeded 3), run.registers (some 3), ⟨⟨0, 0, .west⟩, s.world⟩) :=
    hmachine.registers_ends hholds.settled hholds.inWords
  have hcutOff : cutOff
      = (.error (.stepLimitExceeded 3), run.registers (some 3), ⟨⟨0, 0, .west⟩, s.world⟩) :=
    hends.runToEnd_eq
  have hreach : r.Reachable := by
    refine .step (.load (.unload ?_) hleaving) s
    rw [hcutOff]
    exact .run (.load (.idle (some 3)) hturning) hends
  refine ⟨hturning, hleaving, ?_, hreach, ?_, ?_, hreach.coherent_and_answersTruly⟩
  · exact congrArg Prod.fst hcutOff
  · rfl
  · rfl

/-- Without the condition that the step succeeds, the phase after it does not tell its answer: a
jump that is lost, with a target that is a word, leaves a running phase, and a run that is over
stays over. -/
theorem phase_without_answer :
    let s : Scene := ⟨⟨0, 0, .east⟩, ⟨1, 1, #[.empty]⟩⟩
    let leaving : Code := [⟨0, .act .turnLeft⟩, ⟨1, .jump (-5)⟩]
    let r := (((idle none).load leaving).step s).2.1
    let finished := (((idle none).load []).step s).2.1
    (leaving.InWords ∧ r.Reachable ∧
      ¬ ((r.step s).1 = .ok true ↔ (r.step s).2.1.phase = .running)) ∧
      finished.Reachable ∧ ¬ ((finished.step s).1 = .ok false ↔
        (finished.step s).2.1.phase = .completed ∨ (finished.step s).2.1.phase = .failed) := by
  intro s leaving r finished
  have hleaving : leaving.InWords := by decide
  have hr : r.Reachable := .step (.load (.idle none) hleaving) s
  have hend : finished.Reachable := .step (.load (.idle none) (by decide)) s
  have hlost : (r.step s).1 = .error (.jumpOutOfBounds 1 (-5) (-4) 2) := rfl
  have hfinished : (finished.step s).1 = .error (.runFinished .completed) := rfl
  refine ⟨⟨hleaving, hr, ?_⟩, hend, ?_⟩
  · intro h
    have hok := h.2 rfl
    rw [hlost] at hok
    cases hok
  · intro h
    have hok := h.2 (.inl rfl)
    rw [hfinished] at hok
    cases hok

end Registers

end GridRobot
