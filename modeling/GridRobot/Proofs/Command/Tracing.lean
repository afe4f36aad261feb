import Mathlib
import GridRobot.Command.Execution
import GridRobot.Proofs.Machine.Limits
import GridRobot.Proofs.Session.Files
import GridRobot.Proofs.Session.Refusals

/-!
# Running a session file with a trace

A session file can be run with a status line for every step or only for the last one.  The two
modes are two loops: one that steps by hand and does not look at the limit, and the run to the
end, which does.  Both are compared with the run without a limit, whose log has one entry for
every call of the step.

With the trace all of these calls are made, and a line is printed for each.  Without it they are
made as long as the limit is not reached, and where it is reached before the last call, the run
ends with an error that the run with the trace does not have.

**Results.**
* `Printout.stepping_of_ends`: stepping prints what the run logs.
* `Printout.run_with_trace`, `Printout.run_within_limit`, `Printout.run_beyond_limit`: what is
  printed about compiled code.
* `Command.trace_adds_lines`: what the two modes leave behind, for every file and limit.
* `Command.trace_ignores_limit`: a run that only one of the modes stops.
-/

namespace GridRobot

namespace Printout

/-- Lines of text, one under the other. -/
def lines (trace : List String) : String :=
  String.join (trace.map (· ++ "\n"))

theorem lines_concat (trace : List String) (line : String) :
    lines (trace ++ [line]) = lines trace ++ line ++ "\n" := by
  simp [lines, String.append_assoc]

/-- Stepping prints the lines that the run logs, whatever the limit, and then how it ends. -/
theorem stepping_of_ends {m m' : Machine} {scene scene' : Scene} {p : Phase} {n : Nat}
    (h : m.Ends scene n (.ok p, m', scene')) (program : Program) (macros : Macros)
    (maxSteps : Option Nat) (first : String) :
    stepping ⟨scene, program, macros, m.limit maxSteps⟩ (first ++ lines m.trace) =
      (ending ⟨scene', program, macros, m'⟩).after (first ++ lines m'.trace) := by
  -- The lines that are printed so far are those logged so far: this is what a round keeps.
  induction h using Machine.Ends.ok_induction with
  | stopped m scene _ hstep _ =>
      rw [stepping_eq, round, Session.step, Machine.step_limit hstep, Machine.trace_of_step hstep,
        lines_concat]
      simp only [Except.map, Session.report, String.append_assoc]
      rfl
  | next m₁ m₂ scene₁ scene₂ n _ hstep _ ih =>
      rw [← ih, stepping_eq, round, Session.step, Machine.step_limit hstep,
        Machine.trace_of_step hstep, lines_concat]
      simp only [Except.map, Session.report, String.append_assoc]
      rfl

end Printout

/-- The session after its program has been compiled and run, without a limit. -/
def Session.played (s : Session) : Session :=
  (s.limitSteps none).compile.2.run.2

variable {s : Session} {code : Code}

theorem Session.compile_limitSteps (hcode : s.program.compile s.macros = .ok code)
    (maxSteps : Option Nat) :
    (s.limitSteps maxSteps).compile = (.ok code.length,
      ⟨s.scene, s.program, s.macros, ((Machine.idle none).load code).limit maxSteps⟩) :=
  compile_of_ok hcode

theorem Session.played_of_ends (hcode : s.program.compile s.macros = .ok code) {n : Nat}
    {answer : Except RunError Phase} {m : Machine} {scene : Scene}
    (hends : ((Machine.idle none).load code).Ends s.scene n (answer, m, scene)) :
    s.played = ⟨scene, s.program, s.macros, m⟩ := by
  have hrun := hends.runToEnd_eq
  rw [played, compile_limitSteps hcode, run]
  simp only [Machine.limit, Machine.load, Machine.idle] at hrun ⊢
  rw [hrun]

/-- Compiled code runs to its end when there is no limit. -/
theorem Session.exists_ends_of_compile (hcode : s.program.compile s.macros = .ok code) :
    ∃ p n m, ((Machine.idle none).load code).Ends s.scene n (.ok p, m, s.played.scene) ∧
      s.played = ⟨s.played.scene, s.program, s.macros, m⟩ ∧
      s.played.machine.trace.length = n := by
  have hcourse : ((Machine.idle none).load code).OnCourse :=
    Machine.onCourse_load (Program.lowersFrom_of_compile hcode).forward
  obtain ⟨n, ⟨e | p, m, scene⟩, hends⟩ := hcourse.ends s.scene
  · obtain ⟨k, rfl⟩ := hends.exceeded_of_unfinished hcourse (by simp) rfl
    cases hends.of_exceeded.1
  · have hplayed := played_of_ends hcode hends
    obtain ⟨_, _, hlength⟩ := hends.exists_trace
    rw [hplayed]
    exact ⟨p, n, m, hends, rfl, hlength.trans (Nat.zero_add n)⟩

namespace Printout

/-- With the trace a run prints a line for every call of the step, whatever the limit. -/
theorem run_with_trace (hcode : s.program.compile s.macros = .ok code) (maxSteps : Option Nat) :
    run (s.limitSteps maxSteps) true =
      (ending s.played).after
        (s!"compiled {code.length} instructions\n" ++ lines s.played.machine.trace) := by
  obtain ⟨p, n, m, hends, hplayed, _⟩ := Session.exists_ends_of_compile hcode
  have hstepping := stepping_of_ends hends s.program s.macros maxSteps
    s!"compiled {code.length} instructions\n"
  have hempty : lines ((Machine.idle none).load code).trace = "" := rfl
  rw [hempty, String.append_empty] at hstepping
  rw [run, Session.compile_limitSteps hcode, hplayed]
  exact hstepping

/-- Without the trace a run within the limit prints the last line alone. -/
theorem run_within_limit (hcode : s.program.compile s.macros = .ok code) {maxSteps : Option Nat}
    (hwithin : ∀ k, maxSteps = some k → s.played.machine.trace.length ≤ k) :
    run (s.limitSteps maxSteps) false =
      (ending s.played).after
        (s!"compiled {code.length} instructions\n" ++ s.played.machine.status ++ "\n") := by
  obtain ⟨p, n, m, hends, hplayed, rfl⟩ := Session.exists_ends_of_compile hcode
  have hfits : ∀ k, maxSteps = some k → 0 + s.played.machine.trace.length ≤ k :=
    fun k hk => (Nat.zero_add _).trans_le (hwithin k hk)
  have hrest := hends.within_limit hfits
  simp only [run, Session.compile_limitSteps hcode, Session.run, hrest.runToEnd_eq,
    Bool.false_eq_true, if_false]
  rw [hplayed]
  rfl

/-- Without the trace a run beyond the limit is cut off. -/
theorem run_beyond_limit (hcode : s.program.compile s.macros = .ok code) {k : Nat}
    (hbeyond : k < s.played.machine.trace.length) :
    run (s.limitSteps (some k)) false =
      ⟨s!"compiled {code.length} instructions\n",
        some (RunError.stepLimitExceeded k).message⟩ := by
  obtain ⟨p, n, m, hends, _, rfl⟩ := Session.exists_ends_of_compile hcode
  obtain ⟨calls, x, hcut⟩ := hends.beyond_limit (hbeyond.trans_eq (Nat.zero_add _).symm)
  simp only [run, Session.compile_limitSteps hcode, Session.run, hcut.runToEnd_eq,
    Bool.false_eq_true, if_false]

end Printout

theorem Outcome.ofPrintout_after (p : Printout) (text : String) :
    ofPrintout (p.after text) =
      { ofPrintout p with output := text ++ (ofPrintout p).output } := by
  obtain ⟨_, _ | e⟩ := p <;> rfl

/-- The session in the file that a path leads to. -/
def Folder.session (f : Folder) (path : String) : Except SessionError Session :=
  match (resolve? path).bind f.read? with
  | some bytes => Session.ofFile path bytes
  | none => .error .file

/-- The file of a session is read back from a folder, unless its text is nested too deep. -/
theorem Folder.session_write (hs : s.scene.Sound) (h : s.Storable)
    (hdepth : s.toJson.depth ≤ Json.maxDepth) (hidle : s.machine = .idle none) {path : String}
    (hpath : resolve? path = some path) (f : Folder) :
    (f.write path (s.toFile path)).session path = .ok s := by
  rw [session, hpath, Option.bind_some, read?_write, if_pos rfl]
  refine (Session.ofFile_toFile hs h path).trans ?_
  rw [if_neg fun hdeep => Nat.not_lt_of_le hdepth hdeep.2, ← hidle]

namespace Command

/-- What the words of the command line leave behind when they are carried out in a folder: the
outcome, and the folder. -/
def inFolder (words : List String) (f : Folder) : Outcome × Folder :=
  (execute Folder.disk words).run f

variable {words : List String} {f : Folder} {file : String} {trace : Bool} {limit : Option Nat}

theorem inFolder_of_run (hwords : parse words = .ok (.run file trace limit)) :
    inFolder words f =
      (match f.session file with
        | .ok s => .ofPrintout (.run (s.limitSteps limit) trace)
        | .error e => .failed s!"failed to load '{file}'" e.message, f) := by
  have hread : (Folder.disk.read file).run f = pure ((Folder.resolve? file).bind f.read?, f) := rfl
  rw [inFolder, execute, hwords]
  simp only [perform, withSession, StateT.run_bind, hread, pure_bind]
  show StateT.run (match f.session file with | .ok s => _ | .error e => _) f = _
  cases f.session file <;> rfl

/-- The words for a run of a file with a limit, with and without the trace. -/
theorem parse_run_limit {value : String} {n : Nat} (hfile : Word.ofString file = .plain file)
    (hne : file ≠ "") (hvalue : Word.ofString value = .plain value)
    (hn : readCount? value = some n) :
    parse ["run", file, "--max-steps", value] = .ok (.run file false (some n)) ∧
      parse ["run", file, "--max-steps", value, "--trace"] = .ok (.run file true (some n)) := by
  have hlimit : Word.ofString "--max-steps" = .long "max-steps" none := by cbv
  have htrace : Word.ofString "--trace" = .long "trace" none := by cbv
  constructor
  · simp [parse, ofRunWords, runGrammar, Taken.takeAll, Taken.nothing, Taken.takePlain,
      Taken.takeValue, hfile, hne, hlimit, hvalue, hn, bind, Except.bind, pure, Except.pure]
  · simp [parse, ofRunWords, runGrammar, Taken.takeAll, Taken.nothing, Taken.takePlain,
      Taken.takeValue, Taken.takeSwitch, hfile, hne, hlimit, hvalue, htrace, hn, bind,
      Except.bind, pure, Except.pure]

/-! ### Two turns in a file -/

/-- A session in the smallest world. -/
def inCell (program : Program) : Session :=
  ⟨⟨⟨0, 0, .east⟩, ⟨1, 1, #[.empty]⟩⟩, program, .empty, .idle none⟩

theorem session_inCell {program : Program} (hprogram : Block.ListStorable program)
    (hdepth : (inCell program).toJson.depth ≤ Json.maxDepth) (f : Folder) :
    (f.write "s.json" ((inCell program).toFile "s.json")).session "s.json"
      = .ok (inCell program) := by
  have hnew : Session.new 1 1 = .ok (inCell []) := by cbv
  have hsound : (inCell program).scene.Sound := (Session.Reachable.made (.new hnew)).sound
  have hmacros : Macros.empty.Storable := ⟨by decide, by simp [Macros.empty]⟩
  have hstorable : (inCell program).Storable := ⟨hprogram, hmacros⟩
  have hpath : Folder.resolve? "s.json" = some "s.json" := by cbv
  exact Folder.session_write hsound hstorable hdepth rfl hpath f

/-- A robot that turns twice. -/
def turning : Session :=
  inCell [.act .turnLeft, .act .turnLeft]

/-- The folder with the file of such a session. -/
def turningFolder : Folder :=
  Folder.empty.write "s.json" (turning.toFile "s.json")

theorem session_turningFolder : turningFolder.session "s.json" = .ok turning :=
  session_inCell ⟨by decide, by simpa using .act⟩ (by cbv) .empty

/-- The code of two turns. -/
def turningCode : Code :=
  [⟨0, .act .turnLeft⟩, ⟨1, .act .turnLeft⟩]

theorem compile_turning : turning.program.compile turning.macros = .ok turningCode := by
  cbv

theorem played_turning :
    turning.played = ⟨⟨⟨0, 0, .west⟩, ⟨1, 1, #[.empty]⟩⟩, turning.program, turning.macros,
      ⟨none, some ⟨turningCode.toArray, 2, 2,
        [.ended (.acted 1 .turnLeft ⟨0, 0, .west⟩),
          .went (.acted 0 .turnLeft ⟨0, 0, .north⟩)]⟩⟩⟩ := by
  have hclient : ((Machine.idle none).load turningCode).client 2 turning.scene
      = some (2, .ok .completed, _, _) := rfl
  exact Session.played_of_ends compile_turning (Machine.client_eq_some_iff.1 hclient).2

theorem parse_turning :
    parse ["run", "s.json", "--max-steps", "1"] = .ok (.run "s.json" false (some 1)) ∧
      parse ["run", "s.json", "--max-steps", "1", "--trace"]
        = .ok (.run "s.json" true (some 1)) := by
  have hone : readCount? "1" = some 1 := by
    rw [readCount?]
    rfl
  exact parse_run_limit (by cbv) (by decide) (by cbv) hone

/-! ### The two modes -/

/-- **Tracing.**  For every file of every folder and every limit: a file that cannot be loaded or
compiled is reported in the same way with and without the trace.  Otherwise the trace adds the
lines of the earlier steps to what is printed, with the same code, the same errors and the same
scene, provided that the run without a limit needs no more steps than the limit allows.  If it
needs more, the run with the trace goes on to its end all the same, and the one without the trace
stops with an error and prints no scene. -/
theorem trace_adds_lines {words words' : List String} {file : String} {limit : Option Nat}
    (hplain : parse words = .ok (.run file false limit))
    (htraced : parse words' = .ok (.run file true limit)) (f : Folder) :
    let plain := inFolder words f
    let traced := inFolder words' f
    (∀ e, f.session file = .error e →
      plain = (.failed s!"failed to load '{file}'" e.message, f) ∧ traced = plain) ∧
    (∀ s e, f.session file = .ok s → s.program.compile s.macros = .error e →
      plain = (⟨1, "", s!"Error: {e.message}\n"⟩, f) ∧ traced = plain) ∧
    ∀ s code, f.session file = .ok s → s.program.compile s.macros = .ok code →
      let t := s.played
      let last := Outcome.ofPrintout (.ending t)
      let first := s!"compiled {code.length} instructions\n"
      (∃ earlier, t.machine.trace = earlier ++ [t.machine.status]) ∧
      traced = ({ last with
        output := first ++ Printout.lines t.machine.trace ++ last.output }, f) ∧
      ((∀ n, limit = some n → t.machine.trace.length ≤ n) →
        plain = ({ last with
          output := first ++ t.machine.status ++ "\n" ++ last.output }, f)) ∧
      ∀ n, limit = some n → n < t.machine.trace.length →
        plain = (⟨1, first, s!"Error: {(RunError.stepLimitExceeded n).message}\n"⟩, f) := by
  intro plain traced
  have hplainEq : plain = _ := inFolder_of_run hplain
  have htracedEq : traced = _ := inFolder_of_run htraced
  refine ⟨?_, ?_, ?_⟩
  · intro e hfile
    rw [hplainEq, htracedEq, hfile]
    exact ⟨rfl, rfl⟩
  · intro s e hfile hcode
    have hrun := Printout.run_of_compile_error (s := s.limitSteps limit) hcode
    rw [hplainEq, htracedEq, hfile]
    simp only [hrun, and_true]
    rfl
  · intro s code hfile hcode t last first
    rw [hplainEq, htracedEq, hfile]
    obtain ⟨p, n, m, hends, hplayed, _⟩ := Session.exists_ends_of_compile hcode
    obtain ⟨earlier, htrace, _⟩ := hends.exists_trace
    refine ⟨⟨earlier, ?_⟩, ?_, ?_, ?_⟩
    · show s.played.machine.trace = earlier ++ [s.played.machine.status]
      rw [hplayed]
      exact htrace
    · simp only [Printout.run_with_trace hcode, Outcome.ofPrintout_after]
      rfl
    · intro hwithin
      simp only [Printout.run_within_limit hcode hwithin, Outcome.ofPrintout_after]
      rfl
    · rintro n rfl hbeyond
      simp only [Printout.run_beyond_limit hcode hbeyond]
      rfl

/-- Two steps are as many as a limit of two allows, and more than a limit of one. -/
theorem trace_adds_lines_while_turning :
    let f := turningFolder
    let g := Folder.empty.write "s.json" ((inCell [.call "gone"]).toFile "s.json")
    let t := turning.played
    let last := Outcome.ofPrintout (.ending t)
    let first := s!"compiled {2} instructions\n"
    let unknown := CompileError.unknownMacro "gone" 0
    t.machine.trace.length = 2 ∧
    inFolder ["run", "s.json", "--max-steps", "1", "--trace"] f =
      ({ last with output := first ++ Printout.lines t.machine.trace ++ last.output }, f) ∧
    inFolder ["run", "s.json", "--max-steps", "1"] f =
      (⟨1, first, s!"Error: {(RunError.stepLimitExceeded 1).message}\n"⟩, f) ∧
    inFolder ["run", "s.json", "--max-steps", "2"] f =
      ({ last with output := first ++ t.machine.status ++ "\n" ++ last.output }, f) ∧
    inFolder ["run", "s.json", "--max-steps", "1"] .empty =
      (.failed "failed to load 's.json'" SessionError.file.message, .empty) ∧
    inFolder ["run", "s.json", "--max-steps", "1"] g =
      (⟨1, "", s!"Error: {unknown.message}\n"⟩, g) := by
  intro f g t last first unknown
  have hlength : t.machine.trace.length = 2 := by
    unfold t
    rw [played_turning]
    rfl
  have htwo : readCount? "2" = some 2 := by
    rw [readCount?]
    rfl
  obtain ⟨hplain, htraced⟩ := parse_turning
  have hfile : Word.ofString "s.json" = .plain "s.json" := by cbv
  obtain ⟨hplainTwo, htracedTwo⟩ := parse_run_limit hfile (by decide) (by cbv) htwo
  have hmissing : Folder.empty.session "s.json" = .error .file := by cbv
  have hcalling : g.session "s.json" = .ok (inCell [.call "gone"]) :=
    session_inCell ⟨by decide, by simpa using .call (by decide)⟩ (by cbv) .empty
  have hunknown : (inCell [.call "gone"]).program.compile (inCell [.call "gone"]).macros
      = .error unknown := by cbv
  obtain ⟨_, _, hcut⟩ := trace_adds_lines hplain htraced f
  obtain ⟨_, htrace, _, hbeyond⟩ := hcut turning _ session_turningFolder compile_turning
  obtain ⟨_, _, hwhole⟩ := trace_adds_lines hplainTwo htracedTwo f
  obtain ⟨_, _, hwithin, _⟩ := hwhole turning _ session_turningFolder compile_turning
  refine ⟨hlength, htrace, hbeyond 1 rfl (hlength.symm ▸ Nat.lt_succ_self 1), hwithin ?_, ?_, ?_⟩
  · rintro _ ⟨⟩
    exact Nat.le_of_eq hlength
  · exact ((trace_adds_lines hplain htraced .empty).1 _ hmissing).1
  · exact ((trace_adds_lines hplain htraced g).2.1 _ _ hcalling hunknown).1

/-- With the trace the limit is not looked at: the same run is stopped with an error without it,
and comes to its end with it. -/
theorem trace_ignores_limit :
    let plain := inFolder ["run", "s.json", "--max-steps", "1"] turningFolder
    let traced := inFolder ["run", "s.json", "--max-steps", "1", "--trace"] turningFolder
    (plain.1.code = 1 ∧
      plain.1.errors = "Error: runtime error: execution step limit exceeded (1)\n") ∧
    traced.1.code = 0 ∧ traced.1.errors = "" := by
  intro plain traced
  obtain ⟨hplain, htraced⟩ := parse_turning
  have hbeyond : 1 < turning.played.machine.trace.length := by
    rw [played_turning]
    exact Nat.lt_succ_self 1
  have hcut := Printout.run_beyond_limit compile_turning hbeyond
  have hwhole := Printout.run_with_trace compile_turning (some 1)
  have hending : (Printout.ending turning.played).error = none := by
    rw [played_turning]
    rfl
  have hplainEq : plain = _ := inFolder_of_run hplain
  have htracedEq : traced = _ := inFolder_of_run htraced
  rw [hplainEq, htracedEq, session_turningFolder]
  simp only [hcut, hwhole, Outcome.ofPrintout_after]
  rw [Outcome.ofPrintout, Outcome.ofPrintout, hending]
  exact ⟨⟨rfl, rfl⟩, rfl, rfl⟩

end Command

end GridRobot
