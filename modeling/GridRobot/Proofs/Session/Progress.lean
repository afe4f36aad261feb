import Mathlib
import GridRobot.Proofs.Session.Reachable

/-!
# Compiled code gets on and stops

Whoever steps through compiled code may change cells and move the robot between two
steps.  Nothing of this touches the cursor, and the code is forward, so every step
executes an instruction behind all the others that have been executed, or is the
last one.  This bounds the number of steps by the length of the code.

**Results.**
* `moves_apply`: what a single operation does to the machine.
* `executed_pairwise`: instructions are executed in the order of their indices.
* `isFinished_after`: enough steps finish the run.
* `compiled_code_stops`: lowered code is forward, and every run of it stops.
-/

namespace GridRobot

namespace Operation

/-- A step through a run, or a change of the scene in between. -/
inductive Stepping : Operation → Prop
  | setCell {x y : UInt64} {c : Cell} : Stepping (.setCell x y c)
  | placeRobot {r : Robot} : Stepping (.placeRobot r)
  | step : Stepping .step

/-- Whether the operation is a step. -/
def isStep : Operation → Bool
  | .step => true
  | _ => false

end Operation

namespace Session

/-- The indices of the instructions that are executed by operations, one after the other: an
operation executes the instruction at the cursor when it makes the count of instructions
larger. -/
def executed (s : Session) : List Operation → List Nat
  | [] => []
  | op :: ops =>
      let t := (s.apply op).2
      if s.machine.steps < t.machine.steps then s.machine.cursor :: t.executed ops
      else t.executed ops

/-- The machine holds some code, and its run is on course. -/
structure Runs (s : Session) (code : Code) : Prop where
  onCourse : s.machine.OnCourse
  code_eq : s.machine.code? = some code

variable {s t : Session} {code : Code} {op : Operation} {ops : List Operation}

theorem Runs.of_machine_eq (hs : s.Runs code) (h : t.machine = s.machine) : t.Runs code where
  onCourse := by
    rw [h]
    exact hs.onCourse
  code_eq := by
    rw [h]
    exact hs.code_eq

theorem machine_setCell (s : Session) (x y : UInt64) (c : Cell) :
    (s.apply (.setCell x y c)).2.machine = s.machine := by
  cases h : s.setCell x y c with
  | error e =>
      rw [apply_of_setCell_error h]
  | ok t =>
      simp only [apply, apply.settle, h]
      obtain ⟨_, w, _, rfl⟩ := setCell_eq_ok_iff.1 h
      rfl

theorem machine_placeRobot (s : Session) (r : Robot) :
    (s.apply (.placeRobot r)).2.machine = s.machine := by
  cases h : s.placeRobot r with
  | error e =>
      rw [apply_of_placeRobot_error h]
  | ok t =>
      simp only [apply, apply.settle, h]
      obtain ⟨_, rfl⟩ := placeRobot_eq_ok_iff.1 h
      rfl

/-- A change of the scene leaves the machine alone, and a step moves it. -/
theorem moves_apply (hs : s.Runs code) (hop : op.Stepping) :
    (s.apply op).2.Runs code ∧
      ((op.isStep = false ∧ (s.apply op).2.machine = s.machine) ∨
        (op.isStep = true ∧ s.machine.Moves (s.apply op).2.machine)) := by
  cases hop with
  | @setCell x y c =>
      have hsame := s.machine_setCell x y c
      exact ⟨hs.of_machine_eq hsame, .inl ⟨rfl, hsame⟩⟩
  | @placeRobot r =>
      have hsame := s.machine_placeRobot r
      exact ⟨hs.of_machine_eq hsame, .inl ⟨rfl, hsame⟩⟩
  | step =>
      have hmoves := hs.onCourse.moves hs.code_eq s.scene
      have hcode := (s.machine.code?_step s.scene).trans hs.code_eq
      exact ⟨⟨hs.onCourse.step s.scene, hcode⟩, .inr ⟨rfl, hmoves⟩⟩

/-- A run that is over stays as it is. -/
theorem machine_apply_of_finished (hop : op.Stepping)
    (hphase : s.machine.phase.isFinished = true) :
    (s.apply op).2.machine = s.machine := by
  cases hop with
  | setCell =>
      exact s.machine_setCell _ _ _
  | placeRobot =>
      exact s.machine_placeRobot _
  | step =>
      show (s.machine.step s.scene).2.1 = s.machine
      rw [Machine.step_of_finished hphase]

theorem after_of_finished (hops : ∀ op ∈ ops, op.Stepping)
    (hphase : s.machine.phase.isFinished = true) :
    (s.after ops).machine = s.machine ∧ s.executed ops = [] := by
  induction ops generalizing s with
  | nil =>
      exact ⟨rfl, rfl⟩
  | cons op ops ih =>
      obtain ⟨hop, hops⟩ := List.forall_mem_cons.1 hops
      have hsame := machine_apply_of_finished hop hphase
      obtain ⟨hmachine, hexecuted⟩ := ih hops (s := (s.apply op).2) (by rwa [hsame])
      rw [after_cons, hmachine, hsame]
      simp [executed, hsame, hexecuted]

/-- Instructions are executed in the order of their indices, from the cursor on. -/
theorem executed_pairwise (hs : s.Runs code) (hops : ∀ op ∈ ops, op.Stepping) :
    (∀ ip ∈ s.executed ops, s.machine.cursor ≤ ip) ∧ (s.executed ops).Pairwise (· < ·) := by
  induction ops generalizing s with
  | nil =>
      exact ⟨fun ip hip => absurd hip List.not_mem_nil, .nil⟩
  | cons op ops ih =>
      obtain ⟨hop, hops⟩ := List.forall_mem_cons.1 hops
      obtain ⟨ht, hcases⟩ := moves_apply hs hop
      obtain ⟨hle, hpairwise⟩ := ih ht hops
      have hunmoved : (s.apply op).2.machine = s.machine →
          (∀ ip ∈ s.executed (op :: ops), s.machine.cursor ≤ ip) ∧
            (s.executed (op :: ops)).Pairwise (· < ·) := by
        intro hsame
        rw [hsame] at hle
        simpa [executed, hsame] using ⟨hle, hpairwise⟩
      rcases hcases with ⟨_, hsame⟩ | ⟨_, hmoves⟩
      · exact hunmoved hsame
      · generalize hm : (s.apply op).2.machine = m' at hmoves
        cases hmoves with
        | unmoved _ =>
            exact hunmoved hm
        | last hphase' =>
            rw [← hm] at hphase'
            have hrest := (after_of_finished hops hphase').2
            simp only [executed, hrest]
            split <;> simp
        | advanced hcursor hsteps =>
            rw [← hm] at hcursor hsteps
            simp only [executed, hsteps, Nat.lt_succ_self, if_true, List.mem_cons,
              List.pairwise_cons]
            refine ⟨?_, fun ip hip => Nat.lt_of_lt_of_le hcursor (hle ip hip), hpairwise⟩
            rintro ip (rfl | hip)
            · exact Nat.le_refl _
            · exact Nat.le_trans (Nat.le_of_lt hcursor) (hle ip hip)

/-- As many steps as there are instructions, or one for no code, finish a run. -/
theorem isFinished_after (hs : s.Runs code) (hops : ∀ op ∈ ops, op.Stepping)
    (hcount : max code.length 1 ≤ s.machine.steps + ops.countP Operation.isStep) :
    (s.after ops).machine.phase.isFinished = true := by
  induction ops generalizing s with
  | nil =>
      rw [after_nil]
      cases hphase : s.machine.phase.isFinished with
      | true =>
          rfl
      | false =>
          have hlt := hs.onCourse.steps_lt hs.code_eq hphase
          rw [List.countP_nil] at hcount
          omega
  | cons op ops ih =>
      obtain ⟨hop, hops⟩ := List.forall_mem_cons.1 hops
      obtain ⟨ht, hcases⟩ := moves_apply hs hop
      rw [after_cons]
      rcases hcases with ⟨hstep, hsame⟩ | ⟨hstep, hmoves⟩
      · refine ih ht hops ?_
        rwa [List.countP_cons_of_neg (by simp [hstep]), ← hsame] at hcount
      · generalize hm : (s.apply op).2.machine = m' at hmoves
        cases hmoves with
        | unmoved hphase =>
            rw [(after_of_finished hops (by rwa [hm])).1, hm]
            exact hphase
        | last hphase' =>
            rw [(after_of_finished hops (by rwa [hm])).1, hm]
            exact hphase'
        | advanced _ hsteps =>
            refine ih ht hops ?_
            rw [List.countP_cons_of_pos hstep] at hcount
            rw [hm, hsteps]
            omega

theorem step_ne_jumpOutOfBounds (hs : s.machine.OnCourse) (index : Nat) (offset target : Int)
    (size : Nat) : s.step.1 ≠ .error (.jumpOutOfBounds index offset target size) := by
  have hne := hs.not_jumpOutOfBounds s.scene index offset target size
  unfold step
  generalize s.machine.step s.scene = result at hne
  obtain ⟨answer, m, scene⟩ := result
  cases answer with
  | error e =>
      simpa [Except.map] using hne
  | ok goesOn =>
      simp [Except.map]

theorem cursor_lt_of_step (hs : s.machine.OnCourse) {report : Report} {t : Session}
    (hstep : s.step = (.ok report, t)) (hgoesOn : report.goesOn = true) :
    s.machine.cursor < t.machine.cursor := by
  have hlt := hs.cursor_lt (s := s.scene)
  unfold step at hstep
  generalize s.machine.step s.scene = result at hstep hlt
  obtain ⟨answer, m, scene⟩ := result
  cases answer with
  | error e =>
      simp [Except.map] at hstep
  | ok goesOn =>
      cases hstep
      exact hlt (congrArg Except.ok hgoesOn)

/-- **Compiled code only jumps forward and always stops.**  Every jump of lowered code leads
on, at most to the end.  In a reachable session with code, whatever cells are set and wherever
the robot is put between the steps, no step loses a jump, a step that goes on moves the cursor
on, no instruction is executed twice and none that the cursor has passed, and the run is over
after as many steps in all as there are instructions. -/
theorem compiled_code_stops :
    (∀ (m : Macros) (p : Program) (code : Code), p.compile m = .ok code → code.Forward) ∧
    (∀ (m : Macros) (name : String) (line : Nat) (code : Code),
      m.compile name line = .ok code → code.Forward) ∧
    (∀ (m : Macros) (line : Nat) (stack : List String) (bs : List Block) (code : Code),
      m.lowerAll line stack bs = .ok code → code.Forward) ∧
    ∀ (s : Session) (code : Code) (ops : List Operation),
      s.Reachable → s.machine.code? = some code → (∀ op ∈ ops, op.Stepping) →
        (∀ index offset target size,
          (s.after ops).step.1 ≠ .error (.jumpOutOfBounds index offset target size)) ∧
        (∀ report t, (s.after ops).step = (.ok report, t) → report.goesOn = true →
          (s.after ops).machine.cursor < t.machine.cursor) ∧
        (s.executed ops).Nodup ∧ (∀ ip ∈ s.executed ops, s.machine.cursor ≤ ip) ∧
        (max code.length 1 ≤ s.machine.steps + ops.countP Operation.isStep →
          (s.after ops).machine.phase = .completed ∨ (s.after ops).machine.phase = .failed) := by
  refine ⟨?_, ?_, ?_, ?_⟩
  · intro m p code hcode
    exact (Program.lowersFrom_of_compile hcode).forward
  · intro m name line code hcode
    obtain ⟨body, _, hlowers⟩ := Macros.lowers_of_compile hcode
    exact hlowers.forward
  · intro m line stack bs code hcode
    exact (Macros.lowers_of_lowerAll hcode).forward
  · intro s code ops hreach hcode hops
    have hs : s.Runs code := ⟨hreach.onCourse, hcode⟩
    have hafter := (hreach.after ops).onCourse
    obtain ⟨hle, hpairwise⟩ := executed_pairwise hs hops
    refine ⟨step_ne_jumpOutOfBounds hafter, fun _ _ => cursor_lt_of_step hafter, ?_, hle, ?_⟩
    · exact hpairwise.imp Nat.ne_of_lt
    · intro hcount
      exact Phase.isFinished_iff.1 (isFinished_after hs hops hcount)

/-- A choice whose first branch calls a macro is stepped through, while the robot is turned and
a wall is put in front of it: four steps are enough for the four instructions. -/
theorem compiled_code_stops_with_wall :
    let m := Macros.empty.define "go" [.act .move]
    let p : Program := [.choose .frontIsClear [.call "go"] [.act .turnLeft]]
    let code : Code := [⟨0, .jumpIfFalse .frontIsClear 3⟩, ⟨0, .act .move⟩, ⟨0, .jump 2⟩,
      ⟨0, .act .turnLeft⟩]
    let first : Session :=
      ⟨⟨⟨0, 0, .east⟩, ⟨2, 1, #[.empty, .empty]⟩⟩, [], .empty, .idle none⟩
    let s := first.after [.define "go" [.act .move], .setProgram p, .compile]
    let ops : List Operation :=
      [.step, .placeRobot ⟨0, 0, .west⟩, .setCell 1 0 .wall, .step, .step, .step]
    (p.compile m = .ok code ∧ m.compile "go" 7 = .ok [⟨7, .act .move⟩] ∧
      m.lowerAll 0 ["outer"] p = .ok code) ∧
    (code.Forward ∧ Code.Forward [⟨7, .act .move⟩] ∧ code.Forward) ∧
    (s.Reachable ∧ s.machine.code? = some code ∧ (∀ op ∈ ops, op.Stepping) ∧
      max code.length 1 ≤ s.machine.steps + ops.countP Operation.isStep) ∧
    (∀ index offset target size,
      (s.after ops).step.1 ≠ .error (.jumpOutOfBounds index offset target size)) ∧
    (∀ report t, (s.after ops).step = (.ok report, t) → report.goesOn = true →
      (s.after ops).machine.cursor < t.machine.cursor) ∧
    (s.executed ops).Nodup ∧ (∀ ip ∈ s.executed ops, s.machine.cursor ≤ ip) ∧
    ((s.after ops).machine.phase = .completed ∨ (s.after ops).machine.phase = .failed) := by
  intro m p code first s ops
  have hprogram : p.compile m = .ok code := by cbv
  have hmacro : m.compile "go" 7 = .ok [⟨7, .act .move⟩] := by
    unfold m
    cbv
  have hblocks : m.lowerAll 0 ["outer"] p = .ok code := by cbv
  have hnew : Session.new 2 1 = .ok first := by cbv
  have hreach : s.Reachable := (Reachable.made (.new hnew)).after _
  have hcode : s.machine.code? = some code := by
    unfold s first code
    cbv
  have hops : ∀ op ∈ ops, op.Stepping := by
    simp only [ops, List.forall_mem_cons]
    exact ⟨.step, .placeRobot, .setCell, .step, .step, .step, by simp⟩
  have hcount : max code.length 1 ≤ s.machine.steps + ops.countP Operation.isStep := by
    exact Nat.le_add_left 4 _
  obtain ⟨hp, hm, hbs, hruns⟩ := compiled_code_stops
  obtain ⟨hjump, hcursor, honce, hle, hstops⟩ := hruns s code ops hreach hcode hops
  exact ⟨⟨hprogram, hmacro, hblocks⟩,
    ⟨hp m p code hprogram, hm m "go" 7 _ hmacro, hbs m 0 ["outer"] p code hblocks⟩,
    ⟨hreach, hcode, hops, hcount⟩, hjump, hcursor, honce, hle, hstops hcount⟩

end Session

end GridRobot
