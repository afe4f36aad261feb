import Mathlib
import GridRobot.Proofs.Code.Segments
import GridRobot.Proofs.Session.Progress

/-!
# The line that is shown never moves back

A session shows the line that was executed last, or the one that is about to be executed.  Both are
lines of an instruction: of the one at the cursor before the first step, and of one that the cursor
has passed afterwards.  The index of this instruction never becomes smaller, and code that comes
from a program has its lines in order, whatever is nested in a line.

**Results.**
* `Program.sorted_of_compile`: the lines of compiled code are in order and lie in the program.
* `Run.Shows.steps`: a step moves the index that is shown on, or leaves it.
* `Session.exists_shown`: what a session shows, by the indices of the instructions.
* `Session.highlighted_in_order`: the line that is shown never moves back.
-/

namespace GridRobot

/-! ### Lines of compiled code -/

namespace Code

/-- Later instructions have later lines, or the same. -/
def Sorted (code : Code) : Prop :=
  code.Pairwise fun i j => i.line ≤ j.line

theorem sorted_atLine (line : Nat) (code : Code) : (code.atLine line).Sorted := by
  refine List.pairwise_of_forall_mem_list fun i hi j hj => ?_
  rw [line_of_mem_atLine hi, line_of_mem_atLine hj]

theorem sorted_numbered (line : Nat) (pieces : List Code) : (numbered line pieces).Sorted := by
  induction pieces generalizing line with
  | nil =>
      exact .nil
  | cons piece pieces ih =>
      refine List.pairwise_append.2 ⟨sorted_atLine line piece, ih (line + 1), fun i hi j hj => ?_⟩
      have hlow := line_of_mem_atLine hi
      have hhigh := (line_of_mem_numbered hj).1
      omega

theorem Sorted.line_le {code : Code} (h : code.Sorted) {ip jp : Nat} {i j : Instruction}
    (hi : code[ip]? = some i) (hj : code[jp]? = some j) (hle : ip ≤ jp) : i.line ≤ j.line := by
  obtain ⟨hip, rfl⟩ := List.getElem?_eq_some_iff.1 hi
  obtain ⟨hjp, rfl⟩ := List.getElem?_eq_some_iff.1 hj
  rcases Nat.eq_or_lt_of_le hle with rfl | hlt
  · exact Nat.le_refl _
  · exact List.pairwise_iff_getElem.1 h ip jp hip hjp hlt

/-- Indices inside sorted code that never become smaller have lines that never become smaller. -/
theorem Sorted.exists_lines {code : Code} (h : code.Sorted) {ips : List Nat}
    (hips : ips.Pairwise (· ≤ ·)) (hlt : ∀ ip ∈ ips, ip < code.length) :
    ∃ lines : List Nat, ips.map (fun ip => code[ip]?.map Instruction.line) = lines.map some ∧
      lines.Pairwise (· ≤ ·) ∧ ∀ line ∈ lines, ∃ i ∈ code, i.line = line := by
  induction ips with
  | nil =>
      exact ⟨[], rfl, .nil, by simp⟩
  | cons ip ips ih =>
      obtain ⟨hfirst, hips⟩ := List.pairwise_cons.1 hips
      obtain ⟨hip, hlt⟩ := List.forall_mem_cons.1 hlt
      obtain ⟨lines, hmap, hlines, hmem⟩ := ih hips hlt
      have hi : code[ip]? = some code[ip] := List.getElem?_eq_getElem hip
      refine ⟨code[ip].line :: lines, ?_, List.pairwise_cons.2 ⟨fun line hline => ?_, hlines⟩, ?_⟩
      · rw [List.map_cons, List.map_cons, hmap, hi, Option.map_some]
      · have hshown : some line ∈ ips.map fun ip => code[ip]?.map Instruction.line := by
          rw [hmap]
          exact List.mem_map_of_mem hline
        obtain ⟨jp, hjp, hline⟩ := List.mem_map.1 hshown
        obtain ⟨j, hj, rfl⟩ := Option.map_eq_some_iff.1 hline
        exact h.line_le hi hj (hfirst jp hjp)
      · exact List.forall_mem_cons.2 ⟨⟨_, List.getElem_mem hip, rfl⟩, hmem⟩

end Code

/-- The lines of compiled code are in order, and every one is that of a block. -/
theorem Program.sorted_of_compile {m : Macros} {p : Program} {code : Code}
    (h : p.compile m = .ok code) : code.Sorted ∧ ∀ i ∈ code, i.line < p.length := by
  obtain ⟨pieces, hpieces, _, rfl⟩ := compile_eq_ok_iff_pieces.1 h
  refine ⟨Code.sorted_numbered 0 pieces, fun i hi => ?_⟩
  have hline := (Code.line_of_mem_numbered hi).2
  rw [hpieces.length_eq]
  omega

/-! ### The index that a run shows -/

theorem Scene.Executes.line_event {s t : Scene} {size ip line next : Nat} {op : Op} {event : Event}
    (h : s.Executes size ip line op (.next next event t)) : event.line = line := by
  cases h <;> rfl

namespace Run

/-- The line that a run shows is that of the instruction at the index `ip`.  Until the run is over,
the cursor has not gone back behind this index. -/
structure Shows (r : Run) (ip : Nat) : Prop where
  line?_eq : r.line? = r.code.toList[ip]?.map Instruction.line
  le_cursor : r.phase.isFinished = false → ip ≤ r.cursor
  lt_size : ip < max r.code.size 1

theorem shows_start (code : Code) : (start code).Shows 0 where
  line?_eq := by simp [line?, start]
  le_cursor := fun _ => Nat.le_refl 0
  lt_size := Nat.lt_of_lt_of_le Nat.one_pos (Nat.le_max_right _ _)

variable {r r' : Run} {s t : Scene} {i : Instruction} {ip : Nat}
  {answer : Except RunError Bool}

/-- After an instruction at the cursor has been executed, its line is shown. -/
theorem shows_cursor {entry : LogEntry} {next steps : Nat} {log : List LogEntry}
    (hi : r.code[r.cursor]? = some i) (hentry : entry.line? = some i.line)
    (hnext : entry.phase.isFinished = false → r.cursor ≤ next) :
    Shows ⟨r.code, next, steps, entry :: log⟩ r.cursor where
  line?_eq := by simp [line?, hentry, hi]
  le_cursor := hnext
  lt_size := Nat.lt_of_lt_of_le (Array.getElem?_eq_some_iff.1 hi).1 (Nat.le_max_left _ _)

/-- A step of a run on course moves the index that is shown on, or leaves it. -/
theorem Shows.steps (h : r.Shows ip) (hcourse : r.OnCourse)
    (hstep : r.Steps s (answer, r', t)) : ∃ jp, ip ≤ jp ∧ r'.Shows jp := by
  cases hstep with
  | finished _ =>
      exact ⟨ip, Nat.le_refl ip, h⟩
  | nothingToDo hphase hend =>
      -- Only the run of no code is at the end before it is over.
      have hsize : r.code.size = 0 := by
        have hlt := hcourse.cursor_lt hphase
        have hge := Array.getElem?_eq_none_iff.1 hend
        omega
      have hnone : r.code[ip]? = none := Array.getElem?_eq_none (by omega)
      refine ⟨ip, Nat.le_refl ip, ?_, ?_, h.lt_size⟩
      · simp [line?, LogEntry.line?, hend, hnone]
      · intro hover
        cases hover
  | went hphase hi hx _ =>
      refine ⟨r.cursor, h.le_cursor hphase, shows_cursor hi ?_ fun _ => ?_⟩
      · exact congrArg some hx.line_event
      · exact Nat.le_of_lt (hcourse.lt_next hi hx)
  | ended hphase hi hx _ =>
      refine ⟨r.cursor, h.le_cursor hphase, shows_cursor hi ?_ fun hover => by cases hover⟩
      exact congrArg some hx.line_event
  | stuck hphase hi _ =>
      exact ⟨r.cursor, h.le_cursor hphase, shows_cursor hi rfl fun hover => by cases hover⟩
  | lost _ hi hx =>
      exact absurd hx (hcourse.not_lost hi)

end Run

/-! ### What a session shows -/

/-- The lines that an answer tells: that of a report, if it is one. -/
def Answer.lines : Except SessionError Answer → List (Option Nat)
  | .ok (.report r) => [r.line]
  | _ => []

namespace Session

/-- The lines that are shown while operations are carried out: at first, in the report of each step,
and after each operation. -/
def highlighted (s : Session) : List Operation → List (Option Nat)
  | [] => [s.machine.line?]
  | op :: ops =>
      s.machine.line? :: (Answer.lines (s.apply op).1 ++ (s.apply op).2.highlighted ops)

/-- The run of the session, if there is one, shows the line at the index `ip`. -/
def Shows (s : Session) (ip : Nat) : Prop :=
  ∀ r, s.machine.current = some r → r.Shows ip

variable {s t : Session} {code : Code} {op : Operation} {ops : List Operation} {ip n : Nat}

theorem Runs.line?_eq (hs : s.Runs code) (hshows : s.Shows ip) :
    s.machine.line? = code[ip]?.map Instruction.line := by
  obtain ⟨r, hr, rfl⟩ := Option.map_eq_some_iff.1 hs.code_eq
  rw [Machine.line?, hr, Option.bind_some, (hshows r hr).line?_eq]

theorem Runs.lt_size (hs : s.Runs code) (hshows : s.Shows ip) : ip < max code.length 1 := by
  obtain ⟨r, hr, rfl⟩ := Option.map_eq_some_iff.1 hs.code_eq
  exact (hshows r hr).lt_size

theorem Shows.of_machine_eq (h : s.Shows ip) (hsame : t.machine = s.machine) : t.Shows ip := by
  intro r hr
  exact h r (hsame ▸ hr)

theorem shows_step (hs : s.machine.OnCourse) (h : s.Shows ip) :
    ∃ jp, ip ≤ jp ∧ s.step.2.Shows jp := by
  rcases s.machine.step_cases s.scene with ⟨hr, heq⟩ | ⟨r, answer, r', u, hr, hsteps, heq⟩
  · refine ⟨ip, Nat.le_refl ip, h.of_machine_eq ?_⟩
    rw [step, heq]
  · obtain ⟨jp, hle, hshows⟩ := (h r hr).steps (hs r hr) hsteps
    refine ⟨jp, hle, fun r'' hr'' => ?_⟩
    rw [step, heq] at hr''
    cases hr''
    exact hshows

/-- A step of the session or a change of its scene moves the index that is shown on, or leaves
it. -/
theorem shows_apply (hs : s.Runs code) (h : s.Shows ip) (hop : op.Stepping) :
    ∃ jp, ip ≤ jp ∧ (s.apply op).2.Shows jp := by
  cases hop with
  | setCell =>
      exact ⟨ip, Nat.le_refl ip, h.of_machine_eq (s.machine_setCell _ _ _)⟩
  | placeRobot =>
      exact ⟨ip, Nat.le_refl ip, h.of_machine_eq (s.machine_placeRobot _)⟩
  | step =>
      exact shows_step hs.onCourse h

theorem lines_settle (s : Session) (result : Except SessionError Session) :
    Answer.lines (apply.settle s result).1 = [] := by
  cases result <;> rfl

/-- A report tells the line that the session shows afterwards. -/
theorem lines_apply (s : Session) (hop : op.Stepping) :
    Answer.lines (s.apply op).1 = [] ∨
      Answer.lines (s.apply op).1 = [(s.apply op).2.machine.line?] := by
  cases hop with
  | setCell =>
      exact .inl (s.lines_settle _)
  | placeRobot =>
      exact .inl (s.lines_settle _)
  | step =>
      simp only [apply, step]
      cases (s.machine.step s.scene).1 with
      | error e => exact .inl rfl
      | ok goesOn => exact .inr rfl

/-- What is shown are the lines at indices that never become smaller. -/
theorem exists_shown (hs : s.Runs code) (h : s.Shows ip) (hops : ∀ op ∈ ops, op.Stepping) :
    ∃ ips : List Nat, s.highlighted ops = ips.map (fun ip => code[ip]?.map Instruction.line) ∧
      ips.Pairwise (· ≤ ·) ∧ ∀ jp ∈ ips, ip ≤ jp ∧ jp < max code.length 1 := by
  induction ops generalizing s ip with
  | nil =>
      refine ⟨[ip], ?_, List.pairwise_singleton _ _, ?_⟩
      · rw [highlighted, hs.line?_eq h, List.map_singleton]
      · simpa using hs.lt_size h
  | cons op ops ih =>
      obtain ⟨hop, hops⟩ := List.forall_mem_cons.1 hops
      have ht := (moves_apply hs hop).1
      obtain ⟨jp, hle, hnext⟩ := shows_apply hs h hop
      obtain ⟨ips, hshown, hsorted, hbounds⟩ := ih ht hnext hops
      have hip := hs.lt_size h
      have hjp := ht.lt_size hnext
      rw [highlighted, hs.line?_eq h, hshown]
      have hall : ∀ kp ∈ ips, ip ≤ kp ∧ kp < max code.length 1 := fun kp hkp =>
        ⟨Nat.le_trans hle (hbounds kp hkp).1, (hbounds kp hkp).2⟩
      rcases lines_apply s hop with hnone | hreport
      · refine ⟨ip :: ips, by rw [hnone]; rfl, ?_, ?_⟩
        · exact List.pairwise_cons.2 ⟨fun kp hkp => (hall kp hkp).1, hsorted⟩
        · exact List.forall_mem_cons.2 ⟨⟨Nat.le_refl ip, hip⟩, hall⟩
      · refine ⟨ip :: jp :: ips, by rw [hreport, ht.line?_eq hnext]; rfl, ?_, ?_⟩
        · refine List.pairwise_cons.2 ⟨?_, List.pairwise_cons.2 ⟨?_, hsorted⟩⟩
          · exact List.forall_mem_cons.2 ⟨hle, fun kp hkp => (hall kp hkp).1⟩
          · exact fun kp hkp => (hbounds kp hkp).1
        · exact List.forall_mem_cons.2 ⟨⟨Nat.le_refl ip, hip⟩,
            List.forall_mem_cons.2 ⟨⟨hle, hjp⟩, hall⟩⟩

/-- A session that has just compiled its program is at the start of the code. -/
theorem exists_code_of_compile (h : s.apply .compile = (.ok (.size n), t)) :
    ∃ code : Code, t.program.compile t.macros = .ok code ∧ code.length = n ∧ t.Runs code ∧
      t.Shows 0 := by
  cases hcode : s.program.compile s.macros with
  | error e =>
      simp [apply, compile_of_error hcode, Except.map, Except.mapError] at h
  | ok code =>
      simp only [apply, compile_of_ok hcode, Except.map, Except.mapError, Prod.mk.injEq,
        Except.ok.injEq, Answer.size.injEq] at h
      obtain ⟨hn, rfl⟩ := h
      have hforward := (Program.lowersFrom_of_compile hcode).forward
      refine ⟨code, hcode, hn, ⟨Machine.onCourse_load hforward, Machine.code?_load _ _⟩, ?_⟩
      intro r hr
      cases hr
      exact Run.shows_start code

/-- **The line that is shown never moves back.**  After a program has been compiled, let steps be
made, cells be set and the robot be placed in any order.  The lines that the session shows in
between, and those that the reports of the steps tell, are lines of blocks and never become
smaller; only a program with no instructions shows no line. -/
theorem highlighted_in_order (hcompile : s.apply .compile = (.ok (.size n), t))
    (hops : ∀ op ∈ ops, op.Stepping) :
    (n = 0 → ∀ shown ∈ t.highlighted ops, shown = none) ∧
      (n ≠ 0 → ∃ lines : List Nat, t.highlighted ops = lines.map some ∧
        lines.Pairwise (· ≤ ·) ∧ ∀ line ∈ lines, line < t.program.length) := by
  obtain ⟨code, hcode, rfl, hruns, hstart⟩ := exists_code_of_compile hcompile
  obtain ⟨ips, hshown, hsorted, hbounds⟩ := exists_shown hruns hstart hops
  obtain ⟨hlines, hinside⟩ := Program.sorted_of_compile hcode
  rw [hshown]
  constructor
  · intro hempty shown hmem
    obtain ⟨ip, _, rfl⟩ := List.mem_map.1 hmem
    rw [List.eq_nil_of_length_eq_zero hempty]
    rfl
  · intro hne
    have hlt : ∀ ip ∈ ips, ip < code.length := fun ip hip => by
      have hle := (hbounds ip hip).2
      omega
    obtain ⟨lines, hmap, hpairwise, hmem⟩ := hlines.exists_lines hsorted hlt
    refine ⟨lines, hmap, hpairwise, fun line hline => ?_⟩
    obtain ⟨i, hi, rfl⟩ := hmem line hline
    exact hinside i hi

/-- A loop, a choice with a call and an action are stepped through.  The robot is turned around in
front of the choice, a wall is put behind it, and the action is refused in the end.  With no blocks
no line is shown. -/
theorem highlighted_in_order_to_refusal :
    let p : Program := [.times 2 [.act .turnLeft],
      .choose .frontIsClear [.call "go"] [.act .turnLeft], .act .pickUp]
    let code : Code := [⟨0, .act .turnLeft⟩, ⟨0, .act .turnLeft⟩, ⟨1, .jumpIfFalse .frontIsClear 3⟩,
      ⟨1, .act .move⟩, ⟨1, .jump 2⟩, ⟨1, .act .turnLeft⟩, ⟨2, .act .pickUp⟩]
    let s : Session := ⟨⟨⟨0, 0, .east⟩, ⟨2, 1, #[.empty, .empty]⟩⟩, p,
      .ofList [("go", [.act .move])], .idle none⟩
    let t : Session := { s with machine := (Machine.idle none).load code }
    let ops : List Operation := [.step, .step, .placeRobot ⟨0, 0, .east⟩, .step, .step, .step,
      .setCell 0 0 .wall, .step, .step]
    let cleared := ((s.setProgram []).apply .compile).2
    (s.apply .compile = (.ok (.size 7), t) ∧ (∀ op ∈ ops, op.Stepping) ∧
      t.highlighted ops = [0, 0, 0, 0, 0, 0, 1, 1, 1, 1, 1, 1, 1, 2, 2, 2].map some) ∧
    (∃ lines : List Nat, t.highlighted ops = lines.map some ∧ lines.Pairwise (· ≤ ·) ∧
      ∀ line ∈ lines, line < t.program.length) ∧
    ∀ shown ∈ cleared.highlighted ops, shown = none := by
  intro p code s t ops cleared
  have hcode : p.compile s.macros = .ok code := by cbv
  have hcompile : s.apply .compile = (.ok (.size 7), t) := by
    rw [apply, compile_of_ok hcode]
    rfl
  have hops : ∀ op ∈ ops, op.Stepping := by
    simp only [ops, List.forall_mem_cons]
    exact ⟨.step, .step, .placeRobot, .step, .step, .step, .setCell, .step, .step, by simp⟩
  have hshown : t.highlighted ops
      = [0, 0, 0, 0, 0, 0, 1, 1, 1, 1, 1, 1, 1, 2, 2, 2].map some := by
    decide
  have hcleared : (s.setProgram []).apply .compile = (.ok (.size 0), cleared) := rfl
  exact ⟨⟨hcompile, hops, hshown⟩, (highlighted_in_order hcompile hops).2 (by decide),
    (highlighted_in_order hcleared hops).1 rfl⟩

end Session

end GridRobot
