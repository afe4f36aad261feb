import Mathlib
import GridRobot.Proofs.Machine.Client
import GridRobot.Proofs.Scene.Deeds
import GridRobot.Proofs.Session.Safety

/-!
# What running touches

Stepping through compiled code, or running it to its end, changes the machine and, by the actions
that are carried out, the scene; the program, the macros and the code stay.  The actions are the
ones that the log tells of, so what a run has done to the world can be read off its log: the log
grows by the deeds, and the deeds lead from the scene before to the scene after.

**Results.**
* `Run.Steps.exists_deeds`: a step carries out one action or none, and logs it.
* `Session.exists_ran_after`: steps and runs in any order are a sequence of deeds.
* `Session.Reachable.touches_after`: what running leaves alone, and how it counts beepers.
-/

namespace GridRobot

/-- The action that an event says to be carried out, and the robot as it left it. -/
def Event.done? : Event → Option (Action × Robot)
  | .acted _ a r => some (a, r)
  | .tested .. => none
  | .jumped _ => none

/-- The action that an entry says to be carried out, and the robot as it left it. -/
def LogEntry.done? : LogEntry → Option (Action × Robot)
  | .went e => e.done?
  | .ended e => e.done?
  | .nothingToDo => none
  | .stuck .. => none

/-- The actions that have been carried out since the code was loaded, the oldest first, each with
the robot as it left it. -/
def Machine.done (m : Machine) : List (Action × Robot) :=
  m.log.reverse.filterMap LogEntry.done?

/-- An instruction carries out one action or none, and its event tells which. -/
theorem Scene.Executes.exists_deeds {s t : Scene} {size ip line next : Nat} {op : Op}
    {event : Event} (h : s.Executes size ip line op (.next next event t)) :
    ∃ deeds, s.Performs deeds t ∧ event.done?.toList = deeds.map Deed.record := by
  cases h with
  | acted ha =>
      exact ⟨_, .one ha, rfl⟩
  | passed _ =>
      exact ⟨[], .nil, rfl⟩
  | skipped _ _ =>
      exact ⟨[], .nil, rfl⟩
  | jumped _ =>
      exact ⟨[], .nil, rfl⟩

/-- A step carries out one action or none, and its entry in the log tells which. -/
theorem Run.Steps.exists_deeds {r r' : Run} {s t : Scene} {answer : Except RunError Bool}
    (h : r.Steps s (answer, r', t)) :
    ∃ deeds, s.Performs deeds t ∧ r'.log.reverse.filterMap LogEntry.done?
      = r.log.reverse.filterMap LogEntry.done? ++ deeds.map Deed.record := by
  have hcons : ∀ entry : LogEntry, (entry :: r.log).reverse.filterMap LogEntry.done?
      = r.log.reverse.filterMap LogEntry.done? ++ entry.done?.toList := by
    intro entry
    rw [List.reverse_cons, List.filterMap_append]
    cases hdone : entry.done? <;> simp [hdone]
  have hsilent : ∀ log, log = r.log → log.reverse.filterMap LogEntry.done?
      = r.log.reverse.filterMap LogEntry.done? ++ ([] : List Deed).map Deed.record := by
    rintro _ rfl
    exact (List.append_nil _).symm
  cases h with
  | finished _ =>
      exact ⟨[], .nil, hsilent _ rfl⟩
  | nothingToDo _ _ =>
      exact ⟨[], .nil, hcons _⟩
  | went _ _ hx _ =>
      obtain ⟨deeds, hdeeds, hdone⟩ := hx.exists_deeds
      exact ⟨deeds, hdeeds, by rw [hcons, ← hdone]; rfl⟩
  | ended _ _ hx _ =>
      obtain ⟨deeds, hdeeds, hdone⟩ := hx.exists_deeds
      exact ⟨deeds, hdeeds, by rw [hcons, ← hdone]; rfl⟩
  | stuck _ _ _ =>
      exact ⟨[], .nil, hcons _⟩
  | lost _ _ _ =>
      exact ⟨[], .nil, hsilent _ rfl⟩

theorem Machine.exists_deeds_step (m : Machine) (s : Scene) :
    ∃ deeds, s.Performs deeds (m.step s).2.2 ∧
      (m.step s).2.1.done = m.done ++ deeds.map Deed.record := by
  rcases m.step_cases s with ⟨_, hstep⟩ | ⟨r, answer, r', t, hr, hsteps, hstep⟩
  · rw [hstep]
    exact ⟨[], .nil, (List.append_nil _).symm⟩
  · rw [hstep]
    obtain ⟨deeds, hdeeds, hlog⟩ := hsteps.exists_deeds
    exact ⟨deeds, hdeeds, by simpa [done, log, hr] using hlog⟩

/-- A step through the compiled code, or a run of it. -/
inductive Operation.Running : Operation → Prop
  | step : Running .step
  | run : Running .run

namespace Session

/-- One session has become another one by running its code: the deeds lead from scene to scene
and have been logged, and nothing else has changed. -/
structure Ran (s t : Session) (deeds : List Deed) : Prop where
  performs : s.scene.Performs deeds t.scene
  done_eq : t.machine.done = s.machine.done ++ deeds.map Deed.record
  code_eq : t.machine.code? = s.machine.code?
  program_eq : t.program = s.program
  macros_eq : t.macros = s.macros

variable {s t : Session} {deeds : List Deed} {ops : List Operation}

theorem ran_refl (s : Session) : s.Ran s [] where
  performs := .nil
  done_eq := (List.append_nil _).symm
  code_eq := rfl
  program_eq := rfl
  macros_eq := rfl

theorem Ran.exists_step (h : s.Ran t deeds) : ∃ more, s.Ran t.step.2 more := by
  obtain ⟨new, hnew, hdone⟩ := t.machine.exists_deeds_step t.scene
  refine ⟨deeds ++ new, h.performs.append hnew, ?_, ?_, h.program_eq, h.macros_eq⟩
  · rw [List.map_append, ← List.append_assoc, ← h.done_eq]
    exact hdone
  · exact (t.machine.code?_step t.scene).trans h.code_eq

/-- Steps and runs, in any order and whatever they answer, are a sequence of deeds. -/
theorem exists_ran_after (hs : s.Reachable) (hops : ∀ op ∈ ops, op.Running) :
    ∃ deeds, s.Ran (s.after ops) deeds := by
  suffices ∀ t : Session, t.Reachable → (∃ deeds, s.Ran t deeds) →
      ∃ deeds, s.Ran (t.after ops) deeds from this s hs ⟨[], s.ran_refl⟩
  induction ops with
  | nil =>
      exact fun t _ h => h
  | cons op ops ih =>
      intro t ht hran
      obtain ⟨hop, hops⟩ := List.forall_mem_cons.1 hops
      rw [after_cons]
      refine ih hops _ (ht.apply op) ?_
      cases hop with
      | step =>
          obtain ⟨deeds, h⟩ := hran
          exact h.exists_step
      | run =>
          exact invariant_run (I := fun u => ∃ deeds, s.Ran u deeds)
            (fun u ⟨_, h⟩ => h.exists_step) ht.onCourse hran

/-- **Running touches only what it may.**  After any steps and runs of a session, whatever they
answer, the program, the macros and the code are the same, and so are the size of the world and
its walls.  The actions that have been carried out are those that have been logged; a cell has
changed only if one of them picks up or puts down a beeper there, and their number tells how many
beepers there are now. -/
theorem Reachable.touches_after (h : s.Reachable) {code : Code}
    (hcode : s.machine.code? = some code) (hops : ∀ op ∈ ops, op.Running) :
    let t := s.after ops
    (t.program = s.program ∧ t.macros = s.macros ∧ t.machine.code? = some code) ∧
    (t.scene.world.width = s.scene.world.width ∧ t.scene.world.height = s.scene.world.height ∧
      ∀ x y, t.scene.world.cell x y = .ok .wall ↔ s.scene.world.cell x y = .ok .wall) ∧
    ∃ deeds, s.scene.Performs deeds t.scene ∧
      t.machine.done = s.machine.done ++ deeds.map Deed.record ∧
      (∀ x y, t.scene.world.cell x y ≠ s.scene.world.cell x y →
        ∃ d ∈ deeds, (d.action = .pickUp ∨ d.action = .putDown) ∧
          d.before.robot.x = x ∧ d.before.robot.y = y) ∧
      t.scene.world.totalBeepers + deeds.countP Deed.takes
        = s.scene.world.totalBeepers + deeds.countP Deed.adds := by
  obtain ⟨deeds, hran⟩ := exists_ran_after h hops
  have hsound := h.sound
  obtain ⟨hwidth, hheight⟩ := hran.performs.size_eq hsound
  exact ⟨⟨hran.program_eq, hran.macros_eq, hran.code_eq.trans hcode⟩,
    ⟨hwidth, hheight, hran.performs.wall_iff hsound⟩,
    deeds, hran.performs, hran.done_eq,
    fun _ _ hne => hran.performs.exists_of_cell_ne hsound hne,
    hran.performs.totalBeepers hsound⟩

/-- A beeper is put down on the first cell and none on the full pile beside it, from which one is
picked up; the wall behind it stops the run. -/
theorem touches_after_beside_full_pile :
    let first : Session :=
      ⟨⟨⟨0, 0, .east⟩, ⟨3, 1, #[.empty, .empty, .empty]⟩⟩, [], .empty, .idle none⟩
    let s := first.after
      [.setCell 1 0 (.beepers 4294967295), .setCell 2 0 .wall,
        .setProgram [.act .putDown, .act .move, .act .putDown, .act .pickUp, .act .move], .compile]
    let code : Code := [⟨0, .act .putDown⟩, ⟨1, .act .move⟩, ⟨2, .act .putDown⟩, ⟨3, .act .pickUp⟩,
      ⟨4, .act .move⟩]
    let ops : List Operation := [.step, .run]
    let t := s.after ops
    (s.Reachable ∧ s.machine.code? = some code ∧ ∀ op ∈ ops, op.Running) ∧
    (t.machine.phase = .failed ∧
      t.scene.world.cells = #[.beepers 1, .beepers 4294967294, .wall]) ∧
    (t.program = s.program ∧ t.macros = s.macros ∧ t.machine.code? = some code) ∧
    (t.scene.world.width = s.scene.world.width ∧ t.scene.world.height = s.scene.world.height ∧
      ∀ x y, t.scene.world.cell x y = .ok .wall ↔ s.scene.world.cell x y = .ok .wall) ∧
    ∃ deeds, s.scene.Performs deeds t.scene ∧
      t.machine.done = s.machine.done ++ deeds.map Deed.record ∧
      (∀ x y, t.scene.world.cell x y ≠ s.scene.world.cell x y →
        ∃ d ∈ deeds, (d.action = .pickUp ∨ d.action = .putDown) ∧
          d.before.robot.x = x ∧ d.before.robot.y = y) ∧
      t.scene.world.totalBeepers + deeds.countP Deed.takes
        = s.scene.world.totalBeepers + deeds.countP Deed.adds := by
  intro first s code ops t
  have hnew : Session.new 3 1 = .ok first := by cbv
  have hreach : s.Reachable := (Reachable.made (.new hnew)).after _
  have hcode : s.machine.code? = some code := by
    unfold s first code
    cbv
  have hops : ∀ op ∈ ops, op.Running := by
    simp only [ops, List.forall_mem_cons]
    exact ⟨.step, .run, by simp⟩
  have hclient : (s.step.2.machine.client 4 s.step.2.scene).map
      (fun result => (result.2.2.1.phase, result.2.2.2.world.cells))
        = some (.failed, #[.beepers 1, .beepers 4294967294, .wall]) := by
    unfold s first
    cbv
  obtain ⟨⟨calls, result⟩, hresult, hend⟩ := Option.map_eq_some_iff.1 hclient
  have hrun : s.step.2.machine.runToEnd s.step.2.scene = result :=
    (Machine.client_eq_some_iff.1 hresult).2.runToEnd_eq
  have hmachine : t.machine = result.2.1 := congrArg (·.2.1) hrun
  have hscene : t.scene = result.2.2 := congrArg (·.2.2) hrun
  refine ⟨⟨hreach, hcode, hops⟩, ?_, hreach.touches_after hcode hops⟩
  rw [hmachine, hscene]
  exact Prod.mk.inj hend

end Session

end GridRobot
