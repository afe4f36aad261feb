import GridRobot.Proofs.Machine.Progress
import GridRobot.Session.File
import GridRobot.Session.Operation

/-!
# Reachable sessions

A session is made in one of six ways, and operations lead from one session to
another whatever they answer.  `Session.Change` lists what an operation can do to a
session, apart from a run, which is nothing but steps.  An invariant of sessions is
shown for the sessions that are made and for this list.

**Results.**
* `Made.checked`: whatever way a session is made, it passes the check and has no code.
* `change_apply`: what an operation does is in the list.
* `Reachable.onCourse`: the run of a reachable session is on course.
* `Reachable.invariant`, `Reachable.invariant_after`: what every change in the list
  keeps, every operation keeps.
-/

namespace GridRobot

namespace Session

/-! ### Making sessions -/

/-- A session as it is made: of given parts, or of data from outside. -/
inductive Made (s : Session) : Prop
  | new {width height : Nat} (h : Session.new width height = .ok s)
  | ofWorld {w : World} (h : Session.ofWorld w = .ok s)
  | ofScene {scene : Scene} (h : Session.ofScene scene = .ok s)
  | ofBytes {bytes : Bytes} (h : Session.ofBytes bytes = .ok s)
  | ofText {text : String} (h : Session.ofText text = .ok s)
  | load {name : String} {f : Folder} (h : Session.load name f = .ok s)

theorem machine_of_read {bytes rest : Bytes} {s : Session}
    (h : Session.read bytes = .ok (s, rest)) : s.machine = .idle none := by
  unfold Session.read at h
  obtain ⟨⟨world, b₁⟩, _, h⟩ := bind_eq_ok_iff.1 h
  obtain ⟨⟨robot, b₂⟩, _, h⟩ := bind_eq_ok_iff.1 h
  obtain ⟨⟨program, b₃⟩, _, h⟩ := bind_eq_ok_iff.1 h
  obtain ⟨⟨macros, b₄⟩, _, h⟩ := bind_eq_ok_iff.1 h
  cases h
  rfl

theorem machine_of_ofJson? {j : Json} {s : Session} (h : ofJson? j = some s) :
    s.machine = .idle none := by
  unfold ofJson? at h
  split at h
  · simp only [bind, Option.bind_eq_some_iff] at h
    obtain ⟨world, _, robot, _, program, _, macros, _, h⟩ := h
    cases h
    rfl
  · cases h

theorem checked_of_ofBytes {bytes : Bytes} {s : Session} (h : ofBytes bytes = .ok s) :
    s.checked = .ok s ∧ s.machine = .idle none := by
  unfold ofBytes at h
  split at h
  · rename_i t rest hread
    obtain ⟨rfl, _⟩ := (checked_eq_ok_iff _ _).1 h
    exact ⟨h, machine_of_read hread⟩
  · cases h

theorem checked_of_ofText {text : String} {s : Session} (h : ofText text = .ok s) :
    s.checked = .ok s ∧ s.machine = .idle none := by
  unfold ofText at h
  split at h
  · rename_i t hread
    obtain ⟨rfl, _⟩ := (checked_eq_ok_iff _ _).1 h
    obtain ⟨j, _, hj⟩ := Option.bind_eq_some_iff.1 hread
    exact ⟨h, machine_of_ofJson? hj⟩
  · cases h

theorem checked_of_ofScene {scene : Scene} {s : Session} (h : ofScene scene = .ok s) :
    s.checked = .ok s ∧ s.machine = .idle none := by
  unfold ofScene at h
  obtain ⟨rfl, _⟩ := (checked_eq_ok_iff _ _).1 h
  exact ⟨h, rfl⟩

theorem checked_of_ofFile {name : String} {bytes : Bytes} {s : Session}
    (h : ofFile name bytes = .ok s) : s.checked = .ok s ∧ s.machine = .idle none := by
  unfold ofFile at h
  split at h
  · split at h
    · exact checked_of_ofText h
    · cases h
  · exact checked_of_ofBytes h

/-- Every way of making a session ends with the check. -/
theorem Made.checked {s : Session} (h : s.Made) : s.checked = .ok s ∧ s.machine = .idle none := by
  cases h with
  | new h =>
      unfold Session.new at h
      split at h
      · exact checked_of_ofScene h
      · cases h
  | ofWorld h =>
      exact checked_of_ofScene h
  | ofScene h =>
      exact checked_of_ofScene h
  | ofBytes h =>
      exact checked_of_ofBytes h
  | ofText h =>
      exact checked_of_ofText h
  | load h =>
      unfold Session.load at h
      split at h
      · exact checked_of_ofFile h
      · cases h

/-! ### Operations in a row -/

/-- The session after operations, one after the other, whatever they answer. -/
def after (s : Session) (ops : List Operation) : Session :=
  ops.foldl (fun s op => (s.apply op).2) s

@[simp] theorem after_nil (s : Session) : s.after [] = s := rfl

@[simp] theorem after_cons (s : Session) (op : Operation) (ops : List Operation) :
    s.after (op :: ops) = (s.apply op).2.after ops := rfl

/-- The sessions that operations lead to. -/
inductive Reachable : Session → Prop
  | made {s : Session} (h : s.Made) : Reachable s
  | apply {s : Session} (h : Reachable s) (op : Operation) : Reachable (s.apply op).2

theorem Reachable.after {s : Session} (h : s.Reachable) (ops : List Operation) :
    (s.after ops).Reachable := by
  induction ops generalizing s with
  | nil =>
      exact h
  | cons op ops ih =>
      exact ih (h.apply op)

/-! ### What an operation can do -/

/-- What an operation other than a run can make of a session. -/
inductive Change (s : Session) : Session → Prop
  | refused : Change s s
  | cell {x y : UInt64} {c : Cell} {t : Session} (h : s.setCell x y c = .ok t) : Change s t
  | robot {r : Robot} {t : Session} (h : s.placeRobot r = .ok t) : Change s t
  | program (p : Program) : Change s (s.setProgram p)
  | macros (m : Macros) : Change s (s.setMacros m)
  | limit (n : Option Nat) : Change s (s.limitSteps n)
  | loaded {code : Code} (h : s.program.compile s.macros = .ok code) :
      Change s { s with machine := s.machine.load code }
  | unloaded {e : CompileError} (h : s.program.compile s.macros = .error e) :
      Change s s.unload
  | stepped : Change s s.step.2

theorem change_apply (s : Session) (op : Operation) :
    s.Change (s.apply op).2 ∨ op = .run := by
  cases op with
  | setCell x y c =>
      left
      cases h : s.setCell x y c with
      | ok t => simpa only [apply, apply.settle, h] using .cell h
      | error e => simpa only [apply, apply.settle, h] using .refused
  | placeRobot r =>
      left
      cases h : s.placeRobot r with
      | ok t => simpa only [apply, apply.settle, h] using .robot h
      | error e => simpa only [apply, apply.settle, h] using .refused
  | setProgram p =>
      exact .inl (.program p)
  | push b =>
      exact .inl (.program _)
  | insert line b =>
      left
      cases h : s.program.insert? line b with
      | some p => simpa only [apply, apply.settle, insert, h] using .program p
      | none => simpa only [apply, apply.settle, insert, h] using .refused
  | remove line =>
      left
      cases h : s.program.remove? line with
      | some old => simpa only [apply, remove?, h] using .program old.2
      | none => simpa only [apply, remove?, h] using .refused
  | replace line b =>
      left
      cases h : s.program.replace? line b with
      | some old => simpa only [apply, replace?, h] using .program old.2
      | none => simpa only [apply, replace?, h] using .refused
  | define name body =>
      exact .inl (.macros _)
  | undefine name =>
      left
      cases h : s.macros.body? name with
      | some old => simpa only [apply, undefine?, h] using .macros _
      | none => simpa only [apply, undefine?, h] using .refused
  | limitSteps n =>
      exact .inl (.limit n)
  | compile =>
      left
      cases h : s.program.compile s.macros with
      | ok code => simpa only [apply, compile_of_ok h] using .loaded h
      | error e => simpa only [apply, compile_of_error h] using .unloaded h
  | step =>
      exact .inl .stepped
  | run =>
      exact .inr rfl

/-! ### Invariants -/

theorem setCell_eq_ok_iff {s t : Session} {x y : UInt64} {c : Cell} :
    s.setCell x y c = .ok t ↔
      ¬ (c = .wall ∧ s.scene.robot.x = x ∧ s.scene.robot.y = y) ∧
      ∃ w, s.scene.world.setCell x y c = .ok w ∧ t = { s with scene := ⟨s.scene.robot, w⟩ } := by
  unfold setCell
  split
  · rename_i h
    simp [h]
  · rename_i h
    cases s.scene.world.setCell x y c with
    | error e =>
        simp
    | ok w =>
        constructor
        · intro heq
          cases heq
          exact ⟨h, w, rfl, rfl⟩
        · rintro ⟨_, w', hw, rfl⟩
          cases hw
          rfl

theorem placeRobot_eq_ok_iff {s t : Session} {r : Robot} :
    s.placeRobot r = .ok t ↔
      r.fits s.scene.world = true ∧ t = { s with scene := ⟨r, s.scene.world⟩ } := by
  unfold placeRobot
  split
  · rename_i h
    simp [h, eq_comm]
  · rename_i h
    simp [h]

theorem Change.onCourse {s t : Session} (h : s.Change t) (hs : s.machine.OnCourse) :
    t.machine.OnCourse := by
  cases h with
  | refused =>
      exact hs
  | cell h =>
      obtain ⟨_, w, _, rfl⟩ := setCell_eq_ok_iff.1 h
      exact hs
  | robot h =>
      obtain ⟨_, rfl⟩ := placeRobot_eq_ok_iff.1 h
      exact hs
  | program _ =>
      exact Machine.onCourse_of_no_run rfl
  | macros _ =>
      exact Machine.onCourse_of_no_run rfl
  | limit _ =>
      exact Machine.onCourse_of_no_run rfl
  | loaded h =>
      exact Machine.onCourse_load (Program.lowersFrom_of_compile h).forward
  | unloaded _ =>
      exact Machine.onCourse_of_no_run rfl
  | stepped =>
      exact hs.step _

/-- What every step keeps, a run keeps. -/
theorem invariant_run {I : Session → Prop} (hI : ∀ s, I s → I s.step.2) {s : Session}
    (hcourse : s.machine.OnCourse) (hs : I s) : I s.run.2 :=
  hcourse.invariant_runToEnd (P := fun m scene => I { s with machine := m, scene := scene })
    (fun m scene => hI { s with machine := m, scene := scene }) hs

theorem invariant_apply {I : Session → Prop} (hI : ∀ s t, s.Change t → I s → I t)
    {s : Session} (hcourse : s.machine.OnCourse) (hs : I s) (op : Operation) :
    I (s.apply op).2 := by
  rcases s.change_apply op with hchange | rfl
  · exact hI _ _ hchange hs
  · exact invariant_run (fun s => hI s _ .stepped) hcourse hs

theorem Reachable.onCourse {s : Session} (h : s.Reachable) : s.machine.OnCourse := by
  induction h with
  | made h =>
      exact Machine.onCourse_of_no_run (by rw [h.checked.2]; rfl)
  | apply _ op ih =>
      exact invariant_apply (I := fun s => s.machine.OnCourse) (fun _ _ h => h.onCourse) ih ih op

/-- What every change keeps, all operations keep. -/
theorem Reachable.invariant_after {I : Session → Prop} (hI : ∀ s t, s.Change t → I s → I t)
    {s : Session} (h : s.Reachable) (hs : I s) (ops : List Operation) : I (s.after ops) := by
  induction ops generalizing s with
  | nil =>
      exact hs
  | cons op ops ih =>
      exact ih (h.apply op) (invariant_apply hI h.onCourse hs op)

/-- What holds of the sessions that are made and is kept by every change, holds of every
reachable session. -/
theorem Reachable.invariant {I : Session → Prop} (hmade : ∀ s, s.Made → I s)
    (hI : ∀ s t, s.Change t → I s → I t) {s : Session} (h : s.Reachable) : I s := by
  induction h with
  | made h =>
      exact hmade _ h
  | apply h op ih =>
      exact invariant_apply hI h.onCourse ih op

end Session

end GridRobot
