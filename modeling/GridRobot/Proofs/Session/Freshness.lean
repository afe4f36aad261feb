import Mathlib
import GridRobot.Proofs.Session.Reachable

/-!
# Code is never stale

The code in the machine of a session is that of the session's own program and macros,
whatever has been edited, compiled and executed before.  There is no order of
operations in which an edit leaves older code behind: it leaves none.

**Results.**
* `apply_of_edited`: an edit that is carried out exchanges the program or the macros.
* `Reachable.code_up_to_date`: the code of a reachable session is up to date.
-/

namespace GridRobot

/-- The answers with which an edit of the program or of the macros is carried out. -/
inductive Operation.Edited : Operation → Answer → Prop
  | setProgram {p : Program} : Edited (.setProgram p) .done
  | push {b : Block} : Edited (.push b) .done
  | insert {line : Nat} {b : Block} : Edited (.insert line b) .done
  | remove {line : Nat} {old : Block} : Edited (.remove line) (.block (some old))
  | replace {line : Nat} {b old : Block} : Edited (.replace line b) (.block (some old))
  | define {name : String} {body : List Block} {old : Option (List Block)} :
      Edited (.define name body) (.body old)
  | undefine {name : String} {old : List Block} : Edited (.undefine name) (.body (some old))

namespace Session

variable {s t : Session}

theorem step_of_no_code (h : s.machine.code? = none) : s.step = (.error .notCompiled, s) := by
  have hcurrent : s.machine.current = none := Option.map_eq_none_iff.1 h
  rw [step, Machine.step_of_no_run hcurrent]
  rfl

/-- An edit that is carried out exchanges the program or the macros. -/
theorem apply_of_edited {op : Operation} {answer : Answer} (hop : op.Edited answer)
    (h : s.apply op = (.ok answer, t)) :
    (∃ p, t = s.setProgram p) ∨ ∃ m, t = s.setMacros m := by
  cases hop with
  | setProgram =>
      cases h
      exact .inl ⟨_, rfl⟩
  | push =>
      cases h
      exact .inl ⟨_, rfl⟩
  | @insert line b =>
      cases hp : s.program.insert? line b with
      | none =>
          simp [apply, apply.settle, Session.insert, hp] at h
      | some p =>
          simp only [apply, apply.settle, Session.insert, hp] at h
          cases h
          exact .inl ⟨p, rfl⟩
  | @remove line old =>
      cases hp : s.program.remove? line with
      | none =>
          simp [apply, remove?, hp] at h
      | some p =>
          simp only [apply, remove?, hp, Option.map_some] at h
          cases h
          exact .inl ⟨p.2, rfl⟩
  | @replace line b old =>
      cases hp : s.program.replace? line b with
      | none =>
          simp [apply, replace?, hp] at h
      | some p =>
          simp only [apply, replace?, hp, Option.map_some] at h
          cases h
          exact .inl ⟨p.2, rfl⟩
  | define =>
      cases h
      exact .inr ⟨_, rfl⟩
  | @undefine name old =>
      cases hbody : s.macros.body? name with
      | none =>
          simp [apply, undefine?, hbody] at h
      | some body =>
          simp only [apply, undefine?, hbody, Option.map_some] at h
          cases h
          exact .inr ⟨_, rfl⟩

theorem code?_of_compile_error {e : SessionError} (h : s.apply .compile = (.error e, t)) :
    t.machine.code? = none := by
  cases hcode : s.program.compile s.macros with
  | ok code =>
      simp [apply, compile_of_ok hcode, Except.map, Except.mapError] at h
  | error cause =>
      simp only [apply, compile_of_error hcode] at h
      cases h
      exact s.machine.code?_unload

/-- The machine has no code but that of the program with its macros. -/
def Fresh (s : Session) : Prop :=
  ∀ code, s.machine.code? = some code → s.program.compile s.macros = .ok code

theorem fresh_of_no_code (h : s.machine.code? = none) : s.Fresh := by
  intro code hcode
  rw [h] at hcode
  cases hcode

theorem Change.fresh (h : s.Change t) (hs : s.Fresh) : t.Fresh := by
  cases h with
  | refused =>
      exact hs
  | cell h =>
      obtain ⟨_, w, _, rfl⟩ := setCell_eq_ok_iff.1 h
      exact hs
  | robot h =>
      obtain ⟨_, rfl⟩ := placeRobot_eq_ok_iff.1 h
      exact hs
  | program p =>
      exact fresh_of_no_code (s.code?_setProgram p)
  | macros m =>
      exact fresh_of_no_code (s.code?_setMacros m)
  | limit n =>
      exact fresh_of_no_code rfl
  | @loaded code h =>
      intro code' hcode
      have heq : some code = some code' := (s.machine.code?_load code).symm.trans hcode
      cases heq
      exact h
  | unloaded _ =>
      exact fresh_of_no_code s.machine.code?_unload
  | stepped =>
      intro code hcode
      exact hs code ((s.machine.code?_step s.scene).symm.trans hcode)

/-- **No stale code.**  The code of a reachable session is what its program compiles to with
its macros, and it has no code exactly when it is uncompiled.  After an edit that is carried
out nothing can be stepped, and after a compilation that fails there is no code. -/
theorem Reachable.code_up_to_date (h : s.Reachable) :
    (∀ code, s.machine.code? = some code → s.program.compile s.macros = .ok code) ∧
      (s.machine.code? = none ↔ s.machine.phase = .uncompiled) ∧
      (∀ op answer t, s.apply op = (.ok answer, t) → op.Edited answer →
        t.machine.code? = none ∧ t.step = (.error .notCompiled, t)) ∧
      ∀ e t, s.apply .compile = (.error e, t) → t.machine.code? = none := by
  refine ⟨?_, s.machine.code?_eq_none_iff, ?_, fun _ _ => code?_of_compile_error⟩
  · refine h.invariant (I := Fresh) (fun s hmade => fresh_of_no_code ?_)
      fun _ _ hchange => hchange.fresh
    rw [hmade.checked.2]
    rfl
  · intro op answer t hop hedited
    have hcode : t.machine.code? = none := by
      rcases apply_of_edited hedited hop with ⟨p, rfl⟩ | ⟨m, rfl⟩
      · exact s.code?_setProgram p
      · exact s.code?_setMacros m
    exact ⟨hcode, step_of_no_code hcode⟩

/-- A macro and a program that calls it are edited in and compiled, and a wall is put up
afterwards: the code is still there, and it is still right. -/
theorem code_up_to_date_behind_wall :
    let first : Session :=
      ⟨⟨⟨0, 0, .east⟩, ⟨2, 1, #[.empty, .empty]⟩⟩, [], .empty, .idle none⟩
    let s := first.after
      [.define "go" [.act .move], .push (.call "go"), .compile, .setCell 1 0 .wall]
    s.Reachable ∧ s.machine.code? = some [⟨0, .act .move⟩] ∧
      (∀ code, s.machine.code? = some code → s.program.compile s.macros = .ok code) ∧
      (s.machine.code? = none ↔ s.machine.phase = .uncompiled) ∧
      (∀ op answer t, s.apply op = (.ok answer, t) → op.Edited answer →
        t.machine.code? = none ∧ t.step = (.error .notCompiled, t)) ∧
      ∀ e t, s.apply .compile = (.error e, t) → t.machine.code? = none := by
  intro first s
  have hnew : Session.new 2 1 = .ok first := by cbv
  have hreach : s.Reachable := (Reachable.made (.new hnew)).after _
  have hcode : s.machine.code? = some [⟨0, .act .move⟩] := by
    unfold s first
    cbv
  exact ⟨hreach, hcode, hreach.code_up_to_date⟩

end Session

end GridRobot
