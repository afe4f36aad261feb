import Mathlib
import GridRobot.Proofs.Code.Acceptance
import GridRobot.Proofs.Machine.Registers
import GridRobot.Proofs.Session.Reachable

/-!
# The machine of a session in registers

The machine of a session has a log, from which the session reads its phase, its line and its
status.  The code that it runs has been compiled, so all its jumps lead on, at most to an end that
is not far away, and their targets are words.  So whatever is done to a session, its machine might
as well be kept in registers: a step and a run to the end there have the same answers and leave the
same scene.

**Results.**
* `Program.inWords_of_compile`: the targets of compiled code are words.
* `Session.Reachable.registers`: the calls of a session on its machine, in registers.
-/

namespace GridRobot

/-- The targets of compiled code are words: none lies in front of the code, and the code is not
longer than the limit. -/
theorem Program.inWords_of_compile {p : Program} {m : Macros} {code : Code}
    (h : p.compile m = .ok code) : code.InWords := by
  intro t ht
  obtain ⟨ip, i, hi, htarget⟩ := Code.mem_targets_iff.1 ht
  obtain ⟨hlt, hle⟩ := (lowersFrom_of_compile h).forward ip i t hi htarget
  have hlength := length_le_of_compileFrom h (Nat.zero_le _)
  unfold maxInstructions at hlength
  rw [Int64.toInt_minValue, Int64.toInt_maxValue]
  omega

namespace Machine

/-- Calls have brought the machine to where it is, and calls with the same answers would have
brought its registers there. -/
structure Mirrored (m : Machine) : Prop where
  holds : m.registers.Holds m
  reachable : m.registers.Reachable

variable {m : Machine}

theorem mirrored_idle (maxSteps : Option Nat) : (idle maxSteps).Mirrored where
  holds := Registers.holds_of_no_run rfl
  reachable := .idle maxSteps

theorem Mirrored.unload (h : m.Mirrored) : m.unload.Mirrored where
  holds := Registers.holds_of_no_run rfl
  reachable := m.registers_unload ▸ h.reachable.unload

theorem Mirrored.load (h : m.Mirrored) {code : Code} (hwords : code.InWords) :
    (m.load code).Mirrored where
  holds := m.registers_load code ▸ h.holds.load hwords
  reachable := m.registers_load code ▸ h.reachable.load hwords

theorem Mirrored.step (h : m.Mirrored) (s : Scene) : (m.step s).2.1.Mirrored where
  holds := by
    rw [(h.holds.step s).eq]
    exact h.holds.step s
  reachable := by
    rw [(h.holds.step s).eq]
    exact h.reachable.step s

end Machine

namespace Session

variable {s t : Session}

theorem Change.mirrored (h : s.Change t) (hs : s.machine.Mirrored) : t.machine.Mirrored := by
  cases h with
  | refused =>
      exact hs
  | cell h =>
      obtain ⟨_, w, _, rfl⟩ := setCell_eq_ok_iff.1 h
      exact hs
  | robot h =>
      obtain ⟨_, rfl⟩ := placeRobot_eq_ok_iff.1 h
      exact hs
  | program _ =>
      exact hs.unload
  | macros _ =>
      exact hs.unload
  | limit n =>
      exact Machine.mirrored_idle n
  | loaded h =>
      exact hs.load (Program.inWords_of_compile h)
  | unloaded _ =>
      exact hs.unload
  | stepped =>
      exact hs.step s.scene

theorem Reachable.mirrored (h : s.Reachable) : s.machine.Mirrored := by
  refine h.invariant (I := fun s => s.machine.Mirrored) (fun s hmade => ?_)
    fun _ _ hchange => hchange.mirrored
  rw [hmade.checked.2]
  exact Machine.mirrored_idle none

/-- Calls lead to the registers of the machine of a session, and there a step and a run to the end
are those of the session. -/
theorem Reachable.registers (h : s.Reachable) :
    s.machine.registers.Reachable ∧
      s.machine.registers.step s.scene = Machine.stored (s.machine.step s.scene) ∧
      s.machine.registers.runToEnd s.scene = Machine.stored (s.machine.runToEnd s.scene) := by
  obtain ⟨⟨_, hsettled, hwords⟩, hreachable⟩ := h.mirrored
  refine ⟨hreachable, Machine.registers_step hsettled hwords s.scene, ?_⟩
  obtain ⟨n, result, hends⟩ := h.onCourse.ends s.scene
  rw [hends.runToEnd_eq, (hends.registers_ends hsettled hwords).runToEnd_eq]

end Session

end GridRobot
