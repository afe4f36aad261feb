import GridRobot.Proofs.Json.ReadBack
import GridRobot.Proofs.Session.BinaryRoundTrip
import GridRobot.Proofs.Session.Forms

/-!
# The text of a session is read back

The text of a session is the text of its JSON form, and every form is read back from its
text.  What the reader can refuse is a form that is nested deeper than a form may be; the
check behind it has nothing to object to, since the scene of a session is sound whatever has
been done to it.

**Results.**
* `ofText_toText_of_sound`: the text of a session with a sound scene is read back or refused
  by its depth alone.
* `text_round_trip`: every session whose form is nested no deeper than 127 containers is read
  back from its text.
-/

namespace GridRobot

namespace Session

variable {s : Session}

/-- The text of a session is read back, with an empty machine, unless it is nested too deep. -/
theorem ofText_toText_of_sound (hs : s.scene.Sound) :
    ofText s.toText =
      if s.toJson.depth ≤ Json.maxDepth then .ok { s with machine := .idle none }
      else .error .json := by
  have hmax : World.maxCells < UInt64.size := by decide
  have hread := ofJson?_toJson (Nat.lt_of_le_of_lt hs.valid.width_le hmax)
    (Nat.lt_of_le_of_lt hs.valid.height_le hmax)
  rw [ofText, toText, Json.read?_text, Option.bind_some, hread]
  by_cases hdepth : s.toJson.depth ≤ Json.maxDepth
  · rw [if_pos hdepth, if_pos hdepth]
    exact (checked_eq_ok_iff _ _).2 ⟨rfl, hs.valid, hs.fits⟩
  · rw [if_neg hdepth, if_neg hdepth]

/-- **Text round trip.**  Whatever has been done to a session, it is read back from its text
with the same scene, program and macros, and uncompiled, if the text nests at most 127
containers. -/
theorem text_round_trip (h : s.Reachable) (hdepth : s.toJson.depth ≤ 127) :
    ∃ t, ofText s.toText = .ok t ∧ t.scene = s.scene ∧ t.program = s.program ∧
      t.macros = s.macros ∧ t.machine.phase = .uncompiled ∧ t.machine.code? = none := by
  have hdepth : s.toJson.depth ≤ Json.maxDepth := hdepth
  have hread := ofText_toText_of_sound h.sound
  rw [if_pos hdepth] at hread
  exact ⟨_, hread, rfl, rfl, rfl, rfl, rfl⟩

/-- A session is written in the middle of a run.  Its macro has a name with a quote, a
backslash, a control character and a character that takes two units. -/
theorem text_round_trip_in_run :
    let first : Session :=
      ⟨⟨⟨0, 0, .east⟩, ⟨2, 1, #[.empty, .empty]⟩⟩, [], .empty, .idle none⟩
    let name := "\"\\\x01\n😀"
    let s := first.after
      [.setCell 1 0 (.beepers 4294967295), .define name [.act .move],
        .push (.choose (.facing .east) [.times 3 [.call name]] []), .compile, .step]
    s.Reachable ∧ s.machine.phase = .running ∧ s.toJson.depth ≤ 127 ∧
      ∃ t, ofText s.toText = .ok t ∧ t.scene = s.scene ∧ t.program = s.program ∧
        t.macros = s.macros ∧ t.machine.phase = .uncompiled ∧ t.machine.code? = none := by
  intro first name s
  have hnew : Session.new 2 1 = .ok first := by cbv
  have hreach : s.Reachable := (Reachable.made (.new hnew)).after _
  have hphase : s.machine.phase = .running := by
    unfold s first name
    cbv
  have hdepth : s.toJson.depth = 10 := by
    unfold s first name
    cbv
  have hle : s.toJson.depth ≤ 127 := by
    rw [hdepth]
    decide
  exact ⟨hreach, hphase, hle, text_round_trip hreach hle⟩

end Session

end GridRobot
