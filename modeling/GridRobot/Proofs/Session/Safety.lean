import Mathlib
import GridRobot.Proofs.Scene.Sound
import GridRobot.Proofs.Session.Reachable

/-!
# Sessions stay safe

However a session is made, and whatever is done to it afterwards, its world keeps its
size and stays valid, and its robot stays on an open cell of it.  The invariant is that
the scene is sound: the check at the end of every way of making a session establishes
it, and every later change of the scene is an edit.

**Results.**
* `Change.edit`: what an operation does to the scene is an edit, or nothing.
* `Reachable.sound`: the scene of a reachable session is sound.
* `Made.safe_after`: a session stays safe through all operations.
-/

namespace GridRobot

namespace Session

/-- What nothing that is done to a session can break. -/
structure Safe (s : Session) : Prop where
  width_pos : 1 ≤ s.scene.world.width
  height_pos : 1 ≤ s.scene.world.height
  size_le : s.scene.world.width * s.scene.world.height ≤ 2 ^ 24
  size_eq : s.scene.world.cells.size = s.scene.world.width * s.scene.world.height
  no_empty_pile : .beepers 0 ∉ s.scene.world.cells
  x_lt : s.scene.robot.x.toNat < s.scene.world.width
  y_lt : s.scene.robot.y.toNat < s.scene.world.height
  on_open_cell :
    ∃ c, s.scene.world.cell s.scene.robot.x s.scene.robot.y = .ok c ∧ c ≠ .wall

variable {s t : Session}

theorem safe_of_sound (h : s.scene.Sound) : s.Safe where
  width_pos := h.valid.width_pos
  height_pos := h.valid.height_pos
  size_le := h.valid.size_le
  size_eq := h.valid.size_eq
  no_empty_pile := h.valid.no_empty_pile
  x_lt := h.x_lt
  y_lt := h.y_lt
  on_open_cell := h.exists_cell

theorem Made.sound (h : s.Made) : s.scene.Sound := by
  obtain ⟨_, hvalid, hfits⟩ := (checked_eq_ok_iff s s).1 h.checked.1
  exact ⟨hvalid, hfits⟩

/-- A cell that is set is not under the robot when it is a wall: the words that are
compared are equal when the numbers they stand for are. -/
theorem edit_of_setCell {x y : UInt64} {c : Cell} (h : s.setCell x y c = .ok t) :
    s.scene.Edit t.scene := by
  obtain ⟨hguard, w, hw, rfl⟩ := setCell_eq_ok_iff.1 h
  unfold World.setCell at hw
  cases hi : s.scene.world.index (signed x) (signed y) with
  | error e =>
      rw [hi] at hw
      cases hw
  | ok i =>
      rw [hi] at hw
      cases hw
      refine .store (Cell.tidy_ne_pile_zero c) fun hwall hrobot => hguard ?_
      obtain ⟨hx, hy⟩ := World.index_inj hrobot hi
      exact ⟨Cell.tidy_eq_wall_iff.1 hwall, signed_inj.1 hx, signed_inj.1 hy⟩

/-- An operation leaves the scene alone or edits it. -/
theorem Change.edit (h : s.Change t) (hs : s.scene.Sound) :
    t.scene = s.scene ∨ s.scene.Edit t.scene := by
  cases h with
  | refused =>
      exact .inl rfl
  | cell h =>
      exact .inr (edit_of_setCell h)
  | robot h =>
      obtain ⟨hfits, rfl⟩ := placeRobot_eq_ok_iff.1 h
      exact .inr (.place hfits)
  | program _ =>
      exact .inl rfl
  | macros _ =>
      exact .inl rfl
  | limit _ =>
      exact .inl rfl
  | loaded _ =>
      exact .inl rfl
  | unloaded _ =>
      exact .inl rfl
  | stepped =>
      rcases s.machine.scene_step s.scene with hsame | ⟨a, ha⟩
      · exact .inl hsame
      · exact .inr (hs.edit_of_perform ha)

theorem Reachable.sound (h : s.Reachable) : s.scene.Sound := by
  refine h.invariant (I := fun s => s.scene.Sound) (fun _ hmade => hmade.sound) ?_
  intro s t hchange hs
  rcases hchange.edit hs with hsame | hedit
  · rwa [hsame]
  · exact hedit.sound hs

/-- The scene is sound and its world has a given size. -/
def SoundOfSize (width height : Nat) (s : Session) : Prop :=
  s.scene.Sound ∧ s.scene.world.width = width ∧ s.scene.world.height = height

theorem Change.soundOfSize {width height : Nat} (h : s.Change t)
    (hs : s.SoundOfSize width height) : t.SoundOfSize width height := by
  obtain ⟨hsound, hwidth, hheight⟩ := hs
  unfold SoundOfSize
  rcases h.edit hsound with hsame | hedit
  · rw [hsame]
    exact ⟨hsound, hwidth, hheight⟩
  · obtain ⟨hw, hh⟩ := hedit.size_eq
    exact ⟨hedit.sound hsound, hw.trans hwidth, hh.trans hheight⟩

/-- **Safety.**  A session that is made in any way stays safe through any operations, and its
world keeps its size. -/
theorem Made.safe_after (h : s.Made) (ops : List Operation) :
    (s.after ops).Safe ∧
      (s.after ops).scene.world.width = s.scene.world.width ∧
      (s.after ops).scene.world.height = s.scene.world.height := by
  have hafter := (Reachable.made h).invariant_after
    (I := SoundOfSize s.scene.world.width s.scene.world.height)
    (fun _ _ hchange => hchange.soundOfSize) ⟨h.sound, rfl, rfl⟩ ops
  obtain ⟨hsound, hwidth, hheight⟩ := hafter
  exact ⟨safe_of_sound hsound, hwidth, hheight⟩

/-- The robot is sent to take a pile beside it; then a wall is put up under it, and another
one at a column that is read as a negative number. -/
theorem safe_after_on_square :
    let s : Session :=
      ⟨⟨⟨0, 0, .east⟩, ⟨2, 2, #[.empty, .empty, .empty, .empty]⟩⟩, [], .empty, .idle none⟩
    let ops : List Operation :=
      [.setCell 1 0 (.beepers 1), .push (.act .move), .push (.act .pickUp), .compile, .run,
        .setCell 1 0 .wall, .setCell 18446744073709551615 0 .wall]
    s.Made ∧ (s.after ops).Safe ∧
      (s.after ops).scene.world.width = s.scene.world.width ∧
      (s.after ops).scene.world.height = s.scene.world.height := by
  intro s ops
  have hnew : Session.new 2 2 = .ok s := by cbv
  have hmade : s.Made := .new hnew
  exact ⟨hmade, hmade.safe_after ops⟩

end Session

end GridRobot
