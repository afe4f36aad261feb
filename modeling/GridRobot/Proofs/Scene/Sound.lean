import Mathlib.Algebra.Group.Nat.Defs
import GridRobot.Robot

/-!
# Sound scenes

A scene is sound when its world is valid and its robot stands on an open cell of
it.  There are only two ways to change a scene: the robot is put somewhere, or a
cell is stored at an index.  `Scene.Edit` lists these changes together with what
makes them harmless, so that soundness is shown for the list and every operation
only has to be found in it.

Coordinates are words read as signed numbers.  A word that is read as a number
which is not negative is that number, and different words are different numbers,
so a wall that is stored away from the robot is never stored under it.

**Results.**
* `World.index_inj`: different coordinates have different indices.
* `Scene.Edit.sound`, `Scene.Edit.size_eq`: an edit keeps a scene sound and its world
  as large as it was.
* `Scene.perform_pickUp`, `Scene.perform_putDown`: how beepers are handled.
* `Scene.Sound.edit_of_perform`: every action is an edit.
* `Scene.Sound.x_lt`, `Scene.Sound.y_lt`, `Scene.Sound.exists_cell`: where the robot of a
  sound scene stands.
-/

namespace GridRobot

/-! ### Words as coordinates -/

theorem signed_eq_bmod (w : UInt64) : signed w = (w.toNat : Int).bmod (2 ^ 64) := by
  unfold signed
  rw [← Int64.toInt_toBitVec]
  exact BitVec.toInt_eq_toNat_bmod _

theorem signed_inj {v w : UInt64} : signed v = signed w ↔ v = w := by
  unfold signed
  rw [Int64.toInt_inj]
  constructor
  · intro h
    simpa using congrArg Int64.toUInt64 h
  · rintro rfl
    rfl

theorem toNat_of_signed_nonneg {w : UInt64} (h : 0 ≤ signed w) : (w.toNat : Int) = signed w := by
  have hlt := w.toNat_lt
  rw [signed_eq_bmod] at h ⊢
  rw [Int.bmod_def] at h ⊢
  omega

theorem signed_ofNat {n : Nat} (h : n < 2 ^ 63) : signed (.ofNat n) = n := by
  unfold signed
  rw [UInt64.toInt64_ofNat', Int64.toInt_ofNat_of_lt h]

namespace Cell

theorem tidy_eq_wall_iff {c : Cell} : c.tidy = .wall ↔ c = .wall := by
  cases c with
  | empty =>
      simp
  | wall =>
      simp
  | beepers n =>
      rw [tidy_beepers]
      split <;> simp

/-- A pile with one more beeper is not empty: a full pile stays full. -/
theorem oneMore_ne_zero (n : UInt32) : oneMore n ≠ 0 := by
  unfold oneMore
  split
  · rename_i h
    rw [h]
    decide
  · rename_i h
    intro hzero
    have hlast : n = 0 - 1 := by
      rw [← hzero]
      simp
    exact h (hlast.trans (by decide))

end Cell

namespace World

variable {w : World} {x y x' y' : Int} {i j : Nat} {c : Cell}

theorem index_eq_ok_iff :
    w.index x y = .ok i ↔
      (0 ≤ x ∧ 0 ≤ y ∧ x < w.width ∧ y < w.height) ∧ i = y.toNat * w.width + x.toNat := by
  unfold index
  rw [← inBounds_iff]
  split
  · rename_i h
    simp [h, eq_comm]
  · rename_i h
    simp [h]

/-- Row by row, every index belongs to one pair of coordinates. -/
theorem index_inj (h : w.index x y = .ok i) (h' : w.index x' y' = .ok i) : x = x' ∧ y = y' := by
  obtain ⟨⟨hx, hy, hxw, _⟩, rfl⟩ := index_eq_ok_iff.1 h
  obtain ⟨⟨hx', hy', hxw', _⟩, heq⟩ := index_eq_ok_iff.1 h'
  have hcol := congrArg (· % w.width) heq
  have hrow := congrArg (· / w.width) heq
  have hlt : x.toNat < w.width := by omega
  have hlt' : x'.toNat < w.width := by omega
  simp only [Nat.mul_add_mod_self_right, Nat.mod_eq_of_lt hlt, Nat.mod_eq_of_lt hlt'] at hcol
  rw [Nat.mul_comm, Nat.mul_comm y'.toNat] at hrow
  simp only [Nat.mul_add_div (Nat.zero_lt_of_lt hlt), Nat.div_eq_of_lt hlt,
    Nat.div_eq_of_lt hlt'] at hrow
  omega

theorem blocked_eq_false_iff :
    w.blocked x y = false ↔ ∃ i, w.index x y = .ok i ∧ w.stored i ≠ .wall := by
  unfold blocked
  cases w.index x y with
  | error e =>
      simp
  | ok i =>
      simp

theorem stored_store_of_ne (h : j ≠ i) : (w.store i c).stored j = w.stored j := by
  simp [stored, store, Ne.symm h]

end World

theorem Robot.fits_iff {r : Robot} {w : World} :
    r.fits w = true ↔ ∃ i, w.index (signed r.x) (signed r.y) = .ok i ∧ w.stored i ≠ .wall := by
  unfold fits
  rw [Bool.not_eq_true', World.blocked_eq_false_iff]

namespace Scene

/-- A valid world with the robot on one of its open cells. -/
structure Sound (s : Scene) : Prop where
  valid : s.world.Valid
  fits : s.robot.fits s.world = true

/-- Changes of a scene that do no harm: the robot is put on an open cell, or a cell is
stored that is no empty pile and no wall under the robot. -/
inductive Edit (s : Scene) : Scene → Prop
  | place {r : Robot} (hfits : r.fits s.world = true) : Edit s ⟨r, s.world⟩
  | store {i : Nat} {c : Cell} (hpile : c ≠ .beepers 0)
      (hwall : c = .wall → s.world.index (signed s.robot.x) (signed s.robot.y) ≠ .ok i) :
      Edit s ⟨s.robot, s.world.store i c⟩

variable {s t : Scene}

theorem Edit.size_eq (h : s.Edit t) :
    t.world.width = s.world.width ∧ t.world.height = s.world.height := by
  cases h with
  | place _ =>
      exact ⟨rfl, rfl⟩
  | store _ _ =>
      exact ⟨rfl, rfl⟩

theorem Edit.sound (hs : s.Sound) (h : s.Edit t) : t.Sound := by
  cases h with
  | place hfits =>
      exact ⟨hs.valid, hfits⟩
  | @store i c hpile hwall =>
      refine ⟨hs.valid.store i hpile, ?_⟩
      obtain ⟨j, hj, hopen⟩ := Robot.fits_iff.1 hs.fits
      refine Robot.fits_iff.2 ⟨j, hj, ?_⟩
      by_cases hji : j = i
      · subst hji
        rw [World.stored_store _ _ _ _ (World.index_lt_size hs.valid hj), if_pos rfl]
        exact fun hc => hwall hc hj
      · rwa [World.stored_store_of_ne hji]

/-- Picking up fails where there is no beeper, and otherwise takes one from the cell. -/
theorem perform_pickUp {i : Nat}
    (hi : s.world.index (signed s.robot.x) (signed s.robot.y) = .ok i) :
    s.perform .pickUp =
      if (s.world.stored i).pile = 0 then .error (.noBeeper s.robot.x s.robot.y)
      else .ok ⟨s.robot,
        s.world.store i (Cell.beepers ((s.world.stored i).pile - 1)).tidy⟩ := by
  rw [perform, pickUp, World.takeBeeper, hi]
  by_cases hpile : (s.world.stored i).pile = 0 <;> simp [Except.map, hpile]

/-- Putting down never fails. -/
theorem perform_putDown {i : Nat}
    (hi : s.world.index (signed s.robot.x) (signed s.robot.y) = .ok i) :
    s.perform .putDown =
      .ok ⟨s.robot, s.world.store i (.beepers (Cell.oneMore (s.world.stored i).pile))⟩ := by
  rw [perform, putDown, World.addBeeper, hi]
  rfl

namespace Sound

theorem index_robot (hs : s.Sound) :
    0 ≤ signed s.robot.x ∧ 0 ≤ signed s.robot.y ∧
      signed s.robot.x < s.world.width ∧ signed s.robot.y < s.world.height := by
  obtain ⟨i, hi, _⟩ := Robot.fits_iff.1 hs.fits
  exact (World.index_eq_ok_iff.1 hi).1

theorem x_lt (hs : s.Sound) : s.robot.x.toNat < s.world.width := by
  obtain ⟨hx, _, hlt, _⟩ := hs.index_robot
  have := toNat_of_signed_nonneg hx
  omega

theorem y_lt (hs : s.Sound) : s.robot.y.toNat < s.world.height := by
  obtain ⟨_, hy, _, hlt⟩ := hs.index_robot
  have := toNat_of_signed_nonneg hy
  omega

/-- The robot stands on a cell that is no wall. -/
theorem exists_cell (hs : s.Sound) :
    ∃ c, s.world.cell s.robot.x s.robot.y = .ok c ∧ c ≠ .wall := by
  obtain ⟨i, hi, hopen⟩ := Robot.fits_iff.1 hs.fits
  refine ⟨s.world.stored i, ?_, hopen⟩
  rw [World.cell, hi, Except.map]

/-- The coordinates ahead are words again when they name a cell of the world. -/
theorem signed_advance (hs : s.Sound) (hfront : s.frontBlocked = false) :
    signed s.robot.advance.x = s.robot.front.1 ∧ signed s.robot.advance.y = s.robot.front.2 := by
  obtain ⟨i, hi, _⟩ := World.blocked_eq_false_iff.1 hfront
  obtain ⟨hx, hy, hxw, hyh⟩ := (World.index_eq_ok_iff.1 hi).1
  have hwidth := hs.valid.width_le
  have hheight := hs.valid.height_le
  unfold World.maxCells at hwidth hheight
  unfold Robot.advance
  constructor
  · rw [signed_ofNat (by omega)]
    omega
  · rw [signed_ofNat (by omega)]
    omega

theorem fits_advance (hs : s.Sound) (hfront : s.frontBlocked = false) :
    s.robot.advance.fits s.world = true := by
  obtain ⟨i, hi, hopen⟩ := World.blocked_eq_false_iff.1 hfront
  obtain ⟨hx, hy⟩ := hs.signed_advance hfront
  refine Robot.fits_iff.2 ⟨i, ?_, hopen⟩
  rw [hx, hy, hi]

/-- Every action that is carried out is an edit. -/
theorem edit_of_perform (hs : s.Sound) {a : Action} (h : s.perform a = .ok t) : s.Edit t := by
  obtain ⟨i, hi, hopen⟩ := Robot.fits_iff.1 hs.fits
  cases a with
  | move =>
      rw [perform, move] at h
      cases hfront : s.frontBlocked with
      | true =>
          simp [hfront] at h
      | false =>
          simp only [hfront, Bool.false_eq_true, if_false, Except.ok.injEq] at h
          subst h
          exact .place (hs.fits_advance hfront)
  | pickUp =>
      rw [perform_pickUp hi] at h
      split at h
      · cases h
      · cases h
        refine .store (Cell.tidy_ne_pile_zero _) fun hwall => ?_
        rw [Cell.tidy_eq_wall_iff] at hwall
        cases hwall
  | putDown =>
      rw [perform_putDown hi] at h
      cases h
      refine .store (fun hpile => ?_) fun hwall => ?_
      · exact Cell.oneMore_ne_zero _ (Cell.beepers.inj hpile)
      · cases hwall
  | turnLeft =>
      cases h
      exact .place hs.fits
  | turnRight =>
      cases h
      exact .place hs.fits

end Sound

end Scene

end GridRobot
