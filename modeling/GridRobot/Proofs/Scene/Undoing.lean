import Mathlib
import GridRobot.Proofs.World.Contents

/-!
# Actions can be undone

Every action that is carried out has an inverse: a turn the other turn, the taking of a beeper the
putting down of one, and a step forward a step back, for which the robot turns around before and
after it.  A sequence of actions is undone by the inverses in the opposite order.

That the step back is not refused needs the cell that the robot comes from to be open, which it is
since the robot stood there.  That a cell is restored needs a pile that was emptied to come back as
a pile and one that was begun to vanish again; the world stores neither an empty pile nor a wall
under the robot.  Only a full pile loses what is put on it.

**Results.**
* `Scene.Sound.move_back`: the step back is carried out and leads to the cell before.
* `Scene.Sound.exists_inverse`: one action is undone by its inverse.
* `Scene.Performs.exists_undo`: a sequence of actions is undone by the inverses.
-/

namespace GridRobot

namespace Action

/-- The actions that undo an action. -/
def undo : Action → List Action
  | move => [turnLeft, turnLeft, move, turnLeft, turnLeft]
  | pickUp => [putDown]
  | putDown => [pickUp]
  | turnLeft => [turnRight]
  | turnRight => [turnLeft]

/-- The actions that undo a sequence of actions, the last one first. -/
def undoAll (actions : List Action) : List Action :=
  actions.reverse.flatMap undo

theorem undoAll_cons (a : Action) (actions : List Action) :
    undoAll (a :: actions) = undoAll actions ++ a.undo := by
  simp [undoAll]

end Action

/-! ### Cells and robots that come back -/

namespace Cell

variable {c : Cell} {n : UInt32}

theorem oneMore_sub_one (h : n ≠ 0) : oneMore (n - 1) = n := by
  have hmore := toNat_oneMore (n - 1)
  have hless := toNat_sub_one h
  have hlt := n.toNat_lt
  rw [← UInt32.toNat_inj, hmore, if_pos (by omega), hless]

theorem sub_one_oneMore (h : n ≠ fullPile) : oneMore n - 1 = n := by
  rw [oneMore, if_neg h, UInt32.add_sub_cancel]

/-- A pile that is emptied and filled again is the pile that it was. -/
theorem beepers_pile (h : c.pile ≠ 0) : .beepers c.pile = c := by
  cases c with
  | empty => exact absurd rfl h
  | wall => exact absurd rfl h
  | beepers n => rfl

/-- An open cell on which a pile is begun and taken away is the open cell that it was. -/
theorem tidy_beepers_pile (hwall : c ≠ .wall) (hpile : c ≠ .beepers 0) :
    (beepers c.pile).tidy = c := by
  cases c with
  | empty => rfl
  | wall => exact absurd rfl hwall
  | beepers n =>
      have hn : n ≠ 0 := fun hzero => hpile (by rw [hzero])
      rw [pile_beepers, tidy_beepers, if_neg hn]

end Cell

theorem World.store_store (w : World) (i : Nat) (c c' : Cell) :
    (w.store i c).store i c' = w.store i c' := by
  simp [store]

theorem ofNat_signed {x : UInt64} (h : 0 ≤ signed x) : UInt64.ofNat (signed x).toNat = x := by
  rw [← toNat_of_signed_nonneg h, Int.toNat_natCast, UInt64.ofNat_toNat]

theorem Robot.turnLeft_turnLeft_turnLeft_turnLeft (r : Robot) :
    r.turnLeft.turnLeft.turnLeft.turnLeft = r := by
  simp only [turnLeft, Direction.left_left_left_left]

/-! ### One action -/

namespace Scene

variable {s t u : Scene} {a : Action} {deeds : List Deed} {i : Nat}

namespace Sound

/-- Turned around after a step, the robot looks at the cell that it comes from. -/
theorem front_turned (hs : s.Sound) (hfront : s.frontBlocked = false) :
    s.robot.advance.turnLeft.turnLeft.front = (signed s.robot.x, signed s.robot.y) := by
  obtain ⟨hx, hy⟩ := hs.signed_advance hfront
  have hback := Direction.step_left_left s.robot.facing
  rw [Robot.front] at hx hy
  refine Prod.ext ?_ ?_
  · show signed s.robot.advance.x + s.robot.facing.left.left.step.1 = _
    rw [hx, hback]
    exact Int.add_neg_cancel_right _ _
  · show signed s.robot.advance.y + s.robot.facing.left.left.step.2 = _
    rw [hy, hback]
    exact Int.add_neg_cancel_right _ _

theorem move_back (hs : s.Sound) (hfront : s.frontBlocked = false) :
    perform ⟨s.robot.advance.turnLeft.turnLeft, s.world⟩ .move
      = .ok ⟨s.robot.turnLeft.turnLeft, s.world⟩ := by
  obtain ⟨hx, hy, _, _⟩ := hs.index_robot
  have hahead := hs.front_turned hfront
  have hopen : s.world.blocked (signed s.robot.x) (signed s.robot.y) = false := by
    simpa [Robot.fits] using hs.fits
  have hclear : frontBlocked ⟨s.robot.advance.turnLeft.turnLeft, s.world⟩ = false := by
    rw [frontBlocked, hahead]
    exact hopen
  have hrobot : s.robot.advance.turnLeft.turnLeft.advance = s.robot.turnLeft.turnLeft := by
    rw [Robot.advance, hahead, ofNat_signed hx, ofNat_signed hy]
    rfl
  rw [perform, move, hclear, hrobot]
  rfl

theorem putDown_back (hs : s.Sound) (h : s.perform .pickUp = .ok t) :
    t.perform .putDown = .ok s := by
  obtain ⟨i, hi, _⟩ := Robot.fits_iff.1 hs.fits
  have hsize := World.index_lt_size hs.valid hi
  rw [perform_pickUp hi] at h
  split at h
  · cases h
  · rename_i hpile
    have ht := (Except.ok.inj h).symm
    have hi' : t.world.index (signed t.robot.x) (signed t.robot.y) = .ok i := by
      rw [ht]
      exact hi
    rw [perform_putDown hi', ht, World.stored_store _ _ _ _ hsize, if_pos rfl, Cell.pile_tidy,
      Cell.pile_beepers, Cell.oneMore_sub_one hpile, World.store_store, Cell.beepers_pile hpile,
      World.store_stored]

theorem pickUp_back (hs : s.Sound) (h : s.perform .putDown = .ok t)
    (hroom : s.beepersHere ≠ Cell.fullPile) : t.perform .pickUp = .ok s := by
  obtain ⟨i, hi, hopen⟩ := Robot.fits_iff.1 hs.fits
  have hsize := World.index_lt_size hs.valid hi
  rw [beepersHere_eq hi] at hroom
  rw [perform_putDown hi] at h
  have ht := (Except.ok.inj h).symm
  have hi' : t.world.index (signed t.robot.x) (signed t.robot.y) = .ok i := by
    rw [ht]
    exact hi
  rw [perform_pickUp hi', ht, World.stored_store _ _ _ _ hsize, if_pos rfl, Cell.pile_beepers,
    if_neg (Cell.oneMore_ne_zero _), Cell.sub_one_oneMore hroom, World.store_store,
    Cell.tidy_beepers_pile hopen (hs.valid.stored_ne_pile_zero i), World.store_stored]

/-- An action that is carried out is undone by its inverse. -/
theorem exists_inverse (hs : s.Sound) (h : s.perform a = .ok t)
    (hroom : a = .putDown → s.beepersHere ≠ Cell.fullPile) :
    ∃ back, t.Performs back s ∧ back.map Deed.action = a.undo := by
  cases a with
  | move =>
      cases hfront : s.frontBlocked with
      | true =>
          simp [perform, move, hfront] at h
      | false =>
          obtain rfl : t = ⟨s.robot.advance, s.world⟩ := by
            simpa [perform, move, hfront, eq_comm] using h
          have hturned : perform ⟨s.robot.turnLeft.turnLeft.turnLeft, s.world⟩ .turnLeft
              = .ok s := by
            rw [perform_turnLeft, Robot.turnLeft_turnLeft_turnLeft_turnLeft]
          exact ⟨_, .cons rfl (.cons rfl (.cons (hs.move_back hfront)
            (.cons rfl (.one hturned)))), rfl⟩
  | pickUp =>
      exact ⟨_, .one (hs.putDown_back h), rfl⟩
  | putDown =>
      exact ⟨_, .one (hs.pickUp_back h (hroom rfl)), rfl⟩
  | turnLeft =>
      cases h
      refine ⟨_, .one ?_, rfl⟩
      simp [Robot.turnLeft, Robot.turnRight]
  | turnRight =>
      cases h
      refine ⟨_, .one ?_, rfl⟩
      simp [Robot.turnLeft, Robot.turnRight]

end Sound

/-! ### Sequences of actions -/

/-- **Actions can be undone.**  When actions are carried out one after the other in a valid world,
by a robot on an open cell and none of them putting a beeper on a full pile, then their inverses
in the opposite order are all carried out too, and they lead back to the very same scene. -/
theorem Performs.exists_undo (h : s.Performs deeds t) (hs : s.Sound)
    (hroom : ∀ d ∈ deeds, d.action = .putDown → d.before.beepersHere ≠ Cell.fullPile) :
    ∃ back, t.Performs back s ∧
      back.map Deed.action = Action.undoAll (deeds.map Deed.action) := by
  induction h with
  | nil =>
      exact ⟨[], .nil, rfl⟩
  | @cons s u t a deeds ha _ ih =>
      obtain ⟨hfirst, hrest⟩ := List.forall_mem_cons.1 hroom
      obtain ⟨back, hback, hactions⟩ := ih ((hs.edit_of_perform ha).sound hs) hrest
      obtain ⟨last, hlast, haction⟩ := hs.exists_inverse ha hfirst
      refine ⟨back ++ last, hback.append hlast, ?_⟩
      rw [List.map_append, hactions, haction, List.map_cons, Action.undoAll_cons]

/-- A beeper is put on an open cell behind a wall, the robot turns and steps forward, and empties
the pile there: it comes back to where it started, and the beeper is taken away again. -/
theorem exists_undo_beside_wall :
    let s : Scene := ⟨⟨1, 0, .north⟩, ⟨3, 1, #[.wall, .empty, .beepers 1]⟩⟩
    let t : Scene := ⟨⟨2, 0, .east⟩, ⟨3, 1, #[.wall, .beepers 1, .empty]⟩⟩
    let actions : List Action := [.putDown, .turnRight, .move, .pickUp]
    ∃ deeds back, s.Performs deeds t ∧ deeds.map Deed.action = actions ∧ s.Sound ∧
      (∀ d ∈ deeds, d.action = .putDown → d.before.beepersHere ≠ Cell.fullPile) ∧
      t.Performs back s ∧ back.map Deed.action =
        [.putDown, .turnLeft, .turnLeft, .move, .turnLeft, .turnLeft, .turnLeft, .pickUp] := by
  intro s t actions
  have hcheck : s.world.check = .ok () := by cbv
  have hs : s.Sound := ⟨(World.check_eq_ok_iff _).1 hcheck, rfl⟩
  let w' : World := ⟨3, 1, #[.wall, .beepers 1, .beepers 1]⟩
  have hput : s.perform .putDown = .ok ⟨⟨1, 0, .north⟩, w'⟩ := by cbv
  have hturn : perform ⟨⟨1, 0, .north⟩, w'⟩ .turnRight = .ok ⟨⟨1, 0, .east⟩, w'⟩ := rfl
  have hmove : perform ⟨⟨1, 0, .east⟩, w'⟩ .move = .ok ⟨⟨2, 0, .east⟩, w'⟩ := by cbv
  have hpick : perform ⟨⟨2, 0, .east⟩, w'⟩ .pickUp = .ok t := by cbv
  have hdeeds := Performs.cons hput (.cons hturn (.cons hmove (.one hpick)))
  have hroom : s.beepersHere ≠ Cell.fullPile := by cbv
  obtain ⟨back, hback, hundo⟩ := hdeeds.exists_undo hs (by simpa using hroom)
  exact ⟨_, back, hdeeds, rfl, hs, by simpa using hroom, hback, hundo⟩

end Scene

end GridRobot
