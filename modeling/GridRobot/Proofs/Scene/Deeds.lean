import Mathlib
import GridRobot.Proofs.Scene.Sound

/-!
# What actions do to the world

An action that is carried out in a sound scene either leaves the world alone or changes the one
cell under the robot, which is no wall before and none afterwards.  `Scene.Handles` lists these
cases, and every fact about the effect of an action is shown on them.

A sequence of actions that are all carried out is kept as a list of deeds, each with the scene
before and the scene after it.  What one action keeps or counts, a sequence keeps or counts.

**Results.**
* `World.totalBeepers_store`: how the number of beepers changes with one cell.
* `Scene.Sound.handles`: an action does one of the listed cases.
* `Scene.Performs.wall_iff`, `Scene.Performs.exists_of_cell_ne`: walls stay, and a cell changes
  only under the robot.
* `Scene.Performs.totalBeepers`: beepers are conserved, up to those put down and picked up.
-/

namespace GridRobot

namespace Cell

/-- A pile below the largest one really grows. -/
theorem toNat_oneMore (n : UInt32) :
    (oneMore n).toNat = n.toNat + if n.toNat < 2 ^ 32 - 1 then 1 else 0 := by
  have hlt := n.toNat_lt
  have hfull : n = fullPile ↔ n.toNat = 2 ^ 32 - 1 := UInt32.toNat_inj.symm
  unfold oneMore
  by_cases h : n = fullPile
  · rw [if_pos h, if_neg (Nat.not_lt_of_le (Nat.le_of_eq (hfull.1 h).symm))]
    rfl
  · have hroom : n.toNat < 2 ^ 32 - 1 := Nat.lt_of_le_of_ne (Nat.le_of_lt_succ hlt) (h ∘ hfull.2)
    rw [if_neg h, if_pos hroom, UInt32.toNat_add, UInt32.toNat_one]
    exact Nat.mod_eq_of_lt (Nat.add_lt_of_lt_sub hroom)

theorem toNat_sub_one {n : UInt32} (h : n ≠ 0) : (n - 1).toNat + 1 = n.toNat := by
  have hpos : n.toNat ≠ 0 := fun hzero => h (UInt32.toNat_inj.1 hzero)
  have hle : (1 : UInt32) ≤ n := by
    rw [UInt32.le_iff_toNat_le, UInt32.toNat_one]
    omega
  rw [UInt32.toNat_sub_of_le n 1 hle, UInt32.toNat_one]
  omega

end Cell

namespace World

/-- The number of beepers on all cells together. -/
def totalBeepers (w : World) : Nat :=
  (w.cells.toList.map fun c => c.pile.toNat).sum

variable {w v : World} {i : Nat}

theorem sum_map_set (f : Cell → Nat) {cells : List Cell} {i : Nat} (h : i < cells.length)
    (c : Cell) : ((cells.set i c).map f).sum + f cells[i] = (cells.map f).sum + f c := by
  induction cells generalizing i with
  | nil =>
      simp at h
  | cons head cells ih =>
      cases i with
      | zero =>
          simp only [List.set_cons_zero, List.map_cons, List.sum_cons, List.getElem_cons_zero]
          omega
      | succ i =>
          have hrest := ih (Nat.lt_of_succ_lt_succ h)
          simp only [List.set_cons_succ, List.map_cons, List.sum_cons, List.getElem_cons_succ]
          omega

/-- Storing a cell exchanges its beepers for those that were there. -/
theorem totalBeepers_store (h : i < w.cells.size) (c : Cell) :
    (w.store i c).totalBeepers + (w.stored i).pile.toNat = w.totalBeepers + c.pile.toNat := by
  have hstored : w.stored i = w.cells.toList[i] := by
    simp [stored, Array.getD_eq_getD_getElem?, h]
  rw [hstored, totalBeepers, store, Array.toList_setIfInBounds]
  exact sum_map_set (fun c => c.pile.toNat) h c

/-- Where a cell is found depends on the size of the world alone. -/
theorem index_congr (hwidth : v.width = w.width) (hheight : v.height = w.height) (x y : Int) :
    v.index x y = w.index x y := by
  rw [index, index, inBounds, inBounds, hwidth, hheight]

theorem cell_eq_ok_iff {x y : UInt64} {c : Cell} :
    w.cell x y = .ok c ↔ ∃ i, w.index (signed x) (signed y) = .ok i ∧ w.stored i = c := by
  unfold cell
  cases w.index (signed x) (signed y) with
  | error e =>
      simp [Except.map]
  | ok i =>
      simp [Except.map]

end World

namespace Scene

/-- What an action can do to the world of a scene whose robot stands on the cell with the index
`i`. -/
inductive Handles (s : Scene) (i : Nat) : Action → World → Prop
  | nothing {a : Action} (hpick : a ≠ .pickUp) (hput : a ≠ .putDown) : Handles s i a s.world
  | pickUp (hpile : (s.world.stored i).pile ≠ 0) :
      Handles s i .pickUp (s.world.store i (Cell.beepers ((s.world.stored i).pile - 1)).tidy)
  | putDown : Handles s i .putDown
      (s.world.store i (.beepers (Cell.oneMore (s.world.stored i).pile)))

variable {s t u : Scene} {a : Action} {i j : Nat} {w : World}

/-- An action is carried out on the open cell under the robot. -/
theorem Sound.handles (hs : s.Sound) (h : s.perform a = .ok t) :
    ∃ i, s.world.index (signed s.robot.x) (signed s.robot.y) = .ok i ∧
      s.world.stored i ≠ .wall ∧ s.Handles i a t.world := by
  obtain ⟨i, hi, hopen⟩ := Robot.fits_iff.1 hs.fits
  refine ⟨i, hi, hopen, ?_⟩
  cases a with
  | move =>
      rw [perform, move] at h
      split at h
      · cases h
      · cases h
        exact .nothing (by simp) (by simp)
  | pickUp =>
      rw [perform_pickUp hi] at h
      split at h
      · cases h
      · rename_i hpile
        cases h
        exact .pickUp hpile
  | putDown =>
      rw [perform_putDown hi] at h
      cases h
      exact .putDown
  | turnLeft =>
      cases h
      exact .nothing (by simp) (by simp)
  | turnRight =>
      cases h
      exact .nothing (by simp) (by simp)

theorem Handles.size_eq (h : s.Handles i a w) :
    w.width = s.world.width ∧ w.height = s.world.height := by
  cases h <;> exact ⟨rfl, rfl⟩

/-- Only the cell under the robot changes, and only by handling a beeper. -/
theorem Handles.of_stored_ne (h : s.Handles i a w) (hne : w.stored j ≠ s.world.stored j) :
    j = i ∧ (a = .pickUp ∨ a = .putDown) := by
  cases h with
  | nothing _ _ =>
      exact absurd rfl hne
  | pickUp _ =>
      exact ⟨by_contra fun hji => hne (World.stored_store_of_ne hji), .inl rfl⟩
  | putDown =>
      exact ⟨by_contra fun hji => hne (World.stored_store_of_ne hji), .inr rfl⟩

/-- No wall comes and none goes. -/
theorem Handles.wall_iff (h : s.Handles i a w) (hi : i < s.world.cells.size)
    (hopen : s.world.stored i ≠ .wall) : w.stored j = .wall ↔ s.world.stored j = .wall := by
  cases h with
  | nothing _ _ =>
      rfl
  | pickUp _ =>
      rw [World.stored_store _ _ _ _ hi]
      split
      · rename_i hji
        rw [Cell.tidy_eq_wall_iff, hji]
        exact iff_of_false (by simp) hopen
      · rfl
  | putDown =>
      rw [World.stored_store _ _ _ _ hi]
      split
      · rename_i hji
        rw [hji]
        exact iff_of_false (by simp) hopen
      · rfl

/-- A beeper is taken from the world, or put into it unless the pile is full already. -/
theorem Handles.totalBeepers (h : s.Handles i a w) (hi : i < s.world.cells.size) :
    w.totalBeepers + (if a = .pickUp then 1 else 0) = s.world.totalBeepers +
      if a = .putDown ∧ (s.world.stored i).pile.toNat < 2 ^ 32 - 1 then 1 else 0 := by
  cases h with
  | nothing hpick hput =>
      simp [hpick, hput]
  | pickUp hpile =>
      have hstore := World.totalBeepers_store hi
        (Cell.beepers ((s.world.stored i).pile - 1)).tidy
      have hless := Cell.toNat_sub_one hpile
      rw [Cell.pile_tidy, Cell.pile_beepers] at hstore
      simp only [if_true, reduceCtorEq, false_and, if_false]
      omega
  | putDown =>
      have hstore := World.totalBeepers_store hi
        (.beepers (Cell.oneMore (s.world.stored i).pile))
      have hmore := Cell.toNat_oneMore (s.world.stored i).pile
      rw [Cell.pile_beepers] at hstore
      simp only [reduceCtorEq, if_false, true_and]
      omega

theorem beepersHere_eq (hi : s.world.index (signed s.robot.x) (signed s.robot.y) = .ok i) :
    s.beepersHere = (s.world.stored i).pile := by
  rw [beepersHere, World.beepers, World.cell, hi]
  rfl

end Scene

/-! ### Sequences of actions -/

/-- An action that is carried out, with the scenes before and after it. -/
structure Deed where
  before : Scene
  action : Action
  after : Scene

namespace Deed

/-- The action, and the robot as it left it. -/
def record (d : Deed) : Action × Robot :=
  (d.action, d.after.robot)

/-- Whether a beeper is taken from the world. -/
def takes (d : Deed) : Bool :=
  d.action = .pickUp

/-- Whether a beeper is added to the world: the pile under the robot is not full. -/
def adds (d : Deed) : Bool :=
  d.action = .putDown ∧ d.before.beepersHere.toNat < 2 ^ 32 - 1

end Deed

namespace Scene

/-- Actions are carried out one after the other and lead from one scene to another. -/
inductive Performs : Scene → List Deed → Scene → Prop
  | nil {s : Scene} : Performs s [] s
  | cons {s t u : Scene} {a : Action} {deeds : List Deed} (h : s.perform a = .ok t)
      (hrest : Performs t deeds u) : Performs s (⟨s, a, t⟩ :: deeds) u

namespace Performs

variable {s t u : Scene} {a : Action} {deeds more : List Deed}

theorem one (h : s.perform a = .ok t) : s.Performs [⟨s, a, t⟩] t :=
  .cons h .nil

theorem append (h : s.Performs deeds t) (hmore : t.Performs more u) :
    s.Performs (deeds ++ more) u := by
  induction h with
  | nil =>
      exact hmore
  | cons ha _ ih =>
      exact .cons ha (ih hmore)

theorem size_eq (h : s.Performs deeds t) (hs : s.Sound) :
    t.world.width = s.world.width ∧ t.world.height = s.world.height := by
  induction h with
  | nil =>
      exact ⟨rfl, rfl⟩
  | cons ha _ ih =>
      obtain ⟨hwidth, hheight⟩ := (hs.edit_of_perform ha).size_eq
      obtain ⟨hwidth', hheight'⟩ := ih ((hs.edit_of_perform ha).sound hs)
      exact ⟨hwidth'.trans hwidth, hheight'.trans hheight⟩

/-- Walls are where they were. -/
theorem wall_iff (h : s.Performs deeds t) (hs : s.Sound) (x y : UInt64) :
    t.world.cell x y = .ok .wall ↔ s.world.cell x y = .ok .wall := by
  induction h with
  | nil =>
      rfl
  | @cons s t u a deeds ha _ ih =>
      rw [ih ((hs.edit_of_perform ha).sound hs), World.cell_eq_ok_iff, World.cell_eq_ok_iff]
      obtain ⟨i, hi, hopen, hhandles⟩ := hs.handles ha
      obtain ⟨hwidth, hheight⟩ := hhandles.size_eq
      simp only [World.index_congr hwidth hheight,
        hhandles.wall_iff (World.index_lt_size hs.valid hi) hopen]

/-- A cell that changes is one on which the robot picks up or puts down a beeper. -/
theorem exists_of_cell_ne (h : s.Performs deeds t) (hs : s.Sound) {x y : UInt64}
    (hne : t.world.cell x y ≠ s.world.cell x y) :
    ∃ d ∈ deeds, (d.action = .pickUp ∨ d.action = .putDown) ∧
      d.before.robot.x = x ∧ d.before.robot.y = y := by
  induction h with
  | nil =>
      exact absurd rfl hne
  | @cons s t u a deeds ha _ ih =>
      by_cases hfirst : t.world.cell x y = s.world.cell x y
      · rw [← hfirst] at hne
        obtain ⟨d, hd, hdone⟩ := ih ((hs.edit_of_perform ha).sound hs) hne
        exact ⟨d, List.mem_cons_of_mem _ hd, hdone⟩
      · obtain ⟨i, hi, _, hhandles⟩ := hs.handles ha
        obtain ⟨hwidth, hheight⟩ := hhandles.size_eq
        rw [World.cell, World.cell, World.index_congr hwidth hheight] at hfirst
        cases hj : s.world.index (signed x) (signed y) with
        | error e =>
            rw [hj] at hfirst
            exact absurd rfl hfirst
        | ok j =>
            rw [hj] at hfirst
            obtain ⟨rfl, haction⟩ := hhandles.of_stored_ne (j := j)
              fun heq => hfirst (congrArg Except.ok heq)
            obtain ⟨hx, hy⟩ := World.index_inj hi hj
            exact ⟨_, List.mem_cons_self, haction, signed_inj.1 hx, signed_inj.1 hy⟩

/-- **Conservation of beepers.**  What is there at the end, with what has been picked up, is what
was there at the start, with what has been put down on piles that were not full. -/
theorem totalBeepers (h : s.Performs deeds t) (hs : s.Sound) :
    t.world.totalBeepers + deeds.countP Deed.takes
      = s.world.totalBeepers + deeds.countP Deed.adds := by
  induction h with
  | nil =>
      rfl
  | @cons s t u a deeds ha _ ih =>
      have hrest := ih ((hs.edit_of_perform ha).sound hs)
      obtain ⟨i, hi, _, hhandles⟩ := hs.handles ha
      have hfirst := hhandles.totalBeepers (World.index_lt_size hs.valid hi)
      rw [← beepersHere_eq hi] at hfirst
      simp only [List.countP_cons, Deed.takes, Deed.adds, decide_eq_true_eq]
      omega

end Performs

end Scene

end GridRobot
