import Mathlib
import GridRobot.Proofs.Scene.Deeds

/-!
# The world is a map

The cells of a world lie row by row in one array and are addressed by words that are read as
signed numbers.  Seen from outside, the world is a map from coordinates to cells: a call fails
exactly when the coordinates, as the plain numbers they are, lie outside the rectangle, and
otherwise reads or changes this one cell.

What a change makes of a cell is said in `Cell.Change.effect` on numbers, with neither indices
nor machine arithmetic.  What stands on a cell after a history of calls is then the outcome of
the changes at this cell alone, in their order, beginning with an open cell.

**Results.**
* `World.Valid.index_word`: which words have an index, and which one.
* `World.update_of_index`, `World.update_of_outside`: what one call does.
* `World.Maps.update`: a call changes the map at its coordinates.
* `World.maps_updateAll`: a history of calls leaves the map that it tells.
* `World.acts_as_map`: the answers and the contents after any history of calls.
-/

namespace GridRobot

namespace Cell

/-- What can be done to a cell. -/
inductive Change
  | write (c : Cell)
  | add
  | take

namespace Change

/-- What a change makes of a cell. -/
def effect : Change → Cell → Cell
  | write c, _ => if c = .beepers 0 then .empty else c
  | add, old => .beepers (.ofNat (min (old.pile.toNat + 1) (2 ^ 32 - 1)))
  | take, .beepers n => if n.toNat = 1 then .empty else .beepers (.ofNat (n.toNat - 1))
  | take, old => old

/-- What is answered to a change of a cell: the beepers that lie there afterwards, unless the
cell is written or there is no pile to take from. -/
def answer : Change → Cell → Option UInt32
  | write _, _ => none
  | add, old => some (.ofNat (min (old.pile.toNat + 1) (2 ^ 32 - 1)))
  | take, .beepers n => some (.ofNat (n.toNat - 1))
  | take, _ => none

end Change

theorem tidy_eq_ite (c : Cell) : c.tidy = if c = .beepers 0 then .empty else c := by
  cases c with
  | empty => rfl
  | wall => rfl
  | beepers n => simp [tidy_beepers]

theorem oneMore_eq_ofNat (n : UInt32) :
    oneMore n = .ofNat (min (n.toNat + 1) (2 ^ 32 - 1)) := by
  have hmore := toNat_oneMore n
  have hsize : min (n.toNat + 1) (2 ^ 32 - 1) < 2 ^ 32 := by omega
  have hlt := n.toNat_lt
  rw [← UInt32.toNat_inj, UInt32.toNat_ofNat_of_lt' hsize, hmore]
  split <;> omega

theorem sub_one_eq_ofNat {n : UInt32} (h : n ≠ 0) : n - 1 = .ofNat (n.toNat - 1) := by
  have hless := toNat_sub_one h
  have hsize : n.toNat - 1 < 2 ^ 32 := Nat.lt_of_le_of_lt (Nat.sub_le _ _) n.toNat_lt
  rw [← UInt32.toNat_inj, UInt32.toNat_ofNat_of_lt' hsize]
  omega

/-- No change leaves a pile of no beepers. -/
theorem Change.effect_ne_pile_zero (change : Change) {c : Cell} (h : c ≠ .beepers 0) :
    change.effect c ≠ .beepers 0 := by
  cases change with
  | write c' =>
      rw [effect, ← tidy_eq_ite]
      exact tidy_ne_pile_zero c'
  | add =>
      rw [effect, ← oneMore_eq_ofNat]
      exact fun hzero => oneMore_ne_zero _ (beepers.inj hzero)
  | take =>
      cases c with
      | empty => exact h
      | wall => exact h
      | beepers n =>
          have hn : n ≠ 0 := fun hzero => h (by rw [hzero])
          have hless := toNat_sub_one hn
          rw [effect]
          split
          · simp
          · rename_i hone
            rw [← sub_one_eq_ofNat hn]
            intro hzero
            rw [beepers.inj hzero, UInt32.toNat_zero] at hless
            omega

end Cell

namespace World

/-- A call that may change the cell at some coordinates. -/
structure Update where
  x : UInt64
  y : UInt64
  change : Cell.Change

/-- The answer to a call, and the world after it.  A call that fails, and one that finds no
beeper to take, leave the world as it is. -/
def update (w : World) (u : Update) : Except WorldError (Option UInt32) × World :=
  match u.change with
  | .write c =>
      match w.setCell u.x u.y c with
      | .ok v => (.ok none, v)
      | .error e => (.error e, w)
  | .add =>
      match w.addBeeper u.x u.y with
      | .ok (n, v) => (.ok (some n), v)
      | .error e => (.error e, w)
  | .take =>
      match w.takeBeeper u.x u.y with
      | .ok (some (n, v)) => (.ok (some n), v)
      | .ok none => (.ok none, w)
      | .error e => (.error e, w)

/-- The world after a history of calls. -/
def updateAll (w : World) (history : List Update) : World :=
  history.foldl (fun w u => (w.update u).2) w

/-- What a history of calls leaves on a cell that was open before: the outcome of the changes
at its coordinates, in their order. -/
def told (history : List Update) (x y : UInt64) : Cell :=
  (history.filter fun u => u.x = x ∧ u.y = y).foldl (fun c u => u.change.effect c) .empty

/-- The world is a map on a rectangle: in it every cell is what the map says. -/
structure Maps (w : World) (width height : Nat) (f : UInt64 → UInt64 → Cell) : Prop where
  valid : w.Valid
  width_eq : w.width = width
  height_eq : w.height = height
  cell_eq : ∀ x y, x.toNat < width → y.toNat < height → w.cell x y = .ok (f x y)

variable {w : World} {width height i : Nat} {f : UInt64 → UInt64 → Cell}

/-! ### Words as coordinates of a rectangle -/

/-- A word is read as a number below a bound exactly when it is one, however large the word. -/
theorem signed_lt_iff {x : UInt64} {n : Nat} (hn : n < 2 ^ 63) :
    (0 ≤ signed x ∧ signed x < n) ↔ x.toNat < n := by
  constructor
  · rintro ⟨hnonneg, hlt⟩
    have heq := toNat_of_signed_nonneg hnonneg
    omega
  · intro hlt
    have heq : signed (.ofNat x.toNat) = x.toNat := signed_ofNat (by omega)
    rw [UInt64.ofNat_toNat] at heq
    omega

theorem Valid.index_word (hw : w.Valid) (x y : UInt64) :
    w.index (signed x) (signed y) =
      if x.toNat < w.width ∧ y.toNat < w.height then .ok (y.toNat * w.width + x.toNat)
      else .error (.outside (signed x) (signed y) w.width w.height) := by
  have hwidth := hw.width_le
  have hheight := hw.height_le
  unfold maxCells at hwidth hheight
  have hx := signed_lt_iff (x := x) (n := w.width) (by omega)
  have hy := signed_lt_iff (x := y) (n := w.height) (by omega)
  have hinside : w.inBounds (signed x) (signed y) = true ↔
      x.toNat < w.width ∧ y.toNat < w.height := by
    rw [inBounds_iff, ← hx, ← hy]
    tauto
  unfold index
  by_cases h : x.toNat < w.width ∧ y.toNat < w.height
  · have hnonneg := hx.2 h.1
    have hnonneg' := hy.2 h.2
    rw [if_pos (hinside.2 h), if_pos h, ← toNat_of_signed_nonneg hnonneg.1,
      ← toNat_of_signed_nonneg hnonneg'.1, Int.toNat_natCast, Int.toNat_natCast]
  · rw [if_neg (mt hinside.1 h), if_neg h]

/-! ### One call -/

theorem store_stored (w : World) (i : Nat) : w.store i (w.stored i) = w := by
  unfold store stored
  congr 1
  refine Array.ext_getElem? fun j => ?_
  rw [Array.getElem?_setIfInBounds]
  split
  · rename_i hij
    subst hij
    split
    · rename_i hlt
      simp [hlt]
    · rename_i hge
      rw [Array.getElem?_eq_none (Nat.le_of_not_lt hge)]
  · rfl

theorem Valid.stored_ne_pile_zero (hw : w.Valid) (i : Nat) : w.stored i ≠ .beepers 0 := by
  unfold stored
  by_cases h : i < w.cells.size
  · rw [Array.getD_eq_getD_getElem?, Array.getElem?_eq_getElem h, Option.getD_some]
    exact fun hpile => hw.no_empty_pile (hpile ▸ Array.getElem_mem h)
  · rw [Array.getD_eq_getD_getElem?, Array.getElem?_eq_none (Nat.le_of_not_lt h)]
    simp

/-- What is stored at some coordinates is found there and nowhere else. -/
theorem cell_store (hw : w.Valid) {x y : UInt64} (hi : w.index (signed x) (signed y) = .ok i)
    (c : Cell) (x' y' : UInt64) :
    (w.store i c).cell x' y' = if x' = x ∧ y' = y then .ok c else w.cell x' y' := by
  have hsize : (w.store i c).index (signed x') (signed y') = w.index (signed x') (signed y') :=
    index_congr rfl rfl _ _
  rw [cell, cell, hsize]
  split
  · rename_i hsame
    obtain ⟨rfl, rfl⟩ := hsame
    rw [hi, Except.map, stored_store _ _ _ _ (index_lt_size hw hi), if_pos rfl]
  · rename_i hother
    cases hj : w.index (signed x') (signed y') with
    | error e =>
        rfl
    | ok j =>
        have hji : j ≠ i := by
          rintro rfl
          obtain ⟨hx, hy⟩ := index_inj hj hi
          exact hother ⟨signed_inj.1 hx, signed_inj.1 hy⟩
        simp only [Except.map, stored_store_of_ne hji]

/-- A call at a cell of the world changes what is stored there and answers as the change does. -/
theorem update_of_index {u : Update} (hi : w.index (signed u.x) (signed u.y) = .ok i)
    (hpile : w.stored i ≠ .beepers 0) :
    w.update u = (.ok (u.change.answer (w.stored i)),
      w.store i (u.change.effect (w.stored i))) := by
  obtain ⟨x, y, change⟩ := u
  cases change with
  | write c =>
      simp [update, setCell, hi, Except.map, Cell.Change.answer, Cell.Change.effect,
        Cell.tidy_eq_ite]
  | add =>
      simp [update, addBeeper, hi, Except.map, Cell.Change.answer, Cell.Change.effect,
        Cell.oneMore_eq_ofNat]
  | take =>
      cases hstored : w.stored i with
      | empty =>
          have hsame := w.store_stored i
          rw [hstored] at hsame
          simp [update, takeBeeper, hi, Except.map, Cell.Change.answer, Cell.Change.effect,
            hstored, hsame]
      | wall =>
          have hsame := w.store_stored i
          rw [hstored] at hsame
          simp [update, takeBeeper, hi, Except.map, Cell.Change.answer, Cell.Change.effect,
            hstored, hsame]
      | beepers n =>
          have hn : n ≠ 0 := fun hzero => hpile (by rw [hstored, hzero])
          have hless := Cell.toNat_sub_one hn
          have hlast : n - 1 = 0 ↔ n.toNat = 1 := by
            rw [← UInt32.toNat_inj, UInt32.toNat_zero]
            omega
          simp [update, takeBeeper, hi, Except.map, Cell.Change.answer, Cell.Change.effect,
            hstored, hn, Cell.tidy_beepers, hlast, ← Cell.sub_one_eq_ofNat hn]

/-- A call outside the world fails and changes nothing. -/
theorem update_of_outside {u : Update} {e : WorldError}
    (h : w.index (signed u.x) (signed u.y) = .error e) : w.update u = (.error e, w) := by
  obtain ⟨x, y, change⟩ := u
  cases change <;> simp [update, setCell, addBeeper, takeBeeper, h, Except.map]

/-! ### The map -/

theorem told_append_singleton (history : List Update) (u : Update) (x y : UInt64) :
    told (history ++ [u]) x y =
      if x = u.x ∧ y = u.y then u.change.effect (told history x y) else told history x y := by
  unfold told
  rw [List.filter_append, List.foldl_append]
  by_cases h : x = u.x ∧ y = u.y
  · simp [h]
  · have hother : ¬ (u.x = x ∧ u.y = y) := fun heq => h ⟨heq.1.symm, heq.2.symm⟩
    simp [h, hother]

theorem told_ne_pile_zero (history : List Update) (x y : UInt64) :
    told history x y ≠ .beepers 0 := by
  induction history using List.reverseRecOn with
  | nil =>
      simp [told]
  | append_singleton history u ih =>
      rw [told_append_singleton]
      split
      · exact u.change.effect_ne_pile_zero ih
      · exact ih

theorem maps_blank (h : blank width height = .ok w) : w.Maps width height fun _ _ => .empty := by
  have hvalid := valid_of_blank h
  unfold blank at h
  cases harea : area width height with
  | error e =>
      rw [harea] at h
      cases h
  | ok n =>
      rw [harea] at h
      cases h
      refine ⟨hvalid, rfl, rfl, fun x y hx hy => ?_⟩
      rw [cell, hvalid.index_word, if_pos ⟨hx, hy⟩]
      simp only [Except.map, stored, Array.getD_eq_getD_getElem?, Array.getElem?_replicate]
      split <;> rfl

namespace Maps

/-- In the rectangle every cell has an index of its own, below the number of cells. -/
theorem index_eq (h : w.Maps width height f) {x y : UInt64} (hx : x.toNat < width)
    (hy : y.toNat < height) :
    w.index (signed x) (signed y) = .ok (y.toNat * width + x.toNat) := by
  obtain ⟨hvalid, rfl, rfl, _⟩ := h
  rw [hvalid.index_word, if_pos ⟨hx, hy⟩]

theorem index_eq_error (h : w.Maps width height f) {x y : UInt64}
    (hout : width ≤ x.toNat ∨ height ≤ y.toNat) :
    w.index (signed x) (signed y) = .error (.outside (signed x) (signed y) width height) := by
  obtain ⟨hvalid, rfl, rfl, _⟩ := h
  rw [hvalid.index_word, if_neg (by omega)]

theorem stored_eq (h : w.Maps width height f) {x y : UInt64} (hx : x.toNat < width)
    (hy : y.toNat < height) : w.stored (y.toNat * width + x.toNat) = f x y := by
  have hcell := h.cell_eq x y hx hy
  rw [cell, h.index_eq hx hy] at hcell
  exact Except.ok.inj hcell

/-- A call changes the cell at its coordinates and no other one. -/
theorem cell_update (h : w.Maps width height f) {u : Update} (hx : u.x.toNat < width)
    (hy : u.y.toNat < height) (hpile : f u.x u.y ≠ .beepers 0) (x y : UInt64) :
    (w.update u).2.cell x y =
      if x = u.x ∧ y = u.y then .ok (u.change.effect (f u.x u.y)) else w.cell x y := by
  have hi := h.index_eq hx hy
  have hstored := h.stored_eq hx hy
  rw [update_of_index hi (hstored ▸ hpile), hstored]
  exact cell_store h.valid hi _ x y

/-- After a call the world is the map with the outcome of the change at the coordinates. -/
theorem update (h : w.Maps width height f) (u : Update) (hpile : f u.x u.y ≠ .beepers 0) :
    (w.update u).2.Maps width height fun x y =>
      if x = u.x ∧ y = u.y then u.change.effect (f x y) else f x y := by
  by_cases hinside : u.x.toNat < width ∧ u.y.toNat < height
  · obtain ⟨hx, hy⟩ := hinside
    have hi := h.index_eq hx hy
    have hstored := h.stored_eq hx hy
    have hupdate := update_of_index hi (hstored ▸ hpile)
    refine ⟨?_, ?_, ?_, fun x y hx' hy' => ?_⟩
    · rw [hupdate]
      exact h.valid.store _ (u.change.effect_ne_pile_zero (hstored ▸ hpile))
    · rw [hupdate]
      exact h.width_eq
    · rw [hupdate]
      exact h.height_eq
    · rw [h.cell_update hx hy hpile]
      split
      · rename_i hsame
        rw [hsame.1, hsame.2]
      · exact h.cell_eq x y hx' hy'
  · rw [update_of_outside (h.index_eq_error (by omega))]
    refine ⟨h.valid, h.width_eq, h.height_eq, fun x y hx hy => ?_⟩
    rw [if_neg (by rintro ⟨rfl, rfl⟩; exact hinside ⟨hx, hy⟩)]
    exact h.cell_eq x y hx hy

end Maps

/-- After a history of calls a new world is the map that the history tells. -/
theorem maps_updateAll (h : blank width height = .ok w) (history : List Update) :
    (w.updateAll history).Maps width height (told history) := by
  induction history using List.reverseRecOn with
  | nil =>
      exact maps_blank h
  | append_singleton history u ih =>
      have hstep := ih.update u (told_ne_pile_zero history u.x u.y)
      have htold : told (history ++ [u]) = fun x y =>
          if x = u.x ∧ y = u.y then u.change.effect (told history x y)
          else told history x y := by
        funext x y
        exact told_append_singleton history u x y
      rw [updateAll, List.foldl_append, htold]
      exact hstep

/-- **A world is a map from coordinates to cells.**  Take a new world and any history of calls.
At coordinates outside the rectangle every call fails and names them as they are read, and
nothing changes.  Inside it the index is that of the row and the column and lies in the store;
the contents are what the history tells of this cell, the answer to a call is that of its
change, and afterwards the cell at these coordinates has changed and no other one. -/
theorem acts_as_map {w₀ : World} (h : blank width height = .ok w₀) (history : List Update)
    (x y : UInt64) :
    let w := w₀.updateAll history
    let outside := WorldError.outside (signed x) (signed y) width height
    let i := y.toNat * width + x.toNat
    (w.width = width ∧ w.height = height) ∧
      (width ≤ x.toNat ∨ height ≤ y.toNat →
        w.cell x y = .error outside ∧ w.beepers x y = .error outside ∧
          ∀ change, w.update ⟨x, y, change⟩ = (.error outside, w)) ∧
      (x.toNat < width → y.toNat < height →
        w.index (signed x) (signed y) = .ok i ∧ i < w.cells.size ∧
          w.cell x y = .ok (told history x y) ∧
          w.beepers x y = .ok (told history x y).pile ∧
          ∀ change, (w.update ⟨x, y, change⟩).1 = .ok (change.answer (told history x y)) ∧
            ∀ x' y', (w.update ⟨x, y, change⟩).2.cell x' y' =
              if x' = x ∧ y' = y then .ok (change.effect (told history x y))
              else w.cell x' y') := by
  intro w outside i
  have hmap : w.Maps width height (told history) := maps_updateAll h history
  have hpile := told_ne_pile_zero history x y
  refine ⟨⟨hmap.width_eq, hmap.height_eq⟩, fun hout => ?_, fun hx hy => ?_⟩
  · have hindex := hmap.index_eq_error hout
    refine ⟨?_, ?_, fun change => update_of_outside hindex⟩
    · rw [cell, hindex, Except.map]
    · rw [beepers, cell, hindex, Except.map, Except.map]
  · have hindex : w.index (signed x) (signed y) = .ok i := hmap.index_eq hx hy
    have hstored : w.stored i = told history x y := hmap.stored_eq hx hy
    have hcell := hmap.cell_eq x y hx hy
    have hlt : i < w.cells.size := index_lt_size hmap.valid hindex
    refine ⟨hindex, hlt, hcell, ?_, fun change => ⟨?_, ?_⟩⟩
    · rw [beepers, hcell, Except.map]
    · have hupdate := update_of_index (u := ⟨x, y, change⟩) hindex (hstored ▸ hpile)
      rw [hupdate, hstored]
    · exact hmap.cell_update (u := ⟨x, y, change⟩) hx hy hpile

/-- A wall gives way to a beeper that is taken away again, and a full pile stays as it is when
one more is put down.  The largest word lies outside, where it is read as minus one. -/
theorem acts_as_map_on_full_pile :
    let full : Cell := .beepers 4294967295
    let history : List Update :=
      [⟨1, 0, .write .wall⟩, ⟨1, 0, .add⟩, ⟨2, 1, .write full⟩, ⟨18446744073709551615, 0, .add⟩,
        ⟨2, 1, .add⟩, ⟨1, 0, .take⟩, ⟨0, 1, .take⟩]
    ∃ w₀, blank 3 2 = .ok w₀ ∧
      (w₀.updateAll history).cell 2 1 = .ok full ∧
      ((w₀.updateAll history).update ⟨2, 1, .take⟩).1 = .ok (some 4294967294) ∧
      (w₀.updateAll history).cell 1 0 = .ok .empty ∧
      (w₀.updateAll history).update ⟨18446744073709551615, 0, .add⟩
        = (.error (.outside (-1) 0 3 2), w₀.updateAll history) := by
  intro full history
  have hblank : blank 3 2 = .ok ⟨3, 2, Array.replicate 6 .empty⟩ := rfl
  refine ⟨_, hblank, ?_⟩
  obtain ⟨_, _, hfull⟩ := acts_as_map hblank history 2 1
  obtain ⟨_, _, hopen⟩ := acts_as_map hblank history 1 0
  obtain ⟨_, houtside, _⟩ := acts_as_map hblank history 18446744073709551615 0
  obtain ⟨_, _, hcell, _, hchange⟩ := hfull (by decide) (by decide)
  obtain ⟨_, _, hcell', _⟩ := hopen (by decide) (by decide)
  have htold : told history 2 1 = full := by decide
  have htold' : told history 1 0 = .empty := by decide
  have hsigned : signed 18446744073709551615 = -1 ∧ signed 0 = 0 := by decide
  refine ⟨htold ▸ hcell, ?_, htold' ▸ hcell', ?_⟩
  · rw [(hchange .take).1, htold]
    rfl
  · have hadd := (houtside (by decide)).2.2 .add
    rwa [hsigned.1, hsigned.2] at hadd

end World

end GridRobot
