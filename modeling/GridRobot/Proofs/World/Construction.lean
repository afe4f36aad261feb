import Mathlib
import GridRobot.Proofs.World.Contents

/-!
# The check accepts what can be built

A world that comes from a file is data of any kind: a width, a height and a list of cells.  The
check lets exactly those data pass that are the outcome of some history of calls on a new world.
One direction is that calls keep a world valid.  For the other one a valid world is written into
a new one cell by cell, and the two are then the same map on the same rectangle.

Data that do not pass have a fault, and the check names it.  The faults exclude each other, since
each is stated for data that have none of the faults before it.

The check is also carried out on words, with a product that may overflow and a division that is
not defined for a width of zero.  It never comes to that division, and the overflow is the same
fault as a product above the limit.

**Results.**
* `World.Maps.eq`: worlds that are the same map are equal.
* `World.updateAll_rebuild`: a valid world is the outcome of writing its cells.
* `World.check_eq_error_iff`: which fault the check names.
* `World.checkOnWords_eq`: the check on words does not fail and answers the same.
* `World.check_exact`: what the check accepts, and what it answers otherwise.
-/

namespace GridRobot

namespace World

variable {w v : World} {width height i k x y : Nat} {f : UInt64 → UInt64 → Cell}

/-! ### Rows and columns of an index -/

theorem row_of_index (hx : x < width) (y : Nat) : (y * width + x) / width = y := by
  rw [Nat.mul_comm, Nat.mul_add_div (Nat.zero_lt_of_lt hx), Nat.div_eq_of_lt hx, Nat.add_zero]

/-- The call that writes the cell with an index, as it is, at its column and its row. -/
def writeBack (w : World) (i : Nat) : Update :=
  ⟨.ofNat (i % w.width), .ofNat (i / w.width), .write (w.stored i)⟩

/-- The calls that write all cells of the world. -/
def rebuild (w : World) : List Update :=
  (List.range w.cells.size).map w.writeBack

/-- The column and the row of an index are words and lie in the world. -/
theorem Valid.writeBack_spec (hw : w.Valid) (h : i < w.cells.size) :
    (w.writeBack i).x.toNat = i % w.width ∧ (w.writeBack i).y.toNat = i / w.width ∧
      i % w.width < w.width ∧ i / w.width < w.height := by
  have hwidth := hw.width_le
  have hheight := hw.height_le
  unfold maxCells at hwidth hheight
  have hcolumn : i % w.width < w.width := Nat.mod_lt i hw.width_pos
  have hrow : i / w.width < w.height := Nat.div_lt_of_lt_mul (hw.size_eq ▸ h)
  refine ⟨UInt64.toNat_ofNat_of_lt' ?_, UInt64.toNat_ofNat_of_lt' ?_, hcolumn, hrow⟩
  · show i % w.width < 2 ^ 64
    omega
  · show i / w.width < 2 ^ 64
    omega

/-! ### Building a valid world -/

/-- Worlds that are the same map on the same rectangle are equal. -/
theorem Maps.eq (hw : w.Maps width height f) (hv : v.Maps width height f) : w = v := by
  have hwidth : v.width = w.width := hv.width_eq.trans hw.width_eq.symm
  have hheight : v.height = w.height := hv.height_eq.trans hw.height_eq.symm
  have hsize : v.cells.size = w.cells.size := by
    rw [hv.valid.size_eq, hw.valid.size_eq, hwidth, hheight]
  have hcells : ∀ i, i < w.cells.size → w.stored i = v.stored i := by
    intro i hi
    obtain ⟨hx, hy, hcolumn, hrow⟩ := hw.valid.writeBack_spec hi
    rw [hw.width_eq] at hx hy hcolumn
    rw [hw.width_eq, hw.height_eq] at hrow
    have hw' := hw.stored_eq (hx ▸ hcolumn) (hy ▸ hrow)
    have hv' := hv.stored_eq (hx ▸ hcolumn) (hy ▸ hrow)
    rw [hx, hy, Nat.div_add_mod'] at hw' hv'
    exact hw'.trans hv'.symm
  obtain ⟨_, _, cells⟩ := w
  obtain ⟨_, _, cells'⟩ := v
  cases hwidth
  cases hheight
  congr
  refine Array.ext hsize.symm fun i hi hi' => ?_
  simpa [stored, Array.getD_eq_getD_getElem?, hi, hi'] using hcells i hi

/-- A valid world is the map that its cells are. -/
theorem Valid.maps (hw : w.Valid) :
    w.Maps w.width w.height fun x y => w.stored (y.toNat * w.width + x.toNat) where
  valid := hw
  width_eq := rfl
  height_eq := rfl
  cell_eq x y hx hy := by
    rw [cell, hw.index_word, if_pos ⟨hx, hy⟩, Except.map]

/-- A call to write a cell back is at the coordinates with the index of this cell. -/
theorem Valid.at_writeBack_iff (hw : w.Valid) (h : k < w.cells.size) {x y : UInt64}
    (hx : x.toNat < w.width) :
    (x = (w.writeBack k).x ∧ y = (w.writeBack k).y) ↔ y.toNat * w.width + x.toNat = k := by
  obtain ⟨hcolumn, hrow, _, _⟩ := hw.writeBack_spec h
  rw [← UInt64.toNat_inj, ← UInt64.toNat_inj, hcolumn, hrow]
  constructor
  · rintro ⟨hx, hy⟩
    rw [hx, hy, Nat.div_add_mod']
  · rintro rfl
    rw [Nat.mul_add_mod_of_lt hx, row_of_index hx]
    exact ⟨rfl, rfl⟩

/-- After the first calls the first cells are what they should be, and the others are open. -/
theorem Valid.told_writeBack (hw : w.Valid) (hk : k ≤ w.cells.size) {x y : UInt64}
    (hx : x.toNat < w.width) :
    told ((List.range k).map w.writeBack) x y =
      if y.toNat * w.width + x.toNat < k then w.stored (y.toNat * w.width + x.toNat)
      else .empty := by
  induction k with
  | zero =>
      rw [if_neg (Nat.not_lt_zero _)]
      rfl
  | succ k ih =>
      rw [List.range_succ, List.map_append, List.map_singleton, told_append_singleton,
        ih (Nat.le_of_succ_le hk)]
      simp only [hw.at_writeBack_iff hk hx]
      by_cases hlast : y.toNat * w.width + x.toNat = k
      · rw [if_pos hlast, hlast, if_pos (Nat.lt_succ_self k)]
        exact if_neg (hw.stored_ne_pile_zero k)
      · have hbefore : y.toNat * w.width + x.toNat < k + 1 ↔ y.toNat * w.width + x.toNat < k :=
          ⟨fun h => Nat.lt_of_le_of_ne (Nat.le_of_lt_succ h) hlast, Nat.lt_succ_of_lt⟩
        simp only [if_neg hlast, hbefore]

/-- A valid world is what writing its cells makes of a new world. -/
theorem updateAll_rebuild {w₀ : World} (hw : w.Valid) (h : blank w.width w.height = .ok w₀) :
    w₀.updateAll w.rebuild = w := by
  refine Maps.eq (maps_updateAll h w.rebuild) ⟨hw, rfl, rfl, fun x y hx hy => ?_⟩
  have hi := index_lt_size hw ((hw.index_word x y).trans (if_pos ⟨hx, hy⟩))
  rw [rebuild, hw.told_writeBack (Nat.le_refl _) hx, if_pos hi]
  exact hw.maps.cell_eq x y hx hy

/-- The valid worlds are those that can be built. -/
theorem valid_iff_exists_updateAll :
    w.Valid ↔
      ∃ width height w₀ history, blank width height = .ok w₀ ∧ w₀.updateAll history = w := by
  constructor
  · intro hw
    have harea := (area_eq_ok_iff w.width w.height _).2
      ⟨hw.width_pos, hw.height_pos, hw.size_le, rfl⟩
    have hblank : blank w.width w.height
        = .ok ⟨w.width, w.height, Array.replicate (w.width * w.height) .empty⟩ := by
      rw [blank, harea, Except.map]
    exact ⟨_, _, _, _, hblank, updateAll_rebuild hw hblank⟩
  · rintro ⟨_, _, _, history, hblank, rfl⟩
    exact (maps_updateAll hblank history).valid

/-! ### The faults of data that cannot be built -/

/-- What is wrong with data that are no valid world.  Every fault but the first one is stated for
data that have none of the faults before it. -/
inductive Fault (w : World) : WorldError → Prop
  | noCells (h : w.width = 0 ∨ w.height = 0) : Fault w (.noCells w.width w.height)
  | tooLarge (hwidth : 0 < w.width) (hheight : 0 < w.height)
      (h : 2 ^ 24 < w.width * w.height) : Fault w (.tooLarge w.width w.height)
  | cellCount (hwidth : 0 < w.width) (hheight : 0 < w.height)
      (hlimit : w.width * w.height ≤ 2 ^ 24) (h : w.cells.size ≠ w.width * w.height) :
      Fault w (.cellCount w.width w.height (w.width * w.height) w.cells.size)
  | emptyPile {x y : Nat} (hlimit : w.width * w.height ≤ 2 ^ 24)
      (hcount : w.cells.size = w.width * w.height) (hx : x < w.width) (hy : y < w.height)
      (h : w.cells[y * w.width + x]? = some (.beepers 0))
      (hfirst : ∀ i < y * w.width + x, w.cells[i]? ≠ some (.beepers 0)) :
      Fault w (.emptyPile x y)

theorem area_of_le (hwidth : 0 < width) (hheight : 0 < height)
    (hlimit : width * height ≤ 2 ^ 24) : area width height = .ok (width * height) :=
  (area_eq_ok_iff _ _ _).2 ⟨hwidth, hheight, hlimit, rfl⟩

/-- The check of data that have cells, not too many of them and as many as they should. -/
theorem check_of_cells (hwidth : 0 < w.width) (hheight : 0 < w.height)
    (hlimit : w.width * w.height ≤ 2 ^ 24) (hcount : w.cells.size = w.width * w.height) :
    w.check = match w.cells.findIdx? (· == .beepers 0) with
      | some i => .error (.emptyPile (i % w.width) (i / w.width))
      | none => .ok () := by
  rw [check, area_of_le hwidth hheight hlimit]
  simp only [bind, Except.bind, hcount, ne_eq, not_true, if_false]
  cases w.cells.findIdx? (· == .beepers 0) <;> rfl

/-- The check names the fault. -/
theorem Fault.check_eq {e : WorldError} (h : w.Fault e) : w.check = .error e := by
  cases h with
  | noCells h =>
      rw [check, area, if_pos h]
      rfl
  | tooLarge hwidth hheight h =>
      have hlimit : ¬ w.width * w.height ≤ maxCells := Nat.not_le.2 h
      rw [check, area, if_neg (by omega), if_neg hlimit]
      rfl
  | cellCount hwidth hheight hlimit h =>
      rw [check, area_of_le hwidth hheight hlimit]
      simp only [bind, Except.bind, if_pos h]
      rfl
  | @emptyPile x y hlimit hcount hx hy h hfirst =>
      have hfind : w.cells.findIdx? (· == .beepers 0) = some (y * w.width + x) := by
        obtain ⟨hlt, hcell⟩ := Array.getElem?_eq_some_iff.1 h
        refine Array.findIdx?_eq_some_iff_getElem.2 ⟨hlt, by simp [hcell], fun j hj => ?_⟩
        have hne := hfirst j hj
        rw [Array.getElem?_eq_getElem (Nat.lt_trans hj hlt)] at hne
        simpa using hne
      rw [check_of_cells (Nat.zero_lt_of_lt hx) (Nat.zero_lt_of_lt hy) hlimit hcount, hfind]
      simp only [Nat.mul_add_mod_of_lt hx, row_of_index hx]

/-- Data that are no valid world have a fault. -/
theorem valid_or_exists_fault (w : World) : w.Valid ∨ ∃ e, w.Fault e := by
  by_cases hcells : w.width = 0 ∨ w.height = 0
  · exact .inr ⟨_, .noCells hcells⟩
  have hwidth : 0 < w.width := by omega
  have hheight : 0 < w.height := by omega
  by_cases hlimit : w.width * w.height ≤ 2 ^ 24
  · by_cases hcount : w.cells.size = w.width * w.height
    · cases hfind : w.cells.findIdx? (· == .beepers 0) with
      | none =>
          refine .inl ((check_eq_ok_iff w).1 ?_)
          rw [check_of_cells hwidth hheight hlimit hcount, hfind]
      | some i =>
          obtain ⟨hi, hpile, hfirst⟩ := Array.findIdx?_eq_some_iff_getElem.1 hfind
          rw [beq_iff_eq] at hpile
          refine .inr ⟨_, .emptyPile (x := i % w.width) (y := i / w.width) hlimit hcount
            (Nat.mod_lt i hwidth) (Nat.div_lt_of_lt_mul (hcount ▸ hi)) ?_ fun j hj => ?_⟩
          · rw [Nat.div_add_mod', Array.getElem?_eq_getElem hi, hpile]
          · rw [Nat.div_add_mod'] at hj
            rw [Array.getElem?_eq_getElem (Nat.lt_trans hj hi)]
            simpa using hfirst j hj
    · exact .inr ⟨_, .cellCount hwidth hheight hlimit hcount⟩
  · exact .inr ⟨_, .tooLarge hwidth hheight (Nat.not_le.1 hlimit)⟩

theorem check_eq_error_iff {e : WorldError} : w.check = .error e ↔ w.Fault e := by
  refine ⟨fun h => ?_, Fault.check_eq⟩
  rcases w.valid_or_exists_fault with hvalid | ⟨e', hfault⟩
  · rw [(check_eq_ok_iff w).2 hvalid] at h
    cases h
  · rw [hfault.check_eq] at h
    cases h
    exact hfault

/-! ### The check on words -/

/-- The product of two words, unless it overflows. -/
def product? (a b : UInt64) : Option UInt64 :=
  if a.toNat * b.toNat < 2 ^ 64 then some (a * b) else none

/-- The column and the row of an index; a division by zero has no outcome. -/
def place? (width : UInt64) (i : Nat) : Option (Nat × Nat) :=
  if width = 0 then none else some (i % width.toNat, i / width.toNat)

/-- Look for a pile of no beepers in the cells from an index on.  The place of a cell is worked
out before the cell is looked at. -/
def search (width : UInt64) (i : Nat) : List Cell → Option (Except WorldError Unit)
  | [] => some (.ok ())
  | c :: cells => do
      let (x, y) ← place? width i
      if c = .beepers 0 then some (.error (.emptyPile x y)) else search width (i + 1) cells

/-- The check with the arithmetic of words; no answer stands for a division by zero. -/
def checkOnWords (width height : UInt64) (cells : Array Cell) :
    Option (Except WorldError Unit) :=
  if width = 0 ∨ height = 0 then some (.error (.noCells width.toNat height.toNat))
  else
    match (product? width height).filter (· ≤ .ofNat maxCells) with
    | none => some (.error (.tooLarge width.toNat height.toNat))
    | some count =>
        if cells.size ≠ count.toNat then
          some (.error (.cellCount width.toNat height.toNat count.toNat cells.size))
        else search width 0 cells.toList

theorem search_eq {width : UInt64} (hwidth : width ≠ 0) (i : Nat) (cells : List Cell) :
    search width i cells = some (match cells.findIdx? (· == .beepers 0) with
      | some j => .error (.emptyPile ((i + j) % width.toNat) ((i + j) / width.toNat))
      | none => .ok ()) := by
  induction cells generalizing i with
  | nil =>
      rfl
  | cons c cells ih =>
      rw [search, place?, if_neg hwidth, List.findIdx?_cons]
      by_cases hc : c = .beepers 0
      · simp [hc]
      · simp only [bind, Option.bind, hc, if_false, ih, beq_iff_eq]
        cases cells.findIdx? (· == .beepers 0) with
        | none =>
            rfl
        | some j =>
            simp [Nat.add_assoc, Nat.add_comm 1]

/-- A product of words that passes the limit is the product of the numbers. -/
theorem filter_product?_eq (a b : UInt64) :
    ((product? a b).filter (· ≤ .ofNat maxCells)).map UInt64.toNat =
      if a.toNat * b.toNat ≤ 2 ^ 24 then some (a.toNat * b.toNat) else none := by
  have hlimit : (UInt64.ofNat maxCells).toNat = 2 ^ 24 := rfl
  unfold product?
  by_cases hfits : a.toNat * b.toNat < 2 ^ 64
  · have hproduct : (a * b).toNat = a.toNat * b.toNat := by
      rw [UInt64.toNat_mul, Nat.mod_eq_of_lt hfits]
    rw [if_pos hfits, Option.filter_some]
    simp only [UInt64.le_iff_toNat_le, hlimit, hproduct, decide_eq_true_eq]
    split <;> simp [hproduct]
  · rw [if_neg hfits, if_neg (by omega)]
    rfl

/-- The check on words has an answer, and it is the one for the numbers. -/
theorem checkOnWords_eq (width height : UInt64) (cells : Array Cell) :
    checkOnWords width height cells
      = some (check ⟨width.toNat, height.toNat, cells⟩) := by
  have hzero (a : UInt64) : a = 0 ↔ a.toNat = 0 := by rw [← UInt64.toNat_inj, UInt64.toNat_zero]
  by_cases hcells : width = 0 ∨ height = 0
  · rw [checkOnWords, if_pos hcells]
    rw [hzero, hzero] at hcells
    rw [(Fault.noCells hcells).check_eq]
  · have hwidth : 0 < width.toNat := by
      rw [hzero, hzero] at hcells
      omega
    have hheight : 0 < height.toNat := by
      rw [hzero, hzero] at hcells
      omega
    have hproduct := filter_product?_eq width height
    rw [checkOnWords, if_neg hcells]
    generalize (product? width height).filter (· ≤ .ofNat maxCells) = count? at hproduct
    by_cases hlimit : width.toNat * height.toNat ≤ 2 ^ 24
    · rw [if_pos hlimit, Option.map_eq_some_iff] at hproduct
      obtain ⟨count, rfl, hcount⟩ := hproduct
      dsimp only
      rw [hcount]
      by_cases hsize : cells.size = width.toNat * height.toNat
      · have hne : width ≠ 0 := fun h => hcells (.inl h)
        have hfind : cells.toList.findIdx? (· == .beepers 0)
            = cells.findIdx? (· == .beepers 0) :=
          (List.findIdx?_toArray (· == .beepers 0) cells.toList).symm
        rw [if_neg (not_not.2 hsize), search_eq hne, hfind,
          check_of_cells hwidth hheight hlimit hsize]
        simp only [Nat.zero_add]
      · rw [if_pos hsize, (Fault.cellCount hwidth hheight hlimit hsize).check_eq]
    · rw [if_neg hlimit, Option.map_eq_none_iff] at hproduct
      rw [hproduct, (Fault.tooLarge hwidth hheight (Nat.not_le.1 hlimit)).check_eq]

/-- **The check accepts exactly what can be built.**  Data pass the check when they are the
outcome of some history of calls on a new world.  All other data have a fault, and the check
names it: it is the first one that they have, with the product of the sides as a number of any
size, and the first pile of no beepers in the order of the cells.  On words the check answers the
same, so neither an overflow nor a division by zero changes its answer. -/
theorem check_exact (w : World) :
    (w.check = .ok () ↔
      ∃ width height w₀ history, blank width height = .ok w₀ ∧ w₀.updateAll history = w) ∧
    (∀ e, w.check = .error e ↔ w.Fault e) ∧
    ∀ (width height : UInt64) (cells : Array Cell),
      checkOnWords width height cells = some (check ⟨width.toNat, height.toNat, cells⟩) :=
  ⟨(check_eq_ok_iff w).trans valid_iff_exists_updateAll, fun _ => check_eq_error_iff,
    checkOnWords_eq⟩

/-- As words these sides have the product zero, as numbers one far above the limit. -/
example : checkOnWords 4294967296 4294967296 #[]
    = some (.error (.tooLarge 4294967296 4294967296)) := by decide

end World

end GridRobot
