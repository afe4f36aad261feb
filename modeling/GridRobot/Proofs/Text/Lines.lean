import Mathlib.Data.List.Basic

/-!
# Text in lines and columns

Texts are lists of characters here.  A text in which every line ends with a newline is cut into
these lines and nothing else, and the front of a line is cut off where a property of its characters
ends.

**Results.**
* `splitOn_flatMap_newline`: a text that is made of lines falls into them again.
* `takeWhile_append_of_head?`, `dropWhile_append_of_head?`: a front is told from what follows it.
-/

namespace GridRobot

namespace Text

/-- A text that is made of lines falls into them again; nothing stands behind the last newline. -/
theorem splitOn_flatMap_newline {rows : List (List Char)} (h : ∀ row ∈ rows, '\n' ∉ row) :
    (rows.flatMap (· ++ ['\n'])).splitOn '\n' = rows ++ [[]] := by
  induction rows with
  | nil =>
      simp
  | cons row rows ih =>
      obtain ⟨hrow, hrows⟩ := List.forall_mem_cons.1 h
      rw [List.flatMap_cons, List.append_assoc, List.singleton_append, List.splitOn,
        List.splitOnP_append_cons_of_forall_mem _ _ (by rfl)]
      · exact congrArg (row :: ·) (ih hrows)
      · intro c hc
        simpa using ne_of_mem_of_not_mem hc hrow

variable {p : Char → Bool} {front rest : List Char}

theorem takeWhile_append_of_head? (hfront : ∀ c ∈ front, p c = true)
    (hrest : ∀ c ∈ rest.head?, p c = false) : (front ++ rest).takeWhile p = front := by
  rw [List.takeWhile_append_of_pos hfront]
  cases rest with
  | nil => simp
  | cons c rest => simp [hrest c rfl]

theorem dropWhile_append_of_head? (hfront : ∀ c ∈ front, p c = true)
    (hrest : ∀ c ∈ rest.head?, p c = false) : (front ++ rest).dropWhile p = rest := by
  rw [List.dropWhile_append_of_pos hfront]
  cases rest with
  | nil => rfl
  | cons c rest => simp [hrest c rfl]

end Text

end GridRobot
