import Mathlib.Data.List.Basic
import GridRobot.Program.Macros

/-!
# Tables from lists of definitions

A table is what has been written down of it: built from its entries, it is the same again,
since names that come in order are put one behind the other.  A list of definitions in any
order, with names that are defined twice, gives no entries that are not in it, and no more
than it is long.

**Results.**
* `Macros.ofList_entries`: a table is built again from its entries.
* `Macros.entries_ofList`: the table built from definitions has no other entries than these.
-/

namespace GridRobot

namespace Macros

@[simp] theorem entries_empty : empty.entries = [] := rfl

/-- Names behind all others are put at the end of the table. -/
theorem entries_foldl_define (m : Macros) (defs : List (String × List Block))
    (hsorted : defs.Pairwise fun a b => a.1 < b.1)
    (hbehind : ∀ e ∈ m.entries, ∀ d ∈ defs, e.1 < d.1) :
    (defs.foldl (fun m d => m.define d.1 d.2) m).entries = m.entries ++ defs := by
  induction defs generalizing m with
  | nil =>
      simp
  | cons d defs ih =>
      obtain ⟨hd, hsorted⟩ := List.pairwise_cons.1 hsorted
      have hlt (e : String × List Block) (he : e ∈ m.entries) : e.1 < d.1 :=
        hbehind e he d List.mem_cons_self
      have hentries : (m.define d.1 d.2).entries = m.entries ++ [d] := by
        have hbefore : m.entries.filter (·.1 < d.1) = m.entries :=
          List.filter_eq_self.2 fun e he => by simpa using hlt e he
        have hafter : m.entries.filter (d.1 < ·.1) = [] :=
          List.filter_eq_nil_iff.2 fun e he => by simpa using String.lt_asymm (hlt e he)
        simp only [define, hbefore, hafter]
      rw [List.foldl_cons, ih _ hsorted, hentries, List.append_assoc, List.singleton_append]
      intro e he other hother
      rw [hentries, List.mem_append, List.mem_singleton] at he
      rcases he with he | rfl
      · exact hbehind e he other (List.mem_cons_of_mem _ hother)
      · exact hd other hother

/-- A table is built again from its entries. -/
theorem ofList_entries (m : Macros) : ofList m.entries = m := by
  have hentries : (ofList m.entries).entries = m.entries :=
    entries_foldl_define empty m.entries m.sorted (by simp)
  cases h : ofList m.entries
  rw [h] at hentries
  cases hentries
  rfl

theorem length_entries_define_le (m : Macros) (name : String) (body : List Block) :
    (m.define name body).entries.length ≤ m.entries.length + 1 := by
  have hsplit := List.length_eq_length_filter_add (l := m.entries) (·.1 < name)
  have hsub : (m.entries.filter (name < ·.1)).length
      ≤ (m.entries.filter fun e => !decide (e.1 < name)).length := by
    refine (List.monotone_filter_right m.entries fun e he => ?_).length_le
    simpa using String.lt_asymm (by simpa using he)
  simp only [define, List.length_append, List.length_cons]
  omega

theorem mem_entries_define {m : Macros} {name : String} {body : List Block}
    {e : String × List Block} (h : e ∈ (m.define name body).entries) :
    e ∈ m.entries ∨ e = (name, body) := by
  simp only [define, List.mem_append, List.mem_cons, List.mem_filter] at h
  rcases h with hbefore | rfl | hafter
  · exact .inl hbefore.1
  · exact .inr rfl
  · exact .inl hafter.1

theorem entries_foldl_define_le (m : Macros) (defs : List (String × List Block)) :
    (defs.foldl (fun m d => m.define d.1 d.2) m).entries.length
        ≤ m.entries.length + defs.length ∧
      ∀ e ∈ (defs.foldl (fun m d => m.define d.1 d.2) m).entries, e ∈ m.entries ∨ e ∈ defs := by
  induction defs generalizing m with
  | nil =>
      exact ⟨Nat.le_refl _, fun e he => .inl he⟩
  | cons d defs ih =>
      obtain ⟨hlength, hmem⟩ := ih (m.define d.1 d.2)
      have hone := m.length_entries_define_le d.1 d.2
      rw [List.foldl_cons, List.length_cons]
      refine ⟨by omega, fun e he => ?_⟩
      rcases hmem e he with hdefine | hdefs
      · rcases mem_entries_define hdefine with hm | rfl
        · exact .inl hm
        · exact .inr List.mem_cons_self
      · exact .inr (List.mem_cons_of_mem _ hdefs)

/-- The table built from definitions has no other entries than these. -/
theorem entries_ofList (defs : List (String × List Block)) :
    (ofList defs).entries.length ≤ defs.length ∧ ∀ e ∈ (ofList defs).entries, e ∈ defs := by
  obtain ⟨hlength, hmem⟩ := entries_foldl_define_le empty defs
  simp only [entries_empty, List.length_nil, Nat.zero_add, List.not_mem_nil, false_or]
    at hlength hmem
  exact ⟨hlength, hmem⟩

end Macros

end GridRobot
