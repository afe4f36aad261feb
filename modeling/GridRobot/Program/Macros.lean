import GridRobot.Program.Block

/-!
# Macros

A table of named lists of blocks.  The entries are kept in the order of their
names, each name once, so that two tables with the same bodies are equal and the
names come out sorted by code point.

**Results.**
* `body?_define`, `body?_erase`: what a definition and a removal do to every name.
* `isSome_body?`: a name has a body exactly when it is among the names.
-/

namespace GridRobot

/-- Bodies of macros by name. -/
structure Macros where
  entries : List (String × List Block)
  sorted : entries.Pairwise fun a b => a.1 < b.1

namespace Macros

/-- The table without entries. -/
def empty : Macros := ⟨[], .nil⟩

/-- The names in order. -/
def names (m : Macros) : List String :=
  m.entries.map Prod.fst

/-- The number of macros. -/
def size (m : Macros) : Nat :=
  m.entries.length

/-- The body under a name. -/
def body? (m : Macros) (name : String) : Option (List Block) :=
  m.entries.lookup name

/-- The table with a body under a name; a body that was there is replaced. -/
def define (m : Macros) (name : String) (body : List Block) : Macros where
  entries :=
    m.entries.filter (·.1 < name) ++ (name, body) :: m.entries.filter (name < ·.1)
  sorted := by
    refine List.pairwise_append.2 ⟨m.sorted.filter _, ?_, ?_⟩
    · refine List.pairwise_cons.2 ⟨fun b hb => ?_, m.sorted.filter _⟩
      simpa using (List.mem_filter.1 hb).2
    · intro a ha b hb
      have ha := (List.mem_filter.1 ha).2
      simp only [decide_eq_true_eq] at ha
      rcases List.mem_cons.1 hb with rfl | hb
      · exact ha
      · have hb := (List.mem_filter.1 hb).2
        simp only [decide_eq_true_eq] at hb
        exact String.lt_trans ha hb

/-- The table without a name. -/
def erase (m : Macros) (name : String) : Macros where
  entries := m.entries.filter (·.1 ≠ name)
  sorted := m.sorted.filter _

/-- The table of a list of definitions; the last one of a name counts. -/
def ofList (defs : List (String × List Block)) : Macros :=
  defs.foldl (fun m d => m.define d.1 d.2) empty

theorem lookup_append {α : Type} (xs ys : List (String × α)) (name : String) :
    (xs ++ ys).lookup name = (xs.lookup name).or (ys.lookup name) := by
  induction xs with
  | nil => simp
  | cons x xs ih =>
      obtain ⟨k, v⟩ := x
      by_cases h : name = k
      · simp [h]
      · simp [List.lookup_cons, beq_false_of_ne h, ih]

theorem lookup_filter {α : Type} (p : String → Bool) (xs : List (String × α))
    (name : String) :
    (xs.filter fun x => p x.1).lookup name
      = if p name then xs.lookup name else none := by
  induction xs with
  | nil => simp
  | cons x xs ih =>
      obtain ⟨k, v⟩ := x
      by_cases h : name = k
      · subst h
        by_cases hp : p name <;> simp [hp, ih]
      · by_cases hk : p k <;> simp [hk, List.lookup_cons, beq_false_of_ne h, ih]

theorem body?_define (m : Macros) (name : String) (body : List Block) (other : String) :
    (m.define name body).body? other = if other = name then some body else m.body? other := by
  unfold define body?
  simp only [lookup_append, List.lookup_cons]
  rw [lookup_filter (fun k => decide (k < name)), lookup_filter (fun k => decide (name < k))]
  by_cases h : other = name
  · subst h
    simp
  · rcases Std.lt_trichotomy other name with hlt | heq | hgt
    · have hgt : ¬ name < other := String.lt_asymm hlt
      simp [h, hlt, hgt, beq_false_of_ne h]
    · exact absurd heq h
    · have hlt : ¬ other < name := String.lt_asymm hgt
      simp [h, hlt, hgt, beq_false_of_ne h]

theorem body?_erase (m : Macros) (name other : String) :
    (m.erase name).body? other = if other = name then none else m.body? other := by
  unfold erase body?
  rw [lookup_filter (fun k => decide (k ≠ name))]
  by_cases h : other = name <;> simp [h]

theorem isSome_body? (m : Macros) (name : String) :
    (m.body? name).isSome = true ↔ name ∈ m.names := by
  unfold body? names
  induction m.entries with
  | nil => simp
  | cons x xs ih =>
      obtain ⟨k, v⟩ := x
      by_cases h : name = k
      · simp [h]
      · simp [List.lookup_cons, beq_false_of_ne h, h, ih]

end Macros

end GridRobot
