import GridRobot.Session.Json

/-!
# Nesting of documents

The depth of a value is the number of containers that are nested in it, counted with the
outermost one.  A list of parts fits into a depth when every part does, and the readers of
lists and of records succeed exactly when the readers of their parts do.

**Results.**
* `depthAll_le_iff`, `depth_record_le_iff`: a container is as deep as its deepest part, and
  one deeper.
* `record?_record`: the fields of a record are found by their names.
* `ite_bind_ite`, `mapM_map_eq_ite`: parts that are read back when they fit are read back
  together when all of them fit.
-/

namespace GridRobot

namespace Json

mutual

/-- How deep the containers in a value are nested. -/
def depth : Json → Nat
  | array items => depthAll items + 1
  | object fields => depthFields fields + 1
  | _ => 0

/-- The depth of the deepest of some values. -/
def depthAll : List Json → Nat
  | [] => 0
  | j :: js => max j.depth (depthAll js)

/-- The depth of the deepest of some fields. -/
def depthFields : List (JsonText × Json) → Nat
  | [] => 0
  | (_, j) :: fields => max j.depth (depthFields fields)

end

theorem depthAll_le_iff {js : List Json} {d : Nat} :
    depthAll js ≤ d ↔ ∀ j ∈ js, j.depth ≤ d := by
  induction js with
  | nil => simp [depthAll]
  | cons j js ih => simp only [depthAll, Nat.max_le, ih, List.forall_mem_cons]

theorem depthFields_le_iff {fields : List (JsonText × Json)} {d : Nat} :
    depthFields fields ≤ d ↔ ∀ f ∈ fields, f.2.depth ≤ d := by
  induction fields with
  | nil => simp [depthFields]
  | cons f fields ih => simp only [depthFields, Nat.max_le, ih, List.forall_mem_cons]

@[simp] theorem depth_number (n : Option Nat) : (number n).depth = 0 := rfl

@[simp] theorem depth_plain (name : String) : (plain name).depth = 0 := rfl

theorem depth_array_le_iff {js : List Json} {d : Nat} :
    (array js).depth ≤ d + 1 ↔ ∀ j ∈ js, j.depth ≤ d := by
  rw [depth, Nat.add_le_add_iff_right, depthAll_le_iff]

theorem depth_record_le_iff {fields : List (String × Json)} {d : Nat} :
    (record fields).depth ≤ d + 1 ↔ ∀ f ∈ fields, f.2.depth ≤ d := by
  rw [record, depth, Nat.add_le_add_iff_right, depthFields_le_iff, List.forall_mem_map]

theorem depth_array_pos (js : List Json) : 0 < (array js).depth :=
  Nat.succ_pos _

/-! ### Records -/

theorem fields?_record (fields : List (String × Json)) : (record fields).fields? = some fields := by
  rw [record, fields?, List.mapM_map]
  induction fields with
  | nil => rfl
  | cons f fields ih => simp_all [List.mapM_cons]

/-- A field is found by its name if no other field has that name. -/
theorem only?_of_mem {fields : List (String × Json)} (hnames : (fields.map Prod.fst).Nodup)
    {f : String × Json} (hf : f ∈ fields) : only? fields f.1 = some f.2 := by
  have hfilter : fields.filter (·.1 = f.1) = [f] := by
    induction fields with
    | nil =>
        cases hf
    | cons g fields ih =>
        obtain ⟨hfirst, hnames⟩ := List.nodup_cons.1 hnames
        rcases List.mem_cons.1 hf with rfl | hf
        · have hrest : fields.filter (·.1 = f.1) = [] := by
            refine List.filter_eq_nil_iff.2 fun g hg heq => hfirst ?_
            exact List.mem_map.2 ⟨g, hg, by simpa using heq⟩
          rw [List.filter_cons_of_pos (by simp), hrest]
        · have hne : g.1 ≠ f.1 := fun heq => hfirst (heq ▸ List.mem_map_of_mem hf)
          rw [List.filter_cons_of_neg (by simpa using hne), ih hnames hf]
  rw [only?, hfilter]

theorem record?_record (fields : List (String × Json)) (hnames : (fields.map Prod.fst).Nodup) :
    (record fields).record? (fields.map Prod.fst) = some (fields.map Prod.snd) := by
  have hvalues : ∀ part : List (String × Json), part ⊆ fields →
      (part.map Prod.fst).mapM (only? fields) = some (part.map Prod.snd) := by
    intro part hpart
    induction part with
    | nil =>
        rfl
    | cons f part ih =>
        obtain ⟨hf, hpart⟩ := List.cons_subset.1 hpart
        simp [List.mapM_cons, only?_of_mem hnames hf, ih hpart]
  have hfields := fields?_record fields
  rw [record] at hfields ⊢
  rw [record?, hfields]
  · exact hvalues fields (List.Subset.refl _)
  · nofun

/-! ### Parts that fit -/

theorem ite_bind_ite {α β γ : Type} {p q : Prop} [Decidable p] [Decidable q] (a : α) (b : β)
    (f : α → β → γ) :
    ((if p then some a else none).bind fun a =>
        (if q then some b else none).bind fun b => some (f a b))
      = if p ∧ q then some (f a b) else none := by
  by_cases hp : p <;> by_cases hq : q <;> simp [hp, hq]

theorem mapM_map_eq_ite {α β : Type} {f : α → β} {g : β → Option α} {p : α → Prop}
    [DecidablePred p] (as : List α)
    (h : ∀ a ∈ as, g (f a) = if p a then some a else none) :
    (as.map f).mapM g = if ∀ a ∈ as, p a then some as else none := by
  induction as with
  | nil =>
      simp
  | cons a as ih =>
      obtain ⟨ha, has⟩ := List.forall_mem_cons.1 h
      rw [List.map_cons, List.mapM_cons, ha, ih has]
      by_cases hfirst : p a
      · simp only [hfirst, List.forall_mem_cons, true_and, if_true, Option.bind_eq_bind,
          Option.bind_some]
        split <;> rfl
      · simp [hfirst]

end Json

end GridRobot
