import GridRobot.Proofs.Json.Depth
import GridRobot.Proofs.Program.Tables

/-!
# The JSON form of a session is read back

World and robot have forms of a fixed depth, which the reader always admits.  Blocks hold
blocks, and a reader of blocks is built for a depth: each level of blocks in blocks takes
three containers of it, and an action or a call takes one.  So a block is read back exactly
when its form is not deeper than the reader admits, and the same is true of a session.

**Results.**
* `Block.ofJson?_toJson`: a block is read back if its form fits into the depth, and is
  refused otherwise.
* `Session.ofJson?_toJson`: a session is read back if its form fits into the greatest depth,
  and is refused otherwise.
-/

namespace GridRobot

open Json

/-! ### World and robot -/

theorem Cell.ofJson?_toJson (depth : Nat) (c : Cell) :
    Cell.ofJson? (depth + 1) c.toJson = some c := by
  cases c with
  | beepers n =>
      have hform : (Cell.beepers n).toJson.form? (depth + 1)
          = some ("Beepers", .number (some n.toNat), depth) := rfl
      simp [ofJson?, hform, natural?, n.toNat_lt]
  | _ => rfl

theorem Cell.depth_toJson_le (c : Cell) : c.toJson.depth ≤ 1 := by
  cases c with
  | beepers n => exact Nat.le_refl 1
  | _ => exact Nat.zero_le 1

/-- A world is read back when its two sizes have 64 bits. -/
theorem World.ofJson?_toJson {w : World} (hwidth : w.width < UInt64.size)
    (hheight : w.height < UInt64.size) (depth : Nat) :
    World.ofJson? (depth + 3) w.toJson = some w := by
  have hrecord := record?_record [("width", .number (some w.width)),
    ("height", .number (some w.height)), ("cells", .array (w.cells.toList.map Cell.toJson))]
    (by simp)
  have hcells : (w.cells.toList.map Cell.toJson).mapM (Cell.ofJson? (depth + 1))
      = some w.cells.toList := by
    simpa using mapM_map_eq_ite (p := fun _ => True) w.cells.toList
      fun c _ => Cell.ofJson?_toJson depth c
  simp only [List.map_cons, List.map_nil] at hrecord
  rw [World.ofJson?, toJson, hrecord]
  simp only [natural?, if_pos hwidth, if_pos hheight, items?, Option.bind_eq_bind,
    Option.bind_some, Option.pure_def]
  rw [show depth + 3 - 2 = depth + 1 from rfl, hcells]
  rfl

theorem World.depth_toJson_le (w : World) : w.toJson.depth ≤ 3 := by
  simp [toJson, depth_record_le_iff, depth_array_le_iff, Cell.depth_toJson_le]

theorem Robot.ofJson?_toJson (depth : Nat) (r : Robot) :
    Robot.ofJson? depth r.toJson = some r := by
  have hrecord := record?_record [("x", .number (some r.x.toNat)),
    ("y", .number (some r.y.toNat)), ("facing", r.facing.toJson)] (by simp)
  have hx : r.x.toNat < UInt64.size := r.x.toNat_lt
  have hy : r.y.toNat < UInt64.size := r.y.toNat_lt
  simp only [List.map_cons, List.map_nil] at hrecord
  rw [Robot.ofJson?, toJson, hrecord]
  simp only [natural?, if_pos hx, if_pos hy, Direction.ofJson?_toJson, Option.bind_eq_bind,
    Option.bind_some, Option.pure_def, UInt64.ofNat_toNat]

theorem Robot.depth_toJson (r : Robot) : r.toJson.depth = 1 := rfl

namespace Block

variable {depth : Nat} {c : Condition} {n : UInt32} {yes no body : List Block}

/-! ### Forms of blocks -/

theorem allToJson_eq_map (bs : List Block) : allToJson bs = bs.map toJson := by
  induction bs with
  | nil => rfl
  | cons b bs ih => rw [allToJson, ih, List.map_cons]

theorem depth_act (a : Action) : (act a).toJson.depth = 1 := rfl

theorem depth_call (name : String) : (call name).toJson.depth = 1 := rfl

theorem depth_listToJson_le_iff {bs : List Block} :
    (listToJson bs).depth ≤ depth + 1 ↔ ∀ b ∈ bs, b.toJson.depth ≤ depth := by
  rw [listToJson, depth_array_le_iff, allToJson_eq_map, List.forall_mem_map]

theorem depth_choose_le_iff :
    (choose c yes no).toJson.depth ≤ depth + 3 ↔
      (∀ b ∈ yes, b.toJson.depth ≤ depth) ∧ ∀ b ∈ no, b.toJson.depth ≤ depth := by
  have hcondition : c.toJson.depth ≤ depth + 1 := by
    cases c <;> simp [Condition.toJson, Direction.toJson, depth_record_le_iff]
  simp [toJson, depth_record_le_iff, depth_array_le_iff, allToJson_eq_map, hcondition]

theorem depth_times_le_iff :
    (times n body).toJson.depth ≤ depth + 3 ↔ ∀ b ∈ body, b.toJson.depth ≤ depth := by
  simp [toJson, depth_record_le_iff, depth_array_le_iff, allToJson_eq_map]

theorem depth_times : (times n body).toJson.depth = depthAll (allToJson body) + 3 := by
  simp [toJson, record, Json.depth, depthFields]

theorem not_depth_choose_le_two : ¬ (choose c yes no).toJson.depth ≤ 2 := by
  intro h
  simp only [toJson, depth_record_le_iff, List.forall_mem_cons] at h
  exact Nat.not_lt_of_le h.1.2.1 (depth_array_pos _)

theorem not_depth_times_le_two : ¬ (times n body).toJson.depth ≤ 2 := by
  intro h
  simp only [toJson, depth_record_le_iff, List.forall_mem_cons] at h
  exact Nat.not_lt_of_le h.1.2.1 (depth_array_pos _)

/-! ### Reading blocks back -/

/-- A choice is read branch by branch. -/
theorem ofJson?_choose (depth : Nat) (c : Condition) (yes no : List Block) :
    ofJson? (depth + 3) (choose c yes no).toJson =
      ((yes.map toJson).mapM (ofJson? depth)).bind fun yes =>
        ((no.map toJson).mapM (ofJson? depth)).bind fun no => some (choose c yes no) := by
  have hrecord := record?_record [("condition", c.toJson),
    ("then_branch", .array (allToJson yes)), ("else_branch", .array (allToJson no))] (by simp)
  simp only [List.map_cons, List.map_nil] at hrecord
  rw [toJson, record, List.map_cons, List.map_nil, ofJson?, hrecord]
  simp only [Condition.ofJson?_toJson, items?, allToJson_eq_map, Option.bind_eq_bind,
    Option.bind_some, Option.pure_def]

/-- A loop is read with its body. -/
theorem ofJson?_times (depth : Nat) (n : UInt32) (body : List Block) :
    ofJson? (depth + 3) (times n body).toJson =
      ((body.map toJson).mapM (ofJson? depth)).bind fun body => some (times n body) := by
  have hrecord := record?_record [("count", .number (some n.toNat)),
    ("body", .array (allToJson body))] (by simp)
  have hcount : n.toNat < UInt32.size := n.toNat_lt
  simp only [List.map_cons, List.map_nil] at hrecord
  rw [toJson, record, List.map_cons, List.map_nil, ofJson?, hrecord]
  simp only [natural?, if_pos hcount, items?, allToJson_eq_map, UInt32.ofNat_toNat,
    Option.bind_eq_bind, Option.bind_some, Option.pure_def]

/-- A block is read back if its form is at most as deep as the reader admits. -/
theorem ofJson?_toJson (depth : Nat) (b : Block) :
    ofJson? depth b.toJson = if b.toJson.depth ≤ depth then some b else none := by
  match b, depth with
  | act a, 0 => rfl
  | act a, depth + 1 =>
      rw [depth_act, if_pos (Nat.le_add_left 1 depth)]
      cases a <;> rfl
  | call name, 0 => rfl
  | call name, depth + 1 =>
      rw [depth_call, if_pos (Nat.le_add_left 1 depth)]
      rfl
  -- A choice takes three containers even with empty branches: its tag, its record, its lists.
  | choose c yes no, 0 | choose c yes no, 1 | choose c yes no, 2 =>
      exact (if_neg fun h => not_depth_choose_le_two (Nat.le_trans h (by decide))).symm
  | choose c yes no, depth + 3 =>
      have hyes := mapM_map_eq_ite yes fun b _ => ofJson?_toJson depth b
      have hno := mapM_map_eq_ite no fun b _ => ofJson?_toJson depth b
      simp only [depth_choose_le_iff]
      rw [ofJson?_choose, hyes, hno]
      exact ite_bind_ite yes no (choose c)
  | times n body, 0 | times n body, 1 | times n body, 2 =>
      exact (if_neg fun h => not_depth_times_le_two (Nat.le_trans h (by decide))).symm
  | times n body, depth + 3 =>
      have hbody := mapM_map_eq_ite body fun b _ => ofJson?_toJson depth b
      rw [ofJson?_times, hbody]
      simp only [depth_times_le_iff]
      split <;> rfl

theorem listOfJson?_toJson (depth : Nat) (bs : List Block) :
    listOfJson? (depth + 1) (listToJson bs)
      = if (listToJson bs).depth ≤ depth + 1 then some bs else none := by
  have hlist := mapM_map_eq_ite bs fun b _ => ofJson?_toJson depth b
  simp only [depth_listToJson_le_iff]
  rw [listOfJson?, listToJson, allToJson_eq_map, ← hlist]
  rfl

end Block

/-! ### Program and macros -/

theorem Program.depth_toJson_le_iff {depth : Nat} {p : Program} :
    (Program.toJson p).depth ≤ depth + 2 ↔ (Block.listToJson p).depth ≤ depth + 1 := by
  rw [Program.toJson, depth_record_le_iff, List.forall_mem_singleton]

theorem Program.ofJson?_toJson (depth : Nat) (p : Program) :
    Program.ofJson? (depth + 2) (Program.toJson p)
      = if (Program.toJson p).depth ≤ depth + 2 then some p else none := by
  have hrecord := record?_record [("blocks", Block.listToJson p)] (by simp)
  simp only [List.map_cons, List.map_nil] at hrecord
  simp only [Program.depth_toJson_le_iff]
  rw [Program.ofJson?, Program.toJson, hrecord]
  exact Block.listOfJson?_toJson depth p

theorem Macros.depth_toJson_le_iff {depth : Nat} {m : Macros} :
    m.toJson.depth ≤ depth + 3 ↔
      ∀ e ∈ m.entries, (Block.listToJson e.2).depth ≤ depth + 1 := by
  simp only [toJson, depth_record_le_iff, List.forall_mem_singleton, List.forall_mem_map]

/-- The table of macros is made again from its entries in their order. -/
theorem Macros.ofJson?_toJson (depth : Nat) (m : Macros) :
    Macros.ofJson? (depth + 3) m.toJson
      = if m.toJson.depth ≤ depth + 3 then some m else none := by
  have hrecord := record?_record [("macros",
    record (m.entries.map fun e => (e.1, Block.listToJson e.2)))] (by simp)
  have hentries := mapM_map_eq_ite m.entries
    (f := fun e => (e.1, Block.listToJson e.2))
    (g := fun f => (Block.listOfJson? (depth + 1) f.2).map (f.1, ·))
    (p := fun e => (Block.listToJson e.2).depth ≤ depth + 1) fun e _ => by
      rw [Block.listOfJson?_toJson]
      split <;> rfl
  simp only [List.map_cons, List.map_nil] at hrecord
  simp only [Macros.depth_toJson_le_iff]
  rw [Macros.ofJson?, toJson, hrecord]
  simp only [fields?_record, Option.bind_eq_bind, Option.bind_some, Option.pure_def]
  rw [show depth + 3 - 2 = depth + 1 from rfl, hentries]
  split
  · rw [Option.bind_some, ofList_entries]
  · rfl

/-! ### The session -/

namespace Session

theorem depth_toJson_le_iff {s : Session} :
    s.toJson.depth ≤ maxDepth ↔
      (Program.toJson s.program).depth ≤ 126 ∧ s.macros.toJson.depth ≤ 126 := by
  have hworld : s.scene.world.toJson.depth ≤ 126 :=
    Nat.le_trans s.scene.world.depth_toJson_le (by decide)
  have hrobot : s.scene.robot.toJson.depth ≤ 126 := by
    rw [Robot.depth_toJson]
    decide
  simp only [toJson, maxDepth, depth_record_le_iff, List.forall_mem_cons, hworld, hrobot,
    true_and, List.not_mem_nil, false_imp_iff, implies_true, and_true]

/-- A session is read back, with an empty machine, if its form is at most as deep as forms may
be.  The sizes of its world must have 64 bits. -/
theorem ofJson?_toJson {s : Session} (hwidth : s.scene.world.width < UInt64.size)
    (hheight : s.scene.world.height < UInt64.size) :
    ofJson? s.toJson =
      if s.toJson.depth ≤ maxDepth then some { s with machine := .idle none } else none := by
  have hrecord := record?_record [("world", s.scene.world.toJson),
    ("agent", s.scene.robot.toJson), ("program", Program.toJson s.program),
    ("macros", s.macros.toJson)] (by simp)
  have hworld := World.ofJson?_toJson hwidth hheight 123
  have hrobot := Robot.ofJson?_toJson 126 s.scene.robot
  have hprogram := Program.ofJson?_toJson 124 s.program
  have hmacros := Macros.ofJson?_toJson 123 s.macros
  simp only [List.map_cons, List.map_nil] at hrecord
  simp only [depth_toJson_le_iff]
  rw [ofJson?, toJson, hrecord]
  simp only [maxDepth, Nat.reduceSub, Nat.reduceAdd] at hworld hprogram hmacros ⊢
  rw [hworld, hrobot, hprogram, hmacros]
  exact ite_bind_ite s.program s.macros fun program macros =>
    (⟨⟨s.scene.robot, s.scene.world⟩, program, macros, .idle none⟩ : Session)

end Session

end GridRobot
