import GridRobot.Proofs.Binary.Counted

/-!
# Blocks are read back

The reader of blocks is built for a depth, and reads back every block whose bytes are at
most that many: each level of blocks in blocks begins with a byte of its own, so the bytes
of the blocks inside are fewer.  All lengths have to be numbers of 64 bits, as the lengths
of data in memory are.

**Results.**
* `Block.Storable.readNested_append`: a block is read back at a depth that admits it.
* `Block.readList_append`: a list of blocks is read back.
* `Block.yields_readList`: blocks that have been read can be written and read again.
-/

namespace GridRobot

open Reader

theorem Condition.read_append (c : Condition) (rest : Bytes) :
    Condition.read (c.toBytes ++ rest) = .ok (c, rest) := by
  cases c with
  | facing d =>
      rw [toBytes, List.append_assoc]
      exact (bind_of_ok (form_append (by decide) _)).trans (bind_of_ok (d.read_append rest))
  | _ =>
      exact bind_of_ok (form_append (by decide) rest)

theorem Bytes.length_ofNumber_pos (n : Nat) : 0 < (ofNumber n).length := by
  rw [ofNumber]
  split <;> simp

namespace Block

/-- The lengths in a block are numbers of 64 bits: those of its lists of blocks and those of
its names in bytes. -/
inductive Storable : Block → Prop
  | act {a : Action} : Storable (.act a)
  | choose {c : Condition} {yes no : List Block}
      (hyesLength : yes.length < UInt64.size) (hyes : ∀ b ∈ yes, Storable b)
      (hnoLength : no.length < UInt64.size) (hno : ∀ b ∈ no, Storable b) :
      Storable (.choose c yes no)
  | times {n : UInt32} {body : List Block}
      (hlength : body.length < UInt64.size) (hbody : ∀ b ∈ body, Storable b) :
      Storable (.times n body)
  | call {name : String} (hname : name.utf8ByteSize < UInt64.size) : Storable (.call name)

/-- The lengths of a list of blocks and in it are numbers of 64 bits. -/
def ListStorable (bs : List Block) : Prop :=
  bs.length < UInt64.size ∧ ∀ b ∈ bs, b.Storable

/-! ### The bytes of lists of blocks -/

theorem allToBytes_eq_flatMap (bs : List Block) : allToBytes bs = bs.flatMap toBytes := by
  induction bs with
  | nil =>
      rfl
  | cons b bs ih =>
      rw [allToBytes, ih, List.flatMap_cons]

theorem listToBytes_eq_ofList (bs : List Block) : listToBytes bs = Bytes.ofList toBytes bs := by
  rw [listToBytes, allToBytes_eq_flatMap, Bytes.ofList]

theorem toBytes_choose (c : Condition) (yes no : List Block) :
    (choose c yes no).toBytes
      = Bytes.ofNumber 1
        ++ (c.toBytes ++ (Bytes.ofList toBytes yes ++ Bytes.ofList toBytes no)) := by
  simp [toBytes, Bytes.ofList, allToBytes_eq_flatMap]

theorem toBytes_times (n : UInt32) (body : List Block) :
    (times n body).toBytes
      = Bytes.ofNumber 2 ++ (Bytes.ofNumber n.toNat ++ Bytes.ofList toBytes body) := by
  simp [toBytes, Bytes.ofList, allToBytes_eq_flatMap]

theorem length_toBytes_le_of_mem {b : Block} {bs : List Block} (hb : b ∈ bs) :
    b.toBytes.length ≤ (Bytes.ofList toBytes bs).length := by
  rw [Bytes.ofList, List.length_append]
  exact (List.sublist_flatten_of_mem (List.mem_map_of_mem hb)).length_le.trans
    (Nat.le_add_left ..)

/-- A depth that admits the bytes of a block is positive. -/
theorem exists_depth_succ {b : Block} {depth : Nat} (h : b.toBytes.length ≤ depth) :
    ∃ d, depth = d + 1 := by
  have hpos : 0 < b.toBytes.length := by
    cases b <;> simp [toBytes, Bytes.length_ofNumber_pos]
  exact Nat.exists_eq_add_one.2 (by omega)

/-! ### Reading back -/

/-- The bytes of the blocks in a block are fewer by the byte that the block begins with. -/
theorem Storable.readNested_append {b : Block} (h : b.Storable) :
    ∀ depth, b.toBytes.length ≤ depth → ∀ rest,
      readNested depth (b.toBytes ++ rest) = .ok (b, rest) := by
  induction h with
  | @act a =>
      intro depth hdepth rest
      obtain ⟨depth, rfl⟩ := exists_depth_succ hdepth
      rw [toBytes, List.append_assoc, readNested]
      exact (bind_of_ok (form_append (by decide) _)).trans (bind_of_ok (a.read_append rest))
  | @choose c yes no hyesLength _ hnoLength _ ihyes ihno =>
      intro depth hdepth rest
      obtain ⟨depth, rfl⟩ := exists_depth_succ hdepth
      have hpos := Bytes.length_ofNumber_pos 1
      rw [toBytes_choose] at hdepth ⊢
      simp only [List.length_append] at hdepth
      have hyes := list_append hyesLength fun b hb rest =>
        ihyes b hb depth (by have := length_toBytes_le_of_mem hb; omega) rest
      have hno := list_append hnoLength fun b hb rest =>
        ihno b hb depth (by have := length_toBytes_le_of_mem hb; omega) rest
      simp only [List.append_assoc]
      rw [readNested]
      exact (bind_of_ok (form_append (by decide) _)).trans
        ((bind_of_ok (c.read_append _)).trans ((bind_of_ok (hyes _)).trans (bind_of_ok (hno rest))))
  | @times n body hlength _ ih =>
      intro depth hdepth rest
      obtain ⟨depth, rfl⟩ := exists_depth_succ hdepth
      have hpos := Bytes.length_ofNumber_pos 2
      rw [toBytes_times] at hdepth ⊢
      simp only [List.length_append] at hdepth
      have hbody := list_append hlength fun b hb rest =>
        ih b hb depth (by have := length_toBytes_le_of_mem hb; omega) rest
      simp only [List.append_assoc]
      rw [readNested]
      exact (bind_of_ok (form_append (by decide) _)).trans
        ((bind_of_ok (short_append n _)).trans (bind_of_ok (hbody rest)))
  | @call name hname =>
      intro depth hdepth rest
      obtain ⟨depth, rfl⟩ := exists_depth_succ hdepth
      rw [toBytes, List.append_assoc, readNested]
      exact (bind_of_ok (form_append (by decide) _)).trans (bind_of_ok (text_append hname rest))

theorem readList_append {bs : List Block} (h : ListStorable bs) (rest : Bytes) :
    readList (listToBytes bs ++ rest) = .ok (bs, rest) := by
  obtain ⟨hlength, hbs⟩ := h
  rw [listToBytes_eq_ofList]
  refine list_append hlength (fun b hb rest' => (hbs b hb).readNested_append _ ?_ rest') rest
  have := length_toBytes_le_of_mem hb
  rw [List.length_append]
  omega

/-! ### What has been read -/

theorem yields_readNested (depth : Nat) : Yields (readNested depth) Storable := by
  induction depth with
  | zero =>
      exact yields_throw
  | succ depth ih =>
      rw [readNested]
      refine (Yields.any form).bind fun n _ => ?_
      split
      · exact (Yields.any Action.read).bind fun a _ => yields_pure .act
      · refine (Yields.any Condition.read).bind fun c _ => ?_
        refine (yields_list ih).bind fun yes hyes => (yields_list ih).bind fun no hno => ?_
        exact yields_pure (.choose hyes.1 hyes.2 hno.1 hno.2)
      · refine (Yields.any short).bind fun n _ => (yields_list ih).bind fun body hbody => ?_
        exact yields_pure (.times hbody.1 hbody.2)
      · exact yields_text.bind fun name hname => yields_pure (.call hname)
      · exact yields_throw

theorem yields_readList : Yields readList ListStorable :=
  (Yields.any get).bind fun _ _ => yields_list (yields_readNested _)

end Block

end GridRobot
