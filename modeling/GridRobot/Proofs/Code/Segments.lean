import Mathlib
import GridRobot.Proofs.Code.Acceptance
import GridRobot.Proofs.Code.Forward

/-!
# Blocks are compiled one by one

The code of a block does not depend on the line that the block stands in, apart from the line
that its instructions carry: distances of jumps are counted from the jump, and every block
begins with an empty stack of names.  So the code of a program is made of the codes of its
blocks, each compiled as a program of its own, and the only thing that the blocks share is the
limit on their length together.

A piece of the code belongs to each line.  Its instructions are the ones that carry this line,
and no jump leads out of it except to its end.  Since a piece is made from its block alone,
exchanging another block does not touch it.

**Results.**
* `Lowers.atLine`: blocks have the same code at every line, up to the line.
* `Program.compile_eq_ok_iff_pieces`: the code of a program is that of its blocks, one behind
  the other.
* `Code.segment_numbered`: where the piece of a line stands, and that its jumps stay inside.
* `Program.compile_blockwise`: blocks are compiled independently of each other.
-/

namespace GridRobot

namespace Code

/-- The code with another line in every instruction. -/
def atLine (line : Nat) (code : Code) : Code :=
  code.map fun i => { i with line := line }

/-- The instructions that carry a line. -/
def ofLine (line : Nat) (code : Code) : Code :=
  code.filter (·.line = line)

/-- Pieces of code one behind the other, each with a line of its own. -/
def numbered (line : Nat) : List Code → Code
  | [] => []
  | piece :: pieces => piece.atLine line ++ numbered (line + 1) pieces

/-- A piece of code is that of a line: with this line it stands at the index `start`, no other
instruction carries the line, and every jump of the piece leads into it or to its end. -/
structure Segment (code : Code) (line start : Nat) (piece : Code) : Prop where
  stands : (code.drop start).take piece.length = piece.atLine line
  line_iff : ∀ (ip : Nat) (i : Instruction), code[ip]? = some i →
    (i.line = line ↔ start ≤ ip ∧ ip < start + piece.length)
  jumps_inside : ∀ (ip : Nat) (i : Instruction) (t : Int), code[ip]? = some i → i.line = line →
    i.target? ip = some t → start ≤ t ∧ t ≤ start + piece.length

variable {code first rest once : Code} {line other : Nat}

@[simp] theorem atLine_cons (line : Nat) (i : Instruction) (rest : Code) :
    atLine line (i :: rest) = ⟨line, i.op⟩ :: rest.atLine line := rfl

@[simp] theorem length_atLine (line : Nat) (code : Code) :
    (code.atLine line).length = code.length := by
  simp [atLine]

theorem atLine_append (line : Nat) (first rest : Code) :
    atLine line (first ++ rest) = first.atLine line ++ rest.atLine line :=
  List.map_append

@[simp] theorem atLine_atLine (line other : Nat) (code : Code) :
    (code.atLine other).atLine line = code.atLine line := by
  simp [atLine]

theorem atLine_choice (line other : Nat) (c : Condition) (ys ns : Code) :
    (choice other c ys ns).atLine line = choice line c (ys.atLine line) (ns.atLine line) := by
  simp [choice, atLine_append]

theorem atLine_repeated (line n : Nat) (once : Code) :
    (repeated n once).atLine line = repeated n (once.atLine line) := by
  rw [repeated_eq_flatten, repeated_eq_flatten]
  induction n with
  | zero =>
      rfl
  | succ n ih =>
      rw [List.replicate_succ, List.flatten_cons, atLine_append, ih, List.replicate_succ,
        List.flatten_cons]

theorem line_of_mem_atLine {i : Instruction} (h : i ∈ code.atLine line) : i.line = line := by
  obtain ⟨_, _, rfl⟩ := List.mem_map.1 h
  rfl

theorem atLine_ofLine (line : Nat) (code : Code) :
    (code.ofLine line).atLine line = code.ofLine line := by
  refine (List.map_congr_left fun i hi => ?_).trans (List.map_id _)
  have hline : i.line = line := by simpa using (List.mem_filter.1 hi).2
  rw [← hline, id]

theorem getElem?_atLine_eq_some {ip : Nat} {i : Instruction}
    (h : (code.atLine line)[ip]? = some i) : ∃ j, code[ip]? = some j ∧ i.op = j.op := by
  rw [atLine, List.getElem?_map] at h
  obtain ⟨j, hj, rfl⟩ := Option.map_eq_some_iff.1 h
  exact ⟨j, hj, rfl⟩

theorem length_numbered (line : Nat) (pieces : List Code) :
    (numbered line pieces).length = (pieces.map List.length).sum := by
  induction pieces generalizing line with
  | nil =>
      rfl
  | cons piece pieces ih =>
      rw [numbered, List.length_append, length_atLine, ih, List.map_cons, List.sum_cons]

theorem numbered_append (line : Nat) (before after : List Code) :
    numbered line (before ++ after)
      = numbered line before ++ numbered (line + before.length) after := by
  induction before generalizing line with
  | nil =>
      rfl
  | cons piece before ih =>
      rw [List.cons_append, numbered, ih, numbered, List.append_assoc, List.length_cons,
        Nat.add_assoc line 1, Nat.add_comm 1]

theorem line_of_mem_numbered {pieces : List Code} {i : Instruction}
    (h : i ∈ numbered line pieces) : line ≤ i.line ∧ i.line < line + pieces.length := by
  induction pieces generalizing line with
  | nil =>
      cases h
  | cons piece pieces ih =>
      rw [List.length_cons]
      rcases List.mem_append.1 h with hpiece | hrest
      · have hline := line_of_mem_atLine hpiece
        omega
      · have hlines := ih hrest
        omega

/-! ### The piece of a line -/

/-- A piece between the code of lower lines and the code of higher lines is that of its line. -/
theorem segment_of_between {before piece after : Code}
    (hbefore : ∀ i ∈ before, i.line < line) (hafter : ∀ i ∈ after, line < i.line)
    (hforward : piece.Forward) :
    Segment (before ++ (piece.atLine line ++ after)) line before.length piece := by
  have hcases : ∀ ip i, (before ++ (piece.atLine line ++ after))[ip]? = some i →
      (ip < before.length ∧ i.line < line) ∨
        (before.length ≤ ip ∧ (piece.atLine line)[ip - before.length]? = some i) ∨
        (before.length + piece.length ≤ ip ∧ line < i.line) := by
    intro ip i hi
    by_cases hlow : ip < before.length
    · rw [List.getElem?_append_left hlow] at hi
      exact .inl ⟨hlow, hbefore i (List.mem_of_getElem? hi)⟩
    · rw [List.getElem?_append_right (by omega)] at hi
      by_cases hmid : ip - before.length < piece.length
      · rw [List.getElem?_append_left (by simpa using hmid)] at hi
        exact .inr (.inl ⟨by omega, hi⟩)
      · rw [List.getElem?_append_right (by simpa using hmid)] at hi
        exact .inr (.inr ⟨by omega, hafter i (List.mem_of_getElem? hi)⟩)
  have hinside : ∀ {ip i}, (piece.atLine line)[ip - before.length]? = some i →
      i.line = line ∧ ip - before.length < piece.length := by
    intro ip i hi
    have hlt := (List.getElem?_eq_some_iff.1 hi).1
    exact ⟨line_of_mem_atLine (List.mem_of_getElem? hi), by simpa using hlt⟩
  refine ⟨?_, fun ip i hi => ?_, fun ip i t hi hline ht => ?_⟩
  · rw [List.drop_left, List.take_append_of_le_length (by simp), List.take_of_length_le (by simp)]
  · rcases hcases ip i hi with ⟨hlow, hlt⟩ | ⟨hle, hmid⟩ | ⟨hhigh, hgt⟩
    · omega
    · have := hinside hmid
      omega
    · omega
  · rcases hcases ip i hi with ⟨_, hlt⟩ | ⟨hle, hmid⟩ | ⟨_, hgt⟩
    · omega
    · -- The jump is one of the piece on its own, where it starts at zero.
      obtain ⟨j, hj, hop⟩ := getElem?_atLine_eq_some hmid
      obtain ⟨d, hd, rfl⟩ := Instruction.target?_eq_some_iff.1 ht
      rw [Instruction.offset?, hop] at hd
      have hbounds := forward_iff.1 hforward _ j d hj hd
      omega
    · omega

theorem ofLine_of_between {before piece after : Code}
    (hbefore : ∀ i ∈ before, i.line < line) (hafter : ∀ i ∈ after, line < i.line) :
    ofLine line (before ++ (piece.atLine line ++ after)) = piece.atLine line := by
  have hlow : before.filter (·.line = line) = [] := by
    rw [List.filter_eq_nil_iff]
    intro i hi
    simpa using Nat.ne_of_lt (hbefore i hi)
  have hmid : (piece.atLine line).filter (·.line = line) = piece.atLine line := by
    rw [List.filter_eq_self]
    intro i hi
    simpa using line_of_mem_atLine hi
  have hhigh : after.filter (·.line = line) = [] := by
    rw [List.filter_eq_nil_iff]
    intro i hi
    simpa using (Nat.ne_of_lt (hafter i hi)).symm
  rw [ofLine, List.filter_append, List.filter_append, hlow, hmid, hhigh, List.nil_append,
    List.append_nil]

/-- The piece of a line lies between the pieces of the lines before and behind. -/
theorem numbered_split {pieces : List Code} {piece : Code} (h : pieces[line]? = some piece) :
    ∃ before after, numbered 0 pieces = before ++ (piece.atLine line ++ after) ∧
      before.length = ((pieces.take line).map List.length).sum ∧
      (∀ i ∈ before, i.line < line) ∧ ∀ i ∈ after, line < i.line := by
  obtain ⟨hlt, rfl⟩ := List.getElem?_eq_some_iff.1 h
  have htake : (pieces.take line).length = line := List.length_take_of_le (Nat.le_of_lt hlt)
  refine ⟨numbered 0 (pieces.take line), numbered (line + 1) (pieces.drop (line + 1)), ?_,
    length_numbered 0 _, fun i hi => ?_, fun i hi => ?_⟩
  · have hsplit : pieces = pieces.take line ++ pieces[line] :: pieces.drop (line + 1) := by simp
    conv_lhs => rw [hsplit]
    rw [numbered_append, numbered, htake, Nat.zero_add]
  · have := line_of_mem_numbered hi
    omega
  · exact (line_of_mem_numbered hi).1

theorem segment_numbered {pieces : List Code} {piece : Code} (hforward : piece.Forward)
    (h : pieces[line]? = some piece) :
    (numbered 0 pieces).Segment line ((pieces.take line).map List.length).sum piece := by
  obtain ⟨before, after, hcode, hstart, hbefore, hafter⟩ := numbered_split h
  rw [hcode, ← hstart]
  exact segment_of_between hbefore hafter hforward

theorem ofLine_numbered {pieces : List Code} {piece : Code} (h : pieces[line]? = some piece) :
    (numbered 0 pieces).ofLine line = piece.atLine line := by
  obtain ⟨before, after, hcode, _, hbefore, hafter⟩ := numbered_split h
  rw [hcode]
  exact ofLine_of_between hbefore hafter

end Code

/-! ### Code does not depend on its line -/

namespace Lowers

variable {m : Macros} {line : Nat} {bs : List Block} {code : Code}

/-- At another line blocks have the same code, with that line. -/
theorem atLine (h : Lowers m line bs code) (other : Nat) :
    Lowers m other bs (code.atLine other) := by
  induction h with
  | nil =>
      exact .nil
  | act _ ih =>
      exact .act ih
  | choose _ _ _ ihyes ihno ih =>
      rw [Code.atLine_append, Code.atLine_choice]
      exact .choose ihyes ihno ih
  | times _ _ ihbody ih =>
      rw [Code.atLine_append, Code.atLine_repeated]
      exact .times ihbody ih
  | call hname _ _ ihbody ih =>
      rw [Code.atLine_append]
      exact .call hname ihbody ih

/-- All instructions carry the line. -/
theorem atLine_self (h : Lowers m line bs code) : code.atLine line = code := by
  induction h with
  | nil =>
      rfl
  | act _ ih =>
      rw [Code.atLine_cons, ih]
  | choose _ _ _ ihyes ihno ih =>
      rw [Code.atLine_append, Code.atLine_choice, ihyes, ihno, ih]
  | times _ _ ihbody ih =>
      rw [Code.atLine_append, Code.atLine_repeated, ihbody, ih]
  | call _ _ _ ihbody ih =>
      rw [Code.atLine_append, ihbody, ih]

end Lowers

namespace Macros

variable {m : Macros} {bs : List Block} {b : Block} {n : Nat}

/-- A block is no larger than blocks that it is one of. -/
theorem Unrolls.exists_of_mem (h : m.Unrolls bs n) (hb : b ∈ bs) : ∃ k ≤ n, m.Unrolls [b] k := by
  induction bs generalizing n with
  | nil =>
      cases hb
  | cons head bs ih =>
      obtain ⟨i, j, hi, hj, rfl⟩ := unrolls_cons_iff.1 h
      rcases List.mem_cons.1 hb with rfl | hb
      · exact ⟨i, Nat.le_add_right i j, hi⟩
      · obtain ⟨k, hle, hk⟩ := ih hj hb
        exact ⟨k, Nat.le_trans hle (Nat.le_add_left j i), hk⟩

/-- Blocks keep within the limit when each one does and together they are short enough. -/
theorem withinLimit_iff_of_unrolls (h : m.Unrolls bs n) :
    m.WithinLimit bs ↔ (∀ b ∈ bs, m.WithinLimit [b]) ∧ n ≤ maxInstructions := by
  constructor
  · intro hlimit
    refine ⟨fun b hb => withinLimit_iff.2 ⟨fun k hk => ?_, ?_⟩, hlimit.size_le h⟩
    · obtain ⟨i, hle, hi⟩ := h.exists_of_mem hb
      rw [hi.unique hk]
      exact Nat.le_trans hle (hlimit.size_le h)
    · rw [List.forall_mem_singleton]
      exact (withinLimit_iff.1 hlimit).2 b hb
  · rintro ⟨hblocks, hle⟩
    refine withinLimit_iff.2 ⟨fun k hk => by rwa [h.unique hk], fun b hb => ?_⟩
    exact (withinLimit_iff.1 (hblocks b hb)).2 b List.mem_cons_self

end Macros

namespace Program

variable {m : Macros} {p q : Program} {pieces : List Code} {code code' : Code}

/-- The codes of the blocks, each compiled as a program of its own. -/
def Pieces (m : Macros) (p : Program) (pieces : List Code) : Prop :=
  List.Forall₂ (fun b piece => Program.compile [b] m = .ok piece) p pieces

theorem lowersFrom_singleton_iff {line : Nat} {b : Block} :
    LowersFrom m line [b] code ↔ Lowers m line [b] code := by
  constructor
  · intro h
    cases h with
    | cons hfirst htail =>
        cases htail
        rwa [List.append_nil]
  · intro h
    have hone : LowersFrom m line [b] (code ++ []) := .cons h .nil
    rwa [List.append_nil] at hone

/-- The blocks of a program have codes of their own, to be put one behind the other. -/
theorem lowersFrom_iff {line : Nat} :
    LowersFrom m line p code ↔
      ∃ pieces, List.Forall₂ (fun b piece => Lowers m 0 [b] piece) p pieces ∧
        code = Code.numbered line pieces := by
  constructor
  · intro h
    induction h with
    | nil =>
        exact ⟨[], .nil, rfl⟩
    | @cons line b bs first rest hfirst _ ih =>
        obtain ⟨pieces, hpieces, rfl⟩ := ih
        refine ⟨first.atLine 0 :: pieces, .cons (hfirst.atLine 0) hpieces, ?_⟩
        rw [Code.numbered, Code.atLine_atLine, hfirst.atLine_self]
  · rintro ⟨pieces, hpieces, rfl⟩
    induction hpieces generalizing line with
    | nil =>
        exact .nil
    | cons hpiece _ ih =>
        exact .cons (hpiece.atLine line) ih

theorem pieces_iff :
    Pieces m p pieces ↔
      (∀ b ∈ p, m.WithinLimit [b]) ∧
        List.Forall₂ (fun b piece => Lowers m 0 [b] piece) p pieces := by
  simp only [Pieces, compile_eq_ok_iff, lowersFrom_singleton_iff, and_comm (b := m.WithinLimit _),
    List.forall₂_and_left]

theorem Pieces.forward (h : Pieces m p pieces) {line : Nat} {piece : Code}
    (hpiece : pieces[line]? = some piece) : piece.Forward := by
  induction h generalizing line with
  | nil =>
      cases hpiece
  | cons hfirst _ ih =>
      cases line with
      | zero =>
          cases hpiece
          exact (lowersFrom_of_compile hfirst).forward
      | succ line =>
          exact ih hpiece

/-- A program compiles to the codes of its blocks one behind the other, if each block compiles
and together they are not too long. -/
theorem compile_eq_ok_iff_pieces :
    p.compile m = .ok code ↔
      ∃ pieces, Pieces m p pieces ∧ (pieces.map List.length).sum ≤ maxInstructions ∧
        code = Code.numbered 0 pieces := by
  rw [compile_eq_ok_iff]
  constructor
  · rintro ⟨hcode, hlimit⟩
    obtain ⟨pieces, hpieces, rfl⟩ := lowersFrom_iff.1 hcode
    obtain ⟨hblocks, hle⟩ := (Macros.withinLimit_iff_of_unrolls hcode.unrolls).1 hlimit
    rw [Code.length_numbered] at hle
    exact ⟨pieces, pieces_iff.2 ⟨hblocks, hpieces⟩, hle, rfl⟩
  · rintro ⟨pieces, hpieces, hle, rfl⟩
    obtain ⟨hblocks, hlowers⟩ := pieces_iff.1 hpieces
    have hcode : LowersFrom m 0 p (Code.numbered 0 pieces) := lowersFrom_iff.2 ⟨_, hlowers, rfl⟩
    refine ⟨hcode, (Macros.withinLimit_iff_of_unrolls hcode.unrolls).2 ⟨hblocks, ?_⟩⟩
    rwa [Code.length_numbered]

theorem Pieces.exists_getElem? (h : Pieces m p pieces) {line : Nat} {b : Block}
    (hb : p[line]? = some b) :
    ∃ piece, pieces[line]? = some piece ∧ Program.compile [b] m = .ok piece := by
  induction h generalizing line with
  | nil =>
      cases hb
  | cons hpiece _ ih =>
      cases line with
      | zero =>
          cases hb
          exact ⟨_, rfl, hpiece⟩
      | succ line =>
          exact ih hb

/-- The code of a line is that of its block. -/
theorem ofLine_of_compile (h : p.compile m = .ok code) {line : Nat} {b : Block}
    (hb : p[line]? = some b) :
    ∃ piece, Program.compile [b] m = .ok piece ∧ code.ofLine line = piece.atLine line := by
  obtain ⟨pieces, hpieces, _, rfl⟩ := compile_eq_ok_iff_pieces.1 h
  obtain ⟨piece, hget, hpiece⟩ := hpieces.exists_getElem? hb
  exact ⟨piece, hpiece, Code.ofLine_numbered hget⟩

/-- A block has the same code wherever it stands in whatever program, up to the line. -/
theorem ofLine_eq_of_same_block (hp : p.compile m = .ok code) (hq : q.compile m = .ok code')
    {i j : Nat} {b : Block} (hi : p[i]? = some b) (hj : q[j]? = some b) :
    code'.ofLine j = (code.ofLine i).atLine j := by
  obtain ⟨piece, hpiece, hcode⟩ := ofLine_of_compile hp hi
  obtain ⟨piece', hpiece', hcode'⟩ := ofLine_of_compile hq hj
  rw [hpiece] at hpiece'
  cases hpiece'
  rw [hcode, hcode', Code.atLine_atLine]

/-! ### Edits -/

/-- The line that a line becomes when a block is put in front of another line. -/
def behind (line i : Nat) : Nat :=
  if i < line then i else i + 1

theorem getElem?_of_insert? {line : Nat} {b : Block} (h : p.insert? line b = some q) (i : Nat) :
    q[behind line i]? = p[i]? := by
  unfold insert? at h
  split at h
  · rename_i hle
    cases h
    have hlength : (p.take line).length = line := List.length_take_of_le hle
    unfold behind
    split
    · rename_i hlt
      rw [List.getElem?_append_left (by omega), List.getElem?_take_of_lt hlt]
    · rename_i hge
      rw [List.getElem?_append_right (by omega), hlength, Nat.sub_add_comm (by omega),
        List.getElem?_cons_succ, List.getElem?_drop, Nat.add_sub_of_le (by omega)]
  · cases h

theorem getElem?_of_remove? {line : Nat} {old : Block} (h : p.remove? line = some (old, q))
    (i : Nat) : q[i]? = p[behind line i]? := by
  obtain ⟨_, _, heq⟩ := Option.map_eq_some_iff.1 h
  cases heq
  rw [List.getElem?_eraseIdx, behind]
  split <;> rfl

theorem getElem?_of_replace? {line : Nat} {b old : Block}
    (h : p.replace? line b = some (old, q)) {i : Nat} (hi : i ≠ line) : q[i]? = p[i]? := by
  obtain ⟨_, _, heq⟩ := Option.map_eq_some_iff.1 h
  cases heq
  exact List.getElem?_set_ne hi.symm

/-- **Blocks compile independently.**  A program compiles exactly when each of its blocks compiles
on its own and their codes together are not too long, and then its code is made of theirs, in
order and with the lines of the blocks; no jump leaves the piece of its block.  An edit of one
block after which the program still compiles leaves the pieces of the others as they are, up to
the line. -/
theorem compile_blockwise (m : Macros) (p : Program) :
    (∀ code, p.compile m = .ok code ↔
      ∃ pieces, Pieces m p pieces ∧ (pieces.map List.length).sum ≤ 2 ^ 20 ∧
        code = Code.numbered 0 pieces) ∧
    (∀ pieces line piece, Pieces m p pieces → pieces[line]? = some piece →
      (Code.numbered 0 pieces).Segment line ((pieces.take line).map List.length).sum piece) ∧
    ∀ q code code', p.compile m = .ok code → q.compile m = .ok code' →
      (∀ line b, p.insert? line b = some q → ∀ i < p.length,
        code'.ofLine (behind line i) = (code.ofLine i).atLine (behind line i)) ∧
      (∀ line old, p.remove? line = some (old, q) → ∀ i < q.length,
        code'.ofLine i = (code.ofLine (behind line i)).atLine i) ∧
      ∀ line b old, p.replace? line b = some (old, q) → ∀ i < p.length, i ≠ line →
        code'.ofLine i = code.ofLine i := by
  refine ⟨fun code => compile_eq_ok_iff_pieces, fun pieces line piece hpieces hpiece => ?_,
    fun q code code' hcode hcode' => ⟨fun line b h i hi => ?_, fun line old h i hi => ?_,
      fun line b old h i hi hne => ?_⟩⟩
  · exact Code.segment_numbered (hpieces.forward hpiece) hpiece
  · have hp := List.getElem?_eq_getElem hi
    exact ofLine_eq_of_same_block hcode hcode' hp ((getElem?_of_insert? h i).trans hp)
  · have hq := List.getElem?_eq_getElem hi
    exact ofLine_eq_of_same_block hcode hcode' ((getElem?_of_remove? h i).symm.trans hq) hq
  · have hp := List.getElem?_eq_getElem hi
    rw [ofLine_eq_of_same_block hcode hcode' hp ((getElem?_of_replace? h hne).trans hp),
      Code.atLine_ofLine]

/-- A call, a choice and a loop; a block is put in front of the choice, the call is taken out,
and the choice is replaced by a longer loop. -/
theorem compile_blockwise_on_corner :
    let m : Macros := .ofList [("back", [.times 2 [.act .turnLeft]])]
    let choose : Block := .choose .frontIsClear [.act .move] [.call "back"]
    let p : Program := [.call "back", choose, .times 2 [.act .putDown]]
    let back : Code := [⟨0, .act .turnLeft⟩, ⟨0, .act .turnLeft⟩]
    let chosen : Code := Code.choice 0 .frontIsClear [⟨0, .act .move⟩] back
    let put : Code := [⟨0, .act .putDown⟩, ⟨0, .act .putDown⟩]
    let code := back ++ chosen.atLine 1 ++ put.atLine 2
    let moved := back ++ [⟨1, .act .move⟩] ++ chosen.atLine 2 ++ put.atLine 3
    let taken := chosen ++ put.atLine 1
    let exchanged := back ++ (Code.repeated 9 back).atLine 1 ++ put.atLine 2
    (Pieces m p [back, chosen, put] ∧ p.compile m = .ok code) ∧
    code.Segment 1 2 chosen ∧
    (p.insert? 1 (.act .move) =
        some [.call "back", .act .move, choose, .times 2 [.act .putDown]] ∧
      moved.ofLine 2 = (code.ofLine 1).atLine 2) ∧
    (p.remove? 0 = some (.call "back", [choose, .times 2 [.act .putDown]]) ∧
      taken.ofLine 0 = (code.ofLine 1).atLine 0) ∧
    p.replace? 1 (.times 9 [.call "back"]) =
        some (choose, [.call "back", .times 9 [.call "back"], .times 2 [.act .putDown]]) ∧
      exchanged.ofLine 2 = code.ofLine 2 := by
  intro m choose p back chosen put code moved taken exchanged
  obtain ⟨hiff, hsegment, hedit⟩ := compile_blockwise m p
  have hpieces : Pieces m p [back, chosen, put] := by
    refine .cons ?_ (.cons ?_ (.cons ?_ .nil)) <;> cbv
  have hcode : p.compile m = .ok code := (hiff code).2 ⟨_, hpieces, by decide, rfl⟩
  have hmoved : Program.compile [.call "back", .act .move, choose, .times 2 [.act .putDown]] m
      = .ok moved := by cbv
  have htaken : Program.compile [choose, .times 2 [.act .putDown]] m = .ok taken := by cbv
  have hexchanged : Program.compile
      [.call "back", .times 9 [.call "back"], .times 2 [.act .putDown]] m = .ok exchanged := by
    cbv
  exact ⟨⟨hpieces, hcode⟩, hsegment _ 1 _ hpieces rfl,
    ⟨rfl, (hedit _ _ _ hcode hmoved).1 1 _ rfl 1 (by decide)⟩,
    ⟨rfl, (hedit _ _ _ hcode htaken).2.1 0 _ rfl 0 (by decide)⟩,
    rfl, (hedit _ _ _ hcode hexchanged).2.2 1 _ _ rfl 2 (by decide) (by decide)⟩

end Program

end GridRobot
