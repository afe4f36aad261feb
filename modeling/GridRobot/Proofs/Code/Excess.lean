import Mathlib
import GridRobot.Proofs.Code.Diagnosis
import GridRobot.Proofs.Code.Segments

/-!
# What is too long

The lengths that are tested while blocks are lowered are those of parts: of the blocks so far,
of the branches of a choice, of the body of a macro, of the body of a loop before it is written
out.  A part that ends up in the code is no longer than the code, so for such a part a test that
fails says that the code is too long.  The body of a loop that is never run does not end up in
the code.  It is lowered nevertheless, and when it is too long, there is no code although
nothing of it would be in it.

So the limit is one on the code exactly when no loop that is never run hides a list of blocks
that is too long.

**Results.**
* `Macros.Reached.size_le_or_idle`: what is reached is no larger than where it is reached from,
  unless it stands in a loop that is never run.
* `Macros.withinLimit_iff_not_exceeds`: what it means to keep within the limit.
* `Program.compile_take_iff`: how far a program compiles.
* `Program.tooManyInstructions_iff`: in which line a program is too long.
* `Program.idle_excess_rejected`: a program without code that is too long all the same.
-/

namespace GridRobot

namespace Macros

/-- Blocks come to more instructions than are admitted. -/
def Exceeds (m : Macros) (bs : List Block) : Prop :=
  ∃ n, m.Unrolls bs n ∧ maxInstructions < n

/-- A list of blocks is reached through the body of a loop that is never run. -/
def Idle (m : Macros) (top inner : List Block) : Prop :=
  ∃ bs body, m.Reached top bs ∧ .times 0 body ∈ bs ∧ m.Reached body inner

/-- Blocks reach, in a loop that is never run, some that come to more instructions than are
admitted. -/
def HidesExcess (m : Macros) (top : List Block) : Prop :=
  ∃ inner, m.Idle top inner ∧ m.Exceeds inner

variable {m : Macros} {bs top inner : List Block} {b : Block} {n k : Nat}

/-! ### Sizes of parts -/

theorem Unrolls.exists_take (h : m.Unrolls bs n) (k : Nat) :
    ∃ i ≤ n, m.Unrolls (bs.take k) i := by
  induction bs generalizing n k with
  | nil =>
      exact ⟨n, Nat.le_refl n, by rwa [List.take_nil]⟩
  | cons head bs ih =>
      cases k with
      | zero =>
          exact ⟨0, Nat.zero_le n, .nil⟩
      | succ k =>
          obtain ⟨i, j, hi, hj, rfl⟩ := unrolls_cons_iff.1 h
          obtain ⟨j', hle, hj'⟩ := ih hj k
          rw [List.take_succ_cons]
          exact ⟨i + j', Nat.add_le_add_left hle i, unrolls_cons_iff.2 ⟨i, j', hi, hj', rfl⟩⟩

/-- What a block leads to is no larger than the block, but for the body of a loop that is never
run. -/
theorem Unrolls.of_opens (h : m.Unrolls [b] n) (hopens : b.Opens m inner) :
    ∃ k, m.Unrolls inner k ∧ (k ≤ n ∨ b = .times 0 inner) := by
  cases hopens with
  | yes =>
      cases h with
      | choose hyes _ _ =>
          exact ⟨_, hyes, .inl (by omega)⟩
  | no =>
      cases h with
      | choose _ hno _ =>
          exact ⟨_, hno, .inl (by omega)⟩
  | @body count _ =>
      cases h with
      | @times _ _ _ i _ hbody _ =>
          refine ⟨i, hbody, ?_⟩
          by_cases hcount : count = 0
          · exact .inr (by rw [hcount])
          · have hpos : 1 ≤ count.toNat :=
              Nat.one_le_iff_ne_zero.2 fun hzero => hcount (UInt32.toNat_inj.1 hzero)
            have hle : 1 * i ≤ count.toNat * i := Nat.mul_le_mul_right i hpos
            exact .inl (by omega)
  | macroBody hname =>
      cases h with
      | call hname' hbody _ =>
          rw [hname] at hname'
          cases hname'
          exact ⟨_, hbody, .inl (by omega)⟩

theorem Idle.inside (h : m.Idle top bs) (hb : b ∈ bs) (hopens : b.Opens m inner) :
    m.Idle top inner := by
  obtain ⟨outer, body, houter, hloop, hbs⟩ := h
  exact ⟨outer, body, houter, hloop, hbs.inside hb hopens⟩

/-- What is reached has a size, which is at most that of the blocks from which it is reached,
unless it is reached through a loop that is never run. -/
theorem Reached.size_le_or_idle (h : m.Reached top inner) (hn : m.Unrolls top n) :
    ∃ k, m.Unrolls inner k ∧ (k ≤ n ∨ m.Idle top inner) := by
  induction h with
  | top =>
      exact ⟨n, hn, .inl (Nat.le_refl n)⟩
  | @inside bs inner b hbs hb hopens ih =>
      obtain ⟨i, hi, hwhere⟩ := ih
      obtain ⟨j, hji, hj⟩ := hi.exists_of_mem hb
      obtain ⟨k, hk, hkj⟩ := hj.of_opens hopens
      refine ⟨k, hk, ?_⟩
      rcases hwhere with hin | hidle
      · rcases hkj with hle | rfl
        · exact .inl (by omega)
        · exact .inr ⟨bs, inner, hbs, hb, .top⟩
      · exact .inr (hidle.inside hb hopens)

theorem Idle.reached (h : m.Idle top inner) : m.Reached top inner := by
  obtain ⟨bs, body, hbs, hloop, hinner⟩ := h
  exact (hbs.inside hloop .body).trans hinner

/-- Blocks keep within the limit when they are short enough themselves and hide nothing that is
too long. -/
theorem withinLimit_iff_not_exceeds (h : m.Unrolls top n) :
    m.WithinLimit top ↔ ¬ m.Exceeds top ∧ ¬ m.HidesExcess top := by
  constructor
  · intro hlimit
    refine ⟨fun ⟨k, hk, hlt⟩ => ?_, fun ⟨inner, hidle, k, hk, hlt⟩ => ?_⟩
    · exact Nat.not_lt.2 (hlimit top k .top hk) hlt
    · exact Nat.not_lt.2 (hlimit inner k hidle.reached hk) hlt
  · rintro ⟨hshort, hnothing⟩ inner k hinner hk
    obtain ⟨k', hk', hwhere⟩ := hinner.size_le_or_idle h
    obtain rfl := hk.unique hk'
    by_contra hgt
    have hlt : maxInstructions < k' := Nat.lt_of_not_le hgt
    rcases hwhere with hle | hidle
    · exact hshort ⟨n, h, Nat.lt_of_lt_of_le hlt hle⟩
    · exact hnothing ⟨inner, hidle, k', hk, hlt⟩

end Macros

namespace Macros

variable {m : Macros} {p : List Block} {b : Block}

theorem HidesExcess.of_mem (h : m.HidesExcess [b]) (hb : b ∈ p) : m.HidesExcess p := by
  obtain ⟨inner, ⟨bs, body, hbs, hloop, hinner⟩, hexceeds⟩ := h
  refine ⟨inner, ?_, hexceeds⟩
  rcases reached_iff.1 hbs with rfl | ⟨first, hfirst, next, hopens, hreached⟩
  · rw [List.mem_singleton] at hloop
    exact ⟨p, body, .top, hloop ▸ hb, hinner⟩
  · rw [List.mem_singleton.1 hfirst] at hopens
    exact ⟨bs, body, Reached.trans (.inside .top hb hopens) hreached, hloop, hinner⟩

/-- The first macro of a chain of calls reaches the last name. -/
theorem exists_reaches_of_isChain {first last : String} {between : List String}
    (h : (first :: (between ++ [last])).IsChain m.Refers) :
    ∃ body, m.body? first = some body ∧ m.Reaches body last := by
  induction between generalizing first with
  | nil =>
      obtain ⟨⟨body, hbody, hcall⟩, _⟩ := List.isChain_cons_cons.1 h
      exact ⟨body, hbody, reaches_of_mem_callsAll body hcall⟩
  | cons second between ih =>
      obtain ⟨⟨body, hbody, hcall⟩, hrest⟩ := List.isChain_cons_cons.1 h
      obtain ⟨body', hbody', hlast⟩ := ih hrest
      have hsecond := reaches_of_mem_callsAll (m := m) body hcall
      exact ⟨body, hbody, hlast.of_reached (hsecond.reached_body hbody')⟩

theorem Circle.not_acyclic {start : String} {chain : List String} (h : m.Circle start chain)
    (hstart : m.Reaches p start) : ¬ m.Acyclic p := by
  obtain ⟨between, rfl, _, hchain⟩ := h
  obtain ⟨body, hbody, hself⟩ := exists_reaches_of_isChain hchain
  exact fun hacyclic => hacyclic start body hstart hbody hself

end Macros

namespace Program

/-- A program is too long in a line: the blocks up to this one are, or this one hides blocks
that are. -/
def OverrunsAt (p : Program) (m : Macros) (line : Nat) : Prop :=
  m.Exceeds (p.take (line + 1)) ∨ ∃ b, p[line]? = some b ∧ m.HidesExcess [b]

variable {m : Macros} {p : Program} {n line : Nat}

theorem exists_compile_iff (h : m.Unrolls p n) :
    (∃ code, p.compile m = .ok code) ↔ m.WithinLimit p := by
  constructor
  · rintro ⟨code, hcode⟩
    exact (compile_eq_ok_iff.1 hcode).2
  · intro hlimit
    obtain ⟨code, hcode⟩ := exists_lowersFrom h 0
    exact ⟨code, compile_eq_ok_iff.2 ⟨hcode, hlimit⟩⟩

/-- The blocks before a line compile exactly when none of them makes the program too long. -/
theorem compile_take_iff (h : m.Unrolls p n) (k : Nat) :
    (∃ code, Program.compile (p.take k) m = .ok code) ↔ ∀ line < k, ¬ p.OverrunsAt m line := by
  obtain ⟨i, _, hi⟩ := h.exists_take k
  rw [exists_compile_iff hi, Macros.withinLimit_iff_of_unrolls hi]
  constructor
  · rintro ⟨hblocks, hle⟩ line hline (⟨j, hj, hlt⟩ | ⟨b, hb, hhidden⟩)
    · obtain ⟨j', hle', hj'⟩ := hi.exists_take (line + 1)
      rw [List.take_take, Nat.min_eq_left hline] at hj'
      have heq := hj.unique hj'
      omega
    · have hmem : b ∈ p.take k :=
        List.mem_of_getElem? ((List.getElem?_take_of_lt hline).trans hb)
      obtain ⟨j, _, hj⟩ := hi.exists_of_mem hmem
      exact ((Macros.withinLimit_iff_not_exceeds hj).1 (hblocks b hmem)).2 hhidden
  · intro hnone
    have hle : i ≤ maxInstructions := by
      cases k with
      | zero =>
          cases hi
          exact Nat.zero_le _
      | succ line =>
          by_contra hgt
          exact hnone line (Nat.lt_succ_self line) (.inl ⟨i, hi, Nat.lt_of_not_le hgt⟩)
    refine ⟨fun b hmem => ?_, hle⟩
    obtain ⟨j, hji, hj⟩ := hi.exists_of_mem hmem
    obtain ⟨line, hline⟩ := List.mem_iff_getElem?.1 hmem
    rw [List.getElem?_take] at hline
    split at hline
    · rename_i hlt
      refine (Macros.withinLimit_iff_not_exceeds hj).2 ⟨fun ⟨j', hj', hexceeds⟩ => ?_, ?_⟩
      · have heq := hj.unique hj'
        omega
      · exact fun hhidden => hnone line hlt (.inr ⟨b, hline, hhidden⟩)
    · cases hline

theorem compile_iff_not_overruns (h : m.Unrolls p n) :
    (∃ code, p.compile m = .ok code) ↔ ∀ line, ¬ p.OverrunsAt m line := by
  constructor
  · intro hcode line
    have hall : p.take (p.length + (line + 1)) = p := List.take_of_length_le (Nat.le_add_right _ _)
    rw [← hall, compile_take_iff h] at hcode
    exact hcode line (by omega)
  · intro hnone
    have hcode := (compile_take_iff h p.length).2 fun line _ => hnone line
    rwa [List.take_length] at hcode

/-- When every name that is reached has a body and there are no cycles, a program can only be
too long, in the first line in which it is. -/
theorem eq_tooManyInstructions_of_compile (hdefined : m.AllDefined p) (hacyclic : m.Acyclic p)
    {e : CompileError} (h : p.compile m = .error e) :
    ∃ line, e = .tooManyInstructions line ∧ p.OverrunsAt m line ∧
      ∀ earlier < line, ¬ p.OverrunsAt m earlier := by
  obtain ⟨n, hn⟩ := Macros.exists_unrolls_iff.2 ⟨hdefined, hacyclic⟩
  obtain ⟨line, b, hb, htrue, hbefore, herror⟩ := exists_line_of_compile_error h
  have hmem : b ∈ p := List.mem_of_getElem? hb
  have hnone := (compile_take_iff hn line).1 hbefore
  refine ⟨line, ?_, ?_, hnone⟩
  · cases e with
    | unknownMacro name l =>
        obtain ⟨_, hbody, hname⟩ := htrue
        obtain ⟨body, hbody'⟩ := hdefined name (hname.of_mem hmem)
        rw [hbody] at hbody'
        cases hbody'
    | macroCycle chain =>
        obtain ⟨start, hcircle, hstart⟩ := htrue
        exact absurd hacyclic (hcircle.not_acyclic (hstart.of_mem hmem))
    | tooManyInstructions l =>
        rw [show l = line from htrue]
  · by_contra hover
    -- Then the blocks up to this line would compile.
    have hupTo : ∀ l < line + 1, ¬ p.OverrunsAt m l := by
      intro l hl
      rcases Nat.lt_succ_iff_lt_or_eq.1 hl with hlt | rfl
      · exact hnone l hlt
      · exact hover
    obtain ⟨code, hcode⟩ := (compile_take_iff hn (line + 1)).2 hupTo
    rw [herror] at hcode
    cases hcode

/-- **Where a program is too long.**  Suppose that every name that is reached has a body and no
macro reaches itself.  Then a program is rejected for its size in the first line in which it is
too long, and compiles when there is none.  When no loop that is never run hides blocks that are
too long, the limit is one on the code alone: the blocks up to the line that is named really come
to more instructions than are admitted, and a program that does not compiles. -/
theorem tooManyInstructions_iff (p : Program) (m : Macros) (hdefined : m.AllDefined p)
    (hacyclic : m.Acyclic p) :
    (∀ line, p.compile m = .error (.tooManyInstructions line) ↔
      p.OverrunsAt m line ∧ ∀ earlier < line, ¬ p.OverrunsAt m earlier) ∧
    ((∃ code, p.compile m = .ok code) ↔ ∀ line, ¬ p.OverrunsAt m line) ∧
    (¬ m.HidesExcess p →
      (∀ line, p.compile m = .error (.tooManyInstructions line) →
        m.Exceeds (p.take (line + 1))) ∧
      (¬ m.Exceeds p → ∃ code, p.compile m = .ok code)) := by
  obtain ⟨n, hn⟩ := Macros.exists_unrolls_iff.2 ⟨hdefined, hacyclic⟩
  have hok := compile_iff_not_overruns hn
  have hfirst : ∀ line, p.compile m = .error (.tooManyInstructions line) ↔
      p.OverrunsAt m line ∧ ∀ earlier < line, ¬ p.OverrunsAt m earlier := by
    intro line
    constructor
    · intro h
      obtain ⟨l, heq, hover, hnone⟩ := eq_tooManyInstructions_of_compile hdefined hacyclic h
      cases heq
      exact ⟨hover, hnone⟩
    · rintro ⟨hover, hnone⟩
      cases hcode : p.compile m with
      | ok code =>
          exact absurd hover (hok.1 ⟨code, hcode⟩ line)
      | error e =>
          obtain ⟨l, rfl, hover', hnone'⟩ :=
            eq_tooManyInstructions_of_compile hdefined hacyclic hcode
          -- There is only one first line.
          rcases Nat.lt_trichotomy l line with hlt | rfl | hgt
          · exact absurd hover' (hnone l hlt)
          · rfl
          · exact absurd hover (hnone' line hgt)
  refine ⟨hfirst, hok, fun hnothing => ⟨fun line h => ?_, fun hshort => ?_⟩⟩
  · rcases ((hfirst line).1 h).1 with hexceeds | ⟨b, hb, hhidden⟩
    · exact hexceeds
    · exact absurd (hhidden.of_mem (List.mem_of_getElem? hb)) hnothing
  · refine hok.2 fun line hover => ?_
    rcases hover with ⟨k, hk, hlt⟩ | ⟨b, hb, hhidden⟩
    · obtain ⟨i, hle, hi⟩ := hn.exists_take (line + 1)
      obtain rfl := hk.unique hi
      exact hshort ⟨n, hn, Nat.lt_of_lt_of_le hlt hle⟩
    · exact hnothing (hhidden.of_mem (List.mem_of_getElem? hb))

/-- A loop that is never run has a body of one instruction more than is admitted, in the second
line of a program whose third line is too long itself: the second one is named, though the code
of the first two is one instruction.  Without that loop the code is what counts. -/
theorem tooManyInstructions_iff_behind_idle_loop :
    let m : Macros := .ofList [("walk", [.times 1048577 [.act .move]])]
    let p : Program := [.act .move, .times 0 [.call "walk"], .call "walk"]
    let q : Program := [.act .move, .times 1048576 [.act .move]]
    (p.compile m = .error (.tooManyInstructions 1) ∧ p.OverrunsAt m 1 ∧
      ¬ p.OverrunsAt m 0 ∧ m.Unrolls (p.take 2) 1) ∧
      ¬ m.HidesExcess q ∧ q.compile m = .error (.tooManyInstructions 1) ∧
        m.Exceeds (q.take 2) := by
  intro m p q
  have hbody : m.body? "walk" = some [.times 1048577 [.act .move]] := rfl
  have hwalk : m.Unrolls [.call "walk"] 1048577 := .call hbody (.times (.act .nil) .nil) .nil
  have hp : m.Unrolls p 1048578 := .act (.times hwalk hwalk)
  have hq : m.Unrolls q 1048577 := .act (.times (.act .nil) .nil)
  have hcode : p.compile m = .error (.tooManyInstructions 1) := by
    unfold p m
    cbv
  obtain ⟨hfirst, _⟩ := tooManyInstructions_iff p m hp.allDefined hp.acyclic
  obtain ⟨hover, hnone⟩ := (hfirst 1).1 hcode
  obtain ⟨hfirst', _, hlimit⟩ := tooManyInstructions_iff q m hq.allDefined hq.acyclic
  have hnothing : ¬ m.HidesExcess q := by
    rintro ⟨inner, ⟨bs, body, hbs, hloop, _⟩, _⟩
    rcases Macros.reached_iff.1 hbs with rfl | ⟨b, hb, next, hopens, hreached⟩
    · simp [q] at hloop
    · rcases List.mem_pair.1 hb with rfl | rfl
      · cases hopens
      · cases hopens
        rcases Macros.reached_iff.1 hreached with rfl | ⟨b, hb, next, hopens, _⟩
        · simp at hloop
        · rw [List.mem_singleton.1 hb] at hopens
          cases hopens
  have hlong : q.OverrunsAt m 1 := .inl ⟨1048577, hq, by decide⟩
  have hshort : ¬ q.OverrunsAt m 0 := by
    rintro (⟨k, hk, hlt⟩ | ⟨b, hb, hhidden⟩)
    · rw [Macros.Unrolls.unique (.act .nil) hk] at hlt
      exact absurd hlt (by decide)
    · exact hnothing (hhidden.of_mem (List.mem_of_getElem? hb))
  have hcode' : q.compile m = .error (.tooManyInstructions 1) := by
    refine (hfirst' 1).2 ⟨hlong, fun earlier hearlier => ?_⟩
    rwa [Nat.lt_one_iff.1 hearlier]
  exact ⟨⟨hcode, hover, hnone 0 Nat.one_pos, .act (.times hwalk .nil)⟩, hnothing, hcode',
    (hlimit hnothing).1 1 hcode'⟩

/-- The code of a program would be empty, and yet it is rejected for its size: its one block is a
loop that is never run, and the body of this loop is too long. -/
theorem idle_excess_rejected :
    let m : Macros := .ofList []
    let p : Program := [.times 0 [.times 1048577 [.act .move]]]
    m.AllDefined p ∧ m.Acyclic p ∧ p.compile m = .error (.tooManyInstructions 0) ∧
      m.Unrolls (p.take 1) 0 ∧ ¬ m.Exceeds (p.take 1) ∧ ¬ m.Exceeds p := by
  intro m p
  have hsize : m.Unrolls p 0 := .times (.times (.act .nil) .nil) .nil
  have hshort : ¬ m.Exceeds p := fun ⟨k, hk, hlt⟩ => by
    rw [hsize.unique hk] at hlt
    exact absurd hlt (by decide)
  refine ⟨hsize.allDefined, hsize.acyclic, ?_, hsize, hshort, hshort⟩
  decide

end Program

end GridRobot
