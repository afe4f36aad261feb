import GridRobot.Proofs.Code.Acceptance

/-!
# Exchanging blocks at a place

A place is a spot in nested lists of blocks where some blocks can be put.  Blocks that are
exchanged for others at a place keep the code of everything around them when they keep their
own, wherever they stand in a list.  The expansion of calls may change at the same time, as
long as every call keeps its code; so the statements also speak of blocks in the bodies of
macros.

**Results.**
* `Block.lowerAll_append_eq_ok_iff`: the code of two lists one behind the other.
* `Block.below_self`: blocks keep their code when every call keeps its own.
* `Place.below_fill`: what keeps its code keeps it at every place.
* `Program.keeps_exchange`, `Program.keeps_fill_inside`: the same for a block of a program and
  for blocks inside one.
-/

namespace GridRobot

/-- A block around a list of blocks. -/
inductive Frame
  | yes (condition : Condition) (no : List Block)
  | no (condition : Condition) (yes : List Block)
  | body (count : UInt32)

/-- The block that a frame and the blocks in it make up. -/
def Frame.close : Frame → List Block → Block
  | yes c other, bs => .choose c bs other
  | no c other, bs => .choose c other bs
  | body n, bs => .times n bs

/-- A place in nested lists of blocks: in a list itself, or in one of its blocks. -/
inductive Place
  | here (before after : List Block)
  | inside (before : List Block) (frame : Frame) (inner : Place) (after : List Block)

/-- The blocks around a place, with some blocks put there. -/
def Place.fill (bs : List Block) : Place → List Block
  | here before after => before ++ bs ++ after
  | inside before frame inner after => before ++ frame.close (inner.fill bs) :: after

/-- Where one attempt yields code, another one yields the same. -/
def Keeps (x y : Except CompileError Code) : Prop :=
  ∀ code, x = .ok code → y = .ok code

theorem Keeps.refl (x : Except CompileError Code) : Keeps x x :=
  fun _ h => h

theorem keeps_and_keeps_iff {x y : Except CompileError Code} :
    Keeps x y ∧ Keeps y x ↔ ∀ code, x = .ok code ↔ y = .ok code := by
  simp only [Keeps, ← forall_and, iff_iff_implies_and_implies]

namespace Block

variable {expand : String → Except CompileError Code} {line : Nat}

theorem lowerAll_append_eq_ok_iff {used : Nat} {xs ys : List Block} {code : Code} :
    lowerAll expand line used (xs ++ ys) = .ok code ↔
      ∃ first rest, lowerAll expand line used xs = .ok first ∧
        lowerAll expand line (used + first.length) ys = .ok rest ∧ code = first ++ rest := by
  induction xs generalizing used code with
  | nil =>
      simp [lowerAll]
  | cons b xs ih =>
      simp only [List.cons_append, lowerAll_cons_eq_ok_iff, ih]
      constructor
      · rintro ⟨head, _, hhead, hle, ⟨first, rest, hfirst, hrest, rfl⟩, rfl⟩
        refine ⟨head ++ first, rest, ⟨head, first, hhead, hle, hfirst, rfl⟩, ?_, ?_⟩
        · rwa [List.length_append, ← Nat.add_assoc]
        · rw [List.append_assoc]
      · rintro ⟨_, rest, ⟨head, first, hhead, hle, hfirst, rfl⟩, hrest, rfl⟩
        rw [List.length_append, ← Nat.add_assoc] at hrest
        exact ⟨head, first ++ rest, hhead, hle, ⟨first, rest, hfirst, hrest, rfl⟩,
          List.append_assoc ..⟩

/-- Behind more instructions blocks have the same code, as long as it still fits. -/
theorem lowerAll_eq_ok_iff_of_le {start used : Nat} (hle : start ≤ used)
    (hused : used ≤ maxInstructions) {bs : List Block} {code : Code} :
    lowerAll expand line used bs = .ok code ↔
      lowerAll expand line start bs = .ok code ∧ used + code.length ≤ maxInstructions := by
  induction bs generalizing start used code with
  | nil =>
      constructor
      · intro h
        cases h
        exact ⟨rfl, hused⟩
      · exact And.left
  | cons b bs ih =>
      simp only [lowerAll_cons_eq_ok_iff]
      constructor
      · rintro ⟨first, rest, hfirst, hfits, hrest, rfl⟩
        have hrest := (ih (Nat.add_le_add_right hle first.length) hfits).1 hrest
        refine ⟨⟨first, rest, hfirst, by omega, hrest.1, rfl⟩, ?_⟩
        rw [List.length_append, ← Nat.add_assoc]
        exact hrest.2
      · rintro ⟨⟨first, rest, hfirst, _, hrest, rfl⟩, hlength⟩
        rw [List.length_append, ← Nat.add_assoc] at hlength
        have hfits : used + first.length ≤ maxInstructions := by omega
        exact ⟨first, rest, hfirst, hfits,
          (ih (Nat.add_le_add_right hle first.length) hfits).2 ⟨hrest, hlength⟩, rfl⟩

variable {expand' expand'' : String → Except CompileError Code} {xs ys zs xs' ys' : List Block}

/-- Whatever code blocks have with one expansion of calls, other blocks have with another one,
wherever both stand. -/
def Below (expand expand' : String → Except CompileError Code) (line : Nat)
    (xs ys : List Block) : Prop :=
  ∀ used ≤ maxInstructions, Keeps (lowerAll expand line used xs) (lowerAll expand' line used ys)

/-- Two lists of blocks have the same code or both have none, wherever they stand. -/
def Alike (expand : String → Except CompileError Code) (line : Nat) (xs ys : List Block) : Prop :=
  ∀ used ≤ maxInstructions, ∀ code,
    lowerAll expand line used xs = .ok code ↔ lowerAll expand line used ys = .ok code

theorem alike_iff_below :
    Alike expand line xs ys ↔ Below expand expand line xs ys ∧ Below expand expand line ys xs := by
  simp only [Alike, Below, ← keeps_and_keeps_iff, forall_and]

theorem Below.trans (hxy : Below expand expand' line xs ys)
    (hyz : Below expand' expand'' line ys zs) : Below expand expand'' line xs zs :=
  fun used hused code h => hyz used hused code (hxy used hused code h)

theorem Below.append (h : Below expand expand' line xs ys)
    (h' : Below expand expand' line xs' ys') :
    Below expand expand' line (xs ++ xs') (ys ++ ys') := by
  intro used hused code hcode
  obtain ⟨first, rest, hfirst, hrest, rfl⟩ := lowerAll_append_eq_ok_iff.1 hcode
  have hlength := length_le_of_lowerAll hfirst hused
  exact lowerAll_append_eq_ok_iff.2
    ⟨first, rest, h used hused first hfirst, h' _ hlength rest hrest, rfl⟩

theorem lower_call (name : String) : (call name).lower expand line = expand name := by
  rw [lower]

theorem below_singleton {b c : Block} (h : Keeps (b.lower expand line) (c.lower expand' line)) :
    Below expand expand' line [b] [c] := by
  intro used _ code hcode
  rw [lowerAll_singleton_eq_ok_iff] at hcode ⊢
  exact ⟨h code hcode.1, hcode.2⟩

theorem alike_singleton {b c : Block}
    (h : ∀ code, b.lower expand line = .ok code ↔ c.lower expand line = .ok code) :
    Alike expand line [b] [c] := by
  obtain ⟨hbc, hcb⟩ := keeps_and_keeps_iff.2 h
  exact alike_iff_below.2 ⟨below_singleton hbc, below_singleton hcb⟩

mutual

/-- A block keeps its code when every call does. -/
theorem keeps_lower (h : ∀ name, Keeps (expand name) (expand' name)) :
    ∀ b : Block, Keeps (b.lower expand line) (b.lower expand' line)
  | act a, code, hcode => by
      rw [lower] at hcode ⊢
      exact hcode
  | choose c yes no, code, hcode => by
      obtain ⟨ys, ns, hys, hns, rfl⟩ := lower_choose_eq_ok_iff.1 hcode
      have hys := below_self h yes 0 (Nat.zero_le _) ys hys
      have hns := below_self h no 0 (Nat.zero_le _) ns hns
      exact lower_choose_eq_ok_iff.2 ⟨ys, ns, hys, hns, rfl⟩
  | times n body, code, hcode => by
      obtain ⟨once, honce, hle, rfl⟩ := lower_times_eq_ok_iff.1 hcode
      have honce := below_self h body 0 (Nat.zero_le _) once honce
      exact lower_times_eq_ok_iff.2 ⟨once, honce, hle, rfl⟩
  | call name, code, hcode => by
      rw [lower_call] at hcode ⊢
      exact h name code hcode

theorem below_self (h : ∀ name, Keeps (expand name) (expand' name)) :
    ∀ bs : List Block, Below expand expand' line bs bs
  | [] => fun _ _ _ hcode => hcode
  | b :: bs => (below_singleton (keeps_lower h b)).append (below_self h bs)

end

theorem keeps_lower_close (hexpand : ∀ name, Keeps (expand name) (expand' name))
    (h : Below expand expand' line xs ys) (frame : Frame) :
    Keeps ((frame.close xs).lower expand line) ((frame.close ys).lower expand' line) := by
  intro code hcode
  cases frame with
  | yes c no =>
      obtain ⟨first, second, hfirst, hsecond, rfl⟩ := lower_choose_eq_ok_iff.1 hcode
      have hfirst := h 0 (Nat.zero_le _) first hfirst
      have hsecond := below_self hexpand no 0 (Nat.zero_le _) second hsecond
      exact lower_choose_eq_ok_iff.2 ⟨first, second, hfirst, hsecond, rfl⟩
  | no c yes =>
      obtain ⟨first, second, hfirst, hsecond, rfl⟩ := lower_choose_eq_ok_iff.1 hcode
      have hfirst := below_self hexpand yes 0 (Nat.zero_le _) first hfirst
      have hsecond := h 0 (Nat.zero_le _) second hsecond
      exact lower_choose_eq_ok_iff.2 ⟨first, second, hfirst, hsecond, rfl⟩
  | body n =>
      obtain ⟨once, honce, hle, rfl⟩ := lower_times_eq_ok_iff.1 hcode
      have honce := h 0 (Nat.zero_le _) once honce
      exact lower_times_eq_ok_iff.2 ⟨once, honce, hle, rfl⟩

end Block

/-- What keeps its code keeps it at every place. -/
theorem Place.below_fill {expand expand' : String → Except CompileError Code} {line : Nat}
    {xs ys : List Block} (hexpand : ∀ name, Keeps (expand name) (expand' name))
    (h : Block.Below expand expand' line xs ys) (place : Place) :
    Block.Below expand expand' line (place.fill xs) (place.fill ys) := by
  induction place with
  | here before after =>
      exact ((Block.below_self hexpand before).append h).append (Block.below_self hexpand after)
  | inside before frame inner after ih =>
      have hone := Block.below_singleton (Block.keeps_lower_close hexpand ih frame)
      exact (Block.below_self hexpand before).append
        (hone.append (Block.below_self hexpand after))

namespace Program

variable {m : Macros}

/-- A program keeps its code when each block keeps its own. -/
theorem keeps_compileFrom {k : Macros} {p q : Program}
    (h : List.Forall₂ (fun b c => ∀ line,
      Keeps (b.lower (m.expand line []) line) (c.lower (k.expand line []) line)) p q)
    (line used : Nat) : Keeps (compileFrom m line used p) (compileFrom k line used q) := by
  induction h generalizing line used with
  | nil =>
      exact fun _ hcode => hcode
  | cons hfirst _ ih =>
      intro code hcode
      obtain ⟨first, rest, hb, hle, hrest, rfl⟩ := compileFrom_cons_eq_ok_iff.1 hcode
      exact compileFrom_cons_eq_ok_iff.2
        ⟨first, rest, hfirst line first hb, hle, ih _ _ rest hrest, rfl⟩

/-- One block of a program may be exchanged for one that keeps its code. -/
theorem keeps_exchange {b c : Block}
    (h : ∀ line, Keeps (b.lower (m.expand line []) line) (c.lower (m.expand line []) line))
    (before after : Program) (line used : Nat) :
    Keeps (compileFrom m line used (before ++ b :: after))
      (compileFrom m line used (before ++ c :: after)) := by
  have hsame (bs : Program) : List.Forall₂ (fun b c => ∀ line,
      Keeps (b.lower (m.expand line []) line) (c.lower (m.expand line []) line)) bs bs :=
    List.forall₂_same.2 fun _ _ _ => Keeps.refl _
  exact keeps_compileFrom (List.rel_append (hsame before) (.cons h (hsame after))) line used

/-- One block of a program may be exchanged for one that is lowered alike. -/
theorem compileFrom_eq_ok_iff_of_lower {b c : Block}
    (h : ∀ line code, b.lower (m.expand line []) line = .ok code ↔
      c.lower (m.expand line []) line = .ok code)
    (before after : Program) (line used : Nat) (code : Code) :
    compileFrom m line used (before ++ b :: after) = .ok code ↔
      compileFrom m line used (before ++ c :: after) = .ok code := by
  have hboth (line : Nat) := keeps_and_keeps_iff.2 (h line)
  exact keeps_and_keeps_iff.1 ⟨keeps_exchange (fun line => (hboth line).1) before after line used,
    keeps_exchange (fun line => (hboth line).2) before after line used⟩ code

/-- Blocks inside a block of a program may be exchanged for others that keep their code. -/
theorem keeps_fill_inside {xs ys : List Block}
    (h : ∀ line, Block.Below (m.expand line []) (m.expand line []) line xs ys) (before : Program)
    (frame : Frame) (inner : Place) (after : Program) :
    Keeps (Program.compile (Place.fill xs (.inside before frame inner after)) m)
      (Program.compile (Place.fill ys (.inside before frame inner after)) m) := by
  have hblock (line : Nat) := Block.keeps_lower_close (fun _ => Keeps.refl _)
    (inner.below_fill (fun _ => Keeps.refl _) (h line)) frame
  exact keeps_exchange hblock before after 0 0

theorem compile_fill_inside {xs ys : List Block}
    (h : ∀ line, Block.Alike (m.expand line []) line xs ys) (before : Program) (frame : Frame)
    (inner : Place) (after : Program) (code : Code) :
    Program.compile (Place.fill xs (.inside before frame inner after)) m = .ok code ↔
      Program.compile (Place.fill ys (.inside before frame inner after)) m = .ok code := by
  have hboth (line : Nat) := Block.alike_iff_below.1 (h line)
  have hxs := keeps_fill_inside (fun line => (hboth line).1) before frame inner after
  have hys := keeps_fill_inside (fun line => (hboth line).2) before frame inner after
  exact keeps_and_keeps_iff.1 ⟨hxs, hys⟩ code

end Program

end GridRobot
