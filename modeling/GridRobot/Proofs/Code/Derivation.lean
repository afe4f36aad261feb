import GridRobot.Code.Lowering

/-!
# Derivations of code

The lowering of blocks carries a stack of names and a count of instructions along,
and both only decide whether there is code at all.  `Lowers m line bs code` says
what the code is once it is there: the code of a list of blocks is put together
from the codes of its blocks, and a call stands for the code of the body of its
macro.  What holds of all code that the lowering produces is shown by induction
on this relation.

**Results.**
* `Macros.lowers_of_lowerAll`, `Macros.lowers_of_compile`: the code of a list of
  blocks and the code of a macro have derivations.
* `Program.lowersFrom_of_compile`: the code of a program is the code of its blocks,
  one after the other, each with its own line.
-/

namespace GridRobot

/-- The code of a list of blocks, every instruction with the same line. -/
inductive Lowers (m : Macros) (line : Nat) : List Block → Code → Prop
  | nil : Lowers m line [] []
  | act {a : Action} {bs : List Block} {rest : Code}
      (htail : Lowers m line bs rest) :
      Lowers m line (.act a :: bs) (⟨line, .act a⟩ :: rest)
  | choose {c : Condition} {yes no bs : List Block} {ys ns rest : Code}
      (hyes : Lowers m line yes ys)
      (hno : Lowers m line no ns)
      (htail : Lowers m line bs rest) :
      Lowers m line (.choose c yes no :: bs) (Code.choice line c ys ns ++ rest)
  | times {n : UInt32} {body bs : List Block} {once rest : Code}
      (hbody : Lowers m line body once)
      (htail : Lowers m line bs rest) :
      Lowers m line (.times n body :: bs) (Code.repeated n.toNat once ++ rest)
  | call {name : String} {body bs : List Block} {inner rest : Code}
      (hname : m.body? name = some body)
      (hbody : Lowers m line body inner)
      (htail : Lowers m line bs rest) :
      Lowers m line (.call name :: bs) (inner ++ rest)

/-- The code of the blocks of a program from a line on. -/
inductive Program.LowersFrom (m : Macros) : Nat → Program → Code → Prop
  | nil {line : Nat} : LowersFrom m line [] []
  | cons {line : Nat} {b : Block} {bs : Program} {first rest : Code}
      (hfirst : Lowers m line [b] first)
      (htail : LowersFrom m (line + 1) bs rest) :
      LowersFrom m line (b :: bs) (first ++ rest)

theorem bind_eq_ok_iff {ε α β : Type} {x : Except ε α} {f : α → Except ε β} {b : β} :
    x >>= f = .ok b ↔ ∃ a, x = .ok a ∧ f a = .ok b := by
  cases x with
  | error e =>
      simp [bind, Except.bind]
  | ok a =>
      simp [bind, Except.bind]

/-- When blocks one after the other have code: each part has, and the code so far is never
too long. -/
theorem limited_append_eq_ok_iff (tail : Nat → Except CompileError Code) {used : Nat}
    {cause : CompileError} {head : Except CompileError Code} {code : Code} :
    (do
      let first ← head
      if used + first.length ≤ maxInstructions then
        let rest ← tail (used + first.length)
        return first ++ rest
      else
        throw cause) = .ok code ↔
      ∃ first rest, head = .ok first ∧ used + first.length ≤ maxInstructions ∧
        tail (used + first.length) = .ok rest ∧ code = first ++ rest := by
  rw [bind_eq_ok_iff]
  constructor
  · rintro ⟨first, hfirst, h⟩
    split at h
    · rename_i hle
      obtain ⟨rest, hrest, h⟩ := bind_eq_ok_iff.1 h
      cases h
      exact ⟨first, rest, hfirst, hle, hrest, rfl⟩
    · cases h
  · rintro ⟨first, rest, hfirst, hle, hrest, rfl⟩
    refine ⟨first, hfirst, ?_⟩
    rw [if_pos hle]
    exact bind_eq_ok_iff.2 ⟨rest, hrest, rfl⟩

namespace Block

section Lower

variable {expand : String → Except CompileError Code} {line : Nat}

theorem lower_choose_eq_ok_iff {c : Condition} {yes no : List Block} {code : Code} :
    (choose c yes no).lower expand line = .ok code ↔
      ∃ ys ns, lowerAll expand line 0 yes = .ok ys ∧ lowerAll expand line 0 no = .ok ns ∧
        code = Code.choice line c ys ns := by
  simp only [lower, bind_eq_ok_iff, pure, Except.pure, Except.ok.injEq, eq_comm (a := code)]
  constructor
  · rintro ⟨ys, hys, ns, hns, h⟩
    exact ⟨ys, ns, hys, hns, h⟩
  · rintro ⟨ys, ns, hys, hns, h⟩
    exact ⟨ys, hys, ns, hns, h⟩

theorem lower_times_eq_ok_iff {n : UInt32} {body : List Block} {code : Code} :
    (times n body).lower expand line = .ok code ↔
      ∃ once, lowerAll expand line 0 body = .ok once ∧
        once.length * n.toNat ≤ maxInstructions ∧ code = Code.repeated n.toNat once := by
  simp only [lower, bind_eq_ok_iff, pure, Except.pure, throw, throwThe, MonadExceptOf.throw]
  constructor
  · rintro ⟨once, honce, h⟩
    split at h
    · rename_i hle
      cases h
      exact ⟨once, honce, hle, rfl⟩
    · cases h
  · rintro ⟨once, honce, hle, rfl⟩
    exact ⟨once, honce, by rw [if_pos hle]⟩

theorem lowerAll_cons_eq_ok_iff {used : Nat} {b : Block} {bs : List Block} {code : Code} :
    lowerAll expand line used (b :: bs) = .ok code ↔
      ∃ first rest, b.lower expand line = .ok first ∧
        used + first.length ≤ maxInstructions ∧
        lowerAll expand line (used + first.length) bs = .ok rest ∧ code = first ++ rest := by
  rw [lowerAll]
  exact limited_append_eq_ok_iff fun used => lowerAll expand line used bs

variable {m : Macros}

mutual

/-- The code of a block goes in front of the code of the blocks behind it. -/
theorem lowers_cons
    (hexpand : ∀ name code, expand name = .ok code →
      ∃ body, m.body? name = some body ∧ Lowers m line body code) :
    ∀ (b : Block) {first : Code}, b.lower expand line = .ok first →
      ∀ {bs : List Block} {rest : Code}, Lowers m line bs rest →
        Lowers m line (b :: bs) (first ++ rest)
  | act a, first, h, bs, rest, htail => by
      cases h
      exact .act htail
  | choose c yes no, first, h, bs, rest, htail => by
      obtain ⟨ys, ns, hys, hns, rfl⟩ := lower_choose_eq_ok_iff.1 h
      exact .choose (lowers_of_lowerAll hexpand yes hys) (lowers_of_lowerAll hexpand no hns) htail
  | times n body, first, h, bs, rest, htail => by
      obtain ⟨once, honce, _, rfl⟩ := lower_times_eq_ok_iff.1 h
      exact .times (lowers_of_lowerAll hexpand body honce) htail
  | call name, first, h, bs, rest, htail => by
      obtain ⟨body, hname, hbody⟩ := hexpand name first h
      exact .call hname hbody htail

theorem lowers_of_lowerAll
    (hexpand : ∀ name code, expand name = .ok code →
      ∃ body, m.body? name = some body ∧ Lowers m line body code) :
    ∀ (bs : List Block) {used : Nat} {code : Code},
      lowerAll expand line used bs = .ok code → Lowers m line bs code
  | [], used, code, h => by
      cases h
      exact .nil
  | b :: bs, used, code, h => by
      obtain ⟨first, rest, hfirst, _, hrest, rfl⟩ := lowerAll_cons_eq_ok_iff.1 h
      exact lowers_cons hexpand b hfirst (lowers_of_lowerAll hexpand bs hrest)

end

end Lower

end Block

namespace Macros

variable {m : Macros} {line : Nat}

/-- A call has code only if its macro has a body, and then it is the code of the body. -/
theorem lowers_of_expand {stack : List String} {name : String} {code : Code}
    (h : m.expand line stack name = .ok code) :
    ∃ body, m.body? name = some body ∧ Lowers m line body code := by
  by_cases hstack : name ∈ stack
  · rw [m.expand_of_mem line hstack] at h
    cases h
  · cases hbody : m.body? name with
    | none =>
        rw [m.expand_of_undefined line hstack hbody] at h
        cases h
    | some body =>
        have hname : name ∈ m.names := (m.isSome_body? name).1 (by simp [hbody])
        have hlt := m.length_fresh_lt hname hstack
        rw [m.expand_of_body line hstack hbody] at h
        refine ⟨body, rfl, Block.lowers_of_lowerAll (fun called inner hinner => ?_) body h⟩
        exact lowers_of_expand hinner
termination_by (m.fresh stack).length

theorem lowers_of_lowerAll {stack : List String} {bs : List Block} {code : Code}
    (h : m.lowerAll line stack bs = .ok code) : Lowers m line bs code :=
  Block.lowers_of_lowerAll (fun _ _ => lowers_of_expand) bs h

theorem lowers_of_compile {name : String} {code : Code} (h : m.compile name line = .ok code) :
    ∃ body, m.body? name = some body ∧ Lowers m line body code :=
  lowers_of_expand h

end Macros

namespace Program

variable {m : Macros}

theorem compileFrom_cons_eq_ok_iff {line used : Nat} {b : Block} {bs : Program} {code : Code} :
    compileFrom m line used (b :: bs) = .ok code ↔
      ∃ first rest, b.lower (m.expand line []) line = .ok first ∧
        used + first.length ≤ maxInstructions ∧
        compileFrom m (line + 1) (used + first.length) bs = .ok rest ∧
        code = first ++ rest := by
  rw [compileFrom]
  exact limited_append_eq_ok_iff fun used => compileFrom m (line + 1) used bs

theorem lowersFrom_of_compileFrom {line used : Nat} {p : Program} {code : Code}
    (h : compileFrom m line used p = .ok code) : LowersFrom m line p code := by
  induction p generalizing line used code with
  | nil =>
      cases h
      exact .nil
  | cons b bs ih =>
      obtain ⟨first, rest, hfirst, _, hrest, rfl⟩ := compileFrom_cons_eq_ok_iff.1 h
      have hone : Lowers m line [b] (first ++ []) :=
        Block.lowers_cons (fun _ _ => Macros.lowers_of_expand) b hfirst .nil
      rw [List.append_nil] at hone
      exact .cons hone (ih hrest)

theorem lowersFrom_of_compile {p : Program} {code : Code} (h : p.compile m = .ok code) :
    LowersFrom m 0 p code :=
  lowersFrom_of_compileFrom h

end Program

end GridRobot
