import GridRobot.Proofs.Code.Places

/-!
# Loops are written out

A loop that is run at least once may be exchanged for its body, written out as often as the
loop says, wherever the loop stands inside a block or in the body of a macro: there is the same
code as before, or none in both cases.  The loop is tested once on the length of all its copies
together and the copies are tested on the length so far, which comes to the same at the last
copy.  At the top level the copies would take up further lines.

A loop that is never run may be deleted.  The converse does not hold, since its body is lowered
all the same and may be what keeps the program from having code.

**Results.**
* `Block.lowerAll_copies_eq_ok_iff`: copies of blocks have copies of their code.
* `Block.alike_times_copies`: a loop and its copies are lowered alike.
* `Macros.keeps_expand`: calls keep their code when the bodies of all macros do.
* `Program.compile_unroll`: loops are written out.
-/

namespace GridRobot

namespace Block

variable {expand : String → Except CompileError Code} {line : Nat} {body : List Block}

/-- Copies of blocks, of which there is at least one, have copies of their code, if the last
copy still fits. -/
theorem lowerAll_copies_eq_ok_iff {used : Nat} (hused : used ≤ maxInstructions) (n : Nat)
    {code : Code} :
    lowerAll expand line used (List.replicate (n + 1) body).flatten = .ok code ↔
      ∃ once, lowerAll expand line 0 body = .ok once ∧
        used + (n + 1) * once.length ≤ maxInstructions ∧
        code = (List.replicate (n + 1) once).flatten := by
  induction n generalizing used code with
  | zero =>
      simp only [Nat.zero_add, Nat.one_mul, List.replicate_one, List.flatten_singleton]
      rw [lowerAll_eq_ok_iff_of_le (Nat.zero_le used) hused]
      constructor
      · rintro ⟨honce, hle⟩
        exact ⟨code, honce, hle, rfl⟩
      · rintro ⟨once, honce, hle, rfl⟩
        exact ⟨honce, hle⟩
  | succ n ih =>
      rw [List.replicate_succ, List.flatten_cons, lowerAll_append_eq_ok_iff]
      constructor
      · rintro ⟨first, rest, hfirst, hrest, rfl⟩
        have hfits := length_le_of_lowerAll hfirst hused
        obtain ⟨once, honce, hle, rfl⟩ := (ih hfits).1 hrest
        obtain ⟨hfirst, _⟩ := (lowerAll_eq_ok_iff_of_le (Nat.zero_le used) hused).1 hfirst
        rw [honce] at hfirst
        cases hfirst
        refine ⟨first, honce, ?_, ?_⟩
        · rw [Nat.succ_mul]
          omega
        · rw [List.replicate_succ (n := n + 1), List.flatten_cons]
      · rintro ⟨once, honce, hle, rfl⟩
        rw [Nat.succ_mul] at hle
        have hfits : used + once.length ≤ maxInstructions := by omega
        have hfirst := (lowerAll_eq_ok_iff_of_le (Nat.zero_le used) hused).2 ⟨honce, hfits⟩
        have hrest := (ih hfits).2 ⟨once, honce, by omega, rfl⟩
        exact ⟨once, _, hfirst, hrest, by rw [List.replicate_succ (n := n + 1), List.flatten_cons]⟩

theorem alike_times_copies {n : UInt32} (hn : 0 < n) :
    Alike expand line [.times n body] (List.replicate n.toNat body).flatten := by
  intro used hused code
  obtain ⟨k, hk⟩ := Nat.exists_eq_add_one.2 (UInt32.lt_iff_toNat_lt.1 hn)
  rw [lowerAll_singleton_eq_ok_iff, lower_times_eq_ok_iff, hk, lowerAll_copies_eq_ok_iff hused]
  constructor
  · rintro ⟨⟨once, honce, _, rfl⟩, hle⟩
    rw [Code.length_repeated] at hle
    exact ⟨once, honce, hle, Code.repeated_eq_flatten (k + 1) once⟩
  · rintro ⟨once, honce, hle, rfl⟩
    rw [← Code.repeated_eq_flatten, Code.length_repeated]
    rw [Nat.mul_comm] at hle
    refine ⟨⟨once, honce, by omega, rfl⟩, ?_⟩
    rwa [Nat.mul_comm]

/-- A loop that is never run has no instructions. -/
theorem below_times_zero : Below expand expand line [.times 0 body] [] := by
  intro used _ code hcode
  obtain ⟨hcode, _⟩ := lowerAll_singleton_eq_ok_iff.1 hcode
  obtain ⟨once, _, _, rfl⟩ := lower_times_eq_ok_iff.1 hcode
  rw [Code.repeated_eq_flatten]
  rfl

end Block

/-! ### Loops in the bodies of macros -/

namespace Macros

variable {m k : Macros}

/-- Every body in a table keeps its code in another table, however calls are expanded. -/
def BodiesBelow (m k : Macros) : Prop :=
  ∀ name body, m.body? name = some body → ∃ body', k.body? name = some body' ∧
    ∀ expand expand' line, (∀ called, Keeps (expand called) (expand' called)) →
      Block.Below expand expand' line body body'

/-- Calls keep their code, under any stack, when the bodies of all macros keep theirs. -/
theorem keeps_expand (h : m.BodiesBelow k) (line : Nat) (stack : List String) (name : String) :
    Keeps (m.expand line stack name) (k.expand line stack name) := by
  intro code hcode
  obtain ⟨hstack, body, hbody, hcode⟩ := expand_eq_ok_iff.1 hcode
  obtain ⟨body', hbody', hbelow⟩ := h name body hbody
  have hlt := m.length_fresh_lt ((m.isSome_body? name).1 (by simp [hbody])) hstack
  have hcalls (called : String) := keeps_expand h line (stack ++ [name]) called
  have hcode := hbelow _ _ line hcalls 0 (Nat.zero_le _) code hcode
  exact expand_eq_ok_iff.2 ⟨hstack, body', hbody', hcode⟩
termination_by (m.fresh stack).length

/-- Blocks in the body of one macro are exchanged for others that keep their code. -/
theorem bodiesBelow_define {xs ys : List Block}
    (h : ∀ expand line, Block.Below expand expand line xs ys) (m : Macros) (name : String)
    (place : Place) :
    (m.define name (place.fill xs)).BodiesBelow (m.define name (place.fill ys)) := by
  intro other body hbody
  rw [body?_define] at hbody
  rw [body?_define]
  by_cases heq : other = name
  · rw [if_pos heq] at hbody ⊢
    cases hbody
    refine ⟨_, rfl, fun expand expand' line hexpand => place.below_fill hexpand ?_⟩
    exact (h expand line).trans (Block.below_self hexpand ys)
  · rw [if_neg heq] at hbody ⊢
    exact ⟨body, hbody, fun expand expand' line hexpand => Block.below_self hexpand body⟩

end Macros

namespace Program

theorem keeps_compile_of_bodies {m k : Macros} (h : m.BodiesBelow k) (p : Program) :
    Keeps (p.compile m) (p.compile k) :=
  keeps_compileFrom
    (List.forall₂_same.2 fun b _ line => Block.keeps_lower (Macros.keeps_expand h line []) b) 0 0

/-- **Loops are written out.**  A loop inside a block of a program that is run at least once may
be exchanged for as many copies of its body: the program has the same code as before, or neither
compiles.  A loop that is never run may be deleted from a program that compiles.  The same holds
of a loop anywhere in the body of a macro. -/
theorem compile_unroll (m : Macros) (n : UInt32) (body : List Block) (code : Code) :
    (∀ before frame inner after,
      let place := Place.inside before frame inner after
      (0 < n →
        (Program.compile (place.fill [.times n body]) m = .ok code ↔
          Program.compile (place.fill (List.replicate n.toNat body).flatten) m = .ok code)) ∧
      (Program.compile (place.fill [.times 0 body]) m = .ok code →
        Program.compile (place.fill []) m = .ok code)) ∧
    ∀ (p : Program) (name : String) (place : Place),
      (0 < n →
        (p.compile (m.define name (place.fill [.times n body])) = .ok code ↔
          p.compile (m.define name (place.fill (List.replicate n.toNat body).flatten))
            = .ok code)) ∧
      (p.compile (m.define name (place.fill [.times 0 body])) = .ok code →
        p.compile (m.define name (place.fill [])) = .ok code) := by
  refine ⟨fun before frame inner after => ⟨fun hn => ?_, ?_⟩,
    fun p name place => ⟨fun hn => ?_, ?_⟩⟩
  · exact compile_fill_inside (fun _ => Block.alike_times_copies hn) before frame inner after code
  · exact keeps_fill_inside (fun _ => Block.below_times_zero) before frame inner after code
  · have hboth (expand : String → Except CompileError Code) (line : Nat) :
        Block.Below expand expand line [.times n body] (List.replicate n.toNat body).flatten ∧
          Block.Below expand expand line (List.replicate n.toNat body).flatten [.times n body] :=
      Block.alike_iff_below.1 (Block.alike_times_copies hn)
    have hwritten :=
      Macros.bodiesBelow_define (fun expand line => (hboth expand line).1) m name place
    have hrolled :=
      Macros.bodiesBelow_define (fun expand line => (hboth expand line).2) m name place
    exact keeps_and_keeps_iff.1
      ⟨keeps_compile_of_bodies hwritten p, keeps_compile_of_bodies hrolled p⟩ code
  · exact keeps_compile_of_bodies
      (Macros.bodiesBelow_define (fun _ _ => Block.below_times_zero) m name place) p code

/-- A loop over a choice with a call in it, in a branch inside another loop and in the body of a
macro; it is written out twice, or deleted when it is never run. -/
theorem compile_unroll_in_branch :
    let m : Macros := .ofList [("left", [.act .turnLeft])]
    let turn : Block := .choose .frontIsClear [.act .move] [.call "left"]
    let inner : Place := .inside [] (.yes .beepersPresent []) (.here [] [.act .pickUp]) []
    let place : Place := .inside [.act .putDown] (.body 2) inner []
    let once (line : Nat) : Code :=
      Code.choice line .frontIsClear [⟨line, .act .move⟩] [⟨line, .act .turnLeft⟩]
    let branch (line : Nat) (copies : Code) : Code :=
      Code.choice line .beepersPresent (copies ++ [⟨line, .act .pickUp⟩]) []
    let code : Code := ⟨0, .act .putDown⟩ :: Code.repeated 2 (branch 1 (once 1 ++ once 1))
    let bare : Code := ⟨0, .act .putDown⟩ :: Code.repeated 2 (branch 1 [])
    let p : Program := [.call "walk"]
    (0 < (2 : UInt32) ∧
      Program.compile (place.fill [.times 2 [turn]]) m = .ok code ∧
      Program.compile (place.fill [turn, turn]) m = .ok code) ∧
    (Program.compile (place.fill [.times 0 [turn]]) m = .ok bare ∧
      Program.compile (place.fill []) m = .ok bare) ∧
    (p.compile (m.define "walk" (inner.fill [.times 2 [turn]]))
        = .ok (branch 0 (once 0 ++ once 0)) ∧
      p.compile (m.define "walk" (inner.fill [turn, turn])) = .ok (branch 0 (once 0 ++ once 0))) ∧
    p.compile (m.define "walk" (inner.fill [.times 0 [turn]])) = .ok (branch 0 []) ∧
      p.compile (m.define "walk" (inner.fill [])) = .ok (branch 0 []) := by
  intro m turn inner place once branch code bare p
  have htwo : 0 < (2 : UInt32) := by decide
  have hcode : Program.compile (place.fill [.times 2 [turn]]) m = .ok code := by
    unfold place inner turn m code branch once
    cbv
  have hbare : Program.compile (place.fill [.times 0 [turn]]) m = .ok bare := by
    unfold place inner turn m bare branch
    cbv
  have hwalk : p.compile (m.define "walk" (inner.fill [.times 2 [turn]]))
      = .ok (branch 0 (once 0 ++ once 0)) := by
    unfold p inner turn m branch once
    cbv
  have hstay : p.compile (m.define "walk" (inner.fill [.times 0 [turn]])) = .ok (branch 0 []) := by
    unfold p inner turn m branch
    cbv
  have hinside (code : Code) :=
    (compile_unroll m 2 [turn] code).1 [.act .putDown] (.body 2) inner []
  have hbody (code : Code) := (compile_unroll m 2 [turn] code).2 p "walk" inner
  exact ⟨⟨htwo, hcode, ((hinside code).1 htwo).1 hcode⟩, ⟨hbare, (hinside bare).2 hbare⟩,
    ⟨hwalk, ((hbody _).1 htwo).1 hwalk⟩, hstay, (hbody _).2 hstay⟩

end Program

end GridRobot
