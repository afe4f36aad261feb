import GridRobot.Proofs.Code.Places

/-!
# Calls are transparent

A call may be exchanged for the body of its macro, at any depth of a program, and the
program compiles to the same code as before, with the same lines, or still does not
compile.  At the top level the body has to stay one block, since it would take up further
lines; inside a block its blocks may be put in the place of the call.

The body is lowered inside one macro less than before, which can only matter if it reaches
its own name; then neither of the two programs compiles.

**Results.**
* `Macros.expand_eq_ok_iff_lowerAll`: a call and the body of its macro are lowered alike.
* `Program.compile_inline`: calls are transparent.
-/

namespace GridRobot

namespace Macros

variable {m : Macros} {line : Nat} {name : String} {body : List Block}

/-- Outside of all macros, a call has the code of the body of its macro.  A body that reaches
the name of its macro has none. -/
theorem expand_eq_ok_iff_lowerAll (hname : m.body? name = some body) {code : Code} :
    m.expand line [] name = .ok code ↔ m.lowerAll line [] body = .ok code := by
  rw [expand_eq_ok_iff, lowerAll_eq_ok_iff]
  constructor
  · rintro ⟨_, other, hother, hcode⟩
    rw [hname] at hother
    cases hother
    obtain ⟨hcode, _, hlimit⟩ := lowerAll_eq_ok_iff.1 hcode
    exact ⟨hcode, avoids_nil body, hlimit⟩
  · rintro ⟨hcode, hnone, hlimit⟩
    have hself : m.Avoids ([] ++ [name]) body :=
      avoids_append_singleton.2 ⟨hnone, hcode.unrolls.acyclic.not_reaches_self hname⟩
    exact ⟨List.not_mem_nil, body, hname, lowerAll_eq_ok_iff.2 ⟨hcode, hself, hlimit⟩⟩

theorem lower_call_eq_ok_iff_times (hname : m.body? name = some body) (code : Code) :
    (Block.call name).lower (m.expand line []) line = .ok code ↔
      (Block.times 1 body).lower (m.expand line []) line = .ok code := by
  rw [Block.lower_call, expand_eq_ok_iff_lowerAll hname, Block.lower_times_eq_ok_iff]
  have honce (once : Code) : Code.repeated (1 : UInt32).toNat once = once := by
    simp [Code.repeated_eq_flatten]
  constructor
  · intro h
    refine ⟨code, h, ?_, (honce code).symm⟩
    simpa using Block.length_le_of_lowerAll h (Nat.zero_le _)
  · rintro ⟨once, h, _, rfl⟩
    rw [honce]
    exact h

theorem alike_call_body (hname : m.body? name = some body) :
    Block.Alike (m.expand line []) line [.call name] body := by
  intro used hused code
  rw [Block.lowerAll_singleton_eq_ok_iff, Block.lower_call, expand_eq_ok_iff_lowerAll hname]
  exact (Block.lowerAll_eq_ok_iff_of_le (Nat.zero_le used) hused).symm

end Macros

namespace Program

variable {m : Macros}

/-- **Calls are transparent.**  A call of a macro may be exchanged for a loop that runs the
body of the macro once, and inside a block for the blocks of the body: the program has the
same code as before, or neither compiles. -/
theorem compile_inline {name : String} {body : List Block} (hname : m.body? name = some body)
    (code : Code) :
    (∀ place : Place, Program.compile (place.fill [.call name]) m = .ok code ↔
      Program.compile (place.fill [.times 1 body]) m = .ok code) ∧
    ∀ before frame inner after,
      let place := Place.inside before frame inner after
      Program.compile (place.fill [.call name]) m = .ok code ↔
        Program.compile (place.fill body) m = .ok code := by
  refine ⟨fun place => ?_, fun before frame inner after => ?_⟩
  · cases place with
    | here before after =>
        simp only [Place.fill, List.append_assoc, List.singleton_append]
        exact compileFrom_eq_ok_iff_of_lower
          (fun line => Macros.lower_call_eq_ok_iff_times hname) before after 0 0 code
    | inside before frame inner after =>
        exact compile_fill_inside
          (fun line => Block.alike_singleton (Macros.lower_call_eq_ok_iff_times hname))
          before frame inner after code
  · exact compile_fill_inside (fun line => Macros.alike_call_body hname)
      before frame inner after code

/-- In the branch of a choice in a loop, a call is exchanged for the body of its macro, which
calls another macro. -/
theorem compile_inline_in_branch :
    let m : Macros := .ofList [("left", [.act .turnLeft]), ("back", [.times 2 [.call "left"]])]
    let place : Place :=
      .inside [.act .move] (.body 2)
        (.inside [] (.yes .frontIsBlocked [.act .move]) (.here [] [.call "left"]) []) []
    let branch : Code := [⟨1, .act .turnLeft⟩, ⟨1, .act .turnLeft⟩, ⟨1, .act .turnLeft⟩]
    let code : Code :=
      ⟨0, .act .move⟩ :: Code.repeated 2 (Code.choice 1 .frontIsBlocked branch [⟨1, .act .move⟩])
    m.body? "back" = some [.times 2 [.call "left"]] ∧
      Program.compile (place.fill [.call "back"]) m = .ok code ∧
      Program.compile (place.fill [.times 1 [.times 2 [.call "left"]]]) m = .ok code ∧
      Program.compile (place.fill [.times 2 [.call "left"]]) m = .ok code := by
  intro m place branch code
  have hname : m.body? "back" = some [.times 2 [.call "left"]] := by
    unfold m
    cbv
  have hcode : Program.compile (place.fill [.call "back"]) m = .ok code := by
    unfold place m code branch
    cbv
  obtain ⟨htimes, hbody⟩ := compile_inline hname code
  exact ⟨hname, hcode, (htimes place).1 hcode, (hbody _ _ _ _).1 hcode⟩

end Program

end GridRobot
