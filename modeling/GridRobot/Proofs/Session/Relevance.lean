import Mathlib
import GridRobot.Proofs.Program.References
import GridRobot.Session.Operation

/-!
# Macros that matter

The lowering asks for the body of a macro only when it comes to a call of it, so it never
sees the macros that a program does not reach.  Two tables that agree on the names that are
reached are told apart by nothing that the lowering does: it takes the same bodies in the
same order, under the same stacks of names, and fails at the same call or length.  Names
that are reached may be without a body, and bodies may call each other in a circle.

**Results.**
* `Macros.AgreeOn.reaches_iff`: tables that agree on what one of them reaches reach the same.
* `Block.lower_congr`: the code of a block depends on the expansion of its own calls.
* `Macros.AgreeOn.expand_eq`: a call is expanded alike under tables that agree.
* `Session.compile_reads_reached`: macros that are not reached have no influence.
-/

namespace GridRobot

/-! ### Tables that agree -/

namespace Macros

variable {m k : Macros} {top bs : List Block} {name : String}

/-- Two tables have the same body, or both none, under every name that is reached. -/
def AgreeOn (m k : Macros) (top : List Block) : Prop :=
  ∀ name, m.Reaches top name → k.body? name = m.body? name

/-- The same lists are reached, since every step into a body goes through a name that is
reached. -/
theorem AgreeOn.reached_iff (h : m.AgreeOn k top) : k.Reached top bs ↔ m.Reached top bs := by
  constructor
  · intro hbs
    induction hbs with
    | top =>
        exact .top
    | inside _ hb hinner ih =>
        refine ih.inside hb ?_
        cases hinner with
        | yes => exact .yes
        | no => exact .no
        | body => exact .body
        | macroBody hname => exact .macroBody (by rw [← h _ ⟨_, ih, hb⟩, hname])
  · intro hbs
    induction hbs with
    | top =>
        exact .top
    | inside hbs hb hinner ih =>
        refine ih.inside hb ?_
        cases hinner with
        | yes => exact .yes
        | no => exact .no
        | body => exact .body
        | macroBody hname => exact .macroBody (by rw [h _ ⟨_, hbs, hb⟩, hname])

theorem AgreeOn.reaches_iff (h : m.AgreeOn k top) : k.Reaches top name ↔ m.Reaches top name := by
  unfold Reaches
  simp only [h.reached_iff]

/-- A table still agrees with itself after a name that is not reached is given another body. -/
theorem agreeOn_define (body : List Block) (h : ¬ m.Reaches top name) :
    m.AgreeOn (m.define name body) top := by
  intro other hother
  have hne : other ≠ name := fun heq => h (heq ▸ hother)
  rw [body?_define, if_neg hne]

theorem agreeOn_erase (h : ¬ m.Reaches top name) : m.AgreeOn (m.erase name) top := by
  intro other hother
  have hne : other ≠ name := fun heq => h (heq ▸ hother)
  rw [body?_erase, if_neg hne]

end Macros

/-! ### The lowering under tables that agree -/

namespace Block

variable {expand expand' : String → Except CompileError Code} {line : Nat}

mutual

/-- The code of a block, or the reason why it has none, depends on its own calls. -/
theorem lower_congr :
    ∀ b : Block, (∀ name ∈ b.calls, expand name = expand' name) →
      b.lower expand line = b.lower expand' line
  | act a, _ => by
      rw [lower, lower]
  | choose c yes no, h => by
      rw [calls, List.forall_mem_append] at h
      rw [lower, lower, lowerAll_congr yes _ h.1, lowerAll_congr no _ h.2]
  | times n body, h => by
      rw [calls] at h
      rw [lower, lower, lowerAll_congr body _ h]
  | call name, h => by
      rw [lower, lower, h name (by simp [calls])]

theorem lowerAll_congr :
    ∀ (bs : List Block) (used : Nat), (∀ name ∈ callsAll bs, expand name = expand' name) →
      lowerAll expand line used bs = lowerAll expand' line used bs
  | [], used, _ => by
      rw [lowerAll, lowerAll]
  | b :: bs, used, h => by
      rw [callsAll, List.forall_mem_append] at h
      have hrest (first : Code) := lowerAll_congr bs (used + first.length) h.2
      simp only [lowerAll, lower_congr b h.1, hrest]

end

end Block

namespace Macros

variable {m k : Macros} {line : Nat} {top : List Block}

/-- A call that is reached is expanded alike, under any stack: the calls in its body are
reached as well, and fewer names are left for them. -/
theorem AgreeOn.expand_eq (h : m.AgreeOn k top) (stack : List String) {name : String}
    (hname : m.Reaches top name) : k.expand line stack name = m.expand line stack name := by
  have hagree := h name hname
  by_cases hstack : name ∈ stack
  · rw [k.expand_of_mem line hstack, m.expand_of_mem line hstack]
  · cases hbody : m.body? name with
    | none =>
        rw [hbody] at hagree
        rw [k.expand_of_undefined line hstack hagree, m.expand_of_undefined line hstack hbody]
    | some body =>
        have hlt := m.length_fresh_lt ((m.isSome_body? name).1 (by simp [hbody])) hstack
        rw [hbody] at hagree
        rw [k.expand_of_body line hstack hagree, m.expand_of_body line hstack hbody]
        refine Block.lowerAll_congr body _ fun called hcalled => ?_
        have hreached := (reaches_of_mem_callsAll body hcalled).of_reached
          (hname.reached_body hbody)
        exact h.expand_eq (stack ++ [name]) hreached
termination_by (m.fresh stack).length

theorem AgreeOn.lower_eq {b : Block} (h : m.AgreeOn k top) (hb : b ∈ top) :
    b.lower (k.expand line []) line = b.lower (m.expand line []) line := by
  refine Block.lower_congr b fun name hname => h.expand_eq [] ?_
  exact (reaches_of_mem_calls b hname).of_mem hb

end Macros

namespace Program

variable {m k : Macros} {p : Program}

theorem compileFrom_eq_of_lower_eq {line used : Nat}
    (h : ∀ b ∈ p, ∀ line, b.lower (k.expand line []) line = b.lower (m.expand line []) line) :
    compileFrom k line used p = compileFrom m line used p := by
  induction p generalizing line used with
  | nil =>
      rfl
  | cons b bs ih =>
      obtain ⟨hb, hbs⟩ := List.forall_mem_cons.1 h
      simp only [compileFrom, hb line, ih hbs]

theorem compile_eq_of_agreeOn (h : m.AgreeOn k p) : p.compile k = p.compile m :=
  compileFrom_eq_of_lower_eq fun _ hb _ => h.lower_eq hb

end Program

/-! ### Sessions with other macros -/

/-- The operations that give a macro another body or none. -/
inductive Operation.Redefines (name : String) : Operation → Prop
  | define {body : List Block} : Redefines name (.define name body)
  | undefine : Redefines name (.undefine name)

namespace Session

variable {s : Session} {op : Operation} {name : String}

/-- Redefining a macro that is not reached keeps the program, and the new table agrees with the old
one on what the program reaches. -/
theorem agreeOn_of_redefines (hop : op.Redefines name)
    (hname : ¬ s.macros.Reaches s.program name) :
    (s.apply op).2.program = s.program ∧ s.macros.AgreeOn (s.apply op).2.macros s.program := by
  cases hop with
  | define =>
      exact ⟨rfl, Macros.agreeOn_define _ hname⟩
  | undefine =>
      cases hbody : s.macros.body? name with
      | none =>
          have hsame : s.apply (.undefine name) = (.ok (.body none), s) := by
            simp only [apply, undefine?, hbody, Option.map_none]
          rw [hsame]
          exact ⟨rfl, fun _ _ => rfl⟩
      | some body =>
          have herased : s.apply (.undefine name)
              = (.ok (.body (some body)), s.setMacros (s.macros.erase name)) := by
            simp only [apply, undefine?, hbody, Option.map_some]
          rw [herased]
          exact ⟨rfl, Macros.agreeOn_erase hname⟩

theorem apply_compile_congr {t : Session}
    (h : t.program.compile t.macros = s.program.compile s.macros) :
    (t.apply .compile).1 = (s.apply .compile).1 ∧
      (t.apply .compile).2.machine.code? = (s.apply .compile).2.machine.code? := by
  cases hcode : s.program.compile s.macros with
  | ok code =>
      rw [hcode] at h
      simp [apply, compile_of_ok hcode, compile_of_ok h]
  | error e =>
      rw [hcode] at h
      simp [apply, compile_of_error hcode, compile_of_error h, unload]

/-- **Macros that are not reached have no influence.**  A program is compiled to the same code,
or refused with the same error, under two tables of macros that agree on the names that it
reaches; and then it reaches the same names under both.  So a session whose macros are edited
under a name that its program does not reach answers to the next compilation as before, and
has the same code afterwards. -/
theorem compile_reads_reached :
    (∀ (p : Program) (m k : Macros), m.AgreeOn k p →
      p.compile k = p.compile m ∧ ∀ name, k.Reaches p name ↔ m.Reaches p name) ∧
    ∀ (s : Session) (op : Operation) (name : String), op.Redefines name →
      ¬ s.macros.Reaches s.program name →
      ((s.apply op).2.apply .compile).1 = (s.apply .compile).1 ∧
        ((s.apply op).2.apply .compile).2.machine.code?
          = (s.apply .compile).2.machine.code? := by
  refine ⟨fun p m k h => ?_, fun s op name hop hname => ?_⟩
  · exact ⟨Program.compile_eq_of_agreeOn h, fun name => h.reaches_iff⟩
  · obtain ⟨hprogram, hagree⟩ := agreeOn_of_redefines hop hname
    refine apply_compile_congr ?_
    rw [hprogram]
    exact Program.compile_eq_of_agreeOn hagree

/-- A body that is never run calls a macro that is missing.  Beside it another macro, which is
not reached, is given a body that calls itself. -/
theorem compile_reads_reached_behind_missing :
    let m : Macros := .ofList [("aside", []), ("back", [.call "left", .call "lost"]),
      ("left", [.act .turnLeft])]
    let k : Macros := .ofList [("back", [.call "left", .call "lost"]), ("left", [.act .turnLeft]),
      ("right", [.call "back"])]
    let p : Program := [.act .move, .choose .frontIsClear [.times 0 [.call "back"]] []]
    let s : Session := ⟨⟨⟨0, 0, .east⟩, ⟨1, 1, #[.empty]⟩⟩, p, m, .idle none⟩
    let op : Operation := .define "aside" [.call "aside"]
    (m.AgreeOn k p ∧ p.compile k = p.compile m ∧ ∀ name, k.Reaches p name ↔ m.Reaches p name) ∧
      p.compile m = .error (.unknownMacro "lost" 1) ∧
      op.Redefines "aside" ∧ ¬ s.macros.Reaches s.program "aside" ∧
      ((s.apply op).2.apply .compile).1 = (s.apply .compile).1 ∧
        ((s.apply op).2.apply .compile).2.machine.code?
          = (s.apply .compile).2.machine.code? := by
  intro m k p s op
  have hreaches : ∀ name, m.Reaches p name → name = "back" ∨ name = "left" ∨ name = "lost" := by
    intro name hname
    have hback : m.body? "back" = some [.call "left", .call "lost"] := by
      unfold m
      cbv
    have hleft : m.body? "left" = some [.act .turnLeft] := by
      unfold m
      cbv
    have hlost : m.body? "lost" = none := by
      unfold m
      cbv
    simpa [p, Macros.reaches_act, Macros.reaches_choose, Macros.reaches_times,
      Macros.reaches_call hback, Macros.reaches_call hleft, Macros.reaches_call_of_undefined hlost,
      Macros.not_reaches_nil, eq_comm] using hname
  have hagree : m.AgreeOn k p := by
    intro name hname
    rcases hreaches name hname with rfl | rfl | rfl <;> (unfold m k; cbv)
  have haside : ¬ m.Reaches p "aside" := fun h => by simpa using hreaches _ h
  have hmissing : p.compile m = .error (.unknownMacro "lost" 1) := by
    unfold p m
    cbv
  obtain ⟨htables, hsessions⟩ := compile_reads_reached
  exact ⟨⟨hagree, htables p m k hagree⟩, hmissing, .define, haside,
    hsessions s op "aside" .define haside⟩

end Session

end GridRobot
