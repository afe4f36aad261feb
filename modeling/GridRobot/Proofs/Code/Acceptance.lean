import Mathlib
import GridRobot.Proofs.Code.Unrolling

/-!
# Which blocks have code

The lowering hands a stack of names down and tests lengths as it goes: after every block,
and before a loop is written out.  What these tests come to is said on the blocks.  Blocks
are lowered inside the macros of a stack exactly when they have code at all, reach no name
of the stack, and reach no list of blocks that is too long.

**Results.**
* `Macros.lowerAll_eq_ok_iff`: when blocks are lowered inside macros, and to which code.
* `Program.compile_eq_ok_iff`: when a program is compiled, and to which code.
* `Program.compiles_iff`: exactly which programs compile, and to what size.
-/

namespace GridRobot

/-- No list of blocks that is reached comes to more instructions than are admitted. -/
def Macros.WithinLimit (m : Macros) (top : List Block) : Prop :=
  ∀ bs n, m.Reached top bs → m.Unrolls bs n → n ≤ maxInstructions

namespace Block

variable {expand : String → Except CompileError Code} {line : Nat}

theorem exists_lower_of_mem {used : Nat} {bs : List Block} {code : Code} {b : Block}
    (h : lowerAll expand line used bs = .ok code) (hb : b ∈ bs) :
    ∃ first, b.lower expand line = .ok first := by
  induction bs generalizing used code with
  | nil =>
      cases hb
  | cons head bs ih =>
      obtain ⟨first, rest, hfirst, _, hrest, _⟩ := lowerAll_cons_eq_ok_iff.1 h
      rcases List.mem_cons.1 hb with rfl | hb
      · exact ⟨first, hfirst⟩
      · exact ih hrest hb

theorem lowerAll_singleton_eq_ok_iff {used : Nat} {b : Block} {code : Code} :
    lowerAll expand line used [b] = .ok code ↔
      b.lower expand line = .ok code ∧ used + code.length ≤ maxInstructions := by
  rw [lowerAll_cons_eq_ok_iff]
  constructor
  · rintro ⟨first, rest, hfirst, hle, hnil, rfl⟩
    cases hnil
    rw [List.append_nil]
    exact ⟨hfirst, hle⟩
  · rintro ⟨hcode, hle⟩
    exact ⟨code, [], hcode, hle, rfl, (List.append_nil code).symm⟩

theorem length_le_of_lowerAll {used : Nat} {bs : List Block} {code : Code}
    (h : lowerAll expand line used bs = .ok code) (hused : used ≤ maxInstructions) :
    used + code.length ≤ maxInstructions := by
  induction bs generalizing used code with
  | nil =>
      cases h
      exact hused
  | cons b bs ih =>
      obtain ⟨first, rest, _, hle, hrest, rfl⟩ := lowerAll_cons_eq_ok_iff.1 h
      rw [List.length_append, ← Nat.add_assoc]
      exact ih hrest hle

end Block

namespace Macros

variable {m : Macros} {line : Nat} {stack : List String} {bs : List Block} {code : Code}

theorem expand_eq_ok_iff {name : String} :
    m.expand line stack name = .ok code ↔
      name ∉ stack ∧
        ∃ body, m.body? name = some body ∧ m.lowerAll line (stack ++ [name]) body = .ok code := by
  by_cases hstack : name ∈ stack
  · simp [m.expand_of_mem line hstack, hstack]
  · cases hbody : m.body? name with
    | none =>
        simp [m.expand_of_undefined line hstack hbody]
    | some body =>
        simp [m.expand_of_body line hstack hbody, hstack]

theorem WithinLimit.size_le {n : Nat} (h : m.WithinLimit bs) (hn : m.Unrolls bs n) :
    n ≤ maxInstructions :=
  h bs n .top hn

/-- First the blocks themselves are short enough, then all that they lead to is. -/
theorem withinLimit_iff :
    m.WithinLimit bs ↔
      (∀ n, m.Unrolls bs n → n ≤ maxInstructions) ∧
        ∀ b ∈ bs, ∀ next, b.Opens m next → m.WithinLimit next := by
  constructor
  · intro h
    refine ⟨fun n => h bs n .top, fun b hb next hnext inner n hinner => h inner n ?_⟩
    exact reached_iff.2 (.inr ⟨b, hb, next, hnext, hinner⟩)
  · rintro ⟨htop, hinside⟩ inner n hinner
    rcases reached_iff.1 hinner with rfl | ⟨b, hb, next, hnext, hreached⟩
    · exact htop n
    · exact hinside b hb next hnext inner n hreached

/-! ### What has been lowered -/

/-- The lists that a lowered block leads to are lowered, inside at least the same macros. -/
theorem exists_lowerAll_of_opens {b : Block} {next : List Block}
    (h : b.lower (m.expand line stack) line = .ok code) (hnext : b.Opens m next) :
    ∃ entered inner, m.lowerAll line (stack ++ entered) next = .ok inner := by
  cases hnext with
  | yes =>
      obtain ⟨ys, _, hys, _, _⟩ := Block.lower_choose_eq_ok_iff.1 h
      exact ⟨[], ys, by rwa [List.append_nil]⟩
  | no =>
      obtain ⟨_, ns, _, hns, _⟩ := Block.lower_choose_eq_ok_iff.1 h
      exact ⟨[], ns, by rwa [List.append_nil]⟩
  | body =>
      obtain ⟨once, honce, _, _⟩ := Block.lower_times_eq_ok_iff.1 h
      exact ⟨[], once, by rwa [List.append_nil]⟩
  | @macroBody name _ hname =>
      obtain ⟨_, body, hbody, hlower⟩ := expand_eq_ok_iff.1 h
      rw [hname] at hbody
      cases hbody
      exact ⟨[name], code, hlower⟩

theorem exists_lowerAll_of_reached {inner : List Block} (h : m.lowerAll line stack bs = .ok code)
    (hinner : m.Reached bs inner) :
    ∃ entered part, m.lowerAll line (stack ++ entered) inner = .ok part := by
  induction hinner with
  | top =>
      exact ⟨[], code, by rwa [List.append_nil]⟩
  | inside _ hb hnext ih =>
      obtain ⟨entered, part, hpart⟩ := ih
      obtain ⟨first, hfirst⟩ := Block.exists_lower_of_mem hpart hb
      obtain ⟨more, rest, hrest⟩ := exists_lowerAll_of_opens hfirst hnext
      exact ⟨entered ++ more, rest, by rwa [← List.append_assoc]⟩

/-- Blocks that are lowered inside macros reach none of these. -/
theorem avoids_of_lowerAll (h : m.lowerAll line stack bs = .ok code) : m.Avoids stack bs := by
  rintro name hname ⟨inner, hinner, hcall⟩
  obtain ⟨entered, part, hpart⟩ := exists_lowerAll_of_reached h hinner
  obtain ⟨first, hfirst⟩ := Block.exists_lower_of_mem hpart hcall
  exact (expand_eq_ok_iff.1 hfirst).1 (List.mem_append_left _ hname)

theorem withinLimit_of_lowerAll (h : m.lowerAll line stack bs = .ok code) : m.WithinLimit bs := by
  intro inner n hinner hn
  obtain ⟨entered, part, hpart⟩ := exists_lowerAll_of_reached h hinner
  have hlength := Block.length_le_of_lowerAll hpart (Nat.zero_le _)
  rw [hn.unique (lowers_of_lowerAll hpart).unrolls, Nat.zero_add] at hlength
  exact hlength

/-! ### What can be lowered -/

/-- Blocks with code are lowered when no test gets in the way.  The tests of the blocks
themselves are on the length together with what comes before. -/
theorem lowerAll_of_lowers (h : Lowers m line bs code) (stack : List String) (used : Nat)
    (hstack : m.Avoids stack bs)
    (hinside : ∀ b ∈ bs, ∀ next, b.Opens m next → m.WithinLimit next)
    (hused : used + code.length ≤ maxInstructions) :
    Block.lowerAll (m.expand line stack) line used bs = .ok code := by
  induction h generalizing stack used with
  | nil =>
      rfl
  | act _ ih =>
      obtain ⟨_, htail⟩ := List.forall_mem_cons.1 hinside
      rw [List.length_cons, Nat.add_comm _ 1, ← Nat.add_assoc] at hused
      have hrest := ih stack (used + 1) hstack.tail htail hused
      exact Block.lowerAll_cons_eq_ok_iff.2
        ⟨[_], _, rfl, Nat.le_of_add_right_le hused, hrest, rfl⟩
  | @choose c yes no _ ys ns rest hyes hno _ ihyes ihno ih =>
      obtain ⟨hhead, htail⟩ := List.forall_mem_cons.1 hinside
      rw [List.length_append] at hused
      have hyesLimit : m.WithinLimit yes := hhead _ .yes
      have hnoLimit : m.WithinLimit no := hhead _ .no
      have hys : m.lowerAll line stack yes = .ok ys :=
        ihyes stack 0 (hstack.of_reached (.inside .top List.mem_cons_self .yes))
          (withinLimit_iff.1 hyesLimit).2 (by simpa using hyesLimit.size_le hyes.unrolls)
      have hns : m.lowerAll line stack no = .ok ns :=
        ihno stack 0 (hstack.of_reached (.inside .top List.mem_cons_self .no))
          (withinLimit_iff.1 hnoLimit).2 (by simpa using hnoLimit.size_le hno.unrolls)
      have hfirst : (Block.choose c yes no).lower (m.expand line stack) line
          = .ok (.choice line c ys ns) :=
        Block.lower_choose_eq_ok_iff.2 ⟨ys, ns, hys, hns, rfl⟩
      have hrest := ih stack (used + (Code.choice line c ys ns).length) hstack.tail htail
        (by omega)
      exact Block.lowerAll_cons_eq_ok_iff.2 ⟨_, rest, hfirst, by omega, hrest, rfl⟩
  | @times n body _ once rest hbody _ ihbody ih =>
      obtain ⟨hhead, htail⟩ := List.forall_mem_cons.1 hinside
      rw [List.length_append] at hused
      have hlimit : m.WithinLimit body := hhead _ .body
      have honce : m.lowerAll line stack body = .ok once :=
        ihbody stack 0 (hstack.of_reached (.inside .top List.mem_cons_self .body))
          (withinLimit_iff.1 hlimit).2 (by simpa using hlimit.size_le hbody.unrolls)
      have hproduct : once.length * n.toNat ≤ maxInstructions := by
        rw [Code.length_repeated, Nat.mul_comm] at hused
        omega
      have hfirst : (Block.times n body).lower (m.expand line stack) line
          = .ok (.repeated n.toNat once) :=
        Block.lower_times_eq_ok_iff.2 ⟨once, honce, hproduct, rfl⟩
      have hrest := ih stack (used + (Code.repeated n.toNat once).length) hstack.tail htail
        (by omega)
      exact Block.lowerAll_cons_eq_ok_iff.2 ⟨_, rest, hfirst, by omega, hrest, rfl⟩
  | @call name body _ inner rest hname hbody _ ihbody ih =>
      obtain ⟨hhead, htail⟩ := List.forall_mem_cons.1 hinside
      rw [List.length_append] at hused
      have hlimit : m.WithinLimit body := hhead _ (.macroBody hname)
      have hfresh : name ∉ stack := fun hmem =>
        hstack name hmem ((reaches_call hname).2 (.inl rfl))
      have hentered : m.Avoids (stack ++ [name]) body :=
        avoids_append_singleton.2
          ⟨hstack.of_reached (.inside .top List.mem_cons_self (.macroBody hname)),
            hbody.unrolls.acyclic.not_reaches_self hname⟩
      have hinner : m.lowerAll line (stack ++ [name]) body = .ok inner :=
        ihbody (stack ++ [name]) 0 hentered
          (withinLimit_iff.1 hlimit).2 (by simpa using hlimit.size_le hbody.unrolls)
      have hfirst : (Block.call name).lower (m.expand line stack) line = .ok inner :=
        expand_eq_ok_iff.2 ⟨hfresh, body, hname, hinner⟩
      have hrest := ih stack (used + inner.length) hstack.tail htail (by omega)
      exact Block.lowerAll_cons_eq_ok_iff.2 ⟨inner, rest, hfirst, by omega, hrest, rfl⟩

/-- Blocks are lowered inside macros exactly when they have code, reach none of these macros
and keep within the limit. -/
theorem lowerAll_eq_ok_iff :
    m.lowerAll line stack bs = .ok code ↔
      Lowers m line bs code ∧ m.Avoids stack bs ∧ m.WithinLimit bs := by
  constructor
  · intro h
    exact ⟨lowers_of_lowerAll h, avoids_of_lowerAll h, withinLimit_of_lowerAll h⟩
  · rintro ⟨hcode, hstack, hlimit⟩
    refine lowerAll_of_lowers hcode stack 0 hstack (withinLimit_iff.1 hlimit).2 ?_
    rw [Nat.zero_add]
    exact hlimit.size_le hcode.unrolls

end Macros

namespace Program

variable {m : Macros} {p : Program} {code : Code}

theorem exists_lower_of_compileFrom {line used : Nat} {b : Block}
    (h : compileFrom m line used p = .ok code) (hb : b ∈ p) :
    ∃ l first, b.lower (m.expand l []) l = .ok first := by
  induction p generalizing line used code with
  | nil =>
      cases hb
  | cons head bs ih =>
      obtain ⟨first, rest, hfirst, _, hrest, _⟩ := compileFrom_cons_eq_ok_iff.1 h
      rcases List.mem_cons.1 hb with rfl | hb
      · exact ⟨line, first, hfirst⟩
      · exact ih hrest hb

theorem length_le_of_compileFrom {line used : Nat} (h : compileFrom m line used p = .ok code)
    (hused : used ≤ maxInstructions) : used + code.length ≤ maxInstructions := by
  induction p generalizing line used code with
  | nil =>
      cases h
      exact hused
  | cons b bs ih =>
      obtain ⟨first, rest, _, hle, hrest, rfl⟩ := compileFrom_cons_eq_ok_iff.1 h
      rw [List.length_append, ← Nat.add_assoc]
      exact ih hrest hle

theorem withinLimit_of_compile (h : p.compile m = .ok code) : m.WithinLimit p := by
  refine Macros.withinLimit_iff.2 ⟨fun n hn => ?_, fun b hb next hnext => ?_⟩
  · have hlength := length_le_of_compileFrom h (Nat.zero_le _)
    rw [hn.unique (lowersFrom_of_compile h).unrolls, Nat.zero_add] at hlength
    exact hlength
  · obtain ⟨line, first, hfirst⟩ := exists_lower_of_compileFrom h hb
    obtain ⟨entered, inner, hinner⟩ := Macros.exists_lowerAll_of_opens hfirst hnext
    exact Macros.withinLimit_of_lowerAll hinner

theorem compileFrom_of_lowersFrom {line : Nat} (h : LowersFrom m line p code) (used : Nat)
    (hinside : ∀ b ∈ p, ∀ next, b.Opens m next → m.WithinLimit next)
    (hused : used + code.length ≤ maxInstructions) : compileFrom m line used p = .ok code := by
  induction h generalizing used with
  | nil =>
      rfl
  | @cons line b _ first rest hfirst _ ih =>
      rw [List.length_append] at hused
      obtain ⟨hhead, htail⟩ := List.forall_mem_cons.1 hinside
      have hone : Block.lowerAll (m.expand line []) line 0 [b] = .ok first := by
        refine Macros.lowerAll_of_lowers hfirst [] 0 (Macros.avoids_nil _) ?_ (by omega)
        simpa using hhead
      obtain ⟨hlower, _⟩ := Block.lowerAll_singleton_eq_ok_iff.1 hone
      exact compileFrom_cons_eq_ok_iff.2
        ⟨first, rest, hlower, by omega, ih _ htail (by omega), rfl⟩

/-- A program is compiled exactly when its blocks have code and keep within the limit. -/
theorem compile_eq_ok_iff :
    p.compile m = .ok code ↔ LowersFrom m 0 p code ∧ m.WithinLimit p := by
  constructor
  · intro h
    exact ⟨lowersFrom_of_compile h, withinLimit_of_compile h⟩
  · rintro ⟨hcode, hlimit⟩
    refine compileFrom_of_lowersFrom hcode 0 (Macros.withinLimit_iff.1 hlimit).2 ?_
    rw [Nat.zero_add]
    exact hlimit.size_le hcode.unrolls

/-- **Exactly which programs compile.**  A program compiles exactly when every name that it
reaches has a body, no macro that it reaches reaches itself, and no list of blocks that it
reaches comes to more instructions than are admitted.  The first two give every list that is
reached a size, and the size of a program that compiles is the length of its code. -/
theorem compiles_iff (p : Program) (m : Macros) :
    ((∃ code, p.compile m = .ok code) ↔ m.AllDefined p ∧ m.Acyclic p ∧ m.WithinLimit p) ∧
      (m.AllDefined p → m.Acyclic p → ∀ bs, m.Reached p bs → ∃! n, m.Unrolls bs n) ∧
      ∀ code, p.compile m = .ok code → m.Unrolls p code.length := by
  refine ⟨⟨?_, ?_⟩, ?_, fun code h => (lowersFrom_of_compile h).unrolls⟩
  · rintro ⟨code, h⟩
    obtain ⟨hcode, hlimit⟩ := compile_eq_ok_iff.1 h
    exact ⟨hcode.unrolls.allDefined, hcode.unrolls.acyclic, hlimit⟩
  · rintro ⟨hdefined, hacyclic, hlimit⟩
    obtain ⟨n, hn⟩ := Macros.exists_unrolls_iff.2 ⟨hdefined, hacyclic⟩
    obtain ⟨code, hcode⟩ := exists_lowersFrom hn 0
    exact ⟨code, compile_eq_ok_iff.2 ⟨hcode, hlimit⟩⟩
  · intro hdefined hacyclic bs hbs
    obtain ⟨n, hn⟩ :=
      Macros.exists_unrolls_iff.2 ⟨hdefined.of_reached hbs, hacyclic.of_reached hbs⟩
    exact ⟨n, hn, fun k hk => hn.unique hk⟩

/-- A square is walked by a macro that calls another one, behind a loop that is never run and
in a branch. -/
theorem compiles_iff_on_square :
    let m : Macros :=
      .ofList [("side", [.times 2 [.act .move], .act .turnLeft]),
        ("square", [.times 4 [.call "side"]])]
    let p : Program := [.times 0 [.call "side"], .choose .frontIsClear [.call "square"] []]
    (m.AllDefined p ∧ m.Acyclic p ∧ m.WithinLimit p) ∧
      (∀ bs, m.Reached p bs → ∃! n, m.Unrolls bs n) ∧ m.Unrolls p 14 := by
  intro m p
  let side : Code := [⟨1, .act .move⟩, ⟨1, .act .move⟩, ⟨1, .act .turnLeft⟩]
  have hcode : p.compile m = .ok (.choice 1 .frontIsClear (.repeated 4 side) []) := by
    unfold p m side
    cbv
  obtain ⟨hiff, hsizes, hsize⟩ := compiles_iff p m
  obtain ⟨hdefined, hacyclic, hlimit⟩ := hiff.1 ⟨_, hcode⟩
  exact ⟨⟨hdefined, hacyclic, hlimit⟩, hsizes hdefined hacyclic, hsize _ hcode⟩

end Program

end GridRobot
