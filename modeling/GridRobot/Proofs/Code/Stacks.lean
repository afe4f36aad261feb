import Mathlib
import GridRobot.Code.Stack
import GridRobot.Proofs.Code.Acceptance

/-!
# What stacks of names do

The bodies of macros may call each other in any way, in circles too, and the lowering enters body
after body all the same.  What makes it come back is the stack: a name is put on it only if it has a
body and is not there yet, so there are never more names on it than macros, beyond those with which
it began.  Every way back, with code or with an error from whatever depth, takes off what was put on
on the way in.

What is on the stack decides whether blocks have code and never which.  Code that is found under a
stack is found under every stack with fewer names, and code that is found under fewer names is lost
under more of them exactly when one of these is reached.

**Results.**
* `Lowering.Returns.bind`: lowerings that leave the stack alone do so one after the other.
* `Macros.returns_lowerAllOn`, `Macros.returns_replace`: blocks and calls come back on one stack
  with the result that they have when the names are handed down.
* `Macros.enter_restores_stack`: the stack is the same afterwards, and in between it is deeper by no
  more names than there are macros.
* `Macros.stack_decides_acceptance`: what more names or fewer on the stack do.
-/

namespace GridRobot

namespace Macros

variable {m : Macros} {stack deeper : List String} {name : String}

/-- A stack goes on from another one with names of macros, each of them new. -/
def Deepens (m : Macros) (stack deeper : List String) : Prop :=
  ∃ names, deeper = stack ++ names ∧ names.Nodup ∧ ∀ name ∈ names, name ∈ m.names ∧ name ∉ stack

theorem deepens_self (m : Macros) (stack : List String) : m.Deepens stack stack :=
  ⟨[], by simp⟩

/-- What is deeper than a stack with one more macro is deeper than this stack. -/
theorem Deepens.of_push (h : m.Deepens (stack ++ [name]) deeper) (hname : name ∈ m.names)
    (hstack : name ∉ stack) : m.Deepens stack deeper := by
  obtain ⟨names, rfl, hnodup, hnames⟩ := h
  refine ⟨name :: names, by simp, List.nodup_cons.2 ⟨fun hmem => ?_, hnodup⟩,
    List.forall_mem_cons.2 ⟨⟨hname, hstack⟩, fun other hother => ?_⟩⟩
  · exact (hnames name hmem).2 (List.mem_append_right _ List.mem_cons_self)
  · obtain ⟨hmem, hnew⟩ := hnames other hother
    exact ⟨hmem, fun hold => hnew (List.mem_append_left _ hold)⟩

end Macros

namespace Lowering

variable {α β : Type} {m : Macros} {stack : List String}

/-- Begun with a stack, a lowering comes back with the result and leaves the stack as it found it.
The lists of blocks that are entered meanwhile find deeper stacks. -/
def Returns (m : Macros) (stack : List String) (act : Lowering α)
    (result : Except CompileError α) : Prop :=
  ∀ before, ∃ nested, act.run ⟨stack, before⟩ = some (result, ⟨stack, nested ++ before⟩) ∧
    ∀ s ∈ nested, m.Deepens stack s

theorem returns_pure (a : α) : Returns m stack (pure a) (pure a) :=
  fun before => ⟨[], run_pure a ⟨stack, before⟩, by simp⟩

theorem returns_throw (e : CompileError) : Returns m stack (throw e : Lowering α) (throw e) :=
  fun before => ⟨[], run_throw e ⟨stack, before⟩, by simp⟩

theorem Returns.bind {act : Lowering α} {result : Except CompileError α}
    {next : α → Lowering β} {nextResult : α → Except CompileError β}
    (hact : Returns m stack act result)
    (hnext : ∀ a, Returns m stack (next a) (nextResult a)) :
    Returns m stack (act >>= next) (result >>= nextResult) := by
  intro before
  obtain ⟨nested, hrun, hnested⟩ := hact before
  cases result with
  | error e =>
      refine ⟨nested, ?_, hnested⟩
      rw [run_bind, hrun]
      rfl
  | ok a =>
      obtain ⟨more, hrun', hmore⟩ := hnext a (nested ++ before)
      refine ⟨more ++ nested, ?_, List.forall_mem_append.2 ⟨hmore, hnested⟩⟩
      rw [run_bind, hrun, List.append_assoc]
      exact hrun'

theorem Returns.entering {act : Lowering α} {result : Except CompileError α}
    (h : Returns m stack act result) : Returns m stack act.entering result := by
  intro before
  obtain ⟨nested, hrun, hnested⟩ := h (stack :: before)
  refine ⟨nested ++ [stack], ?_, List.forall_mem_append.2 ⟨hnested, ?_⟩⟩
  · rw [run_entering, hrun, List.append_assoc, List.singleton_append]
  · simpa using m.deepens_self stack

/-- A name is put on the stack and taken off again, and what is entered in between is deeper. -/
theorem Returns.pushing {act : Lowering α} {result : Except CompileError α} {name : String}
    (h : Returns m (stack ++ [name]) act result) (hname : name ∈ m.names) (hstack : name ∉ stack) :
    Returns m stack (pushing name act) result := by
  intro before
  obtain ⟨nested, hrun, hnested⟩ := h before
  refine ⟨nested, ?_, fun s hs => (hnested s hs).of_push hname hstack⟩
  rw [run_pushing, hrun, Option.map_some]
  simp only [List.dropLast_concat]

theorem Returns.ite {c : Prop} [Decidable c] {yes no : Lowering α}
    {yesResult noResult : Except CompileError α} (hyes : Returns m stack yes yesResult)
    (hno : Returns m stack no noResult) :
    Returns m stack (if c then yes else no) (if c then yesResult else noResult) := by
  split
  · exact hyes
  · exact hno

end Lowering

namespace Macros

open Lowering (Returns returns_pure returns_throw)

variable {m : Macros} {line depth : Nat} {stack : List String}

mutual

/-- A block leaves the stack alone if the calls in it do. -/
theorem returns_lowerOn
    (hcall : ∀ name, Returns m stack (m.replace line depth name) (m.expand line stack name)) :
    ∀ b : Block,
      Returns m stack (b.lowerOn (m.replace line depth) line) (b.lower (m.expand line stack) line)
  | .act a => by
      rw [Block.lowerOn, Block.lower]
      exact returns_pure _
  | .choose c yes no => by
      rw [Block.lowerOn, Block.lower]
      exact (returns_lowerAllOn hcall yes 0).entering.bind fun ys =>
        (returns_lowerAllOn hcall no 0).entering.bind fun ns => returns_pure _
  | .times n body => by
      rw [Block.lowerOn, Block.lower]
      exact (returns_lowerAllOn hcall body 0).entering.bind fun once =>
        (returns_pure _).ite (returns_throw _)
  | .call name => by
      rw [Block.lowerOn, Block.lower]
      exact hcall name

theorem returns_lowerAllOn
    (hcall : ∀ name, Returns m stack (m.replace line depth name) (m.expand line stack name)) :
    ∀ (bs : List Block) (used : Nat),
      Returns m stack (Block.lowerAllOn (m.replace line depth) line used bs)
        (Block.lowerAll (m.expand line stack) line used bs)
  | [], used => by
      rw [Block.lowerAllOn, Block.lowerAll]
      exact returns_pure _
  | b :: bs, used => by
      rw [Block.lowerAllOn, Block.lowerAll]
      exact (returns_lowerOn hcall b).bind fun first =>
        ((returns_lowerAllOn hcall bs (used + first.length)).bind fun rest =>
          returns_pure _).ite (returns_throw _)

end

theorem returns_pushing_enter {name : String} {body : List Block} (hstack : name ∉ stack)
    (hbody : m.body? name = some body)
    (h : Returns m (stack ++ [name]) (m.enter line depth body)
      (m.lowerAll line (stack ++ [name]) body)) :
    Returns m stack (m.replace line (depth + 1) name) (m.expand line stack name) := by
  have hname : name ∈ m.names := (m.isSome_body? name).1 (by simp [hbody])
  rw [m.expand_of_body line hstack hbody]
  intro before
  rw [m.run_replace_of_body line hstack hbody]
  exact h.pushing hname hstack before

/-- A call leaves the stack alone.  Its body is entered with one name more on the stack, so one
macro less is left that can be entered from there; this is why calls in a circle come back. -/
theorem returns_replace {depth : Nat} {stack : List String}
    (hdepth : (m.fresh stack).length ≤ depth) (name : String) :
    Returns m stack (m.replace line depth name) (m.expand line stack name) := by
  by_cases hstack : name ∈ stack
  · rw [m.expand_of_mem line hstack]
    exact fun before => ⟨[], m.run_replace_of_mem line hstack, by simp⟩
  · cases hbody : m.body? name with
    | none =>
        rw [m.expand_of_undefined line hstack hbody]
        exact fun before => ⟨[], m.run_replace_of_undefined line hstack hbody, by simp⟩
    | some body =>
        have hlt := m.length_fresh_lt ((m.isSome_body? name).1 (by simp [hbody])) hstack
        cases depth with
        | zero =>
            -- there is a macro left that is not on the stack, so the depth admits one body more
            omega
        | succ depth =>
            refine returns_pushing_enter hstack hbody (Returns.entering ?_)
            exact returns_lowerAllOn (fun called => returns_replace (by omega) called) body 0
termination_by depth

/-- **The stack is restored.**  Take any table of macros, cyclic or incomplete, any blocks, and a
stack without repetition.  With as many bodies one inside the other as there are macros, or more,
the lowering on this stack does not give up: it comes back with the code or the error of the
lowering that hands the names down, and the stack is what it was.  Every list of blocks that is
entered inside finds a stack without repetition which goes on from the first one by names of macros,
by no more than there are. -/
theorem enter_restores_stack (m : Macros) (line : Nat) (bs : List Block) {stack : List String}
    (hstack : stack.Nodup) {depth : Nat} (hdepth : m.size ≤ depth) :
    ∃ nested,
      (m.enter line depth bs).run ⟨stack, []⟩
        = some (m.lowerAll line stack bs, ⟨stack, nested ++ [stack]⟩) ∧
      ∀ s ∈ nested, ∃ names, s = stack ++ names ∧ s.Nodup ∧ (∀ name ∈ names, name ∈ m.names) ∧
        names.length ≤ m.size := by
  have hfresh : (m.fresh stack).length ≤ depth := by
    refine Nat.le_trans (List.length_filter_le _ _) ?_
    rwa [names, List.length_map]
  obtain ⟨nested, hrun, hnested⟩ := returns_lowerAllOn (returns_replace hfresh) bs 0 [stack]
  refine ⟨nested, ?_, fun s hs => ?_⟩
  · rw [enter, Lowering.run_entering, hrun]
    rfl
  · obtain ⟨names, rfl, hnodup, hnames⟩ := hnested s hs
    refine ⟨names, rfl, ?_, fun name hname => (hnames name hname).1, ?_⟩
    · refine List.nodup_append'.2 ⟨hstack, hnodup, fun name hold hnew => ?_⟩
      exact (hnames name hnew).2 hold
    · have hsub : names ⊆ m.names := fun name hname => (hnames name hname).1
      simpa [Macros.names, size] using (hnodup.subperm hsub).length_le

/-- Two macros call each other, in a branch and behind a loop.  The circle is found inside both
bodies, and the name that was on the stack before is still there alone. -/
theorem enter_restores_stack_after_circle :
    let m : Macros := .ofList [("back", [.times 2 [.act .move], .call "forth"]),
      ("forth", [.choose .frontIsClear [] [.call "back"]])]
    let bs : List Block := [.act .turnLeft, .call "back"]
    ["outer"].Nodup ∧ m.size ≤ 2 ∧
      ∃ nested,
        (m.enter 7 2 bs).run ⟨["outer"], []⟩
          = some (.error (.macroCycle ["back", "forth", "back"]),
            ⟨["outer"], nested ++ [["outer"]]⟩) ∧
        ∀ s ∈ nested, ∃ names, s = ["outer"] ++ names ∧ s.Nodup ∧
          (∀ name ∈ names, name ∈ m.names) ∧ names.length ≤ m.size := by
  intro m bs
  have hstack : ["outer"].Nodup := by decide
  have hsize : m.size ≤ 2 := by decide
  have hresult : m.lowerAll 7 ["outer"] bs = .error (.macroCycle ["back", "forth", "back"]) := by
    unfold m bs
    cbv
  obtain ⟨nested, hrun, hnested⟩ := enter_restores_stack m 7 bs hstack hsize
  rw [hresult] at hrun
  exact ⟨hstack, hsize, nested, hrun, hnested⟩

/-! ### More names and fewer -/

/-- **The stack decides acceptance only.**  Let all names of one stack be on another one.  Code that
is found under the larger stack is found under the smaller one.  If there is code under the smaller
stack, then there is code under the larger one exactly when the blocks reach none of its names.  So
stacks with the same names, in whatever order and however often, give the same code. -/
theorem stack_decides_acceptance (m : Macros) (line : Nat) (bs : List Block)
    {stack larger : List String} (h : stack ⊆ larger) :
    (∀ code, m.lowerAll line larger bs = .ok code → m.lowerAll line stack bs = .ok code) ∧
    ((∃ code, m.lowerAll line stack bs = .ok code) →
      ((∃ code, m.lowerAll line larger bs = .ok code) ↔
        ∀ name ∈ larger, ¬ m.Reaches bs name)) ∧
    (larger ⊆ stack →
      ∀ code, m.lowerAll line larger bs = .ok code ↔ m.lowerAll line stack bs = .ok code) := by
  have hfewer : ∀ {S T : List String}, S ⊆ T → ∀ code,
      m.lowerAll line T bs = .ok code → m.lowerAll line S bs = .ok code := by
    intro S T hsub code hcode
    obtain ⟨hlowers, havoids, hlimit⟩ := lowerAll_eq_ok_iff.1 hcode
    exact lowerAll_eq_ok_iff.2 ⟨hlowers, fun name hname => havoids name (hsub hname), hlimit⟩
  refine ⟨hfewer h, ?_, fun h' code => ⟨hfewer h code, hfewer h' code⟩⟩
  rintro ⟨code, hcode⟩
  obtain ⟨hlowers, _, hlimit⟩ := lowerAll_eq_ok_iff.1 hcode
  constructor
  · rintro ⟨other, hother⟩
    exact avoids_of_lowerAll hother
  · intro havoids
    exact ⟨code, lowerAll_eq_ok_iff.2 ⟨hlowers, havoids, hlimit⟩⟩

/-- A macro that calls another one twice is lowered beside two other names, and so it is beside one
of them, or beside both in another order.  Beside the name of the macro that it calls it is not. -/
theorem stack_decides_acceptance_of_walk :
    let m : Macros := .ofList [("step", [.act .move]), ("walk", [.call "step", .call "step"])]
    let bs : List Block := [.times 2 [.call "walk"]]
    let code : Code := .repeated 4 [⟨3, .act .move⟩]
    (["left"] ⊆ ["right", "left"] ∧ m.lowerAll 3 ["right", "left"] bs = .ok code ∧
      m.lowerAll 3 ["left"] bs = .ok code) ∧
    (["left"] ⊆ ["step", "left"] ∧ (¬ ∃ code, m.lowerAll 3 ["step", "left"] bs = .ok code) ∧
      ¬ ∀ name ∈ ["step", "left"], ¬ m.Reaches bs name) ∧
    (["right", "left"] ⊆ ["left", "right", "left"] ∧ ["left", "right", "left"] ⊆ ["right", "left"] ∧
      m.lowerAll 3 ["left", "right", "left"] bs = .ok code) := by
  intro m bs code
  have hfewer : ["left"] ⊆ ["right", "left"] := by decide
  have hfewer' : ["left"] ⊆ ["step", "left"] := by decide
  have hsame : ["right", "left"] ⊆ ["left", "right", "left"] := by decide
  have hsame' : ["left", "right", "left"] ⊆ ["right", "left"] := by decide
  have hcode : m.lowerAll 3 ["right", "left"] bs = .ok code := by
    unfold m bs code
    cbv
  have herror : m.lowerAll 3 ["step", "left"] bs
      = .error (.macroCycle ["step", "left", "walk", "step"]) := by
    unfold m bs
    cbv
  have hsmaller := (stack_decides_acceptance m 3 bs hfewer).1 code hcode
  have hnone : ¬ ∃ code, m.lowerAll 3 ["step", "left"] bs = .ok code := by
    rintro ⟨other, hother⟩
    rw [herror] at hother
    cases hother
  obtain ⟨_, hiff, _⟩ := stack_decides_acceptance m 3 bs hfewer'
  obtain ⟨_, _, hagree⟩ := stack_decides_acceptance m 3 bs hsame
  exact ⟨⟨hfewer, hcode, hsmaller⟩, ⟨hfewer', hnone, mt (hiff ⟨code, hsmaller⟩).2 hnone⟩,
    hsame, hsame', (hagree hsame' code).2 hcode⟩

end Macros

end GridRobot
