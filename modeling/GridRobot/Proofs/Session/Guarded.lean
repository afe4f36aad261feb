import GridRobot.Proofs.Machine.Meaning
import GridRobot.Proofs.Program.References
import GridRobot.Proofs.Scene.Deeds
import GridRobot.Proofs.Session.Safety

/-!
# Guarded programs never fail

Two actions can be refused to a robot on an open cell: the step forward and the taking of a
beeper.  For each there is a condition that holds exactly when it is carried out, and one that
holds exactly when it is refused.  A program is guarded when these actions stand only at the
head of a branch whose condition has just been answered in their favour.  Nothing is done
between the answer and the head of the branch, so no action of a guarded program is refused.

The statement is shown on the evaluation of blocks; the code that they are lowered to does the
same.

**Results.**
* `Scene.holds_frontIsClear_iff`, `Scene.Sound.holds_beepersPresent_iff`: the conditions say
  exactly when the actions are carried out.
* `Macros.Evaluates.unhindered`: the evaluation of guarded blocks is not refused anything.
* `Session.Reachable.completes_of_guarded`: guarded programs run to completion.
-/

namespace GridRobot

/-- Whether an action can be refused to a robot on an open cell. -/
def Action.refusable : Action → Bool
  | move => true
  | pickUp => true
  | putDown => false
  | turnLeft => false
  | turnRight => false

/-- The action that is sure to be carried out right after an answer to a condition. -/
def Condition.enables : Condition → (answer : Bool) → Option Action
  | frontIsClear, true => some .move
  | frontIsBlocked, false => some .move
  | beepersPresent, true => some .pickUp
  | noBeepersPresent, false => some .pickUp
  | _, _ => none

namespace Block

mutual

/-- Actions that can be refused stand in a block only where a condition enables them. -/
def Guarded : Block → Prop
  | act a => a.refusable = false
  | choose c yes no => AllGuarded (c.enables true) yes ∧ AllGuarded (c.enables false) no
  | times _ body => AllGuarded none body
  | call _ => True

/-- The same for a list of blocks, the first of which may be an action that is enabled. -/
def AllGuarded : (enabled : Option Action) → List Block → Prop
  | _, [] => True
  | enabled, b :: bs => (b.Guarded ∨ ∃ a, enabled = some a ∧ b = act a) ∧ AllGuarded none bs

end

theorem allGuarded_none_iff {bs : List Block} : AllGuarded none bs ↔ ∀ b ∈ bs, b.Guarded := by
  induction bs with
  | nil => simp [AllGuarded]
  | cons b bs ih => simp [AllGuarded, ih]

theorem allGuarded_copies {body : List Block} (h : AllGuarded none body) (n : Nat) :
    AllGuarded none (List.replicate n body).flatten := by
  rw [allGuarded_none_iff] at h ⊢
  intro b hb
  obtain ⟨copy, hcopy, hb⟩ := List.mem_flatten.1 hb
  exact h b (List.eq_of_mem_replicate hcopy ▸ hb)

end Block

/-! ### What conditions say about actions -/

namespace Scene

variable {s : Scene} {a : Action}

theorem holds_frontIsClear_iff :
    s.holds .frontIsClear = true ↔ ∃ t, s.perform .move = .ok t := by
  cases hfront : s.frontBlocked <;> simp [holds, perform, move, hfront]

theorem Sound.holds_beepersPresent_iff (hs : s.Sound) :
    s.holds .beepersPresent = true ↔ ∃ t, s.perform .pickUp = .ok t := by
  obtain ⟨i, hi, _⟩ := Robot.fits_iff.1 hs.fits
  rw [perform_pickUp hi, holds, beepersHere_eq hi]
  by_cases hpile : (s.world.stored i).pile = 0 <;> simp [hpile]

theorem Sound.exists_perform (hs : s.Sound) (ha : a.refusable = false) :
    ∃ t, s.perform a = .ok t := by
  obtain ⟨i, hi, _⟩ := Robot.fits_iff.1 hs.fits
  cases a with
  | move => cases ha
  | pickUp => cases ha
  | putDown => exact ⟨_, perform_putDown hi⟩
  | turnLeft => exact ⟨_, s.perform_turnLeft⟩
  | turnRight => exact ⟨_, s.perform_turnRight⟩

/-- An action is carried out when the answer to a condition enables it. -/
theorem Sound.exists_perform_of_enables (hs : s.Sound) {c : Condition}
    (h : c.enables (s.holds c) = some a) : ∃ t, s.perform a = .ok t := by
  cases c with
  | frontIsClear =>
      cases hc : s.holds .frontIsClear <;> rw [hc] at h <;> cases h
      exact holds_frontIsClear_iff.1 hc
  | frontIsBlocked =>
      cases hc : s.holds .frontIsBlocked <;> rw [hc] at h <;> cases h
      rw [holds_frontIsBlocked, Bool.not_eq_false'] at hc
      exact holds_frontIsClear_iff.1 hc
  | beepersPresent =>
      cases hc : s.holds .beepersPresent <;> rw [hc] at h <;> cases h
      exact hs.holds_beepersPresent_iff.1 hc
  | noBeepersPresent =>
      cases hc : s.holds .noBeepersPresent <;> rw [hc] at h <;> cases h
      rw [holds_noBeepersPresent, Bool.not_eq_false'] at hc
      exact hs.holds_beepersPresent_iff.1 hc
  | facing d =>
      cases h

end Scene

/-! ### The evaluation of guarded blocks -/

/-- Nothing has been refused so far, and the robot stands on an open cell. -/
structure Evaluation.Unhindered (e : Evaluation) : Prop where
  sound : e.scene.Sound
  not_refused : e.refusal = none

theorem Evaluation.Unhindered.attempt {e : Evaluation} (he : e.Unhindered) {a : Action}
    (ha : ∃ t, e.scene.perform a = .ok t) (line : Nat) : (e.attempt line a).Unhindered := by
  obtain ⟨t, ht⟩ := ha
  have hsound : t.Sound := (he.sound.edit_of_perform ht).sound he.sound
  have hattempt : e.attempt line a = ⟨t, e.attempts ++ [(line, a)], none⟩ := by
    rw [Evaluation.attempt, ht]
  rw [hattempt]
  exact ⟨hsound, rfl⟩

/-- The bodies of all macros that are reached are guarded. -/
def Macros.BodiesGuarded (m : Macros) (top : List Block) : Prop :=
  ∀ name body, m.Reaches top name → m.body? name = some body → Block.AllGuarded none body

/-- The evaluation of guarded blocks is not refused anything.  The blocks lie in lists that are
reached, so that the bodies of their calls are guarded; the first of them may be an action that
has just been enabled. -/
theorem Macros.Evaluates.unhindered {m : Macros} {line : Nat} {top bs : List Block}
    {e last : Evaluation} (hbodies : m.BodiesGuarded top) (h : m.Evaluates line bs e last)
    {enabled : Option Action} (hbs : ∀ b ∈ bs, ∃ inner, m.Reached top inner ∧ b ∈ inner)
    (hguarded : Block.AllGuarded enabled bs)
    (henabled : ∀ a, enabled = some a → ∃ t, e.scene.perform a = .ok t)
    (he : e.Unhindered) : last.Unhindered := by
  have hnone {e : Evaluation} : ∀ a, none = some a → ∃ t, e.scene.perform a = .ok t := by simp
  induction h generalizing enabled with
  | nil =>
      exact he
  | refused _ =>
      exact he
  | act _ _ ih =>
      obtain ⟨hfirst, hrest⟩ := hguarded
      obtain ⟨_, htail⟩ := List.forall_mem_cons.1 hbs
      refine ih htail hrest hnone (he.attempt ?_ line)
      rcases hfirst with hact | ⟨a, ha, hact⟩
      · exact he.sound.exists_perform hact
      · cases hact
        exact henabled _ ha
  | @choose c yes no _ e _ _ _ _ _ ihbranch ih =>
      obtain ⟨hfirst, hrest⟩ := hguarded
      obtain ⟨⟨inner, hinner, hb⟩, htail⟩ := List.forall_mem_cons.1 hbs
      obtain ⟨hyes, hno⟩ : (Block.choose c yes no).Guarded := by simpa using hfirst
      have hanswer : ∀ a, c.enables (e.scene.holds c) = some a → ∃ t, e.scene.perform a = .ok t :=
        fun a ha => he.sound.exists_perform_of_enables ha
      refine ih htail hrest hnone (ihbranch ?_ ?_ hanswer he)
      · cases e.scene.holds c with
        | true => exact fun b hyes => ⟨yes, hinner.inside hb .yes, hyes⟩
        | false => exact fun b hno => ⟨no, hinner.inside hb .no, hno⟩
      · cases e.scene.holds c with
        | true => exact hyes
        | false => exact hno
  | @times n body _ _ _ _ _ _ _ ihbody ih =>
      obtain ⟨hfirst, hrest⟩ := hguarded
      obtain ⟨⟨inner, hinner, hb⟩, htail⟩ := List.forall_mem_cons.1 hbs
      have hbody : (Block.times n body).Guarded := by simpa using hfirst
      refine ih htail hrest hnone
        (ihbody (fun b hcopies => ?_) (Block.allGuarded_copies hbody _) hnone he)
      obtain ⟨copy, hcopy, hmem⟩ := List.mem_flatten.1 hcopies
      exact ⟨body, hinner.inside hb .body, List.eq_of_mem_replicate hcopy ▸ hmem⟩
  | @call name body _ _ _ _ _ hname _ _ ihbody ih =>
      obtain ⟨_, hrest⟩ := hguarded
      obtain ⟨⟨inner, hinner, hb⟩, htail⟩ := List.forall_mem_cons.1 hbs
      have hreached : m.Reached top body := hinner.inside hb (.macroBody hname)
      exact ih htail hrest hnone (ihbody (fun b hmem => ⟨body, hreached, hmem⟩)
        (hbodies name body ⟨inner, hinner, hb⟩ hname) hnone he)

theorem Program.EvaluatesFrom.unhindered {m : Macros} {line : Nat} {top p : Program}
    {e last : Evaluation} (hbodies : m.BodiesGuarded top) (h : EvaluatesFrom m line p e last)
    (hp : ∀ b ∈ p, b ∈ top ∧ b.Guarded) (he : e.Unhindered) : last.Unhindered := by
  have hnone {e : Evaluation} : ∀ a, none = some a → ∃ t, e.scene.perform a = .ok t := by simp
  induction h with
  | nil =>
      exact he
  | refused _ =>
      exact he
  | @cons _ b _ _ _ _ _ hfirst _ ih =>
      obtain ⟨⟨hb, hguarded⟩, hrest⟩ := List.forall_mem_cons.1 hp
      refine ih hrest (hfirst.unhindered hbodies ?_ ?_ hnone he)
      · exact List.forall_mem_singleton.2 ⟨top, .top, hb⟩
      · exact Block.allGuarded_none_iff.2 (List.forall_mem_singleton.2 hguarded)

/-! ### Runs of guarded programs -/

/-- A machine without a step limit completes the code of a guarded program. -/
theorem Machine.runToEnd_of_guarded {p : Program} {m : Macros} {code : Code}
    (hcode : p.compile m = .ok code) (hp : Block.AllGuarded none p) (hm : m.BodiesGuarded p)
    {k : Machine} (hlimit : k.maxSteps = none) {s : Scene} (hs : s.Sound) :
    ((k.load code).runToEnd s).1 = .ok .completed := by
  obtain ⟨e, he, hfollows⟩ :=
    (Program.lowersFrom_of_compile hcode).follows (.start s) 0 rfl code.at_self
  have hblocks : ∀ b ∈ p, b ∈ p ∧ b.Guarded := fun b hb => ⟨hb, Block.allGuarded_none_iff.1 hp b hb⟩
  have hdone := (he.unhindered hm hblocks ⟨hs, rfl⟩).not_refused
  have hload : k.load code = ⟨none, some (.start code)⟩ := by
    rw [Machine.load, hlimit]
  rw [Nat.zero_add] at hfollows
  cases hfollows with
  | @through t events hpath =>
      obtain ⟨n, r, hends, _⟩ :=
        Run.ends_completed (r := .start code) (by simpa [Run.start] using hpath) rfl
      rw [hload]
      exact congrArg Prod.fst hends.runToEnd_eq
  | stuck hpath hi ha =>
      cases hdone

namespace Session

/-- **Guarded programs never fail.**  When the program of a session and the bodies of all macros
that it reaches are guarded, it runs to completion once it is compiled, in whatever world and
from whatever place, unless there is a limit on its steps. -/
theorem Reachable.completes_of_guarded {s : Session} (h : s.Reachable)
    (hlimit : s.machine.maxSteps = none) (hprogram : Block.AllGuarded none s.program)
    (hmacros : s.macros.BodiesGuarded s.program) {n : Nat} (hcompile : s.compile.1 = .ok n) :
    s.compile.2.run.1 = .ok .completed := by
  cases hcode : s.program.compile s.macros with
  | ok code =>
      rw [compile_of_ok hcode]
      exact Machine.runToEnd_of_guarded hcode hprogram hmacros hlimit h.sound
  | error e =>
      rw [compile_of_error hcode] at hcompile
      cases hcompile

/-- On a strip of three cells with a wall behind, the robot walks up and down and takes up the
beeper that it finds, as far as the conditions let it. -/
theorem completes_of_guarded_on_strip :
    let first : Session :=
      ⟨⟨⟨0, 0, .east⟩, ⟨3, 1, #[.empty, .empty, .empty]⟩⟩, [], .empty, .idle none⟩
    let clean : List Block := [.choose .noBeepersPresent [] [.act .pickUp, .act .turnLeft]]
    let around : List Block := [.act .turnRight, .call "clean", .act .putDown]
    let s := first.after
      [.setCell 1 0 (.beepers 1), .setCell 2 0 .wall, .define "clean" clean,
        .push (.times 3 [.choose .frontIsBlocked around [.act .move, .call "clean"]])]
    s.Reachable ∧ s.machine.maxSteps = none ∧ Block.AllGuarded none s.program ∧
      s.macros.BodiesGuarded s.program ∧ s.compile.1 = .ok 39 ∧
      s.compile.2.run.1 = .ok .completed := by
  intro first clean around s
  have hnew : Session.new 3 1 = .ok first := by cbv
  have hreach : s.Reachable := (Reachable.made (.new hnew)).after _
  have hlimit : s.machine.maxSteps = none := by
    unfold s first
    cbv
  have hprogram : s.program
      = [.times 3 [.choose .frontIsBlocked around [.act .move, .call "clean"]]] := by
    unfold s first
    cbv
  have hguarded : Block.AllGuarded none s.program := by
    rw [hprogram]
    simp [around, Block.AllGuarded, Block.Guarded, Condition.enables, Action.refusable]
  have hentries : s.macros.entries = [("clean", clean)] := by
    unfold s first
    cbv
  have hbodies : s.macros.BodiesGuarded s.program := by
    intro name body _ hbody
    rw [Macros.body?, hentries] at hbody
    have hclean : body = clean := by
      by_cases hname : name = "clean"
      · simpa [List.lookup_cons, hname] using hbody.symm
      · simp [List.lookup_cons, beq_false_of_ne hname] at hbody
    rw [hclean]
    simp [clean, Block.AllGuarded, Block.Guarded, Condition.enables, Action.refusable]
  have hcompile : s.compile.1 = .ok 39 := by
    unfold s first around clean
    cbv
  exact ⟨hreach, hlimit, hguarded, hbodies, hcompile,
    hreach.completes_of_guarded hlimit hguarded hbodies hcompile⟩

end Session

end GridRobot
