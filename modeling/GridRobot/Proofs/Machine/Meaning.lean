import Mathlib
import GridRobot.Proofs.Code.Derivation
import GridRobot.Proofs.Code.Evaluation
import GridRobot.Proofs.Machine.Leads

/-!
# Code means what its blocks mean

The code of a list of blocks, wherever it stands inside larger code, follows the
evaluation of the blocks: it is left at its end in the scene that the evaluation
reaches, or it is stuck at an instruction whose action is refused there.  Both
attempt the same actions in the same order.  The statement speaks of any place in
any code, so that it applies to the branches of a choice, to the copies of the body
of a loop and to the code of macros alike.

**Results.**
* `Lowers.follows`: the code of blocks follows their evaluation.
* `Program.runToEnd_of_compile`: a machine that runs the code of a program does what
  the program means.
-/

namespace GridRobot

/-- From index `ip` the code does what an evaluation does that leads from `e` to another one:
it gets to the index `exit`, or stays at the action that is refused. -/
inductive Code.Follows (code : Code) (ip : Nat) (e : Evaluation) (exit : Nat) :
    Evaluation → Prop
  | through {t : Scene} {events : List Event}
      (hpath : code.Leads ip e.scene events exit t) :
      Follows code ip e exit ⟨t, e.attempts ++ events.filterMap Event.attempt?, none⟩
  | stuck {t : Scene} {events : List Event} {pos line : Nat} {a : Action}
      {cause : ActionError}
      (hpath : code.Leads ip e.scene events pos t)
      (hi : code[pos]? = some ⟨line, .act a⟩)
      (ha : t.perform a = .error cause) :
      Follows code ip e exit
        ⟨t, e.attempts ++ events.filterMap Event.attempt? ++ [(line, a)], some (line, cause)⟩

namespace Code

variable {code : Code} {ip mid exit : Nat} {e next last : Evaluation}

theorem Follows.here (he : e.refusal = none) : code.Follows ip e ip e := by
  obtain ⟨s, attempts, refusal⟩ := e
  cases he
  have h : code.Follows ip ⟨s, attempts, none⟩ ip ⟨s, attempts ++ [], none⟩ := .through .here
  rwa [List.append_nil] at h

/-- A path without actions in front changes nothing. -/
theorem Follows.silently {events : List Event}
    (hpath : code.Leads ip e.scene events mid e.scene)
    (hsilent : events.filterMap Event.attempt? = [])
    (h : code.Follows mid e exit next) : code.Follows ip e exit next := by
  cases h with
  | @through t after hafter =>
      have hall : code.Follows ip e exit _ := .through (hpath.trans hafter)
      rwa [List.filterMap_append, hsilent, List.nil_append] at hall
  | @stuck t after pos line a cause hafter hi ha =>
      have hall : code.Follows ip e exit _ := .stuck (hpath.trans hafter) hi ha
      rwa [List.filterMap_append, hsilent, List.nil_append] at hall

/-- What goes through is followed by what comes next. -/
theorem Follows.trans (h : code.Follows ip e mid next) (hnext : next.refusal = none)
    (hlast : code.Follows mid next exit last) : code.Follows ip e exit last := by
  cases h with
  | @through t before hbefore =>
      cases hlast with
      | @through u after hafter =>
          have hall : code.Follows ip e exit _ := .through (hbefore.trans hafter)
          rwa [List.filterMap_append, ← List.append_assoc] at hall
      | @stuck u after pos line a cause hafter hi ha =>
          have hall : code.Follows ip e exit _ := .stuck (hbefore.trans hafter) hi ha
          rwa [List.filterMap_append, ← List.append_assoc] at hall
  | stuck hpath hi ha =>
      cases hnext

/-- What is stuck does not get to any index. -/
theorem Follows.of_stuck (h : code.Follows ip e mid next) (hnext : next.refusal ≠ none) :
    code.Follows ip e exit next := by
  cases h with
  | through hpath =>
      exact absurd rfl hnext
  | stuck hpath hi ha =>
      exact .stuck hpath hi ha

/-- A jump behind what goes through is taken. -/
theorem Follows.jump {line : Nat} {d : Int} (h : code.Follows ip e mid next)
    (hi : code[mid]? = some ⟨line, .jump d⟩) (hexit : (mid : Int) + d = exit)
    (hle : exit ≤ code.length) : code.Follows ip e exit next := by
  cases h with
  | @through t events hpath =>
      have hland := Scene.landing?_eq_some_iff.2 ⟨hexit, hle⟩
      have hjump : code.Leads mid t [.jumped line] exit t := .one hi (.jumped hland)
      have hall : code.Follows ip e exit _ := .through (hpath.trans hjump)
      rwa [List.filterMap_append, List.filterMap_cons_none rfl, List.filterMap_nil,
        List.append_nil] at hall
  | stuck hpath hi ha =>
      exact .stuck hpath hi ha

theorem Follows.attempt {line : Nat} {a : Action} (hi : code[ip]? = some ⟨line, .act a⟩) :
    code.Follows ip e (ip + 1) (e.attempt line a) := by
  unfold Evaluation.attempt
  cases ha : e.scene.perform a with
  | ok t =>
      have hone : code.Leads ip e.scene [.acted line a t.robot] (ip + 1) t :=
        .one hi (.acted ha)
      exact .through hone
  | error cause =>
      have hstuck : code.Follows ip e (ip + 1) _ := .stuck .here hi ha
      rwa [List.filterMap_nil, List.append_nil] at hstuck

end Code

section Blocks

variable {m : Macros} {line : Nat} {code : Code} {ip mid exit : Nat} {e next : Evaluation}

/-- Blocks behind code that is followed: they are evaluated from wherever it has led, and not
at all when it is stuck. -/
theorem Macros.follows_rest {bs : List Block} (hfollows : code.Follows ip e mid next)
    (hbs : ∀ e : Evaluation, e.refusal = none →
      ∃ last, m.Evaluates line bs e last ∧ code.Follows mid e exit last) :
    ∃ last, m.Evaluates line bs next last ∧ code.Follows ip e exit last := by
  by_cases hnext : next.refusal = none
  · obtain ⟨last, hlast, hrest⟩ := hbs next hnext
    exact ⟨last, hlast, hfollows.trans hnext hrest⟩
  · exact ⟨next, .refused hnext, hfollows.of_stuck hnext⟩

/-- The copies of the code of a body follow the evaluations of the body one after the
other. -/
theorem Macros.follows_times {body : List Block} {once : Code}
    (hbody : ∀ (e : Evaluation) (ip : Nat), e.refusal = none → code.At ip once →
      ∃ next, m.Evaluates line body e next ∧ code.Follows ip e (ip + once.length) next)
    (n : Nat) (he : e.refusal = none) (hat : code.At ip (Code.repeated n once)) :
    ∃ last, m.Evaluates line (List.replicate n body).flatten e last ∧
      code.Follows ip e (ip + n * once.length) last := by
  rw [Code.repeated_eq_flatten] at hat
  induction n generalizing e ip with
  | zero =>
      refine ⟨e, .nil, ?_⟩
      rw [Nat.zero_mul, Nat.add_zero]
      exact .here he
  | succ n ih =>
      rw [List.replicate_succ, List.flatten_cons] at hat ⊢
      obtain ⟨next, hnext, hfirst⟩ := hbody e ip he hat.left
      have hexit : ip + (n + 1) * once.length = ip + once.length + n * once.length := by
        rw [Nat.add_mul, Nat.one_mul]
        omega
      rw [hexit]
      obtain ⟨last, hlast, hall⟩ := follows_rest hfirst fun e he => ih he hat.right
      exact ⟨last, hnext.append hlast, hall⟩

/-- The code of a choice follows the branch that its condition asks for. -/
theorem Macros.follows_choose {c : Condition} {yes no : List Block} {ys ns : Code}
    (hyes : ∀ ip, code.At ip ys →
      ∃ next, m.Evaluates line yes e next ∧ code.Follows ip e (ip + ys.length) next)
    (hno : ∀ ip, code.At ip ns →
      ∃ next, m.Evaluates line no e next ∧ code.Follows ip e (ip + ns.length) next)
    (hat : code.At ip (Code.choice line c ys ns)) :
    ∃ next, m.Evaluates line (if e.scene.holds c then yes else no) e next ∧
      code.Follows ip e (ip + (Code.choice line c ys ns).length) next := by
  have htest : code[ip]? = some ⟨line, .jumpIfFalse c (ys.length + 2)⟩ := hat.head
  have hbranches : code.At (ip + 1) (ys ++ ⟨line, .jump (ns.length + 1)⟩ :: ns) := hat.tail
  have hjump : code[ip + 1 + ys.length]? = some ⟨line, .jump (ns.length + 1)⟩ :=
    hbranches.right.head
  have hfit : ip + (Code.choice line c ys ns).length ≤ code.length := by
    have := hat.end_le
    simp at this ⊢
    omega
  rw [Code.length_choice] at hfit ⊢
  cases hc : e.scene.holds c with
  | true =>
      obtain ⟨next, hnext, hfollows⟩ := hyes (ip + 1) hbranches.left
      refine ⟨next, by rwa [if_pos rfl], ?_⟩
      have hpath : code.Leads ip e.scene [.tested line c true] (ip + 1) e.scene :=
        .one htest (.passed hc)
      refine .silently hpath rfl (hfollows.jump hjump ?_ hfit)
      omega
  | false =>
      obtain ⟨next, hnext, hfollows⟩ := hno (ip + 1 + ys.length + 1) hbranches.right.tail
      refine ⟨next, by rwa [if_neg Bool.false_ne_true], ?_⟩
      have hland : Scene.landing? code.length ip (ys.length + 2) =
          some (ip + 1 + ys.length + 1) := by
        rw [Scene.landing?_eq_some_iff]
        omega
      have hpath : code.Leads ip e.scene [.tested line c false] (ip + 1 + ys.length + 1) e.scene :=
        .one htest (.skipped hc hland)
      have hexit : ip + (ys.length + ns.length + 2) = ip + 1 + ys.length + 1 + ns.length := by
        omega
      rw [hexit]
      exact .silently hpath rfl hfollows

/-- The code of blocks follows their evaluation, wherever it stands. -/
theorem Lowers.follows {bs : List Block} {ops : Code} (h : Lowers m line bs ops) :
    ∀ (e : Evaluation) (ip : Nat), e.refusal = none → code.At ip ops →
      ∃ last, m.Evaluates line bs e last ∧ code.Follows ip e (ip + ops.length) last := by
  induction h with
  | nil =>
      intro e ip he _
      exact ⟨e, .nil, .here he⟩
  | @act a bs rest _ ih =>
      intro e ip he hat
      rw [List.length_cons, Nat.add_comm rest.length, ← Nat.add_assoc]
      obtain ⟨last, hlast, hall⟩ :=
        Macros.follows_rest (.attempt hat.head) fun e he => ih e (ip + 1) he hat.tail
      exact ⟨last, .act he hlast, hall⟩
  | @choose c yes no bs ys ns rest _ _ _ ihyes ihno ih =>
      intro e ip he hat
      rw [List.length_append, ← Nat.add_assoc]
      obtain ⟨next, hnext, hfollows⟩ :=
        Macros.follows_choose (e := e) (fun ip hys => ihyes e ip he hys)
          (fun ip hns => ihno e ip he hns) hat.left
      obtain ⟨last, hlast, hall⟩ :=
        Macros.follows_rest hfollows fun e he => ih e _ he hat.right
      exact ⟨last, .choose he hnext hlast, hall⟩
  | @times n body bs once rest _ _ ihbody ih =>
      intro e ip he hat
      have hright := hat.right
      rw [Code.length_repeated] at hright
      rw [List.length_append, Code.length_repeated, ← Nat.add_assoc]
      obtain ⟨next, hnext, hfollows⟩ := Macros.follows_times ihbody n.toNat he hat.left
      obtain ⟨last, hlast, hall⟩ :=
        Macros.follows_rest hfollows fun e he => ih e _ he hright
      exact ⟨last, .times he hnext hlast, hall⟩
  | @call name body bs inner rest hname _ _ ihbody ih =>
      intro e ip he hat
      rw [List.length_append, ← Nat.add_assoc]
      obtain ⟨next, hnext, hfollows⟩ := ihbody e ip he hat.left
      obtain ⟨last, hlast, hall⟩ :=
        Macros.follows_rest hfollows fun e he => ih e _ he hat.right
      exact ⟨last, .call he hname hnext hlast, hall⟩

end Blocks

namespace Program

variable {m : Macros} {line : Nat}

/-- The code of a program follows the evaluation of its blocks, each with its own line. -/
theorem LowersFrom.follows {p : Program} {ops code : Code} (h : LowersFrom m line p ops) :
    ∀ (e : Evaluation) (ip : Nat), e.refusal = none → code.At ip ops →
      ∃ last, EvaluatesFrom m line p e last ∧ code.Follows ip e (ip + ops.length) last := by
  induction h with
  | nil =>
      intro e ip he _
      exact ⟨e, .nil, .here he⟩
  | @cons line b bs first rest hfirst _ ih =>
      intro e ip he hat
      obtain ⟨next, hnext, hfollows⟩ := hfirst.follows e ip he hat.left
      rw [List.length_append, ← Nat.add_assoc]
      by_cases hthrough : next.refusal = none
      · obtain ⟨last, hlast, hrest⟩ := ih next _ hthrough hat.right
        exact ⟨last, .cons he hnext hlast, hfollows.trans hthrough hrest⟩
      · exact ⟨next, .cons he hnext (.refused hthrough), hfollows.of_stuck hthrough⟩

/-- **Lowering keeps the meaning.**  A program that has code has exactly one evaluation.  A
machine without a step limit that is loaded with the code comes to an end: completed when the
evaluation refuses no action, failed at the line of the refused one otherwise.  The scene it
reaches and the actions it attempts are those of the evaluation. -/
theorem runToEnd_of_compile {p : Program} {m : Macros} {code : Code}
    (hcode : p.compile m = .ok code) {k : Machine} (hlimit : k.maxSteps = none) (s : Scene) :
    ∃ e n k',
      (p.Evaluates m s e ∧ ∀ e', p.Evaluates m s e' → e' = e) ∧
      (k.load code).Ends s n
        (.ok (if e.refusal = none then .completed else .failed), k', e.scene) ∧
      (k.load code).runToEnd s =
        (.ok (if e.refusal = none then .completed else .failed), k', e.scene) ∧
      k'.attempts = e.attempts ∧
      ∀ line cause, e.refusal = some (line, cause) → k'.line? = some line := by
  obtain ⟨e, he, hfollows⟩ :=
    (lowersFrom_of_compile hcode).follows (.start s) 0 rfl code.at_self
  have hone : p.Evaluates m s e ∧ ∀ e', p.Evaluates m s e' → e' = e :=
    ⟨he, fun _ he' => Evaluates.unique he he'⟩
  rw [Nat.zero_add] at hfollows
  have hload : k.load code = ⟨none, some (.start code)⟩ := by
    rw [Machine.load, hlimit]
  rw [hload]
  have hsize : code.length = (Run.start code).code.size := by simp [Run.start]
  rw [hsize] at hfollows
  cases hfollows with
  | @through t events hpath =>
      obtain ⟨n, r', hends, hattempts⟩ :=
        Run.ends_completed (r := .start code) (by simpa [Run.start] using hpath) rfl
      refine ⟨_, n, ⟨none, some r'⟩, hone, hends, hends.runToEnd_eq, hattempts, ?_⟩
      intro line cause hrefusal
      cases hrefusal
  | @stuck t events pos line a cause hpath hi ha =>
      obtain ⟨n, r', hends, hattempts, hline⟩ :=
        Run.ends_failed (r := .start code) (by simpa [Run.start] using hpath) rfl
          (by simpa [Run.start] using hi) ha
      refine ⟨_, n, ⟨none, some r'⟩, hone, hends, hends.runToEnd_eq, hattempts, ?_⟩
      intro line' cause' hrefusal
      cases hrefusal
      exact hline

/-- Twice a macro that steps forward, then a choice that steps forward once more: on a strip
of three cells the last step is refused. -/
theorem runToEnd_of_compile_on_strip :
    let p : Program := [.times 2 [.call "step"], .choose .frontIsBlocked [.act .move] []]
    let m := Macros.empty.define "step" [.act .move]
    let s : Scene := ⟨⟨0, 0, .east⟩, ⟨3, 1, #[.empty, .empty, .empty]⟩⟩
    let code : Code := [⟨0, .act .move⟩, ⟨0, .act .move⟩, ⟨1, .jumpIfFalse .frontIsBlocked 3⟩,
      ⟨1, .act .move⟩, ⟨1, .jump 1⟩]
    p.compile m = .ok code ∧ (Machine.idle none).maxSteps = none ∧
      ∃ e n k',
        (p.Evaluates m s e ∧ ∀ e', p.Evaluates m s e' → e' = e) ∧
        ((Machine.idle none).load code).Ends s n
          (.ok (if e.refusal = none then .completed else .failed), k', e.scene) ∧
        ((Machine.idle none).load code).runToEnd s =
          (.ok (if e.refusal = none then .completed else .failed), k', e.scene) ∧
        k'.attempts = e.attempts ∧
        ∀ line cause, e.refusal = some (line, cause) → k'.line? = some line := by
  intro p m s code
  have hcode : p.compile m = .ok code := by cbv
  exact ⟨hcode, rfl, runToEnd_of_compile hcode rfl s⟩

end Program

end GridRobot
