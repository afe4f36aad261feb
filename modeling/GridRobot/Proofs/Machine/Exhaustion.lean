import GridRobot.Proofs.Machine.Coherence
import GridRobot.Proofs.Machine.Limits

/-!
# What a reached limit means

A run to the end looks at the limit before it looks at the machine.  So a machine that has
nothing to run refuses the run with the reason, unless its limit is reached: then it is the limit
that is reported.

From freshly loaded code on, a run is cut off exactly when as many steps as the limit allows
can be made by hand, each with the answer that another one may follow.  After such a step the
cursor is inside the code, so one more instruction would be begun.  Only a run that has made no
step yet can be cut off with nothing left to do: one of no code, by a limit of zero.

**Results.**
* `runToEnd_of_refused`: what a run to the end does when a step is refused outright.
* `exceeded_iff_byHand`: a run is cut off when the steps that the limit leaves can be made.
* `exceeded_load_iff`: when a run of freshly loaded code is cut off.
* `runToEnd_when_over`: runs that are over, machines without code, and runs that are cut off.
* `limit_hides_finished_run`: the limit is reported although no step was needed.
-/

namespace GridRobot

namespace Machine

/-- Without a limit, the run of the machine comes to begin more than `n` instructions. -/
def RunsBeyond (m : Machine) (s : Scene) (n : Nat) : Prop :=
  ∃ k m' t, (m.limit none).byHand k s = some (m', t) ∧ n < (m'.step t).2.1.steps

variable {m m' : Machine} {s t : Scene} {e : RunError} {code : Code} {j k calls limit : Nat}

/-! ### Machines with nothing to run -/

/-- A run to the end of a machine that refuses the step changes nothing, and the error is that of
the step unless the limit is reached. -/
theorem runToEnd_of_refused (hstep : m.step s = (.error e, m, s)) :
    ((∀ limit, m.maxSteps = some limit → m.steps < limit) → m.runToEnd s = (.error e, m, s)) ∧
      ∀ limit, m.maxSteps = some limit → limit ≤ m.steps →
        m.runToEnd s = (.error (.stepLimitExceeded limit), m, s) := by
  constructor
  · intro hfree
    rw [runToEnd_of_not_exhausted (exhausted?_eq_none_iff.2 hfree), hstep]
  · intro limit hmax hle
    rw [runToEnd_of_exhausted (exhausted?_eq_some_iff.2 ⟨hmax, hle⟩)]

theorem current_eq_none_iff : m.current = none ↔ m.phase = .uncompiled := by
  rw [← code?_eq_none_iff, code?, Option.map_eq_none_iff]

theorem steps_of_no_run (h : m.current = none) : m.steps = 0 := by
  rw [steps, h]
  rfl

/-! ### Steps by hand -/

theorem byHand_succ_eq_some_iff {x : Machine × Scene} :
    m.byHand (k + 1) s = some x ↔
      ∃ m₁ s₁, m.step s = (.ok true, m₁, s₁) ∧ m₁.byHand k s₁ = some x := by
  rw [byHand]
  constructor
  · intro h
    split at h
    · rename_i m₁ s₁ hstep
      exact ⟨m₁, s₁, hstep, h⟩
    · cases h
  · rintro ⟨m₁, s₁, hstep, h⟩
    rw [hstep]
    exact h

theorem byHand_limit (h : m.byHand k s = some (m', t)) (maxSteps : Option Nat) :
    (m.limit maxSteps).byHand k s = some (m'.limit maxSteps, t) := by
  induction k generalizing m s with
  | zero =>
      cases h
      rfl
  | succ k ih =>
      obtain ⟨m₁, s₁, hstep, hrest⟩ := byHand_succ_eq_some_iff.1 h
      exact byHand_succ_eq_some_iff.2 ⟨_, s₁, step_limit hstep maxSteps, ih hrest⟩

/-- Every step by hand counts one instruction. -/
theorem steps_of_byHand (h : m.byHand k s = some (m', t)) : m'.steps = m.steps + k := by
  induction k generalizing m s with
  | zero =>
      cases h
      rfl
  | succ k ih =>
      obtain ⟨m₁, s₁, hstep, hrest⟩ := byHand_succ_eq_some_iff.1 h
      have hfirst := (counts_of_step hstep).2.1
      have hothers := ih hrest
      omega

theorem byHand_of_le {x : Machine × Scene} (h : m.byHand k s = some x) (hle : j ≤ k) :
    ∃ y, m.byHand j s = some y := by
  induction j generalizing m s k with
  | zero =>
      exact ⟨(m, s), rfl⟩
  | succ j ih =>
      obtain ⟨k, rfl⟩ := Nat.exists_eq_add_of_le' (Nat.one_le_of_lt hle)
      obtain ⟨m₁, s₁, hstep, hrest⟩ := byHand_succ_eq_some_iff.1 h
      obtain ⟨y, hy⟩ := ih hrest (Nat.le_of_succ_le_succ hle)
      exact ⟨y, byHand_succ_eq_some_iff.2 ⟨m₁, s₁, hstep, hy⟩⟩

/-- A run that is stepped by hand goes on afterwards. -/
theorem running_of_byHand (h : m.byHand (k + 1) s = some (m', t)) : m'.phase = .running := by
  induction k generalizing m s with
  | zero =>
      obtain ⟨m₁, s₁, hstep, hrest⟩ := byHand_succ_eq_some_iff.1 h
      cases hrest
      exact running_of_step hstep
  | succ k ih =>
      obtain ⟨m₁, s₁, _, hrest⟩ := byHand_succ_eq_some_iff.1 h
      exact ih hrest

theorem Settled.byHand (hm : m.Settled) (h : m.byHand k s = some (m', t)) : m'.Settled := by
  induction k generalizing m s with
  | zero =>
      cases h
      exact hm
  | succ k ih =>
      obtain ⟨m₁, s₁, hstep, hrest⟩ := byHand_succ_eq_some_iff.1 h
      have hkeep := hm.step s
      rw [hstep] at hkeep
      exact ih hkeep hrest

/-- No step counts more than one instruction. -/
theorem steps_step_le (m : Machine) (s : Scene) : (m.step s).2.1.steps ≤ m.steps + 1 := by
  rcases m.step_cases s with ⟨_, hstep⟩ | ⟨r, answer, r', t, hr, hsteps, hstep⟩
  · rw [hstep]
    exact Nat.le_succ _
  · rw [hstep]
    cases hsteps <;> simp [steps, hr]

/-- A step at an instruction counts it, whatever becomes of it. -/
theorem steps_step_of_inside {r : Run} (hr : m.current = some r)
    (hphase : r.phase.isFinished = false) (hinside : r.cursor < r.code.size) (s : Scene) :
    (m.step s).2.1.steps = m.steps + 1 := by
  obtain ⟨answer, r', t, hsteps, hstep⟩ := exists_steps hr s
  rw [hstep]
  cases hsteps with
  | finished hover =>
      rw [hphase] at hover
      cases hover
  | nothingToDo _ hend =>
      exact absurd hinside (Nat.not_lt.2 (Array.getElem?_eq_none_iff.1 hend))
  | went _ _ _ _ => simp [steps, hr]
  | ended _ _ _ _ => simp [steps, hr]
  | stuck _ _ _ => simp [steps, hr]
  | lost _ _ _ => simp [steps, hr]

/-- After a step by hand from a settled machine one more instruction is begun. -/
theorem Settled.steps_step_of_byHand (hm : m.Settled) (h : m.byHand (k + 1) s = some (m', t)) :
    (m'.step t).2.1.steps = m'.steps + 1 := by
  have hrunning := running_of_byHand h
  obtain ⟨limit, _ | r⟩ := m'
  · cases hrunning
  · have hr : r.phase = .running := hrunning
    have hsettled : r.Settled := hm.byHand h r rfl
    exact steps_step_of_inside rfl (by rw [hr]; rfl) (hsettled.of_running hr).1 t

/-! ### Runs that are cut off -/

theorem Ends.byHand_of_exceeded {x : Machine × Scene}
    (h : m.Ends s calls (.error (.stepLimitExceeded limit), x)) : m.byHand calls s = some x := by
  generalize hresult : (Except.error (RunError.stepLimitExceeded limit), x) = result at h
  induction h with
  | exhausted _ =>
      cases hresult
      rfl
  | stopped _ _ =>
      cases hresult
  | @failed m _ s _ e _ hstep =>
      cases hresult
      exact absurd (congrArg Prod.fst hstep) (m.step_ne_exceeded s limit)
  | next _ hstep _ ih =>
      exact byHand_succ_eq_some_iff.2 ⟨_, _, hstep, ih hresult⟩

theorem ends_exceeded_of_byHand {x : Machine × Scene} (hmax : m.maxSteps = some limit)
    (hleft : limit - m.steps = k) (h : m.byHand k s = some x) :
    m.Ends s k (.error (.stepLimitExceeded limit), x) := by
  induction k generalizing m s with
  | zero =>
      cases h
      exact .exhausted (exhausted?_eq_some_iff.2 ⟨hmax, by omega⟩)
  | succ k ih =>
      obtain ⟨m₁, s₁, hstep, hrest⟩ := byHand_succ_eq_some_iff.1 h
      obtain ⟨hmax', hsteps, _⟩ := counts_of_step hstep
      have hfree : m.exhausted? = none := by
        rw [exhausted?_eq_none_iff, hmax]
        rintro _ ⟨⟩
        omega
      exact .next hfree hstep (ih (hmax'.trans hmax) (by omega) hrest)

/-- A run is cut off when the steps that the limit leaves can all be made by hand. -/
theorem exceeded_iff_byHand :
    (∃ calls x, m.Ends s calls (.error (.stepLimitExceeded limit), x)) ↔
      m.maxSteps = some limit ∧ ∃ x, m.byHand (limit - m.steps) s = some x := by
  constructor
  · rintro ⟨calls, ⟨m', t⟩, h⟩
    obtain ⟨hmax, hcalls, _⟩ := h.of_exceeded
    exact ⟨hmax, (m', t), hcalls ▸ h.byHand_of_exceeded⟩
  · rintro ⟨hmax, x, h⟩
    exact ⟨_, x, ends_exceeded_of_byHand hmax rfl h⟩

theorem settled_load (m : Machine) (code : Code) : (m.load code).Settled := by
  intro r hr
  cases hr
  rfl

/-- A run of freshly loaded code is cut off when it needs more steps than the limit allows, and
when there is no code and no step is allowed. -/
theorem exceeded_load_iff :
    (∃ calls x, (m.load code).Ends s calls (.error (.stepLimitExceeded limit), x)) ↔
      m.maxSteps = some limit ∧ ((m.load code).RunsBeyond s limit ∨ code = [] ∧ limit = 0) := by
  have hzero : (m.load code).steps = 0 := rfl
  rw [exceeded_iff_byHand, hzero, Nat.sub_zero]
  refine and_congr_right fun _ => ⟨?_, ?_⟩
  · rintro ⟨⟨m', t⟩, h⟩
    have hfree := byHand_limit h none
    cases limit with
    | zero =>
        cases code with
        | nil =>
            exact .inr ⟨rfl, rfl⟩
        | cons i rest =>
            have hstep := steps_step_of_inside (m := (m.load (i :: rest)).limit none) rfl rfl
              (Nat.succ_pos _) s
            exact .inl ⟨0, _, s, rfl, Nat.lt_of_lt_of_eq (Nat.succ_pos _) hstep.symm⟩
    | succ limit =>
        have hsettled : ((m.load code).limit none).Settled := m.settled_load code
        have hstep := hsettled.steps_step_of_byHand hfree
        have hsteps := steps_of_byHand hfree
        exact .inl ⟨limit + 1, _, t, hfree, by omega⟩
  · rintro (⟨k, m', t, h, hlt⟩ | ⟨_, rfl⟩)
    · have hle := m'.steps_step_le t
      have hsteps := steps_of_byHand h
      have hzero : ((m.load code).limit none).steps = 0 := rfl
      have hback := byHand_limit h m.maxSteps
      exact byHand_of_le hback (by omega)
    · exact ⟨_, rfl⟩

/-- **What the errors of a run to the end mean.**  A run that is over and a machine without code
are reported as such and nothing changes, unless the limit is reached, which is then reported
instead, for a machine without code when it is zero.  A run of freshly loaded code is cut off
exactly when the limit is below the number of instructions that it begins without a limit, or
when there is no code and the limit is zero. -/
theorem runToEnd_when_over (m : Machine) (s : Scene) :
    (m.phase = .completed ∨ m.phase = .failed →
      ((∀ limit, m.maxSteps = some limit → m.steps < limit) →
        m.runToEnd s = (.error (.runFinished m.phase), m, s)) ∧
      ∀ limit, m.maxSteps = some limit → limit ≤ m.steps →
        m.runToEnd s = (.error (.stepLimitExceeded limit), m, s)) ∧
    (m.phase = .uncompiled →
      (m.maxSteps ≠ some 0 → m.runToEnd s = (.error .notCompiled, m, s)) ∧
      (m.maxSteps = some 0 → m.runToEnd s = (.error (.stepLimitExceeded 0), m, s))) ∧
    ∀ code limit, (∃ x, (m.load code).Halts s (.error (.stepLimitExceeded limit), x)) ↔
      m.maxSteps = some limit ∧
        ((m.load code).RunsBeyond s limit ∨ code = [] ∧ limit = 0) := by
  refine ⟨fun hphase => ?_, fun hphase => ?_, fun code limit => ?_⟩
  · exact runToEnd_of_refused (step_of_finished (Phase.isFinished_iff.2 hphase) s)
  · have hnone := current_eq_none_iff.2 hphase
    have hzero := steps_of_no_run hnone
    obtain ⟨hfree, hreached⟩ := runToEnd_of_refused (step_of_no_run hnone s)
    refine ⟨fun hmax => hfree fun limit hlimit => ?_, fun hmax => ?_⟩
    · rw [hzero]
      exact Nat.pos_of_ne_zero fun h => hmax (h ▸ hlimit)
    · exact hreached 0 hmax (Nat.zero_le _)
  · rw [← exceeded_load_iff, exists_comm]
    exact exists_congr fun x => halts_iff

/-- A robot that has turned once under a limit of three is refused another run because it is
done, and one that keeps turning is cut off after three of its many steps.  A machine without
code says so under the same limit. -/
theorem runToEnd_when_over_after_turn :
    let s : Scene := ⟨⟨0, 0, .east⟩, ⟨1, 1, #[.empty]⟩⟩
    let t : Scene := ⟨⟨0, 0, .north⟩, ⟨1, 1, #[.empty]⟩⟩
    let turned := (((idle (some 3)).load [⟨0, .act .turnLeft⟩]).step s).2.1
    let turning := (idle (some 3)).load [⟨0, .act .turnLeft⟩, ⟨1, .jump (-1)⟩]
    (turned.phase = .completed ∧
      turned.runToEnd t = (.error (.runFinished .completed), turned, t)) ∧
    (idle (some 3)).runToEnd s = (.error .notCompiled, idle (some 3), s) ∧
    turning.RunsBeyond s 3 ∧ ∃ x, turning.Halts s (.error (.stepLimitExceeded 3), x) := by
  intro s t turned turning
  have hphase : turned.phase = .completed := rfl
  have hbelow : ∀ limit, turned.maxSteps = some limit → turned.steps < limit := by
    rintro _ ⟨⟩
    decide
  obtain ⟨hover, _, _⟩ := turned.runToEnd_when_over t
  obtain ⟨_, huncompiled, hcut⟩ := (idle (some 3)).runToEnd_when_over s
  have hbeyond : turning.RunsBeyond s 3 := ⟨3, _, _, rfl, by decide⟩
  refine ⟨⟨hphase, ?_⟩, (huncompiled rfl).1 (by decide), hbeyond, ?_⟩
  · rw [← hphase]
    exact (hover (.inl hphase)).1 hbelow
  · exact (hcut _ 3).2 ⟨rfl, .inl hbeyond⟩

/-- A run that is over after as many steps as the limit allows is not reported as over, but as
one that has exceeded the limit.  So is, under a limit of zero, a machine without code, and a run
of no code, which begins no instruction without a limit either. -/
theorem limit_hides_finished_run :
    let s : Scene := ⟨⟨0, 0, .east⟩, ⟨1, 1, #[.empty]⟩⟩
    let run := ((idle (some 1)).load [⟨0, .act .turnLeft⟩]).runToEnd s
    (run.1 = .ok .completed ∧ run.2.1.Reachable ∧ run.2.1.phase = .completed ∧
      (run.2.1.runToEnd run.2.2).1 = .error (.stepLimitExceeded 1)) ∧
    ((idle (some 0)).phase = .uncompiled ∧
      ((idle (some 0)).runToEnd s).1 = .error (.stepLimitExceeded 0)) ∧
    (((idle (some 0)).load []).runToEnd s).1 = .error (.stepLimitExceeded 0) ∧
      ¬ ((idle (some 0)).load []).RunsBeyond s 0 := by
  intro s run
  have hends : ((idle (some 1)).load [⟨0, .act .turnLeft⟩]).Ends s 1 _ := .stopped rfl rfl
  have hrun : run = _ := hends.runToEnd_eq
  have hreach : run.2.1.Reachable := by
    rw [hrun]
    exact .run (.load (.idle (some 1)) _) hends
  refine ⟨⟨?_, hreach, ?_, ?_⟩, ⟨rfl, ?_⟩, ?_, ?_⟩
  · rw [hrun]
    rfl
  · rw [hrun]
    rfl
  · rw [hrun, runToEnd_of_exhausted rfl]
  · rw [runToEnd_of_exhausted rfl]
  · rw [runToEnd_of_exhausted rfl]
  · rintro ⟨k, m', t, h, hlt⟩
    cases k with
    | zero =>
        cases h
        exact absurd hlt (by decide)
    | succ k =>
        obtain ⟨m₁, s₁, hstep, _⟩ := byHand_succ_eq_some_iff.1 h
        cases hstep

end Machine

end GridRobot
