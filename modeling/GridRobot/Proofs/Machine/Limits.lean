import GridRobot.Proofs.Machine.Client

/-!
# Runs under another limit

The limit is no part of a step, so a run makes the same calls under every limit, as long as it
makes any.  A run that ends well without a limit ends in the same way under every limit that
leaves it as many calls as it needs, and is cut off by every other one.

**Results.**
* `step_limit`: a step does not depend on the limit.
* `Ends.ok_induction`: induction on the calls of a run that ends well.
* `trace_of_step`, `Ends.exists_trace`: the trace has one line for every call.
* `Ends.within_limit`, `Ends.beyond_limit`: what another limit makes of a run.
-/

namespace GridRobot

namespace Machine

/-- The machine with another step limit. -/
def limit (m : Machine) (maxSteps : Option Nat) : Machine :=
  { m with maxSteps := maxSteps }

variable {m m' : Machine} {s t : Scene} {answer : Except RunError Bool} {p : Phase} {n k : Nat}

theorem step_limit (h : m.step s = (answer, m', t)) (maxSteps : Option Nat) :
    (m.limit maxSteps).step s = (answer, m'.limit maxSteps, t) := by
  obtain ⟨_, _ | r⟩ := m
  · cases h
    rfl
  · cases h
    rfl

/-- A step that is made leaves one line, the status. -/
theorem trace_of_step {goesOn : Bool} (h : m.step s = (.ok goesOn, m', t)) :
    m'.trace = m.trace ++ [m'.status] := by
  rcases m.step_cases s with ⟨_, hstep⟩ | ⟨r, _, r', _, hr, hsteps, hstep⟩
  · rw [hstep] at h
    cases h
  · rw [hstep] at h
    cases h
    cases hsteps <;> simp [trace, status, Run.trace, Run.status, hr]

/-- Induction on a run that ends well: its last call, and the calls in front of it. -/
theorem Ends.ok_induction {motive : ∀ m s n, Ends m s n (.ok p, m', t) → Prop}
    (stopped : ∀ (m : Machine) (s : Scene) (h : m.Ends s 1 (.ok p, m', t)),
      m.step s = (.ok false, m', t) → p = m'.phase → motive m s 1 h)
    (next : ∀ (m₁ m₂ : Machine) (s₁ s₂ : Scene) (n : Nat) (hlimit : m₁.exhausted? = none)
      (hstep : m₁.step s₁ = (.ok true, m₂, s₂)) (hrest : m₂.Ends s₂ n (.ok p, m', t)),
      motive m₂ s₂ n hrest → motive m₁ s₁ (n + 1) (.next hlimit hstep hrest))
    {m : Machine} {s : Scene} {n : Nat} (h : m.Ends s n (.ok p, m', t)) : motive m s n h := by
  suffices hall : ∀ m s n result (h : Ends m s n result) (hresult : result = (.ok p, m', t)),
      motive m s n (hresult ▸ h) from hall m s n _ h rfl
  intro m s n result h hresult
  induction h with
  | exhausted _ =>
      cases hresult
  | stopped hlimit hstep =>
      cases hresult
      exact stopped _ _ (.stopped hlimit hstep) hstep rfl
  | failed _ _ =>
      cases hresult
  | next hlimit hstep hrest ih =>
      subst hresult
      exact next _ _ _ _ _ hlimit hstep hrest (ih rfl)

/-- A run leaves one line for every call of the step, and the last one is the status. -/
theorem Ends.exists_trace (h : m.Ends s n (.ok p, m', t)) :
    ∃ earlier, m'.trace = earlier ++ [m'.status] ∧ m'.trace.length = m.trace.length + n := by
  induction h using Ends.ok_induction with
  | stopped m s _ hstep _ =>
      have htrace := trace_of_step hstep
      exact ⟨_, htrace, by rw [htrace, List.length_append, List.length_singleton]⟩
  | next m₁ m₂ s₁ s₂ n _ hstep _ ih =>
      obtain ⟨earlier, htrace, hlength⟩ := ih
      have hfirst := (counts_of_step hstep).2.2
      exact ⟨earlier, htrace, by omega⟩

/-- A run that ends within another limit ends the same way. -/
theorem Ends.within_limit (h : m.Ends s n (.ok p, m', t)) {maxSteps : Option Nat}
    (hwithin : ∀ k, maxSteps = some k → m.steps + n ≤ k) :
    (m.limit maxSteps).Ends s n (.ok p, m'.limit maxSteps, t) := by
  induction h using Ends.ok_induction with
  | stopped m s _ hstep hphase =>
      have hfree : (m.limit maxSteps).exhausted? = none :=
        exhausted?_eq_none_iff.2 fun k hk => hwithin k hk
      rw [hphase]
      exact .stopped hfree (step_limit hstep maxSteps)
  | next m₁ m₂ s₁ s₂ n _ hstep _ ih =>
      have hsteps := (counts_of_step hstep).2.1
      have hfree : (m₁.limit maxSteps).exhausted? = none := by
        refine exhausted?_eq_none_iff.2 fun k hk => ?_
        have hle := hwithin k hk
        show m₁.steps < k
        omega
      refine .next hfree (step_limit hstep maxSteps) (ih fun k hk => ?_)
      have hle := hwithin k hk
      omega

/-- A run that needs more calls than a limit leaves is cut off by it. -/
theorem Ends.beyond_limit (h : m.Ends s n (.ok p, m', t)) (hbeyond : k < m.steps + n) :
    ∃ calls x, (m.limit (some k)).Ends s calls (.error (.stepLimitExceeded k), x) := by
  induction h using Ends.ok_induction with
  | stopped m s _ _ _ =>
      exact ⟨0, _, .exhausted (exhausted?_eq_some_iff.2 ⟨rfl, Nat.le_of_lt_succ hbeyond⟩)⟩
  | next m₁ m₂ s₁ s₂ n _ hstep _ ih =>
      by_cases hreached : k ≤ m₁.steps
      · exact ⟨0, _, .exhausted (exhausted?_eq_some_iff.2 ⟨rfl, hreached⟩)⟩
      · have hsteps := (counts_of_step hstep).2.1
        have hfree : (m₁.limit (some k)).exhausted? = none := by
          refine exhausted?_eq_none_iff.2 fun k' hk' => ?_
          cases hk'
          exact Nat.lt_of_not_le hreached
        obtain ⟨calls, x, hrest⟩ := ih (by omega)
        exact ⟨calls + 1, x, .next hfree (step_limit hstep (some k)) hrest⟩

end Machine

end GridRobot
