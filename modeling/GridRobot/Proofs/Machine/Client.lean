import GridRobot.Proofs.Machine.Ends

/-!
# A run to the end is stepping by hand

A client that looks at the limit before each step, steps, and goes on while another step may
follow does what a run to the end does.  The loop of the run is read round by round, the
client by calls of the step; both are compared with `Machine.Ends`, which counts the calls.

With a limit the distance to it is the measure: a step after which another one may follow has
counted one more instruction.  The same count says where a run that is cut off stands, and
why instructions that are executed by hand beforehand change nothing but the budget.

**Results.**
* `client_eq_some_iff`: the client stops as `Ends` says, within its budget.
* `exists_ends_of_limit`: with a limit every run ends.
* `Ends.of_exceeded`: how far a run gets that is cut off.
* `halts_ok_iff_of_byHand`: steps by hand in front of a run that succeeds.
* `runToEnd_is_client`: all of it for the run to the end.
-/

namespace GridRobot

namespace Machine

/-- The loop of a run to the end stops, with a result. -/
inductive Halts : Machine → Scene → Except RunError Phase × Machine × Scene → Prop
  | stop {m : Machine} {s : Scene} {result : Except RunError Phase × Machine × Scene}
      (hround : m.round s = .inr result) : Halts m s result
  | again {m m' : Machine} {s t : Scene} {result : Except RunError Phase × Machine × Scene}
      (hround : m.round s = .inl (m', t)) (hrest : Halts m' t result) : Halts m s result

/-- A client that may call the step as often as its budget says.  When it stops, it tells how
often it has called the step, and with which result it stops. -/
def client (budget : Nat) (m : Machine) (s : Scene) :
    Option (Nat × (Except RunError Phase × Machine × Scene)) :=
  match m.exhausted? with
  | some limit => some (0, .error (.stepLimitExceeded limit), m, s)
  | none =>
      match budget with
      | 0 => none
      | budget + 1 =>
          match m.step s with
          | (.ok true, m, s) =>
              (client budget m s).map fun (calls, result) => (calls + 1, result)
          | (.ok false, m, s) => some (1, .ok m.phase, m, s)
          | (.error e, m, s) => some (1, .error e, m, s)

/-- The machine and the scene after some steps by hand, if another one may follow after each. -/
def byHand (steps : Nat) (m : Machine) (s : Scene) : Option (Machine × Scene) :=
  match steps with
  | 0 => some (m, s)
  | steps + 1 =>
      match m.step s with
      | (.ok true, m, s) => byHand steps m s
      | _ => none

variable {m m' : Machine} {s t : Scene} {n calls budget limit : Nat}
  {result : Except RunError Phase × Machine × Scene}

theorem exhausted?_eq_some_iff :
    m.exhausted? = some limit ↔ m.maxSteps = some limit ∧ limit ≤ m.steps := by
  simp [exhausted?]

theorem exhausted?_eq_none_iff :
    m.exhausted? = none ↔ ∀ limit, m.maxSteps = some limit → m.steps < limit := by
  simp [exhausted?]

/-- The step counts one instruction and leaves one entry whenever another step may follow. -/
theorem counts_of_step (h : m.step s = (.ok true, m', t)) :
    m'.maxSteps = m.maxSteps ∧ m'.steps = m.steps + 1 ∧
      m'.trace.length = m.trace.length + 1 := by
  rcases m.step_cases s with ⟨_, hstep⟩ | ⟨r, answer, r', u, hr, hsteps, hstep⟩
  · rw [hstep] at h
    cases h
  · rw [hstep] at h
    cases h
    cases hsteps
    simp [steps, trace, Run.trace, hr]

/-! ### The loop and the client -/

theorem Halts.runToEnd_eq (h : m.Halts s result) : m.runToEnd s = result := by
  induction h with
  | stop hround =>
      rw [Machine.runToEnd_eq, hround]
  | again hround _ ih =>
      rw [Machine.runToEnd_eq, hround]
      exact ih

theorem exists_ends_of_round (h : m.round s = .inr result) :
    ∃ calls, m.Ends s calls result := by
  unfold round at h
  split at h
  · rename_i hlimit
    cases h
    exact ⟨0, .exhausted hlimit⟩
  · rename_i hfree
    split at h
    · cases h
    · rename_i hstep
      cases h
      exact ⟨1, .stopped hfree hstep⟩
    · rename_i hstep
      cases h
      exact ⟨1, .failed hfree hstep⟩

theorem step_of_round (h : m.round s = .inl (m', t)) :
    m.exhausted? = none ∧ m.step s = (.ok true, m', t) := by
  unfold round at h
  split at h
  · cases h
  · rename_i hfree
    split at h
    · rename_i hstep
      cases h
      exact ⟨hfree, hstep⟩
    · cases h
    · cases h

theorem Halts.exists_ends (h : m.Halts s result) : ∃ calls, m.Ends s calls result := by
  induction h with
  | stop hround =>
      exact exists_ends_of_round hround
  | again hround _ ih =>
      obtain ⟨hfree, hstep⟩ := step_of_round hround
      obtain ⟨calls, hends⟩ := ih
      exact ⟨calls + 1, .next hfree hstep hends⟩

theorem Ends.halts (h : m.Ends s calls result) : m.Halts s result := by
  induction h with
  | exhausted hlimit => exact .stop (by simp only [round, hlimit])
  | stopped hfree hstep => exact .stop (by simp only [round, hfree, hstep])
  | failed hfree hstep => exact .stop (by simp only [round, hfree, hstep])
  | next hfree hstep _ ih => exact .again (by simp only [round, hfree, hstep]) ih

theorem halts_iff : m.Halts s result ↔ ∃ calls, m.Ends s calls result :=
  ⟨Halts.exists_ends, fun ⟨_, h⟩ => h.halts⟩

theorem Ends.client_eq (h : m.Ends s calls result) (hbudget : calls ≤ budget) :
    m.client budget s = some (calls, result) := by
  induction h generalizing budget with
  | exhausted hlimit =>
      unfold client
      rw [hlimit]
  | stopped hfree hstep =>
      obtain ⟨budget, rfl⟩ := Nat.exists_eq_add_of_le' hbudget
      rw [client, hfree, hstep]
  | failed hfree hstep =>
      obtain ⟨budget, rfl⟩ := Nat.exists_eq_add_of_le' hbudget
      rw [client, hfree, hstep]
  | next hfree hstep _ ih =>
      obtain ⟨budget, rfl⟩ := Nat.exists_eq_add_of_le' (Nat.one_le_of_lt hbudget)
      rw [client, hfree, hstep]
      simp only [ih (Nat.le_of_succ_le_succ hbudget), Option.map_some]

theorem ends_of_client (h : m.client budget s = some (calls, result)) :
    calls ≤ budget ∧ m.Ends s calls result := by
  induction budget generalizing m s calls with
  | zero =>
      rw [client] at h
      split at h
      · rename_i hlimit
        cases h
        exact ⟨Nat.le_refl 0, .exhausted hlimit⟩
      · cases h
  | succ budget ih =>
      rw [client] at h
      split at h
      · rename_i hlimit
        cases h
        exact ⟨Nat.zero_le _, .exhausted hlimit⟩
      · rename_i hfree
        dsimp only at h
        split at h
        · rename_i m' t hstep
          obtain ⟨⟨n, _⟩, hrest, heq⟩ := Option.map_eq_some_iff.1 h
          cases heq
          obtain ⟨hle, hends⟩ := ih hrest
          exact ⟨Nat.succ_le_succ hle, .next hfree hstep hends⟩
        · rename_i hstep
          cases h
          exact ⟨Nat.succ_le_succ (Nat.zero_le _), .stopped hfree hstep⟩
        · rename_i hstep
          cases h
          exact ⟨Nat.succ_le_succ (Nat.zero_le _), .failed hfree hstep⟩

theorem client_eq_some_iff :
    m.client budget s = some (calls, result) ↔ calls ≤ budget ∧ m.Ends s calls result :=
  ⟨ends_of_client, fun ⟨hbudget, h⟩ => h.client_eq hbudget⟩

/-! ### The limit -/

/-- With a limit a run ends, whatever its code, after as many calls as the limit leaves. -/
theorem exists_ends_of_limit (hlimit : m.maxSteps = some limit) :
    ∃ calls result, calls ≤ limit - m.steps ∧ m.Ends s calls result := by
  -- What the limit leaves is the measure: a step with which the run goes on takes one from it.
  generalize hleft : limit - m.steps = left
  induction left generalizing m s with
  | zero =>
      have hreached : m.exhausted? = some limit :=
        exhausted?_eq_some_iff.2 ⟨hlimit, by omega⟩
      exact ⟨0, _, Nat.le_refl 0, .exhausted hreached⟩
  | succ left ih =>
      have hfree : m.exhausted? = none := by
        rw [exhausted?_eq_none_iff, hlimit]
        rintro _ ⟨⟩
        omega
      rcases hstep : m.step s with ⟨e | _ | _, m', t⟩
      · exact ⟨1, _, by omega, .failed hfree hstep⟩
      · exact ⟨1, _, by omega, .stopped hfree hstep⟩
      · obtain ⟨hmax, hsteps, _⟩ := counts_of_step hstep
        obtain ⟨calls, result, hle, hends⟩ := ih (m := m') (s := t) (hmax.trans hlimit) (by omega)
        exact ⟨calls + 1, result, by omega, .next hfree hstep hends⟩

/-- A run that is cut off has used up what the limit leaves, and has executed as many
instructions. -/
theorem Ends.of_exceeded (h : m.Ends s calls (.error (.stepLimitExceeded limit), m', t)) :
    m.maxSteps = some limit ∧ calls = limit - m.steps ∧ m'.steps = m.steps + calls ∧
      m'.trace.length = m.trace.length + calls := by
  generalize hresult : (Except.error (RunError.stepLimitExceeded limit), m', t) = result at h
  induction h with
  | exhausted hlimit =>
      cases hresult
      obtain ⟨hmax, hle⟩ := exhausted?_eq_some_iff.1 hlimit
      exact ⟨hmax, by omega, rfl, rfl⟩
  | stopped _ _ =>
      cases hresult
  | @failed m _ s _ e _ hstep =>
      -- Only the look at the limit gives this error, no step does.
      cases hresult
      exact absurd (congrArg Prod.fst hstep) (m.step_ne_exceeded s limit)
  | next hfree hstep _ ih =>
      obtain ⟨hmax, hcalls, hsteps, htrace⟩ := ih hresult
      obtain ⟨hmax', hsteps', htrace'⟩ := counts_of_step hstep
      rw [hmax'] at hmax
      -- The limit was not reached before this step, so in the end it is met and not passed.
      have hlt := exhausted?_eq_none_iff.1 hfree limit hmax
      exact ⟨hmax, by omega, by omega, by omega⟩

/-! ### Steps by hand -/

theorem Ends.exhausted?_eq_none {p : Phase} {x : Machine × Scene}
    (h : m.Ends s calls (.ok p, x)) : m.exhausted? = none := by
  cases h <;> assumption

/-- When the limit is not reached after a step, it was not before. -/
theorem exhausted?_of_step (hstep : m.step s = (.ok true, m', t))
    (h : m'.exhausted? = none) : m.exhausted? = none := by
  obtain ⟨hmax, hsteps, _⟩ := counts_of_step hstep
  rw [exhausted?_eq_none_iff] at h ⊢
  intro limit hlimit
  have := h limit (hmax.trans hlimit)
  omega

/-- A step by hand in front of a run that succeeds, or instead of its first step. -/
theorem halts_ok_iff_of_step (hstep : m.step s = (.ok true, m', t)) {p : Phase}
    {x : Machine × Scene} : m.Halts s (.ok p, x) ↔ m'.Halts t (.ok p, x) := by
  rw [halts_iff, halts_iff]
  constructor
  · rintro ⟨calls, h⟩
    cases h with
    | stopped _ hstep' =>
        rw [hstep] at hstep'
        cases hstep'
    | next _ hstep' hrest =>
        rw [hstep] at hstep'
        cases hstep'
        exact ⟨_, hrest⟩
  · rintro ⟨calls, h⟩
    -- The run succeeds from the next machine on, so the limit is not reached there, nor here.
    exact ⟨calls + 1, .next (exhausted?_of_step hstep h.exhausted?_eq_none) hstep h⟩

theorem halts_ok_iff_of_byHand (h : m.byHand n s = some (m', t)) {p : Phase}
    {x : Machine × Scene} : m.Halts s (.ok p, x) ↔ m'.Halts t (.ok p, x) := by
  induction n generalizing m s with
  | zero =>
      cases h
      rfl
  | succ n ih =>
      rw [byHand] at h
      split at h
      · rename_i hstep
        rw [halts_ok_iff_of_step hstep, ih h]
      · cases h

/-- **A run to the end is a client that steps.**  The loop stops with a result exactly when the
client does, and a run to the end returns it.  With a limit both stop after at most as many calls
of the step as the limit leaves.  Freshly loaded code that is cut off has executed as many
instructions as the limit allows.  Steps by hand in front do not change where a run gets that
succeeds. -/
theorem runToEnd_is_client (m : Machine) (s : Scene) :
    (∀ result, m.Halts s result ↔
      ∃ budget calls, m.client budget s = some (calls, result)) ∧
    (∀ result, m.Halts s result → m.runToEnd s = result) ∧
    (∀ limit, m.maxSteps = some limit → ∃ calls result, calls ≤ limit - m.steps ∧
      m.Halts s result ∧ m.client calls s = some (calls, result)) ∧
    (∀ code limit m' t, (m.load code).Halts s (.error (.stepLimitExceeded limit), m', t) →
      (m.load code).client limit s = some (limit, .error (.stepLimitExceeded limit), m', t) ∧
        m.maxSteps = some limit ∧ m'.steps = limit ∧ m'.trace.length = limit) ∧
    (∀ n m' t, m.byHand n s = some (m', t) → ∀ p x,
      (m.Halts s (.ok p, x) ↔ m'.Halts t (.ok p, x)) ∧
        (m.Halts s (.ok p, x) → m'.runToEnd t = m.runToEnd s)) := by
  refine ⟨fun result => ?_, fun _ => Halts.runToEnd_eq, fun limit hlimit => ?_, ?_, ?_⟩
  · rw [halts_iff]
    constructor
    · rintro ⟨calls, h⟩
      exact ⟨calls, calls, h.client_eq (Nat.le_refl calls)⟩
    · rintro ⟨budget, calls, h⟩
      exact ⟨calls, (client_eq_some_iff.1 h).2⟩
  · obtain ⟨calls, result, hle, h⟩ := exists_ends_of_limit (s := s) hlimit
    exact ⟨calls, result, hle, h.halts, h.client_eq (Nat.le_refl calls)⟩
  · intro code limit m' t h
    obtain ⟨calls, hends⟩ := h.exists_ends
    obtain ⟨hmax, hcalls, hsteps, htrace⟩ := hends.of_exceeded
    have hstart : (m.load code).steps = 0 := rfl
    have hempty : (m.load code).trace.length = 0 := rfl
    obtain rfl : calls = limit := by omega
    exact ⟨hends.client_eq (Nat.le_refl calls), hmax, by omega, by omega⟩
  · intro n m' t hhand p x
    have hiff : m.Halts s (.ok p, x) ↔ m'.Halts t (.ok p, x) :=
      halts_ok_iff_of_byHand hhand
    exact ⟨hiff, fun h => (hiff.1 h).runToEnd_eq.trans h.runToEnd_eq.symm⟩

/-- The robot turns until the way is clear and is done with the last step that the limit allows,
also when the first two steps are made by hand.  A jump to itself is cut off. -/
theorem runToEnd_is_client_while_turning :
    let s : Scene := ⟨⟨0, 0, .west⟩, ⟨2, 1, #[.empty, .empty]⟩⟩
    let turning : Code := [⟨0, .act .turnLeft⟩, ⟨1, .jumpIfFalse .frontIsClear (-1)⟩]
    let m := (idle (some 4)).load turning
    let spinning := (m.load [⟨0, .jump 0⟩]).runToEnd s
    (m.runToEnd s).1 = .ok .completed ∧ m.client 4 s = some (4, m.runToEnd s) ∧
      (∃ m' t, m.byHand 2 s = some (m', t) ∧ m'.runToEnd t = m.runToEnd s) ∧
      (∃ calls, calls ≤ 4 ∧ m.client calls s = some (calls, m.runToEnd s)) ∧
      spinning.1 = .error (.stepLimitExceeded 4) ∧ spinning.2.1.steps = 4 := by
  intro s turning m spinning
  obtain ⟨hsame, hresult, hlimit, hcut, hhand⟩ := m.runToEnd_is_client s
  have hdone : (m.client 4 s).map (fun (calls, answer, _) => (calls, answer)) =
      some (4, .ok .completed) := by rfl
  obtain ⟨⟨_, _, x⟩, hclient, heq⟩ := Option.map_eq_some_iff.1 hdone
  cases heq
  have hhalts : m.Halts s (.ok .completed, x) := (hsame _).2 ⟨4, 4, hclient⟩
  have hrun : m.runToEnd s = (.ok .completed, x) := hresult _ hhalts
  have htwo : (m.byHand 2 s).isSome = true := by rfl
  obtain ⟨⟨m', t⟩, hbyHand⟩ := Option.isSome_iff_exists.1 htwo
  have hcutOff : ((m.load [⟨0, .jump 0⟩]).client 4 s).map (fun (_, answer, _) => answer) =
      some (.error (.stepLimitExceeded 4)) := by rfl
  obtain ⟨⟨calls, _, m'', u⟩, hspin, rfl⟩ := Option.map_eq_some_iff.1 hcutOff
  have hspinHalts : (m.load [⟨0, .jump 0⟩]).Halts s _ := (client_eq_some_iff.1 hspin).2.halts
  have hspinning : spinning = _ := hspinHalts.runToEnd_eq
  refine ⟨by rw [hrun], by rw [hrun, hclient], ⟨m', t, hbyHand, ?_⟩, ?_, ?_, ?_⟩
  · exact (hhand 2 m' t hbyHand _ _).2 hhalts
  · obtain ⟨calls, result, hle, hhalts, hclient⟩ := hlimit 4 rfl
    rw [hresult _ hhalts]
    exact ⟨calls, hle, hclient⟩
  · rw [hspinning]
  · rw [hspinning]
    exact (hcut _ 4 _ _ hspinHalts).2.2.1

end Machine

end GridRobot
