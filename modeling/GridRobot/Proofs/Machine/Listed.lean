import Mathlib
import GridRobot.Proofs.Code.Rows
import GridRobot.Proofs.Machine.Coherence

/-!
# Machines go where listings say

The target of a jump is computed three times: for the marks of a listing, for the arrow in the row
of the jump, and by the machine that takes it.  The three agree for whatever code, with jumps back,
jumps to themselves, to the end and to nowhere: a jump is carried out when the target that is
printed lies in the code or at its end, it leads there, and the row that it leads to is marked.

**Results.**
* `Run.exists_steps_of_taken`: the step of a run at a jump that it takes.
* `Machine.step_of_taken`: when the step of a machine at a jump succeeds, and where it leads.
* `Code.listing_tells_jumps`: which rows a listing has, and that machines go where they say.
-/

namespace GridRobot

namespace Scene

variable {s : Scene} {size ip line : Nat} {d : Int}

theorem target?_of_taken {i : Instruction} (h : s.taken? i.op = some d) (ip : Nat) :
    i.target? ip = some (ip + d) := by
  obtain ⟨line, op⟩ := i
  cases op with
  | act a =>
      cases h
  | jumpIfFalse c d' =>
      cases hc : s.holds c with
      | true => simp [taken?, hc] at h
      | false =>
          obtain rfl : d' = d := by simpa [taken?, hc] using h
          rfl
  | jump d' =>
      cases h
      rfl

/-- A jump that is taken and lands leads to its target and leaves the scene alone. -/
theorem exists_executes_of_taken {op : Op} {target : Nat} (h : s.taken? op = some d)
    (hland : landing? size ip d = some target) :
    ∃ event, s.Executes size ip line op (.next target event s) := by
  cases op with
  | act a =>
      cases h
  | jumpIfFalse c d' =>
      cases hc : s.holds c with
      | true => simp [taken?, hc] at h
      | false =>
          obtain rfl : d' = d := by simpa [taken?, hc] using h
          exact ⟨_, .skipped hc hland⟩
  | jump d' =>
      cases h
      exact ⟨_, .jumped hland⟩

end Scene

namespace Run

variable {r : Run} {s : Scene} {i : Instruction} {d : Int}

/-- A run at a jump that it takes follows it into the code or to its end, and loses it when it
leads elsewhere. -/
theorem exists_steps_of_taken (hphase : r.phase.isFinished = false)
    (hi : r.code[r.cursor]? = some i) (htaken : s.taken? i.op = some d) :
    (∃ goesOn r' target, Scene.landing? r.code.size r.cursor d = some target ∧
      r.Steps s (.ok goesOn, r', s) ∧ r'.cursor = target) ∨
    ∃ e r', Scene.landing? r.code.size r.cursor d = none ∧ r.Steps s (.error e, r', s) := by
  cases hland : Scene.landing? r.code.size r.cursor d with
  | some target =>
      obtain ⟨event, hx⟩ : ∃ event, s.Executes r.code.size r.cursor i.line i.op
          (.next target event s) := Scene.exists_executes_of_taken htaken hland
      left
      by_cases hnext : target < r.code.size
      · exact ⟨_, _, target, rfl, .went hphase hi hx hnext, rfl⟩
      · exact ⟨_, _, target, rfl, .ended hphase hi hx (Nat.not_lt.1 hnext), rfl⟩
  | none =>
      have hout := Scene.landing?_eq_none_iff.1 hland
      exact .inr ⟨_, _, rfl, .lost hphase hi (Scene.executes_lost_iff.2 ⟨htaken, hout⟩)⟩

end Run

namespace Machine

variable {m : Machine} {s : Scene} {code : Code} {i : Instruction} {d : Int}

/-- The step at a jump that is taken succeeds when the target lies in the code or at its end, and
the cursor is there afterwards. -/
theorem step_of_taken (hcode : m.code? = some code) (hphase : m.phase.isFinished = false)
    (hi : code[m.cursor]? = some i) (htaken : s.taken? i.op = some d) :
    ((∃ goesOn, (m.step s).1 = .ok goesOn) ↔ 0 ≤ m.cursor + d ∧ m.cursor + d ≤ code.length) ∧
      ∀ goesOn, (m.step s).1 = .ok goesOn → ((m.step s).2.1.cursor : Int) = m.cursor + d := by
  obtain ⟨r, hr, rfl⟩ := Option.map_eq_some_iff.1 hcode
  have hcursor : m.cursor = r.cursor := by simp [cursor, hr]
  have hphase : r.phase.isFinished = false := by simpa [phase, hr] using hphase
  rw [hcursor] at hi ⊢
  rw [Array.length_toList]
  have hi : r.code[r.cursor]? = some i := by simpa using hi
  rcases Run.exists_steps_of_taken hphase hi htaken with
    ⟨goesOn, r', target, hland, hsteps, rfl⟩ | ⟨e, r', hland, hsteps⟩
  · obtain ⟨htarget, hle⟩ := Scene.landing?_eq_some_iff.1 hland
    rw [step_eq hr hsteps]
    refine ⟨iff_of_true ⟨goesOn, rfl⟩ (by omega), fun _ _ => ?_⟩
    simpa [cursor] using htarget.symm
  · have hout := Scene.landing?_eq_none_iff.1 hland
    rw [step_eq hr hsteps]
    refine ⟨iff_of_false ?_ (by omega), ?_⟩
    · rintro ⟨goesOn, heq⟩
      cases heq
    · intro goesOn heq
      cases heq

end Machine

namespace Code

open Listing (Row Readout)

variable {code : Code} {n : Nat}

theorem getElem?_readouts_of_lt {i : Instruction} (hi : code[n]? = some i) :
    (Listing.readouts code.listing)[n]? = some ⟨n, code.JumpsTo n, i.target? n⟩ := by
  have hlt := (List.getElem?_eq_some_iff.1 hi).1
  rw [readouts_listing, List.getElem?_append_left (by simpa using hlt), List.getElem?_mapIdx, hi]
  rfl

/-- The row to which a jump leads is marked. -/
theorem exists_marked (hjump : code.JumpsTo n) (hle : n ≤ code.length) :
    ∃ target?, (Listing.readouts code.listing)[n]? = some ⟨n, true, target?⟩ := by
  rcases Nat.lt_or_eq_of_le hle with hlt | rfl
  · refine ⟨code[n].target? n, ?_⟩
    rw [getElem?_readouts_of_lt (List.getElem?_eq_getElem hlt), decide_eq_true hjump]
  · refine ⟨none, ?_⟩
    have hne : code ≠ [] := by
      rintro rfl
      obtain ⟨ip, i, hi, _⟩ := hjump
      simp at hi
    rw [readouts_listing, if_pos ⟨hne, hjump⟩, List.getElem?_append_right (by simp)]
    simp

/-- **Machines go where listings say.**  A listing has one row for each instruction, in order and
numbered by the index, with a rule above it and a mark exactly if some jump leads there; behind
them there is a row for the end exactly if some jump of the code leads to it, and there is nothing
else.  A machine with the code that takes a jump makes a step exactly if the target that the row of
the jump prints lies in the code or at its end; then the cursor is at this target, whose row is
marked. -/
theorem listing_tells_jumps (code : Code) :
    code.listing.toList.splitOn '\n' = code.rows.map Row.line ++ [[]] ∧
    code.rows
      = (code.mapIdx fun ip i =>
          if code.JumpsTo ip then [Row.rule, .instruction true ip i]
          else [.instruction false ip i]).flatten
        ++ (if code ≠ [] ∧ code.JumpsTo code.length then [.ending code.length] else []) ∧
    Listing.readouts code.listing
      = (code.mapIdx fun ip i => (⟨ip, code.JumpsTo ip, i.target? ip⟩ : Readout))
        ++ (if code ≠ [] ∧ code.JumpsTo code.length then [⟨code.length, true, none⟩] else []) ∧
    ∀ (m : Machine) (s : Scene) (i : Instruction) (d : Int),
      m.code? = some code → m.phase.isFinished = false → code[m.cursor]? = some i →
        s.taken? i.op = some d →
        ∃ marked t, (Listing.readouts code.listing)[m.cursor]? = some ⟨m.cursor, marked, some t⟩ ∧
          ((∃ goesOn, (m.step s).1 = .ok goesOn) ↔ 0 ≤ t ∧ t ≤ code.length) ∧
          ∀ goesOn, (m.step s).1 = .ok goesOn →
            (m.step s).2.1.cursor = t ∧ ∃ target?,
              (Listing.readouts code.listing)[(m.step s).2.1.cursor]?
                = some ⟨(m.step s).2.1.cursor, true, target?⟩ := by
  refine ⟨Listing.splitOn_join_text code.rows, code.rows_eq, code.readouts_listing,
    fun m s i d hcode hphase hi htaken => ?_⟩
  have htarget := Scene.target?_of_taken htaken m.cursor
  obtain ⟨hok, hcursor⟩ := Machine.step_of_taken hcode hphase hi htaken
  have hrow := getElem?_readouts_of_lt hi
  rw [htarget] at hrow
  refine ⟨_, _, hrow, hok, fun goesOn hanswer => ?_⟩
  have heq := hcursor goesOn hanswer
  have hle := (hok.1 ⟨goesOn, hanswer⟩).2
  refine ⟨heq, exists_marked ⟨m.cursor, i, hi, ?_⟩ ?_⟩
  · rw [htarget, heq]
  · omega

/-- Two jumps lead to the second row, one of them from in front of it and one from behind, one jump
leads to the end and one to nowhere.  In front of a wall the run goes forward, back and to the end;
without the wall it loses a jump. -/
theorem listing_tells_jumps_both_ways :
    let code : Code := [⟨0, .jump 2⟩, ⟨0, .jumpIfFalse .frontIsClear 4⟩,
      ⟨1, .jumpIfFalse .frontIsClear (-1)⟩, ⟨1, .jumpIfFalse .frontIsBlocked (-9)⟩, ⟨2, .jump (-3)⟩]
    let closed : Scene := ⟨⟨0, 0, .east⟩, ⟨1, 1, #[.empty]⟩⟩
    let clear : Scene := ⟨⟨0, 0, .east⟩, ⟨2, 1, #[.empty, .empty]⟩⟩
    let first := (Machine.idle none).load code
    let back := (first.step closed).2.1
    let last := (back.step closed).2.1
    let leaving := (back.step clear).2.1
    Listing.readouts code.listing = [⟨0, false, some 2⟩, ⟨1, true, some 5⟩, ⟨2, true, some 1⟩,
      ⟨3, false, some (-6)⟩, ⟨4, false, some 1⟩, ⟨5, true, none⟩] ∧
    ((∃ goesOn, (first.step closed).1 = .ok goesOn) ∧ (first.step closed).2.1.cursor = 2) ∧
    ((∃ goesOn, (back.step closed).1 = .ok goesOn) ∧ (back.step closed).2.1.cursor = 1) ∧
    ((∃ goesOn, (last.step closed).1 = .ok goesOn) ∧ (last.step closed).2.1.cursor = 5) ∧
    ¬ ∃ goesOn, (leaving.step clear).1 = .ok goesOn := by
  intro code closed clear first back last leaving
  obtain ⟨_, _, hreadouts, hjumps⟩ := listing_tells_jumps code
  have hlisted : Listing.readouts code.listing = [⟨0, false, some 2⟩, ⟨1, true, some 5⟩,
      ⟨2, true, some 1⟩, ⟨3, false, some (-6)⟩, ⟨4, false, some 1⟩, ⟨5, true, none⟩] :=
    hreadouts.trans (by decide)
  rw [hlisted] at hjumps
  obtain ⟨_, _, hrow₀, hok₀, hgoes₀⟩ := hjumps first closed _ 2 rfl rfl rfl rfl
  obtain ⟨_, _, hrow₁, hok₁, hgoes₁⟩ := hjumps back closed _ (-1) rfl rfl rfl rfl
  obtain ⟨_, _, hrow₂, hok₂, hgoes₂⟩ := hjumps last closed _ 4 rfl rfl rfl rfl
  obtain ⟨_, _, hrow₃, hok₃, _⟩ := hjumps leaving clear _ (-9) rfl rfl rfl rfl
  cases hrow₀
  cases hrow₁
  cases hrow₂
  cases hrow₃
  obtain ⟨_, hanswer₀⟩ := hok₀.2 (by decide)
  obtain ⟨_, hanswer₁⟩ := hok₁.2 (by decide)
  obtain ⟨_, hanswer₂⟩ := hok₂.2 (by decide)
  exact ⟨hlisted, ⟨⟨_, hanswer₀⟩, Int.ofNat_inj.1 (hgoes₀ _ hanswer₀).1⟩,
    ⟨⟨_, hanswer₁⟩, Int.ofNat_inj.1 (hgoes₁ _ hanswer₁).1⟩,
    ⟨⟨_, hanswer₂⟩, Int.ofNat_inj.1 (hgoes₂ _ hanswer₂).1⟩,
    fun hok => absurd (hok₃.1 hok) (by decide)⟩

end Code

end GridRobot
