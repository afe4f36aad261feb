import GridRobot.Proofs.Code.Acceptance

/-!
# What errors of the lowering say

An error names the line of the first block that has no code.  A name that is reported as
unknown has no body and is reached from that block.  A chain that is reported as a cycle is
one: the stack of names that the lowering hands down is always a path of distinct macros,
each of which calls the next one, and the chain is the end of this path from the first place
where the name stands that closes it.

**Results.**
* `Block.exists_call_of_lowerAll_error`: an error is about a length, or it is that of a call.
* `Macros.Trail.truthful`: what an error in the expansion of a call says is true.
* `Program.exists_line_of_compile_error`: a program fails at one block, and those before compile.
* `Program.compile_error_truthful`: what an error of a program says is true.
-/

namespace GridRobot

theorem bind_eq_error_iff {ε α β : Type} {x : Except ε α} {f : α → Except ε β} {e : ε} :
    x >>= f = .error e ↔ x = .error e ∨ ∃ a, x = .ok a ∧ f a = .error e := by
  cases x with
  | error cause =>
      simp [bind, Except.bind]
  | ok a =>
      simp [bind, Except.bind]

/-- When blocks one after the other have no code: the first one has none, or it is too long
together with the code so far, or the others have none. -/
theorem limited_append_eq_error_iff (tail : Nat → Except CompileError Code) {used : Nat}
    {cause e : CompileError} {head : Except CompileError Code} :
    (do
      let first ← head
      if used + first.length ≤ maxInstructions then
        let rest ← tail (used + first.length)
        return first ++ rest
      else
        throw cause) = .error e ↔
      head = .error e ∨
        ∃ first, head = .ok first ∧
          (maxInstructions < used + first.length ∧ e = cause ∨
            used + first.length ≤ maxInstructions ∧
              tail (used + first.length) = .error e) := by
  rw [bind_eq_error_iff]
  refine or_congr_right (exists_congr fun first => and_congr_right fun _ => ?_)
  split
  · rename_i hle
    rw [bind_eq_error_iff]
    simp [Nat.not_lt.2 hle, hle, pure, Except.pure]
  · rename_i hlt
    simp [Nat.lt_of_not_le hlt, hlt, throw, throwThe, MonadExceptOf.throw, eq_comm]

namespace Block

variable {expand : String → Except CompileError Code} {line : Nat} {e : CompileError}

mutual

theorem exists_call_of_lower_error :
    ∀ b : Block, b.lower expand line = .error e →
      e = .tooManyInstructions line ∨ ∃ name ∈ b.calls, expand name = .error e
  | act a, h => by
      rw [lower] at h
      cases h
  | choose c yes no, h => by
      rw [lower] at h
      rcases bind_eq_error_iff.1 h with hyes | ⟨ys, _, h⟩
      · rcases exists_call_of_lowerAll_error yes hyes with hlong | ⟨name, hname, hcall⟩
        · exact .inl hlong
        · exact .inr ⟨name, List.mem_append_left _ hname, hcall⟩
      · rcases bind_eq_error_iff.1 h with hno | ⟨ns, _, h⟩
        · rcases exists_call_of_lowerAll_error no hno with hlong | ⟨name, hname, hcall⟩
          · exact .inl hlong
          · exact .inr ⟨name, List.mem_append_right _ hname, hcall⟩
        · cases h
  | times n body, h => by
      rw [lower] at h
      rcases bind_eq_error_iff.1 h with hbody | ⟨once, _, h⟩
      · exact exists_call_of_lowerAll_error body hbody
      · split at h
        · cases h
        · cases h
          exact .inl rfl
  | call name, h => by
      rw [lower] at h
      exact .inr ⟨name, by simp [calls], h⟩

/-- Blocks have no code because of a length, or because a call in them has none. -/
theorem exists_call_of_lowerAll_error :
    ∀ (bs : List Block) {used : Nat}, lowerAll expand line used bs = .error e →
      e = .tooManyInstructions line ∨ ∃ name ∈ callsAll bs, expand name = .error e
  | [], used, h => by
      rw [lowerAll] at h
      cases h
  | b :: bs, used, h => by
      rw [lowerAll] at h
      rcases (limited_append_eq_error_iff fun used => lowerAll expand line used bs).1 h with
        hfirst | ⟨first, _, ⟨_, hlong⟩ | ⟨_, hrest⟩⟩
      · rcases exists_call_of_lower_error b hfirst with hlong | ⟨name, hname, hcall⟩
        · exact .inl hlong
        · exact .inr ⟨name, List.mem_append_left _ hname, hcall⟩
      · exact .inl hlong
      · rcases exists_call_of_lowerAll_error bs hrest with hlong | ⟨name, hname, hcall⟩
        · exact .inl hlong
        · exact .inr ⟨name, List.mem_append_right _ hname, hcall⟩

end

end Block

namespace Macros

/-- A chain of names that comes back to its start and meets no other name twice.  Each name
has a body in which the next one is called. -/
def Circle (m : Macros) (start : String) (chain : List String) : Prop :=
  ∃ between, chain = start :: (between ++ [start]) ∧ (start :: between).Nodup ∧
    chain.IsChain m.Refers

end Macros

/-- What an error says is true of the blocks at a line. -/
def CompileError.Truthful (m : Macros) (line : Nat) (bs : List Block) : CompileError → Prop
  | unknownMacro name l => l = line ∧ m.body? name = none ∧ m.Reaches bs name
  | macroCycle chain => ∃ start, m.Circle start chain ∧ m.Reaches bs start
  | tooManyInstructions l => l = line

namespace Macros

variable {m : Macros} {line : Nat} {bs : List Block}

/-- The names on the stack lead, each to the next one, to the name that is called.  They are
distinct, and all are reached from the blocks that are lowered. -/
structure Trail (m : Macros) (bs : List Block) (stack : List String) (called : String) :
    Prop where
  path : (stack ++ [called]).IsChain m.Refers
  distinct : stack.Nodup
  reached : ∀ name ∈ stack ++ [called], m.Reaches bs name

theorem Trail.start {called : String} (h : called ∈ Block.callsAll bs) :
    m.Trail bs [] called where
  path := .singleton called
  distinct := .nil
  reached name hname := by
    rw [List.nil_append, List.mem_singleton] at hname
    rw [hname]
    exact reaches_of_mem_callsAll bs h

theorem Trail.enter {stack : List String} {name called : String} (h : m.Trail bs stack name)
    (hname : name ∉ stack) (hcalled : m.Refers name called) :
    m.Trail bs (stack ++ [name]) called where
  path := by
    refine List.isChain_append.2 ⟨h.path, .singleton called, ?_⟩
    intro last hlast next hnext
    simp only [List.getLast?_append, List.getLast?_singleton, Option.some_or, Option.mem_def,
      Option.some.injEq, List.head?_cons] at hlast hnext
    subst hlast hnext
    exact hcalled
  distinct := by
    simpa [List.nodup_append] using ⟨h.distinct, fun other hother heq => hname (heq ▸ hother)⟩
  reached other hother := by
    rcases List.mem_append.1 hother with hstack | hlast
    · exact h.reached other hstack
    · rw [List.mem_singleton.1 hlast]
      exact (h.reached name (by simp)).refers hcalled

/-- When a name of the trail is called again, the trail from there on is a circle. -/
theorem Trail.circle {stack : List String} {name : String} (h : m.Trail bs stack name)
    (hname : name ∈ stack) : m.Circle name (stack.dropWhile (· ≠ name) ++ [name]) := by
  obtain ⟨before, between, rfl, hbefore⟩ := List.eq_append_cons_of_mem hname
  have hchain : (before ++ name :: between).dropWhile (· ≠ name) = name :: between := by
    rw [List.dropWhile_append_of_pos]
    · simp
    · intro other hother
      simpa using fun heq : other = name => hbefore (heq ▸ hother)
  refine ⟨between, ?_, ?_, ?_⟩
  · rw [hchain, List.cons_append]
  · exact h.distinct.sublist (List.sublist_append_right ..)
  · rw [hchain]
    refine h.path.suffix ⟨before, ?_⟩
    rw [List.append_assoc]

/-- What an error in the expansion of a call says is true of the blocks that the trail
started from. -/
theorem Trail.truthful {stack : List String} {name : String} {e : CompileError}
    (htrail : m.Trail bs stack name) (h : m.expand line stack name = .error e) :
    e.Truthful m line bs := by
  by_cases hstack : name ∈ stack
  · rw [m.expand_of_mem line hstack] at h
    cases h
    exact ⟨name, htrail.circle hstack, htrail.reached name (by simp)⟩
  · cases hbody : m.body? name with
    | none =>
        rw [m.expand_of_undefined line hstack hbody] at h
        cases h
        exact ⟨rfl, hbody, htrail.reached name (by simp)⟩
    | some body =>
        have hlt := m.length_fresh_lt ((m.isSome_body? name).1 (by simp [hbody])) hstack
        rw [m.expand_of_body line hstack hbody] at h
        rcases Block.exists_call_of_lowerAll_error body h with rfl | ⟨called, hmem, hcall⟩
        · rfl
        · exact (htrail.enter hstack ⟨body, hbody, hmem⟩).truthful hcall
termination_by (m.fresh stack).length

/-- What an error of a block says is true of it. -/
theorem truthful_of_lower_error {b : Block} {e : CompileError}
    (h : b.lower (m.expand line []) line = .error e) : e.Truthful m line [b] := by
  rcases Block.exists_call_of_lower_error b h with rfl | ⟨name, hname, hcall⟩
  · rfl
  · exact (Trail.start (by simpa [Block.callsAll] using hname)).truthful hcall

end Macros

namespace Program

variable {m : Macros} {p : Program}

theorem compileFrom_cons_eq_error_iff {line used : Nat} {b : Block} {bs : Program}
    {e : CompileError} :
    compileFrom m line used (b :: bs) = .error e ↔
      b.lower (m.expand line []) line = .error e ∨
        ∃ first, b.lower (m.expand line []) line = .ok first ∧
          (maxInstructions < used + first.length ∧ e = .tooManyInstructions line ∨
            used + first.length ≤ maxInstructions ∧
              compileFrom m (line + 1) (used + first.length) bs = .error e) := by
  rw [compileFrom]
  exact limited_append_eq_error_iff fun used => compileFrom m (line + 1) used bs

/-- A program fails at one of its blocks, and those before have code.  The block is too long
together with the code so far, or has no code itself.  What comes behind it does not matter. -/
theorem exists_of_compileFrom_error {line used : Nat} {e : CompileError}
    (h : compileFrom m line used p = .error e) :
    ∃ before b after, p = before ++ b :: after ∧
      (∃ code, compileFrom m line used before = .ok code) ∧
      compileFrom m line used (before ++ [b]) = .error e ∧
      e.Truthful m (line + before.length) [b] := by
  induction p generalizing line used with
  | nil =>
      rw [compileFrom] at h
      cases h
  | cons b bs ih =>
      rw [compileFrom_cons_eq_error_iff] at h
      rcases h with hfirst | ⟨first, hfirst, ⟨hlt, rfl⟩ | ⟨hle, hrest⟩⟩
      · exact ⟨[], b, bs, rfl, ⟨[], rfl⟩, compileFrom_cons_eq_error_iff.2 (.inl hfirst),
          Macros.truthful_of_lower_error hfirst⟩
      · exact ⟨[], b, bs, rfl, ⟨[], rfl⟩,
          compileFrom_cons_eq_error_iff.2 (.inr ⟨first, hfirst, .inl ⟨hlt, rfl⟩⟩), rfl⟩
      · obtain ⟨before, culprit, after, rfl, ⟨rest, hcode⟩, herror, htrue⟩ := ih hrest
        refine ⟨b :: before, culprit, after, rfl, ⟨first ++ rest, ?_⟩, ?_, ?_⟩
        · exact compileFrom_cons_eq_ok_iff.2 ⟨first, rest, hfirst, hle, hcode, rfl⟩
        · exact compileFrom_cons_eq_error_iff.2 (.inr ⟨first, hfirst, .inr ⟨hle, herror⟩⟩)
        · rw [List.length_cons, Nat.add_comm before.length, ← Nat.add_assoc]
          exact htrue

/-- A program fails at the block in a line: the blocks before it compile, and with it they fail
in the same way. -/
theorem exists_line_of_compile_error {e : CompileError} (h : p.compile m = .error e) :
    ∃ line b, p[line]? = some b ∧ e.Truthful m line [b] ∧
      (∃ code, Program.compile (p.take line) m = .ok code) ∧
      Program.compile (p.take (line + 1)) m = .error e := by
  obtain ⟨before, b, after, rfl, hcode, herror, htrue⟩ := exists_of_compileFrom_error h
  rw [Nat.zero_add] at htrue
  refine ⟨before.length, b, by simp, htrue, ?_, ?_⟩
  · simpa [Program.compile] using hcode
  · rw [List.take_length_add_append]
    exact herror

/-- A program fails at the block in a line, and the blocks before it compile. -/
theorem exists_of_compile_error {e : CompileError} (h : p.compile m = .error e) :
    ∃ line b, p[line]? = some b ∧ e.Truthful m line [b] ∧
      ∃ code, Program.compile (p.take line) m = .ok code := by
  obtain ⟨line, b, hb, htrue, hcode, _⟩ := exists_line_of_compile_error h
  exact ⟨line, b, hb, htrue, hcode⟩

/-- **Errors tell the truth.**  A chain that is reported as a cycle is a circle of calls that
the program reaches.  A name that is reported as unknown has no body, the block in the line
that is given reaches it, and the blocks before this one compile on their own. -/
theorem compile_error_truthful (p : Program) (m : Macros) :
    (∀ chain, p.compile m = .error (.macroCycle chain) →
      ∃ start, m.Circle start chain ∧ m.Reaches p start) ∧
    ∀ name line, p.compile m = .error (.unknownMacro name line) →
      m.body? name = none ∧ ∃ b, p[line]? = some b ∧ m.Reaches [b] name ∧
        ∃ code, Program.compile (p.take line) m = .ok code := by
  constructor
  · intro chain h
    obtain ⟨line, b, hb, ⟨start, hcircle, hstart⟩, _⟩ := exists_of_compile_error h
    exact ⟨start, hcircle, hstart.of_mem (List.mem_of_getElem? hb)⟩
  · intro name line h
    obtain ⟨_, b, hb, ⟨rfl, hbody, hreach⟩, hcode⟩ := exists_of_compile_error h
    exact ⟨hbody, b, hb, hreach, hcode⟩

/-- A circle is entered from a macro outside of it and goes through a branch and a loop that
is never run; a name without a body is called in the body of a macro. -/
theorem compile_error_truthful_on_circle :
    let m : Macros :=
      .ofList [("a", [.call "b"]), ("b", [.choose .frontIsClear [.times 0 [.call "c"]] []]),
        ("c", [.act .move, .call "b"]), ("d", [.call "e"])]
    let p : Program := [.act .move, .call "a"]
    let q : Program := [.act .move, .times 2 [.call "d"], .call "a"]
    p.compile m = .error (.macroCycle ["b", "c", "b"]) ∧
      (∃ start, m.Circle start ["b", "c", "b"] ∧ m.Reaches p start) ∧
      q.compile m = .error (.unknownMacro "e" 1) ∧
      m.body? "e" = none ∧ ∃ b, q[1]? = some b ∧ m.Reaches [b] "e" ∧
        ∃ code, Program.compile (q.take 1) m = .ok code := by
  intro m p q
  have hcycle : p.compile m = .error (.macroCycle ["b", "c", "b"]) := by
    unfold p m
    cbv
  have hunknown : q.compile m = .error (.unknownMacro "e" 1) := by
    unfold q m
    cbv
  exact ⟨hcycle, (compile_error_truthful p m).1 _ hcycle, hunknown,
    (compile_error_truthful q m).2 _ _ hunknown⟩

end Program

end GridRobot
