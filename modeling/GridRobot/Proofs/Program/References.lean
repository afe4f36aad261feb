import GridRobot.Program.Macros

/-!
# References between blocks

A list of blocks leads to further lists: to the branches of its choices, to the bodies of
its loops, also of those that are never run, and to the bodies of the macros that it calls.
What is reached in this way may be reached again and again, since macros may call each
other in a circle, and a name that is reached need not have a body.

**Results.**
* `Macros.Reached.trans`, `Macros.Reaches.of_reached`: what is reached from a reached list is
  reached.
* `Macros.AllDefined.of_reached`, `Macros.Acyclic.of_reached`, `Macros.Avoids.of_reached`: what
  holds of all that is reached holds from a reached list on.
* `Macros.reaches_cons`: what a block adds to the names that are reached.
* `Macros.reaches_of_mem_callsAll`, `Macros.Reaches.refers`: names that are called are reached,
  and so are the names that their bodies call.
-/

namespace GridRobot

namespace Block

/-- A block leads to a list of blocks: a branch, the body of a loop, or the body of the macro
that is called. -/
inductive Opens (m : Macros) : Block → List Block → Prop
  | yes {c : Condition} {yes no : List Block} : Opens m (.choose c yes no) yes
  | no {c : Condition} {yes no : List Block} : Opens m (.choose c yes no) no
  | body {n : UInt32} {body : List Block} : Opens m (.times n body) body
  | macroBody {name : String} {body : List Block} (hname : m.body? name = some body) :
      Opens m (.call name) body

mutual

/-- The names that are called in a block, at any depth. -/
def calls : Block → List String
  | act _ => []
  | choose _ yes no => callsAll yes ++ callsAll no
  | times _ body => callsAll body
  | call name => [name]

/-- The names that are called in blocks, at any depth. -/
def callsAll : List Block → List String
  | [] => []
  | b :: bs => calls b ++ callsAll bs

end

end Block

namespace Macros

variable {m : Macros}

/-- The lists of blocks that are reached from a list of blocks. -/
inductive Reached (m : Macros) (top : List Block) : List Block → Prop
  | top : Reached m top top
  | inside {bs inner : List Block} {b : Block} (hbs : Reached m top bs) (hb : b ∈ bs)
      (hinner : b.Opens m inner) : Reached m top inner

/-- A name is called in a list that is reached. -/
def Reaches (m : Macros) (top : List Block) (name : String) : Prop :=
  ∃ bs, m.Reached top bs ∧ .call name ∈ bs

/-- The body of a macro calls a name, at some depth. -/
def Refers (m : Macros) (name called : String) : Prop :=
  ∃ body, m.body? name = some body ∧ called ∈ Block.callsAll body

/-- Every name that is reached has a body. -/
def AllDefined (m : Macros) (top : List Block) : Prop :=
  ∀ name, m.Reaches top name → ∃ body, m.body? name = some body

/-- No macro that is reached reaches itself. -/
def Acyclic (m : Macros) (top : List Block) : Prop :=
  ∀ name body, m.Reaches top name → m.body? name = some body → ¬ m.Reaches body name

/-- None of some names is reached. -/
def Avoids (m : Macros) (names : List String) (top : List Block) : Prop :=
  ∀ name ∈ names, ¬ m.Reaches top name

/-! ### Lists that are reached -/

theorem Reached.trans {xs ys zs : List Block} (hys : m.Reached xs ys) (hzs : m.Reached ys zs) :
    m.Reached xs zs := by
  induction hzs with
  | top =>
      exact hys
  | inside _ hb hinner ih =>
      exact ih.inside hb hinner

/-- The first step on the way to a list that is reached. -/
theorem reached_iff {top inner : List Block} :
    m.Reached top inner ↔
      inner = top ∨ ∃ b ∈ top, ∃ next, b.Opens m next ∧ m.Reached next inner := by
  constructor
  · intro h
    induction h with
    | top =>
        exact .inl rfl
    | inside _ hb hinner ih =>
        rcases ih with rfl | ⟨first, hfirst, next, hnext, hreached⟩
        · exact .inr ⟨_, hb, _, hinner, .top⟩
        · exact .inr ⟨first, hfirst, next, hnext, hreached.inside hb hinner⟩
  · rintro (rfl | ⟨b, hb, next, hnext, hreached⟩)
    · exact .top
    · exact Reached.trans (.inside .top hb hnext) hreached

/-! ### Names that are reached -/

theorem Reaches.of_reached {xs ys : List Block} {name : String} (hys : m.Reached xs ys)
    (h : m.Reaches ys name) : m.Reaches xs name := by
  obtain ⟨bs, hbs, hcall⟩ := h
  exact ⟨bs, hys.trans hbs, hcall⟩

theorem Reaches.reached_body {xs body : List Block} {name : String} (h : m.Reaches xs name)
    (hbody : m.body? name = some body) : m.Reached xs body := by
  obtain ⟨bs, hbs, hcall⟩ := h
  exact hbs.inside hcall (.macroBody hbody)

theorem AllDefined.of_reached {xs ys : List Block} (h : m.AllDefined xs) (hys : m.Reached xs ys) :
    m.AllDefined ys :=
  fun name hname => h name (hname.of_reached hys)

theorem Acyclic.of_reached {xs ys : List Block} (h : m.Acyclic xs) (hys : m.Reached xs ys) :
    m.Acyclic ys :=
  fun name body hname => h name body (hname.of_reached hys)

theorem Avoids.of_reached {names : List String} {xs ys : List Block} (h : m.Avoids names xs)
    (hys : m.Reached xs ys) : m.Avoids names ys :=
  fun name hname hreach => h name hname (hreach.of_reached hys)

/-- A body that reaches its own name would be one of those that it reaches. -/
theorem Acyclic.not_reaches_self {name : String} {body : List Block} (h : m.Acyclic body)
    (hbody : m.body? name = some body) : ¬ m.Reaches body name :=
  fun hself => h name body hself hbody hself

theorem avoids_nil (top : List Block) : m.Avoids [] top := by
  simp [Avoids]

theorem avoids_append_singleton {names : List String} {name : String} {top : List Block} :
    m.Avoids (names ++ [name]) top ↔ m.Avoids names top ∧ ¬ m.Reaches top name := by
  simp [Avoids, or_imp, forall_and]

theorem not_reaches_nil (name : String) : ¬ m.Reaches [] name := by
  rintro ⟨bs, hbs, hcall⟩
  rcases reached_iff.1 hbs with rfl | ⟨b, hb, _⟩
  · simp at hcall
  · simp at hb

/-- A name is reached from blocks when the first one calls it, leads to it, or the others
reach it. -/
theorem reaches_cons {b : Block} {bs : List Block} {name : String} :
    m.Reaches (b :: bs) name ↔
      b = .call name ∨ (∃ next, b.Opens m next ∧ m.Reaches next name) ∨ m.Reaches bs name := by
  constructor
  · rintro ⟨inner, hinner, hcall⟩
    rcases reached_iff.1 hinner with rfl | ⟨first, hfirst, next, hnext, hreached⟩
    · rcases List.mem_cons.1 hcall with hb | hbs
      · exact .inl hb.symm
      · exact .inr (.inr ⟨bs, .top, hbs⟩)
    · rcases List.mem_cons.1 hfirst with rfl | hbs
      · exact .inr (.inl ⟨next, hnext, inner, hreached, hcall⟩)
      · exact .inr (.inr ⟨inner, Reached.trans (.inside .top hbs hnext) hreached, hcall⟩)
  · rintro (rfl | ⟨next, hnext, hname⟩ | ⟨inner, hinner, hcall⟩)
    · exact ⟨_, .top, List.mem_cons_self⟩
    · exact hname.of_reached (.inside .top List.mem_cons_self hnext)
    · rcases reached_iff.1 hinner with rfl | ⟨first, hfirst, next, hnext, hreached⟩
      · exact ⟨_, .top, List.mem_cons_of_mem _ hcall⟩
      · have hnext : m.Reached (b :: bs) next :=
          .inside .top (List.mem_cons_of_mem _ hfirst) hnext
        exact ⟨inner, hnext.trans hreached, hcall⟩

variable {bs : List Block} {name : String}

theorem reaches_act {a : Action} : m.Reaches (.act a :: bs) name ↔ m.Reaches bs name := by
  rw [reaches_cons]
  constructor
  · rintro (hb | ⟨next, hnext, _⟩ | hbs)
    · cases hb
    · cases hnext
    · exact hbs
  · intro hbs
    exact .inr (.inr hbs)

theorem reaches_choose {c : Condition} {yes no : List Block} :
    m.Reaches (.choose c yes no :: bs) name ↔
      m.Reaches yes name ∨ m.Reaches no name ∨ m.Reaches bs name := by
  rw [reaches_cons]
  constructor
  · rintro (hb | ⟨next, hnext, hname⟩ | hbs)
    · cases hb
    · cases hnext with
      | yes =>
          exact .inl hname
      | no =>
          exact .inr (.inl hname)
    · exact .inr (.inr hbs)
  · rintro (hyes | hno | hbs)
    · exact .inr (.inl ⟨yes, .yes, hyes⟩)
    · exact .inr (.inl ⟨no, .no, hno⟩)
    · exact .inr (.inr hbs)

theorem reaches_times {n : UInt32} {body : List Block} :
    m.Reaches (.times n body :: bs) name ↔ m.Reaches body name ∨ m.Reaches bs name := by
  rw [reaches_cons]
  constructor
  · rintro (hb | ⟨next, hnext, hname⟩ | hbs)
    · cases hb
    · cases hnext
      exact .inl hname
    · exact .inr hbs
  · rintro (hbody | hbs)
    · exact .inr (.inl ⟨body, .body, hbody⟩)
    · exact .inr (.inr hbs)

theorem reaches_call {called : String} {body : List Block} (hcalled : m.body? called = some body) :
    m.Reaches (.call called :: bs) name ↔
      called = name ∨ m.Reaches body name ∨ m.Reaches bs name := by
  rw [reaches_cons]
  constructor
  · rintro (hb | ⟨next, hnext, hname⟩ | hbs)
    · cases hb
      exact .inl rfl
    · cases hnext with
      | macroBody hnext =>
          rw [hcalled] at hnext
          cases hnext
          exact .inr (.inl hname)
    · exact .inr (.inr hbs)
  · rintro (rfl | hbody | hbs)
    · exact .inl rfl
    · exact .inr (.inl ⟨body, .macroBody hcalled, hbody⟩)
    · exact .inr (.inr hbs)

theorem reaches_call_of_undefined {called : String} (hcalled : m.body? called = none) :
    m.Reaches (.call called :: bs) name ↔ called = name ∨ m.Reaches bs name := by
  rw [reaches_cons]
  constructor
  · rintro (hb | ⟨next, hnext, _⟩ | hbs)
    · cases hb
      exact .inl rfl
    · cases hnext with
      | macroBody hnext =>
          rw [hcalled] at hnext
          cases hnext
    · exact .inr hbs
  · rintro (rfl | hbs)
    · exact .inl rfl
    · exact .inr (.inr hbs)

theorem Reaches.tail {b : Block} (h : m.Reaches bs name) : m.Reaches (b :: bs) name :=
  reaches_cons.2 (.inr (.inr h))

theorem Avoids.tail {names : List String} {b : Block} (h : m.Avoids names (b :: bs)) :
    m.Avoids names bs :=
  fun name hname hreach => h name hname hreach.tail

theorem Reaches.of_mem {b : Block} (h : m.Reaches [b] name) (hb : b ∈ bs) :
    m.Reaches bs name := by
  rcases reaches_cons.1 h with rfl | ⟨next, hnext, hname⟩ | hnil
  · exact ⟨bs, .top, hb⟩
  · exact hname.of_reached (.inside .top hb hnext)
  · exact absurd hnil (not_reaches_nil name)

/-! ### Names that are called -/

mutual

theorem reaches_of_mem_calls :
    ∀ (b : Block) {bs : List Block}, name ∈ b.calls → m.Reaches (b :: bs) name
  | .act _, _, h => by
      simp [Block.calls] at h
  | .choose _ yes no, _, h => by
      rw [Block.calls, List.mem_append] at h
      rw [reaches_choose]
      rcases h with hyes | hno
      · exact .inl (reaches_of_mem_callsAll yes hyes)
      · exact .inr (.inl (reaches_of_mem_callsAll no hno))
  | .times _ body, _, h => by
      rw [Block.calls] at h
      exact reaches_times.2 (.inl (reaches_of_mem_callsAll body h))
  | .call called, _, h => by
      rw [Block.calls, List.mem_singleton] at h
      exact reaches_cons.2 (.inl (by rw [h]))

/-- A name that is called at some depth is reached. -/
theorem reaches_of_mem_callsAll :
    ∀ bs : List Block, name ∈ Block.callsAll bs → m.Reaches bs name
  | [], h => by
      simp [Block.callsAll] at h
  | b :: bs, h => by
      rw [Block.callsAll, List.mem_append] at h
      rcases h with hb | hbs
      · exact reaches_of_mem_calls b hb
      · exact (reaches_of_mem_callsAll bs hbs).tail

end

/-- The names that the body of a reached macro calls are reached. -/
theorem Reaches.refers {called : String} (h : m.Reaches bs name) (hcalled : m.Refers name called) :
    m.Reaches bs called := by
  obtain ⟨body, hbody, hmem⟩ := hcalled
  exact (reaches_of_mem_callsAll body hmem).of_reached (h.reached_body hbody)

end Macros

end GridRobot
