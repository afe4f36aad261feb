import GridRobot.Proofs.Code.Derivation
import GridRobot.Proofs.Program.References

/-!
# Unrolled size

How many instructions blocks come to when every loop is written out and every call is
replaced is said on the blocks, without any code.  Blocks have a size exactly when the
names that they reach have bodies and form no circle; this is also exactly when they have
code, if nothing is too long.

**Results.**
* `Macros.Unrolls.unique`: blocks have one size at most.
* `Macros.exists_unrolls_iff`: blocks have a size exactly when all names that they reach are
  defined and no macro that they reach reaches itself.
* `Lowers.unrolls`, `Program.LowersFrom.unrolls`: the size is the length of the code.
-/

namespace GridRobot

/-- The number of instructions that blocks come to. -/
inductive Macros.Unrolls (m : Macros) : List Block → Nat → Prop
  | nil : Unrolls m [] 0
  | act {a : Action} {bs : List Block} {k : Nat} (htail : Unrolls m bs k) :
      Unrolls m (.act a :: bs) (1 + k)
  | choose {c : Condition} {yes no bs : List Block} {i j k : Nat} (hyes : Unrolls m yes i)
      (hno : Unrolls m no j) (htail : Unrolls m bs k) :
      Unrolls m (.choose c yes no :: bs) (2 + i + j + k)
  | times {n : UInt32} {body bs : List Block} {i k : Nat} (hbody : Unrolls m body i)
      (htail : Unrolls m bs k) : Unrolls m (.times n body :: bs) (n.toNat * i + k)
  | call {name : String} {body bs : List Block} {i k : Nat} (hname : m.body? name = some body)
      (hbody : Unrolls m body i) (htail : Unrolls m bs k) :
      Unrolls m (.call name :: bs) (i + k)

namespace Macros

variable {m : Macros} {bs : List Block} {n : Nat}

theorem Unrolls.unique {k : Nat} (hn : m.Unrolls bs n) (hk : m.Unrolls bs k) : k = n := by
  induction hn generalizing k with
  | nil =>
      cases hk
      rfl
  | act _ ih =>
      cases hk with
      | act htail =>
          rw [ih htail]
  | choose _ _ _ ihyes ihno ih =>
      cases hk with
      | choose hyes hno htail =>
          rw [ihyes hyes, ihno hno, ih htail]
  | times _ _ ihbody ih =>
      cases hk with
      | times hbody htail =>
          rw [ihbody hbody, ih htail]
  | call hname _ _ ihbody ih =>
      cases hk with
      | call hname' hbody htail =>
          rw [hname] at hname'
          cases hname'
          rw [ihbody hbody, ih htail]

theorem unrolls_cons_iff {b : Block} :
    m.Unrolls (b :: bs) n ↔ ∃ i k, m.Unrolls [b] i ∧ m.Unrolls bs k ∧ n = i + k := by
  constructor
  · intro h
    cases h with
    | act htail =>
        exact ⟨_, _, .act .nil, htail, rfl⟩
    | choose hyes hno htail =>
        exact ⟨_, _, .choose hyes hno .nil, htail, rfl⟩
    | times hbody htail =>
        exact ⟨_, _, .times hbody .nil, htail, rfl⟩
    | call hname hbody htail =>
        exact ⟨_, _, .call hname hbody .nil, htail, rfl⟩
  · rintro ⟨i, k, hi, hk, rfl⟩
    cases hi with
    | act hnil =>
        cases hnil
        exact .act hk
    | choose hyes hno hnil =>
        cases hnil
        exact .choose hyes hno hk
    | times hbody hnil =>
        cases hnil
        exact .times hbody hk
    | call hname hbody hnil =>
        cases hnil
        exact .call hname hbody hk

/-! ### Which blocks have a size -/

theorem Unrolls.allDefined (h : m.Unrolls bs n) : m.AllDefined bs := by
  induction h with
  | nil =>
      intro name hname
      exact absurd hname (not_reaches_nil name)
  | act _ ih =>
      intro name hname
      exact ih name (reaches_act.1 hname)
  | choose _ _ _ ihyes ihno ih =>
      intro name hname
      rcases reaches_choose.1 hname with hyes | hno | hbs
      · exact ihyes name hyes
      · exact ihno name hno
      · exact ih name hbs
  | times _ _ ihbody ih =>
      intro name hname
      rcases reaches_times.1 hname with hbody | hbs
      · exact ihbody name hbody
      · exact ih name hbs
  | @call _ body _ _ _ hcalled _ _ ihbody ih =>
      intro name hname
      rcases (reaches_call hcalled).1 hname with rfl | hbody | hbs
      · exact ⟨body, hcalled⟩
      · exact ihbody name hbody
      · exact ih name hbs

theorem Unrolls.acyclic (h : m.Unrolls bs n) : m.Acyclic bs := by
  induction h with
  | nil =>
      intro name inner hname
      exact absurd hname (not_reaches_nil name)
  | act _ ih =>
      intro name inner hname
      exact ih name inner (reaches_act.1 hname)
  | choose _ _ _ ihyes ihno ih =>
      intro name inner hname
      rcases reaches_choose.1 hname with hyes | hno | hbs
      · exact ihyes name inner hyes
      · exact ihno name inner hno
      · exact ih name inner hbs
  | times _ _ ihbody ih =>
      intro name inner hname
      rcases reaches_times.1 hname with hbody | hbs
      · exact ihbody name inner hbody
      · exact ih name inner hbs
  | call hcalled _ _ ihbody ih =>
      intro name inner hname hinner
      rcases (reaches_call hcalled).1 hname with rfl | hbody | hbs
      · rw [hcalled] at hinner
        cases hinner
        exact Acyclic.not_reaches_self ihbody hcalled
      · exact ihbody name inner hbody hinner
      · exact ih name inner hbs hinner

/-- Blocks have a size when the bodies of the macros that they call have one. -/
theorem exists_unrolls_of_calls :
    ∀ bs : List Block,
      (∀ name ∈ Block.callsAll bs, ∃ body k, m.body? name = some body ∧ m.Unrolls body k) →
      ∃ n, m.Unrolls bs n
  | [], _ => ⟨0, .nil⟩
  | .act _ :: bs, h => by
      obtain ⟨k, hk⟩ := exists_unrolls_of_calls bs fun name hname => h name (by
        simpa [Block.callsAll, Block.calls] using hname)
      exact ⟨_, .act hk⟩
  | .choose _ yes no :: bs, h => by
      simp only [Block.callsAll, Block.calls, List.mem_append] at h
      obtain ⟨i, hi⟩ := exists_unrolls_of_calls yes fun name hname => h name (.inl (.inl hname))
      obtain ⟨j, hj⟩ := exists_unrolls_of_calls no fun name hname => h name (.inl (.inr hname))
      obtain ⟨k, hk⟩ := exists_unrolls_of_calls bs fun name hname => h name (.inr hname)
      exact ⟨_, .choose hi hj hk⟩
  | .times _ body :: bs, h => by
      simp only [Block.callsAll, Block.calls, List.mem_append] at h
      obtain ⟨i, hi⟩ := exists_unrolls_of_calls body fun name hname => h name (.inl hname)
      obtain ⟨k, hk⟩ := exists_unrolls_of_calls bs fun name hname => h name (.inr hname)
      exact ⟨_, .times hi hk⟩
  | .call called :: bs, h => by
      simp only [Block.callsAll, Block.calls, List.mem_append, List.mem_singleton] at h
      obtain ⟨body, i, hbody, hi⟩ := h called (.inl rfl)
      obtain ⟨k, hk⟩ := exists_unrolls_of_calls bs fun name hname => h name (.inr hname)
      exact ⟨_, .call hbody hi hk⟩

/-- The names on the stack are the macros that have been entered.  They are not met again,
so the bodies that are left get fewer. -/
theorem exists_unrolls_outside (stack : List String) (bs : List Block)
    (hstack : m.Avoids stack bs) (hdefined : m.AllDefined bs) (hacyclic : m.Acyclic bs) :
    ∃ n, m.Unrolls bs n := by
  refine exists_unrolls_of_calls bs fun name hcall => ?_
  have hname : m.Reaches bs name := reaches_of_mem_callsAll bs hcall
  obtain ⟨body, hbody⟩ := hdefined name hname
  have hreached : m.Reached bs body := hname.reached_body hbody
  have hfresh : name ∉ stack := fun hmem => hstack name hmem hname
  have hlt := m.length_fresh_lt ((m.isSome_body? name).1 (by simp [hbody])) hfresh
  have hentered : m.Avoids (stack ++ [name]) body :=
    avoids_append_singleton.2 ⟨hstack.of_reached hreached, hacyclic name body hname hbody⟩
  obtain ⟨k, hk⟩ := exists_unrolls_outside (stack ++ [name]) body hentered
    (hdefined.of_reached hreached) (hacyclic.of_reached hreached)
  exact ⟨body, k, hbody, hk⟩
termination_by (m.fresh stack).length

/-- Blocks have a size exactly when what they reach is defined and free of cycles. -/
theorem exists_unrolls_iff : (∃ n, m.Unrolls bs n) ↔ m.AllDefined bs ∧ m.Acyclic bs := by
  constructor
  · rintro ⟨n, h⟩
    exact ⟨h.allDefined, h.acyclic⟩
  · rintro ⟨hdefined, hacyclic⟩
    exact exists_unrolls_outside [] bs (avoids_nil bs) hdefined hacyclic

end Macros

/-! ### The size is the length of the code -/

theorem Lowers.unrolls {m : Macros} {line : Nat} {bs : List Block} {code : Code}
    (h : Lowers m line bs code) : m.Unrolls bs code.length := by
  induction h with
  | nil =>
      exact .nil
  | act _ ih =>
      rw [List.length_cons, Nat.add_comm]
      exact .act ih
  | @choose c _ _ _ ys ns rest _ _ _ ihyes ihno ih =>
      have hlength : (Code.choice line c ys ns ++ rest).length
          = 2 + ys.length + ns.length + rest.length := by
        rw [List.length_append, Code.length_choice]
        omega
      rw [hlength]
      exact .choose ihyes ihno ih
  | times _ _ ihbody ih =>
      rw [List.length_append, Code.length_repeated]
      exact .times ihbody ih
  | call hname _ _ ihbody ih =>
      rw [List.length_append]
      exact .call hname ihbody ih

theorem Macros.Unrolls.exists_lowers {m : Macros} {bs : List Block} {n : Nat}
    (h : m.Unrolls bs n) (line : Nat) : ∃ code, Lowers m line bs code := by
  induction h with
  | nil =>
      exact ⟨_, .nil⟩
  | act _ ih =>
      obtain ⟨rest, hrest⟩ := ih
      exact ⟨_, .act hrest⟩
  | choose _ _ _ ihyes ihno ih =>
      obtain ⟨ys, hys⟩ := ihyes
      obtain ⟨ns, hns⟩ := ihno
      obtain ⟨rest, hrest⟩ := ih
      exact ⟨_, .choose hys hns hrest⟩
  | times _ _ ihbody ih =>
      obtain ⟨once, honce⟩ := ihbody
      obtain ⟨rest, hrest⟩ := ih
      exact ⟨_, .times honce hrest⟩
  | call hname _ _ ihbody ih =>
      obtain ⟨inner, hinner⟩ := ihbody
      obtain ⟨rest, hrest⟩ := ih
      exact ⟨_, .call hname hinner hrest⟩

namespace Program

variable {m : Macros}

theorem LowersFrom.unrolls {line : Nat} {p : Program} {code : Code}
    (h : LowersFrom m line p code) : m.Unrolls p code.length := by
  induction h with
  | nil =>
      exact .nil
  | cons hfirst _ ih =>
      rw [List.length_append]
      exact Macros.unrolls_cons_iff.2 ⟨_, _, hfirst.unrolls, ih, rfl⟩

theorem exists_lowersFrom {p : Program} {n : Nat} (h : m.Unrolls p n) (line : Nat) :
    ∃ code, LowersFrom m line p code := by
  induction p generalizing n line with
  | nil =>
      exact ⟨_, .nil⟩
  | cons b bs ih =>
      obtain ⟨i, k, hi, hk, _⟩ := Macros.unrolls_cons_iff.1 h
      obtain ⟨first, hfirst⟩ := hi.exists_lowers line
      obtain ⟨rest, hrest⟩ := ih hk (line + 1)
      exact ⟨_, .cons hfirst hrest⟩

end Program

end GridRobot
