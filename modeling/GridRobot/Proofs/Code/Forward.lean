import GridRobot.Proofs.Code.Derivation

/-!
# Forward code

A jump in lowered code always leads on: to a later instruction, or exactly to the
end of the code.  Distances are counted from the jump itself, so the property is
one of a piece of code on its own and survives when pieces are put side by side,
which is all that the lowering does with them.

**Results.**
* `Forward.append`, `Forward.choice`, `Forward.repeated`: the ways in which code is
  put together keep it forward.
* `Lowers.forward`, `Program.LowersFrom.forward`: lowered code is forward.
-/

namespace GridRobot

theorem Instruction.target?_eq_some_iff {i : Instruction} {ip : Nat} {t : Int} :
    i.target? ip = some t ↔ ∃ d, i.offset? = some d ∧ ip + d = t := by
  simp [Instruction.target?]

namespace Code

/-- Every jump leads on, at most to the end of the code. -/
def Forward (code : Code) : Prop :=
  ∀ (ip : Nat) (i : Instruction) (t : Int),
    code[ip]? = some i → i.target? ip = some t → (ip : Int) < t ∧ t ≤ code.length

theorem forward_iff {code : Code} :
    code.Forward ↔
      ∀ (ip : Nat) (i : Instruction) (d : Int),
        code[ip]? = some i → i.offset? = some d → 0 < d ∧ ip + d ≤ code.length := by
  constructor
  · intro h ip i d hi hd
    have ht := h ip i (ip + d) hi (Instruction.target?_eq_some_iff.2 ⟨d, hd, rfl⟩)
    omega
  · intro h ip i t hi ht
    obtain ⟨d, hd, rfl⟩ := Instruction.target?_eq_some_iff.1 ht
    have hd := h ip i d hi hd
    omega

theorem forward_nil : Forward [] := by
  intro ip i t hi
  simp at hi

/-- An instruction in front of forward code may jump as far as the end. -/
theorem Forward.cons {i : Instruction} {code : Code} (hcode : code.Forward)
    (hi : ∀ d, i.offset? = some d → 0 < d ∧ d ≤ code.length + 1) :
    Forward (i :: code) := by
  rw [forward_iff] at hcode ⊢
  intro ip j d hj hd
  cases ip with
  | zero =>
      cases hj
      have := hi d hd
      simp
      omega
  | succ ip =>
      rw [List.getElem?_cons_succ] at hj
      have := hcode ip j d hj hd
      simp
      omega

theorem Forward.append {first rest : Code} (hfirst : first.Forward) (hrest : rest.Forward) :
    Forward (first ++ rest) := by
  rw [forward_iff] at hfirst hrest ⊢
  intro ip i d hi hd
  rw [List.length_append]
  by_cases hlt : ip < first.length
  · rw [List.getElem?_append_left hlt] at hi
    have := hfirst ip i d hi hd
    omega
  · rw [List.getElem?_append_right (by omega)] at hi
    have := hrest (ip - first.length) i d hi hd
    omega

/-- The jump over the first branch reaches the second one, and the jump behind the first
branch reaches the end of the choice. -/
theorem Forward.choice {line : Nat} {c : Condition} {ys ns : Code}
    (hys : ys.Forward) (hns : ns.Forward) : Forward (Code.choice line c ys ns) := by
  have hjump : Forward (⟨line, .jump (ns.length + 1)⟩ :: ns) := by
    refine hns.cons fun d hd => ?_
    cases hd
    omega
  refine (hys.append hjump).cons fun d hd => ?_
  cases hd
  simp
  omega

theorem Forward.repeated {once : Code} (honce : once.Forward) (n : Nat) :
    Forward (Code.repeated n once) := by
  rw [repeated_eq_flatten]
  induction n with
  | zero =>
      exact forward_nil
  | succ n ih =>
      rw [List.replicate_succ, List.flatten_cons]
      exact honce.append ih

end Code

theorem Lowers.forward {m : Macros} {line : Nat} {bs : List Block} {code : Code}
    (h : Lowers m line bs code) : code.Forward := by
  induction h with
  | nil =>
      exact Code.forward_nil
  | act _ ih =>
      refine ih.cons fun d hd => ?_
      cases hd
  | choose _ _ _ ihyes ihno ih =>
      exact (ihyes.choice ihno).append ih
  | times _ _ ihbody ih =>
      exact (ihbody.repeated _).append ih
  | call _ _ _ ihbody ih =>
      exact ihbody.append ih

theorem Program.LowersFrom.forward {m : Macros} {line : Nat} {p : Program} {code : Code}
    (h : LowersFrom m line p code) : code.Forward := by
  induction h with
  | nil =>
      exact Code.forward_nil
  | cons hfirst _ ih =>
      exact hfirst.forward.append ih

end GridRobot
