import GridRobot.Session.Binary

/-!
# Readers run out of bytes

A reader goes through the bytes from the front.  On the front part of some bytes it does what
it does on all of them, until it runs out: either it finds the end of the data, or it gives
the answer that it gives on all the bytes and leaves what it leaves of them, less the bytes
behind the front part.

A reader of blocks is built for a depth, and for more bytes it is built for a greater one.  So
the property relates the reader that is used on the front part to the reader that is used on
all the bytes.

**Results.**
* `Reader.Foretells.bind`: the property is kept when readers are composed.
* `Reader.foretells_text`, `Reader.Foretells.list`: counted texts and lists.
* `Block.foretells_readNested`: a reader of blocks foretells every reader that admits a depth
  at least as great.
* `Reader.Foretells.endOfData_of_prefix`: of bytes that are used up, a front part is found to
  end too early.
-/

namespace GridRobot

namespace Reader

variable {α β : Type} {r r' : Reader α}

/-- What `r` answers on the front part of some bytes is what `r'` answers on all of them, or it
is that the data end there. -/
def Foretells (r r' : Reader α) : Prop :=
  ∀ bytes more, r bytes = .error .endOfData ∨
    r' (bytes ++ more) = (r bytes).map fun p => (p.1, p.2 ++ more)

/-- If a reader uses some bytes up, then in front of the last of them it finds the end of the
data. -/
theorem Foretells.endOfData_of_prefix (h : Foretells r r) {bytes front : Bytes} {a : α}
    (hread : r bytes = .ok (a, [])) (hfront : front <+: bytes) (hne : front ≠ bytes) :
    r front = .error .endOfData := by
  obtain ⟨more, rfl⟩ := hfront
  rcases h front more with hend | hall
  · exact hend
  · rw [hread] at hall
    cases hr : r front with
    | error e =>
        rw [hr] at hall
        cases hall
    | ok p =>
        rw [hr] at hall
        injection hall with hpair
        have hrest : [] = p.2 ++ more := congrArg Prod.snd hpair
        have hmore : more = [] := (List.append_eq_nil_iff.1 hrest.symm).2
        rw [hmore, List.append_nil] at hne
        exact absurd rfl hne

/-! ### Composed readers -/

theorem foretells_pure (a : α) : Foretells (pure a) (pure a) :=
  fun _ _ => .inr rfl

theorem foretells_throw (e : BinaryError) : Foretells (throw e : Reader α) (throw e) :=
  fun _ _ => .inr rfl

/-- Where the data end, nothing is foretold. -/
theorem foretells_of_endOfData (r : Reader α) : Foretells (throw .endOfData) r :=
  fun _ _ => .inl rfl

theorem Foretells.bind {f f' : α → Reader β} (hr : Foretells r r')
    (hf : ∀ a, Foretells (f a) (f' a)) : Foretells (r >>= f) (r' >>= f') := by
  intro bytes more
  rcases hr bytes more with hend | hall
  · exact .inl (bind_of_error hend)
  · cases hfront : r bytes with
    | error e =>
        rw [hfront] at hall
        refine .inr ?_
        rw [bind_of_error hfront]
        exact bind_of_error hall
    | ok p =>
        obtain ⟨a, rest⟩ := p
        rw [hfront] at hall
        rw [bind_of_ok hfront, bind_of_ok hall]
        exact hf a rest more

/-! ### Numbers, texts and lists -/

theorem foretells_byte : Foretells byte byte := by
  intro bytes more
  cases bytes with
  | nil => exact .inl rfl
  | cons b rest => exact .inr rfl

theorem foretells_number (top : UInt8) (n : Nat) : Foretells (number top n) (number top n) := by
  induction n with
  | zero =>
      exact foretells_throw _
  | succ n ih =>
      rw [number]
      refine foretells_byte.bind fun b => ?_
      split
      · split
        · exact foretells_throw _
        · exact foretells_pure _
      · exact ih.bind fun high => foretells_pure _

theorem foretells_word : Foretells word word :=
  foretells_number 1 10

theorem foretells_form : Foretells form form :=
  foretells_number 15 5

theorem foretells_short : Foretells short short :=
  foretells_form.bind fun _ => foretells_pure _

theorem foretells_variant (options : List α) : Foretells (variant options) (variant options) := by
  refine foretells_form.bind fun n => ?_
  split
  · exact foretells_pure _
  · exact foretells_throw _

theorem foretells_take (n : Nat) : Foretells (take n) (take n) := by
  intro bytes more
  by_cases hn : n ≤ bytes.length
  · have hlong : n ≤ (bytes ++ more).length := by
      rw [List.length_append]
      exact Nat.le_add_right_of_le hn
    refine .inr ?_
    rw [take, take, if_pos hn, if_pos hlong, List.take_append_of_le_length hn,
      List.drop_append_of_le_length hn]
    rfl
  · exact .inl (if_neg hn)

theorem foretells_text : Foretells text text := by
  refine foretells_word.bind fun n => (foretells_take n).bind fun bytes => ?_
  split
  · exact foretells_pure _
  · exact foretells_throw _

theorem Foretells.many (h : Foretells r r') (n : Nat) (done : List α) :
    Foretells (many r n done) (many r' n done) := by
  induction n generalizing done with
  | zero => exact foretells_pure _
  | succ n ih => exact h.bind fun a => ih (a :: done)

theorem Foretells.list (h : Foretells r r') : Foretells (list r) (list r') :=
  foretells_word.bind fun n => h.many n []

end Reader

open Reader

/-! ### Blocks -/

theorem Condition.foretells_read : Foretells Condition.read Condition.read := by
  refine foretells_form.bind fun n => ?_
  split
  case h_5 => exact (foretells_variant _).bind fun d => foretells_pure _
  case h_6 => exact foretells_throw _
  all_goals exact foretells_pure _

namespace Block

theorem foretells_readNested {depth depth' : Nat} (h : depth ≤ depth') :
    Foretells (readNested depth) (readNested depth') := by
  induction depth generalizing depth' with
  | zero =>
      exact foretells_of_endOfData _
  | succ depth ih =>
      obtain ⟨depth', rfl⟩ : ∃ d, depth' = d + 1 := Nat.exists_eq_add_one.2 (by omega)
      have hlist := (ih (Nat.le_of_succ_le_succ h)).list
      rw [readNested, readNested]
      refine foretells_form.bind fun n => ?_
      split
      · exact (foretells_variant _).bind fun a => foretells_pure _
      · exact Condition.foretells_read.bind fun c =>
          hlist.bind fun yes => hlist.bind fun no => foretells_pure _
      · exact foretells_short.bind fun n => hlist.bind fun body => foretells_pure _
      · exact foretells_text.bind fun name => foretells_pure _
      · exact foretells_throw _

/-- There is as much depth as there are bytes, so more bytes give no less depth. -/
theorem foretells_readList : Foretells readList readList := by
  intro bytes more
  have hdepth : bytes.length ≤ (bytes ++ more).length := by
    rw [List.length_append]
    exact Nat.le_add_right ..
  exact (foretells_readNested hdepth).list bytes more

end Block

end GridRobot
