import Mathlib.Data.List.Basic
import Mathlib.Data.List.TakeWhile
import GridRobot.Proofs.Json.ReadBack

/-!
# Where a document ends

A token that has been read is the same token when more text stands behind it.  Only the end of
a numeral cannot be seen before something else comes: more digits may follow.  Inside the
braces of an object that does not matter, for behind a numeral there the object is still open.
So an object that has been read to its end is over: a longer text is no document, unless the
text behind the object is blank.  It follows that no text is read that stops inside an object.

**Results.**
* `Token.read?_append_of_eq_some`: a token with more text behind it.
* `Json.readFrom_append_eq_none`: what is read to its end is not read with more text behind it.
* `Json.read?_text_append`: what may stand behind the text of an object is blank.
* `Json.read?_eq_none_of_prefix`: a text that stops inside the text of an object is not read.
-/

namespace GridRobot

variable {cs more rest : List Char}

/-! ### Tokens -/

namespace Quoted

theorem scan_append_of_eq_some {units : List Nat} (h : scan cs = some (units, rest))
    (more : List Char) : scan (cs ++ more) = some (units, rest ++ more) := by
  induction cs using scan.induct generalizing units rest with
  | case1 =>
      cases h
  | case2 r =>
      rw [scan] at h
      cases h
      rfl
  | case3 a b c d r ih =>
      simp only [scan, Option.bind_eq_bind, Option.bind_eq_some_iff] at h
      obtain ⟨n, hn, p, hp, heq⟩ := h
      cases heq
      simp only [List.cons_append, scan, hn, ih hp, Option.bind_eq_bind, Option.bind_some]
      rfl
  | case4 e r hne ih =>
      rw [scan.eq_4 _ _ hne] at h
      simp only [Option.bind_eq_bind, Option.bind_eq_some_iff] at h
      obtain ⟨n, hn, p, hp, heq⟩ := h
      cases heq
      -- No escape of one letter is the letter in front of four digits.
      have hletter : e ≠ 'u' := by
        rintro rfl
        cases hn
      rw [List.cons_append, List.cons_append, scan.eq_4 _ _ fun _ _ _ _ _ hu _ => hletter hu,
        hn, ih hp]
      rfl
  | case5 c r h1 h2 h3 hbad =>
      rw [scan.eq_5 _ _ h1 h2 h3, if_pos hbad] at h
      cases h
  | case6 c r h1 h2 h3 hgood ih =>
      rw [scan.eq_5 _ _ h1 h2 h3, if_neg hgood] at h
      simp only [Option.bind_eq_bind, Option.bind_eq_some_iff] at h
      obtain ⟨p, hp, heq⟩ := h
      cases heq
      have hplain : c ≠ '\\' := fun hc => hgood (.inl hc)
      rw [List.cons_append, scan.eq_5 _ _ h1 (fun _ _ _ _ _ hc _ => hplain hc)
        (fun _ _ hc _ => hplain hc), if_neg hgood, ih hp]
      rfl

end Quoted

namespace Numeral

variable {hasPart : Bool}

theorem digits?_append_of_eq_some {ds : List Char} (h : digits? cs = some (ds, rest))
    (hrest : rest ≠ []) (more : List Char) :
    digits? (cs ++ more) = some (ds, rest ++ more) := by
  unfold digits? at h
  split at h
  · cases h
  · rename_i hds
    cases h
    have hsplit := List.takeWhile_append_dropWhile (p := Char.isDigit) (l := cs)
    have hshort : ¬ (cs.takeWhile Char.isDigit).length = cs.length := by
      intro hall
      have hlength := congrArg List.length hsplit
      rw [List.length_append, hall] at hlength
      exact hrest (List.eq_nil_of_length_eq_zero (by omega))
    rw [digits?, List.takeWhile_append, if_neg hshort, List.dropWhile_append,
      if_neg hds, if_neg (by simpa using hrest)]

theorem sign_append_of_ne_nil (hcs : cs ≠ []) (more : List Char) :
    sign (cs ++ more) = ((sign cs).1, (sign cs).2 ++ more) := by
  cases cs with
  | nil => exact absurd rfl hcs
  | cons c cs =>
      by_cases hc : c = '-'
      · rw [hc]
        rfl
      · rw [List.cons_append, sign.eq_2 _ fun _ h => hc (List.cons.inj h).1,
          sign.eq_2 _ fun _ h => hc (List.cons.inj h).1]
        rfl

theorem whole?_append_of_eq_some {ds : List Char} (h : whole? cs = some (ds, rest))
    (hrest : rest ≠ []) (more : List Char) :
    whole? (cs ++ more) = some (ds, rest ++ more) := by
  simp only [whole?, Option.bind_eq_bind, Option.bind_eq_some_iff] at h
  obtain ⟨⟨ds', rest'⟩, hd, h⟩ := h
  split at h
  · cases h
  · rename_i hzero
    cases h
    simp only [whole?, digits?_append_of_eq_some hd hrest more, Option.bind_eq_bind,
      Option.bind_some, if_neg hzero]

theorem fraction?_append_of_eq_some (h : fraction? cs = some (hasPart, rest)) (hrest : rest ≠ [])
    (more : List Char) : fraction? (cs ++ more) = some (hasPart, rest ++ more) := by
  unfold fraction? at h
  split at h
  · simp only [Option.map_eq_some_iff] at h
    obtain ⟨⟨ds, r⟩, hd, heq⟩ := h
    cases heq
    simp only [List.cons_append, fraction?, digits?_append_of_eq_some hd hrest more,
      Option.map_some]
  · rename_i hpoint
    cases h
    obtain ⟨c, cs, rfl⟩ := List.exists_cons_of_ne_nil hrest
    exact fraction?.eq_2 _ fun r heq => hpoint _ (congrArg (· :: cs) (List.cons.inj heq).1)

theorem exponentSign_append_of_ne_nil (hcs : cs ≠ []) (more : List Char) :
    exponentSign (cs ++ more) = exponentSign cs ++ more := by
  cases cs with
  | nil => exact absurd rfl hcs
  | cons c cs =>
      by_cases hplus : c = '+'
      · rw [hplus]
        rfl
      · by_cases hminus : c = '-'
        · rw [hminus]
          rfl
        · rw [List.cons_append, exponentSign.eq_3 _ (fun _ h => hplus (List.cons.inj h).1)
            (fun _ h => hminus (List.cons.inj h).1),
            exponentSign.eq_3 _ (fun _ h => hplus (List.cons.inj h).1)
            (fun _ h => hminus (List.cons.inj h).1)]
          rfl

theorem exponent?_append_of_eq_some (h : exponent? cs = some (hasPart, rest)) (hrest : rest ≠ [])
    (more : List Char) : exponent? (cs ++ more) = some (hasPart, rest ++ more) := by
  have hdigits : ∀ r : List Char,
      (digits? (exponentSign r)).map (fun p => (true, p.2)) = some (hasPart, rest) →
        (digits? (exponentSign (r ++ more))).map (fun p => (true, p.2))
          = some (hasPart, rest ++ more) := by
    intro r hr
    simp only [Option.map_eq_some_iff] at hr
    obtain ⟨⟨ds, r'⟩, hd, heq⟩ := hr
    cases heq
    have hne : r ≠ [] := by
      rintro rfl
      cases hd
    rw [exponentSign_append_of_ne_nil hne, digits?_append_of_eq_some hd hrest more]
    rfl
  unfold exponent? at h
  split at h
  · exact hdigits _ h
  · exact hdigits _ h
  · rename_i hlower hupper
    cases h
    obtain ⟨c, cs, rfl⟩ := List.exists_cons_of_ne_nil hrest
    exact exponent?.eq_3 _ (fun r heq => hlower _ (congrArg (· :: cs) (List.cons.inj heq).1))
      fun r heq => hupper _ (congrArg (· :: cs) (List.cons.inj heq).1)

/-- A numeral with something behind it does not become longer by what stands behind that. -/
theorem read?_append_of_eq_some {n : Option Nat} (h : read? cs = some (n, rest))
    (hrest : rest ≠ []) (more : List Char) : read? (cs ++ more) = some (n, rest ++ more) := by
  simp only [read?, Option.bind_eq_bind, Option.bind_eq_some_iff] at h
  obtain ⟨⟨ds, r1⟩, h1, ⟨f, r2⟩, h2, ⟨e, r3⟩, h3, heq⟩ := h
  cases heq
  have hne3 : 0 < r3.length := List.length_pos_iff.2 hrest
  have hle3 := length_exponent?_le h3
  have hle2 := length_fraction?_le h2
  simp only at hle2 hle3 h2 h3
  have hne2 : r2 ≠ [] := List.length_pos_iff.1 (by omega)
  have hne1 : r1 ≠ [] := List.length_pos_iff.1 (by omega)
  have hcs : cs ≠ [] := by
    rintro rfl
    cases h1
  simp only [read?, sign_append_of_ne_nil hcs, whole?_append_of_eq_some h1 hne1,
    fraction?_append_of_eq_some h2 hne2, exponent?_append_of_eq_some h3 hrest,
    Option.bind_eq_bind, Option.bind_some]
  rfl

theorem isDigit_or_eq_of_read? {c : Char} {n : Option Nat}
    (h : read? (c :: cs) = some (n, rest)) : c.isDigit = true ∨ c = '-' := by
  by_cases hminus : c = '-'
  · exact .inr hminus
  · by_cases hdigit : c.isDigit = true
    · exact .inl hdigit
    · have hsign : sign (c :: cs) = (false, c :: cs) :=
        sign.eq_2 _ fun _ heq => hminus (List.cons.inj heq).1
      simp [read?, hsign, whole?, digits?, hdigit] at h

end Numeral

namespace Token

variable {t : Token}

/-- What begins with a digit or a minus sign is read as a numeral. -/
theorem read?_cons_of_numeral {c : Char} (hc : c.isDigit = true ∨ c = '-') (cs : List Char) :
    read? (c :: cs) = (Numeral.read? (c :: cs)).map fun p => (value (.number p.1), p.2) := by
  unfold read?
  split
  case h_11 => rfl
  all_goals
    rename_i heq
    injection heq with hhead _
    rw [hhead] at hc
    rcases hc with hdigit | hminus
    · cases hdigit
    · cases hminus

/-- A token is the same with more text behind it, but for a numeral with nothing between. -/
theorem read?_append_of_eq_some (h : read? cs = some (t, rest))
    (ht : (∀ n, t ≠ .value (.number n)) ∨ rest ≠ []) (more : List Char) :
    read? (cs ++ more) = some (t, rest ++ more) := by
  unfold read? at h
  split at h
  case h_7 =>
    simp only [Option.map_eq_some_iff] at h
    obtain ⟨⟨text, r⟩, hquoted, heq⟩ := h
    cases heq
    simp only [Quoted.read?, Option.map_eq_some_iff] at hquoted
    obtain ⟨⟨units, r⟩, hscan, heq⟩ := hquoted
    cases heq
    simp only [List.cons_append, read?, Quoted.read?, Quoted.scan_append_of_eq_some hscan more,
      Option.map_some]
  case h_11 =>
    simp only [Option.map_eq_some_iff] at h
    obtain ⟨⟨n, r⟩, hnumeral, heq⟩ := h
    cases heq
    have hrest : r ≠ [] := ht.resolve_left fun hnot => hnot n rfl
    cases cs with
    | nil => cases hnumeral
    | cons c cs =>
        have hall := Numeral.read?_append_of_eq_some hnumeral hrest more
        rw [List.cons_append] at hall ⊢
        rw [read?_cons_of_numeral (Numeral.isDigit_or_eq_of_read? hnumeral), hall]
        rfl
  all_goals
    cases h
    rfl

end Token

/-! ### Documents -/

namespace Json

namespace State

variable {s s' : State} {t : Token}

/-- Nothing comes back to the point where the value of the document must come. -/
theorem step_ne_value_nil (s : State) (t : Token) : s.step t ≠ some (.value []) := by
  cases s with
  | value outer => cases t <;> simp [step, begin]
  | items outer => cases t <;> simp [step, begin]
  | name outer fields =>
      cases t with
      | value j => cases fields <;> cases j <;> simp [step]
      | _ => cases fields <;> simp [step]
  | colon outer fields n => cases t <;> simp [step]
  | after outer j =>
      cases outer with
      | nil => simp [step, resume]
      | cons frame outer => cases frame <;> cases t <;> simp [step, resume]

/-- A number is the whole document only where the value of the document must come. -/
theorem result?_eq_none_of_step {n : Option Nat} (hs : s ≠ .value [])
    (h : s.step (.value (.number n)) = some s') : s'.result? = none := by
  cases s with
  | value outer =>
      cases outer with
      | nil => exact absurd rfl hs
      | cons frame outer =>
          cases h
          rfl
  | items outer =>
      cases h
      rfl
  | name outer fields => cases fields <;> cases h
  | colon outer fields n => cases h
  | after outer j =>
      cases outer with
      | nil => cases h
      | cons frame outer => cases frame <;> cases h

end State

variable {s : State} {v : Json}

/-- Behind the value of a document only blanks may stand. -/
theorem readFrom_after_nil (v : Json) (cs : List Char) :
    readFrom (.after [] v) cs = if cs.all Token.isBlank then some v else none := by
  rw [readFrom_eq]
  cases hcs : cs.dropWhile Token.isBlank with
  | nil =>
      have hall : cs.all Token.isBlank = true :=
        List.all_eq_true.2 (List.dropWhile_eq_nil_iff.1 hcs)
      rw [if_pos hall]
      rfl
  | cons c rest =>
      have hsome : ¬ cs.all Token.isBlank = true := by
        intro hall
        rw [List.dropWhile_eq_nil_iff.2 (List.all_eq_true.1 hall)] at hcs
        cases hcs
      rw [if_neg hsome]
      cases hread : Token.read? (c :: rest) with
      | none => simp [hread]
      | some p => simp [hread, State.step, State.resume]

theorem eq_after_nil_of_result? (h : s.result? = some v) : s = .after [] v := by
  cases s with
  | after outer j =>
      cases outer with
      | nil =>
          cases h
          rfl
      | cons frame outer => cases h
  | _ => cases h

/-- What has been read to the end of a document from behind its beginning is not read when more
text than blanks stands behind it. -/
theorem readFrom_append_eq_none (hs : s ≠ .value []) (h : readFrom s cs = some v)
    (hmore : more.all Token.isBlank = false) : readFrom s (cs ++ more) = none := by
  induction hn : cs.length using Nat.strongRecOn generalizing s cs with
  | ind n ih =>
      rw [readFrom_eq] at h
      cases hcs : cs.dropWhile Token.isBlank with
      | nil =>
          rw [hcs] at h
          rw [eq_after_nil_of_result? h, readFrom_after_nil, List.all_append, hmore, Bool.and_false]
          rfl
      | cons c front =>
          rw [hcs] at h
          obtain ⟨⟨t, rest⟩, hread, h⟩ := Option.bind_eq_some_iff.1 h
          obtain ⟨s', hstep, h⟩ := Option.bind_eq_some_iff.1 h
          -- A numeral that the text ends with leaves a container open, and nothing is read.
          have hwhole : (∀ n, t ≠ .value (.number n)) ∨ rest ≠ [] := by
            by_contra hnot
            obtain ⟨hnumber, hrest⟩ := not_or.1 hnot
            obtain ⟨n, rfl⟩ := not_forall_not.1 hnumber
            rw [not_not.1 hrest, readFrom_of_blank rfl, State.result?_eq_none_of_step hs hstep] at h
            cases h
          have hlt : rest.length < n := by
            have hshort := Token.length_read?_lt hread
            have hdrop := (List.dropWhile_sublist (l := cs) Token.isBlank).length_le
            rw [hcs] at hdrop
            omega
          have hs' : s' ≠ .value [] := fun heq => s.step_ne_value_nil t (heq ▸ hstep)
          have hall : (cs ++ more).dropWhile Token.isBlank = c :: front ++ more := by
            rw [List.dropWhile_append, hcs]
            rfl
          have hread' := Token.read?_append_of_eq_some hread hwhole more
          rw [readFrom_of_token (by simp [hall]) (hall ▸ hread'), hstep]
          exact ih rest.length hlt hs' h rfl

/-- The text of an object begins and ends with its braces. -/
theorem exists_text_object (fields : List (JsonText × Json)) :
    ∃ cs, (object fields).text.toList = '{' :: cs ++ ['}'] := by
  rw [text, String.toList_ofList]
  cases fields with
  | nil => exact ⟨[], rfl⟩
  | cons field fields =>
      obtain ⟨n, j⟩ := field
      refine ⟨newline 1 (writeName n (write 1 j (writeFields 1 fields (newline 0 [])))), ?_⟩
      simp only [write, List.cons_append, newline_append, writeName_append, write_append,
        writeFields_append, List.nil_append]

/-- Behind the text of an object only blanks may stand. -/
theorem read?_text_append (fields : List (JsonText × Json)) (more : List Char) :
    read? ((object fields).text.toList ++ more)
      = if more.all Token.isBlank then some (object fields) else none := by
  rw [text, String.toList_ofList, write_append, List.nil_append, read?,
    readFrom_write (awaits_value []) 0 _ (by simp), readFrom_after_nil]

/-- No text is read that stops inside the text of an object. -/
theorem read?_eq_none_of_prefix {fields : List (JsonText × Json)}
    (hcs : cs <+: (object fields).text.toList) (hne : cs ≠ (object fields).text.toList) :
    read? cs = none := by
  obtain ⟨more, hmore⟩ := hcs
  obtain ⟨inner, htext⟩ := exists_text_object fields
  have hrest : more ≠ [] := by
    rintro rfl
    exact hne ((List.append_nil cs).symm.trans hmore)
  -- What is missing has the closing brace, which is no blank.
  have hblank : more.all Token.isBlank = false := by
    have hlast := congrArg List.getLast? (hmore.trans htext)
    rw [List.getLast?_append_of_ne_nil _ hrest, List.getLast?_concat] at hlast
    exact List.all_eq_false.2 ⟨'}', List.mem_of_getLast? hlast, by decide⟩
  cases cs with
  | nil => exact readFrom_of_blank rfl
  | cons c cs =>
      obtain rfl : c = '{' := (List.cons.inj (hmore.trans htext)).1
      have hread := read?_text (object fields)
      rw [← hmore, List.cons_append, read?, readFrom_openObject (awaits_value [])] at hread
      rw [read?, readFrom_openObject (awaits_value [])]
      cases hfront : readFrom (.name [] []) cs with
      | none => rfl
      | some v =>
          rw [readFrom_append_eq_none (by simp) hfront hblank] at hread
          cases hread

end Json

end GridRobot
