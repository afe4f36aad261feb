import GridRobot.Json.Document
import GridRobot.Json.Layout

/-!
# Values without parts are read back

The text of a string and the text of a number are single tokens, whatever stands behind
them; only behind a number nothing may stand that would make it longer.  A character that
is written as an escape is read back from it, and all the others stand for themselves.

**Results.**
* `Quoted.scan_append`: the characters of a string are read back.
* `Numeral.read?_append`: a number is read back.
* `Token.read?_quoted`, `Token.read?_numeral`: both are read back as tokens.
-/

namespace GridRobot

namespace Quoted

theorem hexValue?_digitChar (n : Fin 16) : hexValue? (Nat.digitChar n) = some n.val := by
  revert n
  decide

/-- A control character is spelled by the two hexadecimal digits of its number. -/
theorem scan_control {c : Char} (hc : c < ' ') (rest : List Char) :
    scan ('\\' :: 'u' :: '0' :: '0' :: Nat.digitChar (c.toNat / 16)
        :: Nat.digitChar (c.toNat % 16) :: rest)
      = (scan rest).map fun p => (c.toNat :: p.1, p.2) := by
  have hlt : c.toNat < 32 := hc
  have hhigh := hexValue?_digitChar ⟨c.toNat / 16, by omega⟩
  have hlow := hexValue?_digitChar ⟨c.toNat % 16, by omega⟩
  have hzero : hexValue? '0' = some 0 := by decide
  have hunit : unit? '0' '0' (Nat.digitChar (c.toNat / 16)) (Nat.digitChar (c.toNat % 16))
      = some c.toNat := by
    simp only [unit?, hzero, hhigh, hlow, Option.bind_eq_bind, Option.bind_some, Option.pure_def,
      Option.some.injEq]
    omega
  rw [scan, hunit]
  cases scan rest <;> rfl

/-- The escape of a character is read back as its code point. -/
theorem scan_escape (c : Char) (rest : List Char) :
    scan (escape c ++ rest) = (scan rest).map fun p => (c.toNat :: p.1, p.2) := by
  unfold escape
  split
  -- A character without a short escape is a control character or stands for itself.
  case h_8 hquote hbackslash _ _ _ _ _ =>
    split
    · rename_i hc
      exact scan_control hc rest
    · rename_i hc
      have hplain : ¬ (c = '\\' ∨ c < ' ') := not_or.2 ⟨hbackslash, hc⟩
      rw [List.singleton_append, scan, if_neg hplain]
      · cases scan rest <;> rfl
      all_goals simp_all
  all_goals
    simp only [List.cons_append, List.nil_append]
    rw [scan]
    · cases scan rest <;> rfl
    all_goals simp

theorem scan_append (cs rest : List Char) :
    scan (cs.flatMap escape ++ '"' :: rest) = some (cs.map Char.toNat, rest) := by
  induction cs with
  | nil =>
      rfl
  | cons c cs ih =>
      rw [List.flatMap_cons, List.append_assoc, scan_escape, ih]
      rfl

end Quoted

namespace Numeral

/-- Nothing at the front of a text makes a numeral before it longer. -/
def Stops : List Char → Prop
  | [] => True
  | c :: _ => c.isDigit = false ∧ c ≠ '.' ∧ c ≠ 'e' ∧ c ≠ 'E'

theorem digits?_append {ds rest : List Char} (hds : ∀ c ∈ ds, c.isDigit = true) (hne : ds ≠ [])
    (hrest : Stops rest) : digits? (ds ++ rest) = some (ds, rest) := by
  have htake : (ds ++ rest).takeWhile Char.isDigit = ds := by
    rw [List.takeWhile_append_of_pos hds]
    cases rest with
    | nil => simp
    | cons c rest => simp [hrest.1]
  have hdrop : (ds ++ rest).dropWhile Char.isDigit = rest := by
    rw [List.dropWhile_append_of_pos hds]
    cases rest with
    | nil => rfl
    | cons c rest => simp [hrest.1]
  rw [digits?, htake, hdrop, if_neg (by simpa using hne)]

/-- Only zero is written with a zero in front. -/
theorem eq_zero_of_head?_toDigits {n : Nat} (h : (Nat.toDigits 10 n).head? = some '0') :
    n = 0 := by
  induction n using Nat.strongRecOn with
  | ind n ih =>
      by_cases hn : n < 10
      · rw [Nat.toDigits_of_lt_base hn] at h
        have hfirst : ∀ d : Fin 10, Nat.digitChar d = '0' → d = 0 := by decide
        exact congrArg Fin.val (hfirst ⟨n, hn⟩ (by simpa using h))
      · rw [Nat.toDigits_of_base_le (by decide) (by omega), List.head?_append] at h
        have hfront : (Nat.toDigits 10 (n / 10)).head? = some '0' := by
          cases hds : Nat.toDigits 10 (n / 10) with
          | nil => exact absurd hds Nat.toDigits_ne_nil
          | cons d ds => simpa [hds] using h
        have := ih (n / 10) (by omega) hfront
        omega

theorem whole?_append (n : Nat) {rest : List Char} (hrest : Stops rest) :
    whole? (Nat.toDigits 10 n ++ rest) = some (Nat.toDigits 10 n, rest) := by
  have hdigits : ∀ c ∈ Nat.toDigits 10 n, c.isDigit = true := fun c hc =>
    Nat.isDigit_of_mem_toDigits (by decide) (by decide) hc
  have hzero : ¬ ((Nat.toDigits 10 n).head? = some '0' ∧ (Nat.toDigits 10 n).length ≠ 1) := by
    rintro ⟨hhead, hlength⟩
    rw [eq_zero_of_head?_toDigits hhead] at hlength
    exact hlength rfl
  simp only [whole?, digits?_append hdigits Nat.toDigits_ne_nil hrest, Option.bind_eq_bind,
    Option.bind_some, if_neg hzero]

theorem fraction?_of_stops {rest : List Char} (h : Stops rest) :
    fraction? rest = some (false, rest) := by
  unfold fraction?
  split
  · exact absurd rfl h.2.1
  · rfl

theorem exponent?_of_stops {rest : List Char} (h : Stops rest) :
    exponent? rest = some (false, rest) := by
  unfold exponent?
  split
  · exact absurd rfl h.2.2.1
  · exact absurd rfl h.2.2.2
  · rfl

/-- The text of a number begins with a digit or with a minus sign. -/
theorem write_append_eq_cons {n : Option Nat} {c : Char} {rest cs : List Char}
    (h : write n ++ rest = c :: cs) : c.isDigit = true ∨ n = none ∧ c = '-' := by
  cases n with
  | some n =>
      rw [write] at h
      cases hds : Nat.toDigits 10 n with
      | nil =>
          exact absurd hds Nat.toDigits_ne_nil
      | cons d ds =>
          rw [hds] at h
          cases h
          have hmem : c ∈ Nat.toDigits 10 n := by simp [hds]
          exact .inl (Nat.isDigit_of_mem_toDigits (by decide) (by decide) hmem)
  | none =>
      cases h
      exact .inr ⟨rfl, rfl⟩

theorem sign_append (n : Nat) (rest : List Char) :
    sign (Nat.toDigits 10 n ++ rest) = (false, Nat.toDigits 10 n ++ rest) := by
  unfold sign
  split
  · rename_i tail h
    rcases write_append_eq_cons (n := some n) h with hdigit | ⟨hnone, _⟩
    · contradiction
    · cases hnone
  · rfl

theorem read?_append (n : Option Nat) {rest : List Char} (hrest : Stops rest) :
    read? (write n ++ rest) = some (n, rest) := by
  cases n with
  | some n =>
      have hwhole := whole?_append n hrest
      simp [read?, sign_append, write, hwhole, fraction?_of_stops hrest, exponent?_of_stops hrest,
        Nat.ofDigitChars_ten_toDigits]
  | none =>
      have hwhole := whole?_append 0 hrest
      simp only [Nat.toDigits_zero, List.singleton_append] at hwhole
      simp [read?, write, sign, hwhole, fraction?_of_stops hrest, exponent?_of_stops hrest]

end Numeral

namespace Token

theorem read?_quoted (s : JsonText) (rest : List Char) :
    Token.read? (Quoted.write s ++ rest) = some (.value (.string s), rest) := by
  cases s with
  | some s =>
      have hscan := Quoted.scan_append s.toList rest
      simp [Quoted.write, Token.read?, Quoted.read?, hscan, Quoted.spell_map_toNat]
  | none =>
      rfl

theorem read?_numeral (n : Option Nat) {rest : List Char} (hrest : Numeral.Stops rest) :
    Token.read? (Numeral.write n ++ rest) = some (.value (.number n), rest) := by
  unfold Token.read?
  split
  -- Only the reader's last alternative is a numeral; the others begin with neither a digit nor
  -- a minus sign.
  case h_11 =>
    rw [Numeral.read?_append n hrest]
    rfl
  all_goals
    rename_i heq
    rcases Numeral.write_append_eq_cons heq with hdigit | ⟨_, hminus⟩
    · contradiction
    · cases hminus

end Token

end GridRobot
