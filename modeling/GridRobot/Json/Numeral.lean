import GridRobot.Json.Basic

/-!
# Numerals

A numeral has an optional minus sign, digits without a leading zero, and
optionally a fraction and an exponent.  Only the value of a natural number is
kept: any sign, fraction or exponent makes the numeral one without a value, even
where it amounts to a natural number.

**Results.**
* `length_read?_lt`: reading goes forward.
-/

namespace GridRobot

namespace Numeral

/-- The digits at the front, of which there must be one, and what follows them. -/
def digits? (cs : List Char) : Option (List Char × List Char) :=
  if (cs.takeWhile Char.isDigit).isEmpty then none
  else some (cs.takeWhile Char.isDigit, cs.dropWhile Char.isDigit)

/-- Whether a minus sign is at the front, and what follows it. -/
def sign : List Char → Bool × List Char
  | '-' :: rest => (true, rest)
  | cs => (false, cs)

/-- Digits without a leading zero, and what follows them. -/
def whole? (cs : List Char) : Option (List Char × List Char) := do
  let (ds, rest) ← digits? cs
  if ds.head? = some '0' ∧ ds.length ≠ 1 then none else some (ds, rest)

/-- Whether a fraction is at the front, and what follows it. -/
def fraction? : List Char → Option (Bool × List Char)
  | '.' :: rest => (digits? rest).map fun p => (true, p.2)
  | cs => some (false, cs)

/-- What follows the sign of an exponent. -/
def exponentSign : List Char → List Char
  | '+' :: rest => rest
  | '-' :: rest => rest
  | cs => cs

/-- Whether an exponent is at the front, and what follows it. -/
def exponent? : List Char → Option (Bool × List Char)
  | 'e' :: rest => (digits? (exponentSign rest)).map fun p => (true, p.2)
  | 'E' :: rest => (digits? (exponentSign rest)).map fun p => (true, p.2)
  | cs => some (false, cs)

/-- The numeral at the front with its value, and what follows it. -/
def read? (cs : List Char) : Option (Option Nat × List Char) := do
  let (negative, rest) := sign cs
  let (ds, rest) ← whole? rest
  let (hasFraction, rest) ← fraction? rest
  let (hasExponent, rest) ← exponent? rest
  let value := if negative || hasFraction || hasExponent then none
    else some (Nat.ofDigitChars 10 ds 0)
  return (value, rest)

/-- The text of a number; one without a value is written as minus zero. -/
def write : Option Nat → List Char
  | some n => Nat.toDigits 10 n
  | none => ['-', '0']

/-! ### Equations -/

theorem length_digits?_lt {cs ds rest : List Char} (h : digits? cs = some (ds, rest)) :
    rest.length < cs.length := by
  unfold digits? at h
  split at h
  · cases h
  · rename_i hne
    cases h
    have hsplit := congrArg List.length (List.takeWhile_append_dropWhile
      (p := Char.isDigit) (l := cs))
    rw [List.length_append] at hsplit
    have hpos : (cs.takeWhile Char.isDigit).length ≠ 0 := by simpa using hne
    omega

theorem length_sign_le (cs : List Char) : (sign cs).2.length ≤ cs.length := by
  unfold sign
  split <;> simp

theorem length_whole?_lt {cs ds rest : List Char} (h : whole? cs = some (ds, rest)) :
    rest.length < cs.length := by
  simp only [whole?, Option.bind_eq_bind, Option.bind_eq_some_iff] at h
  obtain ⟨⟨ds', rest'⟩, hd, h⟩ := h
  split at h
  · cases h
  · cases h
    exact length_digits?_lt hd

theorem length_fraction?_le {cs rest : List Char} {b : Bool}
    (h : fraction? cs = some (b, rest)) : rest.length ≤ cs.length := by
  unfold fraction? at h
  split at h
  · simp only [Option.map_eq_some_iff] at h
    obtain ⟨⟨ds, r⟩, hd, heq⟩ := h
    cases heq
    have := length_digits?_lt hd
    simp only [List.length_cons]
    omega
  · cases h
    exact Nat.le_refl _

theorem length_exponentSign_le (cs : List Char) : (exponentSign cs).length ≤ cs.length := by
  unfold exponentSign
  split <;> simp

theorem length_exponent?_le {cs rest : List Char} {b : Bool}
    (h : exponent? cs = some (b, rest)) : rest.length ≤ cs.length := by
  have hdigits : ∀ r : List Char,
      (digits? (exponentSign r)).map (fun p => (true, p.2)) = some (b, rest) →
        rest.length ≤ r.length + 1 := by
    intro r hr
    simp only [Option.map_eq_some_iff] at hr
    obtain ⟨⟨ds, r'⟩, hd, heq⟩ := hr
    cases heq
    have h1 := length_digits?_lt hd
    have h2 := length_exponentSign_le r
    simp only at h1 ⊢
    omega
  unfold exponent? at h
  split at h
  · exact hdigits _ h
  · exact hdigits _ h
  · cases h
    exact Nat.le_refl _

theorem length_read?_lt {cs rest : List Char} {n : Option Nat}
    (h : read? cs = some (n, rest)) : rest.length < cs.length := by
  simp only [read?, Option.bind_eq_bind, Option.bind_eq_some_iff] at h
  obtain ⟨⟨ds, r1⟩, h1, ⟨f, r2⟩, h2, ⟨e, r3⟩, h3, heq⟩ := h
  cases heq
  have h0 := length_sign_le cs
  have h1 := length_whole?_lt h1
  have h2 := length_fraction?_le h2
  have h3 := length_exponent?_le h3
  simp only at h2 h3 ⊢
  omega

end Numeral

end GridRobot
