import GridRobot.Json.Basic

/-!
# Quoted text

Text between double quotes.  The quote, the backslash and the control characters
are written as escapes, everything else stands for itself.  When reading, every
escape of the format is known.  An escape with four hexadecimal digits spells a
UTF-16 unit, so a pair of them may spell one character; a unit that is half of a
pair makes the text unusable, but not the string wrong.

**Results.**
* `spell_map_toNat`: characters spell themselves.
* `length_read?_lt`: reading goes forward.
-/

namespace GridRobot

namespace Quoted

/-- The value of a hexadecimal digit. -/
def hexValue? (c : Char) : Option Nat :=
  if '0' ≤ c ∧ c ≤ '9' then some (c.toNat - '0'.toNat)
  else if 'a' ≤ c ∧ c ≤ 'f' then some (c.toNat - 'a'.toNat + 10)
  else if 'A' ≤ c ∧ c ≤ 'F' then some (c.toNat - 'A'.toNat + 10)
  else none

/-- The unit that four hexadecimal digits spell. -/
def unit? (a b c d : Char) : Option Nat := do
  return (((← hexValue? a) * 16 + (← hexValue? b)) * 16 + (← hexValue? c)) * 16 + (← hexValue? d)

/-- The character that a one-letter escape stands for. -/
def escaped? : Char → Option Char
  | '"' => some '"'
  | '\\' => some '\\'
  | '/' => some '/'
  | 'b' => some '\x08'
  | 'f' => some '\x0c'
  | 'n' => some '\n'
  | 'r' => some '\r'
  | 't' => some '\t'
  | _ => none

/-- The code points and units up to the closing quote, and the text behind it. -/
def scan : List Char → Option (List Nat × List Char)
  | [] => none
  | '"' :: rest => some ([], rest)
  | '\\' :: 'u' :: a :: b :: c :: d :: rest => do
      let n ← unit? a b c d
      let (units, rest) ← scan rest
      return (n :: units, rest)
  | '\\' :: e :: rest => do
      let c ← escaped? e
      let (units, rest) ← scan rest
      return (c.toNat :: units, rest)
  | c :: rest =>
      if c = '\\' ∨ c < ' ' then none
      else do
        let (units, rest) ← scan rest
        return (c.toNat :: units, rest)

/-- Whether a unit is the first half of a pair. -/
def isHigh (n : Nat) : Bool := 0xd800 ≤ n && n < 0xdc00

/-- Whether a unit is the second half of a pair. -/
def isLow (n : Nat) : Bool := 0xdc00 ≤ n && n < 0xe000

/-- The characters that code points and units spell. -/
def spell : List Nat → Option (List Char)
  | [] => some []
  | [n] => if isHigh n || isLow n then none else some [Char.ofNat n]
  | n :: m :: rest =>
      if isHigh n then
        if isLow m then
          (spell rest).map (Char.ofNat (0x10000 + (n - 0xd800) * 0x400 + (m - 0xdc00)) :: ·)
        else none
      else if isLow n then none
      else (spell (m :: rest)).map (Char.ofNat n :: ·)

/-- The text up to the closing quote, and what stands behind it. -/
def read? (cs : List Char) : Option (JsonText × List Char) :=
  (scan cs).map fun (units, rest) => ((spell units).map String.ofList, rest)

/-- The escape of a character, or the character itself. -/
def escape (c : Char) : List Char :=
  match c with
  | '"' => ['\\', '"']
  | '\\' => ['\\', '\\']
  | '\x08' => ['\\', 'b']
  | '\x0c' => ['\\', 'f']
  | '\n' => ['\\', 'n']
  | '\r' => ['\\', 'r']
  | '\t' => ['\\', 't']
  | c =>
      if c < ' ' then
        ['\\', 'u', '0', '0', Nat.digitChar (c.toNat / 16), Nat.digitChar (c.toNat % 16)]
      else [c]

/-- The text between quotes.  Unusable text is written as half a pair. -/
def write : JsonText → List Char
  | some s => '"' :: s.toList.flatMap escape ++ ['"']
  | none => ['"', '\\', 'u', 'd', '8', '0', '0', '"']

/-! ### Equations -/

theorem isHigh_toNat (c : Char) : isHigh c.toNat = false := by
  have h : c.toNat.isValidChar := c.valid
  simp only [isHigh, Bool.and_eq_false_iff, decide_eq_false_iff_not]
  unfold Nat.isValidChar at h
  omega

theorem isLow_toNat (c : Char) : isLow c.toNat = false := by
  have h : c.toNat.isValidChar := c.valid
  simp only [isLow, Bool.and_eq_false_iff, decide_eq_false_iff_not]
  unfold Nat.isValidChar at h
  omega

theorem spell_map_toNat (cs : List Char) : spell (cs.map Char.toNat) = some cs := by
  induction cs with
  | nil => rfl
  | cons c cs ih =>
      cases cs with
      | nil => simp [spell, isHigh_toNat, isLow_toNat]
      | cons d cs =>
          simp only [List.map_cons] at ih
          simp [spell, isHigh_toNat, isLow_toNat, ih]

theorem length_scan_lt {cs rest : List Char} {units : List Nat}
    (h : scan cs = some (units, rest)) : rest.length < cs.length := by
  induction cs using scan.induct generalizing units rest with
  | case1 => simp [scan] at h
  | case2 r =>
      simp only [scan, Option.some.injEq, Prod.mk.injEq] at h
      simp [h.2]
  | case3 a b c d r ih =>
      simp only [scan, Option.bind_eq_bind, Option.bind_eq_some_iff] at h
      obtain ⟨_, _, p, hp, heq⟩ := h
      cases heq
      have := ih hp
      simp only [List.length_cons]
      omega
  | case4 e r hne ih =>
      rw [scan.eq_4 _ _ hne] at h
      simp only [Option.bind_eq_bind, Option.bind_eq_some_iff] at h
      obtain ⟨_, _, p, hp, heq⟩ := h
      cases heq
      have := ih hp
      simp only [List.length_cons]
      omega
  | case5 c r h1 h2 h3 hbad =>
      rw [scan.eq_5 _ _ h1 h2 h3, if_pos hbad] at h
      cases h
  | case6 c r h1 h2 h3 hgood ih =>
      rw [scan.eq_5 _ _ h1 h2 h3, if_neg hgood] at h
      simp only [Option.bind_eq_bind, Option.bind_eq_some_iff] at h
      obtain ⟨p, hp, heq⟩ := h
      cases heq
      have := ih hp
      simp only [List.length_cons]
      omega

theorem length_read?_lt {cs rest : List Char} {text : JsonText}
    (h : read? cs = some (text, rest)) : rest.length < cs.length := by
  simp only [read?, Option.map_eq_some_iff] at h
  obtain ⟨⟨units, r⟩, hscan, heq⟩ := h
  cases heq
  exact length_scan_lt hscan

end Quoted

end GridRobot
