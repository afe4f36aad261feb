/-!
# Reading and writing bytes

The pieces of the binary form: numbers in base 128, counted text and counted
lists.  A number is written least significant digit first, seven bits to a byte;
the high bit of a byte says that another one follows.

A reader takes a value from the front of the bytes and leaves the rest.  It does
not insist on the shortest form of a number, but on a number that fits the
width.

**Results.**
* `bind_of_ok`, `bind_of_error`: how readers compose.
-/

namespace GridRobot

/-- A sequence of bytes. -/
abbrev Bytes := List UInt8

/-- Why bytes cannot be read. -/
inductive BinaryError
  | endOfData
  | badNumber
  | unknownVariant
  | badText
  deriving DecidableEq, Repr

namespace BinaryError

/-- The text of an error. -/
def message : BinaryError → String
  | endOfData => "Hit the end of buffer, expected more data"
  | badNumber =>
      "Found a varint that didn't terminate. Is the usize too big for this platform?"
  | unknownVariant => "Serde Deserialization Error"
  | badText => "Tried to parse invalid utf-8"

end BinaryError

/-- Takes a value from the front of the bytes. -/
abbrev Reader := StateT Bytes (Except BinaryError)

namespace Reader

/-- The next byte. -/
def byte : Reader UInt8
  | [] => .error .endOfData
  | b :: rest => .ok (b, rest)

/-- A number of at most `n` bytes, the last of which is at most `top` if all are used. -/
def number (top : UInt8) : Nat → Reader Nat
  | 0 => throw .badNumber
  | n + 1 => do
      let b ← byte
      if b < 128 then
        if n = 0 ∧ top < b then throw .badNumber else return b.toNat
      else
        let high ← number top n
        return b.toNat - 128 + 128 * high

/-- A number of 64 bits. -/
def word : Reader Nat := number 1 10

/-- The number of a form, which has 32 bits. -/
def form : Reader Nat := number 15 5

/-- A number of 32 bits. -/
def short : Reader UInt32 := do
  return .ofNat (← form)

/-- The value that has a number in a list of values. -/
def variant {α : Type} (options : List α) : Reader α := do
  match options[(← form)]? with
  | some a => return a
  | none => throw .unknownVariant

/-- Exactly `n` bytes. -/
def take (n : Nat) : Reader Bytes := fun bytes =>
  if n ≤ bytes.length then .ok (bytes.take n, bytes.drop n) else .error .endOfData

/-- Counted text. -/
def text : Reader String := do
  let bytes ← take (← word)
  match String.fromUTF8? ⟨bytes.toArray⟩ with
  | some s => return s
  | none => throw .badText

/-- Values read one after the other, behind those that have been read, newest first. -/
def many {α : Type} (read : Reader α) : Nat → List α → Reader (List α)
  | 0, done => return done.reverse
  | n + 1, done => do
      let a ← read
      many read n (a :: done)

/-- A counted list. -/
def list {α : Type} (read : Reader α) : Reader (List α) := do
  many read (← word) []

theorem bind_of_ok {α β : Type} {r : Reader α} {f : α → Reader β} {bytes rest : Bytes} {a : α}
    (h : r bytes = .ok (a, rest)) : (r >>= f) bytes = f a rest := by
  show (r bytes >>= fun p => f p.1 p.2) = _
  rw [h]
  rfl

theorem bind_of_error {α β : Type} {r : Reader α} {f : α → Reader β} {bytes : Bytes}
    {e : BinaryError} (h : r bytes = .error e) : (r >>= f) bytes = .error e := by
  show (r bytes >>= fun p => f p.1 p.2) = _
  rw [h]
  rfl

@[simp] theorem byte_cons (b : UInt8) (rest : Bytes) : byte (b :: rest) = .ok (b, rest) := rfl

end Reader

namespace Bytes

/-- The bytes of a number. -/
def ofNumber (n : Nat) : Bytes :=
  if n < 128 then [.ofNat n] else .ofNat (n % 128 + 128) :: ofNumber (n / 128)

/-- The bytes of a counted text. -/
def ofText (s : String) : Bytes :=
  let bytes := s.toUTF8.data.toList
  ofNumber bytes.length ++ bytes

/-- The bytes of a counted list. -/
def ofList {α : Type} (write : α → Bytes) (xs : List α) : Bytes :=
  ofNumber xs.length ++ xs.flatMap write

end Bytes

end GridRobot
