import Mathlib.Tactic.Linarith
import GridRobot.Proofs.Binary.ReadBack
import GridRobot.Proofs.Code.Derivation

/-!
# Counted texts and lists

A text and a list are written behind their length, which must be a number of 64 bits to be
read back.  Conversely every length that has been read is such a number, so what comes out
of a reader can always be written and read again.

**Results.**
* `Reader.text_append`: a text is read back.
* `Reader.list_append`: a list is read back if its elements are.
* `Reader.yields_text`, `Reader.yields_list`: the lengths of texts and lists that have been
  read have 64 bits.
-/

namespace GridRobot

namespace Reader

/-! ### Reading back -/

theorem take_append (bytes rest : Bytes) :
    take bytes.length (bytes ++ rest) = .ok (bytes, rest) := by
  simp [take]

/-- The bytes of a text spell that text. -/
theorem fromUTF8?_toUTF8 (s : String) :
    String.fromUTF8? ⟨s.toUTF8.data.toList.toArray⟩ = some s := by
  rw [Array.toArray_toList]
  exact dif_pos s.isValidUTF8

theorem text_append {s : String} (h : s.utf8ByteSize < UInt64.size) (rest : Bytes) :
    text (Bytes.ofText s ++ rest) = .ok (s, rest) := by
  have hlength : s.toUTF8.data.toList.length = s.utf8ByteSize := rfl
  rw [text, Bytes.ofText, List.append_assoc, bind_of_ok (word_append (hlength ▸ h) _),
    bind_of_ok (take_append _ rest), fromUTF8?_toUTF8]
  rfl

variable {α : Type} {read : Reader α} {write : α → Bytes}

theorem many_append (xs done : List α) (rest : Bytes)
    (h : ∀ a ∈ xs, ∀ rest, read (write a ++ rest) = .ok (a, rest)) :
    many read xs.length done (xs.flatMap write ++ rest) = .ok (done.reverse ++ xs, rest) := by
  induction xs generalizing done with
  | nil =>
      rw [List.append_nil]
      rfl
  | cons x xs ih =>
      rw [List.length_cons, many, List.flatMap_cons, List.append_assoc,
        bind_of_ok (h x List.mem_cons_self _), ih _ fun a ha => h a (List.mem_cons_of_mem _ ha),
        List.reverse_cons, List.append_assoc]
      rfl

theorem list_append {xs : List α} (hlength : xs.length < UInt64.size)
    (h : ∀ a ∈ xs, ∀ rest, read (write a ++ rest) = .ok (a, rest)) (rest : Bytes) :
    list read (Bytes.ofList write xs ++ rest) = .ok (xs, rest) := by
  rw [list, Bytes.ofList, List.append_assoc, bind_of_ok (word_append hlength _),
    many_append xs [] rest h]
  rfl

/-! ### What a reader yields -/

/-- Every value that a reader takes from any bytes has a property. -/
def Yields (read : Reader α) (P : α → Prop) : Prop :=
  ∀ bytes a rest, read bytes = .ok (a, rest) → P a

theorem bind_eq_ok_iff {β : Type} {r : Reader α} {f : α → Reader β} {bytes rest : Bytes} {b : β} :
    (r >>= f) bytes = .ok (b, rest) ↔
      ∃ a middle, r bytes = .ok (a, middle) ∧ f a middle = .ok (b, rest) := by
  constructor
  · intro h
    obtain ⟨⟨a, middle⟩, hr, hf⟩ := GridRobot.bind_eq_ok_iff.1 h
    exact ⟨a, middle, hr, hf⟩
  · rintro ⟨a, middle, hr, hf⟩
    rw [bind_of_ok hr, hf]

theorem Yields.bind {β : Type} {r : Reader α} {f : α → Reader β} {P : α → Prop} {Q : β → Prop}
    (hr : Yields r P) (hf : ∀ a, P a → Yields (f a) Q) : Yields (r >>= f) Q := by
  intro bytes b rest h
  obtain ⟨a, middle, ha, hb⟩ := bind_eq_ok_iff.1 h
  exact hf a (hr bytes a middle ha) middle b rest hb

theorem Yields.any (read : Reader α) : Yields read fun _ => True :=
  fun _ _ _ _ => trivial

theorem yields_pure {a : α} {P : α → Prop} (h : P a) : Yields (pure a) P := by
  intro bytes b rest hb
  cases hb
  exact h

theorem yields_throw {e : BinaryError} {P : α → Prop} : Yields (throw e) P := by
  intro bytes a rest h
  cases h

theorem yields_number {top : UInt8} (htop : top < 128) (k : Nat) :
    Yields (number top (k + 1)) fun n => n < (top.toNat + 1) * 128 ^ k := by
  have htop : top.toNat < 128 := UInt8.lt_iff_toNat_lt.1 htop
  induction k with
  | zero =>
      rw [number]
      refine (Yields.any byte).bind fun b _ => ?_
      split
      · split
        · exact yields_throw
        · rename_i hb
          refine yields_pure ?_
          have hle : b.toNat ≤ top.toNat := by
            simpa [UInt8.lt_iff_toNat_lt] using hb
          omega
      · exact Yields.bind (P := fun _ => False) yields_throw fun _ h => h.elim
  | succ k ih =>
      rw [number]
      refine (Yields.any byte).bind fun b _ => ?_
      have hpow : 128 ^ (k + 1) = 128 ^ k * 128 := Nat.pow_succ ..
      split
      · rename_i hb
        split
        · exact yields_throw
        · have hb : b.toNat < 128 := UInt8.lt_iff_toNat_lt.1 hb
          have hpos : 128 ≤ (top.toNat + 1) * 128 ^ (k + 1) := by
            have := Nat.one_le_pow k 128 (by decide)
            nlinarith
          exact yields_pure (by omega)
      · refine ih.bind fun high hhigh => yields_pure ?_
        have hb := b.toNat_lt
        rw [hpow, ← Nat.mul_assoc]
        omega

theorem yields_word : Yields word (· < UInt64.size) := by
  have htop : (1 : UInt8) < 128 := by decide
  exact yields_number htop 9

theorem yields_take (n : Nat) : Yields (take n) fun bytes => bytes.length ≤ n := by
  intro bytes taken rest h
  unfold take at h
  split at h
  · cases h
    exact List.length_take_le ..
  · cases h

theorem yields_text : Yields text fun s => s.utf8ByteSize < UInt64.size := by
  refine yields_word.bind fun n hn => (yields_take n).bind fun bytes hbytes => ?_
  split
  · rename_i s hs
    refine yields_pure ?_
    unfold String.fromUTF8? at hs
    split at hs
    · cases hs
      exact Nat.lt_of_le_of_lt hbytes hn
    · cases hs
  · exact yields_throw

theorem yields_many {P : α → Prop} (hread : Yields read P) (n : Nat) (done : List α)
    (hdone : ∀ a ∈ done, P a) :
    Yields (many read n done) fun xs => xs.length = n + done.length ∧ ∀ a ∈ xs, P a := by
  induction n generalizing done with
  | zero =>
      exact yields_pure ⟨by simp, by simpa using hdone⟩
  | succ n ih =>
      refine hread.bind fun a ha bytes xs rest h => ?_
      obtain ⟨hlength, hxs⟩ := ih (a :: done) (by simpa using ⟨ha, hdone⟩) bytes xs rest h
      exact ⟨by rw [hlength, List.length_cons]; omega, hxs⟩

theorem yields_list {P : α → Prop} (hread : Yields read P) :
    Yields (list read) fun xs => xs.length < UInt64.size ∧ ∀ a ∈ xs, P a := by
  refine yields_word.bind fun n hn bytes xs rest h => ?_
  obtain ⟨hlength, hxs⟩ := yields_many hread n [] (by simp) bytes xs rest h
  exact ⟨by simpa [hlength] using hn, hxs⟩

end Reader

end GridRobot
