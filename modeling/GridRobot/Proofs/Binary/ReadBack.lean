import Mathlib.Algebra.Group.Nat.Defs
import GridRobot.Session.Binary

/-!
# Written values are read back

A reader that gets what the writer has put down, with anything behind it, gives the
value back and leaves what is behind.

**Results.**
* `Reader.number_append`: a number that fits is read back, whatever follows it.
* `Reader.form_append`, `Reader.word_append`, `Reader.short_append`: the same for the
  three widths of numbers.
* `Direction.read_append`, `Action.read_append`: directions and actions.
-/

namespace GridRobot

namespace Reader

theorem number_append (top : UInt8) (k : Nat) (n : Nat) (rest : Bytes) (htop : top < 128)
    (h : n < (top.toNat + 1) * 128 ^ k) :
    number top (k + 1) (Bytes.ofNumber n ++ rest) = .ok (n, rest) := by
  have htop : top.toNat < 128 := UInt8.lt_iff_toNat_lt.1 htop
  induction k generalizing n with
  | zero =>
      have hn : n < 128 := by omega
      have hb : (UInt8.ofNat n).toNat = n := by
        rw [UInt8.toNat_ofNat']; omega
      have hlt : UInt8.ofNat n < 128 := by
        rw [UInt8.lt_iff_toNat_lt, hb]; exact hn
      have htn : ¬ top < UInt8.ofNat n := by
        rw [UInt8.lt_iff_toNat_lt, hb]; omega
      rw [Bytes.ofNumber, if_pos hn, number, List.singleton_append,
        bind_of_ok (byte_cons _ _), if_pos hlt, if_neg (by simp [htn]), hb]
      rfl
  | succ k ih =>
      rw [Bytes.ofNumber]
      by_cases hn : n < 128
      · have hb : (UInt8.ofNat n).toNat = n := by
          rw [UInt8.toNat_ofNat']; omega
        have hlt : UInt8.ofNat n < 128 := by
          rw [UInt8.lt_iff_toNat_lt, hb]; exact hn
        rw [if_pos hn, number, List.singleton_append, bind_of_ok (byte_cons _ _),
          if_pos hlt, if_neg (by simp), hb]
        rfl
      · have hb : (UInt8.ofNat (n % 128 + 128)).toNat = n % 128 + 128 := by
          rw [UInt8.toNat_ofNat']; omega
        have hge : ¬ UInt8.ofNat (n % 128 + 128) < 128 := by
          rw [UInt8.lt_iff_toNat_lt, hb]
          show ¬ n % 128 + 128 < 128
          omega
        have hdiv : n / 128 < (top.toNat + 1) * 128 ^ k := by
          rw [Nat.div_lt_iff_lt_mul (by decide), Nat.mul_assoc, ← Nat.pow_succ]
          exact h
        rw [if_neg hn, number, List.cons_append, bind_of_ok (byte_cons _ _), if_neg hge,
          bind_of_ok (ih _ hdiv), hb]
        show Except.ok (n % 128 + 128 - 128 + 128 * (n / 128), rest) = _
        rw [show n % 128 + 128 - 128 + 128 * (n / 128) = n by omega]

theorem form_append {n : Nat} (h : n < 2 ^ 32) (rest : Bytes) :
    form (Bytes.ofNumber n ++ rest) = .ok (n, rest) :=
  number_append 15 4 n rest (by decide) (by simpa using h)

theorem word_append {n : Nat} (h : n < 2 ^ 64) (rest : Bytes) :
    word (Bytes.ofNumber n ++ rest) = .ok (n, rest) :=
  number_append 1 9 n rest (by decide) (by simpa using h)

theorem short_append (n : UInt32) (rest : Bytes) :
    short (Bytes.ofNumber n.toNat ++ rest) = .ok (n, rest) := by
  rw [short, bind_of_ok (form_append n.toNat_lt rest)]
  show Except.ok (UInt32.ofNat n.toNat, rest) = _
  rw [UInt32.ofNat_toNat]

end Reader

theorem Direction.read_append (d : Direction) (rest : Bytes) :
    Direction.read (d.toBytes ++ rest) = .ok (d, rest) := by
  cases d <;> exact Reader.bind_of_ok (Reader.form_append (by decide) rest)

theorem Action.read_append (a : Action) (rest : Bytes) :
    Action.read (a.toBytes ++ rest) = .ok (a, rest) := by
  cases a <;> exact Reader.bind_of_ok (Reader.form_append (by decide) rest)

end GridRobot
