import Mathlib.Algebra.Order.Ring.Nat
import Mathlib.Data.List.Basic
import Mathlib.Tactic.Ring

/-!
# Little-endian base 128

The variable-length integers of the protobuf wire format: seven bits a byte,
lowest group first, with the top bit set on every byte but the last.

`encode` is the shortest such text of a natural number, and `value` the number that
any text stands for (`value_encode`, `value_lt`). Readers and writers of the
format are loops over fixed-width words; they are compared with `encode` through the
two equations `encode_of_lt` and `encode_of_le`.
-/

namespace Leb128

/-- The shortest text of `n`. -/
def encode (n : ℕ) : List UInt8 :=
  if n < 128 then [UInt8.ofNat n] else UInt8.ofNat (n % 128 + 128) :: encode (n / 128)

/-- A number below 128 is one group. -/
theorem encode_of_lt {n : ℕ} (h : n < 128) : encode n = [UInt8.ofNat n] := by
  rw [encode, if_pos h]

/-- Of any other, the lowest group comes first. -/
theorem encode_of_le {n : ℕ} (h : 128 ≤ n) :
    encode n = UInt8.ofNat (n % 128 + 128) :: encode (n / 128) := by
  rw [encode, if_neg (not_lt.2 h)]

/-- Every number has a text of at least one byte. -/
theorem encode_ne_nil (n : ℕ) : encode n ≠ [] := by
  rcases lt_or_ge n 128 with h | h
  · simp [encode_of_lt h]
  · simp [encode_of_le h]

theorem length_encode_pos (n : ℕ) : 0 < (encode n).length :=
  List.length_pos_of_ne_nil (encode_ne_nil n)

/-- `k` groups are enough below `128 ^ k`. -/
theorem length_encode_le {k n : ℕ} (hk : 0 < k) (h : n < 128 ^ k) : (encode n).length ≤ k := by
  induction k generalizing n with
  | zero => omega
  | succ k ih =>
    rcases lt_or_ge n 128 with hn | hn
    · simp [encode_of_lt hn]
    · have hk' : 0 < k := by
        rcases Nat.eq_zero_or_pos k with rfl | hk'
        · simp at h
          omega
        · exact hk'
      have hdiv : n / 128 < 128 ^ k := by
        rw [Nat.div_lt_iff_lt_mul (by decide)]
        rwa [pow_succ] at h
      rw [encode_of_le hn, List.length_cons]
      exact Nat.succ_le_succ (ih hk' hdiv)

/-- A text of `k` groups stands for less than `128 ^ k`. -/
theorem lt_pow_length_encode (n : ℕ) : n < 128 ^ (encode n).length := by
  induction n using encode.induct with
  | case1 n h => simpa [encode_of_lt h] using h
  | case2 n h ih =>
    rw [encode_of_le (not_lt.1 h), List.length_cons, pow_succ]
    omega

/-- The number a text stands for: the sum of its groups times powers of 128. -/
def value : List UInt8 → ℕ
  | [] => 0
  | b :: bs => b.toNat % 128 + 128 * value bs

/-- A text of `k` bytes has `7 * k` bits. -/
theorem value_lt (bs : List UInt8) : value bs < 128 ^ bs.length := by
  induction bs with
  | nil => exact Nat.one_pos
  | cons b bs ih =>
    have hgroup : b.toNat % 128 < 128 := Nat.mod_lt _ (by decide)
    rw [value, List.length_cons, pow_succ]
    omega

/-- **The text stands for its number.** -/
theorem value_encode (n : ℕ) : value (encode n) = n := by
  induction n using encode.induct with
  | case1 n h =>
    have hbyte : (UInt8.ofNat n).toNat = n := by
      rw [UInt8.toNat_ofNat']
      omega
    rw [encode_of_lt h, value, value, hbyte]
    omega
  | case2 n h ih =>
    have hbyte : (UInt8.ofNat (n % 128 + 128)).toNat = n % 128 + 128 := by
      rw [UInt8.toNat_ofNat']
      omega
    rw [encode_of_le (not_lt.1 h), value, ih, hbyte]
    omega

end Leb128
