import Mathlib.Tactic.Common
import Mathlib.Algebra.Order.Ring.Nat

/-! Unsigned integers as bytes, least significant first. -/

namespace Hane.Foundations

/-- The integer with the given little-endian bytes. -/
def fromLeBytes : List UInt8 → Nat
  | [] => 0
  | byte :: rest => byte.toNat + 256 * fromLeBytes rest

/-- The lowest bytes of an integer. -/
def toLeBytes : Nat → Nat → List UInt8
  | 0, _ => []
  | width + 1, value => UInt8.ofNat value :: toLeBytes width (value / 256)

/-- The integer of a width that starts at an offset of a byte string. -/
def leField (width : Nat) (data : List UInt8) (offset : Nat) : Nat :=
  fromLeBytes ((data.drop offset).take width)

theorem fromLeBytes_lt (bytes : List UInt8) : fromLeBytes bytes < 256 ^ bytes.length := by
  induction bytes with
  | nil => simp [fromLeBytes]
  | cons byte rest ih =>
      have small := byte.toNat_lt
      simp only [fromLeBytes, List.length_cons, Nat.pow_succ]
      omega

@[simp] theorem toLeBytes_length (width value : Nat) : (toLeBytes width value).length = width := by
  induction width generalizing value with
  | zero => rfl
  | succ width ih => simp [toLeBytes, ih]

/-- Integers that fit are read back from their bytes, by induction on the width. -/
theorem fromLeBytes_toLeBytes {width value : Nat} (small : value < 256 ^ width)
    : fromLeBytes (toLeBytes width value) = value := by
  induction width generalizing value with
  | zero =>
      simp only [Nat.pow_zero, Nat.lt_one_iff] at small
      simp [toLeBytes, fromLeBytes, small]
  | succ width ih =>
      have rest : value / 256 < 256 ^ width := by
        rw [Nat.pow_succ] at small
        exact Nat.div_lt_of_lt_mul (by omega)
      simp only [toLeBytes, fromLeBytes, ih rest, UInt8.toNat_ofNat']
      omega

theorem leField_lt (width : Nat) (data : List UInt8) (offset : Nat)
    : leField width data offset < 256 ^ width := by
  have bounded := fromLeBytes_lt ((data.drop offset).take width)
  have short : ((data.drop offset).take width).length ≤ width := by simp
  exact lt_of_lt_of_le bounded (Nat.pow_le_pow_right (by decide) short)

theorem leField_take (width : Nat) (data : List UInt8) (offset stop : Nat)
    (inside : offset + width ≤ stop)
    : leField width (data.take stop) offset = leField width data offset := by
  simp only [leField, List.drop_take, List.take_take, Nat.min_eq_left (by omega : width ≤ stop - offset)]

theorem leField_drop (width : Nat) (data : List UInt8) (start offset : Nat)
    : leField width (data.drop start) offset = leField width data (start + offset) := by
  simp only [leField, List.drop_drop]

end Hane.Foundations
