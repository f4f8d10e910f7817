import Mathlib.Tactic.Common
import Mathlib.Tactic.Ring
import Mathlib.Tactic.NormNum

/-!
Numbers of a fixed width in bytes: the little-endian bytes of a bit pattern, the
pattern of a byte string, and the two round trips between them.
-/

set_option autoImplicit false

namespace FixedWidth

def littleEndian : (width : Nat) → Nat → List UInt8
  | 0, _ => []
  | width + 1, number => UInt8.ofNat (number % 256) :: littleEndian width (number / 256)

def value : List UInt8 → Nat
  | [] => 0
  | byte :: rest => byte.toNat + 256 * value rest

@[simp] theorem littleEndian_length (width number : Nat) :
    (littleEndian width number).length = width := by
  induction width generalizing number with
  | zero => rfl
  | succ width ih => simp only [littleEndian, List.length_cons, ih]

private theorem value_littleEndian (width number : Nat) :
    value (littleEndian width number) = number % 256 ^ width := by
  induction width generalizing number with
  | zero => simp only [littleEndian, value, pow_zero, Nat.mod_one]
  | succ width ih =>
      have byteValue : (UInt8.ofNat (number % 256)).toNat = number % 256 := by
        rw [UInt8.toNat_ofNat']
        exact Nat.mod_eq_of_lt (Nat.mod_lt number (Nat.succ_pos _))
      rw [littleEndian, value, ih, byteValue, pow_succ', Nat.mod_mul]

private theorem littleEndian_value (bytes : List UInt8) :
    littleEndian bytes.length (value bytes) = bytes := by
  induction bytes with
  | nil => rfl
  | cons byte rest ih =>
      have small : byte.toNat < 256 := byte.toNat_lt
      have low : (byte.toNat + 256 * value rest) % 256 = byte.toNat := by omega
      have high : (byte.toNat + 256 * value rest) / 256 = value rest := by omega
      rw [List.length_cons, littleEndian, value, low, high, ih, UInt8.ofNat_toNat]

private theorem value_lt (bytes : List UInt8) : value bytes < 256 ^ bytes.length := by
  induction bytes with
  | nil => simp [value]
  | cons byte rest ih =>
      have small : byte.toNat < 256 := byte.toNat_lt
      rw [value, List.length_cons, pow_succ]
      omega

theorem two_pow_eight_mul (width : Nat) : 2 ^ (8 * width) = 256 ^ width := by
  rw [pow_mul]
  norm_num

/-- The object representation of a bit pattern, least significant byte first. -/
def bytesOf {width : Nat} (pattern : BitVec (8 * width)) : List UInt8 :=
  littleEndian width pattern.toNat

/-- The bit pattern a little-endian object representation stands for. -/
def patternOf (width : Nat) (bytes : List UInt8) : BitVec (8 * width) :=
  BitVec.ofNat (8 * width) (value bytes)

@[simp] theorem bytesOf_length {width : Nat} (pattern : BitVec (8 * width)) :
    (bytesOf pattern).length = width :=
  littleEndian_length width pattern.toNat

theorem patternOf_toNat {width : Nat} (bytes : List UInt8) (size : bytes.length = width) :
    (patternOf width bytes).toNat = value bytes := by
  have bounded := value_lt bytes
  rw [size] at bounded
  rw [patternOf, BitVec.toNat_ofNat, two_pow_eight_mul, Nat.mod_eq_of_lt bounded]

theorem patternOf_bytesOf {width : Nat} (pattern : BitVec (8 * width)) :
    patternOf width (bytesOf pattern) = pattern := by
  apply BitVec.eq_of_toNat_eq
  have bounded : pattern.toNat < 256 ^ width := by
    rw [← two_pow_eight_mul]
    exact pattern.isLt
  rw [patternOf_toNat _ (bytesOf_length pattern), bytesOf, value_littleEndian,
    Nat.mod_eq_of_lt bounded]

theorem bytesOf_patternOf {width : Nat} (bytes : List UInt8) (size : bytes.length = width) :
    bytesOf (patternOf width bytes) = bytes := by
  rw [bytesOf, patternOf_toNat bytes size]
  subst size
  exact littleEndian_value bytes

end FixedWidth
