import Mathlib.Algebra.Ring.Nat
import Mathlib.Data.List.Induction

set_option autoImplicit false

namespace Toolbox8.Base

-- The last size bytes of a number, most significant first.
def bytesOf : Nat → Nat → List (BitVec 8)
  | 0, _ => []
  | size + 1, value => bytesOf size (value / 256) ++ [BitVec.ofNat 8 value]

def valueOf (bytes : List (BitVec 8)) : Nat := bytes.foldl (fun value byte => value * 256 + byte.toNat) 0

@[simp] theorem bytes_of_length (size value : Nat) : (bytesOf size value).length = size := by
  induction size generalizing value with
  | zero => rfl
  | succ size ih => rw [bytesOf, List.length_append, ih, List.length_singleton]

theorem bytes_of_zero (size : Nat) : bytesOf size 0 = List.replicate size 0 := by
  induction size with
  | zero => rfl
  | succ size ih =>
      rw [bytesOf, Nat.zero_div, ih, List.replicate_succ']
      rfl

theorem value_of_last (bytes : List (BitVec 8)) (byte : BitVec 8) :
    valueOf (bytes ++ [byte]) = valueOf bytes * 256 + byte.toNat := by
  rw [valueOf, List.foldl_append]
  rfl

theorem value_of_bytes_of (size value : Nat) : valueOf (bytesOf size value) = value % 256 ^ size := by
  induction size generalizing value with
  | zero => rw [Nat.pow_zero, Nat.mod_one]; rfl
  | succ size ih =>
      have digits : value % 256 ^ (size + 1) = value % 256 + 256 * (value / 256 % 256 ^ size) := by
        rw [Nat.pow_succ', Nat.mod_mul]
      rw [bytesOf, value_of_last, ih, digits, BitVec.toNat_ofNat]
      omega

theorem bytes_of_value_of (bytes : List (BitVec 8)) : bytesOf bytes.length (valueOf bytes) = bytes := by
  induction bytes using List.reverseRecOn with
  | nil => rfl
  | append_singleton front last ih =>
      have low := last.isLt
      have high : (valueOf front * 256 + last.toNat) / 256 = valueOf front := by omega
      rw [List.length_append, List.length_singleton, bytesOf, value_of_last, high, ih]
      congr 2
      apply BitVec.eq_of_toNat_eq
      rw [BitVec.toNat_ofNat]
      omega

theorem value_of_bound (bytes : List (BitVec 8)) : valueOf bytes < 256 ^ bytes.length := by
  rw [← bytes_of_value_of bytes, value_of_bytes_of, bytes_of_length]
  exact Nat.mod_lt _ (Nat.pow_pos (by decide))

-- Words of a whole number of bytes.
section Words

variable {size : Nat}

theorem word_bound (x : BitVec (8 * size)) : x.toNat < 256 ^ size := by
  have bound := x.isLt
  rwa [Nat.pow_mul] at bound

theorem word_read_back (x : BitVec (8 * size)) : BitVec.ofNat (8 * size) (valueOf (bytesOf size x.toNat)) = x := by
  rw [value_of_bytes_of, Nat.mod_eq_of_lt (word_bound x), BitVec.ofNat_toNat, BitVec.setWidth_eq]

theorem word_bytes_injective (x y : BitVec (8 * size)) (same : bytesOf size x.toNat = bytesOf size y.toNat) : x = y := by
  rw [← word_read_back x, same, word_read_back]

theorem bytes_of_word (bytes : List (BitVec 8)) (full : bytes.length = size) :
    bytesOf size (BitVec.ofNat (8 * size) (valueOf bytes)).toNat = bytes := by
  subst full
  have bound := value_of_bound bytes
  rw [BitVec.toNat_ofNat, Nat.pow_mul, Nat.mod_eq_of_lt bound, bytes_of_value_of]

end Words

end Toolbox8.Base
