import Mathlib.Algebra.Ring.Int.Defs
import Mathlib.Algebra.Ring.Nat
import Mathlib.Data.List.Basic

set_option autoImplicit false

namespace Toolbox8.Base

-- The four bytes of a 32-bit word, most significant first.
def bigEndian (x : BitVec 32) : List (BitVec 8) :=
  [(x >>> 24).setWidth 8, (x >>> 16).setWidth 8, (x >>> 8).setWidth 8, x.setWidth 8]

def ofBigEndian (a b c d : BitVec 8) : BitVec 32 :=
  a.setWidth 32 <<< 24 ||| b.setWidth 32 <<< 16 ||| c.setWidth 32 <<< 8 ||| d.setWidth 32

theorem byte_mask_bit (i : Nat) : (0xff#32).getLsbD i = decide (i < 8) := by
  rw [show (0xff#32) = (BitVec.allOnes 8).setWidth 32 from rfl, BitVec.getLsbD_setWidth, BitVec.getLsbD_allOnes]
  by_cases low : i < 8
  · simp [low]
    omega
  · simp [low]

theorem masked_widen (b : BitVec 8) : b.signExtend 32 &&& 0xff#32 = b.setWidth 32 := by
  apply BitVec.eq_of_getLsbD_eq
  intro i bound
  rw [BitVec.getLsbD_and, byte_mask_bit, BitVec.getLsbD_signExtend, BitVec.getLsbD_setWidth]
  by_cases low : i < 8
  · simp [low]
  · simp [low, bound, BitVec.getLsbD_of_ge b i (by omega)]

-- The top byte needs no mask, because the shift drops the extended sign.
theorem top_byte_widen (b : BitVec 8) : b.signExtend 32 <<< 24 = b.setWidth 32 <<< 24 := by
  apply BitVec.eq_of_getLsbD_eq
  intro i bound
  rw [BitVec.getLsbD_shiftLeft, BitVec.getLsbD_shiftLeft, BitVec.getLsbD_signExtend, BitVec.getLsbD_setWidth]
  by_cases low : i < 24
  · simp [low]
  · simp [show i - 24 < 8 by omega]

-- A left fold that shifts in one masked byte after the other.
def shiftInByte (word : BitVec 32) (b : BitVec 8) : BitVec 32 := (word <<< 8) ||| (b.signExtend 32 &&& 0xff#32)

theorem shift_in_step (x : BitVec 32) (k : Nat) : shiftInByte (x >>> (k + 8)) ((x >>> k).setWidth 8) = x >>> k := by
  apply BitVec.eq_of_getLsbD_eq
  intro i bound
  rw [shiftInByte, masked_widen]
  simp only [BitVec.getLsbD_or, BitVec.getLsbD_shiftLeft, BitVec.getLsbD_ushiftRight, BitVec.getLsbD_setWidth]
  by_cases low : i < 8
  · simp [low, bound]
  · simp [low, bound, show k + 8 + (i - 8) = k + i by omega]

theorem shift_in_big_endian (x : BitVec 32) : (bigEndian x).foldl shiftInByte 0#32 = x := by
  have first : shiftInByte 0#32 ((x >>> 24).setWidth 8) = x >>> 24 := by
    simpa [BitVec.ushiftRight_eq_zero] using shift_in_step x 24
  have last : shiftInByte (x >>> 8) (x.setWidth 8) = x := by simpa using shift_in_step x 0
  simp only [bigEndian, List.foldl_cons, List.foldl_nil, first, shift_in_step x 16, shift_in_step x 8, last]

theorem shift_in_four (a b c d : BitVec 8) : [a, b, c, d].foldl shiftInByte 0#32 = ofBigEndian a b c d := by
  simp only [List.foldl_cons, List.foldl_nil, shiftInByte, masked_widen, ofBigEndian, BitVec.zero_shiftLeft,
    BitVec.zero_or, BitVec.shiftLeft_or_distrib, ← BitVec.shiftLeft_add, Nat.reduceAdd]

theorem of_big_endian_bytes (x : BitVec 32) :
    ofBigEndian ((x >>> 24).setWidth 8) ((x >>> 16).setWidth 8) ((x >>> 8).setWidth 8) (x.setWidth 8) = x := by
  rw [← shift_in_four, ← bigEndian, shift_in_big_endian]

-- The eight bytes of a 64-bit word, most significant first.
def bigEndianLong (x : BitVec 64) : List (BitVec 8) :=
  [(x >>> 56).setWidth 8, (x >>> 48).setWidth 8, (x >>> 40).setWidth 8, (x >>> 32).setWidth 8,
    (x >>> 24).setWidth 8, (x >>> 16).setWidth 8, (x >>> 8).setWidth 8, x.setWidth 8]

-- The two lowest groups of half bits of a word.
section Halves

variable {half wide : Nat}

def highHalf (half : Nat) (x : BitVec wide) : BitVec half := (x >>> half).setWidth half

def lowHalf (half : Nat) (x : BitVec wide) : BitVec half := x.setWidth half

theorem low_half_widened (word : BitVec half) (room : half ≤ wide) : lowHalf half (word.signExtend wide) = word := by
  apply BitVec.eq_of_getLsbD_eq
  intro i bound
  rw [lowHalf, BitVec.getLsbD_setWidth, BitVec.getLsbD_signExtend]
  simp [bound, show i < wide by omega]

theorem high_half_negative (word : BitVec half) (room : half + half ≤ wide) (negative : word.msb = true) :
    highHalf half (word.signExtend wide) = BitVec.allOnes half := by
  apply BitVec.eq_of_getLsbD_eq
  intro i bound
  rw [highHalf, BitVec.getLsbD_setWidth, BitVec.getLsbD_ushiftRight, BitVec.getLsbD_signExtend, BitVec.getLsbD_allOnes]
  simp [bound, negative, show half + i < wide by omega]

theorem high_half_small (x : BitVec wide) (small : x.toNat < 2 ^ half) : highHalf half x = BitVec.ofNat half 0 := by
  apply BitVec.eq_of_toNat_eq
  rw [highHalf, BitVec.toNat_setWidth, BitVec.toNat_ushiftRight, Nat.shiftRight_eq_div_pow, Nat.div_eq_of_lt small]
  simp

theorem natural_of_nonneg (x : BitVec wide) (natural : 0 ≤ x.toInt) : x.toInt = x.toNat := by
  have signs := BitVec.toInt_eq_msb_cond x
  have bound := x.isLt
  split at signs <;> omega

theorem natural_bound (x : BitVec wide) (natural : 0 ≤ x.toInt) (small : 2 * x.toInt < 2 ^ half) :
    2 * x.toNat < 2 ^ half := by
  rw [natural_of_nonneg x natural] at small
  exact_mod_cast small

theorem low_half_small (x : BitVec wide) (room : half ≤ wide) (natural : 0 ≤ x.toInt) (small : 2 * x.toInt < 2 ^ half) :
    (lowHalf half x).signExtend wide = x := by
  have bound := natural_bound x natural small
  apply BitVec.eq_of_toInt_eq
  rw [BitVec.toInt_signExtend_of_le room, lowHalf, BitVec.toInt_setWidth, natural_of_nonneg x natural]
  apply Int.bmod_eq_of_le_mul_two
  · omega
  · omega

theorem all_ones_value (positive : 0 < wide) : (BitVec.allOnes wide).toInt = -1 := by
  simp [positive]

theorem widened_all_ones (positive : 0 < half) (room : half ≤ wide) :
    (BitVec.allOnes half).signExtend wide = BitVec.allOnes wide := by
  apply BitVec.eq_of_toInt_eq
  rw [BitVec.toInt_signExtend_of_le room, all_ones_value positive, all_ones_value (by omega)]

theorem halves_folded_iff (x : BitVec wide) (positive : 0 < half) (room : half + half ≤ wide) :
    (highHalf half x ||| lowHalf half x).signExtend wide = x ↔ -1 ≤ x.toInt ∧ 2 * x.toInt < 2 ^ half := by
  have narrow : half ≤ wide := by omega
  have ones := @all_ones_value wide (by omega)
  constructor
  · intro kept
    have same : (highHalf half x ||| lowHalf half x).toInt = x.toInt := by
      rw [← BitVec.toInt_signExtend_of_le narrow, kept]
    have small : 2 * x.toInt < 2 ^ half := by
      rw [← same]
      exact BitVec.two_mul_toInt_lt
    by_cases natural : 0 ≤ x.toInt
    · exact ⟨by omega, small⟩
    · have negative : (highHalf half x ||| lowHalf half x).msb = true := by
        rw [BitVec.msb_eq_toInt, same, decide_eq_true_eq]
        omega
      have high := high_half_negative (highHalf half x ||| lowHalf half x) room negative
      rw [kept] at high
      rw [high, BitVec.allOnes_or, widened_all_ones positive narrow] at kept
      rw [← kept] at small ⊢
      exact ⟨by omega, small⟩
  · intro condition
    by_cases natural : 0 ≤ x.toInt
    · have bound := natural_bound x natural condition.2
      rw [high_half_small x (by omega), BitVec.zero_or]
      exact low_half_small x narrow natural condition.2
    · have full : x = BitVec.allOnes wide := by
        apply BitVec.eq_of_toInt_eq
        omega
      have low : lowHalf half x = BitVec.allOnes half := by
        rw [full, ← widened_all_ones positive narrow, low_half_widened _ narrow]
      rw [low, BitVec.or_allOnes, widened_all_ones positive narrow, full]

theorem cut_high_half (x : BitVec wide) (offset size : Nat) (inside : offset + size ≤ half) :
    (highHalf half x >>> offset).setWidth size = (x >>> (half + offset)).setWidth size := by
  apply BitVec.eq_of_getLsbD_eq
  intro i bound
  simp only [highHalf, BitVec.getLsbD_setWidth, BitVec.getLsbD_ushiftRight, show offset + i < half by omega,
    decide_true, Bool.true_and, Nat.add_assoc]

theorem cut_low_half (x : BitVec wide) (offset size : Nat) (inside : offset + size ≤ half) :
    (lowHalf half x >>> offset).setWidth size = (x >>> offset).setWidth size := by
  apply BitVec.eq_of_getLsbD_eq
  intro i bound
  simp only [lowHalf, BitVec.getLsbD_setWidth, BitVec.getLsbD_ushiftRight, show offset + i < half by omega,
    decide_true, Bool.true_and]

end Halves

theorem big_endian_long_halves (x : BitVec 64) :
    bigEndianLong x = bigEndian (highHalf 32 x) ++ bigEndian (lowHalf 32 x) := by
  have lastHigh := @cut_high_half 32 64 x 0 8 (by decide)
  have lastLow := @cut_low_half 32 64 x 0 8 (by decide)
  rw [BitVec.ushiftRight_zero] at lastHigh lastLow
  simp only [bigEndianLong, bigEndian, List.cons_append, List.nil_append]
  rw [cut_high_half x 24 8 (by decide), cut_high_half x 16 8 (by decide), cut_high_half x 8 8 (by decide), lastHigh,
    cut_low_half x 24 8 (by decide), cut_low_half x 16 8 (by decide), cut_low_half x 8 8 (by decide), lastLow,
    BitVec.ushiftRight_zero]

end Toolbox8.Base
