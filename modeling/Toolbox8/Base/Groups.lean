import Mathlib.Algebra.Ring.Nat
import Mathlib.Data.List.Basic

set_option autoImplicit false

namespace Toolbox8.Base

variable {α : Type}

-- The complete groups of n elements in order, and the elements that are left after them.
def groups (n : Nat) (xs : List α) : List (List α) :=
  (List.range (xs.length / n)).map (fun i => (xs.drop (i * n)).take n)

def remainder (n : Nat) (xs : List α) : List α := xs.drop (xs.length / n * n)

theorem groups_short (n : Nat) (xs : List α) (short : xs.length < n) : groups n xs = [] := by
  rw [groups, Nat.div_eq_of_lt short]
  rfl

theorem remainder_short (n : Nat) (xs : List α) (short : xs.length < n) : remainder n xs = xs := by
  rw [remainder, Nat.div_eq_of_lt short, Nat.zero_mul, List.drop_zero]

theorem groups_enough (n : Nat) (xs : List α) (positive : 0 < n) (enough : n ≤ xs.length) :
    groups n xs = xs.take n :: groups n (xs.drop n) := by
  have count : xs.length / n = (xs.length - n) / n + 1 := Nat.div_eq_sub_div positive enough
  rw [groups, groups, List.length_drop, count, List.range_succ_eq_map, List.map_cons, List.map_map]
  rw [Nat.zero_mul, List.drop_zero]
  congr 1
  apply List.map_congr_left
  intro i _
  simp only [Function.comp_apply, List.drop_drop, Nat.succ_mul, Nat.add_comm]

theorem remainder_enough (n : Nat) (xs : List α) (positive : 0 < n) (enough : n ≤ xs.length) :
    remainder n xs = remainder n (xs.drop n) := by
  have count : xs.length / n = (xs.length - n) / n + 1 := Nat.div_eq_sub_div positive enough
  rw [remainder, remainder, List.length_drop, List.drop_drop, count, Nat.succ_mul, Nat.add_comm]

theorem remainder_length (n : Nat) (xs : List α) : (remainder n xs).length = xs.length % n := by
  rw [remainder, List.length_drop, Nat.mod_eq_sub_div_mul]

-- One group after the other is taken off the front, until what is left is short.
@[elab_as_elim]
theorem groups_induction (n : Nat) (positive : 0 < n) {motive : List α → Prop}
    (short : ∀ xs, xs.length < n → motive xs)
    (enough : ∀ xs, n ≤ xs.length → motive (xs.drop n) → motive xs) (xs : List α) : motive xs := by
  induction size : xs.length using Nat.strongRecOn generalizing xs with
  | ind bound ih =>
      by_cases few : xs.length < n
      · exact short xs few
      · have many := Nat.le_of_not_lt few
        have smaller : (xs.drop n).length < bound := by
          rw [List.length_drop]
          omega
        exact enough xs many (ih _ smaller (xs.drop n) rfl)

theorem append_enough (n : Nat) (xs ys : List α) (enough : n ≤ xs.length) : n ≤ (xs ++ ys).length := by
  rw [List.length_append]
  omega

theorem groups_append (n : Nat) (positive : 0 < n) (xs ys : List α) :
    groups n (xs ++ ys) = groups n xs ++ groups n (remainder n xs ++ ys) := by
  induction xs using groups_induction n positive with
  | short xs few => rw [groups_short n xs few, remainder_short n xs few, List.nil_append]
  | enough xs many ih =>
      rw [groups_enough n (xs ++ ys) positive (append_enough n xs ys many), groups_enough n xs positive many,
        remainder_enough n xs positive many, List.take_append_of_le_length many,
        List.drop_append_of_le_length many, ih, List.cons_append]

theorem remainder_append (n : Nat) (positive : 0 < n) (xs ys : List α) :
    remainder n (xs ++ ys) = remainder n (remainder n xs ++ ys) := by
  induction xs using groups_induction n positive with
  | short xs few => rw [remainder_short n xs few]
  | enough xs many ih =>
      rw [remainder_enough n (xs ++ ys) positive (append_enough n xs ys many), remainder_enough n xs positive many,
        List.drop_append_of_le_length many, ih]

end Toolbox8.Base
