import Mathlib.Data.List.Induction
import Toolbox8.ByteStrings
import Toolbox8.Base.Groups

set_option autoImplicit false

namespace Toolbox8.GroupBytes

open Base

-- Int addition wraps around.
def plus (a b : Int) : Int := (a + b).bmod 4294967296

def slice (b : ByteString) (fromIndex untilIndex : Int) : ByteString := (b.take untilIndex.toNat).drop fromIndex.toNat

section Stage

variable (groupSize : Int)

-- The fuel bounds the recursion; none means that it has run out.
def helper (b : ByteString) : Nat → List ByteString → Int → Int → Option (List ByteString × ByteString)
  | 0, _, _, _ => none
  | fuel + 1, acc, fromIndex, untilIndex =>
      if b.length < untilIndex then some (acc.reverse, slice b fromIndex b.length)
      else helper b fuel (slice b fromIndex untilIndex :: acc) untilIndex (plus untilIndex groupSize)

-- One element: the groups it completes and the new buffer.
def onElement (fuel : Nat) (buffer bs : ByteString) : Option (List ByteString × ByteString) :=
  helper groupSize (buffer ++ bs) fuel [] 0 groupSize

-- All that has been emitted after the elements, and the buffer.
def groupBytes (fuel : Nat) : ByteString → List ByteString → Option (List ByteString × ByteString)
  | buffer, [] => some ([], buffer)
  | buffer, bs :: rest => do
      let (emitted, newBuffer) ← onElement groupSize fuel buffer bs
      let (later, final) ← groupBytes fuel newBuffer rest
      some (emitted ++ later, final)

end Stage

theorem plus_fits (a b : Int) (low : 0 ≤ a + b) (high : a + b < 2147483648) : plus a b = a + b := by
  rw [plus, Int.bmod_eq_of_le]
  · omega
  · omega

theorem slice_rest (b : ByteString) (done : Nat) : slice b done b.length = b.drop done := by
  rw [slice, Int.toNat_natCast, Int.toNat_natCast, List.take_length]

theorem slice_group (b : ByteString) (done n : Nat) : slice b done ((done : Int) + n) = (b.drop done).take n := by
  rw [slice, Int.toNat_natCast, ← Int.natCast_add, Int.toNat_natCast, List.drop_take, Nat.add_sub_cancel_left]

-- The bytes before done have been cut off; acc holds their groups.
theorem helper_groups (n : Nat) (positive : 0 < n) (b : ByteString) (fits : (b.length : Int) + n < 2147483648)
    (fuel : Nat) (acc : List ByteString) (done : Nat) (within : done ≤ b.length) (enough : b.length - done < fuel) :
    helper n b fuel acc done ((done : Int) + n) =
      some (acc.reverse ++ groups n (b.drop done), remainder n (b.drop done)) := by
  induction fuel generalizing acc done with
  | zero => omega
  | succ fuel ih =>
      rw [helper]
      have left : (b.drop done).length = b.length - done := List.length_drop
      split
      · rename_i ends
        have short : (b.drop done).length < n := by omega
        rw [groups_short n _ short, remainder_short n _ short, List.append_nil, slice_rest]
      · rename_i goesOn
        have whole : n ≤ (b.drop done).length := by omega
        rw [plus_fits _ _ (by omega) (by omega), slice_group, ← Int.natCast_add,
          ih _ (done + n) (by omega) (by omega), List.drop_drop.symm]
        rw [groups_enough n _ positive whole, remainder_enough n _ positive whole, List.reverse_cons,
          List.append_assoc, List.singleton_append]

theorem element_groups (n : Nat) (positive : 0 < n) (fuel : Nat) (buffer bs : ByteString)
    (fits : ((buffer ++ bs).length : Int) + n < 2147483648) (enough : (buffer ++ bs).length < fuel) :
    onElement n fuel buffer bs = some (groups n (buffer ++ bs), remainder n (buffer ++ bs)) := by
  have cut := helper_groups n positive (buffer ++ bs) fits fuel [] 0 (Nat.zero_le _) enough
  simpa [onElement] using cut

-- What the stage holds when an element comes in stays within Int, also with one more group.
def Fits (groupSize : Int) (pieces : List ByteString) : Prop :=
  ∀ front bs back, pieces = front ++ bs :: back →
    (front.flatten.length : Int) % groupSize + bs.length + groupSize ≤ 2147483647

theorem fits_front (groupSize : Int) (front back : List ByteString) (fits : Fits groupSize (front ++ back)) :
    Fits groupSize front := by
  intro before bs after split
  exact fits before bs (after ++ back) (by rw [split, List.append_assoc, List.cons_append])

theorem fits_short (groupSize : Int) (positive : 1 ≤ groupSize) (pieces : List ByteString)
    (short : (pieces.flatten.length : Int) + groupSize ≤ 2147483647) : Fits groupSize pieces := by
  obtain ⟨n, rfl⟩ := Int.eq_ofNat_of_zero_le (by omega : 0 ≤ groupSize)
  rintro front bs back rfl
  have carried := Nat.mod_le front.flatten.length n
  simp only [List.flatten_append, List.flatten_cons, List.length_append] at short
  omega

theorem group_bytes_last (groupSize : Int) (fuel : Nat) (buffer bs : ByteString) (front : List ByteString) :
    groupBytes groupSize fuel buffer (front ++ [bs]) =
      (groupBytes groupSize fuel buffer front).bind (fun (emitted, carried) =>
        (onElement groupSize fuel carried bs).map (fun (last, final) => (emitted ++ last, final))) := by
  induction front generalizing buffer with
  | nil =>
      cases cut : onElement groupSize fuel buffer bs with
      | none => simp [groupBytes, cut]
      | some _ => simp [groupBytes, cut]
  | cons first rest ih =>
      rw [List.cons_append, groupBytes, groupBytes]
      cases cut : onElement groupSize fuel buffer first with
      | none => rfl
      | some result =>
          simp only [Option.bind_eq_bind, Option.bind_some, ih]
          cases ran : groupBytes groupSize fuel result.2 rest with
          | none => rfl
          | some later =>
              simp only [Option.bind_some]
              cases onElement groupSize fuel later.2 bs with
              | none => rfl
              | some last => simp [List.append_assoc]

-- By induction on the prefix that has come in: the buffer is what is left of its bytes.
theorem groups_after (n : Nat) (positive : 0 < n) (fuel : Nat) (pieces : List ByteString) (fits : Fits n pieces)
    (enough : pieces.flatten.length < fuel) :
    groupBytes n fuel [] pieces = some (groups n pieces.flatten, remainder n pieces.flatten) := by
  induction pieces using List.reverseRecOn with
  | nil => simp [groupBytes, groups, remainder]
  | append_singleton front bs ih =>
      rw [List.flatten_append, List.flatten_singleton, List.length_append] at enough
      have left := remainder_length n front.flatten
      have within := Nat.mod_le front.flatten.length n
      have room := fits front bs [] rfl
      have last := element_groups n positive fuel (remainder n front.flatten) bs
        (by rw [List.length_append, left]; omega) (by rw [List.length_append, left]; omega)
      rw [group_bytes_last, ih (fits_front n front [bs] fits) (by omega), Option.bind_some]
      simp only [last, Option.map_some]
      rw [List.flatten_append, List.flatten_singleton, groups_append n positive front.flatten bs,
        remainder_append n positive front.flatten bs]

theorem group_bytes_is_exact (groupSize : Int) (positive : 1 ≤ groupSize) (pieces : List ByteString)
    (fits : Fits groupSize pieces) (fuel : Nat) (enough : pieces.flatten.length < fuel) :
    groupBytes groupSize fuel [] pieces =
        some (groups groupSize.toNat pieces.flatten, remainder groupSize.toNat pieces.flatten) ∧
      ((remainder groupSize.toNat pieces.flatten).length : Int) < groupSize ∧
      ∀ others : List ByteString, others.flatten = pieces.flatten → Fits groupSize others →
        groupBytes groupSize fuel [] others = groupBytes groupSize fuel [] pieces := by
  obtain ⟨n, rfl⟩ := Int.eq_ofNat_of_zero_le (by omega : 0 ≤ groupSize)
  have some := Int.ofNat_lt.mp positive
  rw [Int.toNat_natCast, groups_after n some fuel pieces fits enough]
  refine ⟨rfl, ?_, ?_⟩
  · rw [remainder_length]
    exact Int.ofNat_lt.mpr (Nat.mod_lt _ some)
  · intro others same also
    rw [← same, groups_after n some fuel others also (by rwa [same])]

theorem group_bytes_is_exact_on_seven_bytes :
    groupBytes 3 8 [] [[1, 2], [], [3, 4, 5, 6, 7]] =
        some (groups 3 [1, 2, 3, 4, 5, 6, 7], remainder 3 [1, 2, 3, 4, 5, 6, 7]) ∧
      ((remainder 3 ([1, 2, 3, 4, 5, 6, 7] : ByteString)).length : Int) < 3 ∧
      ∀ others : List ByteString, others.flatten = [1, 2, 3, 4, 5, 6, 7] → Fits 3 others →
        groupBytes 3 8 [] others = groupBytes 3 8 [] [[1, 2], [], [3, 4, 5, 6, 7]] :=
  group_bytes_is_exact 3 (by decide) [[1, 2], [], [3, 4, 5, 6, 7]] (fits_short 3 (by decide) _ (by decide)) 8 (by decide)

end Toolbox8.GroupBytes
