import Mathlib.Data.List.Basic

set_option autoImplicit false

namespace Toolbox8.Base

section Codes

variable {α β : Type} (code : α → List β)

-- What comes after the word of a letter does not make it the word of another one.
structure PrefixCode : Prop where
  nonempty : ∀ a, code a ≠ []
  determined : ∀ a b xs ys, code a ++ xs = code b ++ ys → a = b

theorem coded_injective (prefixCode : PrefixCode code) (as bs : List α) (same : as.flatMap code = bs.flatMap code) : as = bs := by
  induction as generalizing bs with
  | nil =>
      cases bs with
      | nil => rfl
      | cons b rest =>
          rw [List.flatMap_nil, List.flatMap_cons, eq_comm, List.append_eq_nil_iff] at same
          exact absurd same.1 (prefixCode.nonempty b)
  | cons a rest ih =>
      cases bs with
      | nil =>
          rw [List.flatMap_nil, List.flatMap_cons, List.append_eq_nil_iff] at same
          exact absurd same.1 (prefixCode.nonempty a)
      | cons b others =>
          rw [List.flatMap_cons, List.flatMap_cons] at same
          obtain rfl := prefixCode.determined a b _ _ same
          rw [ih others (List.append_cancel_left same)]

end Codes

section Separators

variable {α : Type} [DecidableEq α] (separator : α)

-- The parts of several texts, in order, which are joined with the separator between them.
def partsOf (texts : List (List α)) : List (List α) := texts.flatMap (List.splitOn separator)

def joined (texts : List (List α)) : List α := [separator].intercalate texts

theorem split_joined (text : List α) (rest : List (List α)) :
    (joined separator (text :: rest)).splitOn separator = partsOf separator (text :: rest) := by
  induction rest generalizing text with
  | nil => rw [joined, List.intercalate_singleton, partsOf, List.flatMap_singleton]
  | cons next more ih =>
      have split : joined separator (text :: next :: more) = text ++ separator :: joined separator (next :: more) := by
        rw [joined, List.intercalate_cons_cons, List.append_assoc]
        rfl
      rw [split, List.splitOn_append_cons_self, ih]
      rfl

theorem joined_eq_iff (a b : List α) (as bs : List (List α)) :
    joined separator (a :: as) = joined separator (b :: bs) ↔ partsOf separator (a :: as) = partsOf separator (b :: bs) := by
  rw [← split_joined, ← split_joined]
  constructor
  · exact congrArg _
  · intro same
    have joins := congrArg (List.intercalate [separator]) same
    rwa [List.intercalate_splitOn, List.intercalate_splitOn] at joins

theorem length_split (text : List α) : (text.splitOn separator).length = text.count separator + 1 := by
  induction text with
  | nil => rfl
  | cons x rest ih =>
      rw [List.splitOn_cons_eq_if_modifyHead, List.count_cons]
      by_cases same : x = separator
      · simp [same, ih]
      · simp [same, ih]

theorem first_text (a b : List α) (as bs : List (List α)) (count : a.count separator = b.count separator)
    (same : partsOf separator (a :: as) = partsOf separator (b :: bs)) :
    a = b ∧ partsOf separator as = partsOf separator bs := by
  rw [partsOf, partsOf, List.flatMap_cons, List.flatMap_cons] at same
  have lengths : (a.splitOn separator).length = (b.splitOn separator).length := by
    rw [length_split, length_split, count]
  obtain ⟨here, later⟩ := List.append_inj same lengths
  have joins := congrArg (List.intercalate [separator]) here
  rw [List.intercalate_splitOn, List.intercalate_splitOn] at joins
  exact ⟨joins, later⟩

theorem last_text (a b : List α) (same : partsOf separator [a] = partsOf separator [b]) : a = b := by
  have joins := (joined_eq_iff separator a b [] []).mpr same
  rwa [joined, joined, List.intercalate_singleton, List.intercalate_singleton] at joins

theorem texts_determined (a b : List α) (as bs : List (List α))
    (counts : (a :: as).dropLast.map (List.count separator) = (b :: bs).dropLast.map (List.count separator))
    (same : partsOf separator (a :: as) = partsOf separator (b :: bs)) : a :: as = b :: bs := by
  induction as generalizing a b bs with
  | nil =>
      cases bs with
      | nil => rw [last_text separator a b same]
      | cons next others => cases counts
  | cons next more ih =>
      cases bs with
      | nil => cases counts
      | cons first others =>
          rw [List.dropLast_cons_cons, List.dropLast_cons_cons, List.map_cons, List.map_cons] at counts
          obtain ⟨here, later⟩ := List.cons.inj counts
          obtain ⟨text, rest⟩ := first_text separator a b _ _ here same
          rw [text, ih next first others later rest]

end Separators

end Toolbox8.Base
