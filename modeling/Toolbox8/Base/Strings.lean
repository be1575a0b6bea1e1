import Mathlib.Data.List.Lex
import Mathlib.Data.List.Pairwise
import Mathlib.Data.List.Sort
import Toolbox8.Base.Texts

set_option autoImplicit false

namespace Toolbox8.Base

-- The UTF-16 code units of a string, by which String.compareTo compares.
def utf16 (s : String) : List Nat :=
  s.toList.flatMap (fun c =>
    if c.toNat < 65536 then [c.toNat] else [55296 + (c.toNat - 65536) / 1024, 56320 + (c.toNat - 65536) % 1024])

-- No character is a surrogate, so that the first unit of a pair is not the unit of a character.
theorem units_code : PrefixCode (fun c : Char =>
    if c.toNat < 65536 then [c.toNat] else [55296 + (c.toNat - 65536) / 1024, 56320 + (c.toNat - 65536) % 1024]) := by
  constructor
  · intro c
    split
    · simp
    · simp
  · intro a b xs ys same
    have first : a.toNat < 55296 ∨ (57343 < a.toNat ∧ a.toNat < 1114112) := a.valid
    have second : b.toNat < 55296 ∨ (57343 < b.toNat ∧ b.toNat < 1114112) := b.valid
    apply Char.toNat_inj.mp
    by_cases basic : a.toNat < 65536
    · by_cases other : b.toNat < 65536
      · simp only [if_pos basic, if_pos other, List.cons_append, List.cons.injEq] at same
        exact same.1
      · simp only [if_pos basic, if_neg other, List.cons_append, List.cons.injEq] at same
        omega
    · by_cases other : b.toNat < 65536
      · simp only [if_neg basic, if_pos other, List.cons_append, List.cons.injEq] at same
        omega
      · simp only [if_neg basic, if_neg other, List.cons_append, List.cons.injEq] at same
        omega

theorem utf16_injective (s t : String) (same : utf16 s = utf16 t) : s = t :=
  String.toList_inj.mp (coded_injective _ units_code s.toList t.toList same)

-- sortBy is stable.
def sortBy {α : Type} (text : α → String) (xs : List α) : List α :=
  xs.insertionSort (fun a b => utf16 (text a) ≤ utf16 (text b))

-- String.split of a single character, which drops empty strings at the end.
def split (separator : Char) (s : String) : List String :=
  if separator ∈ s.toList then
    (((s.toList.splitOn separator).map String.ofList).reverse.dropWhile (fun piece => piece = "")).reverse
  else [s]

-- One element of each key.
def distinctBy {α β : Type} [DecidableEq β] (key : α → β) (as : List α) : List α := as.pwFilter (fun a b => key a ≠ key b)

theorem mem_sort_by {α : Type} (text : α → String) (xs : List α) (x : α) : x ∈ sortBy text xs ↔ x ∈ xs :=
  List.mem_insertionSort _

theorem sort_by_sorted {α : Type} (text : α → String) (xs : List α) :
    (sortBy text xs).Pairwise (fun a b => utf16 (text a) ≤ utf16 (text b)) := by
  have total : Std.Total (fun a b : α => utf16 (text a) ≤ utf16 (text b)) := ⟨fun a b => le_total _ _⟩
  have transitive : IsTrans α (fun a b => utf16 (text a) ≤ utf16 (text b)) := ⟨fun a b c => le_trans⟩
  exact List.pairwise_insertionSort _ xs

-- What a stable sort gives: the same elements in the order of their texts, and those of one text as they were.
structure SortedBy {α : Type} (text : α → String) (xs sorted : List α) : Prop where
  perm : sorted.Perm xs
  ordered : sorted.Pairwise (fun a b => utf16 (text a) ≤ utf16 (text b))
  stable : ∀ s, sorted.filter (fun x => text x = s) = xs.filter (fun x => text x = s)

theorem sort_by_spec {α : Type} (text : α → String) (xs : List α) : SortedBy text xs (sortBy text xs) := by
  have perm : (sortBy text xs).Perm xs := List.perm_insertionSort _ xs
  refine ⟨perm, sort_by_sorted text xs, fun s => ?_⟩
  have equal : (xs.filter (fun x => text x = s)).Pairwise (fun a b => utf16 (text a) ≤ utf16 (text b)) := by
    rw [List.pairwise_filter]
    refine List.pairwise_of_forall (fun a b here there => ?_)
    rw [of_decide_eq_true here, of_decide_eq_true there]
  have kept : (xs.filter (fun x => text x = s)).Sublist (sortBy text xs) :=
    List.sublist_insertionSort equal List.filter_sublist
  have inside := kept.filter (fun x => text x = s)
  rw [List.filter_filter, show (fun x => decide (text x = s) && decide (text x = s)) = fun x => decide (text x = s) from
    funext (fun x => Bool.and_self _)] at inside
  exact (inside.eq_of_length (perm.filter _).length_eq.symm).symm

theorem sorted_strings (ss ts : List String) (sorted : ss.Pairwise (fun s t => utf16 s ≤ utf16 t))
    (others : ts.Pairwise (fun s t => utf16 s ≤ utf16 t)) (nodup : ss.Nodup) (distinct : ts.Nodup)
    (members : ∀ s, s ∈ ss ↔ s ∈ ts) : ss = ts := by
  have perm : ss.Perm ts := (List.perm_ext_iff_of_nodup nodup distinct).mpr members
  have antisymmetric : ∀ s t, s ∈ ss → t ∈ ts → utf16 s ≤ utf16 t → utf16 t ≤ utf16 s → s = t :=
    fun s t _ _ below above => utf16_injective s t (le_antisymm below above)
  exact List.Perm.eq_of_pairwise antisymmetric sorted others perm

theorem mem_of_mem_distinct_by {α β : Type} [DecidableEq β] (key : α → β) (as : List α) (a : α)
    (member : a ∈ distinctBy key as) : a ∈ as :=
  List.pwFilter_subset as member

theorem distinct_by_complete {α β : Type} [DecidableEq β] (key : α → β) (as : List α) (a : α) (member : a ∈ as) :
    ∃ b ∈ distinctBy key as, key b = key a := by
  by_contra missing
  have differ : ∀ b ∈ distinctBy key as, key a ≠ key b := fun b kept same => missing ⟨b, kept, same.symm⟩
  have transitive : ∀ {x y z : α}, key x ≠ key z → key x ≠ key y ∨ key y ≠ key z := by
    intro x y z apart
    by_cases same : key x = key y
    · exact Or.inr (fun further => apart (same.trans further))
    · exact Or.inl same
  have all := (List.forall_mem_pwFilter (R := fun x y => key x ≠ key y) transitive a as).mp differ
  exact all a member rfl

end Toolbox8.Base
