import Mathlib.Algebra.Ring.Nat
import Mathlib.Data.List.Basic

set_option autoImplicit false

namespace Toolbox8.Base

section Keyed

variable {α κ : Type} [DecidableEq κ] (key : α → κ)

def findKeyed (k : κ) (xs : List α) : Option α := xs.find? (fun x => key x = k)

-- Changes the first element under the key, if there is one.
def modifyKeyed (k : κ) (f : α → α) : List α → List α
  | [] => []
  | x :: rest => if key x = k then f x :: rest else x :: modifyKeyed k f rest

theorem find_keyed_cons (k : κ) (x : α) (rest : List α) :
    findKeyed key k (x :: rest) = if key x = k then some x else findKeyed key k rest := by
  by_cases same : key x = k <;> simp [findKeyed, same]

theorem find_keyed_none (k : κ) (xs : List α) : findKeyed key k xs = none ↔ k ∉ xs.map key := by
  simp [findKeyed]

theorem find_keyed_exists (k : κ) (xs : List α) (used : k ∈ xs.map key) : ∃ x, findKeyed key k xs = some x := by
  cases found : findKeyed key k xs with
  | none => exact absurd used ((find_keyed_none key k xs).mp found)
  | some x => exact ⟨x, rfl⟩

theorem find_keyed_append (k : κ) (xs ys : List α) :
    findKeyed key k (xs ++ ys) = (findKeyed key k xs).or (findKeyed key k ys) := by
  simp [findKeyed, List.find?_append]

theorem modify_keyed_keys (k : κ) (f : α → α) (xs : List α) (keeps : ∀ x, key (f x) = key x) :
    (modifyKeyed key k f xs).map key = xs.map key := by
  induction xs with
  | nil => rfl
  | cons x rest ih => by_cases same : key x = k <;> simp [modifyKeyed, same, keeps, ih]

theorem find_modify_same (k : κ) (f : α → α) (xs : List α) (keeps : ∀ x, key (f x) = key x) :
    findKeyed key k (modifyKeyed key k f xs) = (findKeyed key k xs).map f := by
  induction xs with
  | nil => rfl
  | cons x rest ih => by_cases same : key x = k <;> simp [modifyKeyed, find_keyed_cons, same, keeps, ih]

theorem find_modify_other (k other : κ) (f : α → α) (xs : List α) (keeps : ∀ x, key (f x) = key x)
    (different : other ≠ k) : findKeyed key other (modifyKeyed key k f xs) = findKeyed key other xs := by
  induction xs with
  | nil => rfl
  | cons x rest ih =>
      by_cases same : key x = k
      · simp [modifyKeyed, find_keyed_cons, same, keeps, Ne.symm different]
      · simp [modifyKeyed, find_keyed_cons, same, ih]

theorem sum_modify_keyed (k : κ) (f : α → α) (weight : α → Nat) (xs : List α) (x : α)
    (found : findKeyed key k xs = some x) :
    ((modifyKeyed key k f xs).map weight).sum + weight x = (xs.map weight).sum + weight (f x) := by
  induction xs with
  | nil => simp [findKeyed] at found
  | cons y rest ih =>
      rw [find_keyed_cons] at found
      by_cases same : key y = k
      · rw [if_pos same, Option.some.injEq] at found
        subst found
        simp only [modifyKeyed, if_pos same, List.map_cons, List.sum_cons]
        omega
      · rw [if_neg same] at found
        have later := ih found
        simp only [modifyKeyed, if_neg same, List.map_cons, List.sum_cons]
        omega

theorem find_keyed_distinct (xs : List α) (distinct : (xs.map key).Nodup) (x : α) (member : x ∈ xs) :
    findKeyed key (key x) xs = some x := by
  induction xs with
  | nil => exact absurd member List.not_mem_nil
  | cons y rest ih =>
      rw [List.map_cons, List.nodup_cons] at distinct
      rw [find_keyed_cons]
      by_cases same : key y = key x
      · rcases List.mem_cons.mp member with rfl | later
        · rw [if_pos rfl]
        · rw [same] at distinct
          exact absurd (List.mem_map_of_mem later) distinct.1
      · rw [if_neg same]
        rcases List.mem_cons.mp member with rfl | later
        · exact absurd rfl same
        · exact ih distinct.2 later

theorem keyed_groups_perm (keys : List κ) (distinct : keys.Nodup) (xs : List α) (selected : α → Bool)
    (keyed : ∀ x, selected x = true ↔ key x ∈ keys) :
    (keys.flatMap (fun k => xs.filter (fun x => decide (key x = k)))).Perm (xs.filter selected) := by
  induction keys generalizing selected with
  | nil =>
      rw [List.flatMap_nil, List.filter_eq_nil_iff.mpr (by simp [keyed])]
  | cons k rest ih =>
      rw [List.nodup_cons] at distinct
      have group : (xs.filter selected).filter (fun x => decide (key x = k)) = xs.filter (fun x => decide (key x = k)) := by
        rw [List.filter_filter]
        apply List.filter_congr
        intro x _
        by_cases same : key x = k
        · simp [same, (keyed x).mpr (by simp [same])]
        · simp [same]
      have others : ∀ x, (!decide (key x = k) && selected x) = true ↔ key x ∈ rest := by
        intro x
        rw [Bool.and_eq_true, keyed, List.mem_cons, Bool.not_eq_true', decide_eq_false_iff_not]
        constructor
        · rintro ⟨other, same | later⟩
          · exact absurd same other
          · exact later
        · intro later
          refine ⟨?_, .inr later⟩
          rintro rfl
          exact distinct.1 later
      have parts := List.filter_append_perm (fun x => decide (key x = k)) (xs.filter selected)
      rw [group, List.filter_filter] at parts
      rw [List.flatMap_cons]
      exact ((ih distinct.2 _ others).append_left _).trans parts

end Keyed

end Toolbox8.Base
