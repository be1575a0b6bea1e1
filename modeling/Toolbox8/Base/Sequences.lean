import Mathlib.Algebra.Ring.Nat
import Mathlib.Data.List.Nodup
import Mathlib.Data.List.Perm.Basic

set_option autoImplicit false

namespace Toolbox8.Base

variable {α κ : Type}

theorem range_get (xs : List α) : (List.range xs.length).filterMap (fun i => xs[i]?) = xs := by
  induction xs with
  | nil => rfl
  | cons x rest ih => simpa [List.range_succ_eq_map, List.filterMap_cons, List.filterMap_map, Function.comp_def] using ih

theorem filter_map_either {β : Type} (f g : α → Option β) (xs : List α) (apart : ∀ x ∈ xs, f x = none ∨ g x = none) :
    (xs.filterMap (fun x => (f x).or (g x))).Perm (xs.filterMap f ++ xs.filterMap g) := by
  induction xs with
  | nil => exact .refl _
  | cons x rest ih =>
      have later := ih (fun y member => apart y (List.mem_cons_of_mem _ member))
      cases first : f x with
      | none =>
          cases second : g x with
          | none => simpa [first, second] using later
          | some b => simpa [first, second] using (later.cons b).trans List.perm_middle.symm
      | some a =>
          have other : g x = none := (apart x List.mem_cons_self).resolve_left (by simp [first])
          simpa [first, other] using later

theorem modify_middle (front back : List α) (x : α) (f : α → α) :
    (front ++ x :: back).modify front.length f = front ++ f x :: back := by
  induction front with
  | nil => rfl
  | cons y rest ih => simp [ih]

theorem map_set_same (f : α → κ) (xs : List α) (index : Nat) (x new : α) (here : xs[index]? = some x)
    (same : f new = f x) : (xs.set index new).map f = xs.map f := by
  obtain ⟨short, rfl⟩ := List.getElem?_eq_some_iff.mp here
  rw [List.map_set, same, ← List.getElem_map f (h := by simpa using short), List.set_getElem_self]

theorem mem_set_distinct (f : α → κ) (xs : List α) (index : Nat) (x new y : α) (distinct : (xs.map f).Nodup)
    (here : xs[index]? = some x) (member : y ∈ xs.set index new) : y = new ∨ y ∈ xs ∧ f y ≠ f x := by
  obtain ⟨other, found⟩ := List.mem_iff_getElem?.mp member
  by_cases same : index = other
  · subst same
    rw [List.getElem?_set_self (List.getElem?_eq_some_iff.mp here).1, Option.some.injEq] at found
    exact .inl found.symm
  · rw [List.getElem?_set_ne same] at found
    refine .inr ⟨List.mem_of_getElem? found, fun equal => same ?_⟩
    have short : index < (xs.map f).length := by simpa using (List.getElem?_eq_some_iff.mp here).1
    refine (List.getElem?_inj short distinct).mp ?_
    rw [List.getElem?_map, List.getElem?_map, here, found, Option.map_some, Option.map_some, equal]

theorem mem_set_other (xs : List α) (index : Nat) (x new y : α) (here : xs[index]? = some x) (member : y ∈ xs)
    (other : y ≠ x) : y ∈ xs.set index new := by
  obtain ⟨at_, found⟩ := List.mem_iff_getElem?.mp member
  refine List.mem_iff_getElem?.mpr ⟨at_, ?_⟩
  rw [List.getElem?_set_ne, found]
  rintro rfl
  exact other (Option.some.inj (found.symm.trans here))

theorem get_concat (xs : List α) (x y : α) (index : Nat) (found : (xs ++ [x])[index]? = some y) :
    xs[index]? = some y ∨ index = xs.length ∧ y = x := by
  by_cases old : index < xs.length
  · rw [List.getElem?_append_left old] at found
    exact .inl found
  · obtain ⟨inside, same⟩ := List.getElem?_eq_some_iff.mp found
    obtain rfl : index = xs.length := by
      simp only [List.length_append, List.length_singleton] at inside
      omega
    rw [List.getElem?_concat_length, Option.some.injEq] at found
    exact .inr ⟨rfl, found.symm⟩

theorem get_of_concat (xs : List α) (x y : α) (index : Nat) (found : xs[index]? = some y) :
    (xs ++ [x])[index]? = some y := by
  rw [List.getElem?_append_left (List.getElem?_eq_some_iff.mp found).1, found]

theorem forall_erase_idx {β : Type} (R : α → β → Prop) (xs : List α) (ys : List β) (index : Nat) (all : List.Forall₂ R xs ys) :
    List.Forall₂ R (xs.eraseIdx index) (ys.eraseIdx index) := by
  induction all generalizing index with
  | nil => exact .nil
  | cons first rest ih =>
      cases index with
      | zero => exact rest
      | succ index => exact .cons first (ih index)

theorem sum_set_indexed (w : Nat → α → Nat) (xs : List α) (index : Nat) (x new : α) (here : xs[index]? = some x) :
    ((xs.set index new).mapIdx w).sum + w index x = (xs.mapIdx w).sum + w index new := by
  induction xs generalizing index w with
  | nil => simp at here
  | cons y rest ih =>
      cases index with
      | zero =>
          rw [List.getElem?_cons_zero, Option.some.injEq] at here
          subst here
          simp only [List.set_cons_zero, List.mapIdx_cons, List.sum_cons]
          omega
      | succ index =>
          have later := ih (fun i => w (i + 1)) index (by simpa using here)
          simp only [List.set_cons_succ, List.mapIdx_cons, List.sum_cons]
          omega

theorem map_as_indexed (f : α → κ) (xs : List α) : xs.map f = xs.mapIdx (fun _ x => f x) := by
  induction xs with
  | nil => rfl
  | cons x rest ih => rw [List.map_cons, List.mapIdx_cons, ih]

theorem sum_set (w : α → Nat) (xs : List α) (index : Nat) (x new : α) (here : xs[index]? = some x) :
    ((xs.set index new).map w).sum + w x = (xs.map w).sum + w new := by
  rw [map_as_indexed, map_as_indexed]
  exact sum_set_indexed (fun _ => w) xs index x new here

theorem count_as_sum (p : α → Bool) (xs : List α) : xs.countP p = (xs.map (fun x => if p x then 1 else 0)).sum := by
  induction xs with
  | nil => rfl
  | cons x rest ih => rw [List.countP_cons, List.map_cons, List.sum_cons, ih, Nat.add_comm]

theorem count_set (p : α → Bool) (xs : List α) (index : Nat) (x new : α) (here : xs[index]? = some x) :
    (xs.set index new).countP p + (if p x then 1 else 0) = xs.countP p + (if p new then 1 else 0) := by
  rw [count_as_sum, count_as_sum]
  exact sum_set (fun x => if p x then 1 else 0) xs index x new here

theorem sum_update [DecidableEq α] (f : α → Nat) (x : α) (n : Nat) (xs : List α) (distinct : xs.Nodup) :
    (xs.map (Function.update f x n)).sum + (if x ∈ xs then f x else 0) = (xs.map f).sum + (if x ∈ xs then n else 0) := by
  induction xs with
  | nil => rfl
  | cons y rest ih =>
      obtain ⟨outside, others⟩ := List.nodup_cons.mp distinct
      have later := ih others
      simp only [List.map_cons, List.sum_cons, List.mem_cons]
      by_cases here : x = y
      · subst here
        simp only [outside, if_false, true_or, if_true, Function.update_self] at later ⊢
        omega
      · simp only [here, false_or, Function.update_of_ne (Ne.symm here)]
        omega

theorem count_set_same (p : α → Bool) (xs : List α) (index : Nat) (x new : α) (here : xs[index]? = some x)
    (same : p new = p x) : (xs.set index new).countP p = xs.countP p := by
  have counted := count_set p xs index x new here
  rw [same] at counted
  omega

-- The iterator of `grouped`: pieces of n elements, the last one possibly shorter.
-- The fuel is the length of the list, since every piece takes at least one element.
def groupedFrom (n : Nat) : Nat → List α → List (List α)
  | 0, _ => []
  | _ + 1, [] => []
  | fuel + 1, x :: xs => (x :: xs).take n :: groupedFrom n fuel ((x :: xs).drop n)

def grouped (n : Nat) (xs : List α) : List (List α) := groupedFrom n xs.length xs

@[simp] theorem grouped_nil (n : Nat) : grouped n ([] : List α) = [] := rfl

theorem grouped_from_flatten (n fuel : Nat) (xs : List α) (positive : 0 < n) (enough : xs.length ≤ fuel) :
    (groupedFrom n fuel xs).flatten = xs := by
  induction fuel generalizing xs with
  | zero =>
      have empty : xs = [] := List.eq_nil_of_length_eq_zero (by omega)
      simp [groupedFrom, empty]
  | succ fuel ih =>
      cases xs with
      | nil => rfl
      | cons x tail =>
          have shorter : ((x :: tail).drop n).length ≤ fuel := by
            simp only [List.length_drop, List.length_cons] at enough ⊢
            omega
          rw [groupedFrom, List.flatten_cons, ih _ shorter, List.take_append_drop]

theorem grouped_flatten (n : Nat) (xs : List α) (positive : 0 < n) : (grouped n xs).flatten = xs :=
  grouped_from_flatten n xs.length xs positive (Nat.le_refl _)

theorem grouped_from_bounds (n fuel : Nat) (xs piece : List α) (positive : 0 < n)
    (member : piece ∈ groupedFrom n fuel xs) : 0 < piece.length ∧ piece.length ≤ n := by
  induction fuel generalizing xs with
  | zero => simp [groupedFrom] at member
  | succ fuel ih =>
      cases xs with
      | nil => simp [groupedFrom] at member
      | cons x tail =>
          rw [groupedFrom, List.mem_cons] at member
          rcases member with rfl | later
          · simp only [List.length_take, List.length_cons]
            omega
          · exact ih _ later

theorem grouped_bounds (n : Nat) (xs piece : List α) (positive : 0 < n) (member : piece ∈ grouped n xs) :
    0 < piece.length ∧ piece.length ≤ n :=
  grouped_from_bounds n xs.length xs piece positive member

theorem grouped_eq_nil (n : Nat) (xs : List α) (positive : 0 < n) : grouped n xs = [] ↔ xs = [] := by
  constructor
  · intro none
    simpa [none] using (grouped_flatten n xs positive).symm
  · rintro rfl
    rfl

theorem grouped_pieces_flatten (n : Nat) (pieces : List (List α)) (positive : 0 < n) :
    (pieces.flatMap (grouped n)).flatten = pieces.flatten := by
  induction pieces with
  | nil => rfl
  | cons piece rest ih =>
      rw [List.flatMap_cons, List.flatten_append, grouped_flatten n piece positive, List.flatten_cons, ih]

theorem grouped_pieces_bounds (n : Nat) (pieces : List (List α)) (chunk : List α) (positive : 0 < n)
    (member : chunk ∈ pieces.flatMap (grouped n)) : 0 < chunk.length ∧ chunk.length ≤ n := by
  obtain ⟨piece, _, inPiece⟩ := List.mem_flatMap.mp member
  exact grouped_bounds n piece chunk positive inPiece

-- Any merge of the sources that keeps the order of each of them.
inductive Interleaving : List (List α) → List α → Prop where
  | done (sources : List (List α)) (exhausted : ∀ source ∈ sources, source = []) : Interleaving sources []
  | next (sources : List (List α)) (index : Nat) (x : α) (rest merged : List α)
      (chosen : sources[index]? = some (x :: rest)) (later : Interleaving (sources.set index rest) merged) :
      Interleaving sources (x :: merged)

theorem interleaving_tagged_set (sources : List (List α)) (key : α → κ) (name : Nat → κ) (index : Nat)
    (x : α) (rest : List α) (chosen : sources[index]? = some (x :: rest))
    (tagged : ∀ i source, sources[i]? = some source → ∀ y ∈ source, key y = name i) :
    ∀ i source, (sources.set index rest)[i]? = some source → ∀ y ∈ source, key y = name i := by
  intro i source found y member
  rw [List.getElem?_set] at found
  by_cases same : index = i
  · subst same
    have short : index < sources.length := (List.getElem?_eq_some_iff.mp chosen).1
    simp only [if_true, short, Option.some.injEq] at found
    subst found
    exact tagged index _ chosen y (by simp [member])
  · exact tagged i source (by simpa [same] using found) y member

-- Demultiplexing: what carries the name of a source is that source, whatever the merge order.
theorem interleaving_filter [DecidableEq κ] (sources : List (List α)) (merged : List α) (key : α → κ)
    (name : Nat → κ) (merge : Interleaving sources merged)
    (tagged : ∀ i source, sources[i]? = some source → ∀ y ∈ source, key y = name i)
    (distinct : ∀ i j, i < sources.length → j < sources.length → name i = name j → i = j)
    (i : Nat) (source : List α) (found : sources[i]? = some source) :
    merged.filter (fun y => key y = name i) = source := by
  induction merge generalizing source with
  | done sources exhausted => simp [exhausted source (List.mem_of_getElem? found)]
  | next sources index x rest merged chosen later ih =>
      have keyed : key x = name index := tagged index _ chosen x (by simp)
      have indexShort : index < sources.length := (List.getElem?_eq_some_iff.mp chosen).1
      have remaining := ih (interleaving_tagged_set sources key name index x rest chosen tagged)
        (by simpa using distinct)
      by_cases same : index = i
      · subst same
        have whole : source = x :: rest := Option.some.inj (found.symm.trans chosen)
        rw [List.filter_cons_of_pos (by simp [keyed]), whole, remaining rest (by simp [indexShort])]
      · have short : i < sources.length := (List.getElem?_eq_some_iff.mp found).1
        have different : name index ≠ name i := fun eq => same (distinct index i indexShort short eq)
        rw [List.filter_cons_of_neg (by simp [keyed, different])]
        exact remaining source (by simpa [same] using found)

theorem interleaving_member (sources : List (List α)) (merged : List α) (merge : Interleaving sources merged)
    (x : α) (member : x ∈ merged) : ∃ source ∈ sources, x ∈ source := by
  induction merge with
  | done sources exhausted => simp at member
  | next sources index y rest merged chosen later ih =>
      have sourceMember := List.mem_of_getElem? chosen
      rcases List.mem_cons.mp member with rfl | inRest
      · exact ⟨_, sourceMember, by simp⟩
      · obtain ⟨source, fromSet, inSource⟩ := ih inRest
        rcases List.mem_or_eq_of_mem_set fromSet with old | rfl
        · exact ⟨source, old, inSource⟩
        · exact ⟨_, sourceMember, by simp [inSource]⟩

theorem filter_distinct_key [DecidableEq κ] (key : α → κ) (xs : List α) (x : α)
    (distinct : (xs.map key).Nodup) (member : x ∈ xs) : xs.filter (fun y => key y = key x) = [x] := by
  induction xs with
  | nil => simp at member
  | cons y rest ih =>
      obtain ⟨fresh, later⟩ := List.nodup_cons.mp distinct
      rcases List.mem_cons.mp member with rfl | inRest
      · have noOther : rest.filter (fun z => key z = key x) = [] := by
          rw [List.filter_eq_nil_iff]
          intro z inRest same
          exact fresh (List.mem_map.mpr ⟨z, inRest, of_decide_eq_true same⟩)
        simp [noOther]
      · have different : key y ≠ key x := fun same => fresh (List.mem_map.mpr ⟨x, inRest, same.symm⟩)
        rw [List.filter_cons_of_neg (by simp [different]), ih later inRest]

theorem perm_of_same_groups [DecidableEq κ] (key : α → κ) (xs ys : List α)
    (same : ∀ k, xs.filter (fun x => key x = k) = ys.filter (fun y => key y = k)) : xs.Perm ys := by
  classical
  rw [List.perm_iff_count]
  intro x
  have inGroup : ∀ zs : List α, zs.count x = (zs.filter (fun z => key z = key x)).count x :=
    fun zs => (List.count_filter (by simp)).symm
  rw [inGroup xs, inGroup ys, same (key x)]

end Toolbox8.Base
