import Toolbox8.Base.Strings

set_option autoImplicit false

namespace Toolbox8.DBus

open Base

-- Option[DBPackage] with the parent of each package.
inductive DBPackage where
  | none
  | some (name : String) (parent : DBPackage)
deriving DecidableEq, Repr

def DBPackage.fromReverseSegments : List String → DBPackage
  | [] => .none
  | head :: tail => .some head (fromReverseSegments tail)

structure DBInterfaceName where
  pkg : DBPackage
  name : String
deriving DecidableEq, Repr

-- A name of dots only has no segments; head and tail throw.
def DBInterfaceName.fromName (name : String) : Option DBInterfaceName :=
  match (split '.' name).reverse with
  | [] => none
  | head :: tail => some ⟨DBPackage.fromReverseSegments tail, head⟩

-- Segments between dots, none of them empty.
def WellNamed (name : String) : Prop := ∀ segment ∈ name.toList.splitOn '.', segment ≠ []

theorem from_reverse_segments_injective (a b : List String)
    (same : DBPackage.fromReverseSegments a = DBPackage.fromReverseSegments b) : a = b := by
  induction a generalizing b with
  | nil =>
      cases b with
      | nil => rfl
      | cons _ _ => simp [DBPackage.fromReverseSegments] at same
  | cons head tail ih =>
      cases b with
      | nil => simp [DBPackage.fromReverseSegments] at same
      | cons other rest =>
          simp only [DBPackage.fromReverseSegments, DBPackage.some.injEq] at same
          rw [same.1, ih rest same.2]

theorem of_list_injective (a b : List Char) (same : String.ofList a = String.ofList b) : a = b := by
  have lists := congrArg String.toList same
  rwa [String.toList_ofList, String.toList_ofList] at lists

theorem split_well_named (name : String) (well : WellNamed name) :
    split '.' name = (name.toList.splitOn '.').map String.ofList := by
  by_cases dotted : '.' ∈ name.toList
  · rw [split, if_pos dotted]
    have kept : ((name.toList.splitOn '.').map String.ofList).reverse.dropWhile (fun piece => piece = "") =
        ((name.toList.splitOn '.').map String.ofList).reverse := by
      cases reversed : ((name.toList.splitOn '.').map String.ofList).reverse with
      | nil => rfl
      | cons last rest =>
          have member : last ∈ (name.toList.splitOn '.').map String.ofList := by
            rw [← List.mem_reverse, reversed]
            exact List.mem_cons_self
          obtain ⟨segment, found, rfl⟩ := List.mem_map.mp member
          have nonempty : String.ofList segment ≠ "" := by
            intro empty
            exact well segment found (of_list_injective segment [] empty)
          rw [List.dropWhile_cons_of_neg (by simpa using nonempty)]
    rw [kept, List.reverse_reverse]
  · rw [split, if_neg dotted, List.splitOn_eq_singleton dotted, List.map_singleton, String.ofList_toList]

theorem from_name_well_named (name : String) (well : WellNamed name) : ∃ key, DBInterfaceName.fromName name = some key := by
  rw [DBInterfaceName.fromName, split_well_named name well]
  cases reversed : ((name.toList.splitOn '.').map String.ofList).reverse with
  | nil =>
      have none := List.map_eq_nil_iff.mp (List.reverse_eq_nil_iff.mp reversed)
      exact absurd none (List.splitOn_ne_nil '.' name.toList)
  | cons head tail => exact ⟨_, rfl⟩

theorem from_name_injective (a b : String) (wellA : WellNamed a) (wellB : WellNamed b)
    (same : DBInterfaceName.fromName a = DBInterfaceName.fromName b) : a = b := by
  have reversed : (split '.' a).reverse = (split '.' b).reverse := by
    cases first : (split '.' a).reverse with
    | nil =>
        cases second : (split '.' b).reverse with
        | nil => rfl
        | cons head tail => simp [DBInterfaceName.fromName, first, second] at same
    | cons head tail =>
        cases second : (split '.' b).reverse with
        | nil => simp [DBInterfaceName.fromName, first, second] at same
        | cons other rest =>
            simp only [DBInterfaceName.fromName, first, second, Option.some.injEq, DBInterfaceName.mk.injEq] at same
            rw [same.2, from_reverse_segments_injective tail rest same.1]
  have pieces := List.reverse_injective reversed
  rw [split_well_named a wellA, split_well_named b wellB] at pieces
  have split : a.toList.splitOn '.' = b.toList.splitOn '.' := by
    apply List.map_injective_iff.mpr _ pieces
    exact fun x y => of_list_injective x y
  have lists := congrArg (['.'].intercalate) split
  rw [List.intercalate_splitOn, List.intercalate_splitOn] at lists
  exact String.toList_inj.mp lists

-- The name of a child object as run builds it.
def subNodeName (objectName nodeName : String) : String :=
  if objectName = "/" then "/" ++ nodeName else objectName ++ "/" ++ nodeName

def pathOf (names : List String) : String :=
  if names = [] then "/" else String.ofList (names.flatMap (fun name => '/' :: name.toList))

def namesOf (path : String) : List String :=
  ((path.toList.splitOn '/').filter (fun piece => piece ≠ [])).map String.ofList

def NodeName (name : String) : Prop := name ≠ "" ∧ '/' ∉ name.toList

theorem split_path (name : String) (rest : List String) (valid : NodeName name) (others : ∀ n ∈ rest, NodeName n) :
    (name.toList ++ rest.flatMap (fun name => '/' :: name.toList)).splitOn '/' = (name :: rest).map String.toList := by
  induction rest generalizing name with
  | nil =>
      rw [List.flatMap_nil, List.append_nil, List.splitOn_eq_singleton valid.2]
      rfl
  | cons next rest ih =>
      have later := ih next (others next List.mem_cons_self) (fun n member => others n (List.mem_cons_of_mem _ member))
      rw [List.flatMap_cons, List.cons_append, List.splitOn_append_cons_self_of_not_mem valid.2, later]
      rfl

theorem names_of_path_of (names : List String) (valid : ∀ n ∈ names, NodeName n) : namesOf (pathOf names) = names := by
  cases names with
  | nil => decide
  | cons name rest =>
      have others : ∀ n ∈ rest, NodeName n := fun n member => valid n (List.mem_cons_of_mem _ member)
      have pieces := split_path name rest (valid name List.mem_cons_self) others
      rw [namesOf, pathOf, if_neg (List.cons_ne_nil name rest), String.toList_ofList, List.flatMap_cons, List.cons_append,
        ← List.nil_append ('/' :: _), List.splitOn_append_cons_self_of_not_mem List.not_mem_nil, pieces]
      have kept : ((name :: rest).map String.toList).filter (fun piece => piece ≠ []) = (name :: rest).map String.toList := by
        rw [List.filter_eq_self]
        intro piece member
        obtain ⟨n, found, rfl⟩ := List.mem_map.mp member
        simpa using (valid n found).1
      rw [List.filter_cons_of_neg (by simp), kept, List.map_map]
      exact List.map_id'' (fun n => String.ofList_toList) _

theorem path_of_injective (a b : List String) (validA : ∀ n ∈ a, NodeName n) (validB : ∀ n ∈ b, NodeName n)
    (same : pathOf a = pathOf b) : a = b := by
  rw [← names_of_path_of a validA, same, names_of_path_of b validB]

theorem sub_node_name_path (names : List String) (name : String) (valid : ∀ n ∈ names, NodeName n) :
    subNodeName (pathOf names) name = pathOf (names ++ [name]) := by
  apply String.toList_inj.mp
  cases names with
  | nil => simp [subNodeName, pathOf]
  | cons first rest =>
      have deeper : pathOf (first :: rest) ≠ "/" := by
        intro same
        have root := path_of_injective (first :: rest) [] valid (by simp) same
        simp at root
      rw [subNodeName, if_neg deeper]
      simp [pathOf, String.toList_append]

end Toolbox8.DBus
