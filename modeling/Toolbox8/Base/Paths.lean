import Mathlib.Data.List.Basic

set_option autoImplicit false

namespace Toolbox8.Base

-- The names of a path. Slashes that follow each other are one, as java.io.File has it.
def pathNames (path : List Char) : List (List Char) := (path.splitOn '/').filter (fun name => decide (name ≠ []))

-- The folders of a path and the name that follows the last slash, which may be empty.
def folders (path : List Char) : List (List Char) := (path.splitOn '/').dropLast.filter (fun name => decide (name ≠ []))

def lastPart (path : List Char) : List Char := (path.splitOn '/').getLastD []

theorem split_extension (path extension : List Char) (plain : '/' ∉ extension) :
    (path ++ extension).splitOn '/' = (path.splitOn '/').dropLast ++ [lastPart path ++ extension] := by
  induction path with
  | nil => simpa [lastPart] using List.splitOn_eq_singleton plain
  | cons c rest ih =>
      rw [List.cons_append, List.splitOn_cons_eq_if_modifyHead, ih]
      simp only [lastPart, List.splitOn_cons_eq_if_modifyHead c rest]
      cases pieces : rest.splitOn '/' with
      | nil => exact absurd pieces (List.splitOn_ne_nil _ _)
      | cons first others =>
          by_cases slash : c = '/'
          · simp [slash]
          · cases others with
            | nil => simp [slash]
            | cons second more => simp [slash]

theorem names_extension (path extension : List Char) (plain : '/' ∉ extension) (nonempty : extension ≠ []) :
    pathNames (path ++ extension) = folders path ++ [lastPart path ++ extension] := by
  rw [pathNames, split_extension path extension plain, List.filter_append, folders]
  simp [nonempty]

theorem names_extension_iff (path other extension : List Char) (plain : '/' ∉ extension) (nonempty : extension ≠ []) :
    pathNames (path ++ extension) = pathNames (other ++ extension) ↔
      folders path = folders other ∧ lastPart path = lastPart other := by
  rw [names_extension path extension plain nonempty, names_extension other extension plain nonempty]
  constructor
  · intro same
    obtain ⟨front, last⟩ := List.append_inj' same rfl
    exact ⟨front, List.append_cancel_right (List.cons.inj last).1⟩
  · rintro ⟨front, last⟩
    rw [front, last]

theorem parts_joined (names : List (List Char)) (some_name : names ≠ []) (proper : ∀ name ∈ names, name ≠ [] ∧ '/' ∉ name) :
    folders (['/'].intercalate names) = names.dropLast ∧ lastPart (['/'].intercalate names) = names.getLastD [] := by
  have split := List.splitOn_intercalate '/' (fun name member => (proper name member).2) some_name
  rw [folders, lastPart, split]
  refine ⟨?_, rfl⟩
  apply List.filter_eq_self.mpr
  intro name member
  simpa using (proper name (List.dropLast_subset _ member)).1

end Toolbox8.Base
