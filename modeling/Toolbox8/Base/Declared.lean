import Mathlib.Data.List.Forall2
import Toolbox8.Base.Written

set_option autoImplicit false

namespace Toolbox8.Base

section Lines

variable {mark : String} {α : Type}

def Line.starts (start : String) (line : Line mark) : Bool := start.toList.isPrefixOf line.text.string.toList

theorem starts_text (start rest : String) (level : Nat) (t : Text mark) (same : t.string = start ++ rest) :
    (⟨level, t⟩ : Line mark).starts start = true := by
  rw [Line.starts, same, String.toList_append, List.isPrefixOf_iff_prefix]
  exact List.prefix_append _ _

theorem not_starts (start : String) (c : Char) (leads : start.toList.head? = some c) (line : Line mark)
    (other : line.text.string.toList.head? ≠ some c) : line.starts start = false := by
  rw [Line.starts]
  cases first : start.toList with
  | nil => simp [first] at leads
  | cons d rest =>
      rw [first] at leads
      cases text : line.text.string.toList with
      | nil => rfl
      | cons e more =>
          rw [text] at other
          have apart : d ≠ e := by
            rintro rfl
            exact other leads
          rw [Bool.eq_false_iff, ne_eq, List.isPrefixOf_iff_prefix, List.cons_prefix_cons]
          exact fun both => apart both.1

theorem head_append (s t : String) (c : Char) (leads : s.toList.head? = some c) : (s ++ t).toList.head? = some c := by
  rw [String.toList_append, List.head?_append, leads, Option.some_or]

theorem append_filter (v w : Written mark α) (p : Line mark → Bool) :
    (v ++ w).lines.filter p = v.lines.filter p ++ w.lines.filter p := by
  rw [written_append_lines, List.filter_append]

theorem write_filter_neg (level : Nat) (t : Text mark) (p : Line mark → Bool) (other : p ⟨level, t⟩ = false) :
    (write mark level t : Written mark α).lines.filter p = [] := by
  simp [write, other]

theorem write_filter_pos (level : Nat) (t : Text mark) (p : Line mark → Bool) (kept : p ⟨level, t⟩ = true) :
    (write mark level t : Written mark α).lines.filter p = [⟨level, t⟩] := by
  simp [write, kept]

-- A selection that takes no line without one of the letters at its start.
def Leads (letters : List Char) (p : Line mark → Bool) : Prop :=
  ∀ line, (∀ c ∈ letters, line.text.string.toList.head? ≠ some c) → p line = false

theorem leads_write (letters : List Char) (p : Line mark → Bool) (leads : Leads letters p) (level : Nat) (t : Text mark)
    (other : ∀ c ∈ letters, t.string.toList.head? ≠ some c) : (write mark level t : Written mark α).lines.filter p = [] :=
  write_filter_neg level t p (leads ⟨level, t⟩ other)

theorem head_apart (letters : List Char) (s : String) (c : Char) (first : s.toList.head? = some c) (apart : c ∉ letters) :
    ∀ d ∈ letters, s.toList.head? ≠ some d := by
  intro d member same
  rw [first] at same
  rw [Option.some.inj same] at apart
  exact apart member

-- A loop whose iterations write one line each of those that p selects.
theorem one_line_each {β : Type} (p : Line mark → Bool) (related : Line mark → β → Prop)
    (body : β → Except Stop (Written mark α)) (bs : List β) (w : Written mark α) (done : writeEach body bs = .ok w)
    (each : ∀ b ∈ bs, ∀ v, body b = .ok v → ∃ line, v.lines.filter p = [line] ∧ related line b) :
    List.Forall₂ related (w.lines.filter p) bs := by
  obtain ⟨ws, finished, rfl⟩ := (map_ok _ _ _).mp done
  clear done
  induction bs generalizing ws with
  | nil =>
      rw [← Except.ok.inj finished]
      exact .nil
  | cons b rest ih =>
      obtain ⟨first, later, here, there, rfl⟩ := (map_m_cons_ok body b rest ws).mp finished
      obtain ⟨line, single, holds⟩ := each b List.mem_cons_self first here
      rw [concat_cons, append_filter, single]
      exact .cons holds (ih (fun c member => each c (List.mem_cons_of_mem _ member)) later there)

theorem levels_each {β : Type} (holds : Line mark → Prop) (body : β → Except Stop (Written mark α)) (bs : List β)
    (w : Written mark α) (done : writeEach body bs = .ok w)
    (each : ∀ b ∈ bs, ∀ v, body b = .ok v → ∀ line ∈ v.lines, holds line) : ∀ line ∈ w.lines, holds line := by
  obtain ⟨ws, finished, rfl⟩ := (map_ok _ _ _).mp done
  intro line member
  obtain ⟨v, written, listed⟩ := List.mem_flatMap.mp member
  obtain ⟨b, mapped, here⟩ := List.mem_map.mp ((map_m_mem body bs ws finished v).mp written)
  exact each b mapped v here line listed

end Lines

end Toolbox8.Base
