import Toolbox8.Base.Strings
import Toolbox8.Base.Visits

set_option autoImplicit false

namespace Toolbox8.Base

-- What is written, with the names of the definitions that it refers to. A reference is the name with the mark before it.
structure Text (mark : String) where
  string : String
  refs : List String
  occur : ∀ r ∈ refs, (mark ++ r).toList <:+: string.toList
deriving DecidableEq, Repr

structure Line (mark : String) where
  level : Nat
  text : Text mark
deriving DecidableEq, Repr

-- The lines of a writer, and what it reports of the things that it has written of.
structure Written (mark : String) (α : Type) where
  lines : List (Line mark)
  reports : List α
deriving DecidableEq, Repr

section Texts

variable {mark : String}

def Text.plain (s : String) : Text mark := ⟨s, [], fun _ member => absurd member List.not_mem_nil⟩

instance : Coe String (Text mark) := ⟨Text.plain⟩

theorem append_occur (s t : Text mark) : ∀ r ∈ s.refs ++ t.refs, (mark ++ r).toList <:+: (s.string ++ t.string).toList := by
  intro r member
  rw [String.toList_append (s := s.string)]
  rcases List.mem_append.mp member with first | second
  · exact (s.occur r first).trans (List.prefix_append _ _).isInfix
  · exact (t.occur r second).trans (List.suffix_append _ _).isInfix

def Text.append (s t : Text mark) : Text mark := ⟨s.string ++ t.string, s.refs ++ t.refs, append_occur s t⟩

instance : Append (Text mark) := ⟨Text.append⟩

theorem reference_occur (name : Text mark) :
    ∀ r ∈ name.string :: name.refs, (mark ++ r).toList <:+: (mark ++ name.string).toList := by
  intro r member
  rcases List.mem_cons.mp member with rfl | inside
  · exact List.infix_rfl
  · rw [String.toList_append (t := name.string)]
    exact (name.occur r inside).trans (List.suffix_append _ _).isInfix

def Text.reference (name : Text mark) : Text mark := ⟨mark ++ name.string, name.string :: name.refs, reference_occur name⟩

def Text.following (separator : String) : List (Text mark) → Text mark
  | [] => ""
  | t :: rest => separator ++ t ++ Text.following separator rest

def Text.mkString (separator : String) : List (Text mark) → Text mark
  | [] => ""
  | t :: rest => t ++ Text.following separator rest

theorem merged_occur (s t : Text mark) (same : t.string = s.string) :
    ∀ r ∈ t.refs ++ s.refs, (mark ++ r).toList <:+: s.string.toList := by
  intro r member
  rcases List.mem_append.mp member with first | second
  · rw [← same]
    exact t.occur r first
  · exact s.occur r second

-- A text joins one of the same string, whose references are then those of both.
def insertText (t : Text mark) : List (Text mark) → List (Text mark)
  | [] => [t]
  | s :: rest =>
      if same : t.string = s.string then ⟨s.string, t.refs ++ s.refs, merged_occur s t same⟩ :: rest
      else s :: insertText t rest

def distinctTexts (ts : List (Text mark)) : List (Text mark) := ts.foldr insertText []

@[simp] theorem plain_refs (s : String) : (Text.plain s : Text mark).refs = [] := rfl

@[simp] theorem append_string (s t : Text mark) : (s ++ t).string = s.string ++ t.string := rfl

@[simp] theorem plain_string (s : String) : (Text.plain s : Text mark).string = s := rfl

@[simp] theorem append_refs (s t : Text mark) : (s ++ t).refs = s.refs ++ t.refs := rfl

theorem following_refs (separator : String) (ts : List (Text mark)) :
    (Text.following separator ts).refs = ts.flatMap Text.refs := by
  induction ts with
  | nil => rfl
  | cons t rest ih => simp [Text.following, ih]

@[simp] theorem mk_string_refs (separator : String) (ts : List (Text mark)) :
    (Text.mkString separator ts).refs = ts.flatMap Text.refs := by
  cases ts with
  | nil => rfl
  | cons t rest => simp [Text.mkString, following_refs]

theorem following_congr (separator : String) (ts us : List (Text mark)) (same : ts.map Text.string = us.map Text.string) :
    (Text.following separator ts).string = (Text.following separator us).string := by
  induction ts generalizing us with
  | nil =>
      cases us with
      | nil => rfl
      | cons u others => simp at same
  | cons t rest ih =>
      cases us with
      | nil => simp at same
      | cons u others =>
          obtain ⟨first, later⟩ := List.cons.inj same
          simp [Text.following, first, ih others later]

theorem mk_string_congr (separator : String) (ts us : List (Text mark)) (same : ts.map Text.string = us.map Text.string) :
    (Text.mkString separator ts).string = (Text.mkString separator us).string := by
  cases ts with
  | nil =>
      cases us with
      | nil => rfl
      | cons u others => simp at same
  | cons t rest =>
      cases us with
      | nil => simp at same
      | cons u others =>
          obtain ⟨first, later⟩ := List.cons.inj same
          simp [Text.mkString, first, following_congr separator rest others later]

theorem insert_text_refs (t : Text mark) (ts : List (Text mark)) (r : String) :
    r ∈ (insertText t ts).flatMap Text.refs ↔ r ∈ t.refs ∨ r ∈ ts.flatMap Text.refs := by
  induction ts with
  | nil => simp [insertText]
  | cons s rest ih =>
      rw [insertText]
      split
      · simp
      · rw [List.flatMap_cons, List.mem_append, ih, List.flatMap_cons, List.mem_append]
        exact or_left_comm

theorem distinct_texts_refs (ts : List (Text mark)) (r : String) :
    r ∈ (distinctTexts ts).flatMap Text.refs ↔ r ∈ ts.flatMap Text.refs := by
  induction ts with
  | nil => exact Iff.rfl
  | cons t rest ih =>
      rw [distinctTexts, List.foldr_cons, insert_text_refs, ← distinctTexts, ih, List.flatMap_cons, List.mem_append]

theorem insert_text_ne_nil (t : Text mark) (ts : List (Text mark)) : insertText t ts ≠ [] := by
  cases ts with
  | nil => simp [insertText]
  | cons s rest =>
      rw [insertText]
      split
      · simp
      · simp

theorem insert_text_strings (t : Text mark) (ts : List (Text mark)) :
    (insertText t ts).map Text.string =
      if t.string ∈ ts.map Text.string then ts.map Text.string else ts.map Text.string ++ [t.string] := by
  induction ts with
  | nil => rfl
  | cons s rest ih =>
      rw [insertText]
      by_cases same : t.string = s.string
      · simp [same]
      · rw [dif_neg same, List.map_cons, ih, List.map_cons]
        by_cases listed : t.string ∈ rest.map Text.string
        · rw [if_pos listed, if_pos (List.mem_cons_of_mem _ listed)]
        · rw [if_neg listed, if_neg (List.not_mem_cons_of_ne_of_not_mem same listed), List.cons_append]

theorem distinct_texts_mem (ts : List (Text mark)) (s : String) :
    s ∈ (distinctTexts ts).map Text.string ↔ s ∈ ts.map Text.string := by
  induction ts with
  | nil => exact Iff.rfl
  | cons t rest ih =>
      rw [distinctTexts, List.foldr_cons, insert_text_strings, ← distinctTexts, List.map_cons, List.mem_cons, ← ih]
      split
      · rename_i listed
        constructor
        · exact Or.inr
        · rintro (rfl | member)
          · exact listed
          · exact member
      · rw [List.mem_append, List.mem_singleton, or_comm]

theorem distinct_texts_nodup (ts : List (Text mark)) : ((distinctTexts ts).map Text.string).Nodup := by
  induction ts with
  | nil => exact List.nodup_nil
  | cons t rest ih =>
      rw [distinctTexts, List.foldr_cons, insert_text_strings, ← distinctTexts]
      split
      · exact ih
      · rename_i fresh
        apply ih.append (List.nodup_singleton _)
        intro s member single
        rw [List.mem_singleton.mp single] at member
        exact fresh member

theorem insert_text_source (t : Text mark) (ts : List (Text mark)) (text : Text mark) (member : text ∈ insertText t ts) :
    ∃ s ∈ t :: ts, s.string = text.string ∧ s.refs ⊆ text.refs := by
  induction ts with
  | nil => exact ⟨text, member, rfl, List.Subset.refl _⟩
  | cons s rest ih =>
      rw [insertText] at member
      split at member
      · rcases List.mem_cons.mp member with rfl | later
        · exact ⟨s, by simp, rfl, List.subset_append_right _ _⟩
        · exact ⟨text, by simp [later], rfl, List.Subset.refl _⟩
      · rcases List.mem_cons.mp member with rfl | later
        · exact ⟨text, by simp, rfl, List.Subset.refl _⟩
        · obtain ⟨source, listed, same, refs⟩ := ih later
          refine ⟨source, ?_, same, refs⟩
          rcases List.mem_cons.mp listed with rfl | inside
          · exact List.mem_cons_self
          · exact List.mem_cons_of_mem _ (List.mem_cons_of_mem _ inside)

theorem distinct_texts_source (ts : List (Text mark)) (text : Text mark) (member : text ∈ distinctTexts ts) :
    ∃ s ∈ ts, s.string = text.string ∧ s.refs ⊆ text.refs := by
  induction ts generalizing text with
  | nil => exact absurd member List.not_mem_nil
  | cons t rest ih =>
      obtain ⟨kept, listed, same, refs⟩ := insert_text_source t (distinctTexts rest) text member
      rcases List.mem_cons.mp listed with rfl | inside
      · exact ⟨kept, List.mem_cons_self, same, refs⟩
      · obtain ⟨source, here, string, part⟩ := ih kept inside
        exact ⟨source, List.mem_cons_of_mem _ here, string.trans same, List.Subset.trans part refs⟩

theorem distinct_texts_ne_nil (ts : List (Text mark)) (some_text : ts ≠ []) : distinctTexts ts ≠ [] := by
  cases ts with
  | nil => exact absurd rfl some_text
  | cons t rest => exact insert_text_ne_nil t _

-- s is a part of the text.
def Text.Shows (t : Text mark) (s : String) : Prop := s.toList <:+: t.string.toList

theorem text_shows_self (t : Text mark) : t.Shows t.string := List.infix_rfl

theorem text_shows_append (t u : Text mark) (s : String) (shown : t.Shows s ∨ u.Shows s) : (t ++ u).Shows s := by
  rw [Text.Shows, append_string, String.toList_append (s := t.string)]
  rcases shown with first | second
  · exact first.trans (List.prefix_append _ _).isInfix
  · exact second.trans (List.suffix_append _ _).isInfix

theorem text_shows_trans (t u : Text mark) (s : String) (outer : t.Shows u.string) (inner : u.Shows s) : t.Shows s :=
  inner.trans outer

theorem text_shows_middle (before t after : Text mark) : (before ++ t ++ after).Shows t.string :=
  text_shows_append _ _ _ (Or.inl (text_shows_append _ _ _ (Or.inr (text_shows_self t))))

theorem text_shows_last (before t : Text mark) : (before ++ t).Shows t.string :=
  text_shows_append _ _ _ (Or.inr (text_shows_self t))

theorem text_shows_blank (t : Text mark) : t.Shows "" := List.nil_infix

theorem following_shows (separator : String) (ts : List (Text mark)) (t : Text mark) (member : t ∈ ts) :
    (Text.following separator ts).Shows t.string := by
  induction ts with
  | nil => exact absurd member List.not_mem_nil
  | cons u rest ih =>
      rw [Text.following]
      apply text_shows_append
      rcases List.mem_cons.mp member with rfl | later
      · exact Or.inl (text_shows_append _ _ _ (Or.inr (text_shows_self t)))
      · exact Or.inr (ih later)

theorem mk_string_shows (separator : String) (ts : List (Text mark)) (t : Text mark) (member : t ∈ ts) :
    (Text.mkString separator ts).Shows t.string := by
  cases ts with
  | nil => exact absurd member List.not_mem_nil
  | cons u rest =>
      rw [Text.mkString]
      apply text_shows_append
      rcases List.mem_cons.mp member with rfl | later
      · exact Or.inl (text_shows_self t)
      · exact Or.inr (following_shows separator rest t later)

end Texts

section Lines

variable {mark : String} {α : Type}

def Written.empty : Written mark α := ⟨[], []⟩

def Written.append (v w : Written mark α) : Written mark α := ⟨v.lines ++ w.lines, v.reports ++ w.reports⟩

instance : Append (Written mark α) := ⟨Written.append⟩

def write (mark : String) (level : Nat) (t : Text mark) : Written mark α := ⟨[⟨level, t⟩], []⟩

def yields (reports : List α) : Written mark α := ⟨[], reports⟩

def Written.refs (w : Written mark α) : List String := w.lines.flatMap (fun line => line.text.refs)

def Written.concat (ws : List (Written mark α)) : Written mark α := ⟨ws.flatMap Written.lines, ws.flatMap Written.reports⟩

-- A loop whose iterations write.
def writeEach {β : Type} (body : β → Except Stop (Written mark α)) (bs : List β) : Except Stop (Written mark α) :=
  (bs.mapM body).map Written.concat

end Lines

section Writers

variable {mark : String} {α : Type}

@[simp] theorem empty_refs : (Written.empty : Written mark α).refs = [] := rfl

@[simp] theorem write_refs (level : Nat) (t : Text mark) : (write mark level t : Written mark α).refs = t.refs := by
  simp [write, Written.refs]

@[simp] theorem yields_refs (reports : List α) : (yields reports : Written mark α).refs = [] := rfl

@[simp] theorem written_append_refs (v w : Written mark α) : (v ++ w).refs = v.refs ++ w.refs :=
  List.flatMap_append

@[simp] theorem empty_reports : (Written.empty : Written mark α).reports = [] := rfl

@[simp] theorem write_reports (level : Nat) (t : Text mark) : (write mark level t : Written mark α).reports = [] := rfl

@[simp] theorem yields_reports (reports : List α) : (yields reports : Written mark α).reports = reports := rfl

@[simp] theorem written_append_reports (v w : Written mark α) : (v ++ w).reports = v.reports ++ w.reports := rfl

@[simp] theorem written_append_lines (v w : Written mark α) : (v ++ w).lines = v.lines ++ w.lines := rfl

theorem concat_cons (w : Written mark α) (ws : List (Written mark α)) :
    Written.concat (w :: ws) = w ++ Written.concat ws := rfl

theorem concat_append (vs ws : List (Written mark α)) :
    Written.concat (vs ++ ws) = Written.concat vs ++ Written.concat ws := by
  simp only [Written.concat, List.flatMap_append]
  rfl

theorem concat_refs (ws : List (Written mark α)) : (Written.concat ws).refs = ws.flatMap Written.refs := List.flatMap_assoc

theorem refs_occur (w : Written mark α) (r : String) (member : r ∈ w.refs) :
    ∃ line ∈ w.lines, (mark ++ r).toList <:+: line.text.string.toList := by
  obtain ⟨line, listed, inside⟩ := List.mem_flatMap.mp member
  exact ⟨line, listed, line.text.occur r inside⟩

-- A line whose text is s.
def Written.Prints (w : Written mark α) (s : String) : Prop := ∃ line ∈ w.lines, line.text.string = s

theorem prints_write (level : Nat) (t : Text mark) (s : String) :
    (write mark level t : Written mark α).Prints s ↔ t.string = s := by
  simp [Written.Prints, write]

theorem prints_append (v w : Written mark α) (s : String) : (v ++ w).Prints s ↔ v.Prints s ∨ w.Prints s := by
  simp only [Written.Prints, written_append_lines, List.mem_append, or_and_right, exists_or]

theorem prints_concat (ws : List (Written mark α)) (s : String) : (Written.concat ws).Prints s ↔ ∃ w ∈ ws, w.Prints s := by
  simp only [Written.Prints, Written.concat, List.mem_flatMap]
  constructor
  · rintro ⟨line, ⟨w, member, listed⟩, same⟩
    exact ⟨w, member, line, listed, same⟩
  · rintro ⟨w, member, line, listed, same⟩
    exact ⟨line, ⟨w, member, listed⟩, same⟩

-- A line with s in its text.
def Written.Shows (w : Written mark α) (s : String) : Prop := ∃ line ∈ w.lines, line.text.Shows s

theorem shows_write (level : Nat) (t : Text mark) (s : String) : (write mark level t : Written mark α).Shows s ↔ t.Shows s := by
  simp [Written.Shows, write]

theorem shows_append (v w : Written mark α) (s : String) : (v ++ w).Shows s ↔ v.Shows s ∨ w.Shows s := by
  simp only [Written.Shows, written_append_lines, List.mem_append, or_and_right, exists_or]

theorem shows_trans (w : Written mark α) (t : Text mark) (s : String) (outer : w.Shows t.string) (inner : t.Shows s) :
    w.Shows s := by
  obtain ⟨line, member, shown⟩ := outer
  exact ⟨line, member, text_shows_trans _ t s shown inner⟩

theorem shows_concat (ws : List (Written mark α)) (s : String) (w : Written mark α) (member : w ∈ ws) (shown : w.Shows s) :
    (Written.concat ws).Shows s := by
  obtain ⟨line, listed, here⟩ := shown
  exact ⟨line, List.mem_flatMap.mpr ⟨w, member, listed⟩, here⟩

theorem shows_each {β : Type} (body : β → Except Stop (Written mark α)) (bs : List β) (w : Written mark α)
    (done : writeEach body bs = .ok w) (s : String) (b : β) (member : b ∈ bs)
    (each : ∀ v, body b = .ok v → v.Shows s) : w.Shows s := by
  obtain ⟨ws, mapped, rfl⟩ := (map_ok _ _ _).mp done
  obtain ⟨v, here⟩ := map_m_all body bs ws mapped b member
  exact shows_concat ws s v ((map_m_mem body bs ws mapped v).mpr (List.mem_map.mpr ⟨b, member, here⟩)) (each v here)

-- What is written of a thing refers to refers, and what is reported of it defines defines.
variable (refers : α → List String) (defines : α → Option String)

-- The lines refer to what the uses and the others refer to, and the reports define what the uses define. All of them
-- have been resolved.
structure Writes (uses : List (Except Stop α)) (others : List (Except Stop (Option α))) (w : Written mark α) : Prop where
  refs : ∀ r, r ∈ w.refs ↔ (∃ t, .ok t ∈ uses ∧ r ∈ refers t) ∨ ∃ t, .ok (some t) ∈ others ∧ r ∈ refers t
  reports : ∀ r, r ∈ w.reports.filterMap defines ↔ ∃ t, .ok t ∈ uses ∧ defines t = some r
  used : ∀ x ∈ uses, ∃ t, x = .ok t
  found : ∀ x ∈ others, ∃ t, x = .ok t

theorem writes_empty : Writes refers defines [] [] (Written.empty : Written mark α) := by
  constructor
  · simp
  · simp
  · simp
  · simp

theorem writes_append (uses moreUses : List (Except Stop α)) (others moreOthers : List (Except Stop (Option α)))
    (v w : Written mark α) (first : Writes refers defines uses others v)
    (second : Writes refers defines moreUses moreOthers w) :
    Writes refers defines (uses ++ moreUses) (others ++ moreOthers) (v ++ w) := by
  constructor
  · intro r
    rw [written_append_refs, List.mem_append, first.refs, second.refs]
    simp only [List.mem_append, or_and_right, exists_or]
    exact or_or_or_comm
  · intro r
    rw [written_append_reports, List.filterMap_append, List.mem_append, first.reports, second.reports]
    simp only [List.mem_append, or_and_right, exists_or]
  · intro x member
    rcases List.mem_append.mp member with here | there
    · exact first.used x here
    · exact second.used x there
  · intro x member
    rcases List.mem_append.mp member with here | there
    · exact first.found x here
    · exact second.found x there

theorem writes_concat {β σ : Type} (body : β → Except Stop σ) (content : σ → Written mark α) (uses : β → List (Except Stop α))
    (others : β → List (Except Stop (Option α))) (bs : List β) (ss : List σ) (done : bs.mapM body = .ok ss)
    (each : ∀ b ∈ bs, ∀ s, body b = .ok s → Writes refers defines (uses b) (others b) (content s)) :
    Writes refers defines (bs.flatMap uses) (bs.flatMap others) (Written.concat (ss.map content)) := by
  induction bs generalizing ss with
  | nil =>
      rw [← Except.ok.inj done]
      exact writes_empty refers defines
  | cons b rest ih =>
      obtain ⟨first, later, here, there, rfl⟩ := (map_m_cons_ok body b rest ss).mp done
      rw [List.map_cons, concat_cons]
      exact writes_append refers defines _ _ _ _ _ _ (each b List.mem_cons_self first here)
        (ih later there (fun c member => each c (List.mem_cons_of_mem _ member)))

theorem writes_concat_uses {β σ : Type} (body : β → Except Stop σ) (content : σ → Written mark α)
    (uses : β → List (Except Stop α)) (bs : List β) (ss : List σ) (done : bs.mapM body = .ok ss)
    (each : ∀ b ∈ bs, ∀ s, body b = .ok s → Writes refers defines (uses b) [] (content s)) :
    Writes refers defines (bs.flatMap uses) [] (Written.concat (ss.map content)) := by
  have all := writes_concat refers defines body content uses (fun _ => []) bs ss done each
  constructor
  · intro r
    rw [all.refs]
    simp
  · exact all.reports
  · exact all.used
  · simp

theorem writes_each {β : Type} (body : β → Except Stop (Written mark α)) (uses : β → List (Except Stop α)) (bs : List β)
    (w : Written mark α) (done : writeEach body bs = .ok w)
    (each : ∀ b ∈ bs, ∀ v, body b = .ok v → Writes refers defines (uses b) [] v) :
    Writes refers defines (bs.flatMap uses) [] w := by
  obtain ⟨ws, finished, rfl⟩ := (map_ok _ _ _).mp done
  have all := writes_concat_uses refers defines body (fun v => v) uses bs ws finished each
  rw [List.map_id'] at all
  exact all

-- What neither refers to a definition nor is reported.
theorem quiet_each {β : Type} (body : β → Except Stop (Written mark α)) (bs : List β) (w : Written mark α)
    (done : writeEach body bs = .ok w) (each : ∀ b ∈ bs, ∀ v, body b = .ok v → v.refs = [] ∧ v.reports = []) :
    w.refs = [] ∧ w.reports = [] := by
  obtain ⟨ws, finished, rfl⟩ := (map_ok _ _ _).mp done
  have quiet : ∀ v ∈ ws, v.refs = [] ∧ v.reports = [] := by
    intro v member
    obtain ⟨b, listed, here⟩ := List.mem_map.mp ((map_m_mem body bs ws finished v).mp member)
    exact each b listed v here
  rw [concat_refs]
  exact ⟨List.flatMap_eq_nil_iff.mpr (fun v member => (quiet v member).1),
    List.flatMap_eq_nil_iff.mpr (fun v member => (quiet v member).2)⟩

theorem writes_same (uses : List (Except Stop α)) (others : List (Except Stop (Option α))) (v w : Written mark α)
    (writes : Writes refers defines uses others v) (refs : w.refs = v.refs) (reports : w.reports = v.reports) :
    Writes refers defines uses others w := by
  constructor
  · rw [refs]
    exact writes.refs
  · rw [reports]
    exact writes.reports
  · exact writes.used
  · exact writes.found

end Writers

end Toolbox8.Base
