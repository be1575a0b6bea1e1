import Mathlib.Data.List.Basic

set_option autoImplicit false

namespace Toolbox8.Base

inductive Ended where
  | completed
  | failed
deriving DecidableEq, Repr

-- What a finite stream has handed downstream once it has ended, and how it ended.
structure Emission (α : Type) where
  elems : List α
  ended : Ended
deriving DecidableEq, Repr

variable {α β : Type}

def Emission.completed (elems : List α) : Emission α := ⟨elems, .completed⟩

def Emission.map (f : α → β) (e : Emission α) : Emission β := ⟨e.elems.map f, e.ended⟩

-- A map stage whose function may throw (none): the stage then fails on that element.
def mapThrowingFrom (f : α → Option β) (ended : Ended) : List α → Emission β
  | [] => ⟨[], ended⟩
  | x :: rest =>
      match f x with
      | none => ⟨[], .failed⟩
      | some y => ⟨y :: (mapThrowingFrom f ended rest).elems, (mapThrowingFrom f ended rest).ended⟩

def Emission.mapThrowing (f : α → Option β) (e : Emission α) : Emission β := mapThrowingFrom f e.ended e.elems

def concatFrom (f : α → Emission β) (ended : Ended) : List α → Emission β
  | [] => ⟨[], ended⟩
  | x :: rest =>
      match (f x).ended with
      | .failed => f x
      | .completed => ⟨(f x).elems ++ (concatFrom f ended rest).elems, (concatFrom f ended rest).ended⟩

def Emission.flatMapConcat (f : α → Emission β) (e : Emission α) : Emission β := concatFrom f e.ended e.elems

def Emission.mapConcat (f : α → List β) (e : Emission α) : Emission β := ⟨e.elems.flatMap f, e.ended⟩

-- The second source is only drawn from when the first one has completed.
def Emission.concat (e after : Emission α) : Emission α :=
  match e.ended with
  | .failed => e
  | .completed => ⟨e.elems ++ after.elems, after.ended⟩

-- A fold emits its accumulator when upstream completes and nothing when it fails.
def Emission.fold (zero : β) (f : β → α → β) (e : Emission α) : Emission β :=
  match e.ended with
  | .failed => ⟨[], .failed⟩
  | .completed => .completed [e.elems.foldl f zero]

-- The end of the split stage: an open substream ends the way the stage does.
def closeSubstream (opened : Option (List α)) (ended : Ended) : Emission (Emission α) :=
  ⟨opened.toList.map (fun current => ⟨current, ended⟩), ended⟩

-- splitAfter opens a substream on the first element after a match and completes it on
-- the match. When the predicate throws, the open substream and the stage fail.
def splitAfterFrom (p : α → Option Bool) (ended : Ended) : Option (List α) → List α → Emission (Emission α)
  | opened, [] => closeSubstream opened ended
  | opened, x :: rest =>
      match p x with
      | none => closeSubstream opened .failed
      | some true =>
          ⟨.completed (opened.getD [] ++ [x]) :: (splitAfterFrom p ended none rest).elems,
            (splitAfterFrom p ended none rest).ended⟩
      | some false => splitAfterFrom p ended (some (opened.getD [] ++ [x])) rest

def Emission.splitAfter (p : α → Option Bool) (e : Emission α) : Emission (Emission α) :=
  splitAfterFrom p e.ended none e.elems

@[simp] theorem completed_elems (elems : List α) : (Emission.completed elems).elems = elems := rfl

@[simp] theorem completed_ended (elems : List α) : (Emission.completed elems).ended = .completed := rfl

@[simp] theorem map_elems (f : α → β) (e : Emission α) : (e.map f).elems = e.elems.map f := rfl

theorem map_throwing_total (f : α → Option β) (g : α → β) (ended : Ended) (xs : List α)
    (total : ∀ x ∈ xs, f x = some (g x)) : mapThrowingFrom f ended xs = ⟨xs.map g, ended⟩ := by
  induction xs with
  | nil => rfl
  | cons x rest ih =>
      rw [mapThrowingFrom, total x (by simp), ih (fun y member => total y (by simp [member]))]
      rfl

theorem map_throwing_append (f : α → Option β) (g : α → β) (ended : Ended) (xs ys : List α)
    (total : ∀ x ∈ xs, f x = some (g x)) :
    mapThrowingFrom f ended (xs ++ ys) =
      ⟨xs.map g ++ (mapThrowingFrom f ended ys).elems, (mapThrowingFrom f ended ys).ended⟩ := by
  induction xs with
  | nil => rfl
  | cons x rest ih =>
      rw [List.cons_append, mapThrowingFrom, total x (by simp), ih (fun y member => total y (by simp [member]))]
      rfl

theorem map_throwing_failed (f : α → Option β) (ended : Ended) (xs : List α) (x : α)
    (member : x ∈ xs) (throws : f x = none) : (mapThrowingFrom f ended xs).ended = .failed := by
  induction xs with
  | nil => simp at member
  | cons y rest ih =>
      cases mapped : f y with
      | none => simp [mapThrowingFrom, mapped]
      | some z =>
          have later : x ∈ rest := by
            rcases List.mem_cons.mp member with rfl | later
            · simp [throws] at mapped
            · exact later
          simpa [mapThrowingFrom, mapped] using ih later

theorem concat_completed (f : α → Emission β) (ended : Ended) (xs : List α)
    (all : ∀ x ∈ xs, (f x).ended = .completed) :
    concatFrom f ended xs = ⟨xs.flatMap (fun x => (f x).elems), ended⟩ := by
  induction xs with
  | nil => rfl
  | cons x rest ih =>
      rw [concatFrom, all x (by simp), ih (fun y member => all y (by simp [member]))]
      rfl

theorem concat_member (f : α → Emission β) (ended : Ended) (xs : List α) (y : β)
    (member : y ∈ (concatFrom f ended xs).elems) : ∃ x ∈ xs, y ∈ (f x).elems := by
  induction xs with
  | nil => simp [concatFrom] at member
  | cons x rest ih =>
      cases outcome : (f x).ended with
      | failed =>
          simp only [concatFrom, outcome] at member
          exact ⟨x, by simp, member⟩
      | completed =>
          simp only [concatFrom, outcome, List.mem_append] at member
          cases member with
          | inl here => exact ⟨x, by simp, here⟩
          | inr later =>
              obtain ⟨source, isSource, inside⟩ := ih later
              exact ⟨source, by simp [isSource], inside⟩

theorem split_after_unmatched (p : α → Option Bool) (ended : Ended) (opened : Option (List α))
    (xs rest : List α) (unmatched : ∀ x ∈ xs, p x = some false) (nonempty : xs ≠ []) :
    splitAfterFrom p ended opened (xs ++ rest) =
      splitAfterFrom p ended (some (opened.getD [] ++ xs)) rest := by
  induction xs generalizing opened with
  | nil => exact absurd rfl nonempty
  | cons x tail ih =>
      rw [List.cons_append, splitAfterFrom, unmatched x (by simp)]
      cases tail with
      | nil => rfl
      | cons y more =>
          simpa using ih (some (opened.getD [] ++ [x])) (fun z member => unmatched z (by simp [member])) (by simp)

theorem split_after_message (p : α → Option Bool) (ended : Ended) (xs rest : List α) (last : α)
    (unmatched : ∀ x ∈ xs, p x = some false) (matched : p last = some true) :
    splitAfterFrom p ended none (xs ++ last :: rest) =
      ⟨.completed (xs ++ [last]) :: (splitAfterFrom p ended none rest).elems,
        (splitAfterFrom p ended none rest).ended⟩ := by
  by_cases empty : xs = []
  · simp [empty, splitAfterFrom, matched]
  · rw [split_after_unmatched p ended none xs _ unmatched empty, splitAfterFrom, matched]
    rfl

def endsMatched (p : α → Option Bool) (xs : List α) : Prop := ∃ x, xs.getLast? = some x ∧ p x = some true

theorem ends_matched_cons (p : α → Option Bool) (x : α) (xs : List α) (nonempty : xs ≠ []) :
    endsMatched p (x :: xs) ↔ endsMatched p xs := by
  cases xs with
  | nil => exact absurd rfl nonempty
  | cons y tail => simp [endsMatched, List.getLast?_cons_cons]

-- Exactly when no substream that was cut by the end of the input looks complete. The
-- induction is over the input; opened holds the unmatched elements of the open substream.
theorem split_after_complete_iff (p : α → Option Bool) (ended : Ended) (opened : Option (List α)) (xs : List α)
    (unmatched : ∀ x ∈ opened.getD [], p x = some false) :
    (∀ sub ∈ (splitAfterFrom p ended opened xs).elems, sub.ended = .completed → ∃ x ∈ sub.elems, p x = some true) ↔
      ended = .failed ∨ (xs = [] ∧ opened = none) ∨ (∃ x ∈ xs, p x = none) ∨ endsMatched p xs := by
  induction xs generalizing opened with
  | nil =>
      cases opened with
      | none => simp [splitAfterFrom, closeSubstream]
      | some current =>
          have noMatch : ¬ ∃ x ∈ current, p x = some true := by
            intro ⟨x, member, matched⟩
            simp [unmatched x (by simpa using member)] at matched
          cases ended with
          | failed => simp [splitAfterFrom, closeSubstream]
          | completed => simpa [splitAfterFrom, closeSubstream, endsMatched] using noMatch
  | cons x rest ih =>
      cases test : p x with
      | none => cases opened <;> simp [splitAfterFrom, closeSubstream, test]
      | some hit =>
          cases hit with
          | true =>
              have later := ih none (by simp)
              simp only [splitAfterFrom, test, List.forall_mem_cons, completed_elems, later]
              by_cases empty : rest = []
              · simp [empty, endsMatched, test]
              · simp [empty, ends_matched_cons p x rest empty, test]
          | false =>
              have grown : ∀ y ∈ (some (opened.getD [] ++ [x])).getD [], p y = some false := by
                intro y member
                simp only [Option.getD_some, List.mem_append, List.mem_singleton] at member
                rcases member with old | rfl
                · exact unmatched y old
                · exact test
              rw [splitAfterFrom, test]
              refine (ih _ grown).trans ?_
              by_cases empty : rest = []
              · simp [empty, endsMatched, test]
              · simp [empty, ends_matched_cons p x rest empty, test]

end Toolbox8.Base
