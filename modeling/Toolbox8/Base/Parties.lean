import Toolbox8.Base.Sequences
import Toolbox8.Base.Transition
import Mathlib.Algebra.Ring.Nat
import Mathlib.Algebra.BigOperators.Group.List.Basic

set_option autoImplicit false

namespace Toolbox8.Base

variable {Shared Party Event : Type}

-- Any number of parties that take turns on one shared state.
structure Joint (Shared Party : Type) where
  shared : Shared
  parties : List Party

-- The party with a number takes a step. It sees the shared state and itself, of the others it sees nothing.
def Joint.step (act : Nat → Shared → Party → Event → Option (Shared × Party)) (s : Joint Shared Party)
    (event : Nat × Event) : Option (Joint Shared Party) :=
  (s.parties[event.1]?).bind (fun p =>
    (act event.1 s.shared p event.2).map (fun after => ⟨after.1, s.parties.set event.1 after.2⟩))

def joint (act : Nat → Shared → Party → Event → Option (Shared × Party)) (initial : Joint Shared Party) :
    Machine (Joint Shared Party) (Nat × Event) where
  initial := initial
  step := Joint.step act

variable (act : Nat → Shared → Party → Event → Option (Shared × Party))

theorem joint_step_some (s next : Joint Shared Party) (event : Nat × Event) (stepped : s.step act event = some next) :
    ∃ p after, s.parties[event.1]? = some p ∧ act event.1 s.shared p event.2 = some after ∧
      next = ⟨after.1, s.parties.set event.1 after.2⟩ := by
  unfold Joint.step at stepped
  cases here : s.parties[event.1]? with
  | none => simp [here] at stepped
  | some p =>
      rw [here, Option.bind_some, Option.map_eq_some_iff] at stepped
      obtain ⟨after, acted, same⟩ := stepped
      exact ⟨p, after, rfl, acted, same.symm⟩

theorem joint_step_of_act (s : Joint Shared Party) (index : Nat) (p : Party) (event : Event) (after : Shared × Party)
    (here : s.parties[index]? = some p) (acted : act index s.shared p event = some after) :
    s.step act (index, event) = some ⟨after.1, s.parties.set index after.2⟩ := by
  simp [Joint.step, here, acted]

section Invariants

-- What all parties agree on about the shared state, what each one knows of itself, and what it relies on of the others.
variable (common : Shared → Prop) (own : Nat → Shared → Party → Prop) (rely : Nat → Shared → Shared → Prop)

def Joint.Keeps (n : Nat) (s : Joint Shared Party) : Prop :=
  s.parties.length = n ∧ common s.shared ∧ ∀ index p, s.parties[index]? = some p → own index s.shared p

-- A party keeps what it knows of itself and gives the others what they rely on.
structure Guarantees (n : Nat) : Prop where
  kept : ∀ index shared p event after, index < n → common shared → own index shared p →
    act index shared p event = some after → common after.1 ∧ own index after.1 after.2
  given : ∀ index shared p event after other, common shared → own index shared p → other ≠ index →
    act index shared p event = some after → rely other shared after.1
  stable : ∀ index shared after p, common shared → own index shared p → rely index shared after → own index after p

theorem joint_step_keeps (n : Nat) (guarantees : Guarantees act common own rely n) (s : Joint Shared Party)
    (event : Nat × Event) (next : Joint Shared Party) (holds : s.Keeps common own n)
    (stepped : s.step act event = some next) : next.Keeps common own n := by
  obtain ⟨p, after, here, acted, rfl⟩ := joint_step_some act s next event stepped
  obtain ⟨length, agreed, each⟩ := holds
  have short : event.1 < s.parties.length := (List.getElem?_eq_some_iff.mp here).1
  have mine := each event.1 p here
  obtain ⟨agreedAfter, mineAfter⟩ :=
    guarantees.kept event.1 s.shared p event.2 after (by omega) agreed mine acted
  refine ⟨by rw [List.length_set, length], agreedAfter, ?_⟩
  intro index q found
  by_cases same : event.1 = index
  · subst same
    rw [List.getElem?_set_self short, Option.some.injEq] at found
    subst found
    exact mineAfter
  · rw [List.getElem?_set_ne same] at found
    have given := guarantees.given event.1 s.shared p event.2 after index agreed mine (Ne.symm same) acted
    exact guarantees.stable index s.shared after.1 q agreed (each index q found) given

theorem joint_reachable_keeps (n : Nat) (guarantees : Guarantees act common own rely n) (initial s : Joint Shared Party)
    (start : initial.Keeps common own n) (reached : (joint act initial).Reachable s) : s.Keeps common own n :=
  reachable_keeps (joint act initial) (Joint.Keeps common own n) start (joint_step_keeps act common own rely n guarantees)
    s reached

end Invariants

section Progress

variable (common : Shared → Prop) (own : Nat → Shared → Party → Prop) (rely : Nat → Shared → Shared → Prop)
  (isInternal : Event → Prop) (finished : Party → Prop) (work : Nat → Party → Nat)

def Joint.left (s : Joint Shared Party) : Nat := (s.parties.mapIdx work).sum

theorem joint_step_decreases (n : Nat) (s next : Joint Shared Party) (event : Nat × Event)
    (decreases : ∀ index shared p event after, common shared → own index shared p → isInternal event →
      act index shared p event = some after → work index after.2 < work index p)
    (holds : s.Keeps common own n) (internal : isInternal event.2) (stepped : s.step act event = some next) :
    next.left work < s.left work := by
  obtain ⟨p, after, here, acted, rfl⟩ := joint_step_some act s next event stepped
  have less := decreases event.1 s.shared p event.2 after holds.2.1 (holds.2.2 event.1 p here) internal acted
  have sums := sum_set_indexed work s.parties event.1 p after.2 here
  simp only [Joint.left]
  omega

theorem joint_run_bounded (n : Nat) (initial s final : Joint Shared Party) (events : List (Nat × Event))
    (guarantees : Guarantees act common own rely n)
    (decreases : ∀ index shared p event after, common shared → own index shared p → isInternal event →
      act index shared p event = some after → work index after.2 < work index p)
    (holds : s.Keeps common own n) (internal : ∀ event ∈ events, isInternal event.2)
    (ran : (joint act initial).run s events = some final) : events.length + final.left work ≤ s.left work :=
  internal_run_bounded (joint act initial) (Joint.Keeps common own n) (fun event => isInternal event.2) (Joint.left work)
    (joint_step_keeps act common own rely n guarantees)
    (fun s event next here inside stepped =>
      joint_step_decreases act common own isInternal work n s next event decreases here inside stepped)
    s final events holds internal ran

theorem joint_run_counts (n : Nat) (initial s final : Joint Shared Party) (events : List (Nat × Event)) (counted : Event → Bool)
    (guarantees : Guarantees act common own rely n)
    (drops : ∀ index shared p event after, common shared → own index shared p → act index shared p event = some after →
      (if counted event then 1 else 0) + work index after.2 ≤ work index p)
    (holds : s.Keeps common own n) (ran : (joint act initial).run s events = some final) :
    events.countP (fun event => counted event.2) + final.left work ≤ s.left work := by
  refine run_counts_internal (joint act initial) (Joint.Keeps common own n) (Joint.left work) _
    (joint_step_keeps act common own rely n guarantees) ?_ s final events holds ran
  intro s event next here stepped
  obtain ⟨p, after, found, acted, rfl⟩ := joint_step_some act s next event stepped
  have drop := drops event.1 s.shared p event.2 after here.2.1 (here.2.2 event.1 p found) acted
  have sums := sum_set_indexed work s.parties event.1 p after.2 found
  simp only [Joint.left]
  omega

-- A party that cannot go on waits for one that has not finished and waits for less, if at all.
theorem joint_goes_on (rank : Party → Nat) (s : Joint Shared Party)
    (waits : ∀ (index : Nat) (p : Party), s.parties[index]? = some p → ¬ finished p →
      (∃ event after, isInternal event ∧ act index s.shared p event = some after) ∨
        ∃ (other : Nat) (q : Party), s.parties[other]? = some q ∧ ¬ finished q ∧ rank q < rank p)
    (index : Nat) (p : Party) (found : s.parties[index]? = some p) (running : ¬ finished p) :
    ∃ event next, isInternal (event : Nat × Event).2 ∧ s.step act event = some next := by
  induction height : rank p using Nat.strongRecOn generalizing index p with
  | ind height ih =>
      rcases waits index p found running with ⟨event, after, internal, acted⟩ | ⟨other, q, there, waiting, less⟩
      · exact ⟨(index, event), _, internal, joint_step_of_act act s index p event after found acted⟩
      · exact ih (rank q) (by omega) other q there waiting rfl

theorem joint_run_finishes_ranked (n : Nat) (rank : Party → Nat) (initial s : Joint Shared Party)
    (guarantees : Guarantees act common own rely n)
    (decreases : ∀ index shared p event after, common shared → own index shared p → isInternal event →
      act index shared p event = some after → work index after.2 < work index p)
    (waits : ∀ s : Joint Shared Party, s.Keeps common own n → ∀ (index : Nat) (p : Party), s.parties[index]? = some p →
      ¬ finished p → (∃ event after, isInternal event ∧ act index s.shared p event = some after) ∨
        ∃ (other : Nat) (q : Party), s.parties[other]? = some q ∧ ¬ finished q ∧ rank q < rank p)
    (holds : s.Keeps common own n) :
    ∃ events final, (∀ event ∈ events, isInternal event.2) ∧ (joint act initial).run s events = some final ∧
      ∀ p ∈ final.parties, finished p := by
  have goesOn : ∀ s : Joint Shared Party, s.Keeps common own n → ¬ (∀ p ∈ s.parties, finished p) →
      ∃ event next, isInternal (event : Nat × Event).2 ∧ s.step act event = some next := by
    intro s here unfinished
    rw [not_forall] at unfinished
    obtain ⟨p, running⟩ := unfinished
    rw [Classical.not_imp] at running
    obtain ⟨member, open_⟩ := running
    obtain ⟨index, found⟩ := List.getElem?_of_mem member
    exact joint_goes_on act isInternal finished rank s (waits s here) index p found open_
  exact internal_run_finishes (joint act initial) (Joint.Keeps common own n) (fun event => isInternal event.2)
    (fun s => ∀ p ∈ s.parties, finished p) (Joint.left work) (joint_step_keeps act common own rely n guarantees)
    (fun s event next here inside stepped =>
      joint_step_decreases act common own isInternal work n s next event decreases here inside stepped)
    goesOn s holds

-- As long as every party that has not finished can go on, all of them finish.
theorem joint_run_finishes (n : Nat) (initial s : Joint Shared Party) (guarantees : Guarantees act common own rely n)
    (decreases : ∀ index shared p event after, common shared → own index shared p → isInternal event →
      act index shared p event = some after → work index after.2 < work index p)
    (enabled : ∀ index shared p, common shared → own index shared p → ¬ finished p →
      ∃ event after, isInternal event ∧ act index shared p event = some after)
    (holds : s.Keeps common own n) :
    ∃ events final, (∀ event ∈ events, isInternal event.2) ∧ (joint act initial).run s events = some final ∧
      ∀ p ∈ final.parties, finished p :=
  joint_run_finishes_ranked act common own rely isInternal finished work n (fun _ => 0) initial s guarantees decreases
    (fun s here index p found running => .inl (enabled index s.shared p here.2.1 (here.2.2 index p found) running)) holds

end Progress

end Toolbox8.Base
