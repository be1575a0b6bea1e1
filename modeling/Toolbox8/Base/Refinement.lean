import Toolbox8.Base.Transition

set_option autoImplicit false

namespace Toolbox8.Base

variable {State Event Abstract Action : Type}

-- A machine refines another one where each of its steps is a step of the other, or none, seen through the abstraction.
structure Refines (m : Machine State Event) (n : Machine Abstract Action) (abs : State → Abstract) (inv : State → Prop) :
    Prop where
  initial_inv : inv m.initial
  initial_abs : abs m.initial = n.initial
  step : ∀ s event next, inv s → n.Reachable (abs s) → m.step s event = some next →
    abs next = abs s ∨ ∃ action, n.step (abs s) action = some (abs next)
  keeps : ∀ s event next, inv s → n.Reachable (abs s) → n.Reachable (abs next) → m.step s event = some next → inv next

theorem reachable_step (m : Machine State Event) (s next : State) (event : Event) (reached : m.Reachable s)
    (stepped : m.step s event = some next) : m.Reachable next := by
  obtain ⟨events, ran⟩ := reached
  refine ⟨events ++ [event], ?_⟩
  rw [run_append, ran, Option.bind_some, run_cons, stepped]
  rfl

variable {m : Machine State Event} {n : Machine Abstract Action} {abs : State → Abstract} {inv : State → Prop}

theorem refines_step (refines : Refines m n abs inv) (s next : State) (event : Event)
    (holds : inv s ∧ n.Reachable (abs s)) (stepped : m.step s event = some next) : inv next ∧ n.Reachable (abs next) := by
  have reached : n.Reachable (abs next) := by
    rcases refines.step s event next holds.1 holds.2 stepped with same | ⟨action, acted⟩
    · rw [same]
      exact holds.2
    · exact reachable_step n (abs s) (abs next) action holds.2 acted
  exact ⟨refines.keeps s event next holds.1 holds.2 reached stepped, reached⟩

theorem refines_reachable (refines : Refines m n abs inv) (s : State) (reached : m.Reachable s) :
    inv s ∧ n.Reachable (abs s) := by
  have start : inv m.initial ∧ n.Reachable (abs m.initial) := ⟨refines.initial_inv, [], by rw [refines.initial_abs]; rfl⟩
  exact reachable_keeps m (fun s => inv s ∧ n.Reachable (abs s)) start
    (fun s event next holds stepped => refines_step refines s next event holds stepped) s reached

end Toolbox8.Base
