import Mathlib.Data.List.Basic

set_option autoImplicit false

namespace Toolbox8.Base

-- A system moves by partial steps: none says that the event is not enabled in the
-- state. Interleavings are the lists of events that can be run from the initial state.
structure Machine (State Event : Type) where
  initial : State
  step : State → Event → Option State

variable {State Event : Type}

def Machine.run (m : Machine State Event) : State → List Event → Option State
  | s, [] => some s
  | s, event :: rest => (m.step s event).bind (fun next => m.run next rest)

def Machine.Reachable (m : Machine State Event) (s : State) : Prop :=
  ∃ events, m.run m.initial events = some s

-- Every event of the run meets the guard in the state it is taken in.
def Machine.Meets (m : Machine State Event) (guard : State → Event → Prop) : State → List Event → Prop
  | _, [] => True
  | s, event :: rest => guard s event ∧ ∀ next, m.step s event = some next → m.Meets guard next rest

instance Machine.decidableMeets (m : Machine State Event) (guard : State → Event → Prop)
    [∀ s event, Decidable (guard s event)] : (s : State) → (events : List Event) → Decidable (m.Meets guard s events)
  | _, [] => isTrue trivial
  | s, event :: rest =>
      match stepped : m.step s event with
      | none => decidable_of_iff (guard s event) (by simp [Machine.Meets, stepped])
      | some next =>
          have := Machine.decidableMeets m guard next rest
          decidable_of_iff (guard s event ∧ m.Meets guard next rest) (by simp [Machine.Meets, stepped])

-- Every state that the run passes has the property.
def Machine.Along (m : Machine State Event) (holds : State → Prop) : State → List Event → Prop
  | s, [] => holds s
  | s, event :: rest => holds s ∧ ∀ next, m.step s event = some next → m.Along holds next rest

@[simp] theorem run_nil (m : Machine State Event) (s : State) : m.run s [] = some s := rfl

@[simp] theorem run_cons (m : Machine State Event) (s : State) (event : Event) (rest : List Event) :
    m.run s (event :: rest) = (m.step s event).bind (fun next => m.run next rest) := rfl

theorem run_cons_of_step (m : Machine State Event) (s next : State) (event : Event) (rest : List Event)
    (stepped : m.step s event = some next) : m.run s (event :: rest) = m.run next rest := by
  rw [run_cons, stepped, Option.bind_some]

theorem run_append (m : Machine State Event) (s : State) (front back : List Event) :
    m.run s (front ++ back) = (m.run s front).bind (fun middle => m.run middle back) := by
  induction front generalizing s with
  | nil => rfl
  | cons event rest ih =>
      rw [List.cons_append, run_cons, run_cons]
      cases m.step s event with
      | none => rfl
      | some next => exact ih next

theorem meets_always (m : Machine State Event) (guard : State → Event → Prop)
    (always : ∀ s event, guard s event) (s : State) (events : List Event) : m.Meets guard s events := by
  induction events generalizing s with
  | nil => trivial
  | cons event rest ih => exact ⟨always s event, fun next _ => ih next⟩

theorem meets_all (m : Machine State Event) (allowed : Event → Prop) (s : State) (events : List Event)
    (all : ∀ event ∈ events, allowed event) : m.Meets (fun _ event => allowed event) s events := by
  induction events generalizing s with
  | nil => trivial
  | cons event rest ih => exact ⟨all event (by simp), fun next _ => ih next (fun e member => all e (by simp [member]))⟩

theorem meets_weaken (m : Machine State Event) (guard weaker : State → Event → Prop) (inv : State → Prop)
    (keeps : ∀ s event next, inv s → guard s event → m.step s event = some next → inv next)
    (implies : ∀ s event, inv s → guard s event → weaker s event)
    (s : State) (events : List Event) (start : inv s) (meets : m.Meets guard s events) : m.Meets weaker s events := by
  induction events generalizing s with
  | nil => trivial
  | cons event rest ih =>
      obtain ⟨met, later⟩ := meets
      exact ⟨implies s event start met, fun next stepped => ih next (keeps s event next start met stepped) (later next stepped)⟩

-- Where a step loses a property exactly when it breaks the guard, a run keeps it exactly when it meets the guard.
theorem along_iff_meets (m : Machine State Event) (guard : State → Event → Prop) (holds : State → Prop)
    (s final : State) (events : List Event)
    (exactly : ∀ s, ∀ event ∈ events, ∀ next, holds s → m.step s event = some next → (holds next ↔ guard s event))
    (start : holds s) (ran : m.run s events = some final) : m.Along holds s events ↔ m.Meets guard s events := by
  induction events generalizing s with
  | nil => exact ⟨fun _ => trivial, fun _ => start⟩
  | cons event rest ih =>
      rw [run_cons] at ran
      cases stepped : m.step s event with
      | none => simp [stepped] at ran
      | some next =>
          rw [stepped, Option.bind_some] at ran
          have here := exactly s event (by simp) next start stepped
          have later := fun s event member => exactly s event (List.mem_cons_of_mem _ member)
          constructor
          · rintro ⟨_, passes⟩
            have after := passes next stepped
            have kept : holds next := by
              cases rest with
              | nil => exact after
              | cons _ _ => exact after.1
            refine ⟨here.mp kept, fun other same => ?_⟩
            obtain rfl := Option.some.inj (stepped.symm.trans same)
            exact (ih next later kept ran).mp after
          · rintro ⟨met, after⟩
            have kept := here.mpr met
            refine ⟨start, fun other same => ?_⟩
            obtain rfl := Option.some.inj (stepped.symm.trans same)
            exact (ih next later kept ran).mpr (after next stepped)

theorem along_of_invariant (m : Machine State Event) (inv holds : State → Prop)
    (keeps : ∀ s event next, inv s → m.step s event = some next → inv next) (s : State) (events : List Event)
    (start : inv s) : m.Along holds s events ↔ m.Along (fun s => inv s ∧ holds s) s events := by
  induction events generalizing s with
  | nil => exact ⟨fun here => ⟨start, here⟩, And.right⟩
  | cons event rest ih =>
      have later := fun next stepped => ih next (keeps s event next start stepped)
      constructor
      · rintro ⟨here, passes⟩
        exact ⟨⟨start, here⟩, fun next stepped => (later next stepped).mp (passes next stepped)⟩
      · rintro ⟨here, passes⟩
        exact ⟨here.2, fun next stepped => (later next stepped).mpr (passes next stepped)⟩

-- The run lemma behind every invariant: what one guarded step keeps, a guarded run keeps.
theorem run_keeps_guarded (m : Machine State Event) (guard : State → Event → Prop) (inv : State → Prop)
    (keeps : ∀ s event next, inv s → guard s event → m.step s event = some next → inv next)
    (s final : State) (events : List Event) (start : inv s) (meets : m.Meets guard s events)
    (ran : m.run s events = some final) : inv final := by
  induction events generalizing s with
  | nil =>
      cases ran
      exact start
  | cons event rest ih =>
      obtain ⟨met, later⟩ := meets
      rw [run_cons] at ran
      cases stepped : m.step s event with
      | none => simp [stepped] at ran
      | some next =>
          rw [stepped, Option.bind_some] at ran
          exact ih next (keeps s event next start met stepped) (later next stepped) ran

theorem run_keeps (m : Machine State Event) (inv : State → Prop)
    (keeps : ∀ s event next, inv s → m.step s event = some next → inv next)
    (s final : State) (events : List Event) (start : inv s) (ran : m.run s events = some final) : inv final :=
  run_keeps_guarded m (fun _ _ => True) inv (fun s event next holds _ => keeps s event next holds)
    s final events start (meets_always m _ (fun _ _ => trivial) s events) ran

-- The first step that breaks the guard leaves a mark that no later step removes.
theorem run_meets_or_breaks (m : Machine State Event) (guard : State → Event → Prop) (kept broken : State → Prop)
    (keeps : ∀ s event next, kept s → guard s event → m.step s event = some next → kept next)
    (breaks : ∀ s event next, kept s → ¬ guard s event → m.step s event = some next → broken next)
    (stays : ∀ s event next, broken s → m.step s event = some next → broken next)
    (s final : State) (events : List Event) (start : kept s) (ran : m.run s events = some final) :
    m.Meets guard s events ∧ kept final ∨ ¬ m.Meets guard s events ∧ broken final := by
  induction events generalizing s with
  | nil =>
      cases ran
      exact .inl ⟨trivial, start⟩
  | cons event rest ih =>
      rw [run_cons] at ran
      cases stepped : m.step s event with
      | none => simp [stepped] at ran
      | some next =>
          rw [stepped, Option.bind_some] at ran
          by_cases met : guard s event
          · rcases ih next (keeps s event next start met stepped) ran with ⟨later, ends⟩ | ⟨later, ends⟩
            · refine .inl ⟨⟨met, fun other same => ?_⟩, ends⟩
              obtain rfl := Option.some.inj (stepped.symm.trans same)
              exact later
            · exact .inr ⟨fun meets => later (meets.2 next stepped), ends⟩
          · refine .inr ⟨fun meets => met meets.1, ?_⟩
            exact run_keeps m broken stays next final rest (breaks s event next start met stepped) ran

theorem reachable_keeps (m : Machine State Event) (inv : State → Prop) (start : inv m.initial)
    (keeps : ∀ s event next, inv s → m.step s event = some next → inv next)
    (s : State) (reached : m.Reachable s) : inv s := by
  obtain ⟨events, ran⟩ := reached
  exact run_keeps m inv keeps m.initial s events start ran

section Progress

variable (m : Machine State Event) (inv : State → Prop) (isInternal : Event → Prop)
  (finished : State → Prop) (work : State → Nat)

theorem run_counts_internal (counted : Event → Bool)
    (keeps : ∀ s event next, inv s → m.step s event = some next → inv next)
    (drops : ∀ s event next, inv s → m.step s event = some next → (if counted event then 1 else 0) + work next ≤ work s)
    (s final : State) (events : List Event) (start : inv s) (ran : m.run s events = some final) :
    events.countP counted + work final ≤ work s := by
  induction events generalizing s with
  | nil =>
      cases ran
      simp
  | cons event rest ih =>
      rw [run_cons] at ran
      obtain ⟨next, stepped, ran⟩ := Option.bind_eq_some_iff.mp ran
      have less := drops s event next start stepped
      have bound := ih next (keeps s event next start stepped) ran
      rw [List.countP_cons]
      omega

theorem internal_run_bounded
    (keeps : ∀ s event next, inv s → m.step s event = some next → inv next)
    (decreases : ∀ s event next, inv s → isInternal event → m.step s event = some next → work next < work s)
    (s final : State) (events : List Event) (start : inv s) (allInternal : ∀ event ∈ events, isInternal event)
    (ran : m.run s events = some final) : events.length + work final ≤ work s := by
  induction events generalizing s with
  | nil =>
      cases ran
      simp
  | cons event rest ih =>
      rw [run_cons] at ran
      cases stepped : m.step s event with
      | none => simp [stepped] at ran
      | some next =>
          rw [stepped, Option.bind_some] at ran
          have less := decreases s event next start (allInternal event (by simp)) stepped
          have bound := ih next (keeps s event next start stepped)
            (fun e member => allInternal e (by simp [member])) ran
          simp only [List.length_cons]
          omega

theorem internal_run_finishes
    (keeps : ∀ s event next, inv s → m.step s event = some next → inv next)
    (decreases : ∀ s event next, inv s → isInternal event → m.step s event = some next → work next < work s)
    (enabled : ∀ s, inv s → ¬ finished s → ∃ event next, isInternal event ∧ m.step s event = some next)
    (s : State) (start : inv s) :
    ∃ events final, (∀ event ∈ events, isInternal event) ∧ m.run s events = some final ∧ finished final := by
  induction budget : work s using Nat.strongRecOn generalizing s with
  | ind budget ih =>
      by_cases done : finished s
      · exact ⟨[], s, by simp, rfl, done⟩
      · obtain ⟨event, next, internal, stepped⟩ := enabled s start done
        have less := decreases s event next start internal stepped
        obtain ⟨events, final, allInternal, ran, ends⟩ :=
          ih (work next) (by omega) next (keeps s event next start stepped) rfl
        refine ⟨event :: events, final, ?_, ?_, ends⟩
        · simpa using And.intro internal allInternal
        · rw [run_cons_of_step m s next event events stepped, ran]

end Progress

end Toolbox8.Base
