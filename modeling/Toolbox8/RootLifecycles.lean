import Toolbox8.RootContext
import Mathlib.Data.List.Nodup

set_option autoImplicit false

namespace Toolbox8.RootContext

open Base

-- Every Plugged that was ever in holder, the present one last.
def Shared.placed (s : Shared) : List Plugged := s.replaced.map Prod.snd ++ [s.holder.plugged]

def Phase.new : Phase → Option Plugged
  | .replacing _ new => some new.plugged
  | _ => none

structure Placing (s : System) : Prop where
  distinct : s.placed.Nodup
  known : ∀ p ∈ s.placed, p ∈ s.made
  fresh : ∀ r p, (s.phases r).new = some p → p ∈ s.made ∧ p ∉ s.placed
  apart : ∀ r other p, (s.phases r).new = some p → (s.phases other).new = some p → r = other

section Placing

variable (s : System) (r : Nat)

theorem placing_frame (shared : Shared) (phase : Phase) (placing : Placing s) (placed : shared.placed = s.placed)
    (made : shared.made = s.made) (new : phase.new = none) : Placing ⟨shared, Function.update s.phases r phase⟩ := by
  have known : ∀ other p, (Function.update s.phases r phase other).new = some p → (s.phases other).new = some p := by
    intro other p
    by_cases here : other = r
    · subst here
      simp [new]
    · simp [Function.update_of_ne here]
  refine ⟨?_, ?_, ?_, ?_⟩
  · simpa only [placed] using placing.distinct
  · simpa only [placed, made] using placing.known
  · intro other p holds
    simpa only [placed, made] using placing.fresh other p (known other p holds)
  · intro one two p first second
    exact placing.apart one two p (known one p first) (known two p second)

theorem plug_placing (phase : Phase) (plugged : Plugged) (placing : Placing s) (isFresh : Fresh s.toShared plugged)
    (new : phase.new = some plugged) :
    Placing ⟨{ s.toShared with made := plugged :: s.made }, Function.update s.phases r phase⟩ := by
  have own : ∀ p, (Function.update s.phases r phase r).new = some p → p = plugged := by
    intro p
    simp [new, eq_comm]
  have below : ∀ other p, other ≠ r → (Function.update s.phases r phase other).new = some p →
      (s.phases other).new = some p := by
    intro other p different
    simp [Function.update_of_ne different]
  have unmade : ∀ other, (s.phases other).new ≠ some plugged :=
    fun other holds => absurd (placing.fresh other _ holds).1 isFresh
  refine ⟨placing.distinct, fun p member => List.mem_cons_of_mem _ (placing.known p member), ?_, ?_⟩
  · intro other p holds
    rcases eq_or_ne other r with rfl | here
    · obtain rfl := own p holds
      exact ⟨List.mem_cons_self, fun member => absurd (placing.known _ member) isFresh⟩
    · obtain ⟨made, absent⟩ := placing.fresh other p (below other p here holds)
      exact ⟨List.mem_cons_of_mem _ made, absent⟩
  · intro one two p first second
    rcases eq_or_ne one r with rfl | oneOther
    · obtain rfl := own p first
      by_contra different
      exact unmade two (below two _ (Ne.symm different) second)
    · rcases eq_or_ne two r with rfl | twoOther
      · obtain rfl := own p second
        exact absurd (below one _ oneOther first) (unmade one)
      · exact placing.apart one two p (below one p oneOther first) (below two p twoOther second)

theorem replace_placing (old : Option PluggedConfig) (new : PluggedConfig) (phase : Phase) (placing : Placing s)
    (here : s.phases r = .replacing old new) (moves : phase.new = none) :
    Placing ⟨{ s.toShared with holder := new, replaced := s.replaced ++ [(r, s.holder.plugged)] },
      Function.update s.phases r phase⟩ := by
  obtain ⟨made, absent⟩ := placing.fresh r new.plugged (by rw [here]; rfl)
  have placed : Shared.placed { s.toShared with holder := new, replaced := s.replaced ++ [(r, s.holder.plugged)] } =
      s.placed ++ [new.plugged] := by simp [Shared.placed]
  have known : ∀ other p, (Function.update s.phases r phase other).new = some p → (s.phases other).new = some p ∧ other ≠ r := by
    intro other p
    by_cases same : other = r
    · subst same
      simp [moves]
    · simp [same]
  refine ⟨?_, ?_, ?_, ?_⟩
  · rw [placed]
    exact placing.distinct.append (List.nodup_singleton _) (by simpa using absent)
  · intro p member
    rw [placed, List.mem_append, List.mem_singleton] at member
    rcases member with old | rfl
    · exact placing.known p old
    · exact made
  · intro other p holds
    obtain ⟨before, different⟩ := known other p holds
    obtain ⟨madeOther, absentOther⟩ := placing.fresh other p before
    refine ⟨madeOther, ?_⟩
    rw [placed, List.mem_append, List.mem_singleton]
    rintro (member | rfl)
    · exact absentOther member
    · exact different (placing.apart other r new.plugged before (by rw [here]; rfl))
  · intro one two p first second
    exact placing.apart one two p (known one p first).1 (known two p second).1

end Placing

theorem kind_phases_new (kind : Kind) (old : PluggedConfig) :
    kind.start.new = none ∧ (kind.stopped old).new = none ∧ (kind.swapped old).new = none := by
  cases kind <;> exact ⟨rfl, rfl, rfl⟩

theorem step_placing (kinds : Nat → Kind) (s : System) (event : Event) (next : System) (placing : Placing s)
    (stepped : step kinds s event = some next) : Placing next := by
  obtain ⟨r, action⟩ := event
  obtain ⟨shared, phase, moved, rfl⟩ := step_moved kinds s next ⟨r, action⟩ stepped
  simp only at moved ⊢
  generalize here : s.phases r = before at moved
  cases moved with
  | begin => exact placing_frame s r _ _ placing rfl rfl (kind_phases_new (kinds r) s.holder).1
  | get => exact placing_frame s r _ _ placing rfl rfl rfl
  | stop old => exact placing_frame s r _ _ placing rfl rfl (kind_phases_new (kinds r) old).2.1
  | read old clc => exact placing_frame s r _ _ placing rfl rfl rfl
  | load old clc cl => exact placing_frame s r _ _ placing rfl rfl rfl
  | plug old clc cl plugged fresh => exact plug_placing s r _ plugged placing fresh rfl
  | replace old new => exact replace_placing s r old new _ placing here (kind_phases_new (kinds r) s.holder).2.2
  | readHolder => exact placing_frame s r _ _ placing rfl rfl rfl
  | write clc => exact placing_frame s r _ _ placing rfl rfl rfl
  | fail phase torn swapped file fails => exact placing_frame s r _ _ placing rfl rfl rfl

theorem initial_placing (kinds : Nat → Kind) (root : PluggedConfig) (file : Option ClassLoaderConfig) :
    Placing (requests kinds root file).initial := by
  refine ⟨by simp [requests, Shared.placed], by simp [requests, Shared.placed], ?_, ?_⟩ <;>
    simp [requests, Phase.new]

theorem step_grows (kinds : Nat → Kind) (s : System) (event : Event) (next : System) (stepped : step kinds s event = some next) :
    s.replaced ⊆ next.replaced ∧ s.stops ⊆ next.stops ∧ s.placed ⊆ next.placed := by
  obtain ⟨shared, phase, moved, rfl⟩ := step_moved kinds s next event stepped
  generalize s.phases event.request = before at moved
  generalize event.action = action at moved
  cases moved <;> simp [Shared.placed]

theorem run_grows (kinds : Nat → Kind) (root : PluggedConfig) (file : Option ClassLoaderConfig) (events : List Event)
    (s final : System) (ran : (requests kinds root file).run s events = some final) :
    s.replaced ⊆ final.replaced ∧ s.stops ⊆ final.stops ∧ s.placed ⊆ final.placed := by
  refine run_keeps _ (fun later => s.replaced ⊆ later.replaced ∧ s.stops ⊆ later.stops ∧ s.placed ⊆ later.placed)
    (fun middle event next grown stepped => ?_) s final events ⟨fun _ => id, fun _ => id, fun _ => id⟩ ran
  obtain ⟨replaced, stops, placed⟩ := step_grows kinds middle event next stepped
  exact ⟨List.Subset.trans grown.1 replaced, List.Subset.trans grown.2.1 stops, List.Subset.trans grown.2.2 placed⟩

-- A step that is not its request's replace or stop, by what these leave in replaced and stops.
theorem step_marks (kinds : Nat → Kind) (s : System) (event : Event) (next : System) (stepped : step kinds s event = some next) :
    (next.holder = s.holder ∨ event.request ∈ next.replaced.map Prod.fst) ∧
      (next.stops = s.stops ∨ event.request ∈ next.stops.map Prod.fst) := by
  obtain ⟨shared, phase, moved, rfl⟩ := step_moved kinds s next event stepped
  generalize s.phases event.request = before at moved
  generalize event.action = action at moved
  cases moved <;> simp

theorem reachable_placing (kinds : Nat → Kind) (root : PluggedConfig) (file : Option ClassLoaderConfig) (s : System)
    (reached : (requests kinds root file).Reachable s) : Placing s :=
  reachable_keeps _ Placing (initial_placing kinds root file) (step_placing kinds) s reached

section ReplaceFirst

-- The Plugged that a replace-first request has taken out of holder and has to stop.
def Phase.owes : Phase → Option Plugged
  | .stopping old => some old.plugged
  | _ => none

def Phase.hasSwapped : Phase → Bool
  | .stopping _ => true
  | .persisting => true
  | .writing _ => true
  | .done => true
  | .failed swapped => swapped
  | _ => false

-- What a request has taken out of holder is its own to stop.
structure Owned (s : System) : Prop where
  stopped : ∀ x ∈ s.stops, x ∈ s.replaced
  covered : ∀ x ∈ s.replaced, x ∈ s.stops ∨ (s.phases x.1).owes = some x.2
  owed : ∀ r p, (s.phases r).owes = some p → (r, p) ∈ s.replaced ∧ (r, p) ∉ s.stops
  once : s.stops.Nodup
  swapped : ∀ x ∈ s.replaced, (s.phases x.1).hasSwapped = true
  direct : ∀ r, s.phases r ≠ .getting

variable (s : System) (r : Nat)

theorem update_direct (phase : Phase) (before : ∀ other, s.phases other ≠ .getting) (direct : phase ≠ .getting) :
    ∀ other, Function.update s.phases r phase other ≠ .getting :=
  (Function.forall_update_iff s.phases fun _ here => here ≠ .getting).mpr ⟨direct, fun other _ => before other⟩

theorem owned_frame (shared : Shared) (phase : Phase) (owned : Owned s) (replaced : shared.replaced = s.replaced)
    (stops : shared.stops = s.stops) (owes : phase.owes = none) (owed : (s.phases r).owes = none)
    (swapped : (s.phases r).hasSwapped = true → phase.hasSwapped = true) (direct : phase ≠ .getting) :
    Owned ⟨shared, Function.update s.phases r phase⟩ := by
  have same : ∀ other, (Function.update s.phases r phase other).owes = (s.phases other).owes := by
    intro other
    rcases eq_or_ne other r with rfl | different
    · simp [owes, owed]
    · simp [Function.update_of_ne different]
  refine ⟨?_, ?_, ?_, ?_, ?_, update_direct s r phase owned.direct direct⟩
  · simpa only [replaced, stops] using owned.stopped
  · simpa only [replaced, stops, same] using owned.covered
  · simpa only [replaced, stops, same] using owned.owed
  · simpa only [stops] using owned.once
  · intro x member
    have before := owned.swapped x (by simpa only [replaced] using member)
    exact update_phase (fun here => here.hasSwapped = true) s.phases r x.1 phase (fun same => swapped (same ▸ before))
      (fun _ => before)

theorem stop_owned (old : PluggedConfig) (owned : Owned s) (here : s.phases r = .stopping old) :
    Owned ⟨{ s.toShared with stops := s.stops ++ [(r, old.plugged)] }, Function.update s.phases r .persisting⟩ := by
  obtain ⟨replaced, unstopped⟩ := owned.owed r old.plugged (by rw [here]; rfl)
  refine ⟨?_, ?_, ?_, ?_, ?_, update_direct s r _ owned.direct (by simp)⟩
  · intro x member
    rcases List.mem_append.mp member with before | last
    · exact owned.stopped x before
    · rwa [List.mem_singleton.mp last]
  · intro x member
    rcases owned.covered x member with before | owes
    · exact .inl (List.mem_append_left _ before)
    · rcases eq_or_ne x.1 r with same | different
      · rw [same, here] at owes
        refine .inl (List.mem_append_right _ (List.mem_singleton.mpr ?_))
        exact Prod.ext same (Option.some.inj owes).symm
      · exact .inr (by simpa [Function.update_of_ne different] using owes)
  · intro other p owes
    rcases eq_or_ne other r with rfl | different
    · simp [Phase.owes] at owes
    · obtain ⟨member, absent⟩ := owned.owed other p (by simpa [Function.update_of_ne different] using owes)
      exact ⟨member, by simp [absent, different]⟩
  · exact owned.once.append (List.nodup_singleton _) (by simpa using unstopped)
  · exact fun x member => update_phase (fun here => here.hasSwapped = true) s.phases r x.1 .persisting (fun _ => rfl)
      (fun _ => owned.swapped x member)

theorem replace_owned (old : Option PluggedConfig) (new : PluggedConfig) (owned : Owned s)
    (here : s.phases r = .replacing old new) :
    Owned ⟨{ s.toShared with holder := new, replaced := s.replaced ++ [(r, s.holder.plugged)] },
      Function.update s.phases r (.stopping s.holder)⟩ := by
  have unswapped : ∀ x ∈ s.replaced, x.1 ≠ r := by
    intro x member same
    have swapped := owned.swapped x member
    simp [same, here, Phase.hasSwapped] at swapped
  refine ⟨?_, ?_, ?_, owned.once, ?_, update_direct s r _ owned.direct (by simp)⟩
  · exact fun x member => List.mem_append_left _ (owned.stopped x member)
  · intro x member
    rcases List.mem_append.mp member with before | last
    · rcases owned.covered x before with stopped | owes
      · exact .inl stopped
      · exact .inr (by simpa [Function.update_of_ne (unswapped x before)] using owes)
    · obtain rfl := List.mem_singleton.mp last
      exact .inr (by simp [Phase.owes])
  · intro other p owes
    rcases eq_or_ne other r with rfl | different
    · obtain rfl : s.holder.plugged = p := by simpa [Phase.owes] using owes
      exact ⟨by simp, fun stopped => unswapped _ (owned.stopped _ stopped) rfl⟩
    · obtain ⟨member, absent⟩ := owned.owed other p (by simpa [Function.update_of_ne different] using owes)
      exact ⟨List.mem_append_left _ member, absent⟩
  · intro x member
    refine update_phase (fun here => here.hasSwapped = true) s.phases r x.1 (.stopping s.holder) (fun _ => rfl) (fun different => ?_)
    rcases List.mem_append.mp member with before | last
    · exact owned.swapped x before
    · exact absurd (congrArg Prod.fst (List.mem_singleton.mp last)) different

end ReplaceFirst

theorem fails_swapped (phase : Phase) (swapped : Bool) (fails : phase.fails = some swapped) :
    phase.owes = none ∧ (phase.hasSwapped = true → (Phase.failed swapped).hasSwapped = true) := by
  cases phase <;> simp_all [Phase.fails, Phase.owes, Phase.hasSwapped]

theorem step_owned (s : System) (event : Event) (next : System) (owned : Owned s)
    (stepped : step (fun _ => .replaceFirst) s event = some next) : Owned next := by
  obtain ⟨r, action⟩ := event
  obtain ⟨shared, phase, moved, rfl⟩ := step_moved (fun _ => .replaceFirst) s next ⟨r, action⟩ stepped
  simp only at moved ⊢
  generalize here : s.phases r = before at moved
  cases moved with
  | stop old => exact stop_owned s r old owned here
  | replace old new => exact replace_owned s r old new owned here
  | get => exact absurd here (owned.direct r)
  | fail phase torn swapped file fails =>
      obtain ⟨unowing, kept⟩ := fails_swapped before swapped fails
      exact owned_frame s r _ _ owned rfl rfl rfl (here ▸ unowing) (here ▸ kept) (by simp)
  | _ => refine owned_frame s r _ _ owned rfl rfl rfl ?_ ?_ ?_ <;> simp [here, Phase.owes, Phase.hasSwapped, Kind.start]

theorem reachable_owned (root : PluggedConfig) (file : Option ClassLoaderConfig) (s : System)
    (reached : (requests (fun _ => .replaceFirst) root file).Reachable s) : Owned s := by
  refine reachable_keeps _ Owned ?_ step_owned s reached
  refine ⟨?_, ?_, ?_, ?_, ?_, ?_⟩ <;> simp [requests, Phase.owes]

theorem stops_distinct (s : System) (placing : Placing s) (stopped : ∀ x ∈ s.stops, x ∈ s.replaced) (once : s.stops.Nodup) :
    (s.stops.map Prod.snd).Nodup := by
  have replaced : (s.replaced.map Prod.snd).Nodup := placing.distinct.of_append_left
  refine once.map_on (fun x first y second same => ?_)
  exact List.inj_on_of_nodup_map replaced (stopped x first) (stopped y second) same

theorem holder_unstopped (s : System) (placing : Placing s) (stopped : ∀ x ∈ s.stops, x ∈ s.replaced) :
    s.holder.plugged ∉ s.stops.map Prod.snd := by
  intro member
  obtain ⟨x, isStop, same⟩ := List.mem_map.mp member
  have replaced : s.holder.plugged ∈ s.replaced.map Prod.snd := List.mem_map.mpr ⟨x, stopped x isStop, same⟩
  exact List.disjoint_of_nodup_append placing.distinct replaced (List.mem_singleton_self _)

theorem quiet_stopped (s : System) (owned : Owned s) (quiet : Quiet s) (p : Plugged) (placed : p ∈ s.placed)
    (unstopped : p ∉ s.stops.map Prod.snd) : p = s.holder.plugged := by
  rcases List.mem_append.mp placed with member | last
  · obtain ⟨x, replaced, rfl⟩ := List.mem_map.mp member
    rcases owned.covered x replaced with stopped | owes
    · exact absurd (List.mem_map_of_mem stopped) unstopped
    · have idle := quiet x.1
      cases phase : s.phases x.1 <;> simp [phase, Phase.owes, Phase.active] at owes idle
  · exact List.mem_singleton.mp last

theorem owned_failed (s : System) (owned : Owned s) (r : Nat) (failed : s.phases r = .failed false) :
    r ∉ s.replaced.map Prod.fst ∧ r ∉ s.stops.map Prod.fst := by
  have unreplaced : r ∉ s.replaced.map Prod.fst := by
    intro member
    obtain ⟨x, replaced, rfl⟩ := List.mem_map.mp member
    have swapped := owned.swapped x replaced
    simp [failed, Phase.hasSwapped] at swapped
  refine ⟨unreplaced, fun member => unreplaced ?_⟩
  obtain ⟨x, stopped, rfl⟩ := List.mem_map.mp member
  exact List.mem_map_of_mem (owned.stopped x stopped)

-- No step of the request in the run has changed holder or stopped anything.
def KeepsRoot (m : Machine System Event) (events : List Event) (r : Nat) : Prop :=
  ∀ front event back before after, events = front ++ event :: back → event.request = r →
    m.run m.initial front = some before → m.step before event = some after →
    after.holder = before.holder ∧ after.stops = before.stops

theorem failed_keeps_root (root : PluggedConfig) (file : Option ClassLoaderConfig) (events : List Event) (s : System)
    (ran : (requests (fun _ => .replaceFirst) root file).run (requests (fun _ => .replaceFirst) root file).initial events = some s)
    (r : Nat) (failed : s.phases r = .failed false) : KeepsRoot (requests (fun _ => .replaceFirst) root file) events r := by
  rintro front event back before after rfl rfl prior stepped
  obtain ⟨unreplaced, unstopped⟩ := owned_failed s (reachable_owned root file s ⟨_, ran⟩) event.request failed
  rw [run_append, prior, Option.bind_some, run_cons, stepped, Option.bind_some] at ran
  obtain ⟨replaced, stops, _⟩ := run_grows _ root file back after s ran
  obtain ⟨holder, stopped⟩ := step_marks (fun _ => .replaceFirst) before event after stepped
  constructor
  · exact holder.resolve_right (fun member => unreplaced (List.map_subset Prod.fst replaced member))
  · exact stopped.resolve_right (fun member => unstopped (List.map_subset Prod.fst stops member))

def WasInHolder (m : Machine System Event) (events : List Event) (p : Plugged) : Prop :=
  ∃ front back before, events = front ++ back ∧ m.run m.initial front = some before ∧ before.holder.plugged = p

structure Lifecycles (m : Machine System Event) (events : List Event) (s : System) : Prop where
  keeps : ∀ r, s.phases r = .failed false → KeepsRoot m events r
  once : (s.stops.map Prod.snd).Nodup
  runs : s.holder.plugged ∉ s.stops.map Prod.snd
  sole : Quiet s → ∀ p, WasInHolder m events p → p ∉ s.stops.map Prod.snd → p = s.holder.plugged

theorem was_in_holder_placed (kinds : Nat → Kind) (root : PluggedConfig) (file : Option ClassLoaderConfig) (events : List Event)
    (s : System) (ran : (requests kinds root file).run (requests kinds root file).initial events = some s) (p : Plugged)
    (was : WasInHolder (requests kinds root file) events p) : p ∈ s.placed := by
  obtain ⟨front, back, before, rfl, prior, rfl⟩ := was
  rw [run_append, prior, Option.bind_some] at ran
  refine (run_grows kinds root file back before s ran).2.2 ?_
  simp [Shared.placed]

-- In every run of replace-first requests, over all their interleavings and failures.
theorem replace_first_lifecycles (root : PluggedConfig) (file : Option ClassLoaderConfig) (events : List Event) (s : System)
    (ran : (requests (fun _ => .replaceFirst) root file).run (requests (fun _ => .replaceFirst) root file).initial events = some s) :
    Lifecycles (requests (fun _ => .replaceFirst) root file) events s := by
  have owned := reachable_owned root file s ⟨events, ran⟩
  have placing := reachable_placing (fun _ => .replaceFirst) root file s ⟨events, ran⟩
  refine ⟨failed_keeps_root root file events s ran, stops_distinct s placing owned.stopped owned.once,
    holder_unstopped s placing owned.stopped, ?_⟩
  intro quiet p was
  exact quiet_stopped s owned quiet p (was_in_holder_placed (fun _ => .replaceFirst) root file events s ran p was)

-- Request 1 loads its class loader before request 2 replaces the root, and fails after it.
def failingBeside (clc : ClassLoaderConfig) : List Event :=
  [⟨1, .begin⟩, ⟨1, .read clc⟩, ⟨1, .load 1⟩, ⟨2, .begin⟩, ⟨2, .read clc⟩, ⟨2, .load 2⟩, ⟨2, .plug 1⟩, ⟨2, .replace⟩,
   ⟨1, .fail false⟩, ⟨2, .stop⟩, ⟨2, .readHolder⟩, ⟨2, .fail true⟩]

theorem replace_first_lifecycles_beside :
    ∃ s, (requests (fun _ => .replaceFirst) ⟨0, 0, ⟨[], "old"⟩⟩ none).run
        (requests (fun _ => .replaceFirst) ⟨0, 0, ⟨[], "old"⟩⟩ none).initial (failingBeside ⟨[], "new"⟩) = some s ∧
      s.phases 1 = .failed false ∧ s.phases 2 = .failed true ∧ s.holder.plugged = 1 ∧ s.stops = [(2, 0)] ∧
      Lifecycles (requests (fun _ => .replaceFirst) ⟨0, 0, ⟨[], "old"⟩⟩ none) (failingBeside ⟨[], "new"⟩) s := by
  have ends : ((requests (fun _ => .replaceFirst) ⟨0, 0, ⟨[], "old"⟩⟩ none).run
        (requests (fun _ => .replaceFirst) ⟨0, 0, ⟨[], "old"⟩⟩ none).initial (failingBeside ⟨[], "new"⟩)).map
        (fun s => (s.phases 1, s.phases 2, s.holder.plugged, s.stops)) =
      some (.failed false, .failed true, 1, [(2, 0)]) := by
    decide +kernel
  simp only [Option.map_eq_some_iff, Prod.mk.injEq] at ends
  obtain ⟨s, ran, one, two, holder, stops⟩ := ends
  exact ⟨s, ran, one, two, holder, stops, replace_first_lifecycles _ none _ s ran⟩

end Toolbox8.RootContext
