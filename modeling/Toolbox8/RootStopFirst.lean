import Toolbox8.RootLifecycles

set_option autoImplicit false

namespace Toolbox8.RootContext

open Base

-- The oldPlugged of an execution that has stopped it and has not set the new root yet.
def Phase.got : Phase → Option (Option PluggedConfig)
  | .reading old => some old
  | .loading old _ => some old
  | .plugging old _ _ => some old
  | .replacing old _ => some old
  | _ => none

def Phase.spent (phase : Phase) : Option Plugged := phase.got.bind (Option.map PluggedConfig.plugged)

def Phase.mayHaveStopped : Phase → Bool
  | .idle => false
  | .getting => false
  | .stopping _ => false
  | _ => true

def Phase.hasSet : Phase → Bool
  | .persisting => true
  | .writing _ => true
  | .done => true
  | .failed swapped => swapped
  | _ => false

-- What holds in every run of stop-first requests.
structure Stopping (s : System) : Prop where
  direct : ∀ r, (s.phases r).got ≠ some none
  gets : ∀ r old, s.phases r = .stopping old → old.plugged ∈ s.placed
  known : ∀ x ∈ s.stops, x.2 ∈ s.placed
  single : (s.stops.map Prod.fst).Nodup
  begun : ∀ x ∈ s.stops, (s.phases x.1).mayHaveStopped = true
  spent : ∀ r p, (s.phases r).spent = some p → (r, p) ∈ s.stops
  sets : (s.replaced.map Prod.fst).Nodup
  set : ∀ x ∈ s.replaced, (s.phases x.1).hasSet = true ∧ x.1 ∈ s.stops.map Prod.fst

section Stopping

variable (s : System) (r : Nat)

theorem stopping_frame (shared : Shared) (phase : Phase) (stopping : Stopping s) (replaced : shared.replaced = s.replaced)
    (stops : shared.stops = s.stops) (placed : shared.placed = s.placed) (direct : phase.got ≠ some none)
    (gets : ∀ old, phase = .stopping old → old.plugged ∈ s.placed)
    (spent : ∀ p, phase.spent = some p → (s.phases r).spent = some p)
    (begun : (s.phases r).mayHaveStopped = true → phase.mayHaveStopped = true)
    (set : (s.phases r).hasSet = true → phase.hasSet = true) : Stopping ⟨shared, Function.update s.phases r phase⟩ := by
  refine ⟨?_, ?_, ?_, ?_, ?_, ?_, ?_, ?_⟩
  · exact (Function.forall_update_iff s.phases fun _ here => here.got ≠ some none).mpr
      ⟨direct, fun other _ => stopping.direct other⟩
  · rw [placed]
    exact (Function.forall_update_iff s.phases fun _ here => ∀ old, here = .stopping old → old.plugged ∈ s.placed).mpr
      ⟨gets, fun other _ => stopping.gets other⟩
  · simpa only [stops, placed] using stopping.known
  · simpa only [stops] using stopping.single
  · rw [stops]
    intro x member
    have before := stopping.begun x member
    exact update_phase (fun here => here.mayHaveStopped = true) s.phases r x.1 phase (fun same => begun (same ▸ before))
      (fun _ => before)
  · rw [stops]
    exact (Function.forall_update_iff s.phases fun other here => ∀ p, here.spent = some p → (other, p) ∈ s.stops).mpr
      ⟨fun p holds => stopping.spent r p (spent p holds), fun other _ => stopping.spent other⟩
  · simpa only [replaced] using stopping.sets
  · rw [replaced, stops]
    intro x member
    obtain ⟨before, stopped⟩ := stopping.set x member
    exact ⟨update_phase (fun here => here.hasSet = true) s.phases r x.1 phase (fun same => set (same ▸ before))
      (fun _ => before), stopped⟩

theorem unstopped (stopping : Stopping s) (early : (s.phases r).mayHaveStopped = false) : r ∉ s.stops.map Prod.fst := by
  intro member
  obtain ⟨x, stopped, rfl⟩ := List.mem_map.mp member
  simp [stopping.begun x stopped] at early

theorem unset (stopping : Stopping s) (early : (s.phases r).hasSet = false) : r ∉ s.replaced.map Prod.fst := by
  intro member
  obtain ⟨x, replaced, rfl⟩ := List.mem_map.mp member
  simp [(stopping.set x replaced).1] at early

theorem stop_stopping (old : PluggedConfig) (stopping : Stopping s) (here : s.phases r = .stopping old) :
    Stopping ⟨{ s.toShared with stops := s.stops ++ [(r, old.plugged)] }, Function.update s.phases r (.reading (some old))⟩ := by
  have fresh := unstopped s r stopping (by rw [here]; rfl)
  refine ⟨?_, ?_, ?_, ?_, ?_, ?_, stopping.sets, ?_⟩
  · exact (Function.forall_update_iff s.phases fun _ here => here.got ≠ some none).mpr
      ⟨by simp [Phase.got], fun other _ => stopping.direct other⟩
  · exact (Function.forall_update_iff s.phases fun _ here => ∀ old, here = .stopping old → old.plugged ∈ s.placed).mpr
      ⟨by simp, fun other _ => stopping.gets other⟩
  · intro x member
    rcases List.mem_append.mp member with before | last
    · exact stopping.known x before
    · obtain rfl := List.mem_singleton.mp last
      exact stopping.gets r old here
  · simpa using stopping.single.append (List.nodup_singleton r) (by simpa using fresh)
  · intro x member
    refine update_phase (fun here => here.mayHaveStopped = true) s.phases r x.1 (.reading (some old)) (fun _ => rfl)
      (fun different => ?_)
    rcases List.mem_append.mp member with before | last
    · exact stopping.begun x before
    · exact absurd (congrArg Prod.fst (List.mem_singleton.mp last)) different
  · refine (Function.forall_update_iff s.phases fun other here => ∀ p, here.spent = some p →
      (other, p) ∈ s.stops ++ [(r, old.plugged)]).mpr ⟨?_, fun other _ p holds => ?_⟩
    · intro p holds
      obtain rfl : old.plugged = p := by simpa [Phase.spent, Phase.got] using holds
      simp
    · exact List.mem_append_left _ (stopping.spent other p holds)
  · intro x member
    obtain ⟨set, stopped⟩ := stopping.set x member
    have different : x.1 ≠ r := by
      intro same
      simp [same, here, Phase.hasSet] at set
    refine ⟨by simpa [Function.update_of_ne different] using set, ?_⟩
    rw [List.map_append]
    exact List.mem_append_left _ stopped

theorem replace_stopping (old : Option PluggedConfig) (new : PluggedConfig) (stopping : Stopping s)
    (here : s.phases r = .replacing old new) :
    Stopping ⟨{ s.toShared with holder := new, replaced := s.replaced ++ [(r, s.holder.plugged)] },
      Function.update s.phases r .persisting⟩ := by
  have placed : s.placed ⊆ Shared.placed { s.toShared with holder := new, replaced := s.replaced ++ [(r, s.holder.plugged)] } := by
    simp [Shared.placed]
  have fresh := unset s r stopping (by rw [here]; rfl)
  have own : r ∈ s.stops.map Prod.fst := by
    cases old with
    | none => exact absurd (by rw [here]; rfl) (stopping.direct r)
    | some old => exact List.mem_map_of_mem (stopping.spent r old.plugged (by rw [here]; rfl))
  refine ⟨?_, ?_, ?_, stopping.single, ?_, ?_, ?_, ?_⟩
  · exact (Function.forall_update_iff s.phases fun _ here => here.got ≠ some none).mpr
      ⟨by simp [Phase.got], fun other _ => stopping.direct other⟩
  · exact (Function.forall_update_iff s.phases fun _ here => ∀ old, here = .stopping old → old.plugged ∈ _).mpr
      ⟨by simp, fun other _ old holds => placed (stopping.gets other old holds)⟩
  · exact fun x member => placed (stopping.known x member)
  · exact fun x member => update_phase (fun here => here.mayHaveStopped = true) s.phases r x.1 .persisting (fun _ => rfl)
      (fun _ => stopping.begun x member)
  · exact (Function.forall_update_iff s.phases fun other here => ∀ p, here.spent = some p → (other, p) ∈ s.stops).mpr
      ⟨by simp [Phase.spent, Phase.got], fun other _ => stopping.spent other⟩
  · simpa using stopping.sets.append (List.nodup_singleton r) (by simpa using fresh)
  · intro x member
    rcases eq_or_ne x.1 r with same | different
    · exact ⟨by simp [same, Phase.hasSet], same ▸ own⟩
    · rcases List.mem_append.mp member with before | last
      · simpa [Function.update_of_ne different] using stopping.set x before
      · exact absurd (congrArg Prod.fst (List.mem_singleton.mp last)) different

end Stopping

theorem fails_stopping (phase : Phase) (swapped : Bool) (fails : phase.fails = some swapped) :
    phase.hasSet = true → (Phase.failed swapped).hasSet = true := by
  cases phase <;> simp_all [Phase.fails, Phase.hasSet]

theorem step_stopping (s : System) (event : Event) (next : System) (stopping : Stopping s)
    (stepped : step (fun _ => .stopFirst) s event = some next) : Stopping next := by
  obtain ⟨r, action⟩ := event
  obtain ⟨shared, phase, moved, rfl⟩ := step_moved (fun _ => .stopFirst) s next ⟨r, action⟩ stepped
  simp only at moved ⊢
  generalize here : s.phases r = before at moved
  have direct := here ▸ stopping.direct r
  cases moved with
  | stop old => exact stop_stopping s r old stopping here
  | replace old new => exact replace_stopping s r old new stopping here
  | get =>
      refine stopping_frame s r _ _ stopping rfl rfl rfl (by simp [Phase.got]) ?_ (by simp [Phase.spent, Phase.got]) ?_ ?_
      · intro old same
        obtain rfl := Phase.stopping.inj same
        simp [Shared.placed]
      · simp [here, Phase.mayHaveStopped]
      · simp [here, Phase.hasSet]
  | fail phase torn swapped file fails =>
      refine stopping_frame s r _ _ stopping rfl rfl rfl (by simp [Phase.got]) (by simp) (by simp [Phase.spent, Phase.got])
        (fun _ => rfl) ?_
      exact here ▸ fails_stopping before swapped fails
  | _ =>
      refine stopping_frame s r _ _ stopping rfl rfl rfl ?_ ?_ ?_ ?_ ?_ <;>
        simp_all [Phase.got, Phase.spent, Phase.mayHaveStopped, Phase.hasSet, Kind.start]

theorem initial_stopping (root : PluggedConfig) (file : Option ClassLoaderConfig) :
    Stopping (requests (fun _ => .stopFirst) root file).initial := by
  refine ⟨?_, ?_, ?_, ?_, ?_, ?_, ?_, ?_⟩ <;> simp [requests, Phase.got, Phase.spent]

-- No request fails between its stop and its set, and every request finds in holder the root that it has stopped.
def Exclusive (s : System) (event : Event) : Prop :=
  match event.action with
  | .fail _ => (s.phases event.request).spent = none
  | .replace => ∀ p, (s.phases event.request).spent = some p → s.holder.plugged = p
  | _ => True

structure Orderly (s : System) : Prop where
  owed : ∀ x ∈ s.stops, (s.phases x.1).spent = some x.2 ∨ x ∈ s.replaced
  stopped : ∀ x ∈ s.replaced, x ∈ s.stops

-- What remains of the first step that is not exclusive.
def Botched (s : System) : Prop := ¬ (s.stops.map Prod.snd).Nodup ∨ ∃ x ∈ s.stops, s.phases x.1 = .failed false

section Orderly

variable (s : System) (r : Nat)

theorem orderly_frame (shared : Shared) (phase : Phase) (orderly : Orderly s) (replaced : shared.replaced = s.replaced)
    (stops : shared.stops = s.stops) (spent : ∀ p, (s.phases r).spent = some p → phase.spent = some p) :
    Orderly ⟨shared, Function.update s.phases r phase⟩ := by
  constructor
  · rw [replaced, stops]
    intro x member
    rcases orderly.owed x member with owed | done
    · rcases eq_or_ne x.1 r with same | different
      · exact .inl (by simpa [same] using spent x.2 (same ▸ owed))
      · exact .inl (by simpa [Function.update_of_ne different] using owed)
    · exact .inr done
  · simpa only [replaced, stops] using orderly.stopped

theorem stop_orderly (old : PluggedConfig) (stopping : Stopping s) (orderly : Orderly s) (here : s.phases r = .stopping old) :
    Orderly ⟨{ s.toShared with stops := s.stops ++ [(r, old.plugged)] }, Function.update s.phases r (.reading (some old))⟩ := by
  have fresh := unstopped s r stopping (by rw [here]; rfl)
  refine ⟨?_, fun x member => List.mem_append_left _ (orderly.stopped x member)⟩
  intro x member
  rcases List.mem_append.mp member with before | last
  · have different : x.1 ≠ r := fun same => fresh (same ▸ List.mem_map_of_mem before)
    simpa [Function.update_of_ne different] using orderly.owed x before
  · obtain rfl := List.mem_singleton.mp last
    exact .inl (by simp [Phase.spent, Phase.got])

theorem replace_orderly (old : Option PluggedConfig) (new : PluggedConfig) (stopping : Stopping s) (orderly : Orderly s)
    (here : s.phases r = .replacing old new) (own : ∀ p, (s.phases r).spent = some p → s.holder.plugged = p) :
    Orderly ⟨{ s.toShared with holder := new, replaced := s.replaced ++ [(r, s.holder.plugged)] },
      Function.update s.phases r .persisting⟩ := by
  obtain ⟨p, spent⟩ : ∃ p, (s.phases r).spent = some p := by
    cases old with
    | none => exact absurd (by rw [here]; rfl) (stopping.direct r)
    | some old => exact ⟨old.plugged, by rw [here]; rfl⟩
  have holder := own p spent
  constructor
  · intro x member
    rcases orderly.owed x member with owed | done
    · rcases eq_or_ne x.1 r with same | different
      · obtain rfl : p = x.2 := Option.some.inj (spent.symm.trans (same ▸ owed))
        exact .inr (List.mem_append_right _ (List.mem_singleton.mpr (Prod.ext same holder.symm)))
      · exact .inl (by simpa [Function.update_of_ne different] using owed)
    · exact .inr (List.mem_append_left _ done)
  · intro x member
    rcases List.mem_append.mp member with before | last
    · exact orderly.stopped x before
    · obtain rfl := List.mem_singleton.mp last
      exact holder ▸ stopping.spent r p spent

theorem replace_botched (new : PluggedConfig) (p : Plugged) (stopping : Stopping s) (orderly : Orderly s)
    (unset : (s.phases r).hasSet = false) (spent : (s.phases r).spent = some p) (foreign : s.holder.plugged ≠ p) :
    Botched ⟨{ s.toShared with holder := new, replaced := s.replaced ++ [(r, s.holder.plugged)] },
      Function.update s.phases r .persisting⟩ := by
  refine .inl (fun distinct => ?_)
  have own := stopping.spent r p spent
  rcases List.mem_append.mp (stopping.known (r, p) own) with member | last
  · obtain ⟨x, replaced, same⟩ := List.mem_map.mp member
    have one := List.inj_on_of_nodup_map distinct (orderly.stopped x replaced) own same
    obtain ⟨set, _⟩ := stopping.set x replaced
    simp [one, unset] at set
  · exact foreign (List.mem_singleton.mp last).symm

theorem quiet_working (placing : Placing s) (stopping : Stopping s) (orderly : Orderly s) (quiet : Quiet s) :
    s.holder.plugged ∉ s.stops.map Prod.snd ∧ ∀ x ∈ s.replaced, (s.stops.map Prod.snd).count x.2 = 1 := by
  have replaced : ∀ x ∈ s.stops, x ∈ s.replaced := by
    intro x member
    refine (orderly.owed x member).resolve_left (fun owed => ?_)
    have idle := quiet x.1
    cases phase : s.phases x.1 <;> simp [phase, Phase.spent, Phase.got, Phase.active] at owed idle
  have once := stops_distinct s placing replaced (List.Nodup.of_map _ stopping.single)
  refine ⟨holder_unstopped s placing replaced, fun x member => ?_⟩
  exact List.count_eq_one_of_mem once (List.mem_map_of_mem (orderly.stopped x member))

end Orderly

theorem step_orderly (s : System) (event : Event) (next : System) (stopping : Stopping s) (orderly : Orderly s)
    (exclusive : Exclusive s event) (stepped : step (fun _ => .stopFirst) s event = some next) : Orderly next := by
  obtain ⟨r, action⟩ := event
  obtain ⟨shared, phase, moved, rfl⟩ := step_moved (fun _ => .stopFirst) s next ⟨r, action⟩ stepped
  simp only at moved ⊢
  generalize here : s.phases r = before at moved
  cases moved with
  | stop old => exact stop_orderly s r old stopping orderly here
  | replace old new => exact replace_orderly s r old new stopping orderly here exclusive
  | fail phase torn swapped file fails =>
      refine orderly_frame s r _ _ orderly rfl rfl (fun p spent => ?_)
      rw [show (s.phases r).spent = none from exclusive] at spent
      cases spent
  | _ => exact orderly_frame s r _ _ orderly rfl rfl (by simp [here, Phase.spent, Phase.got])

theorem step_botched (s : System) (event : Event) (next : System) (stopping : Stopping s) (orderly : Orderly s)
    (exclusive : ¬ Exclusive s event) (stepped : step (fun _ => .stopFirst) s event = some next) : Botched next := by
  obtain ⟨r, action⟩ := event
  obtain ⟨shared, phase, moved, rfl⟩ := step_moved (fun _ => .stopFirst) s next ⟨r, action⟩ stepped
  simp only at moved ⊢
  generalize here : s.phases r = before at moved
  cases moved with
  | replace old new =>
      simp only [Exclusive, not_forall] at exclusive
      obtain ⟨p, spent, foreign⟩ := exclusive
      exact replace_botched s r new p stopping orderly (by rw [here]; rfl) spent foreign
  | fail phase torn swapped file fails =>
      obtain ⟨p, spent⟩ := Option.ne_none_iff_exists'.mp exclusive
      refine .inr ⟨(r, p), stopping.spent r p spent, ?_⟩
      have early : swapped = false := by
        cases before <;> simp_all [Phase.fails, Phase.spent, Phase.got]
      simp [early]
  | _ => exact absurd trivial exclusive

theorem botched_stays (s : System) (event : Event) (next : System) (botched : Botched s)
    (stepped : step (fun _ => .stopFirst) s event = some next) : Botched next := by
  have grown := (step_grows (fun _ => .stopFirst) s event next stepped).2.1
  obtain ⟨r, action⟩ := event
  obtain ⟨shared, phase, moved, rfl⟩ := step_moved (fun _ => .stopFirst) s next ⟨r, action⟩ stepped
  simp only at moved grown ⊢
  generalize here : s.phases r = before at moved
  rcases botched with twice | ⟨x, member, failed⟩
  · refine .inl (fun distinct => twice ?_)
    cases moved with
    | stop old =>
        rw [List.map_append] at distinct
        exact distinct.of_append_left
    | _ => exact distinct
  · have different : x.1 ≠ r := by
      intro same
      rw [← same, failed] at here
      subst here
      cases moved with
      | fail phase torn swapped file fails => cases fails
    exact .inr ⟨x, grown member, by simpa [Function.update_of_ne different] using failed⟩

-- The holder's root has not been stopped, and every replaced one has been stopped exactly once.
def WorkingRoot (s : System) : Prop :=
  s.holder.plugged ∉ s.stops.map Prod.snd ∧ ∀ x ∈ s.replaced, (s.stops.map Prod.snd).count x.2 = 1

-- Every stop belongs to a replacement, so there are as many of the ones as of the others.
theorem working_unbotched (s : System) (stopping : Stopping s) (working : WorkingRoot s) : ¬ Botched s := by
  have within : ∀ x ∈ s.stops, x.2 ∈ s.replaced.map Prod.snd := by
    intro x member
    rcases List.mem_append.mp (stopping.known x member) with out | last
    · exact out
    · exact absurd (List.mem_map.mpr ⟨x, member, List.mem_singleton.mp last⟩) working.1
  have once : (s.stops.map Prod.snd).Nodup := by
    rw [List.nodup_iff_count_le_one]
    intro p
    by_cases member : p ∈ s.stops.map Prod.snd
    · obtain ⟨x, stopped, rfl⟩ := List.mem_map.mp member
      obtain ⟨y, replaced, same⟩ := List.mem_map.mp (within x stopped)
      exact Nat.le_of_eq (same ▸ working.2 y replaced)
    · simp [List.count_eq_zero_of_not_mem member]
  have fewer : s.stops.length ≤ s.replaced.length := by
    have subset : s.stops.map Prod.snd ⊆ s.replaced.map Prod.snd := by
      intro p member
      obtain ⟨x, stopped, rfl⟩ := List.mem_map.mp member
      exact within x stopped
    simpa using (List.subperm_of_subset once subset).length_le
  have owners : s.replaced.map Prod.fst ⊆ s.stops.map Prod.fst := by
    intro r member
    obtain ⟨x, replaced, rfl⟩ := List.mem_map.mp member
    exact (stopping.set x replaced).2
  have all : s.stops.map Prod.fst ⊆ s.replaced.map Prod.fst := by
    have same := (List.subperm_of_subset stopping.sets owners).perm_of_length_le (by simpa using fewer)
    exact same.symm.subset
  rintro (twice | ⟨x, member, failed⟩)
  · exact twice once
  · obtain ⟨y, replaced, same⟩ := List.mem_map.mp (all (List.mem_map_of_mem member))
    have set := (stopping.set y replaced).1
    simp [same, failed, Phase.hasSet] at set

theorem reachable_stopping (root : PluggedConfig) (file : Option ClassLoaderConfig) (s : System)
    (reached : (requests (fun _ => .stopFirst) root file).Reachable s) : Stopping s :=
  reachable_keeps _ Stopping (initial_stopping root file) step_stopping s reached

-- In every run of stop-first requests, in every state in which none of them is under way.
theorem stop_first_working_iff (root : PluggedConfig) (file : Option ClassLoaderConfig) (events : List Event) (s : System)
    (ran : (requests (fun _ => .stopFirst) root file).run (requests (fun _ => .stopFirst) root file).initial events = some s)
    (quiet : Quiet s) :
    WorkingRoot s ↔
      (requests (fun _ => .stopFirst) root file).Meets Exclusive (requests (fun _ => .stopFirst) root file).initial events := by
  have stopping := reachable_stopping root file s ⟨events, ran⟩
  have ends := run_meets_or_breaks (requests (fun _ => .stopFirst) root file) Exclusive
    (fun s => (Placing s ∧ Stopping s) ∧ Orderly s) Botched ?_ ?_ botched_stays _ s events ?_ ran
  · rcases ends with ⟨meets, ⟨placing, _⟩, orderly⟩ | ⟨breaks, botched⟩
    · exact iff_of_true (quiet_working s placing stopping orderly quiet) meets
    · exact iff_of_false (fun working => working_unbotched s stopping working botched) breaks
  · rintro s event next ⟨⟨placing, stopping⟩, orderly⟩ exclusive stepped
    exact ⟨⟨step_placing (fun _ => .stopFirst) s event next placing stepped, step_stopping s event next stopping stepped⟩,
      step_orderly s event next stopping orderly exclusive stepped⟩
  · rintro s event next ⟨⟨_, stopping⟩, orderly⟩ exclusive stepped
    exact step_botched s event next stopping orderly exclusive stepped
  · exact ⟨⟨initial_placing _ root file, initial_stopping root file⟩, ⟨nofun, nofun⟩⟩

-- Request 2 begins with request 1 and gets the root that request 1 has set.
def twoStops (one two : ClassLoaderConfig) : List Event :=
  [⟨1, .begin⟩, ⟨2, .begin⟩, ⟨1, .get⟩, ⟨1, .stop⟩, ⟨1, .read one⟩, ⟨1, .load 1⟩, ⟨1, .plug 1⟩, ⟨1, .replace⟩, ⟨2, .get⟩,
   ⟨1, .readHolder⟩, ⟨2, .stop⟩, ⟨1, .write⟩, ⟨2, .read two⟩, ⟨2, .load 2⟩, ⟨2, .plug 2⟩, ⟨2, .replace⟩, ⟨2, .readHolder⟩,
   ⟨2, .write⟩]

theorem stop_first_working_iff_two :
    ∃ s, (requests (fun _ => .stopFirst) ⟨0, 0, ⟨[], "old"⟩⟩ none).run
        (requests (fun _ => .stopFirst) ⟨0, 0, ⟨[], "old"⟩⟩ none).initial (twoStops ⟨[], "one"⟩ ⟨[], "two"⟩) = some s ∧
      Quiet s ∧ s.holder.plugged = 2 ∧ WorkingRoot s := by
  have ends : ((requests (fun _ => .stopFirst) ⟨0, 0, ⟨[], "old"⟩⟩ none).run
        (requests (fun _ => .stopFirst) ⟨0, 0, ⟨[], "old"⟩⟩ none).initial (twoStops ⟨[], "one"⟩ ⟨[], "two"⟩)).map
        (fun s => (s.phases 1, s.phases 2, s.holder.plugged)) = some (.done, .done, 2) := by
    decide +kernel
  simp only [Option.map_eq_some_iff, Prod.mk.injEq] at ends
  obtain ⟨s, ran, one, two, holder⟩ := ends
  have quiet := run_quiet_two _ _ _ _ s ran 1 2 (by decide) (by rw [one]; rfl) (by rw [two]; rfl)
  refine ⟨s, ran, quiet, holder, (stop_first_working_iff _ none _ s ran quiet).mpr ?_⟩
  simp [twoStops, Machine.Meets, Exclusive, requests, step, advance, Fresh, Kind.start, Kind.stopped, Kind.swapped, Phase.spent,
    Phase.got]

-- A request that fails to read its config has already stopped the root that stays in holder.
theorem stop_first_failure_stops_holder :
    ∃ s, (requests (fun _ => .stopFirst) ⟨0, 0, ⟨[], "old"⟩⟩ none).run
        (requests (fun _ => .stopFirst) ⟨0, 0, ⟨[], "old"⟩⟩ none).initial
        [⟨0, .begin⟩, ⟨0, .get⟩, ⟨0, .stop⟩, ⟨0, .fail false⟩] = some s ∧
      Quiet s ∧ s.holder.plugged ∈ s.stops.map Prod.snd ∧ ¬ WorkingRoot s := by
  have ends : ((requests (fun _ => .stopFirst) ⟨0, 0, ⟨[], "old"⟩⟩ none).run
        (requests (fun _ => .stopFirst) ⟨0, 0, ⟨[], "old"⟩⟩ none).initial
        [⟨0, .begin⟩, ⟨0, .get⟩, ⟨0, .stop⟩, ⟨0, .fail false⟩]).map
        (fun s => (s.phases 0, s.holder.plugged, s.stops)) = some (.failed false, 0, [(0, 0)]) := by
    decide +kernel
  simp only [Option.map_eq_some_iff, Prod.mk.injEq] at ends
  obtain ⟨s, ran, failed, holder, stops⟩ := ends
  have stopped : s.holder.plugged ∈ s.stops.map Prod.snd := by simp [holder, stops]
  refine ⟨s, ran, ?_, stopped, fun working => working.1 stopped⟩
  refine run_quiet _ _ _ _ s ran (fun event member => ?_)
  have sole : event.request = 0 := by
    revert event
    decide
  rw [sole, failed]
  rfl

end Toolbox8.RootContext
