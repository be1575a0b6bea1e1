import Toolbox8.Base.Transition
import Toolbox8.JarCache

set_option autoImplicit false

namespace Toolbox8.RootContext

open Base

structure ClassLoaderConfig where
  jars : List JarKey
  className : String
deriving DecidableEq, Repr

-- Plugged and ClassLoader objects are known by numbers.
abbrev Plugged := Nat

abbrev ClassLoader := Nat

structure PluggedConfig where
  plugged : Plugged
  classLoader : ClassLoader
  classLoaderConfig : ClassLoaderConfig
deriving DecidableEq, Repr

-- PutRootReplaceFirstRequest and PutRootStopFirstRequest.
inductive Kind where
  | replaceFirst
  | stopFirst
deriving DecidableEq, Repr

-- Where an execution of request stands, with the values it still needs. old is the oldPlugged that a
-- stop-first request has stopped.
inductive Phase where
  | idle
  | getting
  | stopping (old : PluggedConfig)
  | reading (old : Option PluggedConfig)
  | loading (old : Option PluggedConfig) (clc : ClassLoaderConfig)
  | plugging (old : Option PluggedConfig) (clc : ClassLoaderConfig) (cl : ClassLoader)
  | replacing (old : Option PluggedConfig) (new : PluggedConfig)
  | persisting
  | writing (clc : ClassLoaderConfig)
  | done
  | failed (swapped : Bool)
deriving DecidableEq, Repr

-- holder and the config file. made are the Pluggeds that there have been, replaced and stops record what requests have
-- taken out of holder and what they have called stop on.
structure Shared where
  holder : PluggedConfig
  file : Option ClassLoaderConfig
  made : List Plugged
  replaced : List (Nat × Plugged)
  stops : List (Nat × Plugged)
deriving DecidableEq, Repr

structure System extends Shared where
  phases : Nat → Phase

inductive Action where
  | begin
  | get
  | stop
  | read (clc : ClassLoaderConfig)
  | load (cl : ClassLoader)
  | plug (plugged : Plugged)
  | replace
  | readHolder
  | write
  | fail (torn : Bool)
deriving DecidableEq, Repr

def Kind.start : Kind → Phase
  | .replaceFirst => .reading none
  | .stopFirst => .getting

def Kind.stopped (old : PluggedConfig) : Kind → Phase
  | .replaceFirst => .persisting
  | .stopFirst => .reading (some old)

def Kind.swapped (old : PluggedConfig) : Kind → Phase
  | .replaceFirst => .stopping old
  | .stopFirst => .persisting

-- Each plug gives an instance of its own.
def Fresh (s : Shared) (plugged : Plugged) : Prop := plugged ∉ s.made

instance (s : Shared) (plugged : Plugged) : Decidable (Fresh s plugged) := inferInstanceAs (Decidable (_ ∉ _))

-- stop is called quietly. A failing write may leave a torn file.
def advance (kind : Kind) (r : Nat) (s : Shared) : Phase → Action → Option (Shared × Phase)
  | .idle, .begin => some (s, kind.start)
  | .getting, .get => some (s, .stopping s.holder)
  | .stopping old, .stop => some ({ s with stops := s.stops ++ [(r, old.plugged)] }, kind.stopped old)
  | .reading old, .read clc => some (s, .loading old clc)
  | .loading old clc, .load cl => some (s, .plugging old clc cl)
  | .plugging old clc cl, .plug plugged =>
      if Fresh s plugged then some ({ s with made := plugged :: s.made }, .replacing old ⟨plugged, cl, clc⟩) else none
  | .replacing _ new, .replace =>
      some ({ s with holder := new, replaced := s.replaced ++ [(r, s.holder.plugged)] }, kind.swapped s.holder)
  | .persisting, .readHolder => some (s, .writing s.holder.classLoaderConfig)
  | .writing clc, .write => some ({ s with file := some clc }, .done)
  | .getting, .fail _ => some (s, .failed false)
  | .reading _, .fail _ => some (s, .failed false)
  | .loading _ _, .fail _ => some (s, .failed false)
  | .plugging _ _ _, .fail _ => some (s, .failed false)
  | .persisting, .fail _ => some (s, .failed true)
  | .writing _, .fail torn => some ({ s with file := if torn then none else s.file }, .failed true)
  | _, _ => none

structure Event where
  request : Nat
  action : Action
deriving DecidableEq, Repr

def step (kinds : Nat → Kind) (s : System) (event : Event) : Option System :=
  (advance (kinds event.request) event.request s.toShared (s.phases event.request) event.action).map
    (fun (shared, phase) => ⟨shared, Function.update s.phases event.request phase⟩)

def requests (kinds : Nat → Kind) (root : PluggedConfig) (file : Option ClassLoaderConfig) : Machine System Event where
  initial := ⟨⟨root, file, [root.plugged], [], []⟩, fun _ => .idle⟩
  step := step kinds

def Phase.active : Phase → Bool
  | .idle => false
  | .done => false
  | .failed _ => false
  | _ => true

def Quiet (s : System) : Prop := ∀ r, (s.phases r).active = false

-- Where an execution may fail, and whether it has replaced the root by then.
def Phase.fails : Phase → Option Bool
  | .getting => some false
  | .reading _ => some false
  | .loading _ _ => some false
  | .plugging _ _ _ => some false
  | .persisting => some true
  | .writing _ => some true
  | _ => none

-- The steps of a request, one constructor each.
inductive Moved (kind : Kind) (r : Nat) (s : Shared) : Phase → Action → Shared → Phase → Prop where
  | begin : Moved kind r s .idle .begin s kind.start
  | get : Moved kind r s .getting .get s (.stopping s.holder)
  | stop (old : PluggedConfig) :
      Moved kind r s (.stopping old) .stop { s with stops := s.stops ++ [(r, old.plugged)] } (kind.stopped old)
  | read (old : Option PluggedConfig) (clc : ClassLoaderConfig) :
      Moved kind r s (.reading old) (.read clc) s (.loading old clc)
  | load (old : Option PluggedConfig) (clc : ClassLoaderConfig) (cl : ClassLoader) :
      Moved kind r s (.loading old clc) (.load cl) s (.plugging old clc cl)
  | plug (old : Option PluggedConfig) (clc : ClassLoaderConfig) (cl : ClassLoader) (plugged : Plugged) (fresh : Fresh s plugged) :
      Moved kind r s (.plugging old clc cl) (.plug plugged) { s with made := plugged :: s.made }
        (.replacing old ⟨plugged, cl, clc⟩)
  | replace (old : Option PluggedConfig) (new : PluggedConfig) :
      Moved kind r s (.replacing old new) .replace
        { s with holder := new, replaced := s.replaced ++ [(r, s.holder.plugged)] } (kind.swapped s.holder)
  | readHolder : Moved kind r s .persisting .readHolder s (.writing s.holder.classLoaderConfig)
  | write (clc : ClassLoaderConfig) : Moved kind r s (.writing clc) .write { s with file := some clc } .done
  | fail (phase : Phase) (torn swapped : Bool) (file : Option ClassLoaderConfig) (fails : phase.fails = some swapped) :
      Moved kind r s phase (.fail torn) { s with file := file } (.failed swapped)

theorem advance_moved (kind : Kind) (r : Nat) (s shared : Shared) (phase next : Phase) (action : Action)
    (advanced : advance kind r s phase action = some (shared, next)) : Moved kind r s phase action shared next := by
  cases action with
  | fail torn =>
      cases phase <;> simp only [advance, Option.some.injEq, Prod.mk.injEq, reduceCtorEq] at advanced
      all_goals obtain ⟨rfl, rfl⟩ := advanced
      all_goals exact .fail _ torn _ _ rfl
  | plug plugged =>
      cases phase <;> simp only [advance, Option.ite_none_right_eq_some, Option.some.injEq, Prod.mk.injEq, reduceCtorEq] at advanced
      obtain ⟨fresh, rfl, rfl⟩ := advanced
      exact .plug _ _ _ plugged fresh
  | _ =>
      cases phase <;> simp only [advance, Option.some.injEq, Prod.mk.injEq, reduceCtorEq] at advanced
      all_goals obtain ⟨rfl, rfl⟩ := advanced
      all_goals constructor

theorem step_moved (kinds : Nat → Kind) (s next : System) (event : Event) (stepped : step kinds s event = some next) :
    ∃ shared phase, Moved (kinds event.request) event.request s.toShared (s.phases event.request) event.action shared phase ∧
      next = ⟨shared, Function.update s.phases event.request phase⟩ := by
  simp only [step, Option.map_eq_some_iff, Prod.exists] at stepped
  obtain ⟨shared, phase, advanced, rfl⟩ := stepped
  exact ⟨shared, phase, advance_moved _ _ _ _ _ _ _ advanced, rfl⟩

theorem update_phase (holds : Phase → Prop) (phases : Nat → Phase) (r other : Nat) (phase : Phase)
    (own : other = r → holds phase) (below : other ≠ r → holds (phases other)) : holds (Function.update phases r phase other) := by
  rcases eq_or_ne other r with rfl | different
  · rw [Function.update_self]
    exact own rfl
  · rw [Function.update_of_ne different]
    exact below different

theorem run_untouched (kinds : Nat → Kind) (root : PluggedConfig) (file : Option ClassLoaderConfig) (r : Nat)
    (events : List Event) (s final : System) (other : ∀ event ∈ events, event.request ≠ r)
    (ran : (requests kinds root file).run s events = some final) : final.phases r = s.phases r := by
  induction events generalizing s with
  | nil =>
      cases ran
      rfl
  | cons event rest ih =>
      rw [run_cons] at ran
      cases stepped : (requests kinds root file).step s event with
      | none => simp [stepped] at ran
      | some next =>
          rw [stepped, Option.bind_some] at ran
          obtain ⟨shared, phase, moved, rfl⟩ := step_moved kinds s next event stepped
          have different := other event (by simp)
          rw [ih _ (fun e member => other e (by simp [member])) ran]
          exact Function.update_of_ne (Ne.symm different) phase s.phases

theorem run_quiet (kinds : Nat → Kind) (root : PluggedConfig) (file : Option ClassLoaderConfig) (events : List Event)
    (s : System) (ran : (requests kinds root file).run (requests kinds root file).initial events = some s)
    (ended : ∀ event ∈ events, (s.phases event.request).active = false) : Quiet s := by
  intro r
  by_cases touched : ∃ event ∈ events, event.request = r
  · obtain ⟨event, member, rfl⟩ := touched
    exact ended event member
  · rw [run_untouched kinds root file r events _ s (fun event member same => touched ⟨event, member, same⟩) ran]
    rfl

theorem run_quiet_two (kinds : Nat → Kind) (root : PluggedConfig) (file : Option ClassLoaderConfig) (events : List Event)
    (s : System) (ran : (requests kinds root file).run (requests kinds root file).initial events = some s) (one two : Nat)
    (known : ∀ event ∈ events, event.request = one ∨ event.request = two) (first : (s.phases one).active = false)
    (second : (s.phases two).active = false) : Quiet s := by
  refine run_quiet kinds root file events s ran (fun event member => ?_)
  rcases known event member with same | same
  · rw [same]
    exact first
  · rw [same]
    exact second

-- The file names the root that is running, as soon as a request has completed and none is under way.
def Persisted (s : System) : Prop := Quiet s → (∃ r, s.phases r = .done) → s.file = some s.holder.classLoaderConfig

-- The last request under way does not write a config that it has read before the root was replaced by another.
def WritesHolder (s : System) (event : Event) : Prop :=
  event.action = .write → ∀ clc, s.phases event.request = .writing clc →
    clc = s.holder.classLoaderConfig ∨ ∃ other, other ≠ event.request ∧ (s.phases other).active = true

theorem moved_active (kind : Kind) (r : Nat) (s shared : Shared) (phase next : Phase) (action : Action)
    (moved : Moved kind r s phase action shared next) (unwritten : action ≠ .write) (healthy : ∀ torn, action ≠ .fail torn) :
    next.active = true := by
  cases moved with
  | write clc => exact absurd rfl unwritten
  | fail phase torn swapped file fails => exact absurd rfl (healthy torn)
  | _ => cases kind <;> rfl

theorem step_persisted (kinds : Nat → Kind) (s : System) (event : Event) (next : System)
    (healthy : ∀ torn, event.action ≠ .fail torn) (stepped : step kinds s event = some next) :
    Persisted next ↔ WritesHolder s event := by
  obtain ⟨r, action⟩ := event
  obtain ⟨shared, phase, moved, rfl⟩ := step_moved kinds s next ⟨r, action⟩ stepped
  simp only at moved healthy ⊢
  generalize here : s.phases r = before at moved
  by_cases writes : action = .write
  · subst writes
    cases moved with
    | write clc =>
        constructor
        · intro persisted _ other writing
          obtain rfl : clc = other := by simpa [here] using writing
          by_contra lost
          rw [not_or] at lost
          refine lost.1 ?_
          have written := persisted ?_ ⟨r, by simp⟩
          · simpa using written
          · intro another
            rcases eq_or_ne another r with rfl | different
            · simp [Phase.active]
            · have still := not_exists.mp lost.2 another
              simpa [different] using still
        · intro follows quiet _
          rcases follows rfl clc here with same | ⟨other, different, active⟩
          · simp [same]
          · have idle := quiet other
            simp [Function.update_of_ne different, active] at idle
  · refine iff_of_true (fun quiet _ => ?_) (fun isWrite => absurd isWrite writes)
    have active := moved_active _ r _ _ _ _ _ moved writes healthy
    have idle := quiet r
    simp [active] at idle

-- In every run of requests that all complete.
theorem persisted_iff (kinds : Nat → Kind) (root : PluggedConfig) (file : Option ClassLoaderConfig) (events : List Event)
    (s : System) (ran : (requests kinds root file).run (requests kinds root file).initial events = some s)
    (healthy : ∀ event ∈ events, ∀ torn, event.action ≠ .fail torn) :
    (requests kinds root file).Along Persisted (requests kinds root file).initial events ↔
      (requests kinds root file).Meets WritesHolder (requests kinds root file).initial events := by
  refine along_iff_meets _ WritesHolder Persisted _ s events ?_ ?_ ran
  · intro s event member next _ stepped
    exact step_persisted kinds s event next (healthy event member) stepped
  · rintro _ ⟨r, done⟩
    cases done

-- Two requests that load and plug at the same time.
def twoReplacements (one two : ClassLoaderConfig) : List Event :=
  [⟨1, .begin⟩, ⟨2, .begin⟩, ⟨1, .read one⟩, ⟨2, .read two⟩, ⟨1, .load 1⟩, ⟨2, .load 2⟩, ⟨1, .plug 1⟩, ⟨2, .plug 2⟩, ⟨1, .replace⟩,
   ⟨2, .replace⟩, ⟨1, .stop⟩, ⟨2, .stop⟩, ⟨1, .readHolder⟩, ⟨2, .readHolder⟩, ⟨1, .write⟩, ⟨2, .write⟩]

theorem persisted_iff_two :
    (requests (fun _ => .replaceFirst) ⟨0, 0, ⟨[], "old"⟩⟩ none).Along Persisted
      (requests (fun _ => .replaceFirst) ⟨0, 0, ⟨[], "old"⟩⟩ none).initial (twoReplacements ⟨[], "one"⟩ ⟨[], "two"⟩) := by
  refine (persisted_iff (fun _ => .replaceFirst) ⟨0, 0, ⟨[], "old"⟩⟩ none (twoReplacements ⟨[], "one"⟩ ⟨[], "two"⟩) _
    (Option.some_get (by decide)).symm (by decide)).mpr ?_
  simp [Machine.Meets, WritesHolder, twoReplacements, requests, step, advance, Fresh, Kind.start, Kind.swapped,
    Kind.stopped]

-- Request 1 has read its own config from holder when request 2 replaces the root, persists and completes.
def lateWrite (one two : ClassLoaderConfig) : List Event :=
  [⟨1, .begin⟩, ⟨1, .read one⟩, ⟨1, .load 1⟩, ⟨1, .plug 1⟩, ⟨1, .replace⟩, ⟨1, .stop⟩, ⟨1, .readHolder⟩,
   ⟨2, .begin⟩, ⟨2, .read two⟩, ⟨2, .load 2⟩, ⟨2, .plug 2⟩, ⟨2, .replace⟩, ⟨2, .stop⟩, ⟨2, .readHolder⟩, ⟨2, .write⟩,
   ⟨1, .write⟩]

theorem late_write_unpersisted :
    ∃ s, (requests (fun _ => .replaceFirst) ⟨0, 0, ⟨[], "old"⟩⟩ none).run
        (requests (fun _ => .replaceFirst) ⟨0, 0, ⟨[], "old"⟩⟩ none).initial (lateWrite ⟨[], "one"⟩ ⟨[], "two"⟩) = some s ∧
      Quiet s ∧ s.phases 1 = .done ∧ s.phases 2 = .done ∧ s.file = some ⟨[], "one"⟩ ∧
      s.holder.classLoaderConfig = ⟨[], "two"⟩ ∧ ¬ Persisted s := by
  have ends : ((requests (fun _ => .replaceFirst) ⟨0, 0, ⟨[], "old"⟩⟩ none).run
        (requests (fun _ => .replaceFirst) ⟨0, 0, ⟨[], "old"⟩⟩ none).initial (lateWrite ⟨[], "one"⟩ ⟨[], "two"⟩)).map
        (fun s => (s.phases 1, s.phases 2, s.file, s.holder.classLoaderConfig)) =
      some (.done, .done, some ⟨[], "one"⟩, ⟨[], "two"⟩) := by
    decide +kernel
  simp only [Option.map_eq_some_iff, Prod.mk.injEq] at ends
  obtain ⟨s, ran, one, two, file, holder⟩ := ends
  have quiet := run_quiet_two _ _ _ _ s ran 1 2 (by decide) (by rw [one]; rfl) (by rw [two]; rfl)
  refine ⟨s, ran, quiet, one, two, file, holder, fun persisted => ?_⟩
  have agrees := persisted quiet ⟨1, one⟩
  simp [file, holder] at agrees

-- No request replaces the root while another is between its read of holder and its write.
def Undisturbed (s : System) (event : Event) : Prop :=
  event.action = .replace → ∀ r clc, s.phases r ≠ .writing clc

def WritingHolder (s : System) : Prop := ∀ r clc, s.phases r = .writing clc → clc = s.holder.classLoaderConfig

theorem step_writing_holder (kinds : Nat → Kind) (s : System) (event : Event) (next : System) (writing : WritingHolder s)
    (undisturbed : Undisturbed s event) (stepped : step kinds s event = some next) : WritingHolder next := by
  obtain ⟨r, action⟩ := event
  obtain ⟨shared, phase, moved, rfl⟩ := step_moved kinds s next ⟨r, action⟩ stepped
  simp only at moved ⊢
  generalize here : s.phases r = before at moved
  intro other clc holds
  cases moved with
  | replace old new =>
      rcases eq_or_ne other r with rfl | different
      · cases kind : kinds other <;> simp [kind, Kind.swapped] at holds
      · simp only [Function.update_of_ne different] at holds
        exact absurd holds (undisturbed rfl other clc)
  | readHolder =>
      rcases eq_or_ne other r with rfl | different
      · simpa using holds.symm
      · simp only [Function.update_of_ne different] at holds
        exact writing other clc holds
  | _ =>
      rcases eq_or_ne other r with rfl | different
      · cases kind : kinds other <;> simp [kind, Kind.start, Kind.stopped] at holds
      · simp only [Function.update_of_ne different] at holds
        exact writing other clc holds

theorem undisturbed_writes_holder (kinds : Nat → Kind) (root : PluggedConfig) (file : Option ClassLoaderConfig)
    (events : List Event)
    (undisturbed : (requests kinds root file).Meets Undisturbed (requests kinds root file).initial events) :
    (requests kinds root file).Meets WritesHolder (requests kinds root file).initial events := by
  refine meets_weaken _ Undisturbed WritesHolder WritingHolder (fun s event next => step_writing_holder kinds s event next)
    (fun s event writing _ _ clc holds => .inl (writing event.request clc holds)) _ events ?_ undisturbed
  intro r clc holds
  simp [requests] at holds

theorem persisted_undisturbed (kinds : Nat → Kind) (root : PluggedConfig) (file : Option ClassLoaderConfig) (events : List Event)
    (s : System) (ran : (requests kinds root file).run (requests kinds root file).initial events = some s)
    (healthy : ∀ event ∈ events, ∀ torn, event.action ≠ .fail torn)
    (undisturbed : (requests kinds root file).Meets Undisturbed (requests kinds root file).initial events) :
    (requests kinds root file).Along Persisted (requests kinds root file).initial events := by
  have writes := undisturbed_writes_holder kinds root file events undisturbed
  refine (along_iff_meets _ WritesHolder Persisted _ s events ?_ ?_ ran).mpr writes
  · intro s event member next _ stepped
    exact step_persisted kinds s event next (healthy event member) stepped
  · rintro _ ⟨r, done⟩
    cases done

end Toolbox8.RootContext
