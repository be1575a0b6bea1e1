import Mathlib.Data.List.Nodup
import Toolbox8.Base.Transition

set_option autoImplicit false

namespace Toolbox8.StreamAppMain

open Base

-- Where the main thread is: in socket.accept, behind it, between start and the transform, or behind the loop.
inductive AcceptLoop where
  | accepting
  | accepted
  | started (th : Nat)
  | ended
deriving DecidableEq, Repr

-- A StreamAppThread is the id that it is made with. called are the threads whose onStop has run.
structure State where
  stopped : Bool
  loop : AcceptLoop
  id : Nat
  clientThreads : List Nat
  called : List Nat
deriving DecidableEq, Repr

-- thrown is an exception of accept: the one of a socket that the shutdown hook has closed, or one that ends main.
inductive Event where
  | accept
  | thrown
  | start
  | append
  | onStop (th : Nat)
  | shutdown
deriving DecidableEq, Repr

-- while (!stopped)
def again (stopped : Bool) : AcceptLoop := if stopped then .ended else .accepting

def Started (s : State) (th : Nat) : Prop := th < s.id ∨ s.loop = .started th

instance (s : State) (th : Nat) : Decidable (Started s th) := inferInstanceAs (Decidable (_ ∨ _))

def start (s : State) : State := if s.stopped then { s with loop := .ended } else { s with loop := .started s.id }

def append (s : State) (th : Nat) : State :=
  { s with loop := again s.stopped, id := s.id + 1, clientThreads := s.clientThreads ++ [th] }

def onStop (s : State) (th : Nat) : State :=
  { s with
    clientThreads := if s.stopped then s.clientThreads else s.clientThreads.filter (fun t => t ≠ th)
    called := th :: s.called }

-- The finally of run calls onStop once.
def step (s : State) : Event → Option State
  | .accept => if s.loop = .accepting then some { s with loop := .accepted } else none
  | .thrown => if s.loop = .accepting then some { s with loop := .ended } else none
  | .start => if s.loop = .accepted then some (start s) else none
  | .append =>
      match s.loop with
      | .started th => some (append s th)
      | _ => none
  | .onStop th => if Started s th ∧ th ∉ s.called then some (onStop s th) else none
  | .shutdown => some { s with stopped := true }

def main : Machine State Event where
  initial := ⟨false, .accepting, 0, [], []⟩
  step := step

-- The registry is the set of the threads that are started and whose onStop has not run.
def Tracks (s : State) : Prop := (∀ th, th ∈ s.clientThreads ↔ Started s th ∧ th ∉ s.called) ∧ s.clientThreads.Nodup

-- A thread runs onStop after it has been appended.
def Registered (s : State) : Event → Prop
  | .onStop th => s.loop ≠ .started th
  | _ => True

instance (s : State) : (event : Event) → Decidable (Registered s event)
  | .onStop th => inferInstanceAs (Decidable (s.loop ≠ .started th))
  | .accept => isTrue trivial
  | .thrown => isTrue trivial
  | .start => isTrue trivial
  | .append => isTrue trivial
  | .shutdown => isTrue trivial

-- A thread that is started and not appended is the one of the id.
def Fresh (s : State) : Prop := ∀ th, s.loop = .started th → th = s.id

-- What the steps keep as long as every onStop comes after its append.
structure Kept (s : State) : Prop where
  members : ∀ th, th ∈ s.clientThreads ↔ th < s.id ∧ th ∉ s.called
  nodup : s.clientThreads.Nodup
  called : ∀ th ∈ s.called, th < s.id

-- A thread whose onStop has run and that is appended or will be.
def Leaked (s : State) : Prop := ∃ th ∈ s.called, s.loop = .started th ∨ th ∈ s.clientThreads

theorem step_cases (s next : State) (event : Event) (stepped : step s event = some next) :
    (event = .accept ∧ s.loop = .accepting ∧ next = { s with loop := .accepted }) ∨
      (event = .thrown ∧ s.loop = .accepting ∧ next = { s with loop := .ended }) ∨
      (event = .start ∧ s.loop = .accepted ∧ next = start s) ∨
      (∃ th, event = .append ∧ s.loop = .started th ∧ next = append s th) ∨
      (∃ th, event = .onStop th ∧ Started s th ∧ th ∉ s.called ∧ next = onStop s th) ∨
      event = .shutdown ∧ next = { s with stopped := true } := by
  cases event with
  | accept => simpa [step, eq_comm] using stepped
  | thrown => simpa [step, eq_comm] using stepped
  | start => simpa [step, eq_comm] using stepped
  | append =>
      cases here : s.loop with
      | started th => simpa [step, here, eq_comm] using stepped
      | accepting => simp [step, here] at stepped
      | accepted => simp [step, here] at stepped
      | ended => simp [step, here] at stepped
  | onStop th =>
      rw [step] at stepped
      by_cases runs : Started s th ∧ th ∉ s.called
      · rw [if_pos runs] at stepped
        simp [runs.1, runs.2, (Option.some.inj stepped).symm]
      · simp [runs] at stepped
  | shutdown => simpa [step, eq_comm] using stepped

theorem step_fresh (s : State) (event : Event) (next : State) (fresh : Fresh s) (stepped : step s event = some next) :
    Fresh next := by
  intro th started
  rcases step_cases s next event stepped with ⟨_, _, rfl⟩ | ⟨_, _, rfl⟩ | ⟨_, _, rfl⟩ | ⟨_, _, _, rfl⟩ | ⟨_, _, _, _, rfl⟩ |
    ⟨_, rfl⟩
  · simp at started
  · simp at started
  · by_cases stopped : s.stopped
    · simp [start, stopped] at started
    · simp only [start, stopped] at started ⊢
      simpa [eq_comm] using started
  · by_cases stopped : s.stopped
    · simp [append, again, stopped] at started
    · simp [append, again, stopped] at started
  · exact fresh th started
  · exact fresh th started

theorem append_kept (s : State) (th : Nat) (fresh : th = s.id) (kept : Kept s) : Kept (append s th) := by
  subst fresh
  constructor
  · intro other
    have known := kept.members other
    have earlier := kept.called other
    simp only [append, List.mem_append, List.mem_singleton, known]
    by_cases same : other = s.id
    · subst same
      have uncalled : s.id ∉ s.called := fun member => absurd (kept.called s.id member) (Nat.lt_irrefl _)
      simp [uncalled]
    · simp only [same, or_false, Nat.lt_succ_iff_lt_or_eq]
  · apply List.Nodup.append kept.nodup (List.nodup_singleton _)
    intro other member single
    rw [List.mem_singleton.mp single] at member
    exact absurd ((kept.members s.id).mp member).1 (Nat.lt_irrefl _)
  · intro other member
    exact Nat.lt_succ_of_lt (kept.called other member)

theorem on_stop_kept (s : State) (th : Nat) (running : s.stopped = false) (before : th < s.id) (kept : Kept s) :
    Kept (onStop s th) := by
  have filtered : (onStop s th).clientThreads = s.clientThreads.filter (fun t => t ≠ th) := by simp [onStop, running]
  constructor
  · intro other
    rw [filtered, List.mem_filter, kept.members]
    simp only [onStop, List.mem_cons, not_or, decide_eq_true_eq]
    exact ⟨fun ⟨⟨below, live⟩, apart⟩ => ⟨below, apart, live⟩, fun ⟨below, apart, live⟩ => ⟨⟨below, live⟩, apart⟩⟩
  · rw [filtered]
    exact kept.nodup.filter _
  · intro other member
    rcases List.mem_cons.mp member with rfl | earlier
    · exact before
    · exact kept.called other earlier

-- While the server is not stopped.
def KeptRunning (s : State) : Prop := Fresh s ∧ (s.stopped = false → Kept s)

theorem step_kept (s : State) (event : Event) (next : State) (kept : KeptRunning s) (registered : Registered s event)
    (stepped : step s event = some next) : KeptRunning next := by
  refine ⟨step_fresh s event next kept.1 stepped, fun running => ?_⟩
  rcases step_cases s next event stepped with ⟨_, _, rfl⟩ | ⟨_, _, rfl⟩ | ⟨_, _, rfl⟩ | ⟨th, _, here, rfl⟩ |
    ⟨th, rfl, started, live, rfl⟩ | ⟨_, rfl⟩
  · obtain ⟨members, nodup, called⟩ := kept.2 running
    exact ⟨members, nodup, called⟩
  · obtain ⟨members, nodup, called⟩ := kept.2 running
    exact ⟨members, nodup, called⟩
  · by_cases stopped : s.stopped
    · simp [start, stopped] at running
    · obtain ⟨members, nodup, called⟩ := kept.2 (by simpa using stopped)
      rw [start, if_neg stopped]
      exact ⟨members, nodup, called⟩
  · exact append_kept s th (kept.1 th here) (kept.2 running)
  · rcases started with before | pending
    · exact on_stop_kept s th running before (kept.2 running)
    · exact absurd pending registered
  · simp at running

theorem step_leaks (s : State) (event : Event) (next : State) (unregistered : ¬ Registered s event)
    (stepped : step s event = some next) : Leaked next := by
  cases event with
  | onStop th =>
      rw [step] at stepped
      by_cases runs : Started s th ∧ th ∉ s.called
      · rw [if_pos runs] at stepped
        rw [← Option.some.inj stepped]
        exact ⟨th, List.mem_cons_self, .inl (Classical.not_not.mp unregistered)⟩
      · simp [runs] at stepped
  | accept => exact absurd trivial unregistered
  | thrown => exact absurd trivial unregistered
  | start => exact absurd trivial unregistered
  | append => exact absurd trivial unregistered
  | shutdown => exact absurd trivial unregistered

theorem step_leaked (s : State) (event : Event) (next : State) (leaked : Leaked s) (stepped : step s event = some next) :
    Leaked next := by
  obtain ⟨th, called, place⟩ := leaked
  rcases step_cases s next event stepped with ⟨_, here, rfl⟩ | ⟨_, here, rfl⟩ | ⟨_, here, rfl⟩ | ⟨other, _, here, rfl⟩ |
    ⟨other, _, _, live, rfl⟩ | ⟨_, rfl⟩
  · exact ⟨th, called, .inr (by simpa [here] using place)⟩
  · exact ⟨th, called, .inr (by simpa [here] using place)⟩
  · have listed : th ∈ s.clientThreads := by simpa [here] using place
    rw [start]
    split
    · exact ⟨th, called, .inr listed⟩
    · exact ⟨th, called, .inr listed⟩
  · refine ⟨th, called, .inr (List.mem_append.mpr ?_)⟩
    rcases place with pending | listed
    · rw [here] at pending
      exact .inr (List.mem_singleton.mpr (AcceptLoop.started.inj pending).symm)
    · exact .inl listed
  · refine ⟨th, List.mem_cons_of_mem _ called, place.imp (fun pending => pending) (fun listed => ?_)⟩
    have apart : th ≠ other := fun same => live (same ▸ called)
    simp only [onStop]
    split
    · exact listed
    · exact List.mem_filter.mpr ⟨listed, by simpa using apart⟩
  · exact ⟨th, called, place⟩

theorem tracks_of_kept (s : State) (accepting : s.loop = .accepting) (kept : Kept s) : Tracks s := by
  refine ⟨fun th => ?_, kept.nodup⟩
  rw [kept.members, Started, accepting]
  simp

theorem leaked_not_tracks (s : State) (accepting : s.loop = .accepting) (leaked : Leaked s) : ¬ Tracks s := by
  obtain ⟨th, called, place⟩ := leaked
  have listed : th ∈ s.clientThreads := by simpa [accepting] using place
  exact fun tracks => ((tracks.1 th).mp listed).2 called

theorem tracks_iff_registered (events : List Event) (final : State) (ran : main.run main.initial events = some final)
    (running : final.stopped = false) (accepting : final.loop = .accepting) :
    Tracks final ↔ main.Meets Registered main.initial events := by
  have initially : KeptRunning main.initial := by
    refine ⟨fun th started => ?_, fun _ => ⟨fun th => ?_, List.nodup_nil, fun th member => ?_⟩⟩
    · simp [main] at started
    · simp [main]
    · simp [main] at member
  rcases run_meets_or_breaks main Registered KeptRunning Leaked step_kept
      (fun s event next _ => step_leaks s event next) step_leaked main.initial final events initially ran with
    ⟨meets, kept⟩ | ⟨breaks, leaked⟩
  · exact iff_of_true (tracks_of_kept final accepting (kept.2 running)) meets
  · exact iff_of_false (leaked_not_tracks final accepting leaked) breaks

theorem tracks_iff_registered_two : ∃ final,
    main.run main.initial [.accept, .start, .append, .accept, .start, .onStop 0, .append] = some final ∧ Tracks final ∧
      final.clientThreads = [1] :=
  ⟨_, rfl, (tracks_iff_registered [.accept, .start, .append, .accept, .start, .onStop 0, .append] _ rfl rfl rfl).mpr
    (by decide), rfl⟩

-- A client whose thread is over before the main thread goes on.
theorem short_lived_client_leaks :
    ¬ ∀ (events : List Event) (final : State), main.run main.initial events = some final → final.stopped = false →
      final.loop = .accepting → Tracks final := by
  intro claimed
  have tracks := claimed [.accept, .start, .onStop 0, .append] _ rfl rfl rfl
  exact absurd ((tracks.1 0).mp (by decide)).2 (by decide)

end Toolbox8.StreamAppMain
