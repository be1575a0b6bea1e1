import Toolbox8.Base.Transition

set_option autoImplicit false

namespace Toolbox8.FilesTools

open Base

-- The watch key: signalled keys are in the queue of the watcher until they are taken.
inductive Key where
  | unregistered
  | ready
  | queued
  | taken
deriving DecidableEq, Repr

-- Where the thread of waitForFile is. polling is between a test that has not found the file and the end of poller().
inductive Position where
  | unstarted
  | testing
  | polling
  | succeeding
  | closing
  | ended
deriving DecidableEq, Repr

inductive Completed where
  | success (found : Bool)
  | failure
deriving DecidableEq, Repr

structure State where
  fileExists : Bool
  key : Key
  thread : Position
  closed : Bool
  promise : Option Completed
deriving DecidableEq, Repr

inductive Event where
  | createFile
  | createOther
  | register
  | start
  | test
  | pollerReturns
  | pollerThrows
  | timeout
  | trySuccess
  | close
  | cancel
deriving DecidableEq, Repr

-- An event of the watched directory: WatchService queues a key that is ready.
def Key.signal : Key → Key
  | .ready => .queued
  | key => key

-- trySuccess and tryFailure keep what the promise has.
def complete (result : Completed) (promise : Option Completed) : Option Completed := some (promise.getD result)

-- The key that the poller returns is dropped: no reset makes it ready again. poll ends after a finite pollInterval, and
-- take and poll throw once the watcher is closed.
def step (isFinite : Bool) (s : State) : Event → Option State
  | .createFile => if s.fileExists then none else some { s with fileExists := true, key := s.key.signal }
  | .createOther => some { s with key := s.key.signal }
  | .register => if s.key = .unregistered then some { s with key := .ready } else none
  | .start => if s.key ≠ .unregistered ∧ s.thread = .unstarted then some { s with thread := .testing } else none
  | .test =>
      if s.thread = .testing then some { s with thread := if s.fileExists then .succeeding else .polling } else none
  | .pollerReturns =>
      if s.thread = .polling ∧ s.key = .queued ∧ s.closed = false then some { s with key := .taken, thread := .testing }
      else none
  | .pollerThrows =>
      if s.thread = .polling ∧ s.closed then some { s with thread := .ended, promise := complete .failure s.promise }
      else none
  | .timeout => if s.thread = .polling ∧ isFinite then some { s with thread := .testing } else none
  | .trySuccess =>
      if s.thread = .succeeding then some { s with thread := .closing, promise := complete (.success true) s.promise }
      else none
  | .close => if s.thread = .closing then some { s with thread := .ended, closed := true } else none
  | .cancel =>
      if s.thread ≠ .unstarted then some { s with closed := true, promise := complete (.success false) s.promise } else none

def waitForFile (isFinite : Bool) : Machine State Event where
  initial := ⟨false, .unregistered, .unstarted, false, none⟩
  step := step isFinite

-- take blocks as long as the watcher is open and no key is queued.
def Blocked (s : State) : Prop := s.thread = .polling ∧ s.key ≠ .queued ∧ s.closed = false

def LostWakeUp (s : State) : Prop := s.fileExists = true ∧ Blocked s

-- Another file has woken the thread before, which then has not found the file and waits in take again.
def WaitsAgain (s : State) : Prop := s.thread = .polling ∧ s.key = .taken ∧ s.closed = false

instance (s : State) : Decidable (WaitsAgain s) := inferInstanceAs (Decidable (_ ∧ _ ∧ _))

def InTime (s : State) (event : Event) : Prop := event = .createFile → ¬ WaitsAgain s

instance (s : State) (event : Event) : Decidable (InTime s event) := inferInstanceAs (Decidable (_ → _))

def Watched (s : State) : Prop := s.thread ≠ .unstarted → s.key ≠ .unregistered

section Steps

variable (isFinite : Bool) (s next : State)

theorem signal_registered (key : Key) (registered : key ≠ .unregistered) : key.signal ≠ .unregistered := by
  cases key with
  | unregistered => exact absurd rfl registered
  | ready => exact Key.noConfusion
  | queued => exact Key.noConfusion
  | taken => exact Key.noConfusion

theorem signal_queued (key : Key) (registered : key ≠ .unregistered) : key.signal = .queued ↔ key ≠ .taken := by
  cases key with
  | unregistered => exact absurd rfl registered
  | ready => simp [Key.signal]
  | queued => simp [Key.signal]
  | taken => simp [Key.signal]

theorem step_watched (event : Event) (watched : Watched s) (stepped : step isFinite s event = some next) : Watched next := by
  cases event with
  | createFile =>
      obtain ⟨_, rfl⟩ := by simpa [step] using stepped
      exact fun started => signal_registered s.key (watched started)
  | createOther =>
      rw [← Option.some.inj stepped]
      exact fun started => signal_registered s.key (watched started)
  | register =>
      obtain ⟨_, rfl⟩ := by simpa [step] using stepped
      exact fun _ => Key.noConfusion
  | start =>
      obtain ⟨⟨registered, _⟩, rfl⟩ := by simpa [step] using stepped
      exact fun _ => registered
  | test =>
      obtain ⟨here, rfl⟩ := by simpa [step] using stepped
      exact fun _ => watched (by simp [here])
  | pollerReturns =>
      obtain ⟨_, rfl⟩ := by simpa [step] using stepped
      exact fun _ => Key.noConfusion
  | pollerThrows =>
      obtain ⟨⟨here, _⟩, rfl⟩ := by simpa [step] using stepped
      exact fun _ => watched (by simp [here])
  | timeout =>
      obtain ⟨⟨here, _⟩, rfl⟩ := by simpa [step] using stepped
      exact fun _ => watched (by simp [here])
  | trySuccess =>
      obtain ⟨here, rfl⟩ := by simpa [step] using stepped
      exact fun _ => watched (by simp [here])
  | close =>
      obtain ⟨here, rfl⟩ := by simpa [step] using stepped
      exact fun _ => watched (by simp [here])
  | cancel =>
      obtain ⟨here, rfl⟩ := by simpa [step] using stepped
      exact fun _ => watched here

theorem create_file_lost_iff (watched : Watched s) :
    LostWakeUp { s with fileExists := true, key := s.key.signal } ↔ WaitsAgain s := by
  constructor
  · rintro ⟨_, polling, unqueued, opened⟩
    have registered := watched (by simp [show s.thread = .polling from polling])
    have taken : s.key = .taken := by
      by_contra untaken
      exact unqueued ((signal_queued s.key registered).mpr untaken)
    exact ⟨polling, taken, opened⟩
  · rintro ⟨polling, taken, opened⟩
    exact ⟨rfl, polling, by simp [taken, Key.signal], opened⟩

theorem step_lost_iff (event : Event) (holds : Watched s ∧ ¬ LostWakeUp s) (stepped : step isFinite s event = some next) :
    Watched next ∧ ¬ LostWakeUp next ↔ InTime s event := by
  rw [and_iff_right (step_watched isFinite s next event holds.1 stepped)]
  obtain ⟨watched, awake⟩ := holds
  cases event with
  | createFile =>
      obtain ⟨_, rfl⟩ := by simpa [step] using stepped
      rw [create_file_lost_iff s watched]
      exact ⟨fun other _ => other, fun inTime => inTime rfl⟩
  | createOther =>
      rw [← Option.some.inj stepped]
      refine iff_of_true ?_ Event.noConfusion
      rintro ⟨found, polling, unqueued, opened⟩
      exact awake ⟨found, polling, fun queued => unqueued (by simp [queued, Key.signal]), opened⟩
  | register =>
      obtain ⟨unregistered, rfl⟩ := by simpa [step] using stepped
      refine iff_of_true ?_ Event.noConfusion
      rintro ⟨_, polling, _⟩
      exact watched (by simp [show s.thread = .polling from polling]) unregistered
  | start =>
      obtain ⟨_, rfl⟩ := by simpa [step] using stepped
      exact iff_of_true (by simp [LostWakeUp, Blocked]) Event.noConfusion
  | test =>
      obtain ⟨_, rfl⟩ := by simpa [step] using stepped
      refine iff_of_true ?_ Event.noConfusion
      rintro ⟨found, polling, _⟩
      simp [show s.fileExists = true from found] at polling
  | pollerReturns =>
      obtain ⟨_, rfl⟩ := by simpa [step] using stepped
      exact iff_of_true (by simp [LostWakeUp, Blocked]) Event.noConfusion
  | pollerThrows =>
      obtain ⟨_, rfl⟩ := by simpa [step] using stepped
      exact iff_of_true (by simp [LostWakeUp, Blocked]) Event.noConfusion
  | timeout =>
      obtain ⟨_, rfl⟩ := by simpa [step] using stepped
      exact iff_of_true (by simp [LostWakeUp, Blocked]) Event.noConfusion
  | trySuccess =>
      obtain ⟨_, rfl⟩ := by simpa [step] using stepped
      exact iff_of_true (by simp [LostWakeUp, Blocked]) Event.noConfusion
  | close =>
      obtain ⟨_, rfl⟩ := by simpa [step] using stepped
      exact iff_of_true (by simp [LostWakeUp, Blocked]) Event.noConfusion
  | cancel =>
      obtain ⟨_, rfl⟩ := by simpa [step] using stepped
      exact iff_of_true (by simp [LostWakeUp, Blocked]) Event.noConfusion

end Steps

theorem no_lost_wake_up_iff (events : List Event) (final : State)
    (ran : (waitForFile false).run (waitForFile false).initial events = some final) :
    (waitForFile false).Along (fun s => ¬ LostWakeUp s) (waitForFile false).initial events ↔
      (waitForFile false).Meets InTime (waitForFile false).initial events := by
  have initially : Watched (waitForFile false).initial := fun started => absurd rfl started
  rw [along_of_invariant (waitForFile false) Watched _ (fun s event next => step_watched false s next event) _ events
    initially]
  apply along_iff_meets (waitForFile false) InTime _ _ final events _ _ ran
  · exact fun s event _ next holds stepped => step_lost_iff false s next event holds stepped
  · exact ⟨initially, by simp [LostWakeUp, waitForFile]⟩

theorem no_lost_wake_up_woken : ∃ final,
    (waitForFile false).run (waitForFile false).initial
        [.register, .start, .test, .createOther, .createFile, .pollerReturns, .test] = some final ∧
      (waitForFile false).Along (fun s => ¬ LostWakeUp s) (waitForFile false).initial
        [.register, .start, .test, .createOther, .createFile, .pollerReturns, .test] :=
  ⟨_, rfl, (no_lost_wake_up_iff
    [.register, .start, .test, .createOther, .createFile, .pollerReturns, .test] _ rfl).mpr (by decide)⟩

-- Another file is created first, and the file after the thread has gone back to take.
theorem second_creation_is_missed :
    ¬ ∀ (events : List Event) (final : State),
      (waitForFile false).run (waitForFile false).initial events = some final → ¬ LostWakeUp final := by
  intro claimed
  have awake := claimed [.register, .start, .test, .createOther, .pollerReturns, .test, .createFile] _ rfl
  exact awake ⟨rfl, rfl, by decide, rfl⟩

end Toolbox8.FilesTools
