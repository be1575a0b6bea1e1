import Toolbox8.JarCacheUploaderRuns

set_option autoImplicit false

namespace Toolbox8.JarCacheUploader

open Base JarCacheActor

variable (keysOf : Nat → List JarKey)

-- Its Finished has been received.
def System.Brought (s : System) (f : Finished) : Prop := ∃ t ∈ s.transfers, t.running = f ∧ t.phase = .reported

-- Every id of the lookup is that of a transfer that has finished.
structure Traced (s : System) : Prop where
  lookup : ∀ key id, s.cache.state.lookup key = some id → s.Brought ⟨key, id⟩
  putting : ∀ f, s.command = some (.put f) → s.Brought f

theorem set_keeps_brought (transfers : List Transfer) (target : Nat) (t : Transfer) (phase : Phase) (f : Finished)
    (here : transfers[target]? = some t) (unreported : t.phase ≠ .reported)
    (brought : ∃ u ∈ transfers, u.running = f ∧ u.phase = .reported) :
    ∃ u ∈ transfers.set target { t with phase := phase }, u.running = f ∧ u.phase = .reported := by
  obtain ⟨u, member, same, reported⟩ := brought
  refine ⟨u, mem_set_other transfers target t _ u here member ?_, same, reported⟩
  rintro rfl
  exact unreported reported

theorem start_keeps_brought (targets : List Nat) (transfers : List Transfer) (f : Finished)
    (each : ∀ target ∈ targets, ∃ t, transfers[target]? = some t ∧ t.phase = .created)
    (brought : ∃ t ∈ transfers, t.running = f ∧ t.phase = .reported) :
    ∃ t ∈ startTransfers targets transfers, t.running = f ∧ t.phase = .reported := by
  obtain ⟨t, member, same, reported⟩ := brought
  obtain ⟨target, here⟩ := List.mem_iff_getElem?.mp member
  refine ⟨t, List.mem_iff_getElem?.mpr ⟨target, ?_⟩, same, reported⟩
  rw [start_transfers_get, if_neg, here]
  intro begins
  obtain ⟨u, there, created⟩ := each target begins
  rw [here, Option.some.injEq] at there
  simp [← there, reported] at created

-- The step of the cache itself behind a step of the system, and what becomes of the transfers.
inductive Moved (s next : System) : Prop where
  | frame (cache : next.cache = s.cache) (transfers : ∀ f, s.Brought f → next.Brought f)
  | asks (state : next.cache.state = s.cache.state) (command : ∀ f, next.command ≠ some (.put f))
      (transfers : ∀ f, s.Brought f → next.Brought f)
  | persists (state : next.cache.state = s.cache.state) (command : next.command = s.command)
      (transfers : ∀ f, s.Brought f → next.Brought f)
  | puts (f : Finished) (state : next.cache.state = s.cache.state) (command : next.command = some (.put f))
      (brought : next.Brought f) (transfers : ∀ f, s.Brought f → next.Brought f)
  | handles (command : Command) (was : s.command = some command) (now : next.command = none)
      (state : next.cache.state = updateState s.cache.state command.evt) (transfers : ∀ f, s.Brought f → next.Brought f)

theorem step_moved (s next : System) (event : Event) (inv : Invariant keysOf s)
    (stepped : step keysOf s event = some next) : Moved s next := by
  cases event with
  | preStart u =>
      simp only [step, Option.ite_none_left_eq_some, Option.some.injEq] at stepped
      obtain ⟨_, rfl⟩ := stepped
      exact .frame rfl (fun _ brought => brought)
  | verifyRequest u missing =>
      simp only [step, JarCacheActor.step, Option.ite_none_right_eq_some, Option.map_eq_some_iff, Option.some.injEq] at stepped
      obtain ⟨_, _, ⟨_, rfl⟩, rfl⟩ := stepped
      exact .asks rfl (by simp [System.command, commandOf]) (fun _ brought => brought)
  | get keys =>
      simp only [step, JarCacheActor.step, Option.map_eq_some_iff, Option.ite_none_right_eq_some, Option.some.injEq] at stepped
      obtain ⟨_, ⟨_, rfl⟩, rfl⟩ := stepped
      exact .frame rfl (fun _ brought => brought)
  | persist =>
      simp only [step, JarCacheActor.step, Option.map_eq_some_iff] at stepped
      obtain ⟨cache, persisted, rfl⟩ := stepped
      split at persisted
      · rename_i command pending
        rw [Option.some.injEq] at persisted
        subst persisted
        exact .persists rfl (by simp [System.command, pending, commandOf]) (fun _ brought => brought)
      · simp at persisted
  | handle order =>
      simp only [step] at stepped
      split at stepped
      · rename_i startId missing pending
        simp only [JarCacheActor.step, pending, Option.map_some, Option.ite_none_right_eq_some, Option.some.injEq] at stepped
        obtain ⟨_, rfl⟩ := stepped
        refine .handles (.verify startId missing) (by simp [System.command, pending, commandOf]) rfl rfl ?_
        rintro f ⟨t, member, same⟩
        exact ⟨t, List.mem_append_left _ member, same⟩
      · rename_i running pending
        simp only [JarCacheActor.step, pending, Option.map_some, Option.some.injEq] at stepped
        subst stepped
        exact .handles (.put running) (by simp [System.command, pending, commandOf]) rfl rfl (fun _ brought => brought)
      · simp at stepped
  | receive u =>
      simp only [step] at stepped
      split at stepped
      · simp at stepped
      · rename_i m rest head
        rw [Option.some.injEq] at stepped
        subst stepped
        obtain ⟨running, due⟩ := due_reply keysOf s u m rest inv head
        obtain ⟨_, split, _⟩ := receive_sound (s.uploaders u) m (inv.sound u) running due
        have taken := taken_requests s u m rest _ _ head split
        obtain ⟨_, each⟩ := taken_created keysOf s u _ _ inv taken
        refine .frame rfl (fun f => start_keeps_brought _ s.transfers f ?_)
        intro target member
        obtain ⟨t, here, _, created⟩ := each target member
        exact ⟨t, here, created⟩
  | complete target =>
      simp only [step] at stepped
      split at stepped
      · simp at stepped
      · rename_i t here
        simp only [Option.ite_none_right_eq_some, Option.some.injEq] at stepped
        obtain ⟨started, rfl⟩ := stepped
        exact .frame rfl (fun f => set_keeps_brought s.transfers target t .finished f here (by simp [started]))
  | finished target =>
      simp only [step] at stepped
      split at stepped
      · simp at stepped
      · rename_i t here
        simp only [JarCacheActor.step, Option.ite_none_right_eq_some, Option.map_eq_some_iff, Option.some.injEq] at stepped
        obtain ⟨finished, _, ⟨_, rfl⟩, rfl⟩ := stepped
        refine .puts t.running rfl (by simp [System.command, commandOf]) ?_
          (fun f => set_keeps_brought s.transfers target t .reported f here (by simp [finished]))
        have short := (List.getElem?_eq_some_iff.mp here).1
        exact ⟨{ t with phase := .reported }, List.mem_of_getElem? (List.getElem?_set_self short), rfl, rfl⟩

theorem moved_brought (s next : System) (f : Finished) (moved : Moved s next) (brought : s.Brought f) : next.Brought f := by
  cases moved with
  | frame cache transfers => exact transfers f brought
  | asks state command transfers => exact transfers f brought
  | persists state command transfers => exact transfers f brought
  | puts g state command new transfers => exact transfers f brought
  | handles command was now state transfers => exact transfers f brought

theorem step_keeps_found (s next : System) (key : JarKey) (moved : Moved s next) (found : s.Found key) : next.Found key := by
  unfold System.Found at *
  cases moved with
  | frame cache => rwa [cache]
  | asks state => rwa [state]
  | persists state => rwa [state]
  | puts f state => rwa [state]
  | handles command was now state =>
      rw [state]
      exact update_keeps_found s.cache.state command key found

theorem step_traced (s next : System) (traced : Traced s) (moved : Moved s next) : Traced next := by
  cases moved with
  | frame cache transfers =>
      refine ⟨fun key id here => transfers _ (traced.lookup key id (by rwa [← cache])), fun f here => transfers f (traced.putting f ?_)⟩
      rwa [System.command, ← cache]
  | asks state command transfers =>
      exact ⟨fun key id here => transfers _ (traced.lookup key id (by rwa [← state])), fun f here => absurd here (command f)⟩
  | persists state command transfers =>
      exact ⟨fun key id here => transfers _ (traced.lookup key id (by rwa [← state])),
        fun f here => transfers f (traced.putting f (command ▸ here))⟩
  | puts f state command brought transfers =>
      refine ⟨fun key id here => transfers _ (traced.lookup key id (by rwa [← state])), fun g here => ?_⟩
      rw [command, Option.some.injEq, Command.put.injEq] at here
      exact here ▸ brought
  | handles command was now state transfers =>
      refine ⟨fun key id here => transfers _ ?_, fun f here => by simp [now] at here⟩
      rw [state] at here
      cases command with
      | verify startId missing => exact traced.lookup key id here
      | put f =>
          by_cases same : key = f.key
          · subst same
            obtain rfl : f.id = id := by simpa [updateState, Command.evt] using here
            exact traced.putting f was
          · exact traced.lookup key id (by simpa [updateState, Command.evt, Function.update_of_ne same] using here)

theorem step_keeps_stopped (s next : System) (event : Event) (u : Nat) (stepped : step keysOf s event = some next)
    (stopped : (s.uploaders u).state.stopped = true) : (next.uploaders u).state.stopped = true := by
  cases event with
  | receive v =>
      simp only [step] at stepped
      split at stepped
      · cases stepped
      · rename_i m rest head
        obtain rfl := Option.some.inj stepped
        by_cases here : u = v
        · subst here
          simp [Uploader.receive, stopped]
        · simpa [Function.update_of_ne here] using stopped
  | preStart v =>
      obtain ⟨_, same⟩ := Option.ite_none_left_eq_some.mp stepped
      exact Option.some.inj same ▸ stopped
  | verifyRequest v missing =>
      obtain ⟨_, asked⟩ := Option.ite_none_right_eq_some.mp stepped
      obtain ⟨_, _, rfl⟩ := Option.map_eq_some_iff.mp asked
      exact stopped
  | get keys =>
      obtain ⟨_, _, rfl⟩ := Option.map_eq_some_iff.mp stepped
      exact stopped
  | persist =>
      obtain ⟨_, _, rfl⟩ := Option.map_eq_some_iff.mp stepped
      exact stopped
  | handle order =>
      simp only [step] at stepped
      split at stepped
      · obtain ⟨_, handled⟩ := Option.ite_none_right_eq_some.mp stepped
        obtain ⟨_, _, rfl⟩ := Option.map_eq_some_iff.mp handled
        exact stopped
      · obtain ⟨_, _, rfl⟩ := Option.map_eq_some_iff.mp stepped
        exact stopped
      · cases stepped
  | complete target =>
      simp only [step] at stepped
      split at stepped
      · cases stepped
      · obtain ⟨_, same⟩ := Option.ite_none_right_eq_some.mp stepped
        exact Option.some.inj same ▸ stopped
  | finished target =>
      simp only [step] at stepped
      split at stepped
      · cases stepped
      · obtain ⟨_, finished⟩ := Option.ite_none_right_eq_some.mp stepped
        obtain ⟨_, _, rfl⟩ := Option.map_eq_some_iff.mp finished
        exact stopped

end Toolbox8.JarCacheUploader
