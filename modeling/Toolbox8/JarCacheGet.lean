import Toolbox8.JarCacheTransfers

set_option autoImplicit false

namespace Toolbox8.JarCacheTransfers

open Base BufferedActors JarCacheActor

-- A run from here can come to the state in which the upload is looked up.
def CanFinish (before : String → ByteString) (s : System) (running : Finished) : Prop :=
  ∃ events final, (system before).run s events = some final ∧ final.cache.state.lookup running.key = some running.id

structure Harmless (before : String → ByteString) (s next : System) : Prop where
  state : next.cache.state = s.cache.state
  receivers : ∀ (i : Nat) (t : Transfer), s.transfers[i]? = some t → t.io = .running → next.transfers[i]? = some t
  uploads : ∀ running, CanFinish before s running → CanFinish before next running

-- What a restart reads back is the state, unless an event has been persisted and not handled yet.
def Recovered (cache : JarCacheActor.System) : Prop :=
  match cache.pending with
  | some (.persisted command) => updateState cache.state command.evt = receiveRecover cache.journal
  | _ => cache.state = receiveRecover cache.journal

theorem step_recovered (cache next : JarCacheActor.System) (event : JarCacheActor.Event) (recovered : Recovered cache)
    (stepped : JarCacheActor.step cache event = some next) : Recovered next := by
  cases event with
  | verifyRequest keys missing =>
      obtain ⟨⟨idle, _⟩, same⟩ := Option.ite_none_right_eq_some.mp stepped
      rw [← Option.some.inj same]
      simpa [Recovered, idle] using recovered
  | finished running =>
      obtain ⟨⟨idle, _⟩, same⟩ := Option.ite_none_right_eq_some.mp stepped
      rw [← Option.some.inj same]
      simpa [Recovered, idle] using recovered
  | get keys =>
      obtain ⟨_, same⟩ := Option.ite_none_right_eq_some.mp stepped
      rw [← Option.some.inj same]
      exact recovered
  | persist =>
      simp only [JarCacheActor.step] at stepped
      split at stepped
      · rename_i command pending
        obtain rfl := Option.some.inj stepped
        have same : cache.state = receiveRecover cache.journal := by simpa [Recovered, pending] using recovered
        simp [Recovered, recover_append, same]
      · cases stepped
  | handle =>
      simp only [JarCacheActor.step] at stepped
      split at stepped
      · rename_i command pending
        obtain rfl := Option.some.inj stepped
        simpa [Recovered, pending] using recovered
      · cases stepped
  | crash surviving =>
      obtain ⟨_, same⟩ := Option.ite_none_right_eq_some.mp stepped
      rw [← Option.some.inj same]
      simp [Recovered]

theorem reachable_recovered (before : String → ByteString) (s : System) (reached : (system before).Reachable s) :
    Recovered s.cache := by
  apply reachable_keeps (system before) (fun s => Recovered s.cache) rfl _ s reached
  intro s event next recovered stepped
  cases event with
  | cache event =>
      obtain ⟨_, stepped⟩ := Option.ite_none_right_eq_some.mp stepped
      obtain ⟨cache, moved, rfl⟩ := Option.map_eq_some_iff.mp stepped
      exact step_recovered s.cache cache event recovered moved
  | get keys =>
      obtain ⟨⟨after, response⟩, handled, rfl⟩ := Option.map_eq_some_iff.mp stepped
      obtain ⟨_, ⟨_, rfl⟩ | ⟨_, restarted⟩⟩ := handle_get_cases s after keys response handled
      · exact recovered
      · rw [restart_outcome s after restarted]
        rfl
  | transfer index move =>
      simp only [system, step] at stepped
      split at stepped
      · cases stepped
      · obtain ⟨_, moved⟩ := Option.ite_none_right_eq_some.mp stepped
        obtain ⟨_, _, rfl⟩ := Option.map_eq_some_iff.mp moved
        exact recovered

theorem get_response_each (state : State) (jarOf : JarKey → String → Prop) (keys : List JarKey) (jars : List String)
    (each : ∀ key id, state.lookup key = some id → jarOf key (path id)) (answered : getResponse state keys = some jars) :
    List.Forall₂ jarOf keys jars := by
  induction keys generalizing jars with
  | nil =>
      obtain rfl : [] = jars := by simpa [getResponse] using answered
      exact .nil
  | cons key rest ih =>
      rw [getResponse, List.mapM_cons] at answered
      cases found : state.lookup key with
      | none => simp [found] at answered
      | some id =>
          cases later : rest.mapM (fun k => (state.lookup k).map path) with
          | none => simp [found, later] at answered
          | some others =>
              obtain rfl : path id :: others = jars := by simpa [found, later] using answered
              exact .cons (each key id found) (ih others later)

theorem restart_unchanged (s next : System) (idle : s.cache.pending = none) (recovered : Recovered s.cache)
    (none : ∀ t ∈ s.transfers, t.io ≠ .running) (restarted : restart s = some next) : next = s := by
  have state : receiveRecover s.cache.journal = s.cache.state := by
    rw [Recovered, idle] at recovered
    exact recovered.symm
  rw [restart_outcome s next restarted, state, cut_idle s.transfers none, ← idle]

theorem get_harmless_iff (before : String → ByteString) (s next : System) (keys : List JarKey) (response : Option (List String))
    (reached : (system before).Reachable s) (handled : handleGet s keys = some (next, response)) :
    Harmless before s next ↔ (∀ key ∈ keys, s.cache.state.lookup key ≠ none) ∨ ∀ t ∈ s.transfers, t.io ≠ .running := by
  have recovered := reachable_recovered before s reached
  obtain ⟨idle, ⟨known, rfl⟩ | ⟨unknown, restarted⟩⟩ := handle_get_cases s next keys response handled
  · exact iff_of_true ⟨rfl, fun _ _ found _ => found, fun _ finishes => finishes⟩ (.inl known)
  · constructor
    · intro harmless
      refine .inr ?_
      intro t member live
      obtain ⟨i, inside, here⟩ := List.getElem_of_mem member
      have found : s.transfers[i]? = some t := List.getElem?_eq_some_iff.mpr ⟨inside, here⟩
      have after := harmless.receivers i t found live
      rw [restart_outcome s next restarted] at after
      simp only [List.getElem?_map, found, Option.map_some, Option.some.injEq] at after
      have ended := congrArg Transfer.io after
      simp [Transfer.cut, live] at ended
    · intro condition
      have none := condition.resolve_left (by simpa using unknown)
      rw [restart_unchanged s next idle recovered none restarted]
      exact ⟨rfl, fun _ _ found _ => found, fun _ finishes => finishes⟩

def uploadingEvents (id : String) : List Event :=
  [.cache (.verifyRequest [jarKey id] [jarKey id]), .cache .persist, .cache .handle]

-- A Get for the first jar while the second is being uploaded.
theorem get_harmless_iff_known :
    ∃ s response, handleGet s [jarKey "jartree"] = some (s, response) ∧ s.transfers.map Transfer.io = [.done, .running] ∧
      (Harmless (fun _ => []) s s ↔ (∀ key ∈ [jarKey "jartree"], s.cache.state.lookup key ≠ none) ∨
        ∀ t ∈ s.transfers, t.io ≠ .running) := by
  let events := uploadEvents [.deliver (.data [7]), .accept, .done, .write, .deliver .complete, .close] ++
    uploadingEvents "other" ++ [.transfer 1 (.deliver (.data [8]))]
  have ran : ((system (fun _ => [])).run (system (fun _ => [])).initial events).map
      (fun s => (s.cache.pending, s.cache.state.lookup (jarKey "jartree"), s.transfers.map Transfer.io)) =
      some (none, some 0, [.done, .running]) := by decide +kernel
  obtain ⟨s, run, outcome⟩ := Option.map_eq_some_iff.mp ran
  obtain ⟨idle, rest⟩ := Prod.mk.inj outcome
  obtain ⟨found, live⟩ := Prod.mk.inj rest
  have handled : handleGet s [jarKey "jartree"] = some (s, some [path 0]) := by
    simp [handleGet, getResponse, idle, found]
  exact ⟨s, _, handled, live, get_harmless_iff (fun _ => []) s s [jarKey "jartree"] _ ⟨events, run⟩ handled⟩

-- The upload is stopped before its first element, and its Finished makes the empty file the jar.
theorem unknown_key_stops_upload :
    ∃ s next final, (system (fun _ => [])).run (system (fun _ => [])).initial (uploadingEvents "jartree") = some s ∧
      handleGet s [jarKey "other"] = some (next, none) ∧ next.transfers.map Transfer.io = [.done] ∧
        ¬ Harmless (fun _ => []) s next ∧
      (system (fun _ => [])).run next [.cache (.finished ⟨jarKey "jartree", 0⟩), .cache .persist, .cache .handle] = some final ∧
        final.cache.state.lookup (jarKey "jartree") = some 0 ∧ final.files (path 0) = [] := by
  have ran : ((system (fun _ => [])).run (system (fun _ => [])).initial (uploadingEvents "jartree")).bind (fun s =>
      (handleGet s [jarKey "other"]).bind (fun after =>
        ((system (fun _ => [])).run after.1
            [.cache (.finished ⟨jarKey "jartree", 0⟩), .cache .persist, .cache .handle]).map (fun final =>
          ((s.transfers.map Transfer.io, after.2, after.1.transfers.map Transfer.io),
            final.cache.state.lookup (jarKey "jartree"), final.files (path 0))))) =
      some (([.running], none, [.done]), some 0, []) := by decide +kernel
  obtain ⟨s, run, ran⟩ := Option.bind_eq_some_iff.mp ran
  obtain ⟨⟨next, response⟩, handled, ran⟩ := Option.bind_eq_some_iff.mp ran
  obtain ⟨final, later, outcome⟩ := Option.map_eq_some_iff.mp ran
  obtain ⟨ios, found, empty⟩ := Prod.mk.inj outcome |>.imp id Prod.mk.inj
  obtain ⟨live, rest⟩ := Prod.mk.inj ios
  obtain ⟨rfl, ended⟩ := Prod.mk.inj rest
  refine ⟨s, next, final, run, handled, ended, ?_, later, found, empty⟩
  intro harmless
  obtain ⟨t, only, io⟩ := List.map_eq_singleton_iff.mp live
  have after := harmless.receivers 0 t (by simp [only]) io
  have member : t.io ∈ next.transfers.map Transfer.io := List.mem_map_of_mem (List.mem_of_getElem? after)
  rw [ended, io] at member
  simp at member

end Toolbox8.JarCacheTransfers
