import Toolbox8.AkkaJartreeClientTools
import Toolbox8.JarCacheUploaderWork
import Toolbox8.PluggableServiceWork

set_option autoImplicit false

namespace Toolbox8.AkkaJartreeClientTools

open Base

variable {Instance Previous : Type}

-- What is plugged can be plugged, and the service is not restarted.
def Succeeds (s : System Instance) : Event Instance Previous → Prop
  | .service event => PluggableService.Succeeds s.service event
  | _ => True

instance decidableSucceeds (s : System Instance) : (event : Event Instance Previous) → Decidable (Succeeds s event)
  | .service event => inferInstanceAs (Decidable (PluggableService.Succeeds s.service event))
  | .cache _ => isTrue trivial
  | .get _ => isTrue trivial
  | .plug _ => isTrue trivial
  | .command _ => isTrue trivial

-- All but a new client and a command of somebody else.
def isInternal : Event Instance Previous → Prop
  | .cache (.preStart _) => False
  | .command _ => False
  | _ => True

section Succeeding

variable (keysOf : Nat → List JarKey) (className : Nat → String)

def succeeding (Instance Previous : Type) : Machine (System Instance) (Event Instance Previous) where
  initial := (plugs keysOf className Instance Previous).initial
  step := fun s event => if Succeeds s event then step keysOf className s event else none

-- arrived: a client sends its PlugRequest once.
structure Undisturbed (s : System Instance) : Prop where
  inv : Invariant keysOf s
  begun : PluggableService.Begun s.service
  arrived : ∀ u, s.service.arrived.countP (PluggableService.Message.isEvtOf (.client u)) = if u ∈ s.asked then 1 else 0

def coming (s : System Instance) : Nat := s.caches.asked.countP (fun u => u ∉ s.asked)

def unanswered (gets : List Get) : Nat := gets.countP (fun get => get.outcome = .asked)

-- A PlugRequest on its way is one more message for the mailbox.
def work (s : System Instance) : Nat :=
  JarCacheUploader.work keysOf s.caches + unanswered s.gets + PluggableService.work (coming s) s.service + 2 * coming s

-- Every client has been told Done once, every Get is answered, and neither actor has anything left to do.
structure Finished (s : System Instance) : Prop where
  told : ∀ u ∈ s.caches.asked, s.service.replies.countP (PluggableService.doneFor (.client u)) = 1
  stopped : ∀ u ∈ s.caches.asked, (s.caches.uploaders u).state.stopped = true
  answered : ∀ get ∈ s.gets, ∃ jars, get.outcome = .answered jars
  idle : PluggableService.Idle s.service
  quiet : s.caches.cache.pending = none

section Steps

variable (s : System Instance)

theorem pursue_asked (service : PluggableService.System Asker Instance) : (s.pursue service).asked = s.asked := by
  unfold System.pursue
  split
  · simp only [System.ask]
    split <;> rfl
  · rfl

theorem pursue_unanswered (service : PluggableService.System Asker Instance) :
    unanswered (s.pursue service).gets ≤ unanswered s.gets + (service.running.length - s.service.running.length) := by
  unfold System.pursue
  split
  · rename_i p here
    have longer := (List.getElem?_eq_some_iff.mp here).1
    simp only [System.ask]
    split
    · rename_i keys jars
      have one : unanswered [⟨keys, .asked⟩] = 1 := rfl
      simp only [unanswered, List.countP_append] at one ⊢
      omega
    · exact Nat.le_add_right _ _
  · exact Nat.le_add_right _ _

theorem not_client (m : Command Instance) (u : Nat) (other : isOther m = true) :
    PluggableService.Message.isEvtOf (.client u) m = false := by
  cases m with
  | evt e sender =>
      cases sender with
      | client v => cases e <;> cases other
      | other n => simp [PluggableService.Message.isEvtOf]
  | _ => rfl

theorem arrived_command (m : Command Instance) (undisturbed : Undisturbed keysOf s) (other : isOther m = true) (u : Nat) :
    (s.service.arrived ++ [m]).countP (PluggableService.Message.isEvtOf (.client u)) = if u ∈ s.asked then 1 else 0 := by
  rw [List.countP_append, undisturbed.arrived, List.countP_singleton, not_client m u other]
  rfl

theorem arrived_plug (u v : Nat) (e : PluggableService.Evt) (undisturbed : Undisturbed keysOf s) (fresh : u ∉ s.asked) :
    (s.service.arrived ++ [(.evt e (.client u) : Command Instance)]).countP
        (PluggableService.Message.isEvtOf (.client v : Asker)) = if v ∈ s.asked ++ [u] then 1 else 0 := by
  rw [List.countP_append, undisturbed.arrived, List.countP_singleton]
  by_cases same : v = u
  · subst same
    simp [fresh, PluggableService.Message.isEvtOf]
  · simp [same, Ne.symm same, PluggableService.Message.isEvtOf]

theorem arrives_last (service next : PluggableService.System Asker Instance) (m : Command Instance)
    (arrives : PluggableService.step service (.arrive m : PluggableService.Event Asker Instance Previous) = some next) :
    next = { service with mailbox := service.mailbox ++ [m], arrived := service.arrived ++ [m] } := by
  obtain ⟨_, same⟩ := Option.ite_none_left_eq_some.mp arrives
  exact (Option.some.inj same).symm

theorem step_undisturbed (next : System Instance) (event : Event Instance Previous) (undisturbed : Undisturbed keysOf s)
    (succeeds : Succeeds s event) (stepped : step keysOf className s event = some next) : Undisturbed keysOf next := by
  have inv := step_invariant keysOf className s event next undisturbed.inv stepped
  have begun := undisturbed.begun
  cases step_moved keysOf className s next event stepped with
  | cache event caches cached => exact ⟨inv, begun, undisturbed.arrived⟩
  | answers number keys jars asks response => exact ⟨inv, begun, undisturbed.arrived⟩
  | throws number keys _ asks response => exact absurd response (get_unthrown keysOf s number keys undisturbed.inv asks)
  | plug u service stopped fresh arrives =>
      obtain rfl := arrives_last s.service service _ arrives
      refine ⟨inv, PluggableService.step_begun s.service _ _ begun ?_ arrives, fun v => ?_⟩
      · trivial
      · exact arrived_plug keysOf s u v _ undisturbed fresh
  | command m service other arrives =>
      obtain rfl := arrives_last s.service service m arrives
      refine ⟨inv, PluggableService.step_begun s.service _ _ begun ?_ arrives, fun v => ?_⟩
      · trivial
      · exact arrived_command keysOf s m undisturbed other v
  | complete index world service completed =>
      refine ⟨inv, PluggableService.step_begun s.service service (.complete index world) begun succeeds completed, fun v => ?_⟩
      rw [← undisturbed.arrived v, ← PluggableService.step_arrived s.service service _ (by simp) completed]
  | service event service unasked running alive moved =>
      refine ⟨inv, ?_, fun v => ?_⟩
      · rw [(pursue_frame s service).2]
        exact PluggableService.step_begun s.service service event begun succeeds moved
      · rw [(pursue_frame s service).2, pursue_asked, ← undisturbed.arrived v,
          PluggableService.step_arrived s.service service event unasked moved]

theorem fewer_coming (asked plugged : List Nat) (u : Nat) (distinct : asked.Nodup) (member : u ∈ asked) (fresh : u ∉ plugged) :
    asked.countP (fun v => v ∉ plugged ++ [u]) + 1 = asked.countP (fun v => v ∉ plugged) := by
  induction asked with
  | nil => cases member
  | cons v rest ih =>
      obtain ⟨first, later⟩ := List.nodup_cons.mp distinct
      rw [List.countP_cons, List.countP_cons]
      by_cases here : u = v
      · subst here
        have same : rest.countP (fun v => v ∉ plugged ++ [u]) = rest.countP (fun v => v ∉ plugged) := by
          refine List.countP_congr (fun w inside => ?_)
          have other : w ≠ u := fun same => first (same ▸ inside)
          simp [other]
        rw [same]
        simp [fresh]
      · have counted := ih later (List.mem_of_ne_of_mem here member)
        have kept : (v ∉ plugged ++ [u]) = (v ∉ plugged) := by simp [Ne.symm here]
        simp only [kept]
        omega

theorem step_works (next : System Instance) (event : Event Instance Previous) (undisturbed : Undisturbed keysOf s)
    (succeeds : Succeeds s event) (internal : isInternal event) (stepped : step keysOf className s event = some next) :
    work keysOf next < work keysOf s := by
  have inv := undisturbed.inv
  cases step_moved keysOf className s next event stepped with
  | cache event caches cached =>
      have created : ∀ u, event ≠ .preStart u := by
        rintro u rfl
        exact internal
      have asks : ∀ keys, event ≠ .get keys := by
        rintro keys rfl
        cases stepped
      have less := JarCacheUploader.step_works keysOf s.caches caches event inv.caches created asks cached
      have same : coming { s with caches := caches } = coming s := by
        simp only [coming, JarCacheUploader.step_asked keysOf s.caches caches event created cached]
      simp only [work, same]
      omega
  | answers number keys jars asks response =>
      have counted : unanswered (s.gets.set number ⟨keys, .answered jars⟩) + 1 = unanswered s.gets := by
        simpa [unanswered] using
          count_set (fun get => get.outcome = .asked) s.gets number ⟨keys, .asked⟩ ⟨keys, .answered jars⟩ asks
      have same : coming { s with gets := s.gets.set number ⟨keys, .answered jars⟩ } = coming s := rfl
      simp only [work, same]
      omega
  | throws number keys _ asks response => exact absurd response (get_unthrown keysOf s number keys inv asks)
  | plug u service stopped fresh arrives =>
      have member := JarCacheUploader.stopped_asked keysOf s.caches u inv.caches stopped
      have fewer : coming { s with service := service, asked := s.asked ++ [u] } + 1 = coming s :=
        fewer_coming s.caches.asked s.asked u inv.caches.asked member fresh
      have arrived := PluggableService.arrive_works (coming { s with service := service, asked := s.asked ++ [u] }) s.service
        (.plugRequest (plugRequest keysOf className u)) (.client u)
      rw [← arrives_last s.service service _ arrives, fewer] at arrived
      simp only [work, arrived]
      omega
  | command m service other arrives => exact internal.elim
  | complete index world service completed =>
      have less := PluggableService.step_works (coming s) s.service service (.complete index world) undisturbed.begun succeeds
        (by simp) completed
      have same : coming { s with service := service, waits := s.waits.eraseIdx index } = coming s := rfl
      simp only [work, same]
      omega
  | service event service unasked running alive moved =>
      have less := PluggableService.step_works (coming s) s.service service event undisturbed.begun succeeds unasked moved
      have more := pursue_unanswered s service
      have same : coming (s.pursue service) = coming s := by rw [coming, (pursue_frame s service).1, pursue_asked, coming]
      simp only [work, same, (pursue_frame s service).1, (pursue_frame s service).2]
      omega

def GoesOn (Previous : Type) : Prop :=
  ∃ (event : Event Instance Previous) (next : System Instance),
    isInternal event ∧ (succeeding keysOf className Instance Previous).step s event = some next

theorem step_goes_on (event : Event Instance Previous) (internal : isInternal event) (succeeds : Succeeds s event)
    (enabled : (step keysOf className s event).isSome = true) : GoesOn keysOf className s Previous := by
  obtain ⟨next, stepped⟩ := Option.isSome_iff_exists.mp enabled
  exact ⟨event, next, internal, by simp only [succeeding, if_pos succeeds, stepped]⟩

theorem cache_goes_on (moves : ¬ JarCacheUploader.Quiet keysOf s.caches) :
    GoesOn keysOf className s Previous := by
  simp only [JarCacheUploader.Quiet, not_forall, not_or, not_exists] at moves
  obtain ⟨event, caches, cached, created, asks⟩ := moves
  refine step_goes_on keysOf className s (.cache event) ?_ trivial ?_
  · cases event with
    | preStart u => exact created u rfl
    | _ => trivial
  · cases event with
    | get keys => exact absurd rfl (asks keys)
    | _ => simp only [step, cacheStep, cached, Option.map_some, Option.isSome_some]

theorem plug_goes_on (u : Nat) (stopped : (s.caches.uploaders u).state.stopped = true) (fresh : u ∉ s.asked) :
    GoesOn keysOf className s Previous := by
  refine step_goes_on keysOf className s (.plug u) trivial trivial ?_
  rw [step, if_pos ⟨stopped, fresh⟩]
  rfl

theorem get_goes_on (number : Nat) (keys : List JarKey) (inv : Invariant keysOf s) (idle : s.caches.cache.pending = none)
    (asks : s.gets[number]? = some ⟨keys, .asked⟩) :
    GoesOn keysOf className s Previous := by
  obtain ⟨jars, response, _⟩ := get_step keysOf s number keys inv asks
  refine step_goes_on keysOf className s (.get number) trivial trivial ?_
  simp only [step, asks, idle, if_true, response, Option.isSome_some]

theorem all_answered (inv : Invariant keysOf s) (asks : ∀ (number : Nat) keys, s.gets[number]? ≠ some ⟨keys, .asked⟩)
    (get : Get) (member : get ∈ s.gets) : ∃ jars, get.outcome = .answered jars := by
  obtain ⟨number, here⟩ := List.mem_iff_getElem?.mp member
  have unthrown := (inv.gets get member).answerable
  obtain ⟨keys, outcome⟩ := get
  cases outcome with
  | asked => exact absurd here (asks number keys)
  | answered jars => exact ⟨jars, rfl⟩
  | thrown => exact absurd rfl unthrown

theorem plugging_goes_on (p : PluggableService.Plugging Asker Instance) (inv : Invariant keysOf s)
    (running : s.service.running = [p]) (answered : ∀ get ∈ s.gets, ∃ jars, get.outcome = .answered jars) :
    GoesOn keysOf className s Previous := by
  let world : PluggableService.World Instance Previous := PluggableService.plainWorld
  have outcome : world.plugs p.request (p.stale.getD s.service.plugged) = .ok .void :=
    PluggableService.plain_world_plugs p.request (p.stale.getD s.service.plugged)
  have succeeds : PluggableService.Succeeds s.service (.complete 0 world) := by
    intro q here
    simp only [running, List.getElem?_cons_zero, Option.mem_def, Option.some.injEq] at here
    rw [← here, outcome]
    rfl
  have resolves : s.resolves 0 world = true := by
    have waits := inv.waits
    rw [running, List.map_singleton, List.forall₂_cons_right_iff] at waits
    obtain ⟨wait, rest, here, _, same⟩ := waits
    simp only [System.resolves, same, List.getElem?_cons_zero]
    unfold WaitsFor at here
    split at here
    · obtain ⟨number, get, rfl, found, _⟩ := here
      obtain ⟨jars, outcome⟩ := answered get (List.mem_of_getElem? found)
      obtain ⟨keys, _⟩ := get
      simp only at outcome
      simp only [found, outcome]
    · rw [here]
  refine step_goes_on keysOf className s (.service (.complete 0 world)) trivial succeeds ?_
  simp only [step, resolves, if_true, serviceStep, PluggableService.step, running, List.getElem?_cons_zero, outcome,
    Option.map_some, Option.isSome_some]

theorem own_goes_on (event : PluggableService.Event Asker Instance Previous) (service : PluggableService.System Asker Instance)
    (own : event ∈ [.receive, .persist, .handle, .recover]) (moved : PluggableService.step s.service event = some service) :
    GoesOn keysOf className s Previous := by
  simp only [List.mem_cons, List.not_mem_nil, or_false] at own
  refine step_goes_on keysOf className s (.service event) trivial ?_ ?_
  · rcases own with rfl | rfl | rfl | rfl <;> trivial
  · rcases own with rfl | rfl | rfl | rfl <;> simp only [step, moved, Option.map_some, Option.isSome_some]

theorem idle_told (u : Nat) (undisturbed : Undisturbed keysOf s) (idle : PluggableService.Idle s.service) (asked : u ∈ s.asked) :
    s.service.replies.countP (PluggableService.doneFor (.client u)) = 1 := by
  rw [PluggableService.served_done (.client u) s.service.taken s.service.produced s.service.replies idle.served, ← idle.arrived,
    PluggableService.ordered_evts, undisturbed.arrived, if_pos asked]

-- The cache first, then the clients, then the Gets, then the service.
theorem goes_on (undisturbed : Undisturbed keysOf s) (unfinished : ¬ Finished s) :
    GoesOn keysOf className s Previous := by
  have inv := undisturbed.inv
  by_cases quiet : JarCacheUploader.Quiet keysOf s.caches
  · have pending := JarCacheUploader.quiet_idle keysOf s.caches quiet
    have stopped := fun u => JarCacheUploader.quiet_stopped keysOf s.caches u inv.caches quiet
    by_cases comes : ∃ u ∈ s.caches.asked, u ∉ s.asked
    · obtain ⟨u, member, fresh⟩ := comes
      exact plug_goes_on keysOf className s u (stopped u member) fresh
    · by_cases asks : ∃ (number : Nat) (keys : List JarKey), s.gets[number]? = some ⟨keys, .asked⟩
      · obtain ⟨number, keys, here⟩ := asks
        exact get_goes_on keysOf className s number keys inv pending here
      · have answered := all_answered keysOf s inv (fun number keys here => asks ⟨number, keys, here⟩)
        have turn := PluggableService.begun_cases Previous s.service undisturbed.begun
        rcases turn with ⟨event, service, own, moved⟩ | ⟨p, running⟩ | idle
        · exact own_goes_on keysOf className s event service own moved
        · exact plugging_goes_on keysOf className s p inv running answered
        · have asked : ∀ u ∈ s.caches.asked, u ∈ s.asked := by simpa using comes
          have told := fun u member => idle_told keysOf s u undisturbed idle (asked u member)
          exact absurd ⟨told, stopped, answered, idle, pending⟩ unfinished
  · exact cache_goes_on keysOf className s quiet

end Steps

theorem initial_undisturbed : Undisturbed keysOf (succeeding keysOf className Instance Previous).initial where
  inv := initial_plugs keysOf className
  begun := .recovering [] rfl rfl
  arrived := fun u => by simp [succeeding, plugs, PluggableService.service]

theorem succeeding_undisturbed (s : System Instance) (event : Event Instance Previous) (next : System Instance)
    (undisturbed : Undisturbed keysOf s) (stepped : (succeeding keysOf className Instance Previous).step s event = some next) :
    Undisturbed keysOf next := by
  obtain ⟨succeeds, moved⟩ := Option.ite_none_right_eq_some.mp stepped
  exact step_undisturbed keysOf className s next event undisturbed succeeds moved

theorem succeeding_works (s : System Instance) (event : Event Instance Previous) (next : System Instance)
    (undisturbed : Undisturbed keysOf s) (internal : isInternal event)
    (stepped : (succeeding keysOf className Instance Previous).step s event = some next) : work keysOf next < work keysOf s := by
  obtain ⟨succeeds, moved⟩ := Option.ite_none_right_eq_some.mp stepped
  exact step_works keysOf className s next event undisturbed succeeds internal moved

-- ends: there is no deadlock, where nothing goes on by itself everybody is served.
structure PlugProgress (Previous : Type) (s : System Instance) : Prop where
  once : ∀ u, s.service.replies.countP (PluggableService.doneFor (.client u)) ≤ 1
  bounded : ∀ (events : List (Event Instance Previous)) final, (∀ event ∈ events, isInternal event) →
    (succeeding keysOf className Instance Previous).run s events = some final → events.length ≤ work keysOf s
  finishes : ∃ (events : List (Event Instance Previous)) (final : System Instance), (∀ event ∈ events, isInternal event) ∧
    (succeeding keysOf className Instance Previous).run s events = some final ∧ Finished final
  ends : (∀ event : Event Instance Previous, isInternal event →
    (succeeding keysOf className Instance Previous).step s event = none) → Finished s

-- From whatever the clients, the cache and the service have come to while all pluggings succeed.
theorem plugs_finish (s : System Instance) (reached : (succeeding keysOf className Instance Previous).Reachable s) :
    PlugProgress keysOf className Previous s := by
  have undisturbed : Undisturbed keysOf s :=
    reachable_keeps (succeeding keysOf className Instance Previous) (Undisturbed keysOf) (initial_undisturbed keysOf className)
      (succeeding_undisturbed keysOf className) s reached
  refine ⟨fun u => ?_, fun events final internal ran => ?_, ?_, fun stuck => ?_⟩
  · have told := PluggableService.begun_done (.client u) s.service undisturbed.begun
    rw [undisturbed.arrived] at told
    split at told <;> omega
  · have bound := internal_run_bounded (succeeding keysOf className Instance Previous) (Undisturbed keysOf) isInternal
      (work keysOf) (succeeding_undisturbed keysOf className) (succeeding_works keysOf className) s final events undisturbed internal ran
    omega
  · exact internal_run_finishes (succeeding keysOf className Instance Previous) (Undisturbed keysOf) isInternal Finished
      (work keysOf) (succeeding_undisturbed keysOf className) (succeeding_works keysOf className) (goes_on keysOf className) s undisturbed
  · by_contra unfinished
    have moves : GoesOn keysOf className s Previous := goes_on keysOf className s undisturbed unfinished
    obtain ⟨event, next, internal, stepped⟩ := moves
    rw [stuck event internal] at stepped
    cases stepped

end Succeeding

-- One client has been served, the request of the other is in the mailbox again.
theorem plugs_finish_second :
    ∃ s : System Nat, (s.asked = [1, 0] ∧ s.service.replies = [(.client 1, .done)]) ∧
      PlugProgress overlappingKeys (fun _ => "Root") Unit s := by
  have ran : ((succeeding overlappingKeys (fun _ => "Root") Nat Unit).run
      (succeeding overlappingKeys (fun _ => "Root") Nat Unit).initial firstPlug).map
        (fun s => (s.asked, s.service.replies)) = some ([1, 0], [(.client 1, .done)]) := by decide +kernel
  obtain ⟨s, run, outcome⟩ := Option.map_eq_some_iff.mp ran
  exact ⟨s, Prod.mk.inj outcome, plugs_finish overlappingKeys (fun _ => "Root") s ⟨firstPlug, run⟩⟩

end Toolbox8.AkkaJartreeClientTools
