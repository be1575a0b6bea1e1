import Toolbox8.Base.Refinement
import Toolbox8.JarCacheGet
import Toolbox8.JarCacheUploaderTrace
import Toolbox8.PluggableServiceContents
import Mathlib.Data.List.InsertIdx

set_option autoImplicit false

namespace Toolbox8.AkkaJartreeClientTools

open Base

-- Somebody who plugs, or who sends the service another command.
inductive Asker where
  | client (u : Nat)
  | other (n : Nat)
deriving DecidableEq, Repr

abbrev Command (Instance : Type) := PluggableService.Message Asker Instance

inductive Outcome where
  | asked
  | answered (jars : List String)
  | thrown
deriving DecidableEq, Repr

-- A Get that the class loader of a plugging has sent.
structure Get where
  keys : List JarKey
  outcome : Outcome
deriving DecidableEq, Repr

-- gets holds every Get there ever was. waits says of each plugging that runs which of them it waits for. asked holds the
-- clients whose PlugRequest has arrived.
structure System (Instance : Type) where
  caches : JarCacheUploader.System
  throws : Nat
  service : PluggableService.System Asker Instance
  gets : List Get
  waits : List (Option Nat)
  asked : List Nat

inductive Event (Instance Previous : Type) where
  | cache (event : JarCacheUploader.Event)
  | get (number : Nat)
  | plug (u : Nat)
  | command (m : Command Instance)
  | service (event : PluggableService.Event Asker Instance Previous)

variable {Instance Previous : Type}

-- What the others send names no jars.
def isOther : Command Instance → Bool
  | .evt (.plugRequest r) (.other _) => r.classLoader.isNone
  | .evt .clear (.other _) => true
  | .getPlugged _ => true
  | .query _ => true
  | _ => false

def jarsOf (request : Option PluggableService.PlugRequest) : Option (List JarKey) := request.bind (fun r => r.classLoader)

-- ParentLastUrlClassloader.apply asks the cache as soon as the plugging starts.
def System.ask (s : System Instance) (p : PluggableService.Plugging Asker Instance) : System Instance :=
  match jarsOf p.request with
  | some keys => { s with gets := s.gets ++ [⟨keys, .asked⟩], waits := s.waits ++ [some s.gets.length] }
  | none => { s with waits := s.waits ++ [none] }

-- The service after a step of its own, with the plugging that the step has started.
def System.pursue (s : System Instance) (service : PluggableService.System Asker Instance) : System Instance :=
  match service.running[s.service.running.length]? with
  | some p => { s with service := service }.ask p
  | none => { s with service := service }

-- The class loader is there only when the Get is answered. An ask may also time out.
def System.resolves (s : System Instance) (index : Nat) (world : PluggableService.World Instance Previous) : Bool :=
  match s.waits[index]? with
  | some (some number) =>
      match s.gets[number]? with
      | some ⟨_, .answered _⟩ => true
      | some ⟨keys, _⟩ => !(world.parentLastUrlClassloader keys).isOk
      | none => false
  | some none => true
  | none => false

def Transfer.cut (t : JarCacheUploader.Transfer) : JarCacheUploader.Transfer :=
  if t.phase = .reported then t else { t with phase := .finished }

-- The supervisor restarts a cache that throws. Its receivers are stopped, their files closed, and every Finished still comes.
def restarted (caches : JarCacheUploader.System) : Option JarCacheUploader.System :=
  (JarCacheActor.step caches.cache (.crash caches.cache.uploads)).map (fun cache =>
    { caches with cache := cache, transfers := caches.transfers.map Transfer.cut })

section Plugs

variable (keysOf : Nat → List JarKey) (className : Nat → String)

def plugRequest (u : Nat) : PluggableService.PlugRequest := { classLoader := some (keysOf u), className := className u }

def cacheStep (s : System Instance) (event : JarCacheUploader.Event) : Option (System Instance) :=
  (JarCacheUploader.step keysOf s.caches event).map (fun caches => { s with caches := caches })

def serviceStep (s : System Instance) (event : PluggableService.Event Asker Instance Previous) : Option (System Instance) :=
  (PluggableService.step s.service event).map (fun service => { s with service := service })

-- Gets are those of the pluggings only, and the process of the two actors does not crash.
def step (s : System Instance) : Event Instance Previous → Option (System Instance)
  | .cache (.get _) => none
  | .cache event => cacheStep keysOf s event
  | .get number =>
      match s.gets[number]? with
      | some ⟨keys, .asked⟩ =>
          if s.caches.cache.pending = none then
            match JarCacheTransfers.getResponse s.caches.cache.state keys with
            | some jars => some { s with gets := s.gets.set number ⟨keys, .answered jars⟩ }
            | none =>
                (restarted s.caches).map (fun caches =>
                  { s with caches := caches, throws := s.throws + 1, gets := s.gets.set number ⟨keys, .thrown⟩ })
          else none
      | _ => none
  | .plug u =>
      if (s.caches.uploaders u).state.stopped = true ∧ u ∉ s.asked then
        let arrives : PluggableService.Event Asker Instance Previous :=
          .arrive (.evt (.plugRequest (plugRequest keysOf className u)) (.client u))
        (serviceStep s arrives).map (fun next => { next with asked := s.asked ++ [u] })
      else none
  | .command m =>
      let arrives : PluggableService.Event Asker Instance Previous := .arrive m
      if isOther m then serviceStep s arrives else none
  | .service (.arrive _) => none
  | .service .crash => none
  | .service (.complete index world) =>
      if s.resolves index world then
        (serviceStep s (.complete index world)).map (fun next => { next with waits := s.waits.eraseIdx index })
      else none
  | .service event => (PluggableService.step s.service event).map s.pursue

def plugs (Instance Previous : Type) : Machine (System Instance) (Event Instance Previous) where
  initial :=
    { caches := (JarCacheUploader.system keysOf).initial, throws := 0,
      service := (PluggableService.service Asker Instance Previous []).initial, gets := [], waits := [], asked := [] }
  step := step keysOf className

end Plugs

-- What a step does, by the actor that takes it.
inductive Moved (keysOf : Nat → List JarKey) (className : Nat → String) (s : System Instance) :
    Event Instance Previous → System Instance → Prop where
  | cache (event : JarCacheUploader.Event) (caches : JarCacheUploader.System)
      (stepped : JarCacheUploader.step keysOf s.caches event = some caches) :
      Moved keysOf className s (.cache event) { s with caches := caches }
  | answers (number : Nat) (keys : List JarKey) (jars : List String) (asks : s.gets[number]? = some ⟨keys, .asked⟩)
      (response : JarCacheTransfers.getResponse s.caches.cache.state keys = some jars) :
      Moved keysOf className s (.get number) { s with gets := s.gets.set number ⟨keys, .answered jars⟩ }
  | throws (number : Nat) (keys : List JarKey) (next : System Instance) (asks : s.gets[number]? = some ⟨keys, .asked⟩)
      (response : JarCacheTransfers.getResponse s.caches.cache.state keys = none) :
      Moved keysOf className s (.get number) next
  | plug (u : Nat) (service : PluggableService.System Asker Instance) (stopped : (s.caches.uploaders u).state.stopped = true)
      (fresh : u ∉ s.asked)
      (stepped : PluggableService.step s.service
        (.arrive (.evt (.plugRequest (plugRequest keysOf className u)) (.client u)) :
          PluggableService.Event Asker Instance Previous) = some service) :
      Moved keysOf className s (.plug u) { s with service := service, asked := s.asked ++ [u] }
  | command (m : Command Instance) (service : PluggableService.System Asker Instance) (other : isOther m = true)
      (stepped : PluggableService.step s.service (.arrive m : PluggableService.Event Asker Instance Previous) = some service) :
      Moved keysOf className s (.command m) { s with service := service }
  | complete (index : Nat) (world : PluggableService.World Instance Previous) (service : PluggableService.System Asker Instance)
      (stepped : PluggableService.step s.service (.complete index world) = some service) :
      Moved keysOf className s (.service (.complete index world)) { s with service := service, waits := s.waits.eraseIdx index }
  | service (event : PluggableService.Event Asker Instance Previous) (service : PluggableService.System Asker Instance)
      (unasked : ∀ m, event ≠ .arrive m) (running : ∀ index world, event ≠ .complete index world) (alive : event ≠ .crash)
      (stepped : PluggableService.step s.service event = some service) :
      Moved keysOf className s (.service event) (s.pursue service)

theorem service_moved (keysOf : Nat → List JarKey) (className : Nat → String) (s next : System Instance)
    (event : PluggableService.Event Asker Instance Previous) (unasked : ∀ m, event ≠ .arrive m)
    (running : ∀ index world, event ≠ .complete index world) (alive : event ≠ .crash)
    (stepped : (PluggableService.step s.service event).map s.pursue = some next) :
    Moved keysOf className s (.service event) next := by
  obtain ⟨service, moved, rfl⟩ := Option.map_eq_some_iff.mp stepped
  exact .service event service unasked running alive moved

theorem step_moved (keysOf : Nat → List JarKey) (className : Nat → String) (s next : System Instance)
    (event : Event Instance Previous) (stepped : step keysOf className s event = some next) :
    Moved keysOf className s event next := by
  cases event with
  | cache event =>
      have moves : cacheStep keysOf s event = some next := by
        cases event with
        | get keys => cases stepped
        | _ => exact stepped
      obtain ⟨caches, cached, rfl⟩ := Option.map_eq_some_iff.mp moves
      exact .cache event caches cached
  | get number =>
      simp only [step] at stepped
      split at stepped
      · rename_i keys asks
        obtain ⟨_, handled⟩ := Option.ite_none_right_eq_some.mp stepped
        cases response : JarCacheTransfers.getResponse s.caches.cache.state keys with
        | none => exact .throws number keys next asks response
        | some jars =>
            rw [response] at handled
            rw [← Option.some.inj handled]
            exact .answers number keys jars asks response
      · cases stepped
  | plug u =>
      obtain ⟨⟨stopped, fresh⟩, plugs⟩ := Option.ite_none_right_eq_some.mp stepped
      simp only [serviceStep, Option.map_map, Option.map_eq_some_iff, Function.comp_apply] at plugs
      obtain ⟨service, arrived, rfl⟩ := plugs
      exact .plug u service stopped fresh arrived
  | command m =>
      obtain ⟨other, commands⟩ := Option.ite_none_right_eq_some.mp stepped
      obtain ⟨service, arrived, rfl⟩ := Option.map_eq_some_iff.mp commands
      exact .command m service other arrived
  | service event =>
      cases event with
      | arrive m => cases stepped
      | crash => cases stepped
      | complete index world =>
          obtain ⟨_, plugged⟩ := Option.ite_none_right_eq_some.mp stepped
          simp only [serviceStep, Option.map_map, Option.map_eq_some_iff, Function.comp_apply] at plugged
          obtain ⟨service, completed, rfl⟩ := plugged
          exact .complete index world service completed
      | receive => exact service_moved keysOf className s next .receive (by simp) (by simp) (by simp) stepped
      | persist => exact service_moved keysOf className s next .persist (by simp) (by simp) (by simp) stepped
      | handle => exact service_moved keysOf className s next .handle (by simp) (by simp) (by simp) stepped
      | recover => exact service_moved keysOf className s next .recover (by simp) (by simp) (by simp) stepped
      | restart => exact service_moved keysOf className s next .restart (by simp) (by simp) (by simp) stepped

-- A Get of its jars is answered.
def Loadable (caches : JarCacheUploader.System) (r : PluggableService.PlugRequest) : Prop :=
  ∀ keys ∈ r.classLoader, ∀ key ∈ keys, caches.Found key

def Asks (asked : List Nat) : Asker → Prop
  | .client u => u ∈ asked
  | .other _ => True

-- The file of a transfer that has brought the key.
def IsJar (caches : JarCacheUploader.System) (key : JarKey) (jar : String) : Prop :=
  ∃ id, caches.Brought ⟨key, id⟩ ∧ jar = JarCacheActor.path id

structure Get.Sound (caches : JarCacheUploader.System) (get : Get) : Prop where
  found : ∀ key ∈ get.keys, caches.Found key
  answer : ∀ jars, get.outcome = .answered jars → List.Forall₂ (IsJar caches) get.keys jars
  answerable : get.outcome ≠ .thrown

-- A plugging waits for a Get of the jars that it is to load, or for none.
def WaitsFor (gets : List Get) (wait : Option Nat) (request : Option PluggableService.PlugRequest) : Prop :=
  match jarsOf request with
  | some keys => ∃ number get, wait = some number ∧ gets[number]? = some get ∧ get.keys = keys
  | none => wait = none

structure Invariant (keysOf : Nat → List JarKey) (s : System Instance) : Prop where
  caches : JarCacheUploader.Invariant keysOf s.caches
  traced : JarCacheUploader.Traced s.caches
  unthrown : s.throws = 0
  service : s.service.Holds (Loadable s.caches) (Asks s.asked)
  gets : ∀ get ∈ s.gets, get.Sound s.caches
  waits : List.Forall₂ (WaitsFor s.gets) s.waits (s.service.running.map PluggableService.Plugging.request)
  stopped : ∀ u ∈ s.asked, (s.caches.uploaders u).state.stopped = true

section Steps

variable (keysOf : Nat → List JarKey) (className : Nat → String) (s : System Instance)

theorem waits_for_grow (gets more : List Get) (wait : Option Nat) (request : Option PluggableService.PlugRequest)
    (grows : ∀ (number : Nat) get, gets[number]? = some get → ∃ other, more[number]? = some other ∧ other.keys = get.keys)
    (waits : WaitsFor gets wait request) : WaitsFor more wait request := by
  unfold WaitsFor at *
  split at waits
  · obtain ⟨number, get, same, here, keys⟩ := waits
    obtain ⟨other, there, equal⟩ := grows number get here
    exact ⟨number, other, same, there, equal.trans keys⟩
  · exact waits

theorem cache_invariant (caches : JarCacheUploader.System) (event : JarCacheUploader.Event) (inv : Invariant keysOf s)
    (stepped : JarCacheUploader.step keysOf s.caches event = some caches) :
    Invariant keysOf { s with caches := caches } := by
  have moved := JarCacheUploader.step_moved keysOf s.caches caches event inv.caches stepped
  have found := fun key => JarCacheUploader.step_keeps_found s.caches caches key moved
  refine {
    caches := JarCacheUploader.step_invariant keysOf s.caches event caches inv.caches stepped
    traced := JarCacheUploader.step_traced s.caches caches inv.traced moved
    unthrown := inv.unthrown
    service := ?_
    gets := ?_
    waits := inv.waits
    stopped := fun u member =>
      JarCacheUploader.step_keeps_stopped keysOf s.caches caches event u stepped (inv.stopped u member) }
  · refine PluggableService.holds_weaken _ _ s.service _ _ inv.service ?_ (fun _ => id)
    exact fun r loadable keys named key member => found key (loadable keys named key member)
  · intro get member
    have sound := inv.gets get member
    refine ⟨fun key inside => found key (sound.found key inside), fun jars same => (sound.answer jars same).imp ?_, sound.answerable⟩
    rintro key jar ⟨id, brought, path⟩
    exact ⟨id, JarCacheUploader.moved_brought s.caches caches _ moved brought, path⟩

-- The cache knows the keys of every Get, so that none throws.
theorem get_step (number : Nat) (keys : List JarKey) (inv : Invariant keysOf s)
    (asks : s.gets[number]? = some ⟨keys, .asked⟩) :
    ∃ jars, JarCacheTransfers.getResponse s.caches.cache.state keys = some jars ∧ List.Forall₂ (IsJar s.caches) keys jars := by
  have sound := inv.gets _ (List.mem_of_getElem? asks)
  cases response : JarCacheTransfers.getResponse s.caches.cache.state keys with
  | none =>
      obtain ⟨key, member, unknown⟩ := (JarCacheTransfers.get_response_none_iff _ keys).mp response
      have found := sound.found key member
      simp [JarCacheUploader.System.Found, unknown] at found
  | some jars =>
      refine ⟨jars, rfl, JarCacheTransfers.get_response_each s.caches.cache.state _ keys jars ?_ response⟩
      exact fun key id here => ⟨id, inv.traced.lookup key id here, rfl⟩

theorem get_unthrown (number : Nat) (keys : List JarKey) (inv : Invariant keysOf s)
    (asks : s.gets[number]? = some ⟨keys, .asked⟩) : JarCacheTransfers.getResponse s.caches.cache.state keys ≠ none := by
  obtain ⟨jars, response, _⟩ := get_step keysOf s number keys inv asks
  simp [response]

theorem answered_invariant (number : Nat) (keys : List JarKey) (jars : List String) (inv : Invariant keysOf s)
    (asks : s.gets[number]? = some ⟨keys, .asked⟩) (answer : List.Forall₂ (IsJar s.caches) keys jars) :
    Invariant keysOf { s with gets := s.gets.set number ⟨keys, .answered jars⟩ } := by
  have short := (List.getElem?_eq_some_iff.mp asks).1
  refine { inv with gets := ?_, waits := ?_ }
  · intro get member
    rcases List.mem_or_eq_of_mem_set member with old | rfl
    · exact inv.gets get old
    · exact ⟨(inv.gets _ (List.mem_of_getElem? asks)).found, fun _ same => Outcome.answered.inj same ▸ answer, by simp⟩
  · refine inv.waits.imp (fun wait request waits => waits_for_grow s.gets _ wait request ?_ waits)
    intro other get here
    by_cases same : number = other
    · subst same
      rw [asks, Option.some.injEq] at here
      exact ⟨_, List.getElem?_set_self short, by rw [← here]⟩
    · exact ⟨get, by rw [List.getElem?_set_ne same, here], rfl⟩

theorem pursue_invariant (service : PluggableService.System Asker Instance) (kept : List (PluggableService.Plugging Asker Instance))
    (inv : Invariant keysOf s) (holds : service.Holds (Loadable s.caches) (Asks s.asked))
    (same : kept.map PluggableService.Plugging.request = s.service.running.map PluggableService.Plugging.request)
    (running : service.running = kept ∨ ∃ p, service.running = kept ++ [p]) : Invariant keysOf (s.pursue service) := by
  have counted : kept.length = s.service.running.length := by simpa using congrArg List.length same
  rcases running with runs | ⟨p, runs⟩
  · have none : service.running[s.service.running.length]? = none := by simp [runs, counted]
    rw [System.pursue, none]
    exact { inv with service := holds, waits := by rw [runs, same]; exact inv.waits }
  · have here : service.running[s.service.running.length]? = some p := by simp [runs, ← counted]
    rw [System.pursue, here]
    simp only [System.ask]
    have loads := (holds.running p (List.mem_of_getElem? here)).1
    split
    · rename_i keys jars
      have grown := inv.waits.imp (fun wait request waits =>
        waits_for_grow s.gets (s.gets ++ [⟨keys, .asked⟩]) wait request
          (fun number get found => ⟨get, get_of_concat s.gets _ get number found, rfl⟩) waits)
      refine { inv with service := holds, gets := ?_, waits := ?_ }
      · intro get member
        rcases List.mem_append.mp member with old | new
        · exact inv.gets get old
        · rw [List.mem_singleton.mp new]
          obtain ⟨r, request, named⟩ := Option.bind_eq_some_iff.mp jars
          exact ⟨loads r request keys named, by simp, by simp⟩
      · rw [runs, List.map_append, same]
        refine List.rel_append grown (.cons ?_ .nil)
        simp only [WaitsFor, jars]
        exact ⟨s.gets.length, _, rfl, List.getElem?_concat_length, rfl⟩
    · rename_i jars
      refine { inv with service := holds, waits := ?_ }
      rw [runs, List.map_append, same]
      refine List.rel_append inv.waits (.cons ?_ .nil)
      simp only [WaitsFor, jars]

theorem arrive_invariant (m : Command Instance) (service : PluggableService.System Asker Instance) (inv : Invariant keysOf s)
    (told : m.Holds (Loadable s.caches) (Asks s.asked))
    (stepped : PluggableService.step s.service (.arrive m : PluggableService.Event Asker Instance Previous) = some service) :
    Invariant keysOf { s with service := service } := by
  have holds := PluggableService.step_holds _ _ s.service service _ inv.service (by rintro _ ⟨⟩; exact told) stepped
  obtain ⟨_, same⟩ := Option.ite_none_left_eq_some.mp stepped
  obtain rfl := Option.some.inj same
  exact { inv with service := holds }

theorem other_holds (m : Command Instance) (other : isOther m = true) : m.Holds (Loadable s.caches) (Asks s.asked) := by
  cases m with
  | evt e sender =>
      cases sender with
      | client u => cases e <;> cases other
      | other n =>
          cases e with
          | plugRequest r =>
              refine ⟨fun keys named => ?_, trivial⟩
              rw [Option.isNone_iff_eq_none.mp other] at named
              cases named
          | clear => exact ⟨trivial, trivial⟩
  | getPlugged sender => trivial
  | query sender => trivial
  | pluggingComplete plugged replyTo => cases other
  | failure => cases other

theorem plug_invariant (u : Nat) (service : PluggableService.System Asker Instance) (inv : Invariant keysOf s)
    (stopped : (s.caches.uploaders u).state.stopped = true)
    (stepped : PluggableService.step s.service
      (.arrive (.evt (.plugRequest (plugRequest keysOf className u)) (.client u)) : PluggableService.Event Asker Instance Previous) =
        some service) :
    Invariant keysOf { s with service := service, asked := s.asked ++ [u] } := by
  have more : Invariant keysOf { s with asked := s.asked ++ [u] } := by
    refine { inv with service := ?_, stopped := ?_ }
    · refine PluggableService.holds_weaken _ _ s.service _ _ inv.service (fun _ => id) ?_
      intro asker asks
      cases asker with
      | client v => exact List.mem_append_left _ asks
      | other n => trivial
    · intro v member
      rcases List.mem_append.mp member with old | new
      · exact inv.stopped v old
      · exact List.mem_singleton.mp new ▸ stopped
  refine arrive_invariant keysOf { s with asked := s.asked ++ [u] } _ service more ?_ stepped
  refine ⟨?_, List.mem_append_right _ (List.mem_singleton_self u)⟩
  rintro keys named key member
  obtain rfl := Option.some.inj named
  exact JarCacheUploader.stopped_found keysOf s.caches u key inv.caches stopped member

theorem complete_invariant (index : Nat) (world : PluggableService.World Instance Previous)
    (service : PluggableService.System Asker Instance) (inv : Invariant keysOf s)
    (stepped : PluggableService.step s.service (.complete index world) = some service) :
    Invariant keysOf { s with service := service, waits := s.waits.eraseIdx index } := by
  have holds := PluggableService.step_holds _ _ s.service service _ inv.service (by simp) stepped
  have fewer : service.running = s.service.running.eraseIdx index := by
    simp only [PluggableService.step] at stepped
    split at stepped
    · cases stepped
    · split at stepped <;> rw [← Option.some.inj stepped]
  refine { inv with service := holds, waits := ?_ }
  rw [fewer, ← List.eraseIdx_map]
  exact forall_erase_idx _ _ _ index inv.waits

theorem step_invariant (event : Event Instance Previous) (next : System Instance) (inv : Invariant keysOf s)
    (stepped : step keysOf className s event = some next) : Invariant keysOf next := by
  cases step_moved keysOf className s next event stepped with
  | cache event caches cached => exact cache_invariant keysOf s caches event inv cached
  | answers number keys jars asks response =>
      obtain ⟨others, same, answer⟩ := get_step keysOf s number keys inv asks
      rw [response, Option.some.injEq] at same
      exact answered_invariant keysOf s number keys jars inv asks (same ▸ answer)
  | throws number keys _ asks response => exact absurd response (get_unthrown keysOf s number keys inv asks)
  | plug u service stopped fresh arrived => exact plug_invariant keysOf className s u service inv stopped arrived
  | command m service other arrived => exact arrive_invariant keysOf s m service inv (other_holds s m other) arrived
  | complete index world service completed => exact complete_invariant keysOf s index world service inv completed
  | service event service unasked running alive moved =>
      obtain ⟨kept, same, runs⟩ := PluggableService.step_running s.service service event running alive moved
      have holds := PluggableService.step_holds _ _ s.service service event inv.service
        (fun m same => absurd same (unasked m)) moved
      exact pursue_invariant keysOf s service kept inv holds same runs

theorem ask_frame (p : PluggableService.Plugging Asker Instance) : (s.ask p).caches = s.caches ∧ (s.ask p).service = s.service := by
  unfold System.ask
  split <;> exact ⟨rfl, rfl⟩

theorem pursue_frame (service : PluggableService.System Asker Instance) :
    (s.pursue service).caches = s.caches ∧ (s.pursue service).service = service := by
  unfold System.pursue
  split
  · exact ask_frame _ _
  · exact ⟨rfl, rfl⟩

theorem step_sides (event : Event Instance Previous) (next : System Instance) (inv : Invariant keysOf s)
    (stepped : step keysOf className s event = some next) :
    (next.caches = s.caches ∨ ∃ action, JarCacheUploader.step keysOf s.caches action = some next.caches) ∧
      (next.service = s.service ∨
        ∃ action : PluggableService.Event Asker Instance Previous, PluggableService.step s.service action = some next.service) := by
  cases step_moved keysOf className s next event stepped with
  | cache event caches cached => exact ⟨.inr ⟨event, cached⟩, .inl rfl⟩
  | answers number keys jars asks response => exact ⟨.inl rfl, .inl rfl⟩
  | throws number keys _ asks response => exact absurd response (get_unthrown keysOf s number keys inv asks)
  | plug u service stopped fresh arrived => exact ⟨.inl rfl, .inr ⟨_, arrived⟩⟩
  | command m service other arrived => exact ⟨.inl rfl, .inr ⟨_, arrived⟩⟩
  | complete index world service completed => exact ⟨.inl rfl, .inr ⟨_, completed⟩⟩
  | service event service unasked running alive moved =>
      rw [(pursue_frame s service).1, (pursue_frame s service).2]
      exact ⟨.inl rfl, .inr ⟨event, moved⟩⟩

end Steps

variable (keysOf : Nat → List JarKey) (className : Nat → String)

theorem initial_plugs : Invariant keysOf (plugs keysOf className Instance Previous).initial where
  caches := JarCacheUploader.initial_invariant keysOf
  traced := by
    constructor
    · intro key id here
      cases here
    · intro f here
      cases here
  unthrown := rfl
  service := by
    refine ⟨?_, ?_, ?_, ?_, ?_, ?_, ?_, ?_⟩ <;> simp [plugs, PluggableService.service]
  gets := by simp [plugs]
  waits := .nil
  stopped := by simp [plugs]

theorem plugs_refine_caches :
    Refines (plugs keysOf className Instance Previous) (JarCacheUploader.system keysOf) System.caches (Invariant keysOf) where
  initial_inv := initial_plugs keysOf className
  initial_abs := rfl
  step := fun s event next inv _ stepped => (step_sides keysOf className s event next inv stepped).1
  keeps := fun s event next inv _ _ stepped => step_invariant keysOf className s event next inv stepped

theorem plugs_refine_service :
    Refines (plugs keysOf className Instance Previous) (PluggableService.service Asker Instance Previous []) System.service
      (Invariant keysOf) where
  initial_inv := initial_plugs keysOf className
  initial_abs := rfl
  step := fun s event next inv _ stepped => (step_sides keysOf className s event next inv stepped).2
  keeps := fun s event next inv _ _ stepped => step_invariant keysOf className s event next inv stepped

-- caches and service: what is known of the two sides alone holds here. recoverable: also after a restart of the service its
-- Get is answered.
structure PlugAgreement (Previous : Type) (s : System Instance) : Prop where
  caches : (JarCacheUploader.system keysOf).Reachable s.caches
  service : (PluggableService.service Asker Instance Previous []).Reachable s.service
  unthrown : s.throws = 0
  answers : ∀ get ∈ s.gets, ∀ jars, get.outcome = .answered jars → List.Forall₂ (IsJar s.caches) get.keys jars
  answerable : ∀ (number : Nat) get, s.gets[number]? = some get → get.outcome ≠ .asked ∨ s.caches.cache.pending ≠ none ∨
    ∃ jars, step keysOf className s (.get number : Event Instance Previous) =
      some { s with gets := s.gets.set number ⟨get.keys, .answered jars⟩ }
  waits : List.Forall₂ (WaitsFor s.gets) s.waits (s.service.running.map PluggableService.Plugging.request)
  recoverable : ∀ r, .plugRequest r ∈ s.service.journal → ∀ keys ∈ r.classLoader, ∀ key ∈ keys, s.caches.Found key
  done : ∀ u, (.client u, .done) ∈ s.service.replies →
    u ∈ s.asked ∧ (s.caches.uploaders u).state.stopped = true ∧ ∀ key ∈ keysOf u, s.caches.Found key

-- In every run of any number of clients that plug, with pluggings that fail and a service that is restarted at any time.
theorem plug_agreement (s : System Instance) (reached : (plugs keysOf className Instance Previous).Reachable s) :
    PlugAgreement keysOf className Previous s := by
  obtain ⟨inv, caches⟩ := refines_reachable (plugs_refine_caches keysOf className) s reached
  obtain ⟨_, service⟩ := refines_reachable (plugs_refine_service keysOf className) s reached
  refine {
    caches := caches
    service := service
    unthrown := inv.unthrown
    answers := fun get member => (inv.gets get member).answer
    answerable := ?_
    waits := inv.waits
    recoverable := fun r member => inv.service.journal _ member
    done := ?_ }
  · rintro number ⟨keys, outcome⟩ here
    by_cases idle : s.caches.cache.pending = none
    · cases outcome with
      | asked =>
          obtain ⟨jars, response, _⟩ := get_step keysOf s number keys inv here
          refine .inr (.inr ⟨jars, ?_⟩)
          simp only [step, here, idle, if_true, response]
      | answered jars => exact .inl (by simp)
      | thrown => exact .inl (by simp)
    · exact .inr (.inl idle)
  · intro u member
    have asked : u ∈ s.asked := inv.service.replies _ member
    have stopped := inv.stopped u asked
    exact ⟨asked, stopped, fun key => JarCacheUploader.stopped_found keysOf s.caches u key inv.caches stopped⟩

def overlappingKeys (u : Nat) : List JarKey :=
  [JarCacheActor.jarKey "shared", JarCacheActor.jarKey (if u = 0 then "left" else "right")]

def finishing (target u : Nat) : List (Event Nat Unit) :=
  [.cache (.complete target), .cache (.finished target), .cache .persist, .cache (.handle []), .cache (.receive u)]

-- Two clients bring the jar that they share, the second while the first is at it, and plug into a service that has just
-- recovered. The plugging of the first waits for that of the second.
def firstPlug : List (Event Nat Unit) :=
  [.service .recover, .service (.complete 0 PluggableService.healthy), .service .receive, .cache (.preStart 0),
   .cache (.verifyRequest 0 (overlappingKeys 0)), .cache .persist,
   .cache (.handle [⟨JarCacheActor.jarKey "left", 1⟩, ⟨JarCacheActor.jarKey "shared", 0⟩]), .cache (.receive 0),
   .cache (.preStart 1), .cache (.verifyRequest 1 (overlappingKeys 1)), .cache .persist,
   .cache (.handle [⟨JarCacheActor.jarKey "shared", 2⟩, ⟨JarCacheActor.jarKey "right", 3⟩]), .cache (.receive 1)] ++
  finishing 2 1 ++ finishing 0 0 ++ finishing 3 1 ++ finishing 1 0 ++
  [.plug 1, .plug 0, .service .receive, .service .persist, .service .handle, .service .receive, .get 0,
   .service (.complete 0 PluggableService.healthy), .service .receive]

def twoPlugs : List (Event Nat Unit) :=
  firstPlug ++
    [.service .receive, .service .persist, .service .handle, .get 1, .service (.complete 0 PluggableService.healthy),
     .service .receive]

theorem plug_agreement_two :
    ∃ s : System Nat, s.service.replies = [(.client 1, .done), (.client 0, .done)] ∧
      PlugAgreement overlappingKeys (fun _ => "Root") Unit s ∧
      s.gets = [⟨overlappingKeys 1, .answered ["0.jar", "3.jar"]⟩, ⟨overlappingKeys 0, .answered ["0.jar", "1.jar"]⟩] := by
  have ran : ((plugs overlappingKeys (fun _ => "Root") Nat Unit).run
      (plugs overlappingKeys (fun _ => "Root") Nat Unit).initial twoPlugs).map (fun s => (s.service.replies, s.gets)) =
      some ([(.client 1, .done), (.client 0, .done)],
        [⟨overlappingKeys 1, .answered ["0.jar", "3.jar"]⟩, ⟨overlappingKeys 0, .answered ["0.jar", "1.jar"]⟩]) := by
    decide +kernel
  obtain ⟨s, run, outcome⟩ := Option.map_eq_some_iff.mp ran
  obtain ⟨replies, gets⟩ := Prod.mk.inj outcome
  exact ⟨s, replies, plug_agreement _ _ s ⟨twoPlugs, run⟩, gets⟩

end Toolbox8.AkkaJartreeClientTools
