import Toolbox8.JarCacheActor
import Toolbox8.Base.Sequences

set_option autoImplicit false

namespace Toolbox8.JarCacheUploader

open Base JarCacheActor

def parrallelism : Int := 3

-- The target is the receiver of an upload, which is known by its number.
structure JarRequest where
  key : JarKey
  target : Nat
deriving DecidableEq, Repr

inductive Reply where
  | jarsRequest (requests : List JarRequest)
  | done
deriving DecidableEq, Repr

structure State where
  slots : Int
  queue : List JarRequest
  stopped : Bool
deriving DecidableEq, Repr

def State.initial : State := ⟨parrallelism, [], false⟩

-- With the requests that it starts a sender for.
def doProcess (s : State) : State × List JarRequest :=
  let (start, keep) := s.queue.splitAt s.slots.toNat
  let slots := s.slots - start.length
  (⟨slots, keep, s.stopped || (keep.isEmpty && slots == parrallelism)⟩, start)

def receive (s : State) : Reply → State × List JarRequest
  | .jarsRequest requests => doProcess { s with queue := requests }
  | .done => doProcess { s with slots := s.slots + 1 }

-- requested, started and acked record what happened.
structure Uploader where
  state : State
  requested : Option (List JarRequest)
  started : List JarRequest
  acked : Nat
deriving DecidableEq, Repr

def Uploader.initial : Uploader := ⟨.initial, none, [], 0⟩

-- A stopped actor takes no message.
def Uploader.receive (p : Uploader) (m : Reply) : Uploader × List JarRequest :=
  if p.state.stopped then (p, [])
  else
    let (state, start) := JarCacheUploader.receive p.state m
    match m with
    | .jarsRequest requests => ({ p with state := state, requested := some requests, started := p.started ++ start }, start)
    | .done => ({ p with state := state, started := p.started ++ start, acked := p.acked + 1 }, start)

-- A started transfer has its sender, the io of a finished one is done and its Finished on the way.
inductive Phase where
  | created
  | started
  | finished
  | reported
deriving DecidableEq, Repr

-- origin is the from of the Finished that ends the transfer.
structure Transfer where
  running : Finished
  origin : Nat
  phase : Phase
deriving DecidableEq, Repr

-- sender is who the pending command of the cache came from. asked holds the uploaders that were created,
-- asking those whose VerifyRequest is on its way, channel what the cache has sent to each of them.
structure System where
  cache : JarCacheActor.System
  sender : Nat
  transfers : List Transfer
  asked : List Nat
  asking : List Nat
  channel : Nat → List Reply
  uploaders : Nat → Uploader

inductive Event where
  | preStart (u : Nat)
  | verifyRequest (u : Nat) (missing : List JarKey)
  | get (keys : List JarKey)
  | persist
  | handle (order : List JarRequest)
  | receive (u : Nat)
  | complete (target : Nat)
  | finished (target : Nat)
deriving DecidableEq, Repr

def tell (channel : Nat → List Reply) (u : Nat) (m : Reply) : Nat → List Reply :=
  Function.update channel u (channel u ++ [m])

def jarRequests (first : Nat) (running : List Finished) : List JarRequest :=
  (running.zipIdx first).map (fun (f, target) => ⟨f.key, target⟩)

def Transfer.begin (t : Transfer) : Transfer := { t with phase := .started }

def startTransfers : List Nat → List Transfer → List Transfer
  | [], transfers => transfers
  | target :: rest, transfers =>
      startTransfers rest (transfers.modify target Transfer.begin)

-- The requests go out in the order their set is walked in.
def step (keysOf : Nat → List JarKey) (s : System) : Event → Option System
  | .preStart u =>
      if u ∈ s.asked then none else some { s with asked := s.asked ++ [u], asking := s.asking ++ [u] }
  | .verifyRequest u missing =>
      if u ∈ s.asking then
        (JarCacheActor.step s.cache (.verifyRequest (keysOf u) missing)).map (fun cache =>
          { s with cache := cache, sender := u, asking := s.asking.erase u })
      else none
  | .get keys => (JarCacheActor.step s.cache (.get keys)).map (fun cache => { s with cache := cache })
  | .persist => (JarCacheActor.step s.cache .persist).map (fun cache => { s with cache := cache })
  | .handle order =>
      match s.cache.pending with
      | some (.persisted (.verify startId missing)) =>
          let requests := (Command.verify startId missing).requests
          if order.Perm (jarRequests s.transfers.length requests) then
            (JarCacheActor.step s.cache .handle).map (fun cache =>
              { s with
                cache := cache
                transfers := s.transfers ++ requests.map (fun running => ⟨running, s.sender, .created⟩)
                channel := tell s.channel s.sender (.jarsRequest order) })
          else none
      | some (.persisted (.put _)) =>
          (JarCacheActor.step s.cache .handle).map (fun cache =>
            { s with cache := cache, channel := tell s.channel s.sender .done })
      | _ => none
  | .receive u =>
      match s.channel u with
      | [] => none
      | m :: rest =>
          let (uploader, start) := (s.uploaders u).receive m
          some { s with
            transfers := startTransfers (start.map JarRequest.target) s.transfers
            channel := Function.update s.channel u rest
            uploaders := Function.update s.uploaders u uploader }
  | .complete target =>
      match s.transfers[target]? with
      | none => none
      | some t =>
          if t.phase = .started then some { s with transfers := s.transfers.set target { t with phase := .finished } }
          else none
  | .finished target =>
      match s.transfers[target]? with
      | none => none
      | some t =>
          if t.phase = .finished then
            (JarCacheActor.step s.cache (.finished t.running)).map (fun cache =>
              { s with cache := cache, sender := t.origin, transfers := s.transfers.set target { t with phase := .reported } })
          else none

def system (keysOf : Nat → List JarKey) : Machine System Event where
  initial := ⟨actor.initial, 0, [], [], [], fun _ => [], fun _ => .initial⟩
  step := step keysOf

def Reply.requests : Reply → List JarRequest
  | .jarsRequest requests => requests
  | .done => []

def Reply.grants : Reply → Bool
  | .jarsRequest _ => true
  | .done => false

structure Uploader.Sound (p : Uploader) : Prop where
  fresh : p.requested = none → p.state = .initial ∧ p.started = [] ∧ p.acked = 0
  order : p.started ++ p.state.queue = p.requested.getD []
  slots : p.state.slots + p.started.length = parrallelism + p.acked
  positive : 0 ≤ p.state.slots
  greedy : p.state.queue = [] ∨ p.state.slots = 0
  stops : p.state.stopped = true ↔ p.requested.isSome ∧ p.state.queue = [] ∧ p.state.slots = parrallelism

theorem do_process (s : State) (positive : 0 ≤ s.slots) (running : s.stopped = false) :
    (doProcess s).2 ++ (doProcess s).1.queue = s.queue ∧
      (doProcess s).1.slots + (doProcess s).2.length = s.slots ∧ 0 ≤ (doProcess s).1.slots ∧
      ((doProcess s).1.queue = [] ∨ (doProcess s).1.slots = 0) ∧
      ((doProcess s).1.stopped = true ↔ (doProcess s).1.queue = [] ∧ (doProcess s).1.slots = parrallelism) := by
  have taken : (s.queue.take s.slots.toNat).length ≤ s.slots.toNat := List.length_take_le _ _
  simp only [doProcess, List.splitAt_eq, running, Bool.false_or, Bool.and_eq_true, List.isEmpty_iff, beq_iff_eq,
    List.take_append_drop, and_true, true_and]
  refine ⟨by omega, by omega, ?_⟩
  rw [List.drop_eq_nil_iff, List.length_take]
  omega

theorem receive_requests (p : Uploader) (requests : List JarRequest) (running : p.state.stopped = false) :
    p.receive (.jarsRequest requests) =
      ({ p with
          state := (doProcess { p.state with queue := requests }).1
          requested := some requests
          started := p.started ++ (doProcess { p.state with queue := requests }).2 },
        (doProcess { p.state with queue := requests }).2) := by
  rw [Uploader.receive, if_neg (by simp [running])]
  rfl

theorem receive_done (p : Uploader) (running : p.state.stopped = false) :
    p.receive .done =
      ({ p with
          state := (doProcess { p.state with slots := p.state.slots + 1 }).1
          started := p.started ++ (doProcess { p.state with slots := p.state.slots + 1 }).2
          acked := p.acked + 1 },
        (doProcess { p.state with slots := p.state.slots + 1 }).2) := by
  rw [Uploader.receive, if_neg (by simp [running])]
  rfl

theorem receive_sound (p : Uploader) (m : Reply) (sound : p.Sound) (running : p.state.stopped = false)
    (due : p.requested.isSome = !m.grants) :
    (p.receive m).1.Sound ∧ (p.receive m).2 ++ (p.receive m).1.state.queue = m.requests ++ p.state.queue ∧
      (p.receive m).1.started = p.started ++ (p.receive m).2 := by
  have before := sound.slots
  cases m with
  | jarsRequest requests =>
      have unrequested : p.requested = none := by simpa [Reply.grants] using due
      obtain ⟨fresh, unstarted, zero⟩ := sound.fresh unrequested
      have spec := do_process { p.state with queue := requests } sound.positive running
      rw [receive_requests p requests running]
      generalize doProcess { p.state with queue := requests } = after at spec
      obtain ⟨order, slots, positive, greedy, stops⟩ := spec
      simp only at order slots
      refine ⟨⟨by simp, ?_, ?_, positive, greedy, by simpa using stops⟩, ?_, rfl⟩
      · simpa [unstarted] using order
      · simp only [unstarted, zero, List.nil_append, List.length_nil] at before ⊢
        omega
      · simpa [fresh, State.initial, Reply.requests] using order
  | done =>
      have requested : p.requested.isSome := by simpa [Reply.grants] using due
      have positive := sound.positive
      have spec := do_process { p.state with slots := p.state.slots + 1 } (by simp only; omega) running
      rw [receive_done p running]
      generalize doProcess { p.state with slots := p.state.slots + 1 } = after at spec
      obtain ⟨order, slots, positive, greedy, stops⟩ := spec
      simp only at order slots
      refine ⟨⟨?_, ?_, ?_, positive, greedy, by simpa [requested] using stops⟩, by simpa [Reply.requests] using order,
        rfl⟩
      · intro unrequested
        rw [show p.requested = none from unrequested] at requested
        cases requested
      · simpa [order] using sound.order
      · simp only [List.length_append]
        omega

def active (transfers : List Transfer) (u : Nat) : Nat :=
  transfers.countP (fun t => t.origin = u ∧ (t.phase = .started ∨ t.phase = .finished))

def unreported (transfers : List Transfer) (running : Finished) : Nat :=
  transfers.countP (fun t => t.running = running ∧ t.phase ≠ .reported)

-- The requests that were made and not started, each with its transfer.
structure Requests (waiting : Nat → List JarRequest) (transfers : List Transfer) : Prop where
  distinct : ∀ u, ((waiting u).map JarRequest.target).Nodup
  waits : ∀ u, ∀ r ∈ waiting u, ∃ t, transfers[r.target]? = some t ∧ t.running.key = r.key ∧ t.origin = u ∧ t.phase = .created
  created : ∀ target t, transfers[target]? = some t → t.phase = .created → ∃ r ∈ waiting t.origin, r.target = target

def Serves (transfers : List Transfer) (u : Nat) (key : JarKey) : Prop :=
  ∃ t ∈ transfers, t.origin = u ∧ t.running.key = key

theorem start_transfers_get (targets : List Nat) (transfers : List Transfer) (target : Nat) :
    (startTransfers targets transfers)[target]? =
      if target ∈ targets then transfers[target]?.map Transfer.begin else transfers[target]? := by
  induction targets generalizing transfers with
  | nil => simp [startTransfers]
  | cons first rest ih =>
      rw [startTransfers, ih, List.getElem?_modify]
      by_cases here : first = target
      · subst here
        cases transfers[first]? <;> simp [Transfer.begin]
      · simp [here, Ne.symm here]

theorem start_transfers_member (targets : List Nat) (transfers : List Transfer) (t : Transfer)
    (member : t ∈ startTransfers targets transfers) : ∃ u ∈ transfers, t = u ∨ t = u.begin := by
  obtain ⟨target, found⟩ := List.mem_iff_getElem?.mp member
  rw [start_transfers_get] at found
  split at found
  · obtain ⟨u, old, rfl⟩ := Option.map_eq_some_iff.mp found
    exact ⟨u, List.mem_of_getElem? old, .inr rfl⟩
  · exact ⟨t, List.mem_of_getElem? found, .inl rfl⟩

theorem start_transfers_serves (targets : List Nat) (transfers : List Transfer) (u : Nat) (key : JarKey)
    (serves : Serves transfers u key) : Serves (startTransfers targets transfers) u key := by
  obtain ⟨t, member, origin, same⟩ := serves
  obtain ⟨target, found⟩ := List.mem_iff_getElem?.mp member
  have after := start_transfers_get targets transfers target
  rw [found] at after
  split at after
  · exact ⟨t.begin, List.mem_of_getElem? after, origin, same⟩
  · exact ⟨t, List.mem_of_getElem? after, origin, same⟩

theorem start_transfers_count (p : Transfer → Bool) (gain : Nat) (targets : List Nat) (transfers : List Transfer)
    (distinct : targets.Nodup)
    (each : ∀ target ∈ targets, ∃ t, transfers[target]? = some t ∧
      (if p t.begin then 1 else 0) = (if p t then 1 else 0) + gain) :
    (startTransfers targets transfers).countP p = transfers.countP p + gain * targets.length := by
  induction targets generalizing transfers with
  | nil => rfl
  | cons first rest ih =>
      obtain ⟨t, here, changes⟩ := each first (by simp)
      have counted := count_set p transfers first t t.begin here
      have modified : transfers.modify first Transfer.begin = transfers.set first t.begin := by
        rw [List.modify_eq_set_getElem?, here]
        rfl
      rw [List.nodup_cons] at distinct
      have others := ih (transfers.modify first Transfer.begin) distinct.2 ?_
      · rw [startTransfers]
        refine others.trans ?_
        rw [modified, List.length_cons, Nat.mul_add, Nat.mul_one]
        omega
      · intro target member
        obtain ⟨u, found, same⟩ := each target (List.mem_cons_of_mem _ member)
        refine ⟨u, ?_, same⟩
        rw [List.getElem?_modify, found]
        have other : first ≠ target := by
          rintro rfl
          exact distinct.1 member
        simp [other]

theorem set_phase_serves (transfers : List Transfer) (target : Nat) (t : Transfer) (phase : Phase)
    (here : transfers[target]? = some t) (u : Nat) (key : JarKey) (serves : Serves transfers u key) :
    Serves (transfers.set target { t with phase := phase }) u key := by
  obtain ⟨v, member, origin, same⟩ := serves
  by_cases equal : v = t
  · subst equal
    have short := (List.getElem?_eq_some_iff.mp here).1
    exact ⟨{ v with phase := phase }, List.mem_of_getElem? (List.getElem?_set_self short), origin, same⟩
  · exact ⟨v, mem_set_other transfers target t _ v here member equal, origin, same⟩

theorem set_phase_requests (waiting : Nat → List JarRequest) (transfers : List Transfer) (target : Nat) (t : Transfer)
    (phase : Phase) (here : transfers[target]? = some t) (begun : t.phase ≠ .created) (goes : phase ≠ .created)
    (requests : Requests waiting transfers) : Requests waiting (transfers.set target { t with phase := phase }) := by
  refine ⟨requests.distinct, ?_, ?_⟩
  · intro u r member
    obtain ⟨v, found, same, origin, created⟩ := requests.waits u r member
    have other : target ≠ r.target := by
      intro equal
      rw [← equal, here, Option.some.injEq] at found
      subst found
      exact begun created
    exact ⟨v, by rw [List.getElem?_set_ne other, found], same, origin, created⟩
  · intro other v found created
    by_cases equal : target = other
    · subst equal
      rw [List.getElem?_set_self (List.getElem?_eq_some_iff.mp here).1, Option.some.injEq] at found
      subst found
      exact absurd created goes
    · rw [List.getElem?_set_ne equal] at found
      exact requests.created other v found created

theorem start_requests (waiting after : Nat → List JarRequest) (transfers : List Transfer) (u : Nat)
    (start : List JarRequest) (split : (waiting u).Perm (start ++ after u)) (others : ∀ v, v ≠ u → after v = waiting v)
    (requests : Requests waiting transfers) :
    Requests after (startTransfers (start.map JarRequest.target) transfers) := by
  have distinct : ((start ++ after u).map JarRequest.target).Nodup :=
    (split.map JarRequest.target).nodup_iff.mp (requests.distinct u)
  rw [List.map_append, List.nodup_append] at distinct
  refine ⟨?_, ?_, ?_⟩
  · intro v
    by_cases here : v = u
    · subst here
      exact distinct.2.1
    · rw [others v here]
      exact requests.distinct v
  · intro v r member
    have before : r ∈ waiting v := by
      by_cases here : v = u
      · subst here
        exact split.mem_iff.mpr (List.mem_append_right _ member)
      · rwa [others v here] at member
    obtain ⟨t, found, same, origin, created⟩ := requests.waits v r before
    refine ⟨t, ?_, same, origin, created⟩
    rw [start_transfers_get, if_neg, found]
    intro started
    obtain ⟨other, inside, equal⟩ := List.mem_map.mp started
    obtain ⟨t', found', _, origin', _⟩ := requests.waits u other (split.mem_iff.mpr (List.mem_append_left _ inside))
    rw [equal, found, Option.some.injEq] at found'
    subst found'
    have here : v = u := origin.symm.trans origin'
    subst here
    exact distinct.2.2 _ started _ (List.mem_map_of_mem member) rfl
  · intro target t found created
    rw [start_transfers_get] at found
    split at found
    · obtain ⟨_, _, rfl⟩ := Option.map_eq_some_iff.mp found
      cases created
    · rename_i unstarted
      obtain ⟨r, member, rfl⟩ := requests.created target t found created
      refine ⟨r, ?_, rfl⟩
      by_cases here : t.origin = u
      · rw [here] at member ⊢
        rcases List.mem_append.mp (split.mem_iff.mp member) with started | waits
        · exact absurd (List.mem_map_of_mem started) unstarted
        · exact waits
      · rwa [others _ here]

end Toolbox8.JarCacheUploader
