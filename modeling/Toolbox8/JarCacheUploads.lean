import Toolbox8.Base.Refinement
import Toolbox8.BufferedProgress
import Toolbox8.JarCacheGet

set_option autoImplicit false

namespace Toolbox8.JarCacheUploads

open Base BufferedActors JarCacheTransfers

-- BufferedSenderActor.Config has it as a default.
def bufferSize : Int := 32

-- What the uploader has of a transfer: its Sink.queue and its BufferedSenderActor, with what is on its way
-- between the two actors.
structure Sending where
  source : List ByteString
  pulled : List ByteString
  pulls : Nat
  polled : List (Message ByteString)
  sender : Sender.State
  toReceiver : List (Message ByteString)
  acks : Nat
  acked : Nat

-- With the receiver and its source queue, which the cache has.
def Sending.with (d : Sending) (port : Receiver.Port ByteString Unit) : BufferedActors.Transfer ByteString :=
  { source := d.source, pulled := d.pulled, pulls := d.pulls, polled := d.polled, sender := d.sender,
    toReceiver := d.toReceiver, acks := d.acks, acked := d.acked, port := port }

def Sending.of (s : BufferedActors.Transfer ByteString) : Sending :=
  { source := s.source, pulled := s.pulled, pulls := s.pulls, polled := s.polled, sender := s.sender,
    toReceiver := s.toReceiver, acks := s.acks, acked := s.acked }

-- What an event of the two actors is on the side of the cache.
def Sending.move (d : Sending) : BufferedActors.Event → Option Move
  | .deliver => d.toReceiver.head?.map .deliver
  | .accept => some .accept
  | .done => some .done
  | _ => none

structure System where
  store : JarCacheTransfers.System
  sendings : Nat → Option Sending

inductive Event where
  | cache (event : JarCacheActor.Event)
  | get (keys : List JarKey)
  | send (index : Nat)
  | upload (index : Nat) (event : BufferedActors.Event)
  | write (index : Nat)
  | close (index : Nat)
  | fails (index : Nat) (part : Nat)
deriving DecidableEq, Repr

-- resources of the uploader that the transfer was started for.
def step (resources : Nat → JarKey → List ByteString) (s : System) : Event → Option System
  | .cache event => (JarCacheTransfers.step s.store (.cache event)).map (fun store => { s with store := store })
  | .get keys => (JarCacheTransfers.step s.store (.get keys)).map (fun store => { s with store := store })
  | .send index =>
      match s.store.transfers[index]?, s.sendings index with
      | some t, none =>
          let d := Sending.of (.initial (resources index t.running.key))
          some { s with sendings := Function.update s.sendings index (some d) }
      | _, _ => none
  | .upload index event =>
      match s.store.transfers[index]?, s.sendings index with
      | some t, some d =>
          (BufferedActors.step bufferSize (d.with t.port) event).bind (fun next =>
            let sendings := Function.update s.sendings index (some (.of next))
            match d.move event with
            | none => some { s with sendings := sendings }
            | some move => (JarCacheTransfers.step s.store (.transfer index move)).map (fun store => ⟨store, sendings⟩))
      | _, _ => none
  | .write index => (JarCacheTransfers.step s.store (.transfer index .write)).map (fun store => { s with store := store })
  | .close index => (JarCacheTransfers.step s.store (.transfer index .close)).map (fun store => { s with store := store })
  | .fails index part =>
      (JarCacheTransfers.step s.store (.transfer index (.fails part))).map (fun store => { s with store := store })

def system (resources : Nat → JarKey → List ByteString) (before : String → ByteString) : Machine System Event where
  initial := ⟨(JarCacheTransfers.system before).initial, fun _ => none⟩
  step := step resources

-- No source fails, no file operation fails, and no Get for a key that the cache does not have arrives during an upload.
def Undisturbed (s : System) : Event → Prop
  | .upload _ .pullFails => False
  | .fails _ _ => False
  | .get keys => JarCacheTransfers.Undisturbed s.store (.get keys)
  | _ => True

instance decidableUndisturbed (s : System) : (event : Event) → Decidable (Undisturbed s event)
  | .cache _ => isTrue trivial
  | .get keys => JarCacheTransfers.decidableUndisturbed s.store (.get keys)
  | .send _ => isTrue trivial
  | .upload _ .pullFails => isFalse id
  | .upload _ .pull => isTrue trivial
  | .upload _ .polled => isTrue trivial
  | .upload _ .deliver => isTrue trivial
  | .upload _ .acknowledge => isTrue trivial
  | .upload _ .accept => isTrue trivial
  | .upload _ .done => isTrue trivial
  | .write _ => isTrue trivial
  | .close _ => isTrue trivial
  | .fails _ _ => isFalse id

-- How a transfer of the cache and its sender stand: the two actors run as they would alone, and no pull has failed.
inductive Stands (resources : JarKey → List ByteString) : Option JarCacheTransfers.Transfer → Option Sending → Prop where
  | absent : Stands resources none none
  | unsent (t : JarCacheTransfers.Transfer) (port : t.port = .initial) (open_ : t.io ≠ .done) : Stands resources (some t) none
  | sent (t : JarCacheTransfers.Transfer) (d : Sending)
      (reached : (transfer bufferSize (resources t.running.key)).Reachable (d.with t.port))
      (intact : ¬ Failing (d.with t.port)) (closed : t.io = .done → .complete ∈ t.port.calls) :
      Stands resources (some t) (some d)

structure Invariant (resources : Nat → JarKey → List ByteString) (before : String → ByteString) (s : System) : Prop where
  store : JarCacheTransfers.Invariant before s.store
  each : ∀ index, Stands (resources index) s.store.transfers[index]? (s.sendings index)

theorem with_of (s : BufferedActors.Transfer ByteString) : (Sending.of s).with s.port = s := rfl

theorem sender_receives_port (r : Sender.Received ByteString) (s : BufferedActors.Transfer ByteString) :
    (s.senderReceives bufferSize r).port = s.port := by
  unfold BufferedActors.Transfer.senderReceives
  split <;> rfl

theorem no_move_port (d : Sending) (port : Receiver.Port ByteString Unit) (event : BufferedActors.Event)
    (next : BufferedActors.Transfer ByteString) (stepped : BufferedActors.step bufferSize (d.with port) event = some next)
    (noMove : d.move event = none) : next.port = port := by
  cases event with
  | pull =>
      simp only [BufferedActors.step] at stepped
      split at stepped
      · simp at stepped
      · exact congrArg BufferedActors.Transfer.port (Option.some.inj stepped).symm
      · exact congrArg BufferedActors.Transfer.port (Option.some.inj stepped).symm
  | pullFails =>
      simp only [BufferedActors.step] at stepped
      split at stepped
      · simp at stepped
      · exact congrArg BufferedActors.Transfer.port (Option.some.inj stepped).symm
  | polled =>
      simp only [BufferedActors.step] at stepped
      split at stepped
      · simp at stepped
      · rw [← Option.some.inj stepped, sender_receives_port]
        rfl
  | acknowledge =>
      simp only [BufferedActors.step] at stepped
      split at stepped
      · simp at stepped
      · rw [← Option.some.inj stepped, sender_receives_port]
        rfl
  | deliver =>
      have nothing : (d.with port).toReceiver = [] := by simpa [Sending.move, Sending.with] using noMove
      simp [BufferedActors.step, nothing] at stepped
  | accept => simp [Sending.move] at noMove
  | done => simp [Sending.move] at noMove

theorem move_port (d : Sending) (t after : JarCacheTransfers.Transfer) (event : BufferedActors.Event) (move : Move)
    (next : BufferedActors.Transfer ByteString) (content written : ByteString)
    (stepped : BufferedActors.step bufferSize (d.with t.port) event = some next) (isMove : d.move event = some move)
    (moved : t.move content move = some (after, written)) : after.port = next.port ∧ after.io = t.io := by
  cases event with
  | deliver =>
      cases waiting : d.toReceiver with
      | nil => simp [Sending.move, waiting] at isMove
      | cons m rest =>
          obtain rfl : .deliver m = move := by simpa [Sending.move, waiting] using isMove
          have told : (d.with t.port).toReceiver = m :: rest := waiting
          simp only [BufferedActors.step, told, Option.some.injEq] at stepped
          simp only [JarCacheTransfers.Transfer.move, Option.ite_none_right_eq_some, Option.some.injEq, Prod.mk.injEq] at moved
          obtain ⟨_, rfl, _⟩ := moved
          rw [← stepped]
          exact ⟨rfl, rfl⟩
  | accept =>
      obtain rfl : .accept = move := by simpa [Sending.move] using isMove
      simp only [BufferedActors.step, Option.map_eq_some_iff] at stepped
      obtain ⟨⟨x, port⟩, accepted, rfl⟩ := stepped
      have same : t.port.accept = some (x, port) := accepted
      simp only [JarCacheTransfers.Transfer.move, same, Option.map_some, Option.some.injEq, Prod.mk.injEq] at moved
      obtain ⟨rfl, _⟩ := moved
      exact ⟨rfl, rfl⟩
  | done =>
      obtain rfl : .done = move := by simpa [Sending.move] using isMove
      simp only [BufferedActors.step, Option.map_eq_some_iff] at stepped
      obtain ⟨port, did, rfl⟩ := stepped
      have same : t.port.done = some port := did
      simp only [JarCacheTransfers.Transfer.move, same, Option.map_some, Option.some.injEq, Prod.mk.injEq] at moved
      obtain ⟨rfl, _⟩ := moved
      exact ⟨rfl, rfl⟩
  | pull => simp [Sending.move] at isMove
  | pullFails => simp [Sending.move] at isMove
  | polled => simp [Sending.move] at isMove
  | acknowledge => simp [Sending.move] at isMove

theorem move_undisturbed (d : Sending) (port : Receiver.Port ByteString Unit) (event : BufferedActors.Event) (move : Move)
    (store : JarCacheTransfers.System) (index : Nat) (intact : ¬ Failing (d.with port)) (isMove : d.move event = some move) :
    JarCacheTransfers.Undisturbed store (.transfer index move) := by
  cases event with
  | deliver =>
      cases waiting : d.toReceiver with
      | nil => simp [Sending.move, waiting] at isMove
      | cons m rest =>
          obtain rfl : .deliver m = move := by simpa [Sending.move, waiting] using isMove
          cases m with
          | error => exact intact (.inr (.inl (by simp [Sending.with, waiting])))
          | data msg => trivial
          | complete => trivial
  | accept =>
      obtain rfl : .accept = move := by simpa [Sending.move] using isMove
      trivial
  | done =>
      obtain rfl : .done = move := by simpa [Sending.move] using isMove
      trivial
  | _ => simp [Sending.move] at isMove

theorem transfer_step (store next : JarCacheTransfers.System) (index : Nat) (move : Move)
    (stepped : JarCacheTransfers.step store (.transfer index move) = some next) :
    ∃ t after content, store.transfers[index]? = some t ∧ t.io = .running ∧
      t.move (store.files (JarCacheActor.path t.running.id)) move = some (after, content) ∧
      next.transfers = store.transfers.set index after := by
  simp only [JarCacheTransfers.step] at stepped
  split at stepped
  · simp at stepped
  · rename_i t here
    simp only [Option.ite_none_right_eq_some, Option.map_eq_some_iff] at stepped
    obtain ⟨live, ⟨after, content⟩, moved, rfl⟩ := stepped
    exact ⟨t, after, content, here, live, moved, rfl⟩

theorem cache_transfers (store next : JarCacheTransfers.System) (event : JarCacheActor.Event)
    (stepped : JarCacheTransfers.step store (.cache event) = some next) : next.transfers = transfersAfter store event := by
  simp only [JarCacheTransfers.step, Option.ite_none_right_eq_some, Option.map_eq_some_iff] at stepped
  obtain ⟨_, cache, _, rfl⟩ := stepped
  rfl

theorem get_transfers (store next : JarCacheTransfers.System) (keys : List JarKey)
    (undisturbed : JarCacheTransfers.Undisturbed store (.get keys))
    (stepped : JarCacheTransfers.step store (.get keys) = some next) : next.transfers = store.transfers := by
  obtain ⟨⟨after, response⟩, handled, rfl⟩ := Option.map_eq_some_iff.mp stepped
  obtain ⟨_, ⟨_, rfl⟩ | ⟨⟨key, member, unknown⟩, restarted⟩⟩ := handle_get_cases store after keys response handled
  · rfl
  · rw [restart_outcome store after restarted]
    exact cut_idle store.transfers (undisturbed.resolve_left (fun known => known key member unknown))

theorem transfers_after (store : JarCacheTransfers.System) (event : JarCacheActor.Event) (index : Nat) :
    match store.transfers[index]? with
    | some t => (transfersAfter store event)[index]? = some t ∨ (transfersAfter store event)[index]? = some t.lose
    | none => (transfersAfter store event)[index]? = none ∨
        ∃ running, (transfersAfter store event)[index]? = some (.start running) := by
  have kept : (transfersKept store event)[index]? = store.transfers[index]? ∨
      (transfersKept store event)[index]? = (store.transfers[index]?).map .lose := by
    cases event with
    | crash surviving => exact .inr (by simp [transfersKept])
    | _ => exact .inl rfl
  cases here : store.transfers[index]? with
  | some t =>
      rw [here] at kept
      have inside : index < (transfersKept store event).length := by
        rcases kept with same | lost
        · exact (List.getElem?_eq_some_iff.mp same).1
        · exact (List.getElem?_eq_some_iff.mp lost).1
      simp only [transfersAfter, List.getElem?_append_left inside]
      exact kept
  | none =>
      rw [here] at kept
      have outside : (transfersKept store event).length ≤ index := by
        rw [← List.getElem?_eq_none_iff]
        exact kept.elim id id
      simp only [transfersAfter, List.getElem?_append_right outside, List.getElem?_map]
      cases fresh : (started store.cache event)[index - (transfersKept store event).length]? with
      | none => exact .inl rfl
      | some running => exact .inr ⟨running, rfl⟩

section Steps

variable (resources : Nat → JarKey → List ByteString) (before : String → ByteString) (s : System)

theorem stands_lose (choose : JarKey → List ByteString) (t : JarCacheTransfers.Transfer) (d : Option Sending)
    (stands : Stands choose (some t) d) : Stands choose (some t.lose) d := by
  have port : t.lose.port = t.port := by
    by_cases live : t.io = .running <;> simp [JarCacheTransfers.Transfer.lose, live]
  have notDone : t.lose.io = .done → t.io = .done := by
    by_cases live : t.io = .running <;> simp [JarCacheTransfers.Transfer.lose, live]
  cases stands with
  | unsent _ initial open_ => exact .unsent t.lose (port.trans initial) (fun done => open_ (notDone done))
  | sent _ d reached intact closed =>
      refine .sent t.lose d ?_ ?_ ?_
      · rw [lose_running, port]
        exact reached
      · rw [port]
        exact intact
      · rw [port]
        exact fun done => closed (notDone done)

theorem cache_stands (event : JarCacheActor.Event) (next : JarCacheTransfers.System) (inv : Invariant resources before s)
    (stepped : JarCacheTransfers.step s.store (.cache event) = some next) (index : Nat) :
    Stands (resources index) next.transfers[index]? (s.sendings index) := by
  have here := inv.each index
  have after := transfers_after s.store event index
  rw [cache_transfers s.store next event stepped]
  cases found : s.store.transfers[index]? with
  | some t =>
      rw [found] at here after
      rcases after with same | lost
      · rw [same]
        exact here
      · rw [lost]
        exact stands_lose (resources index) t (s.sendings index) here
  | none =>
      rw [found] at here after
      cases none : s.sendings index with
      | some d =>
          rw [none] at here
          cases here
      | none =>
          rcases after with absent | ⟨running, fresh⟩
          · rw [absent]
            exact .absent
          · rw [fresh]
            exact .unsent _ rfl (by simp [JarCacheTransfers.Transfer.start])

theorem set_stands (index : Nat) (after : JarCacheTransfers.Transfer) (d : Option Sending)
    (inside : index < s.store.transfers.length) (inv : Invariant resources before s)
    (here : Stands (resources index) (some after) d) (other : Nat) :
    Stands (resources other) (s.store.transfers.set index after)[other]? (Function.update s.sendings index d other) := by
  rcases eq_or_ne other index with rfl | different
  · rw [List.getElem?_set_self inside, Function.update_self]
    exact here
  · rw [List.getElem?_set_ne different.symm, Function.update_of_ne different]
    exact inv.each other

theorem upload_stands (index : Nat) (event : BufferedActors.Event) (t after : JarCacheTransfers.Transfer) (d : Sending)
    (next : BufferedActors.Transfer ByteString) (stands : Stands (resources index) (some t) (some d))
    (succeeds : event ≠ .pullFails) (stepped : BufferedActors.step bufferSize (d.with t.port) event = some next)
    (running : after.running = t.running) (port : after.port = next.port)
    (closed : after.io = .done → .complete ∈ after.port.calls) :
    Stands (resources index) (some after) (some (.of next)) := by
  cases stands with
  | sent _ _ reached intact _ =>
      have holds := reachable_holds bufferSize (resources index t.running.key) (by decide) _ reached
      have after' := reachable_step _ _ _ event reached stepped
      refine .sent after (.of next) ?_ ?_ closed
      · rw [running, port, with_of]
        exact after'
      · rw [port, with_of, failing_step bufferSize _ _ next event holds.sender holds.receiver succeeds stepped]
        exact intact

theorem close_stands (index : Nat) (t after : JarCacheTransfers.Transfer) (d : Option Sending) (content written : ByteString)
    (stands : Stands (resources index) (some t) d) (moved : t.move content .close = some (after, written)) :
    Stands (resources index) (some after) d := by
  simp only [JarCacheTransfers.Transfer.move, Option.ite_none_right_eq_some, Option.some.injEq, Prod.mk.injEq] at moved
  obtain ⟨ends, rfl, rfl⟩ := moved
  cases stands with
  | unsent _ initial open_ => simp [initial, Receiver.Port.initial] at ends
  | sent _ d reached intact closed =>
      refine .sent _ d reached intact (fun _ => ?_)
      rcases ends with ⟨completed, _⟩ | failed
      · exact completed
      · exact absurd (.inr (.inr failed)) intact

theorem write_stands (index : Nat) (t after : JarCacheTransfers.Transfer) (d : Option Sending) (content written : ByteString)
    (stands : Stands (resources index) (some t) d) (moved : t.move content .write = some (after, written)) :
    Stands (resources index) (some after) d := by
  simp only [JarCacheTransfers.Transfer.move] at moved
  split at moved
  · simp at moved
  · simp only [Option.some.injEq, Prod.mk.injEq] at moved
    obtain ⟨rfl, _⟩ := moved
    cases stands with
    | unsent _ initial open_ => exact .unsent _ initial open_
    | sent _ d reached intact closed => exact .sent _ d reached intact closed

theorem send_stands (index : Nat) (t : JarCacheTransfers.Transfer) (stands : Stands (resources index) (some t) none) :
    Stands (resources index) (some t) (some (.of (.initial (resources index t.running.key)))) := by
  cases stands with
  | unsent _ initial open_ =>
      have start : (Sending.of (.initial (resources index t.running.key))).with t.port =
          (transfer bufferSize (resources index t.running.key)).initial := by
        rw [initial]
        rfl
      refine .sent t _ ?_ ?_ (fun done => absurd done open_)
      · rw [start]
        exact ⟨[], rfl⟩
      · rw [start]
        simp [Failing, transfer, Transfer.initial, Receiver.Port.initial]

theorem move_invariant (index : Nat) (move : Move) (store : JarCacheTransfers.System) (d : Option Sending)
    (inv : Invariant resources before s) (undisturbed : JarCacheTransfers.Undisturbed s.store (.transfer index move))
    (stepped : JarCacheTransfers.step s.store (.transfer index move) = some store) (few : store.cache.allocated < 2 ^ 64)
    (stands : ∀ t after content written, s.store.transfers[index]? = some t → t.io = .running →
      t.move content move = some (after, written) → Stands (resources index) (some after) d) :
    Invariant resources before ⟨store, Function.update s.sendings index d⟩ := by
  obtain ⟨t, after, content, here, live, moved, transfers⟩ := transfer_step s.store store index move stepped
  refine ⟨JarCacheTransfers.step_invariant before s.store (.transfer index move) store inv.store undisturbed stepped few,
    fun other => ?_⟩
  rw [transfers]
  exact set_stands resources before s index after d (List.getElem?_eq_some_iff.mp here).1 inv
    (stands t after _ content here live moved) other

theorem alone_invariant (index : Nat) (t : JarCacheTransfers.Transfer) (d : Option Sending)
    (inv : Invariant resources before s) (here : s.store.transfers[index]? = some t)
    (stands : Stands (resources index) (some t) d) :
    Invariant resources before { s with sendings := Function.update s.sendings index d } := by
  obtain ⟨inside, same⟩ := List.getElem?_eq_some_iff.mp here
  have each := set_stands resources before s index t d inside inv stands
  rw [← same, List.set_getElem_self] at each
  exact ⟨inv.store, each⟩

theorem step_invariant (event : Event) (next : System) (inv : Invariant resources before s)
    (undisturbed : Undisturbed s event) (stepped : step resources s event = some next)
    (few : next.store.cache.allocated < 2 ^ 64) : Invariant resources before next := by
  cases event with
  | cache event =>
      simp only [step, Option.map_eq_some_iff] at stepped
      obtain ⟨store, moved, rfl⟩ := stepped
      exact ⟨JarCacheTransfers.step_invariant before s.store (.cache event) store inv.store trivial moved few,
        cache_stands resources before s event store inv moved⟩
  | get keys =>
      simp only [step, Option.map_eq_some_iff] at stepped
      obtain ⟨store, moved, rfl⟩ := stepped
      refine ⟨JarCacheTransfers.step_invariant before s.store (.get keys) store inv.store undisturbed moved few, ?_⟩
      rw [get_transfers s.store store keys undisturbed moved]
      exact inv.each
  | send index =>
      simp only [step] at stepped
      split at stepped
      · rename_i t here unsent
        rw [Option.some.injEq] at stepped
        subst stepped
        have stands := inv.each index
        rw [here, unsent] at stands
        exact alone_invariant resources before s index t _ inv here (send_stands resources index t stands)
      · simp at stepped
  | upload index event =>
      simp only [step] at stepped
      split at stepped
      · rename_i t d here sending
        rw [Option.bind_eq_some_iff] at stepped
        obtain ⟨after, acted, stepped⟩ := stepped
        have stands := inv.each index
        rw [here, sending] at stands
        have pulls : event ≠ .pullFails := by
          rintro rfl
          exact undisturbed
        have closed : t.io = .done → .complete ∈ t.port.calls := by
          cases stands with
          | sent _ _ reached intact closed => exact closed
        split at stepped
        · rename_i noMove
          rw [Option.some.injEq] at stepped
          subst stepped
          have port := no_move_port d t.port event after acted noMove
          exact alone_invariant resources before s index t _ inv here
            (upload_stands resources index event t t d after stands pulls acted rfl port.symm closed)
        · rename_i move isMove
          simp only [Option.map_eq_some_iff] at stepped
          obtain ⟨store, moved, rfl⟩ := stepped
          have clean : JarCacheTransfers.Undisturbed s.store (.transfer index move) := by
            cases stands with
            | sent _ _ reached intact _ => exact move_undisturbed d t.port event move s.store index intact isMove
          refine move_invariant resources before s index move store _ inv clean moved few ?_
          intro u next content written same live moves
          obtain rfl : t = u := Option.some.inj (here.symm.trans same)
          obtain ⟨port, io⟩ := move_port d t next event move after content written acted isMove moves
          have running := (move_kept t next move content written [] moves).1
          exact upload_stands resources index event t next d after stands pulls acted running port
            (fun done => by simp [io, live] at done)
      · simp at stepped
  | write index =>
      simp only [step, Option.map_eq_some_iff] at stepped
      obtain ⟨store, moved, rfl⟩ := stepped
      have kept := move_invariant resources before s index .write store (s.sendings index) inv trivial moved few
        (fun t after content written here _ moves =>
          write_stands resources index t after _ content written (here ▸ inv.each index) moves)
      rwa [Function.update_eq_self] at kept
  | close index =>
      simp only [step, Option.map_eq_some_iff] at stepped
      obtain ⟨store, moved, rfl⟩ := stepped
      have kept := move_invariant resources before s index .close store (s.sendings index) inv trivial moved few
        (fun t after content written here _ moves =>
          close_stands resources index t after _ content written (here ▸ inv.each index) moves)
      rwa [Function.update_eq_self] at kept
  | fails index part => exact undisturbed.elim

theorem allocated_grows (event : Event) (next : System) (stepped : step resources s event = some next) :
    s.store.cache.allocated ≤ next.store.cache.allocated := by
  cases event with
  | get keys =>
      simp only [step, Option.map_eq_some_iff] at stepped
      obtain ⟨store, moved, rfl⟩ := stepped
      exact JarCacheTransfers.allocated_grows s.store _ store moved
  | fails index part =>
      simp only [step, Option.map_eq_some_iff] at stepped
      obtain ⟨store, moved, rfl⟩ := stepped
      exact JarCacheTransfers.allocated_grows s.store _ store moved
  | cache event =>
      simp only [step, Option.map_eq_some_iff] at stepped
      obtain ⟨store, moved, rfl⟩ := stepped
      exact JarCacheTransfers.allocated_grows s.store _ store moved
  | send index =>
      simp only [step] at stepped
      split at stepped
      · rw [← Option.some.inj stepped]
      · simp at stepped
  | upload index event =>
      simp only [step] at stepped
      split at stepped
      · rw [Option.bind_eq_some_iff] at stepped
        obtain ⟨after, _, stepped⟩ := stepped
        split at stepped
        · rw [← Option.some.inj stepped]
        · simp only [Option.map_eq_some_iff] at stepped
          obtain ⟨store, moved, rfl⟩ := stepped
          exact JarCacheTransfers.allocated_grows s.store _ store moved
      · simp at stepped
  | write index =>
      simp only [step, Option.map_eq_some_iff] at stepped
      obtain ⟨store, moved, rfl⟩ := stepped
      exact JarCacheTransfers.allocated_grows s.store _ store moved
  | close index =>
      simp only [step, Option.map_eq_some_iff] at stepped
      obtain ⟨store, moved, rfl⟩ := stepped
      exact JarCacheTransfers.allocated_grows s.store _ store moved

theorem initial_invariant : Invariant resources before (system resources before).initial :=
  ⟨JarCacheTransfers.initial_invariant before, fun _ => .absent⟩

theorem run_invariant (events : List Event)
    (ran : (system resources before).run (system resources before).initial events = some s)
    (undisturbed : (system resources before).Meets Undisturbed (system resources before).initial events)
    (few : s.store.cache.allocated < 2 ^ 64) : Invariant resources before s := by
  refine run_keeps_guarded (system resources before) Undisturbed
    (fun s => s.store.cache.allocated < 2 ^ 64 → Invariant resources before s) ?_ _ s events
    (fun _ => initial_invariant resources before) undisturbed ran few
  intro s event next holds calm stepped fewNext
  have grows := allocated_grows resources s event next stepped
  exact step_invariant resources before s event next (holds (by omega)) calm stepped fewNext

theorem ended_written (inv : Invariant resources before s) (index : Nat) (t : JarCacheTransfers.Transfer)
    (here : s.store.transfers[index]? = some t) (done : t.io = .done) :
    t.written = (resources index t.running.key).flatten := by
  have member : t ∈ s.store.transfers := List.mem_of_getElem? here
  have sound := inv.store.sound t member
  have stands := inv.each index
  rw [here] at stands
  cases sending : s.sendings index with
  | none =>
      rw [sending] at stands
      cases stands with
      | unsent _ initial open_ => exact absurd done open_
  | some d =>
      rw [sending] at stands
      cases stands with
      | sent _ _ reached intact closed =>
          have completed := closed done
          have holds := reachable_holds bufferSize (resources index t.running.key) (by decide) _ reached
          obtain ⟨_, _, accepted⟩ := completed_calls _ _ holds.receiver completed
          obtain ⟨_, _, _, all⟩ := Receiver.completed_port t.port sound.port completed
          have written := (sound.finished done).2
          rw [written, JarCacheTransfers.Transfer.bytes, ← sound.taken, ← all]
          exact congrArg List.flatten accepted

-- A jar that a Get answers is the whole of what some uploader had for its key.
def IsSource (key : JarKey) (path : String) : Prop :=
  ∃ (index : Nat) (t : JarCacheTransfers.Transfer), s.store.transfers[index]? = some t ∧ t.running.key = key ∧
    s.store.files path = overwritten (resources index key).flatten (before path)

theorem looked_source (inv : Invariant resources before s) (key : JarKey) (id : JarCacheActor.Long)
    (found : s.store.cache.state.lookup key = some id) : IsSource resources before s key (JarCacheActor.path id) := by
  obtain ⟨t, member, running, done⟩ := inv.store.registered.looked key id found
  obtain ⟨index, here⟩ := List.mem_iff_getElem?.mp member
  have held := inv.store.held t member
  rw [ended_written resources before s inv index t here done] at held
  refine ⟨index, t, here, ?_, ?_⟩
  · rw [running]
  · rwa [running] at held

-- In every run of the cache and of any uploaders that nothing disturbs and in which fewer than 2^64 ids are taken.
theorem get_answers_sources (events : List Event)
    (ran : (system resources before).run (system resources before).initial events = some s)
    (undisturbed : (system resources before).Meets Undisturbed (system resources before).initial events)
    (few : s.store.cache.allocated < 2 ^ 64)
    (keys : List JarKey) (jars : List String) (answered : getResponse s.store.cache.state keys = some jars) :
    List.Forall₂ (IsSource resources before s) keys jars := by
  have inv := run_invariant resources before s events ran undisturbed few
  exact get_response_each s.store.cache.state (IsSource resources before s) keys jars
    (fun key id found => looked_source resources before s inv key id found) answered

end Steps

def uploading (index : Nat) (key : String) : List Event :=
  [.cache (.verifyRequest [JarCacheActor.jarKey key] [JarCacheActor.jarKey key]), .cache .persist, .cache .handle,
   .send index, .upload index .pull, .upload index .polled, .upload index .deliver, .upload index .accept,
   .upload index .done, .write index]

def ending (index : Nat) (key : String) : List Event :=
  [.upload index .acknowledge, .upload index .pull, .upload index .polled, .upload index .deliver, .close index,
   .cache (.finished ⟨JarCacheActor.jarKey key, index⟩), .cache .persist, .cache .handle]

def twoSources (_ : Nat) (key : JarKey) : List ByteString :=
  if key = JarCacheActor.jarKey "jartree" then [[7]] else [[8]]

-- Two uploads overlap. Then the process crashes, and a Get for a third key restarts the actor.
theorem get_answers_sources_two :
    ∃ s, (system twoSources (fun _ => [])).run (system twoSources (fun _ => [])).initial
        (uploading 0 "jartree" ++ uploading 1 "other" ++ ending 1 "other" ++ ending 0 "jartree" ++
          [.cache (.crash []), .get [JarCacheActor.jarKey "third"]]) = some s ∧
      getResponse s.store.cache.state [JarCacheActor.jarKey "other", JarCacheActor.jarKey "jartree"] =
        some ["1.jar", "0.jar"] ∧
      List.Forall₂ (IsSource twoSources (fun _ => []) s) [JarCacheActor.jarKey "other", JarCacheActor.jarKey "jartree"]
        ["1.jar", "0.jar"] := by
  let events := uploading 0 "jartree" ++ uploading 1 "other" ++ ending 1 "other" ++ ending 0 "jartree" ++
    [.cache (.crash []), .get [JarCacheActor.jarKey "third"]]
  have ran : ((system twoSources (fun _ => [])).run (system twoSources (fun _ => [])).initial events).map (fun s =>
      (s.store.cache.allocated,
        getResponse s.store.cache.state [JarCacheActor.jarKey "other", JarCacheActor.jarKey "jartree"])) =
      some (2, some ["1.jar", "0.jar"]) := by decide +kernel
  obtain ⟨s, run, outcome⟩ := Option.map_eq_some_iff.mp ran
  obtain ⟨taken, answered⟩ := Prod.mk.inj outcome
  have few : s.store.cache.allocated < 2 ^ 64 := by
    rw [taken]
    decide
  exact ⟨s, run, answered, get_answers_sources twoSources (fun _ => []) s events run (by decide +kernel) few _ _ answered⟩

end Toolbox8.JarCacheUploads
