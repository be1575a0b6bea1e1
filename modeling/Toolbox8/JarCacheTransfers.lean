import Toolbox8.BufferedTransfer
import Toolbox8.JarCacheActor

set_option autoImplicit false

namespace Toolbox8.JarCacheTransfers

open Base BufferedActors JarCacheActor

-- The result of FileIO.toPath. It is never looked into, so a failed status in it counts as done. lost is that of a process
-- that has ended.
inductive Io where
  | running
  | done
  | lost
deriving DecidableEq, Repr

-- An upload: what its receiver was told, the receiver with its source queue, what the queue has taken and
-- the file sink has not written yet, and what the sink has written.
structure Transfer where
  running : Finished
  told : List (Message ByteString)
  port : Receiver.Port ByteString Unit
  flowing : List ByteString
  written : ByteString
  io : Io

def Transfer.start (running : Finished) : Transfer := ⟨running, [], .initial, [], [], .running⟩

def Transfer.bytes (t : Transfer) : ByteString := (payloads t.told).flatten

def Transfer.lose (t : Transfer) : Transfer := if t.io = .running then { t with io := .lost } else t

-- A restart stops the receiver and the stream of the actor. The sink closes its file, and its io succeeds with what has been
-- written.
def Transfer.cut (t : Transfer) : Transfer := if t.io = .running then { t with io := .done } else t

-- fails: the file cannot be opened, written or closed. A failing write may have written a part of its bytes.
inductive Move where
  | deliver (m : Message ByteString)
  | accept
  | done
  | write
  | close
  | fails (part : Nat)
deriving DecidableEq, Repr

-- The sink opens its path to write without truncating it.
def writeAt (position : Nat) (bytes content : ByteString) : ByteString :=
  content.take position ++ bytes ++ content.drop (position + bytes.length)

def Transfer.move (t : Transfer) (content : ByteString) : Move → Option (Transfer × ByteString)
  | .deliver m =>
      if ∀ earlier ∈ t.told, earlier.payload.isSome then
        some ({ t with told := t.told ++ [m], port := t.port.receive (.message m ()) }, content)
      else none
  | .accept => t.port.accept.map (fun ((msg, _), port) => ({ t with port := port, flowing := t.flowing ++ [msg] }, content))
  | .done => t.port.done.map (fun port => ({ t with port := port }, content))
  | .write =>
      match t.flowing with
      | [] => none
      | bytes :: rest =>
          some ({ t with flowing := rest, written := t.written ++ bytes }, writeAt t.written.length bytes content)
  | .close =>
      if .complete ∈ t.port.calls ∧ t.flowing = [] ∨ .fail ∈ t.port.calls then some ({ t with io := .done }, content)
      else none
  | .fails part =>
      let bytes := (t.flowing.headD []).take part
      some ({ t with written := t.written ++ bytes, io := .done }, writeAt t.written.length bytes content)

structure System where
  cache : JarCacheActor.System
  transfers : List Transfer
  files : String → ByteString

inductive Event where
  | cache (event : JarCacheActor.Event)
  | get (keys : List JarKey)
  | transfer (index : Nat) (move : Move)
deriving DecidableEq, Repr

-- Its io has told the actor Finished.
def Reported (s : System) (running : Finished) : Prop := ∃ t ∈ s.transfers, t.running = running ∧ t.io = .done

instance (s : System) (running : Finished) : Decidable (Reported s running) :=
  inferInstanceAs (Decidable (∃ t ∈ s.transfers, t.running = running ∧ t.io = .done))

-- A crash of the process leaves no message in the mailbox. A Get is an event of its own.
def allowed (s : System) : JarCacheActor.Event → Bool
  | .finished running => decide (Reported s running)
  | .crash surviving => surviving.isEmpty
  | .get _ => false
  | _ => true

def started (cache : JarCacheActor.System) : JarCacheActor.Event → List Finished
  | .handle =>
      match cache.pending with
      | some (.persisted command) => command.requests
      | _ => []
  | _ => []

def transfersKept (s : System) : JarCacheActor.Event → List Transfer
  | .crash _ => s.transfers.map .lose
  | _ => s.transfers

def transfersAfter (s : System) (event : JarCacheActor.Event) : List Transfer :=
  transfersKept s event ++ (started s.cache event).map .start

-- state.lookup(k) throws on a key that it does not have.
def getResponse (state : State) (keys : List JarKey) : Option (List String) :=
  keys.mapM (fun k => (state.lookup k).map path)

-- The supervisor restarts an actor that throws. Its mailbox stays, so that every Finished still comes.
def restart (s : System) : Option System :=
  (JarCacheActor.step s.cache (.crash s.cache.uploads)).map (fun cache =>
    { s with cache := cache, transfers := s.transfers.map .cut })

-- A Get is stashed while an event is being persisted.
def handleGet (s : System) (keys : List JarKey) : Option (System × Option (List String)) :=
  if s.cache.pending = none then
    match getResponse s.cache.state keys with
    | some jars => some (s, some jars)
    | none => (restart s).map (fun next => (next, none))
  else none

def step (s : System) : Event → Option System
  | .cache event =>
      if allowed s event then
        (JarCacheActor.step s.cache event).map (fun cache => { s with cache := cache, transfers := transfersAfter s event })
      else none
  | .get keys => (handleGet s keys).map Prod.fst
  | .transfer index move =>
      match s.transfers[index]? with
      | none => none
      | some t =>
          if t.io = .running then
            (t.move (s.files (path t.running.id)) move).map (fun (next, content) =>
              { s with
                transfers := s.transfers.set index next
                files := Function.update s.files (path t.running.id) content })
          else none

-- before is what the directory holds when its first actor starts.
def system (before : String → ByteString) : Machine System Event where
  initial := ⟨actor.initial, [], before⟩
  step := step

def overwritten (bytes content : ByteString) : ByteString := bytes ++ content.drop bytes.length

def StoredComplete (before : String → ByteString) (s : System) : Prop :=
  ∀ key id, s.cache.state.lookup key = some id →
    ∃ t ∈ s.transfers, t.running = ⟨key, id⟩ ∧ .complete ∈ t.told ∧
      s.files (path id) = overwritten t.bytes (before (path id))

-- No upload fails or is cut off: none is sent an Error, no file operation fails, and no Get makes the actor throw while an
-- upload is in flight.
def Undisturbed (s : System) : Event → Prop
  | .transfer _ (.deliver .error) => False
  | .transfer _ (.fails _) => False
  | .get keys => (∀ key ∈ keys, s.cache.state.lookup key ≠ none) ∨ ∀ t ∈ s.transfers, t.io ≠ .running
  | _ => True

instance decidableUndisturbed (s : System) : (event : Event) → Decidable (Undisturbed s event)
  | .cache _ => isTrue trivial
  | .get keys =>
      inferInstanceAs (Decidable ((∀ key ∈ keys, s.cache.state.lookup key ≠ none) ∨ ∀ t ∈ s.transfers, t.io ≠ .running))
  | .transfer _ (.deliver .error) => isFalse id
  | .transfer _ (.deliver (.data _)) => isTrue trivial
  | .transfer _ (.deliver .complete) => isTrue trivial
  | .transfer _ .accept => isTrue trivial
  | .transfer _ .done => isTrue trivial
  | .transfer _ .write => isTrue trivial
  | .transfer _ .close => isTrue trivial
  | .transfer _ (.fails _) => isFalse id

-- Every entry, also one that is still on its way into the lookup or can only be recovered from the journal.
structure Registered (good : Finished → Prop) (cache : JarCacheActor.System) : Prop where
  looked : ∀ key id, cache.state.lookup key = some id → good ⟨key, id⟩
  journalled : ∀ key id, (receiveRecover cache.journal).lookup key = some id → good ⟨key, id⟩
  persisting : ∀ running, cache.pending = some (.persisting (.put running)) → good running
  persisted : ∀ running, cache.pending = some (.persisted (.put running)) → good running

structure Transfer.Sound (t : Transfer) : Prop where
  port : t.port.Sound
  succeeded : .fail ∉ t.port.calls
  taken : t.port.taken.map Prod.fst = payloads t.told
  conserved : (t.port.accepted.map Prod.fst).flatten = t.written ++ t.flowing.flatten
  listening : (∀ m ∈ t.told, m.payload.isSome) → t.port.state.stopped = false ∧ t.port.state.complete = false
  completed : t.port.state.complete = true → .complete ∈ t.told
  finished : t.io = .done → .complete ∈ t.told ∧ t.written = t.bytes

structure Invariant (before : String → ByteString) (s : System) : Prop where
  cache : JarCacheActor.Invariant s.cache
  issued : s.transfers.map Transfer.running = s.cache.issued
  sound : ∀ t ∈ s.transfers, t.Sound
  held : ∀ t ∈ s.transfers, s.files (path t.running.id) = overwritten t.written (before (path t.running.id))
  untouched : ∀ name, (∀ running ∈ s.cache.issued, path running.id ≠ name) → s.files name = before name
  registered : Registered (Reported s) s.cache

theorem persist_registered (good : Finished → Prop) (cache : JarCacheActor.System) (command : Command)
    (pending : cache.pending = some (.persisting command)) (registered : Registered good cache) :
    Registered good { cache with
      journal := cache.journal ++ [command.evt]
      pending := some (.persisted command)
      allocated := cache.allocated + command.size } := by
  have put : ∀ running, command = .put running → good running := by
    rintro running rfl
    exact registered.persisting running pending
  refine ⟨registered.looked, ?_, ?_, ?_⟩
  · intro key id found
    rw [recover_append] at found
    exact update_looked good _ command registered.journalled put key id found
  · intro running persisting
    simp at persisting
  · intro running persisted
    simp only [Option.some.injEq, Pending.persisted.injEq] at persisted
    exact put running persisted

theorem handle_registered (good : Finished → Prop) (cache : JarCacheActor.System) (command : Command)
    (pending : cache.pending = some (.persisted command)) (registered : Registered good cache) :
    Registered good { cache with
      state := updateState cache.state command.evt
      pending := none
      uploads := cache.uploads ++ command.requests
      issued := cache.issued ++ command.requests } := by
  refine ⟨update_looked good _ command registered.looked ?_, registered.journalled, ?_, ?_⟩
  · rintro running rfl
    exact registered.persisted running pending
  · intro running persisting
    cases persisting
  · intro running persisted
    cases persisted

theorem step_registered (good : Finished → Prop) (cache : JarCacheActor.System) (event : JarCacheActor.Event)
    (next : JarCacheActor.System) (stepped : JarCacheActor.step cache event = some next) (registered : Registered good cache)
    (reports : ∀ running, event = .finished running → good running) : Registered good next := by
  cases event with
  | verifyRequest keys missing =>
      simp only [JarCacheActor.step, Option.ite_none_right_eq_some, Option.some.injEq] at stepped
      obtain ⟨_, rfl⟩ := stepped
      refine ⟨registered.looked, registered.journalled, ?_, ?_⟩
      · intro running persisting
        simp at persisting
      · intro running persisted
        simp at persisted
  | finished running =>
      simp only [JarCacheActor.step, Option.ite_none_right_eq_some, Option.some.injEq] at stepped
      obtain ⟨_, rfl⟩ := stepped
      refine ⟨registered.looked, registered.journalled, ?_, ?_⟩
      · intro other persisting
        simp only [Option.some.injEq, Pending.persisting.injEq, Command.put.injEq] at persisting
        exact reports other (congrArg _ persisting)
      · intro other persisted
        simp at persisted
  | get keys =>
      simp only [JarCacheActor.step, Option.ite_none_right_eq_some, Option.some.injEq] at stepped
      obtain ⟨_, rfl⟩ := stepped
      exact registered
  | persist =>
      simp only [JarCacheActor.step] at stepped
      split at stepped
      · rename_i command pending
        rw [Option.some.injEq] at stepped
        subst stepped
        exact persist_registered good cache command pending registered
      · simp at stepped
  | handle =>
      simp only [JarCacheActor.step] at stepped
      split at stepped
      · rename_i command pending
        rw [Option.some.injEq] at stepped
        subst stepped
        exact handle_registered good cache command pending registered
      · simp at stepped
  | crash surviving =>
      simp only [JarCacheActor.step, Option.ite_none_right_eq_some, Option.some.injEq] at stepped
      obtain ⟨_, rfl⟩ := stepped
      refine ⟨registered.journalled, registered.journalled, ?_, ?_⟩
      · intro running persisting
        cases persisting
      · intro running persisted
        cases persisted

theorem registered_mono (good better : Finished → Prop) (cache : JarCacheActor.System)
    (implies : ∀ running, good running → better running) (registered : Registered good cache) : Registered better cache where
  looked := fun key id found => implies _ (registered.looked key id found)
  journalled := fun key id found => implies _ (registered.journalled key id found)
  persisting := fun running pending => implies _ (registered.persisting running pending)
  persisted := fun running pending => implies _ (registered.persisted running pending)

theorem write_at_end (written bytes before : ByteString) :
    writeAt written.length bytes (overwritten written before) = overwritten (written ++ bytes) before := by
  simp [writeAt, overwritten, List.drop_append]

theorem start_sound (running : Finished) : (Transfer.start running).Sound := by
  refine ⟨Receiver.initial_sound, ?_, rfl, rfl, fun _ => ⟨rfl, rfl⟩, ?_, ?_⟩
  · simp [Transfer.start, Receiver.Port.initial]
  · intro complete
    cases complete
  · intro done
    cases done

theorem lose_sound (t : Transfer) (sound : t.Sound) : t.lose.Sound := by
  by_cases live : t.io = .running
  · rw [Transfer.lose, if_pos live]
    refine { sound with finished := ?_ }
    intro done
    cases done
  · rwa [Transfer.lose, if_neg live]

theorem deliver_sound (t : Transfer) (m : Message ByteString) (sound : t.Sound)
    (listens : ∀ earlier ∈ t.told, earlier.payload.isSome) (live : t.io = .running) (clean : m ≠ .error) :
    { t with told := t.told ++ [m], port := t.port.receive (.message m ()) : Transfer }.Sound := by
  obtain ⟨running, incomplete⟩ := sound.listening listens
  have finished : t.io = .done → False := by simp [live]
  cases m with
  | error => exact absurd rfl clean
  | data msg =>
      obtain ⟨handled, stillRunning, stillIncomplete⟩ := Receiver.data_sound t.port msg () sound.port running
      refine ⟨handled.sound, fun failed => sound.succeeded (handled.failed failed), ?_, ?_, fun _ => ⟨stillRunning, ?_⟩, ?_,
        fun done => (finished done).elim⟩
      · simp [handled.taken, sound.taken]
      · simpa only [handled.accepted] using sound.conserved
      · rw [stillIncomplete, incomplete]
      · intro complete
        simp [stillIncomplete, incomplete] at complete
  | complete =>
      obtain ⟨handled, _⟩ := Receiver.complete_sound t.port () sound.port running
      refine ⟨handled.sound, fun failed => sound.succeeded (handled.failed failed), ?_, ?_, ?_, by simp,
        fun done => (finished done).elim⟩
      · simp [handled.taken, sound.taken]
      · simpa only [handled.accepted] using sound.conserved
      · intro all
        have ended := all .complete (by simp)
        simp [Message.payload] at ended

theorem move_sound (t next : Transfer) (move : Move) (content after : ByteString) (sound : t.Sound) (live : t.io = .running)
    (moved : t.move content move = some (next, after)) (clean : move ≠ .deliver .error) (works : ∀ part, move ≠ .fails part) :
    next.Sound := by
  have finished : t.io = .done → False := by simp [live]
  cases move with
  | deliver m =>
      simp only [Transfer.move, Option.ite_none_right_eq_some, Option.some.injEq, Prod.mk.injEq] at moved
      obtain ⟨listens, rfl, rfl⟩ := moved
      exact deliver_sound t m sound listens live (fun error => clean (by rw [error]))
  | accept =>
      simp only [Transfer.move, Option.map_eq_some_iff, Prod.mk.injEq] at moved
      obtain ⟨⟨x, port⟩, accepted, rfl, rfl⟩ := moved
      obtain ⟨portSound, taken, state, grown, calls⟩ := Receiver.accept_sound t.port x port sound.port accepted
      refine ⟨portSound, by simpa only [calls] using sound.succeeded, by simpa only [taken] using sound.taken, ?_,
        by simpa only [state] using sound.listening, by simpa only [state] using sound.completed,
        fun done => (finished done).elim⟩
      simp [grown, sound.conserved]
  | done =>
      simp only [Transfer.move, Option.map_eq_some_iff, Prod.mk.injEq] at moved
      obtain ⟨port, did, rfl, rfl⟩ := moved
      obtain ⟨handled, complete, stops⟩ := Receiver.done_sound t.port port sound.port did
      refine ⟨handled.sound, fun failed => sound.succeeded (handled.failed failed), ?_, ?_, fun all => ?_, ?_,
        fun done => (finished done).elim⟩
      · simp [handled.taken, sound.taken]
      · simpa only [handled.accepted] using sound.conserved
      · obtain ⟨running, incomplete⟩ := sound.listening all
        refine ⟨?_, complete.trans incomplete⟩
        cases stopped : port.state.stopped with
        | false => rfl
        | true => cases stops stopped <;> simp_all
      · intro now
        exact sound.completed (complete.symm.trans now)
  | write =>
      simp only [Transfer.move] at moved
      split at moved
      · simp at moved
      · rename_i bytes rest flowing
        simp only [Option.some.injEq, Prod.mk.injEq] at moved
        obtain ⟨rfl, _⟩ := moved
        refine { sound with conserved := ?_, finished := fun done => (finished done).elim }
        simp [sound.conserved, flowing]
  | close =>
      simp only [Transfer.move, Option.ite_none_right_eq_some, Option.some.injEq, Prod.mk.injEq] at moved
      obtain ⟨ended, rfl, rfl⟩ := moved
      obtain ⟨completed, drained⟩ := ended.resolve_right sound.succeeded
      obtain ⟨_, _, complete, all⟩ := Receiver.completed_port t.port sound.port completed
      refine { sound with finished := fun _ => ⟨sound.completed complete, ?_⟩ }
      have written := sound.conserved
      rw [all, sound.taken, drained, List.flatten_nil, List.append_nil] at written
      exact written.symm
  | fails part => exact absurd rfl (works part)

theorem move_kept (t next : Transfer) (move : Move) (content after before : ByteString)
    (moved : t.move content move = some (next, after)) :
    next.running = t.running ∧ (content = overwritten t.written before → after = overwritten next.written before) := by
  cases move with
  | deliver m =>
      simp only [Transfer.move, Option.ite_none_right_eq_some, Option.some.injEq, Prod.mk.injEq] at moved
      obtain ⟨_, rfl, rfl⟩ := moved
      exact ⟨rfl, id⟩
  | accept =>
      simp only [Transfer.move, Option.map_eq_some_iff, Prod.mk.injEq] at moved
      obtain ⟨_, _, rfl, rfl⟩ := moved
      exact ⟨rfl, id⟩
  | done =>
      simp only [Transfer.move, Option.map_eq_some_iff, Prod.mk.injEq] at moved
      obtain ⟨_, _, rfl, rfl⟩ := moved
      exact ⟨rfl, id⟩
  | write =>
      simp only [Transfer.move] at moved
      split at moved
      · simp at moved
      · rename_i bytes rest flowing
        simp only [Option.some.injEq, Prod.mk.injEq] at moved
        obtain ⟨rfl, rfl⟩ := moved
        refine ⟨rfl, ?_⟩
        rintro rfl
        exact write_at_end t.written bytes before
  | close =>
      simp only [Transfer.move, Option.ite_none_right_eq_some, Option.some.injEq, Prod.mk.injEq] at moved
      obtain ⟨_, rfl, rfl⟩ := moved
      exact ⟨rfl, id⟩
  | fails part =>
      simp only [Transfer.move, Option.some.injEq, Prod.mk.injEq] at moved
      obtain ⟨rfl, rfl⟩ := moved
      refine ⟨rfl, ?_⟩
      rintro rfl
      exact write_at_end t.written _ before

theorem path_differs (s : JarCacheActor.System) (inv : JarCacheActor.Invariant s) (one two : Finished)
    (oneIssued : one ∈ s.issued) (twoIssued : two ∈ s.issued) (different : one ≠ two) : path one.id ≠ path two.id := by
  intro same
  exact different (List.inj_on_of_nodup_map inv.distinct oneIssued twoIssued (path_injective one.id two.id same))

theorem transfer_invariant (before : String → ByteString) (s : System) (index : Nat) (t next : Transfer) (move : Move)
    (content : ByteString) (inv : Invariant before s) (here : s.transfers[index]? = some t) (live : t.io = .running)
    (moved : t.move (s.files (path t.running.id)) move = some (next, content)) (clean : move ≠ .deliver .error)
    (works : ∀ part, move ≠ .fails part) : Invariant before { s with
      transfers := s.transfers.set index next
      files := Function.update s.files (path t.running.id) content } := by
  have member : t ∈ s.transfers := List.mem_of_getElem? here
  obtain ⟨running, written⟩ := move_kept t next move _ content (before (path t.running.id)) moved
  have issued : t.running ∈ s.cache.issued := by
    rw [← inv.issued]
    exact List.mem_map_of_mem member
  have distinct : (s.transfers.map Transfer.running).Nodup := by
    rw [inv.issued]
    exact inv.cache.distinct.of_map
  refine ⟨inv.cache, ?_, ?_, ?_, ?_, ?_⟩
  · rw [map_set_same Transfer.running s.transfers index t next here running, inv.issued]
  · intro u inside
    rcases mem_set_distinct Transfer.running s.transfers index t next u distinct here inside with rfl | ⟨old, _⟩
    · exact move_sound t u move _ content (inv.sound t member) live moved clean works
    · exact inv.sound u old
  · intro u inside
    rcases mem_set_distinct Transfer.running s.transfers index t next u distinct here inside with rfl | ⟨old, different⟩
    · simp only [running, Function.update_self]
      exact written (inv.held t member)
    · have uIssued : u.running ∈ s.cache.issued := by
        rw [← inv.issued]
        exact List.mem_map_of_mem old
      simp only [Function.update_of_ne (path_differs s.cache inv.cache u.running t.running uIssued issued different)]
      exact inv.held u old
  · intro name unused
    simp only [Function.update_of_ne (Ne.symm (unused t.running issued))]
    exact inv.untouched name unused
  · refine registered_mono (Reported s) _ s.cache ?_ inv.registered
    rintro finished ⟨u, inside, same, done⟩
    refine ⟨u, mem_set_other s.transfers index t next u here inside ?_, same, done⟩
    rintro rfl
    simp [live] at done

theorem lose_running (t : Transfer) : t.lose.running = t.running := by
  by_cases live : t.io = .running <;> simp [Transfer.lose, live]

theorem lose_written (t : Transfer) : t.lose.written = t.written := by
  by_cases live : t.io = .running <;> simp [Transfer.lose, live]

theorem lose_done (t : Transfer) (done : t.io = .done) : t.lose = t := by
  simp [Transfer.lose, done]

theorem step_issued (cache : JarCacheActor.System) (event : JarCacheActor.Event) (next : JarCacheActor.System)
    (stepped : JarCacheActor.step cache event = some next) : next.issued = cache.issued ++ started cache event := by
  cases event with
  | persist =>
      simp only [JarCacheActor.step] at stepped
      split at stepped
      · rw [Option.some.injEq] at stepped
        subst stepped
        simp [started]
      · simp at stepped
  | handle =>
      simp only [JarCacheActor.step] at stepped
      split at stepped
      · rename_i command pending
        rw [Option.some.injEq] at stepped
        subst stepped
        simp [started, pending]
      · simp at stepped
  | _ =>
      simp only [JarCacheActor.step, Option.ite_none_right_eq_some, Option.some.injEq] at stepped
      obtain ⟨_, rfl⟩ := stepped
      simp [started]

theorem kept_member (s : System) (event : JarCacheActor.Event) (t : Transfer) (member : t ∈ transfersKept s event) :
    ∃ u ∈ s.transfers, t = u ∨ t = u.lose := by
  cases event with
  | crash surviving =>
      obtain ⟨u, inside, rfl⟩ := List.mem_map.mp member
      exact ⟨u, inside, .inr rfl⟩
  | _ => exact ⟨t, member, .inl rfl⟩

theorem kept_running (s : System) (event : JarCacheActor.Event) :
    (transfersKept s event).map Transfer.running = s.transfers.map Transfer.running := by
  cases event with
  | crash surviving => simp [transfersKept, lose_running, Function.comp_def]
  | _ => rfl

theorem kept_done (s : System) (event : JarCacheActor.Event) (t : Transfer) (member : t ∈ s.transfers)
    (done : t.io = .done) : t ∈ transfersKept s event := by
  cases event with
  | crash surviving => exact List.mem_map.mpr ⟨t, member, lose_done t done⟩
  | _ => exact member

theorem cache_invariant (before : String → ByteString) (s : System) (event : JarCacheActor.Event)
    (next : JarCacheActor.System) (inv : Invariant before s) (reports : allowed s event)
    (stepped : JarCacheActor.step s.cache event = some next) (few : next.allocated < 2 ^ 64) :
    Invariant before { s with cache := next, transfers := transfersAfter s event } := by
  have cache : JarCacheActor.Invariant next := (JarCacheActor.step_invariant s.cache event next stepped).2 few inv.cache
  have issued := step_issued s.cache event next stepped
  have members : ∀ t ∈ transfersAfter s event,
      (∃ u ∈ s.transfers, t = u ∨ t = u.lose) ∨ ∃ running ∈ started s.cache event, t = .start running := by
    intro t member
    rcases List.mem_append.mp member with old | new
    · exact .inl (kept_member s event t old)
    · obtain ⟨running, inside, rfl⟩ := List.mem_map.mp new
      exact .inr ⟨running, inside, rfl⟩
  have stillReported : ∀ running, Reported s running →
      Reported { s with cache := next, transfers := transfersAfter s event } running := by
    rintro running ⟨t, member, same, done⟩
    exact ⟨t, List.mem_append_left _ (kept_done s event t member done), same, done⟩
  refine ⟨cache, ?_, ?_, ?_, ?_, ?_⟩
  · simp [transfersAfter, kept_running, inv.issued, issued, Transfer.start, Function.comp_def]
  · intro t member
    rcases members t member with ⟨u, old, rfl | rfl⟩ | ⟨running, _, rfl⟩
    · exact inv.sound t old
    · exact lose_sound u (inv.sound u old)
    · exact start_sound running
  · intro t member
    rcases members t member with ⟨u, old, rfl | rfl⟩ | ⟨running, new, rfl⟩
    · exact inv.held t old
    · rw [lose_running, lose_written]
      exact inv.held u old
    · refine inv.untouched _ (fun other old => ?_)
      have distinct := cache.distinct
      rw [issued, List.map_append, List.nodup_append] at distinct
      intro same
      exact distinct.2.2 _ (List.mem_map_of_mem old) _ (List.mem_map_of_mem new) (path_injective _ _ same)
  · intro name unused
    refine inv.untouched name (fun running old => unused running ?_)
    simp [issued, old]
  · refine step_registered _ s.cache event next stepped (registered_mono _ _ s.cache stillReported inv.registered) ?_
    rintro running rfl
    exact stillReported running (of_decide_eq_true reports)

theorem get_response_none_iff (state : State) (keys : List JarKey) :
    getResponse state keys = none ↔ ∃ key ∈ keys, state.lookup key = none := by
  induction keys with
  | nil => simp [getResponse]
  | cons key rest ih =>
      rw [getResponse] at ih ⊢
      rw [List.mapM_cons]
      cases found : state.lookup key with
      | none => simp [found]
      | some id =>
          cases later : rest.mapM (fun k => (state.lookup k).map path) with
          | none => simpa [found, later] using ih
          | some jars => simpa [found, later] using ih

theorem handle_get_cases (s next : System) (keys : List JarKey) (response : Option (List String))
    (handled : handleGet s keys = some (next, response)) :
    s.cache.pending = none ∧
      (((∀ key ∈ keys, s.cache.state.lookup key ≠ none) ∧ next = s) ∨
        ((∃ key ∈ keys, s.cache.state.lookup key = none) ∧ restart s = some next)) := by
  obtain ⟨idle, handled⟩ := Option.ite_none_right_eq_some.mp handled
  refine ⟨idle, ?_⟩
  split at handled
  · rename_i jars answer
    obtain ⟨rfl, _⟩ := Prod.mk.inj (Option.some.inj handled)
    refine .inl ⟨?_, rfl⟩
    intro key member unknown
    rw [(get_response_none_iff s.cache.state keys).mpr ⟨key, member, unknown⟩] at answer
    cases answer
  · rename_i none
    obtain ⟨after, stepped, same⟩ := Option.map_eq_some_iff.mp handled
    obtain ⟨rfl, _⟩ := Prod.mk.inj same
    exact .inr ⟨(get_response_none_iff s.cache.state keys).mp none, stepped⟩

theorem restart_outcome (s next : System) (restarted : restart s = some next) :
    next = { s with
      cache := { s.cache with state := receiveRecover s.cache.journal, pending := none }
      transfers := s.transfers.map .cut } := by
  obtain ⟨cache, moved, rfl⟩ := Option.map_eq_some_iff.mp restarted
  obtain ⟨_, same⟩ := Option.ite_none_right_eq_some.mp moved
  rw [← Option.some.inj same]

theorem cut_idle (transfers : List Transfer) (idle : ∀ t ∈ transfers, t.io ≠ .running) : transfers.map .cut = transfers := by
  rw [List.map_congr_left (g := id), List.map_id]
  intro t inside
  rw [Transfer.cut, if_neg (idle t inside), id]

theorem allocated_grows (s : System) (event : Event) (next : System) (stepped : step s event = some next) :
    s.cache.allocated ≤ next.cache.allocated := by
  cases event with
  | cache event =>
      simp only [step, Option.ite_none_right_eq_some, Option.map_eq_some_iff] at stepped
      obtain ⟨_, cache, moved, rfl⟩ := stepped
      exact (JarCacheActor.step_invariant s.cache event cache moved).1
  | get keys =>
      obtain ⟨⟨after, response⟩, handled, rfl⟩ := Option.map_eq_some_iff.mp stepped
      obtain ⟨_, ⟨_, rfl⟩ | ⟨_, restarted⟩⟩ := handle_get_cases s after keys response handled
      · exact Nat.le_refl _
      · rw [restart_outcome s after restarted]
  | transfer index move =>
      simp only [step] at stepped
      split at stepped
      · simp at stepped
      · simp only [Option.ite_none_right_eq_some, Option.map_eq_some_iff] at stepped
        obtain ⟨_, _, _, rfl⟩ := stepped
        exact Nat.le_refl _

theorem restart_invariant (before : String → ByteString) (s next : System) (inv : Invariant before s)
    (few : s.cache.allocated < 2 ^ 64) (idle : ∀ t ∈ s.transfers, t.io ≠ .running) (restarted : restart s = some next) :
    Invariant before next := by
  obtain ⟨cache, moved, rfl⟩ := Option.map_eq_some_iff.mp restarted
  have registered := step_registered _ s.cache (.crash s.cache.uploads) cache moved inv.registered (by simp)
  have issued : cache.issued = s.cache.issued := by
    simpa [started] using step_issued s.cache (.crash s.cache.uploads) cache moved
  have same : cache.allocated = s.cache.allocated := by
    obtain ⟨_, same⟩ := Option.ite_none_right_eq_some.mp moved
    rw [← Option.some.inj same]
  rw [cut_idle s.transfers idle]
  exact {
    cache := (JarCacheActor.step_invariant s.cache (.crash s.cache.uploads) cache moved).2 (by rw [same]; exact few) inv.cache
    issued := by rw [issued]; exact inv.issued
    sound := inv.sound
    held := inv.held
    untouched := by rw [issued]; exact inv.untouched
    registered := registered }

theorem step_invariant (before : String → ByteString) (s : System) (event : Event) (next : System)
    (inv : Invariant before s) (undisturbed : Undisturbed s event)
    (stepped : step s event = some next) (few : next.cache.allocated < 2 ^ 64) : Invariant before next := by
  cases event with
  | cache event =>
      simp only [step, Option.ite_none_right_eq_some, Option.map_eq_some_iff] at stepped
      obtain ⟨reports, cache, moved, rfl⟩ := stepped
      exact cache_invariant before s event cache inv reports moved few
  | get keys =>
      have grows := allocated_grows s (.get keys) next stepped
      obtain ⟨⟨after, response⟩, handled, rfl⟩ := Option.map_eq_some_iff.mp stepped
      obtain ⟨_, ⟨_, rfl⟩ | ⟨⟨key, member, unknown⟩, restarted⟩⟩ := handle_get_cases s after keys response handled
      · exact inv
      · have idle := undisturbed.resolve_left (fun known => known key member unknown)
        exact restart_invariant before s after inv (Nat.lt_of_le_of_lt grows few) idle restarted
  | transfer index move =>
      simp only [step] at stepped
      split at stepped
      · simp at stepped
      · rename_i t here
        simp only [Option.ite_none_right_eq_some, Option.map_eq_some_iff] at stepped
        obtain ⟨live, ⟨after, content⟩, moved, rfl⟩ := stepped
        refine transfer_invariant before s index t after move content inv here live moved ?_ ?_
        · rintro rfl
          exact undisturbed
        · rintro part rfl
          exact undisturbed

theorem initial_invariant (before : String → ByteString) : Invariant before (system before).initial := by
  refine ⟨JarCacheActor.initial_invariant, rfl, ?_, ?_, fun _ _ => rfl, ⟨?_, ?_, ?_, ?_⟩⟩ <;>
    simp [system, actor, receiveRecover, State.initial]

theorem invariant_stored (before : String → ByteString) (s : System) (inv : Invariant before s) : StoredComplete before s := by
  intro key id found
  obtain ⟨t, member, running, done⟩ := inv.registered.looked key id found
  obtain ⟨completed, written⟩ := (inv.sound t member).finished done
  refine ⟨t, member, running, completed, ?_⟩
  have held := inv.held t member
  rwa [running, written] at held

-- In every run that nothing disturbs and in which fewer than 2^64 ids are taken.
theorem stored_complete (before : String → ByteString) (events : List Event) (s : System)
    (ran : (system before).run (system before).initial events = some s)
    (undisturbed : (system before).Meets Undisturbed (system before).initial events) (few : s.cache.allocated < 2 ^ 64) :
    StoredComplete before s := by
  refine invariant_stored before s (run_keeps_guarded (system before) Undisturbed
    (fun s => s.cache.allocated < 2 ^ 64 → Invariant before s) ?_ _ s events (fun _ => initial_invariant before) undisturbed ran few)
  intro s event next holds calm stepped fewNext
  have grows := allocated_grows s event next stepped
  exact step_invariant before s event next (holds (by omega)) calm stepped fewNext

def uploadEvents (moves : List Move) : List Event :=
  [.cache (.verifyRequest [jarKey "jartree"] [jarKey "jartree"]), .cache .persist, .cache .handle] ++
    moves.map (.transfer 0) ++ [.cache (.finished ⟨jarKey "jartree", 0⟩), .cache .persist, .cache .handle]

-- After the upload, a Get for an unknown key restarts the actor, and then the process crashes.
theorem stored_complete_example :
    ∃ s, (system (fun _ => [])).run (system (fun _ => [])).initial
        (uploadEvents [.deliver (.data [7]), .accept, .done, .write, .deliver .complete, .close] ++
          [.get [jarKey "other"], .cache (.crash [])]) = some s ∧
      (s.cache.state.lookup (jarKey "jartree") = some 0 ∧ s.cache.allocated < 2 ^ 64) ∧
      StoredComplete (fun _ => []) s := by
  let events := uploadEvents [.deliver (.data [7]), .accept, .done, .write, .deliver .complete, .close] ++
    [.get [jarKey "other"], .cache (.crash [])]
  have ran : (((system (fun _ => [])).run (system (fun _ => [])).initial events).map
      (fun s => (s.cache.state.lookup (jarKey "jartree"), s.cache.allocated))) = some (some 0, 1) := by decide +kernel
  obtain ⟨s, run, outcome⟩ := Option.map_eq_some_iff.mp ran
  obtain ⟨found, allocated⟩ := Prod.mk.inj outcome
  have few : s.cache.allocated < 2 ^ 64 := by
    rw [allocated]
    decide
  exact ⟨s, run, ⟨found, few⟩, stored_complete (fun _ => []) events s run (by decide +kernel) few⟩

-- The sender fails after its first element, and the file with that element is the jar.
theorem failed_upload_registered :
    ∃ s, (system (fun _ => [])).run (system (fun _ => [])).initial
        (uploadEvents [.deliver (.data [7]), .accept, .done, .write, .deliver .error, .close]) = some s ∧
      s.cache.state.lookup (jarKey "jartree") = some 0 ∧ ¬ StoredComplete (fun _ => []) s := by
  have ran : (((system (fun _ => [])).run (system (fun _ => [])).initial
      (uploadEvents [.deliver (.data [7]), .accept, .done, .write, .deliver .error, .close])).map
        (fun s => (s.cache.state.lookup (jarKey "jartree"), s.transfers.map Transfer.told))) =
      some (some 0, [[.data [7], .error]]) := by decide +kernel
  obtain ⟨s, run, outcome⟩ := Option.map_eq_some_iff.mp ran
  rw [Prod.mk.injEq] at outcome
  obtain ⟨found, told⟩ := outcome
  refine ⟨s, run, found, fun stored => ?_⟩
  obtain ⟨t, member, _, completed, _⟩ := stored _ _ found
  have inside : t.told ∈ s.transfers.map Transfer.told := List.mem_map_of_mem member
  rw [told, List.mem_singleton] at inside
  simp [inside] at completed

end Toolbox8.JarCacheTransfers
