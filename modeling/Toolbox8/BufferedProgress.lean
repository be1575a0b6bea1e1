import Toolbox8.BufferedTransfer

set_option autoImplicit false

namespace Toolbox8.BufferedActors

open Base

variable {α : Type} (bufferSize : Int) (elements : List α)

-- What a step does where the invariants hold: nobody who has stopped is still sent an element.
inductive Moved (s : Transfer α) : Event → Transfer α → Prop where
  | pullData (pulls : Nat) (x : α) (rest : List α) (pulling : s.pulls = pulls + 1) (more : s.source = x :: rest) :
      Moved s .pull { s with pulls := pulls, source := rest, pulled := s.pulled ++ [x], polled := s.polled ++ [.data x] }
  | pullEnds (pulls : Nat) (pulling : s.pulls = pulls + 1) (ends : s.source = []) :
      Moved s .pull { s with pulls := pulls, polled := s.polled ++ [.complete] }
  | pullFails (pulls : Nat) (pulling : s.pulls = pulls + 1) :
      Moved s .pullFails { s with pulls := pulls, polled := s.polled ++ [.error] }
  | polledData (msg : α) (running : s.sender.stopped = false) (waiting : s.polled = [.data msg]) :
      Moved s .polled { s with
        polled := []
        sender := { s.sender with pending := s.sender.pending + 1 }
        pulls := s.pulls + if s.sender.pending + 1 < bufferSize then 1 else 0
        toReceiver := s.toReceiver ++ [.data msg] }
  | polledComplete (running : s.sender.stopped = false) (waiting : s.polled = [.complete]) :
      Moved s .polled { s with
        polled := []
        sender := ⟨s.sender.pending, true, decide (s.sender.pending = 0)⟩
        toReceiver := s.toReceiver ++ if s.sender.pending = 0 then [.complete] else [] }
  | polledError (running : s.sender.stopped = false) (waiting : s.polled = [.error]) :
      Moved s .polled { s with
        polled := []
        sender := { s.sender with stopped := true }
        toReceiver := s.toReceiver ++ [.error] }
  | ackStopped (acks : Nat) (waiting : s.acks = acks + 1) (stopped : s.sender.stopped = true) :
      Moved s .acknowledge { s with acks := acks, acked := s.acked + 1 }
  | ack (acks : Nat) (waiting : s.acks = acks + 1) (running : s.sender.stopped = false) :
      Moved s .acknowledge { s with
        acks := acks
        acked := s.acked + 1
        sender := ⟨s.sender.pending - 1, s.sender.complete, decide (s.sender.complete = true ∧ s.sender.pending - 1 = 0)⟩
        pulls := s.pulls + if s.sender.pending = bufferSize then 1 else 0
        toReceiver := s.toReceiver ++ if s.sender.complete = true ∧ s.sender.pending - 1 = 0 then [.complete] else [] }
  | dataWaits (msg : α) (rest : List (Message α)) (waiting : s.toReceiver = .data msg :: rest)
      (running : s.port.state.stopped = false) (offering : s.port.state.offering = true) :
      Moved s .deliver { s with
        toReceiver := rest
        port := { s.port with state := { s.port.state with buffer := s.port.state.buffer ++ [(msg, ())] } } }
  | dataOffers (msg : α) (rest : List (Message α)) (waiting : s.toReceiver = .data msg :: rest)
      (running : s.port.state.stopped = false) :
      Moved s .deliver { s with
        toReceiver := rest
        port := { s.port with
          state := { s.port.state with offering := true }
          offers := s.port.offers ++ [(msg, ())]
          calls := s.port.calls ++ [.offer msg ()] } }
  | completeWaits (waiting : s.toReceiver = [.complete]) (running : s.port.state.stopped = false)
      (offering : s.port.state.offering = true) :
      Moved s .deliver { s with
        toReceiver := []
        port := { s.port with state := { s.port.state with complete := true } } }
  | completeStops (waiting : s.toReceiver = [.complete]) (running : s.port.state.stopped = false) :
      Moved s .deliver { s with
        toReceiver := []
        port := { s.port with
          state := { s.port.state with complete := true, stopped := true }
          calls := s.port.calls ++ [.complete] } }
  | errorStops (waiting : s.toReceiver = [.error]) (running : s.port.state.stopped = false) :
      Moved s .deliver { s with
        toReceiver := []
        port := { s.port with
          state := { s.port.state with stopped := true }
          calls := s.port.calls ++ [.fail] } }
  | accept (x : α × Unit) (rest : List (α × Unit)) (offered : s.port.offers = x :: rest) :
      Moved s .accept { s with
        acks := s.acks + 1
        port := { s.port with offers := rest, accepted := s.port.accepted ++ [x], dones := s.port.dones + 1 } }
  | doneStopped (dones : Nat) (waiting : s.port.dones = dones + 1) (stopped : s.port.state.stopped = true) :
      Moved s .done { s with port := { s.port with dones := dones } }
  | doneOffers (dones : Nat) (x : α × Unit) (rest : List (α × Unit)) (waiting : s.port.dones = dones + 1)
      (running : s.port.state.stopped = false) (buffered : s.port.state.buffer = x :: rest) :
      Moved s .done { s with
        port := { s.port with
          dones := dones
          state := { s.port.state with buffer := rest, offering := true }
          offers := s.port.offers ++ [x]
          calls := s.port.calls ++ [.offer x.1 x.2] } }
  | doneIdle (dones : Nat) (waiting : s.port.dones = dones + 1) (running : s.port.state.stopped = false)
      (empty : s.port.state.buffer = []) (incomplete : s.port.state.complete = false) :
      Moved s .done { s with
        port := { s.port with dones := dones, state := { s.port.state with offering := false } } }
  | doneStops (dones : Nat) (waiting : s.port.dones = dones + 1) (running : s.port.state.stopped = false)
      (empty : s.port.state.buffer = []) :
      Moved s .done { s with
        port := { s.port with
          dones := dones
          state := { s.port.state with offering := false, stopped := true }
          calls := s.port.calls ++ [.complete] } }

theorem polled_moved (s : Transfer α) (m : Message α) (rest : List (Message α)) (sending : SenderInvariant bufferSize elements s)
    (waiting : s.polled = m :: rest) :
    Moved bufferSize s .polled ({ s with polled := rest }.senderReceives bufferSize (.polled m)) := by
  obtain ⟨running, _, _, single⟩ := one_poll bufferSize elements s sending (by rw [waiting, List.length_cons]; omega)
  rw [waiting, List.length_cons] at single
  have noResult : rest = [] := List.length_eq_zero_iff.mp (by omega)
  subst noResult
  cases m with
  | data msg =>
      rw [sender_polled_data bufferSize { s with polled := [] } msg running]
      exact .polledData msg running waiting
  | complete =>
      rw [sender_polled_complete bufferSize { s with polled := [] } running]
      exact .polledComplete running waiting
  | error =>
      rw [sender_polled_error bufferSize { s with polled := [] } running]
      exact .polledError running waiting

theorem deliver_moved (s : Transfer α) (m : Message α) (rest : List (Message α)) (inv : ReceiverInvariant elements s)
    (waiting : s.toReceiver = m :: rest) :
    Moved bufferSize s .deliver { s with toReceiver := rest, port := s.port.receive (.message m ()) } := by
  obtain ⟨running, _⟩ := receiver_running elements s inv m rest waiting
  have ordered := inv.ordered
  rw [waiting] at ordered
  cases m with
  | data msg =>
      cases offering : s.port.state.offering with
      | true =>
          rw [Receiver.receive_data_waits s.port msg () running offering]
          exact .dataWaits msg rest waiting running offering
      | false =>
          obtain ⟨empty, _, _⟩ := Receiver.idle_port s.port inv.sound running offering
          rw [Receiver.receive_data_offers s.port msg () running offering empty]
          exact .dataOffers msg rest waiting running
  | complete =>
      obtain ⟨_, rfl⟩ := ordered
      cases offering : s.port.state.offering with
      | true =>
          rw [Receiver.receive_complete_waits s.port () running offering]
          exact .completeWaits waiting running offering
      | false =>
          rw [Receiver.receive_complete_stops s.port () running offering]
          exact .completeStops waiting running
  | error =>
      obtain ⟨_, rfl⟩ := ordered
      rw [Receiver.receive_error s.port () running]
      exact .errorStops waiting running

theorem done_moved (s : Transfer α) (dones : Nat) (waiting : s.port.dones = dones + 1) :
    Moved bufferSize s .done { s with port := { s.port with dones := dones }.receive .done } := by
  cases running : s.port.state.stopped with
  | true =>
      rw [Receiver.receive_stopped { s.port with dones := dones } .done running]
      exact .doneStopped dones waiting running
  | false =>
      cases buffered : s.port.state.buffer with
      | cons x rest =>
          rw [Receiver.receive_done_offers { s.port with dones := dones } x rest running buffered]
          exact .doneOffers dones x rest waiting running buffered
      | nil =>
          cases complete : s.port.state.complete with
          | false =>
              rw [Receiver.receive_done_idle { s.port with dones := dones } running buffered complete]
              exact .doneIdle dones waiting running buffered complete
          | true =>
              rw [Receiver.receive_done_stops { s.port with dones := dones } running buffered complete]
              exact .doneStops dones waiting running buffered

theorem step_moved (s next : Transfer α) (event : Event) (sending : SenderInvariant bufferSize elements s)
    (inv : ReceiverInvariant elements s) (stepped : step bufferSize s event = some next) : Moved bufferSize s event next := by
  cases event with
  | pull =>
      cases pulling : s.pulls with
      | zero => simp [step, pulling] at stepped
      | succ pulls =>
          cases left : s.source with
          | nil =>
              simp only [step, pulling, left, Option.some.injEq] at stepped
              have moved : Moved bufferSize s .pull { s with pulls := pulls, polled := s.polled ++ [.complete] } :=
                .pullEnds pulls pulling left
              rw [left] at moved
              exact stepped ▸ moved
          | cons x rest =>
              simp only [step, pulling, left, Option.some.injEq] at stepped
              exact stepped ▸ .pullData pulls x rest pulling left
  | pullFails =>
      cases pulling : s.pulls with
      | zero => simp [step, pulling] at stepped
      | succ pulls =>
          simp only [step, pulling, Option.some.injEq] at stepped
          exact stepped ▸ .pullFails pulls pulling
  | polled =>
      cases waiting : s.polled with
      | nil => simp [step, waiting] at stepped
      | cons m rest =>
          simp only [step, waiting, Option.some.injEq] at stepped
          exact stepped ▸ polled_moved bufferSize elements s m rest sending waiting
  | acknowledge =>
      cases waiting : s.acks with
      | zero => simp [step, waiting] at stepped
      | succ acks =>
          simp only [step, waiting, Option.some.injEq] at stepped
          cases running : s.sender.stopped with
          | true =>
              rw [sender_stopped bufferSize { s with acks := acks, acked := s.acked + 1 } _ running] at stepped
              exact stepped ▸ .ackStopped acks waiting running
          | false =>
              rw [sender_done bufferSize { s with acks := acks, acked := s.acked + 1 } running] at stepped
              exact stepped ▸ .ack acks waiting running
  | deliver =>
      cases waiting : s.toReceiver with
      | nil => simp [step, waiting] at stepped
      | cons m rest =>
          simp only [step, waiting, Option.some.injEq] at stepped
          exact stepped ▸ deliver_moved bufferSize elements s m rest inv waiting
  | accept =>
      cases offered : s.port.offers with
      | nil => simp [step, Receiver.Port.accept, offered] at stepped
      | cons x rest =>
          simp only [step, Receiver.Port.accept, offered, Option.map_some, Option.some.injEq] at stepped
          exact stepped ▸ .accept x rest offered
  | done =>
      cases waiting : s.port.dones with
      | zero => simp [step, Receiver.Port.done, waiting] at stepped
      | succ dones =>
          simp only [step, Receiver.Port.done, waiting, Option.map_some, Option.some.injEq] at stepped
          exact stepped ▸ done_moved bufferSize s dones waiting

-- Nobody waits for an end that has been told, or for an acknowledgement that is not on its way.
structure Lively (s : Transfer α) : Prop where
  waits : s.sender.stopped = false → s.sender.complete = true → s.sender.pending ≠ 0
  told : s.sender.stopped = true →
    .complete ∈ s.toReceiver ∨ .error ∈ s.toReceiver ∨ s.port.state.stopped = true ∨ s.port.state.complete = true
  offering : s.port.state.stopped = false → s.port.state.complete = true → s.port.state.offering = true

theorem lively_step (s next : Transfer α) (event : Event) (sending : SenderInvariant bufferSize elements s)
    (inv : ReceiverInvariant elements s) (lively : Lively s) (stepped : step bufferSize s event = some next) : Lively next := by
  obtain ⟨waits, told, offering⟩ := lively
  cases step_moved bufferSize elements s next event sending inv stepped with
  | pullData pulls x rest pulling more => exact ⟨waits, told, offering⟩
  | pullEnds pulls pulling ends => exact ⟨waits, told, offering⟩
  | pullFails pulls pulling => exact ⟨waits, told, offering⟩
  | polledData msg running waiting =>
      obtain ⟨_, incomplete, _, _⟩ := one_poll bufferSize elements s sending (by simp [waiting])
      exact ⟨fun _ ends => by simp [incomplete] at ends, fun stopped => by simp [running] at stopped, offering⟩
  | polledComplete running waiting =>
      refine ⟨fun open_ _ => by simpa using open_, fun stopped => ?_, offering⟩
      have settled : s.sender.pending = 0 := by simpa using stopped
      simp [settled]
  | polledError running waiting => exact ⟨fun open_ => by simp at open_, fun _ => by simp, offering⟩
  | ackStopped acks waiting stopped => exact ⟨waits, told, offering⟩
  | ack acks waiting running =>
      refine ⟨fun open_ ends => ?_, fun stopped => ?_, offering⟩
      · intro none
        exact absurd open_ (by simp only [decide_eq_false_iff_not]; exact fun still => still ⟨ends, none⟩)
      · have ends : s.sender.complete = true ∧ s.sender.pending - 1 = 0 := by simpa using stopped
        simp [ends]
  | dataWaits msg rest waiting running busy =>
      refine ⟨waits, fun stopped => ?_, fun live ends => offering live ends⟩
      simpa [waiting] using told stopped
  | dataOffers msg rest waiting running =>
      refine ⟨waits, fun stopped => ?_, fun _ _ => rfl⟩
      simpa [waiting] using told stopped
  | completeWaits waiting running busy => exact ⟨waits, fun _ => by simp, fun _ _ => busy⟩
  | completeStops waiting running => exact ⟨waits, fun _ => by simp, fun live => by simp at live⟩
  | errorStops waiting running => exact ⟨waits, fun _ => by simp, fun live => by simp at live⟩
  | accept x rest offered => exact ⟨waits, told, offering⟩
  | doneStopped dones waiting stopped => exact ⟨waits, told, offering⟩
  | doneOffers dones x rest waiting running buffered => exact ⟨waits, told, fun _ _ => rfl⟩
  | doneIdle dones waiting running empty incomplete =>
      exact ⟨waits, told, fun _ ends => by simp [incomplete] at ends⟩
  | doneStops dones waiting running empty => exact ⟨waits, fun _ => by simp, fun live => by simp at live⟩

-- A failed pull is on its way to the receiver, or has reached its queue.
def Failing (s : Transfer α) : Prop := .error ∈ s.polled ∨ .error ∈ s.toReceiver ∨ .fail ∈ s.port.calls

theorem failing_step (s next : Transfer α) (event : Event) (sending : SenderInvariant bufferSize elements s)
    (inv : ReceiverInvariant elements s) (pulls : event ≠ .pullFails) (stepped : step bufferSize s event = some next) :
    Failing next ↔ Failing s := by
  have told : ∀ p : Prop, ∀ [Decidable p], Message.error ∉ (if p then [Message.complete] else [] : List (Message α)) := by
    intro p _
    split <;> simp
  cases step_moved bufferSize elements s next event sending inv stepped with
  | pullData pulls x rest pulling more => simp [Failing]
  | pullEnds pulls pulling ends => simp [Failing]
  | pullFails count pulling => exact absurd rfl pulls
  | polledData msg running waiting => simp [Failing, waiting]
  | polledComplete running waiting => simp [Failing, waiting, told]
  | polledError running waiting => simp [Failing, waiting]
  | ackStopped acks waiting stopped => simp [Failing]
  | ack acks waiting running => simp [Failing, told]
  | dataWaits msg rest waiting running busy => simp [Failing, waiting]
  | dataOffers msg rest waiting running => simp [Failing, waiting]
  | completeWaits waiting running busy => simp [Failing, waiting]
  | completeStops waiting running => simp [Failing, waiting]
  | errorStops waiting running => simp [Failing, waiting]
  | accept x rest offered => simp [Failing]
  | doneStopped dones waiting stopped => simp [Failing]
  | doneOffers dones x rest waiting running buffered => simp [Failing]
  | doneIdle dones waiting running empty incomplete => simp [Failing]
  | doneStops dones waiting running empty => simp [Failing]

-- The weights of what is on its way. An element pays for the poll that its acknowledgement, or the room it leaves, allows.
def Message.work : Message α → Nat × Nat
  | .data _ => (13, 8)
  | _ => (3, 1)

def Transfer.work (s : Transfer α) : Nat :=
  13 * s.source.length + 4 * s.pulls + (s.polled.map (fun m => m.work.1)).sum +
    (if s.sender.complete = true ∧ s.sender.stopped = false then 2 else 0) + (s.toReceiver.map (fun m => m.work.2)).sum +
    7 * (s.port.state.buffer.length + s.port.offers.length) + 5 * s.acks + s.port.dones

theorem work_step (s next : Transfer α) (event : Event) (sending : SenderInvariant bufferSize elements s)
    (inv : ReceiverInvariant elements s) (stepped : step bufferSize s event = some next) : next.work < s.work := by
  cases step_moved bufferSize elements s next event sending inv stepped with
  | pullData pulls x rest pulling more =>
      simp [Transfer.work, pulling, more, Message.work]
      omega
  | pullEnds pulls pulling ends =>
      simp [Transfer.work, pulling, Message.work]
      omega
  | pullFails pulls pulling =>
      simp [Transfer.work, pulling, Message.work]
      omega
  | polledData msg running waiting =>
      by_cases room : s.sender.pending + 1 < bufferSize
      · simp [Transfer.work, waiting, Message.work, room]
        omega
      · simp [Transfer.work, waiting, Message.work, room]
        omega
  | polledComplete running waiting =>
      obtain ⟨_, incomplete, _, _⟩ := one_poll bufferSize elements s sending (by simp [waiting])
      by_cases settled : s.sender.pending = 0
      · simp [Transfer.work, waiting, Message.work, settled, incomplete]
        omega
      · simp [Transfer.work, waiting, Message.work, settled, incomplete]
  | polledError running waiting =>
      simp [Transfer.work, waiting, Message.work]
      omega
  | ackStopped acks waiting stopped =>
      simp [Transfer.work, waiting]
  | ack acks waiting running =>
      have onePoll : (if s.sender.pending = bufferSize then 1 else 0) ≤ 1 := by split <;> omega
      by_cases ends : s.sender.complete = true ∧ s.sender.pending - 1 = 0
      · obtain ⟨complete, settled⟩ := ends
        simp only [Transfer.work, waiting, running, complete, settled, and_self, decide_true, if_true, List.map_append,
          List.sum_append]
        simp [Message.work]
        omega
      · simp only [Transfer.work, waiting, running, decide_eq_false ends, if_neg ends, List.append_nil]
        omega
  | dataWaits msg rest waiting running busy =>
      simp [Transfer.work, waiting, Message.work]
      omega
  | dataOffers msg rest waiting running =>
      simp [Transfer.work, waiting, Message.work]
      omega
  | completeWaits waiting running busy =>
      simp [Transfer.work, waiting, Message.work]
  | completeStops waiting running =>
      simp [Transfer.work, waiting, Message.work]
  | errorStops waiting running =>
      simp [Transfer.work, waiting, Message.work]
  | accept x rest offered =>
      simp [Transfer.work, offered]
      omega
  | doneStopped dones waiting stopped =>
      simp [Transfer.work, waiting]
  | doneOffers dones x rest waiting running buffered =>
      simp [Transfer.work, waiting, buffered]
      omega
  | doneIdle dones waiting running empty incomplete =>
      simp [Transfer.work, waiting]
  | doneStops dones waiting running empty =>
      simp [Transfer.work, waiting]

def Quiet (s : Transfer α) : Prop :=
  s.pulls = 0 ∧ s.polled = [] ∧ s.toReceiver = [] ∧ s.acks = 0 ∧ s.port.offers = [] ∧ s.port.dones = 0

def isStep (event : Event) : Prop := event ≠ .pullFails

theorem not_quiet_enabled (s : Transfer α) (underway : ¬ Quiet s) :
    ∃ event next, isStep event ∧ step bufferSize s event = some next := by
  by_contra stuck
  refine underway ⟨?_, ?_, ?_, ?_, ?_, ?_⟩
  · cases pulling : s.pulls with
    | zero => rfl
    | succ pulls =>
        refine absurd ⟨.pull, ?_⟩ stuck
        cases left : s.source with
        | nil => exact ⟨_, by simp [isStep], by simp only [step, pulling, left]; rfl⟩
        | cons x rest => exact ⟨_, by simp [isStep], by simp only [step, pulling, left]; rfl⟩
  · cases waiting : s.polled with
    | nil => rfl
    | cons m rest => exact absurd ⟨.polled, _, by simp [isStep], by simp only [step, waiting]; rfl⟩ stuck
  · cases waiting : s.toReceiver with
    | nil => rfl
    | cons m rest => exact absurd ⟨.deliver, _, by simp [isStep], by simp only [step, waiting]; rfl⟩ stuck
  · cases waiting : s.acks with
    | zero => rfl
    | succ acks => exact absurd ⟨.acknowledge, _, by simp [isStep], by simp only [step, waiting]; rfl⟩ stuck
  · cases offered : s.port.offers with
    | nil => rfl
    | cons x rest =>
        exact absurd ⟨.accept, _, by simp [isStep], by simp only [step, Receiver.Port.accept, offered]; rfl⟩ stuck
  · cases waiting : s.port.dones with
    | zero => rfl
    | succ dones =>
        exact absurd ⟨.done, _, by simp [isStep], by simp only [step, Receiver.Port.done, waiting]; rfl⟩ stuck

structure Holds (s : Transfer α) : Prop where
  sender : SenderInvariant bufferSize elements s
  receiver : ReceiverInvariant elements s
  lively : Lively s

theorem holds_step (s next : Transfer α) (event : Event) (holds : Holds bufferSize elements s)
    (stepped : step bufferSize s event = some next) : Holds bufferSize elements next := by
  obtain ⟨sender, receiver⟩ := step_invariant bufferSize elements s event next holds.sender holds.receiver stepped
  exact ⟨sender, receiver, lively_step bufferSize elements s next event holds.sender holds.receiver holds.lively stepped⟩

theorem reachable_holds (positive : 1 ≤ bufferSize) (s : Transfer α) (reached : (transfer bufferSize elements).Reachable s) :
    Holds bufferSize elements s := by
  obtain ⟨sender, receiver⟩ := initial_invariant bufferSize elements positive
  have start : Holds bufferSize elements (transfer bufferSize elements).initial :=
    ⟨sender, receiver, ⟨by simp [transfer, Transfer.initial, Sender.State.initial],
      by simp [transfer, Transfer.initial, Sender.State.initial],
      by simp [transfer, Transfer.initial, Receiver.Port.initial, Receiver.State.initial]⟩⟩
  exact reachable_keeps (transfer bufferSize elements) (Holds bufferSize elements) start
    (fun s event next holds stepped => holds_step bufferSize elements s next event holds stepped) s reached

theorem room_bounded (s : Transfer α) (holds : Holds bufferSize elements s) :
    ((payloads s.polled).length + (payloads s.toReceiver).length + s.port.state.buffer.length + s.port.offers.length + s.acks :
      Int) ≤ bufferSize := by
  have conserved := congrArg List.length holds.receiver.conserved
  have acknowledged := holds.receiver.acknowledged
  have bounded := holds.sender.bounded
  rw [taken_split s holds.receiver.sound] at conserved
  simp only [List.length_append, List.length_map] at conserved
  omega

-- A sender that waits for nothing has told everything and knows it, so that it has stopped.
theorem quiet_sender (positive : 1 ≤ bufferSize) (s : Transfer α) (holds : Holds bufferSize elements s) (quiet : Quiet s) :
    s.sender.stopped = true := by
  obtain ⟨noPull, noResult, noMessage, noAck, noOffer, noDone⟩ := quiet
  by_contra running
  rw [Bool.not_eq_true] at running
  have receiving : s.port.state.stopped = false := by
    by_contra stopped
    rw [Bool.not_eq_false] at stopped
    obtain ⟨told, _⟩ := holds.receiver.quiet (.inl stopped)
    simp [running] at told
  have idle : s.port.state.offering = false := by
    have one := holds.receiver.sound.offering receiving
    simpa [noOffer, noDone] using one
  have empty := holds.receiver.sound.idle idle
  have pending := holds.sender.pending running
  have conserved := congrArg List.length holds.receiver.conserved
  have acknowledged := holds.receiver.acknowledged
  rw [taken_split s holds.receiver.sound] at conserved
  simp only [noResult, noMessage, noOffer, empty, List.append_nil, List.length_append, List.length_map, payloads_nil,
    List.length_nil] at conserved pending
  have polling := holds.sender.polling running
  by_cases waits : s.sender.complete = true ∨ bufferSize ≤ s.sender.pending
  · rcases waits with complete | full
    · exact holds.lively.waits running complete (by omega)
    · omega
  · rw [if_neg waits, noPull, noResult] at polling
    simp at polling

theorem quiet_stopped (positive : 1 ≤ bufferSize) (s : Transfer α) (holds : Holds bufferSize elements s) (quiet : Quiet s) :
    s.sender.stopped = true ∧ s.port.state.stopped = true := by
  have sender := quiet_sender bufferSize elements positive s holds quiet
  obtain ⟨_, _, noMessage, _, noOffer, noDone⟩ := quiet
  by_contra running
  rw [not_and, Bool.not_eq_true] at running
  have receiving := running sender
  rcases holds.lively.told sender with told | told | stopped | complete
  · simp [noMessage] at told
  · simp [noMessage] at told
  · simp [receiving] at stopped
  · have busy := holds.lively.offering receiving complete
    have one := holds.receiver.sound.offering receiving
    simp [noOffer, noDone, busy] at one

-- How a transfer ends is decided by what was pulled: all was accepted and the queue completed, or a pull failed.
theorem quiet_outcome (positive : 1 ≤ bufferSize) (s : Transfer α) (holds : Holds bufferSize elements s) (quiet : Quiet s) :
    (Failing s → .fail ∈ s.port.calls) ∧ (¬ Failing s → .complete ∈ s.port.calls ∧ s.accepted = elements) := by
  obtain ⟨_, stopped⟩ := quiet_stopped bufferSize elements positive s holds quiet
  obtain ⟨_, noResult, noMessage, _, _, _⟩ := quiet
  have failing : Failing s ↔ .fail ∈ s.port.calls := by simp [Failing, noResult, noMessage]
  refine ⟨failing.mp, fun intact => ?_⟩
  rw [failing] at intact
  have completed : .complete ∈ s.port.calls := by
    rcases holds.receiver.sound.closed stopped with failed | ⟨completed, _⟩
    · exact absurd (by simp [failed]) intact
    · simp [completed]
  exact ⟨completed, (completed_calls elements s holds.receiver completed).2.2⟩

def Stuck (s : Transfer α) : Prop := ∀ event, step bufferSize s event = none

theorem stuck_quiet (s : Transfer α) (stuck : Stuck bufferSize s) : Quiet s := by
  by_contra underway
  obtain ⟨event, next, _, stepped⟩ := not_quiet_enabled bufferSize s underway
  simp [stuck event] at stepped

theorem quiet_stuck (s : Transfer α) (quiet : Quiet s) : Stuck bufferSize s := by
  obtain ⟨noPull, noResult, noMessage, noAck, noOffer, noDone⟩ := quiet
  intro event
  cases event <;>
    simp [step, Receiver.Port.accept, Receiver.Port.done, noPull, noResult, noMessage, noAck, noOffer, noDone]

theorem run_failing (s final : Transfer α) (events : List Event) (holds : Holds bufferSize elements s)
    (succeed : ∀ event ∈ events, isStep event) (ran : (transfer bufferSize elements).run s events = some final) :
    Failing final ↔ Failing s := by
  have kept := run_keeps_guarded (transfer bufferSize elements) (fun _ event => isStep event)
    (fun t => Holds bufferSize elements t ∧ (Failing t ↔ Failing s))
    (fun t event next inv allowed stepped =>
      ⟨holds_step bufferSize elements t next event inv.1 stepped,
        (failing_step bufferSize elements t next event inv.1.sender inv.1.receiver allowed stepped).trans inv.2⟩)
    s final events ⟨holds, Iff.rfl⟩ (meets_all _ _ s events succeed) ran
  exact kept.2

theorem transfer_finishes (positive : 1 ≤ bufferSize) (s : Transfer α)
    (reached : (transfer bufferSize elements).Reachable s) :
    ((payloads s.polled).length + (payloads s.toReceiver).length + s.port.state.buffer.length + s.port.offers.length + s.acks :
      Int) ≤ bufferSize ∧
      (∀ events final, (transfer bufferSize elements).run s events = some final → events.length ≤ s.work ∧
        (Stuck bufferSize final → final.sender.stopped = true ∧ final.port.state.stopped = true ∧
          (Failing final → .fail ∈ final.port.calls) ∧
          (¬ Failing final → .complete ∈ final.port.calls ∧ final.accepted = elements))) ∧
      ∃ events final, .pullFails ∉ events ∧ (transfer bufferSize elements).run s events = some final ∧
        Stuck bufferSize final ∧ (Failing final ↔ Failing s) := by
  have holds := reachable_holds bufferSize elements positive s reached
  have keeps := holds_step bufferSize elements
  have decreases := fun s event next (holds : Holds bufferSize elements s) =>
    work_step bufferSize elements s next event holds.sender holds.receiver
  refine ⟨room_bounded bufferSize elements s holds, fun events final ran => ⟨?_, fun stuck => ?_⟩, ?_⟩
  · have bound := internal_run_bounded (transfer bufferSize elements) (Holds bufferSize elements) (fun _ => True) Transfer.work
      (fun s event next => keeps s next event) (fun s event next holds _ => decreases s event next holds)
      s final events holds (fun _ _ => trivial) ran
    omega
  · have kept := run_keeps (transfer bufferSize elements) (Holds bufferSize elements) (fun s event next => keeps s next event)
      s final events holds ran
    have quiet := stuck_quiet bufferSize final stuck
    obtain ⟨sender, receiver⟩ := quiet_stopped bufferSize elements positive final kept quiet
    exact ⟨sender, receiver, quiet_outcome bufferSize elements positive final kept quiet⟩
  · obtain ⟨events, final, succeed, ran, quiet⟩ := internal_run_finishes (transfer bufferSize elements)
      (Holds bufferSize elements) isStep Quiet Transfer.work (fun s event next => keeps s next event)
      (fun s event next holds _ => decreases s event next holds)
      (fun s _ => not_quiet_enabled bufferSize s) s holds
    exact ⟨events, final, fun failed => succeed .pullFails failed rfl, ran, quiet_stuck bufferSize final quiet,
      run_failing bufferSize elements s final events holds succeed ran⟩

-- Two elements have been pulled, the first of them is accepted, and its acknowledgement is on its way.
theorem transfer_finishes_small :
    ∃ s, ((transfer 2 ["a", "b", "c"]).Reachable s ∧ s.pulled = ["a", "b"] ∧ s.accepted = ["a"] ∧ s.acks = 1) ∧
      ∃ events final, .pullFails ∉ events ∧ (transfer 2 ["a", "b", "c"]).run s events = some final ∧ Stuck 2 final ∧
        (Failing final ↔ Failing s) := by
  let events : List Event := [.pull, .polled, .pull, .polled, .deliver, .deliver, .accept]
  have ran : ((transfer 2 ["a", "b", "c"]).run (transfer 2 ["a", "b", "c"]).initial events).map
      (fun s => (s.pulled, s.accepted, s.acks)) = some (["a", "b"], ["a"], 1) := by decide +kernel
  obtain ⟨s, run, outcome⟩ := Option.map_eq_some_iff.mp ran
  obtain ⟨pulled, rest⟩ := Prod.mk.inj outcome
  have reached : (transfer 2 ["a", "b", "c"]).Reachable s := ⟨events, run⟩
  exact ⟨s, ⟨reached, pulled, Prod.mk.inj rest⟩, (transfer_finishes 2 ["a", "b", "c"] (by decide) s reached).2.2⟩

end Toolbox8.BufferedActors
