import Toolbox8.BufferedActors
import Toolbox8.Base.Transition
import Mathlib.Algebra.Ring.Nat

set_option autoImplicit false

namespace Toolbox8.BufferedActors

open Base

variable {α : Type}

def Message.payload : Message α → Option α
  | .data msg => some msg
  | _ => none

def payloads (messages : List (Message α)) : List α := messages.filterMap Message.payload

namespace Sender

def polls (effects : List (Effect α)) : Nat := effects.countP (fun | .doPoll => true | .tell _ => false)

def tells (effects : List (Effect α)) : List (Message α) := effects.filterMap (fun | .doPoll => none | .tell m => some m)

end Sender

-- A sender, its receiver and their queues. pulls: the futures that are not completed; polled: what they
-- have piped to the sender; toReceiver, acks: the messages on their way between the actors. pulled and
-- acked record what happened.
structure Transfer (α : Type) where
  source : List α
  pulled : List α
  pulls : Nat
  polled : List (Message α)
  sender : Sender.State
  toReceiver : List (Message α)
  acks : Nat
  acked : Nat
  port : Receiver.Port α Unit

def Transfer.offered (s : Transfer α) : List α := s.port.offered.map Prod.fst

def Transfer.accepted (s : Transfer α) : List α := s.port.accepted.map Prod.fst

-- preStart polls.
def Transfer.initial (elements : List α) : Transfer α :=
  { source := elements, pulled := [], pulls := 1, polled := [], sender := .initial, toReceiver := [], acks := 0,
    acked := 0, port := .initial }

-- A stopped actor takes no message.
def Transfer.senderReceives (bufferSize : Int) (r : Sender.Received α) (s : Transfer α) : Transfer α :=
  if s.sender.stopped then s
  else
    let (sender, effects) := Sender.receive bufferSize s.sender r
    { s with
      sender := sender
      pulls := s.pulls + Sender.polls effects
      toReceiver := s.toReceiver ++ Sender.tells effects }

-- Here every offer is accepted; a failed one concerns the receiver alone.
inductive Event where
  | pull
  | pullFails
  | polled
  | acknowledge
  | deliver
  | accept
  | done
deriving DecidableEq, Repr

def step (bufferSize : Int) (s : Transfer α) : Event → Option (Transfer α)
  | .pull =>
      match s.pulls, s.source with
      | 0, _ => none
      | pulls + 1, [] => some { s with pulls := pulls, polled := s.polled ++ [.complete] }
      | pulls + 1, x :: rest =>
          some { s with pulls := pulls, source := rest, pulled := s.pulled ++ [x], polled := s.polled ++ [.data x] }
  | .pullFails =>
      match s.pulls with
      | 0 => none
      | pulls + 1 => some { s with pulls := pulls, polled := s.polled ++ [.error] }
  | .polled =>
      match s.polled with
      | [] => none
      | m :: rest => some ({ s with polled := rest }.senderReceives bufferSize (.polled m))
  | .acknowledge =>
      match s.acks with
      | 0 => none
      | acks + 1 => some ({ s with acks := acks, acked := s.acked + 1 }.senderReceives bufferSize .done)
  | .deliver =>
      match s.toReceiver with
      | [] => none
      | m :: rest => some { s with toReceiver := rest, port := s.port.receive (.message m ()) }
  | .accept => s.port.accept.map (fun (_, port) => { s with port := port, acks := s.acks + 1 })
  | .done => s.port.done.map (fun port => { s with port := port })

def transfer (bufferSize : Int) (elements : List α) : Machine (Transfer α) Event where
  initial := .initial elements
  step := step bufferSize

-- What the sender knows: pending counts what it has told and was not acknowledged, and it has a poll
-- outstanding as long as there is room for one more element.
structure SenderInvariant (bufferSize : Int) (elements : List α) (s : Transfer α) : Prop where
  taken : elements = s.pulled ++ s.source
  bounded : (s.pulled.length : Int) ≤ s.acked + bufferSize
  pending : s.sender.stopped = false → s.sender.pending + s.acked + (payloads s.polled).length = s.pulled.length
  polling : s.sender.stopped = false →
    s.pulls + s.polled.length = if s.sender.complete = true ∨ bufferSize ≤ s.sender.pending then 0 else 1
  halted : s.sender.stopped = true → s.pulls = 0 ∧ s.polled = []
  spare : s.sender.complete = true → s.sender.pending < bufferSize
  exhausted : s.sender.complete = true ∨ .complete ∈ s.polled → s.source = []

-- An end is told by a sender that stops, and nothing is told after it.
def Ordered (stopped : Bool) : List (Message α) → Prop
  | [] => True
  | .data _ :: rest => Ordered stopped rest
  | _ :: rest => stopped = true ∧ rest = []

-- What has left the sender is on its way to the receiver or was taken by it.
structure ReceiverInvariant (elements : List α) (s : Transfer α) : Prop where
  sound : s.port.Sound
  conserved : s.pulled = s.port.taken.map Prod.fst ++ payloads s.toReceiver ++ payloads s.polled
  acknowledged : s.accepted.length = s.acked + s.acks
  ordered : Ordered s.sender.stopped s.toReceiver
  quiet : s.port.state.stopped = true ∨ s.port.state.complete = true → s.sender.stopped = true ∧ s.toReceiver = []
  settled : .complete ∈ s.toReceiver ∨ s.port.state.complete = true → s.accepted = elements

@[simp] theorem payloads_nil : payloads ([] : List (Message α)) = [] := rfl

@[simp] theorem payloads_data (msg : α) (rest : List (Message α)) :
    payloads (.data msg :: rest) = msg :: payloads rest := rfl

@[simp] theorem payloads_complete (rest : List (Message α)) : payloads (.complete :: rest) = payloads rest := rfl

@[simp] theorem payloads_error (rest : List (Message α)) : payloads (.error :: rest) = payloads rest := rfl

@[simp] theorem payloads_append (front back : List (Message α)) :
    payloads (front ++ back) = payloads front ++ payloads back := List.filterMap_append

theorem ordered_append (stopped : Bool) (front back : List (Message α)) (alive : Ordered false front)
    (ordered : Ordered stopped back) : Ordered stopped (front ++ back) := by
  induction front with
  | nil => exact ordered
  | cons m rest ih =>
      cases m with
      | data msg => exact ih alive
      | complete => cases alive.1
      | error => cases alive.1

theorem check_complete (pending : Int) (complete : Bool) :
    Sender.checkComplete (α := α) ⟨pending, complete, false⟩ =
      (⟨pending, complete, decide (complete = true ∧ pending = 0)⟩,
        if complete = true ∧ pending = 0 then [.tell .complete] else []) := by
  by_cases ends : complete = true ∧ pending = 0
  · simp [Sender.checkComplete, ends]
  · simp only [Sender.checkComplete, if_neg ends, decide_eq_false ends]

section Handlers

variable (bufferSize : Int) (s : Transfer α)

theorem sender_stopped (r : Sender.Received α) (stopped : s.sender.stopped = true) :
    s.senderReceives bufferSize r = s := by
  simp [Transfer.senderReceives, stopped]

theorem sender_polled_data (msg : α) (running : s.sender.stopped = false) :
    s.senderReceives bufferSize (.polled (.data msg)) = { s with
      sender := { s.sender with pending := s.sender.pending + 1 }
      pulls := s.pulls + if s.sender.pending + 1 < bufferSize then 1 else 0
      toReceiver := s.toReceiver ++ [.data msg] } := by
  by_cases room : s.sender.pending + 1 < bufferSize
  · simp [Transfer.senderReceives, running, Sender.receive, room, Sender.polls, Sender.tells]
  · simp [Transfer.senderReceives, running, Sender.receive, room, Sender.polls, Sender.tells]

theorem sender_polled_error (running : s.sender.stopped = false) :
    s.senderReceives bufferSize (.polled .error) = { s with
      sender := { s.sender with stopped := true }
      toReceiver := s.toReceiver ++ [.error] } := by
  simp [Transfer.senderReceives, running, Sender.receive, Sender.polls, Sender.tells]

theorem sender_polled_complete (running : s.sender.stopped = false) :
    s.senderReceives bufferSize (.polled .complete) = { s with
      sender := ⟨s.sender.pending, true, decide (s.sender.pending = 0)⟩
      toReceiver := s.toReceiver ++ if s.sender.pending = 0 then [.complete] else [] } := by
  rw [Transfer.senderReceives, if_neg (by simp [running]), Sender.receive, running, check_complete]
  by_cases settled : s.sender.pending = 0
  · simp [settled, Sender.polls, Sender.tells]
  · simp [settled, Sender.polls, Sender.tells]

theorem sender_done (running : s.sender.stopped = false) :
    s.senderReceives bufferSize .done = { s with
      sender := ⟨s.sender.pending - 1, s.sender.complete, decide (s.sender.complete = true ∧ s.sender.pending - 1 = 0)⟩
      pulls := s.pulls + if s.sender.pending = bufferSize then 1 else 0
      toReceiver := s.toReceiver ++
        if s.sender.complete = true ∧ s.sender.pending - 1 = 0 then [.complete] else [] } := by
  rw [Transfer.senderReceives, if_neg (by simp [running]), Sender.receive]
  simp only [running, check_complete]
  by_cases full : s.sender.pending = bufferSize
  · by_cases ends : s.sender.complete = true ∧ s.sender.pending - 1 = 0
    · simp only [if_pos full, if_pos ends]
      rfl
    · simp only [if_pos full, if_neg ends]
      rfl
  · by_cases ends : s.sender.complete = true ∧ s.sender.pending - 1 = 0
    · simp only [if_neg full, if_pos ends]
      rfl
    · simp only [if_neg full, if_neg ends]
      rfl

end Handlers

section SenderSteps

variable (bufferSize : Int) (elements : List α) (s : Transfer α)

theorem one_poll (inv : SenderInvariant bufferSize elements s) (some : 0 < s.pulls + s.polled.length) :
    s.sender.stopped = false ∧ s.sender.complete = false ∧ s.sender.pending < bufferSize ∧
      s.pulls + s.polled.length = 1 := by
  have running : s.sender.stopped = false := by
    by_contra stopped
    rw [Bool.not_eq_false] at stopped
    obtain ⟨noPull, noResult⟩ := inv.halted stopped
    simp [noPull, noResult] at some
  have polling := inv.polling running
  by_cases full : s.sender.complete = true ∨ bufferSize ≤ s.sender.pending
  · rw [if_pos full] at polling
    omega
  · rw [if_neg full] at polling
    rw [not_or, Bool.not_eq_true, Int.not_le] at full
    exact ⟨running, full.1, full.2, polling⟩

theorem pull_ended_sender (pulls : Nat) (result : Message α) (inv : SenderInvariant bufferSize elements s)
    (pulling : s.pulls = pulls + 1) (bare : payloads [result] = []) (ends : result = .complete → s.source = []) :
    SenderInvariant bufferSize elements { s with pulls := pulls, polled := s.polled ++ [result] } := by
  obtain ⟨running, incomplete, room, single⟩ := one_poll bufferSize elements s inv (by omega)
  have pending := inv.pending running
  refine ⟨inv.taken, inv.bounded, fun _ => ?_, fun _ => ?_, ?_, inv.spare, ?_⟩
  · rw [payloads_append, bare, List.append_nil]
    exact pending
  · rw [if_neg (by simp [incomplete, room])]
    simp only [List.length_append, List.length_singleton]
    omega
  · intro stopped
    rw [running] at stopped
    cases stopped
  · intro told
    rw [List.mem_append, List.mem_singleton, ← or_assoc] at told
    rcases told with earlier | now
    · exact inv.exhausted earlier
    · exact ends now.symm

theorem pull_data_sender (pulls : Nat) (x : α) (rest : List α) (inv : SenderInvariant bufferSize elements s)
    (pulling : s.pulls = pulls + 1) (next : s.source = x :: rest) :
    SenderInvariant bufferSize elements
      { s with pulls := pulls, source := rest, pulled := s.pulled ++ [x], polled := s.polled ++ [.data x] } := by
  obtain ⟨running, incomplete, room, single⟩ := one_poll bufferSize elements s inv (by omega)
  have noResult : s.polled = [] := List.length_eq_zero_iff.mp (by omega)
  have pending := inv.pending running
  have bounded := inv.bounded
  have taken := inv.taken
  rw [next] at taken
  rw [noResult] at pending
  simp only [payloads_nil, List.length_nil] at pending
  refine ⟨by simpa using taken, ?_, fun _ => ?_, fun _ => ?_, ?_, inv.spare, ?_⟩
  · simp only [List.length_append, List.length_singleton]
    omega
  · simp only [noResult, List.nil_append, payloads_data, payloads_nil, List.length_append, List.length_cons, List.length_nil]
    omega
  · rw [if_neg (by simp [incomplete, room])]
    simp only [List.length_append, List.length_singleton]
    omega
  · intro stopped
    rw [running] at stopped
    cases stopped
  · intro ends
    simp [incomplete, noResult] at ends

theorem polled_sender (m : Message α) (rest : List (Message α)) (inv : SenderInvariant bufferSize elements s)
    (waiting : s.polled = m :: rest) :
    SenderInvariant bufferSize elements ({ s with polled := rest }.senderReceives bufferSize (.polled m)) := by
  obtain ⟨running, incomplete, room, single⟩ := one_poll bufferSize elements s inv (by rw [waiting, List.length_cons]; omega)
  rw [waiting, List.length_cons] at single
  have noResult : rest = [] := List.length_eq_zero_iff.mp (by omega)
  have noPull : s.pulls = 0 := by omega
  have pending := inv.pending running
  rw [waiting, noResult] at pending
  subst noResult
  cases m with
  | data msg =>
      have moved := sender_polled_data bufferSize { s with polled := [] } msg running
      simp only [payloads_data, payloads_nil, List.length_cons, List.length_nil] at pending
      rw [moved]
      refine ⟨inv.taken, inv.bounded, fun _ => ?_, fun _ => ?_, ?_, ?_, ?_⟩
      · simp only [payloads_nil, List.length_nil]
        omega
      · simp only [noPull, incomplete, List.length_nil]
        by_cases more : s.sender.pending + 1 < bufferSize
        · simp [more]
        · simp [more, Int.not_lt.mp more]
      · intro stopped
        simp [running] at stopped
      · intro complete
        simp [incomplete] at complete
      · intro ends
        simp [incomplete] at ends
  | complete =>
      have moved := sender_polled_complete bufferSize { s with polled := [] } running
      have empty := inv.exhausted (.inr (by simp [waiting]))
      rw [moved]
      exact ⟨inv.taken, inv.bounded, fun _ => by simpa using pending, fun _ => by simp [noPull],
        fun _ => ⟨noPull, rfl⟩, fun _ => room, fun _ => empty⟩
  | error =>
      have moved := sender_polled_error bufferSize { s with polled := [] } running
      rw [moved]
      refine ⟨inv.taken, inv.bounded, ?_, ?_, fun _ => ⟨noPull, rfl⟩, inv.spare, ?_⟩
      · intro live
        cases live
      · intro live
        cases live
      · intro ends
        simp [incomplete] at ends

theorem acknowledge_sender (acks : Nat) (inv : SenderInvariant bufferSize elements s) :
    SenderInvariant bufferSize elements
      ({ s with acks := acks, acked := s.acked + 1 }.senderReceives bufferSize .done) := by
  have bounded := inv.bounded
  cases running : s.sender.stopped with
  | true =>
      rw [sender_stopped bufferSize { s with acks := acks, acked := s.acked + 1 } _ running]
      refine ⟨inv.taken, ?_, fun live => ?_, fun live => ?_, inv.halted, inv.spare, inv.exhausted⟩
      · simp only [Int.natCast_add, Int.natCast_one]
        omega
      · rw [running] at live
        cases live
      · rw [running] at live
        cases live
  | false =>
      rw [sender_done bufferSize { s with acks := acks, acked := s.acked + 1 } running]
      have pending := inv.pending running
      have polling := inv.polling running
      have spare := inv.spare
      refine ⟨inv.taken, ?_, fun _ => ?_, fun _ => ?_, fun stopped => ?_, fun complete => ?_, inv.exhausted⟩
      · simp only [Int.natCast_add, Int.natCast_one]
        omega
      · simp only [Int.natCast_add, Int.natCast_one]
        omega
      · cases complete : s.sender.complete with
        | true =>
            have room := spare complete
            simp only [complete, true_or, if_true, if_neg (Int.ne_of_lt room)] at polling ⊢
            exact polling
        | false =>
            simp only [complete, Bool.false_eq_true, false_or] at polling ⊢
            by_cases full : s.sender.pending = bufferSize
            · rw [if_pos (by omega)] at polling
              rw [if_pos full, if_neg (by omega)]
              omega
            · rw [if_neg (by omega)] at polling
              rw [if_neg full, if_neg (by omega)]
              exact polling
      · simp only [decide_eq_true_eq] at stopped
        have room := spare stopped.1
        rw [if_pos (.inl stopped.1)] at polling
        simp only [if_neg (Int.ne_of_lt room)]
        exact ⟨by omega, List.length_eq_zero_iff.mp (by omega)⟩
      · have room := spare complete
        simp only
        omega

end SenderSteps

section ReceiverSteps

variable (bufferSize : Int) (elements : List α) (s : Transfer α)

theorem taken_split (sound : s.port.Sound) :
    s.port.taken.map Prod.fst =
      s.accepted ++ s.port.offers.map Prod.fst ++ s.port.state.buffer.map Prod.fst := by
  rw [Receiver.Port.taken, sound.outstanding, List.map_append, List.map_append]
  rfl

theorem all_accepted (sending : SenderInvariant bufferSize elements s) (inv : ReceiverInvariant elements s)
    (all : s.pulled.length ≤ s.accepted.length) (empty : s.source = []) : s.accepted = elements := by
  have pulled := inv.conserved
  rw [taken_split s inv.sound] at pulled
  simp only [List.append_assoc] at pulled
  have front : s.accepted <+: s.pulled := ⟨_, pulled.symm⟩
  have same := front.eq_of_length_le all
  rw [same, sending.taken, empty, List.append_nil]

theorem pull_receiver (pulls : Nat) (m : Message α) (inv : ReceiverInvariant elements s) (ended : m.payload = none) :
    ReceiverInvariant elements { s with pulls := pulls, polled := s.polled ++ [m] } := by
  have nothing : payloads [m] = [] := by simp [payloads, ended]
  refine { inv with conserved := ?_ }
  simp only [payloads_append, nothing, List.append_nil]
  exact inv.conserved

theorem pull_data_receiver (pulls : Nat) (x : α) (rest : List α) (inv : ReceiverInvariant elements s) :
    ReceiverInvariant elements
      { s with pulls := pulls, source := rest, pulled := s.pulled ++ [x], polled := s.polled ++ [.data x] } := by
  refine { inv with conserved := ?_ }
  simp only [payloads_append, payloads_data, payloads_nil, ← List.append_assoc]
  exact congrArg (· ++ [x]) inv.conserved

-- What a running sender does, seen from the receiver: it tells more elements, or it tells the end and stops.
theorem told_receiver (sender : Sender.State) (pulls acks acked : Nat) (polled told : List (Message α))
    (inv : ReceiverInvariant elements s) (running : s.sender.stopped = false)
    (kept : payloads s.polled = payloads told ++ payloads polled) (counted : s.accepted.length = acked + acks)
    (ordered : Ordered sender.stopped told) (ends : .complete ∈ told → s.accepted = elements) :
    ReceiverInvariant elements { s with
      sender := sender, pulls := pulls, polled := polled, toReceiver := s.toReceiver ++ told, acks := acks, acked := acked } := by
  have conserved := inv.conserved
  have before := inv.ordered
  have receiving : ¬ (s.port.state.stopped = true ∨ s.port.state.complete = true) := by
    intro ended
    have halted := (inv.quiet ended).1
    simp [running] at halted
  rw [kept] at conserved
  rw [running] at before
  refine ⟨inv.sound, by simpa using conserved, counted, ordered_append _ _ _ before ordered,
    fun ended => absurd ended receiving, ?_⟩
  intro ended
  simp only [List.mem_append] at ended
  rcases ended with (old | now) | later
  · exact inv.settled (.inl old)
  · exact ends now
  · exact inv.settled (.inr later)

theorem polled_receiver (m : Message α) (rest : List (Message α)) (sending : SenderInvariant bufferSize elements s)
    (inv : ReceiverInvariant elements s) (waiting : s.polled = m :: rest) :
    ReceiverInvariant elements ({ s with polled := rest }.senderReceives bufferSize (.polled m)) := by
  obtain ⟨running, _, _, single⟩ := one_poll bufferSize elements s sending (by rw [waiting, List.length_cons]; omega)
  rw [waiting, List.length_cons] at single
  have noResult : rest = [] := List.length_eq_zero_iff.mp (by omega)
  subst noResult
  cases m with
  | data msg =>
      rw [sender_polled_data bufferSize { s with polled := [] } msg running]
      exact told_receiver elements s _ _ _ _ [] [.data msg] inv running (by rw [waiting]; rfl) inv.acknowledged trivial
        (by simp)
  | complete =>
      rw [sender_polled_complete bufferSize { s with polled := [] } running]
      by_cases settled : s.sender.pending = 0
      · have empty := sending.exhausted (.inr (by simp [waiting]))
        have pending := sending.pending running
        rw [waiting, settled] at pending
        simp only [payloads_complete, payloads_nil, List.length_nil] at pending
        have acknowledged := inv.acknowledged
        have accepted := all_accepted bufferSize elements s sending inv (by omega) empty
        rw [if_pos settled]
        exact told_receiver elements s _ _ _ _ [] [.complete] inv running (by rw [waiting]; rfl) inv.acknowledged
          ⟨by simp [settled], rfl⟩ (fun _ => accepted)
      · rw [if_neg settled]
        exact told_receiver elements s _ _ _ _ [] [] inv running (by rw [waiting]; rfl) inv.acknowledged trivial (by simp)
  | error =>
      rw [sender_polled_error bufferSize { s with polled := [] } running]
      exact told_receiver elements s _ _ _ _ [] [.error] inv running (by rw [waiting]; rfl) inv.acknowledged ⟨rfl, rfl⟩
        (by simp)

theorem acknowledge_receiver (acks : Nat) (sending : SenderInvariant bufferSize elements s)
    (inv : ReceiverInvariant elements s) (waiting : s.acks = acks + 1) :
    ReceiverInvariant elements
      ({ s with acks := acks, acked := s.acked + 1 }.senderReceives bufferSize .done) := by
  have acknowledged := inv.acknowledged
  have counted : s.accepted.length = s.acked + 1 + acks := by omega
  cases running : s.sender.stopped with
  | true =>
      rw [sender_stopped bufferSize { s with acks := acks, acked := s.acked + 1 } _ running]
      exact { inv with acknowledged := counted }
  | false =>
      rw [sender_done bufferSize { s with acks := acks, acked := s.acked + 1 } running]
      by_cases ends : s.sender.complete = true ∧ s.sender.pending - 1 = 0
      · have empty := sending.exhausted (.inl ends.1)
        have pending := sending.pending running
        have polling := sending.polling running
        rw [if_pos (.inl ends.1)] at polling
        have noResult : s.polled = [] := List.length_eq_zero_iff.mp (by omega)
        rw [noResult, payloads_nil, List.length_nil] at pending
        have accepted := all_accepted bufferSize elements s sending inv (by omega) empty
        rw [if_pos ends]
        exact told_receiver elements s _ _ _ _ s.polled [.complete] inv running rfl counted ⟨by simp [ends], rfl⟩
          (fun _ => accepted)
      · rw [if_neg ends]
        exact told_receiver elements s _ _ _ _ s.polled [] inv running rfl counted trivial (by simp)

theorem receiver_running (inv : ReceiverInvariant elements s) (m : Message α) (rest : List (Message α))
    (waiting : s.toReceiver = m :: rest) : s.port.state.stopped = false ∧ s.port.state.complete = false := by
  constructor
  · by_contra stopped
    rw [Bool.not_eq_false] at stopped
    simp [(inv.quiet (.inl stopped)).2] at waiting
  · by_contra complete
    rw [Bool.not_eq_false] at complete
    simp [(inv.quiet (.inr complete)).2] at waiting

theorem deliver_receiver (m : Message α) (rest : List (Message α)) (inv : ReceiverInvariant elements s)
    (waiting : s.toReceiver = m :: rest) :
    ReceiverInvariant elements { s with toReceiver := rest, port := s.port.receive (.message m ()) } := by
  obtain ⟨running, incomplete⟩ := receiver_running elements s inv m rest waiting
  have conserved := inv.conserved
  have ordered := inv.ordered
  have settled := inv.settled
  rw [waiting] at conserved ordered settled
  cases m with
  | data msg =>
      obtain ⟨handled, stillRunning, stillIncomplete⟩ := Receiver.data_sound s.port msg () inv.sound running
      refine ⟨handled.sound, ?_, ?_, ordered, ?_, ?_⟩
      · simpa [handled.taken] using conserved
      · simpa [Transfer.accepted, handled.accepted] using inv.acknowledged
      · intro ended
        simp [stillRunning, stillIncomplete, incomplete] at ended
      · intro ended
        simp only [Transfer.accepted, handled.accepted, stillIncomplete] at ended ⊢
        exact settled (ended.imp_left (List.mem_cons_of_mem _))
  | complete =>
      obtain ⟨stopped, rfl⟩ := ordered
      obtain ⟨handled, _⟩ := Receiver.complete_sound s.port () inv.sound running
      refine ⟨handled.sound, by simpa [handled.taken] using conserved, ?_, trivial, fun _ => ⟨stopped, rfl⟩, fun _ => ?_⟩
      · simpa [Transfer.accepted, handled.accepted] using inv.acknowledged
      · simpa [Transfer.accepted, handled.accepted] using settled (.inl (by simp))
  | error =>
      obtain ⟨stopped, rfl⟩ := ordered
      obtain ⟨sound, taken, accepted, complete⟩ := Receiver.error_sound s.port () inv.sound running
      refine ⟨sound, by simpa [taken] using conserved, ?_, trivial, fun _ => ⟨stopped, rfl⟩, ?_⟩
      · simpa [Transfer.accepted, accepted] using inv.acknowledged
      · intro ended
        simp [complete, incomplete] at ended

theorem accept_receiver (x : α × Unit) (port : Receiver.Port α Unit) (sending : SenderInvariant bufferSize elements s)
    (inv : ReceiverInvariant elements s) (accepted : s.port.accept = some (x, port)) :
    ReceiverInvariant elements { s with port := port, acks := s.acks + 1 } := by
  obtain ⟨sound, taken, state, more, _⟩ := Receiver.accept_sound s.port x port inv.sound accepted
  have acknowledged := inv.acknowledged
  refine ⟨sound, by rw [taken]; exact inv.conserved, ?_, inv.ordered, by rw [state]; exact inv.quiet, fun ended => ?_⟩
  · simp only [Transfer.accepted, List.length_map] at acknowledged ⊢
    rw [more, List.length_append, List.length_singleton]
    omega
  · rw [state] at ended
    have all := sending.taken
    have split := taken_split { s with port := port } sound
    simp only [Transfer.accepted, taken, more] at split
    rw [inv.conserved, split, List.map_append, show s.port.accepted.map Prod.fst = elements from inv.settled ended] at all
    simp at all

theorem done_receiver (port : Receiver.Port α Unit) (inv : ReceiverInvariant elements s) (did : s.port.done = some port) :
    ReceiverInvariant elements { s with port := port } := by
  obtain ⟨handled, complete, stopped⟩ := Receiver.done_sound s.port port inv.sound did
  have accepted : ({ s with port := port } : Transfer α).accepted = s.accepted := by
    simp only [Transfer.accepted, handled.accepted]
  refine ⟨handled.sound, by simpa [handled.taken] using inv.conserved, by rw [accepted]; exact inv.acknowledged, inv.ordered,
    ?_, by rw [accepted, complete]; exact inv.settled⟩
  rintro (ended | ended)
  · exact inv.quiet (stopped ended)
  · exact inv.quiet (.inr (complete ▸ ended))

theorem step_invariant (event : Event) (next : Transfer α) (sending : SenderInvariant bufferSize elements s)
    (inv : ReceiverInvariant elements s) (stepped : step bufferSize s event = some next) :
    SenderInvariant bufferSize elements next ∧ ReceiverInvariant elements next := by
  cases event with
  | pull =>
      cases pulling : s.pulls with
      | zero => simp [step, pulling] at stepped
      | succ pulls =>
          cases left : s.source with
          | nil =>
              simp only [step, pulling, left, Option.some.injEq] at stepped
              have told := pull_ended_sender bufferSize elements s pulls .complete sending pulling rfl (fun _ => left)
              have kept := pull_receiver elements s pulls .complete inv rfl
              rw [left] at told kept
              exact stepped ▸ ⟨told, kept⟩
          | cons x rest =>
              simp only [step, pulling, left, Option.some.injEq] at stepped
              exact stepped ▸ ⟨pull_data_sender bufferSize elements s pulls x rest sending pulling left,
                pull_data_receiver elements s pulls x rest inv⟩
  | pullFails =>
      cases pulling : s.pulls with
      | zero => simp [step, pulling] at stepped
      | succ pulls =>
          simp only [step, pulling, Option.some.injEq] at stepped
          exact stepped ▸ ⟨pull_ended_sender bufferSize elements s pulls .error sending pulling rfl (by simp),
            pull_receiver elements s pulls .error inv rfl⟩
  | polled =>
      cases waiting : s.polled with
      | nil => simp [step, waiting] at stepped
      | cons m rest =>
          simp only [step, waiting, Option.some.injEq] at stepped
          exact stepped ▸ ⟨polled_sender bufferSize elements s m rest sending waiting,
            polled_receiver bufferSize elements s m rest sending inv waiting⟩
  | acknowledge =>
      cases waiting : s.acks with
      | zero => simp [step, waiting] at stepped
      | succ acks =>
          simp only [step, waiting, Option.some.injEq] at stepped
          exact stepped ▸ ⟨acknowledge_sender bufferSize elements s acks sending,
            acknowledge_receiver bufferSize elements s acks sending inv waiting⟩
  | deliver =>
      cases waiting : s.toReceiver with
      | nil => simp [step, waiting] at stepped
      | cons m rest =>
          simp only [step, waiting, Option.some.injEq] at stepped
          exact stepped ▸ ⟨{ sending with }, deliver_receiver elements s m rest inv waiting⟩
  | accept =>
      simp only [step, Option.map_eq_some_iff] at stepped
      obtain ⟨⟨x, port⟩, accepted, rfl⟩ := stepped
      exact ⟨{ sending with }, accept_receiver bufferSize elements s x port sending inv accepted⟩
  | done =>
      simp only [step, Option.map_eq_some_iff] at stepped
      obtain ⟨port, did, rfl⟩ := stepped
      exact ⟨{ sending with }, done_receiver elements s port inv did⟩

end ReceiverSteps

theorem initial_invariant (bufferSize : Int) (elements : List α) (positive : 1 ≤ bufferSize) :
    SenderInvariant bufferSize elements (transfer bufferSize elements).initial ∧
      ReceiverInvariant elements (transfer bufferSize elements).initial := by
  constructor
  · refine ⟨rfl, ?_, fun _ => rfl, fun _ => ?_, ?_, ?_, ?_⟩
    · simp only [transfer, Transfer.initial, List.length_nil]
      omega
    · have room : ¬ bufferSize ≤ 0 := by omega
      simp [transfer, Transfer.initial, Sender.State.initial, room]
    · simp [transfer, Transfer.initial, Sender.State.initial]
    · simp [transfer, Transfer.initial, Sender.State.initial]
    · simp [transfer, Transfer.initial, Sender.State.initial]
  · refine ⟨Receiver.initial_sound, rfl, rfl, trivial, ?_, ?_⟩ <;>
      simp [transfer, Transfer.initial, Receiver.Port.initial, Receiver.State.initial]

theorem reachable_invariant (bufferSize : Int) (elements : List α) (positive : 1 ≤ bufferSize) (s : Transfer α)
    (reached : (transfer bufferSize elements).Reachable s) :
    SenderInvariant bufferSize elements s ∧ ReceiverInvariant elements s :=
  reachable_keeps (transfer bufferSize elements) (fun s => SenderInvariant bufferSize elements s ∧ ReceiverInvariant elements s)
    (initial_invariant bufferSize elements positive)
    (fun s event next inv stepped => step_invariant bufferSize elements s event next inv.1 inv.2 stepped) s reached

theorem at_most_one_pull (bufferSize : Int) (elements : List α) (s : Transfer α)
    (inv : SenderInvariant bufferSize elements s) : s.pulls ≤ 1 := by
  cases running : s.sender.stopped with
  | true =>
      rw [(inv.halted running).1]
      exact Nat.zero_le 1
  | false =>
      have polling := inv.polling running
      split at polling <;> omega

theorem completed_calls (elements : List α) (s : Transfer α) (inv : ReceiverInvariant elements s)
    (completed : .complete ∈ s.port.calls) :
    s.port.calls = Receiver.offerCalls s.port.offered ++ [.complete] ∧ s.offered = elements ∧ s.accepted = elements := by
  obtain ⟨_, calls, complete, all⟩ := Receiver.completed_port s.port inv.sound completed
  have accepted := inv.settled (.inr complete)
  refine ⟨calls, ?_, accepted⟩
  have noOffer := inv.sound.outstanding
  rw [all, Receiver.Port.taken, List.append_assoc, List.self_eq_append_right, List.append_eq_nil_iff] at noOffer
  rw [Receiver.Port.taken, noOffer.1, List.append_nil] at all
  rw [Transfer.offered, ← all]
  exact accepted

theorem transfer_exact (bufferSize : Int) (elements : List α) (positive : 1 ≤ bufferSize) (s : Transfer α)
    (reached : (transfer bufferSize elements).Reachable s) :
    (s.offered <+: s.pulled ∧ s.pulled <+: elements) ∧
      (s.pulls ≤ 1 ∧ s.port.offers.length ≤ 1) ∧
      (s.acked ≤ s.accepted.length ∧ (s.pulled.length : Int) ≤ s.acked + bufferSize) ∧
      (.complete ∈ s.port.calls → s.port.calls = Receiver.offerCalls s.port.offered ++ [.complete] ∧
        s.offered = elements ∧ s.accepted = elements) := by
  obtain ⟨sending, inv⟩ := reachable_invariant bufferSize elements positive s reached
  have single := inv.sound.single
  have acknowledged := inv.acknowledged
  refine ⟨⟨?_, ?_⟩, ⟨at_most_one_pull bufferSize elements s sending, by omega⟩, ⟨by omega, sending.bounded⟩,
    completed_calls elements s inv⟩
  · rw [inv.conserved, Receiver.Port.taken, List.map_append, List.append_assoc, List.append_assoc]
    exact List.prefix_append _ _
  · rw [sending.taken]
    exact List.prefix_append _ _

-- The second element is pulled before the first one is accepted, and the third one waits for the acknowledgement.
def threeElements : List Event :=
  [.pull, .polled, .pull, .polled, .deliver, .deliver, .accept, .acknowledge, .pull, .done, .polled, .accept, .deliver,
    .done, .accept, .acknowledge, .acknowledge, .pull, .polled, .deliver, .done]

theorem transfer_exact_run :
    ∃ s, ((transfer 2 ["a", "b", "c"]).Reachable s ∧ .complete ∈ s.port.calls) ∧ s.accepted = ["a", "b", "c"] := by
  have ran : ((transfer 2 ["a", "b", "c"]).run (transfer 2 ["a", "b", "c"]).initial threeElements).map
      (fun s => decide (.complete ∈ s.port.calls)) = some true := by decide +kernel
  obtain ⟨s, run, completed⟩ := Option.map_eq_some_iff.mp ran
  have called := of_decide_eq_true completed
  exact ⟨s, ⟨⟨_, run⟩, called⟩, ((transfer_exact 2 ["a", "b", "c"] (by decide) s ⟨_, run⟩).2.2.2 called).2.2⟩

end Toolbox8.BufferedActors
