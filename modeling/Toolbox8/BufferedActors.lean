import Mathlib.Data.List.Basic

set_option autoImplicit false

namespace Toolbox8.BufferedActors

-- What a sender tells its target. The results of its own polls come in the same form.
inductive Message (α : Type) where
  | data (msg : α)
  | complete
  | error
deriving DecidableEq, Repr

namespace Receiver

variable {α Ref : Type}

structure State (α Ref : Type) where
  buffer : List (α × Ref)
  offering : Bool
  complete : Bool
  stopped : Bool

def State.initial : State α Ref := ⟨[], false, false, false⟩

-- The calls on the source queue. The future of an offer acknowledges to ref, then pipes Done to self.
inductive Effect (α Ref : Type) where
  | offer (msg : α) (ref : Ref)
  | complete
  | fail
deriving DecidableEq

inductive Received (α Ref : Type) where
  | message (m : Message α) (sender : Ref)
  | done
  | failure

-- Never called on an empty buffer, whose head does not exist.
def doOffer (s : State α Ref) : State α Ref × List (Effect α Ref) :=
  match s.buffer with
  | [] => ({ s with offering := true }, [])
  | (msg, ref) :: rest => ({ s with offering := true, buffer := rest }, [.offer msg ref])

-- A Status.Failure of an offer is not matched and changes nothing.
def receive (s : State α Ref) : Received α Ref → State α Ref × List (Effect α Ref)
  | .message (.data msg) sender =>
      let s := { s with buffer := s.buffer ++ [(msg, sender)] }
      if s.offering then (s, []) else doOffer s
  | .done =>
      let s := { s with offering := false }
      if s.buffer.isEmpty then
        if s.complete then ({ s with stopped := true }, [.complete]) else (s, [])
      else doOffer s
  | .message .complete _ =>
      let s := { s with complete := true }
      if s.offering then (s, []) else ({ s with stopped := true }, [.complete])
  | .message .error _ => ({ s with stopped := true }, [.fail])
  | .failure => (s, [])

def offered (calls : List (Effect α Ref)) : List (α × Ref) :=
  calls.filterMap (fun | .offer msg ref => some (msg, ref) | _ => none)

def offerCalls (elements : List (α × Ref)) : List (Effect α Ref) := elements.map (fun (msg, ref) => .offer msg ref)

-- A receiver and its source queue. offers: the futures that are not completed; dones: what they have
-- piped to the receiver. accepted and calls record what happened.
structure Port (α Ref : Type) where
  state : State α Ref
  offers : List (α × Ref)
  dones : Nat
  accepted : List (α × Ref)
  calls : List (Effect α Ref)

def Port.initial : Port α Ref := ⟨.initial, [], 0, [], []⟩

def Port.offered (p : Port α Ref) : List (α × Ref) := Receiver.offered p.calls

-- A stopped actor takes no message.
def Port.receive (r : Received α Ref) (p : Port α Ref) : Port α Ref :=
  if p.state.stopped then p
  else
    let (state, effects) := Receiver.receive p.state r
    { p with state := state, offers := p.offers ++ Receiver.offered effects, calls := p.calls ++ effects }

def Port.accept (p : Port α Ref) : Option ((α × Ref) × Port α Ref) :=
  match p.offers with
  | [] => none
  | x :: rest => some (x, { p with offers := rest, accepted := p.accepted ++ [x], dones := p.dones + 1 })

def Port.done (p : Port α Ref) : Option (Port α Ref) :=
  match p.dones with
  | 0 => none
  | dones + 1 => some ({ p with dones := dones }.receive .done)

-- Every element the receiver has been sent, oldest first.
def Port.taken (p : Port α Ref) : List (α × Ref) := p.offered ++ p.state.buffer

structure Port.Sound (p : Port α Ref) : Prop where
  outstanding : p.offered = p.accepted ++ p.offers
  single : p.offers.length + p.dones ≤ 1
  offering : p.state.stopped = false → p.offers.length + p.dones = if p.state.offering then 1 else 0
  idle : p.state.offering = false → p.state.buffer = []
  live : p.state.stopped = false → p.calls = offerCalls p.offered
  closed : p.state.stopped = true → p.calls = offerCalls p.offered ++ [.fail] ∨
    p.calls = offerCalls p.offered ++ [.complete] ∧ p.state.complete = true ∧ p.accepted = p.taken

-- What handling a message other than an error does, seen from outside.
structure Port.Handles (p : Port α Ref) (more : List (α × Ref)) (next : Port α Ref) : Prop where
  sound : next.Sound
  taken : next.taken = p.taken ++ more
  accepted : next.accepted = p.accepted
  failed : .fail ∈ next.calls → .fail ∈ p.calls

@[simp] theorem offered_nil : offered ([] : List (Effect α Ref)) = [] := rfl

@[simp] theorem offered_offer (msg : α) (ref : Ref) (rest : List (Effect α Ref)) :
    offered (.offer msg ref :: rest) = (msg, ref) :: offered rest := rfl

@[simp] theorem offered_complete (rest : List (Effect α Ref)) : offered (.complete :: rest) = offered rest := rfl

@[simp] theorem offered_fail (rest : List (Effect α Ref)) : offered (.fail :: rest) = offered rest := rfl

@[simp] theorem offered_append (front back : List (Effect α Ref)) :
    offered (front ++ back) = offered front ++ offered back := List.filterMap_append

theorem offer_calls_snoc (front : List (α × Ref)) (x : α × Ref) :
    offerCalls (front ++ [x]) = offerCalls front ++ [.offer x.1 x.2] := by
  simp [offerCalls]

theorem end_not_offer (elements : List (α × Ref)) :
    Effect.complete ∉ offerCalls elements ∧ Effect.fail ∉ offerCalls elements := by
  simp [offerCalls]

theorem initial_sound : (Port.initial : Port α Ref).Sound :=
  ⟨rfl, Nat.zero_le 1, fun _ => rfl, fun _ => rfl, fun _ => rfl, fun stopped => by cases stopped⟩

section Handlers

variable (p : Port α Ref)

theorem receive_stopped (r : Received α Ref) (stopped : p.state.stopped = true) : p.receive r = p := by
  simp [Port.receive, stopped]

theorem receive_data_waits (msg : α) (ref : Ref) (running : p.state.stopped = false) (offering : p.state.offering = true) :
    p.receive (.message (.data msg) ref) =
      { p with state := { p.state with buffer := p.state.buffer ++ [(msg, ref)] } } := by
  simp [Port.receive, running, Receiver.receive, offering]

theorem receive_data_offers (msg : α) (ref : Ref) (running : p.state.stopped = false) (idle : p.state.offering = false)
    (empty : p.state.buffer = []) :
    p.receive (.message (.data msg) ref) = { p with
      state := { p.state with offering := true }
      offers := p.offers ++ [(msg, ref)]
      calls := p.calls ++ [.offer msg ref] } := by
  simp [Port.receive, running, Receiver.receive, idle, empty, Receiver.doOffer]

theorem receive_complete_waits (ref : Ref) (running : p.state.stopped = false) (offering : p.state.offering = true) :
    p.receive (.message .complete ref) = { p with state := { p.state with complete := true } } := by
  simp [Port.receive, running, Receiver.receive, offering]

theorem receive_complete_stops (ref : Ref) (running : p.state.stopped = false) (idle : p.state.offering = false) :
    p.receive (.message .complete ref) = { p with
      state := { p.state with complete := true, stopped := true }
      calls := p.calls ++ [.complete] } := by
  simp [Port.receive, running, Receiver.receive, idle]

theorem receive_error (ref : Ref) (running : p.state.stopped = false) :
    p.receive (.message .error ref) = { p with
      state := { p.state with stopped := true }
      calls := p.calls ++ [.fail] } := by
  simp [Port.receive, running, Receiver.receive]

theorem receive_done_offers (x : α × Ref) (rest : List (α × Ref)) (running : p.state.stopped = false)
    (waiting : p.state.buffer = x :: rest) :
    p.receive .done = { p with
      state := { p.state with buffer := rest, offering := true }
      offers := p.offers ++ [x]
      calls := p.calls ++ [.offer x.1 x.2] } := by
  simp [Port.receive, running, Receiver.receive, waiting, Receiver.doOffer]

theorem receive_done_idle (running : p.state.stopped = false) (empty : p.state.buffer = [])
    (incomplete : p.state.complete = false) :
    p.receive .done = { p with state := { p.state with offering := false } } := by
  simp [Port.receive, running, Receiver.receive, empty, incomplete]

theorem receive_done_stops (running : p.state.stopped = false) (empty : p.state.buffer = [])
    (complete : p.state.complete = true) :
    p.receive .done = { p with
      state := { p.state with offering := false, stopped := true }
      calls := p.calls ++ [.complete] } := by
  simp [Port.receive, running, Receiver.receive, empty, complete]

theorem idle_port (sound : p.Sound) (running : p.state.stopped = false) (idle : p.state.offering = false) :
    p.state.buffer = [] ∧ p.offers = [] ∧ p.dones = 0 := by
  have none := sound.offering running
  have empty := sound.idle idle
  rw [idle, if_neg (by simp)] at none
  have noOffer : p.offers = [] := List.length_eq_zero_iff.mp (by omega)
  exact ⟨empty, noOffer, by omega⟩

theorem offer_handles (x : α × Ref) (buffer more : List (α × Ref)) (dones : Nat) (sound : p.Sound)
    (running : p.state.stopped = false) (noOffer : p.offers = []) (noDone : dones = 0)
    (oldest : p.state.buffer ++ more = x :: buffer) :
    p.Handles more { p with
      state := { p.state with buffer := buffer, offering := true }
      dones := dones
      offers := p.offers ++ [x]
      calls := p.calls ++ [.offer x.1 x.2] } := by
  have calls := sound.live running
  have outstanding := sound.outstanding
  refine ⟨⟨?_, by simp [noOffer, noDone], fun _ => by simp [noOffer, noDone], ?_, fun _ => ?_, ?_⟩, ?_, rfl, by simp⟩
  · rw [← List.append_assoc, ← outstanding]
    simp [Port.offered]
  · intro idle
    cases idle
  · simp only [Port.offered, offered_append, offered_offer, offered_nil, offer_calls_snoc]
    exact congrArg (· ++ [.offer x.1 x.2]) calls
  · intro stopped
    simp [running] at stopped
  · simp [Port.taken, Port.offered, oldest]

theorem stop_handles (offering complete : Bool) (dones : Nat) (sound : p.Sound) (running : p.state.stopped = false)
    (noOffer : p.offers = []) (noDone : dones = 0) (empty : p.state.buffer = []) (ends : complete = true) :
    p.Handles [] { p with
      state := { p.state with offering := offering, complete := complete, stopped := true }
      dones := dones
      calls := p.calls ++ [.complete] } := by
  have calls := sound.live running
  have outstanding := sound.outstanding
  refine ⟨⟨by simpa [Port.offered] using outstanding, by simp [noOffer, noDone], ?_, fun _ => empty, ?_,
    fun _ => .inr ⟨?_, ends, ?_⟩⟩, by simp [Port.taken, Port.offered], rfl, by simp⟩
  · intro live
    cases live
  · intro live
    cases live
  · simp only [Port.offered, offered_append, offered_complete, offered_nil, List.append_nil]
    exact congrArg (· ++ [.complete]) calls
  · simpa [Port.taken, Port.offered, empty, noOffer] using outstanding.symm

theorem data_sound (msg : α) (ref : Ref) (sound : p.Sound) (running : p.state.stopped = false) :
    p.Handles [(msg, ref)] (p.receive (.message (.data msg) ref)) ∧
      (p.receive (.message (.data msg) ref)).state.stopped = false ∧
      (p.receive (.message (.data msg) ref)).state.complete = p.state.complete := by
  cases offering : p.state.offering with
  | true =>
      rw [receive_data_waits p msg ref running offering]
      refine ⟨⟨⟨sound.outstanding, sound.single, sound.offering, ?_, sound.live, ?_⟩, ?_, rfl, id⟩, running, rfl⟩
      · intro idle
        simp [offering] at idle
      · intro stopped
        simp [running] at stopped
      · simp [Port.taken, Port.offered]
  | false =>
      obtain ⟨empty, noOffer, noDone⟩ := idle_port p sound running offering
      rw [receive_data_offers p msg ref running offering empty]
      have oldest : p.state.buffer ++ [(msg, ref)] = (msg, ref) :: p.state.buffer := by rw [empty, List.nil_append]
      exact ⟨offer_handles p (msg, ref) p.state.buffer [(msg, ref)] p.dones sound running noOffer noDone oldest, running, rfl⟩

theorem complete_sound (ref : Ref) (sound : p.Sound) (running : p.state.stopped = false) :
    p.Handles [] (p.receive (.message .complete ref)) ∧ (p.receive (.message .complete ref)).state.complete = true := by
  cases offering : p.state.offering with
  | true =>
      rw [receive_complete_waits p ref running offering]
      refine ⟨⟨⟨sound.outstanding, sound.single, sound.offering, sound.idle, sound.live, ?_⟩, by simp [Port.taken, Port.offered],
        rfl, id⟩, rfl⟩
      intro stopped
      simp [running] at stopped
  | false =>
      obtain ⟨empty, noOffer, noDone⟩ := idle_port p sound running offering
      rw [receive_complete_stops p ref running offering]
      exact ⟨stop_handles p p.state.offering true p.dones sound running noOffer noDone empty rfl, rfl⟩

theorem error_sound (ref : Ref) (sound : p.Sound) (running : p.state.stopped = false) :
    (p.receive (.message .error ref)).Sound ∧ (p.receive (.message .error ref)).taken = p.taken ∧
      (p.receive (.message .error ref)).accepted = p.accepted ∧
      (p.receive (.message .error ref)).state.complete = p.state.complete := by
  have calls := sound.live running
  rw [receive_error p ref running]
  refine ⟨⟨by simpa [Port.offered] using sound.outstanding, sound.single, ?_, sound.idle, ?_, fun _ => .inl ?_⟩,
    by simp [Port.taken, Port.offered], rfl, rfl⟩
  · intro live
    cases live
  · intro live
    cases live
  · simp only [Port.offered, offered_append, offered_fail, offered_nil, List.append_nil]
    exact congrArg (· ++ [.fail]) calls

theorem accept_sound (x : α × Ref) (next : Port α Ref) (sound : p.Sound) (accepted : p.accept = some (x, next)) :
    next.Sound ∧ next.taken = p.taken ∧ next.state = p.state ∧ next.accepted = p.accepted ++ [x] ∧ next.calls = p.calls := by
  cases waiting : p.offers with
  | nil => simp [Port.accept, waiting] at accepted
  | cons first rest =>
      simp only [Port.accept, waiting, Option.some.injEq, Prod.mk.injEq] at accepted
      obtain ⟨rfl, rfl⟩ := accepted
      have outstanding := sound.outstanding
      have single := sound.single
      have offering := sound.offering
      rw [waiting] at outstanding single offering
      simp only [List.length_cons] at single offering
      refine ⟨⟨?_, ?_, fun running => ?_, sound.idle, sound.live, fun stopped => ?_⟩, rfl, rfl, rfl, rfl⟩
      · simpa [Port.offered] using outstanding
      · simp only
        omega
      · have one := offering running
        simp only
        omega
      · rcases sound.closed stopped with failed | ⟨_, _, all⟩
        · exact .inl failed
        · rw [Port.taken, outstanding] at all
          simp at all

theorem done_sound (next : Port α Ref) (sound : p.Sound) (did : p.done = some next) :
    p.Handles [] next ∧ next.state.complete = p.state.complete ∧
      (next.state.stopped = true → p.state.stopped = true ∨ p.state.complete = true) := by
  cases waiting : p.dones with
  | zero => simp [Port.done, waiting] at did
  | succ dones =>
      simp only [Port.done, waiting, Option.some.injEq] at did
      subst did
      have single := sound.single
      have noOffer : p.offers = [] := List.length_eq_zero_iff.mp (by omega)
      have noDone : dones = 0 := by omega
      cases running : p.state.stopped with
      | true =>
          rw [receive_stopped { p with dones := dones } .done running]
          refine ⟨⟨{ sound with single := by simp [noOffer, noDone], offering := ?_ }, by simp [Port.taken, Port.offered],
            rfl, id⟩, rfl, fun _ => .inl rfl⟩
          intro live
          simp [running] at live
      | false =>
          cases buffered : p.state.buffer with
          | cons x rest =>
              rw [receive_done_offers { p with dones := dones } x rest running buffered]
              have oldest : p.state.buffer ++ [] = x :: rest := by rw [List.append_nil, buffered]
              refine ⟨offer_handles p x rest [] dones sound running noOffer noDone oldest, rfl, ?_⟩
              intro stopped
              simp [running] at stopped
          | nil =>
              cases complete : p.state.complete with
              | false =>
                  rw [receive_done_idle { p with dones := dones } running buffered complete]
                  refine ⟨⟨⟨sound.outstanding, by simp [noOffer, noDone], fun _ => by simp [noOffer, noDone],
                    fun _ => buffered, sound.live, ?_⟩, by simp [Port.taken, Port.offered], rfl, id⟩, complete, ?_⟩
                  · intro stopped
                    simp [running] at stopped
                  · intro stopped
                    simp [running] at stopped
              | true =>
                  rw [receive_done_stops { p with dones := dones } running buffered complete]
                  exact ⟨stop_handles p false p.state.complete dones sound running noOffer noDone buffered complete, complete,
                    fun _ => .inr rfl⟩

theorem completed_port (sound : p.Sound) (completed : .complete ∈ p.calls) :
    p.state.stopped = true ∧ p.calls = offerCalls p.offered ++ [.complete] ∧ p.state.complete = true ∧
      p.accepted = p.taken := by
  cases running : p.state.stopped with
  | false =>
      rw [sound.live running] at completed
      exact absurd completed (end_not_offer p.offered).1
  | true =>
      rcases sound.closed running with failed | whole
      · rw [failed, List.mem_append] at completed
        rcases completed with early | last
        · exact absurd early (end_not_offer p.offered).1
        · simp at last
      · exact ⟨rfl, whole⟩

end Handlers

end Receiver

namespace Sender

variable {α : Type}

structure State where
  pending : Int
  complete : Bool
  stopped : Bool
deriving DecidableEq, Repr

def State.initial : State := ⟨0, false, false⟩

inductive Effect (α : Type) where
  | doPoll
  | tell (m : Message α)

inductive Received (α : Type) where
  | polled (m : Message α)
  | done

def checkComplete (s : State) : State × List (Effect α) :=
  if s.complete ∧ s.pending = 0 then ({ s with stopped := true }, [.tell .complete]) else (s, [])

def receive (bufferSize : Int) (s : State) : Received α → State × List (Effect α)
  | .polled (.data msg) =>
      let s := { s with pending := s.pending + 1 }
      (s, .tell (.data msg) :: if s.pending < bufferSize then [.doPoll] else [])
  | .done =>
      let polls : List (Effect α) := if s.pending = bufferSize then [.doPoll] else []
      let (s, tells) := checkComplete { s with pending := s.pending - 1 }
      (s, polls ++ tells)
  | .polled .complete => checkComplete { s with complete := true }
  | .polled .error => ({ s with stopped := true }, [.tell .error])

end Sender

end Toolbox8.BufferedActors
