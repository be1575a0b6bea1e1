import Toolbox8.Base.Transition
import Toolbox8.BufferedActors

set_option autoImplicit false

namespace Toolbox8.BufferedActors.Receiver

open Base

variable {α Ref : Type}

-- What pipeTo tells self of an offer: Done, or the Status.Failure of a future that has failed.
def Received.isResult : Received α Ref → Bool
  | .message _ _ => false
  | .done => true
  | .failure => true

-- The actor with its mailbox, and the offers whose futures are not completed. acknowledged are those told Done.
structure Actor (α Ref : Type) where
  state : State α Ref
  mailbox : List (Received α Ref)
  offers : List (α × Ref)
  acknowledged : List Ref

inductive Event (α Ref : Type) where
  | tell (m : Message α) (sender : Ref)
  | receive
  | succeeds (k : Nat)
  | fails (k : Nat)

-- A stopped actor takes no message from its mailbox.
def Actor.receive (s : Actor α Ref) (r : Received α Ref) (rest : List (Received α Ref)) : Actor α Ref :=
  if s.state.stopped then { s with mailbox := rest }
  else
    let (state, effects) := Receiver.receive s.state r
    { s with state := state, mailbox := rest, offers := s.offers ++ offered effects }

def actor : Machine (Actor α Ref) (Event α Ref) where
  initial := ⟨.initial, [], [], []⟩
  step := fun s event =>
    match event with
    | .tell m sender => some { s with mailbox := s.mailbox ++ [.message m sender] }
    | .receive =>
        match s.mailbox with
        | [] => none
        | r :: rest => some (s.receive r rest)
    | .succeeds k =>
        (s.offers[k]?).map (fun x =>
          { s with offers := s.offers.eraseIdx k, acknowledged := s.acknowledged ++ [x.2], mailbox := s.mailbox ++ [.done] })
    | .fails k => (s.offers[k]?).map (fun _ => { s with offers := s.offers.eraseIdx k, mailbox := s.mailbox ++ [.failure] })

-- An offering receiver still has an offer that is not completed, or the result of one in its mailbox.
def ResultToCome (s : Actor α Ref) : Prop :=
  s.state.stopped = false → s.state.offering = true → s.offers ≠ [] ∨ ∃ r ∈ s.mailbox, r.isResult = true

-- No Status.Failure reaches the receive of an actor that runs.
def NoFailureReceived (s : Actor α Ref) (event : Event α Ref) : Prop :=
  match event with
  | .receive => s.state.stopped = false → s.mailbox.head? ≠ some .failure
  | _ => True

def Actor.results (s : Actor α Ref) : Nat := s.mailbox.countP Received.isResult

def Actor.due (s : Actor α Ref) : Nat := s.offers.length + s.results

def AtMostOne (s : Actor α Ref) : Prop := s.state.stopped = false → s.due ≤ if s.state.offering then 1 else 0

theorem result_to_come_iff (s : Actor α Ref) :
    ResultToCome s ↔ (s.state.stopped = false → s.state.offering = true → 0 < s.due) := by
  have due : 0 < s.due ↔ s.offers ≠ [] ∨ ∃ r ∈ s.mailbox, r.isResult = true := by
    rw [Actor.due, Nat.add_pos_iff_pos_or_pos, List.length_pos_iff, Actor.results, List.countP_pos_iff]
  rw [ResultToCome, due]

theorem receive_cases (st : State α Ref) (r : Received α Ref) :
    (Receiver.receive st r).1.stopped = true ∨
    (r.isResult = false ∧ (Receiver.receive st r).1.offering = st.offering ∧ offered (Receiver.receive st r).2 = []) ∨
    ((r = .done ∨ r.isResult = false ∧ st.offering = false) ∧ (Receiver.receive st r).1.offering = true ∧
      (offered (Receiver.receive st r).2).length = 1) ∨
    (r = .done ∧ (Receiver.receive st r).1.offering = false ∧ offered (Receiver.receive st r).2 = []) ∨
    (r = .failure ∧ Receiver.receive st r = (st, [])) := by
  cases r with
  | message m sender =>
      cases m with
      | data msg =>
          cases offering : st.offering with
          | true => exact .inr (.inl ⟨rfl, by simp [Receiver.receive, offering], by simp [Receiver.receive, offering]⟩)
          | false =>
              refine .inr (.inr (.inl ⟨.inr ⟨rfl, rfl⟩, ?_⟩))
              cases buffer : st.buffer with
              | nil => simp [Receiver.receive, offering, doOffer, buffer]
              | cons x rest => simp [Receiver.receive, offering, doOffer, buffer]
      | complete =>
          cases offering : st.offering with
          | true => exact .inr (.inl ⟨rfl, by simp [Receiver.receive, offering], by simp [Receiver.receive, offering]⟩)
          | false => exact .inl (by simp [Receiver.receive, offering])
      | error => exact .inl rfl
  | done =>
      cases buffer : st.buffer with
      | nil =>
          cases complete : st.complete with
          | true => exact .inl (by simp [Receiver.receive, buffer, complete])
          | false =>
              refine .inr (.inr (.inr (.inl ⟨rfl, ?_⟩)))
              simp [Receiver.receive, buffer, complete]
      | cons x rest =>
          refine .inr (.inr (.inl ⟨.inl rfl, ?_⟩))
          simp [Receiver.receive, buffer, doOffer]
  | failure => exact .inr (.inr (.inr (.inr ⟨rfl, rfl⟩)))

theorem receive_stopped_actor (s : Actor α Ref) (r : Received α Ref) (rest : List (Received α Ref))
    (stopped : s.state.stopped = true) : s.receive r rest = { s with mailbox := rest } := by
  rw [Actor.receive, if_pos stopped]

theorem receive_running (s : Actor α Ref) (r : Received α Ref) (rest : List (Received α Ref)) (running : s.state.stopped = false) :
    s.receive r rest = { s with
      state := (Receiver.receive s.state r).1
      mailbox := rest
      offers := s.offers ++ offered (Receiver.receive s.state r).2 } := by
  rw [Actor.receive, if_neg (by simp [running])]

theorem mailbox_due (s : Actor α Ref) (r : Received α Ref) (rest : List (Received α Ref)) (head : s.mailbox = r :: rest) :
    s.due = s.offers.length + (rest.countP Received.isResult + if r.isResult then 1 else 0) := by
  rw [Actor.due, Actor.results, head, List.countP_cons]

theorem receive_keeps (s : Actor α Ref) (r : Received α Ref) (rest : List (Received α Ref)) (head : s.mailbox = r :: rest)
    (running : s.state.stopped = false) (few : AtMostOne s) :
    AtMostOne (s.receive r rest) ∧ (ResultToCome s → (ResultToCome (s.receive r rest) ↔ r ≠ .failure)) := by
  have due := mailbox_due s r rest head
  have bound := few running
  rw [receive_running s r rest running, AtMostOne, result_to_come_iff, result_to_come_iff]
  simp only [Actor.due, Actor.results, List.length_append] at due bound ⊢
  rcases receive_cases s.state r with stopped | ⟨other, flag, none⟩ | ⟨from', flag, one⟩ | ⟨rfl, flag, none⟩ | ⟨rfl, same⟩
  · rw [stopped]
    refine ⟨nofun, fun _ => iff_of_true nofun ?_⟩
    rintro rfl
    rw [show Receiver.receive s.state .failure = (s.state, []) from rfl, running] at stopped
    cases stopped
  · rw [flag, none, List.length_nil, Nat.add_zero]
    rw [other] at due
    simp only [Bool.false_eq_true, if_false, Nat.add_zero] at due
    rw [due] at bound ⊢
    refine ⟨fun _ => bound, fun holds => iff_of_true (fun _ => holds running) ?_⟩
    rintro rfl
    cases other
  · rw [flag, one, if_pos rfl]
    have nothing : s.offers.length + rest.countP Received.isResult = 0 := by
      rcases from' with rfl | ⟨other, idle⟩
      · rw [due] at bound
        simp only [Received.isResult, if_true] at bound
        split at bound <;> omega
      · rw [idle, due] at bound
        simp only [Bool.false_eq_true, if_false] at bound
        omega
    refine ⟨fun _ => by omega, fun _ => iff_of_true (fun _ _ => by omega) ?_⟩
    rintro rfl
    rcases from' with other | ⟨other, _⟩ <;> cases other
  · rw [flag, none]
    rw [due] at bound
    simp only [Received.isResult, if_true] at bound
    simp only [List.length_nil, Bool.false_eq_true, if_false]
    refine ⟨fun _ => ?_, fun _ => iff_of_true nofun (by simp)⟩
    split at bound <;> omega
  · rw [due] at bound ⊢
    simp only [Received.isResult, if_true] at bound ⊢
    simp only [same, offered_nil, List.length_nil, Nat.add_zero]
    refine ⟨fun _ => ?_, fun _ => iff_of_false (fun holds => ?_) (by simp)⟩
    · split at bound <;> omega
    · split at bound
      · rename_i offering
        have more := holds running offering
        omega
      · omega

theorem completed_due (s : Actor α Ref) (k : Nat) (x : α × Ref) (found : s.offers[k]? = some x) (result : Received α Ref)
    (isResult : result.isResult = true) :
    (s.offers.eraseIdx k).length + (s.mailbox ++ [result]).countP Received.isResult = s.due := by
  obtain ⟨inside, _⟩ := List.getElem?_eq_some_iff.mp found
  rw [List.length_eraseIdx_of_lt inside, List.countP_append, List.countP_singleton, if_pos isResult, Actor.due, Actor.results]
  omega

theorem step_keeps (s next : Actor α Ref) (event : Event α Ref) (few : AtMostOne s) (stepped : actor.step s event = some next) :
    AtMostOne next ∧ (ResultToCome s → (ResultToCome next ↔ NoFailureReceived s event)) := by
  cases event with
  | tell m sender =>
      obtain rfl := Option.some.inj stepped
      have due : (s.mailbox ++ [Received.message m sender]).countP Received.isResult = s.results := by
        simp [Actor.results, Received.isResult]
      rw [AtMostOne, result_to_come_iff, result_to_come_iff]
      simp only [Actor.due, Actor.results] at due ⊢
      rw [due]
      exact ⟨few, fun holds => iff_of_true holds trivial⟩
  | receive =>
      cases head : s.mailbox with
      | nil => simp [actor, head] at stepped
      | cons r rest =>
          simp only [actor, head, Option.some.injEq] at stepped
          subst stepped
          cases stopped : s.state.stopped with
          | true =>
              rw [receive_stopped_actor s r rest stopped]
              simp [AtMostOne, ResultToCome, NoFailureReceived, stopped]
          | false =>
              obtain ⟨kept, exactly⟩ := receive_keeps s r rest head stopped few
              refine ⟨kept, fun holds => ?_⟩
              rw [exactly holds, NoFailureReceived, head, List.head?_cons]
              simp [stopped]
  | succeeds k =>
      obtain ⟨x, found, rfl⟩ := Option.map_eq_some_iff.mp stepped
      rw [AtMostOne, result_to_come_iff, result_to_come_iff, Actor.due, Actor.results, completed_due s k x found .done rfl]
      exact ⟨few, fun holds => iff_of_true holds trivial⟩
  | fails k =>
      obtain ⟨x, found, rfl⟩ := Option.map_eq_some_iff.mp stepped
      rw [AtMostOne, result_to_come_iff, result_to_come_iff, Actor.due, Actor.results, completed_due s k x found .failure rfl]
      exact ⟨few, fun holds => iff_of_true holds trivial⟩

-- In every run: an offering receiver has a result to come in every state exactly as long as no failure is received.
theorem result_to_come_iff_no_failure (events : List (Event α Ref)) (final : Actor α Ref)
    (ran : actor.run actor.initial events = some final) :
    actor.Along ResultToCome actor.initial events ↔ actor.Meets NoFailureReceived actor.initial events := by
  have start : AtMostOne (actor.initial : Actor α Ref) := fun _ => Nat.le_refl 0
  rw [along_of_invariant actor AtMostOne ResultToCome
    (fun s event next few stepped => (step_keeps s next event few stepped).1) _ events start]
  apply along_iff_meets actor NoFailureReceived _ _ final events _ ⟨start, nofun⟩ ran
  intro s event _ next holds stepped
  obtain ⟨kept, exactly⟩ := step_keeps s next event holds.1 stepped
  rw [← exactly holds.2]
  exact and_iff_right kept

-- The second element waits in the buffer until the first one is accepted.
def acceptedRun : List (Event Nat Unit) :=
  [.tell (.data 1) (), .receive, .tell (.data 2) (), .receive, .succeeds 0, .tell .complete (), .receive, .receive, .succeeds 0,
    .receive]

theorem result_to_come_iff_accepted :
    ∃ final, actor.run actor.initial acceptedRun = some final ∧
      (actor.Along ResultToCome actor.initial acceptedRun ↔ actor.Meets NoFailureReceived actor.initial acceptedRun) := by
  have ran : (actor.run actor.initial acceptedRun).map (fun s => (s.state.stopped, s.acknowledged)) =
      some (true, [(), ()]) := by decide
  obtain ⟨final, run, _⟩ := Option.map_eq_some_iff.mp ran
  exact ⟨final, run, result_to_come_iff_no_failure acceptedRun final run⟩

-- The second element is never offered: the failure of the first offer leaves the flag set.
theorem failed_offer_wedges :
    ∃ final : Actor Nat Unit,
      actor.run actor.initial [.tell (.data 1) (), .receive, .tell (.data 2) (), .receive, .fails 0, .receive] = some final ∧
        final.state.buffer = [(2, ())] ∧ ¬ ResultToCome final := by
  refine ⟨_, rfl, rfl, ?_⟩
  intro holds
  rcases holds rfl rfl with offered | ⟨r, member, _⟩
  · exact offered rfl
  · cases member

end Toolbox8.BufferedActors.Receiver
