import Toolbox8.PluggableServiceOrder

set_option autoImplicit false

namespace Toolbox8.PluggableService

open Base

variable {Ref Instance Previous : Type}

-- A service without a journal that has not recovered yet.
def fresh (mailbox : List (Message Ref Instance)) : System Ref Instance :=
  { (service Ref Instance Unit []).initial with mailbox := mailbox, arrived := mailbox }

-- From its creation on, in a run in which the pluggings succeed.
inductive Begun (s : System Ref Instance) : Prop where
  | recovering (mailbox : List (Message Ref Instance)) (commands : resultsOf mailbox = []) (is : s = fresh mailbox)
  | order (order : Order [] s)

theorem recovered_begun (mailbox : List (Message Ref Instance)) (commands : resultsOf mailbox = []) :
    Order [] ({ (recovered [] : System Ref Instance) with mailbox := mailbox, arrived := mailbox }) := by
  obtain ⟨recovering, stash, _, turn⟩ : Order [] (recovered [] : System Ref Instance) := recovered_order []
  exact ⟨recovering, stash, rfl, turn_mailbox [] (recovered []) mailbox mailbox turn commands⟩

theorem step_begun (s next : System Ref Instance) (event : Event Ref Instance Previous) (begun : Begun s)
    (succeeds : Succeeds s event) (stepped : step s event = some next) : Begun next := by
  cases begun with
  | order order => exact .order (step_order [] s event next order succeeds stepped)
  | recovering mailbox commands is =>
      subst is
      cases event with
      | arrive m =>
          obtain ⟨command, same⟩ := Option.ite_none_left_eq_some.mp stepped
          rw [← Option.some.inj same]
          refine .recovering (mailbox ++ [m]) ?_ rfl
          rw [results_append, commands]
          simp [resultsOf, command]
      | recover =>
          obtain rfl := Option.some.inj stepped
          exact .order (recovered_begun mailbox commands)
      | complete index world => simp [step, fresh, service] at stepped
      | restart => cases succeeds
      | crash => cases succeeds
      | _ => cases stepped

section Work

def evtCount (messages : List (Message Ref Instance)) : Nat := (evtsOf messages).length

def commandCount (messages : List (Message Ref Instance)) : Nat := messages.countP (fun m => !m.isResult)

-- What is left of the event in hand.
def turnWork (s : System Ref Instance) : Nat :=
  match s.recovering, s.pending with
  | some _, _ => 3
  | none, some p => if p.written then 3 else 4
  | none, none => 2 * s.running.length + (resultsOf s.mailbox).length

-- Each event is plugged once, and each plugging may bring the stash back into the mailbox. coming counts the events that
-- have not arrived yet.
def work (coming : Nat) (s : System Ref Instance) : Nat :=
  (5 * (evtCount s.stash + evtCount s.mailbox + coming) + turnWork s) *
    (commandCount s.stash + commandCount s.mailbox + coming + 2) + s.mailbox.length

theorem evt_count_append (front back : List (Message Ref Instance)) :
    evtCount (front ++ back) = evtCount front + evtCount back := by
  simp [evtCount, evtsOf, List.filterMap_append]

theorem evt_count_cons (m : Message Ref Instance) (rest : List (Message Ref Instance)) :
    evtCount (m :: rest) = evtCount [m] + evtCount rest := evt_count_append [m] rest

theorem command_count_append (front back : List (Message Ref Instance)) :
    commandCount (front ++ back) = commandCount front + commandCount back := List.countP_append

theorem command_count_cons (m : Message Ref Instance) (rest : List (Message Ref Instance)) :
    commandCount (m :: rest) = commandCount [m] + commandCount rest := command_count_append [m] rest

theorem results_cons (m : Message Ref Instance) (rest : List (Message Ref Instance)) :
    (resultsOf (m :: rest)).length = (resultsOf [m]).length + (resultsOf rest).length := by
  rw [← List.length_append, ← results_append]
  rfl

theorem fewer_units (units less load lighter mailbox longer more : Nat) (fewer : less < units) (smaller : lighter ≤ load)
    (grows : longer + more < load + mailbox) : less * lighter + longer + more < units * load + mailbox := by
  have bound : (less + 1) * load ≤ units * load := Nat.mul_le_mul_right load fewer
  have small : less * lighter ≤ less * load := Nat.mul_le_mul_left less smaller
  rw [Nat.succ_mul] at bound
  omega

theorem shorter_mailbox (units less load lighter mailbox shorter : Nat) (fewer : less ≤ units) (smaller : lighter ≤ load)
    (shrinks : shorter < mailbox) : less * lighter + shorter < units * load + mailbox := by
  have bound : less * lighter ≤ units * load := Nat.mul_le_mul fewer smaller
  omega

theorem stash_commands (stash : List (Message Ref Instance)) (ordered : ∀ m ∈ stash, m.isOrdered = true) :
    stash.length = commandCount stash ∧ resultsOf stash = [] := by
  refine ⟨?_, results_of_ordered stash ordered⟩
  rw [commandCount, eq_comm, List.countP_eq_length]
  intro m member
  simp [ordered_not_result m (ordered m member)]

theorem stash_works (coming : Nat) (s : System Ref Instance) (m : Message Ref Instance) (rest : List (Message Ref Instance))
    (order : Order [] s) (idle : s.pending = none) (head : s.mailbox = m :: rest) :
    work coming { s with mailbox := rest, stash := s.stash ++ [m] } < work coming s := by
  have results := results_cons m rest
  have evts := evt_count_cons m rest
  have commands := command_count_cons m rest
  simp only [work, turnWork, order.recovered, idle, head, results, evts, commands, evt_count_append, command_count_append,
    List.length_cons]
  refine shorter_mailbox _ _ _ _ _ _ ?_ ?_ ?_ <;> omega

theorem answer_works (coming : Nat) (s : System Ref Instance) (m : Message Ref Instance) (rest taken : List (Message Ref Instance))
    (replies : List (Ref × Reply Instance)) (order : Order [] s) (idle : s.pending = none) (head : s.mailbox = m :: rest) :
    work coming { s with mailbox := rest, taken := taken, replies := replies } < work coming s := by
  have results := results_cons m rest
  have evts := evt_count_cons m rest
  have commands := command_count_cons m rest
  simp only [work, turnWork, order.recovered, idle, head, results, evts, commands, List.length_cons]
  refine shorter_mailbox _ _ _ _ _ _ ?_ ?_ ?_ <;> omega

theorem receive_works (coming : Nat) (s : System Ref Instance) (m : Message Ref Instance) (rest : List (Message Ref Instance))
    (order : Order [] s) (idle : s.pending = none) (head : s.mailbox = m :: rest) :
    work coming ({ s with mailbox := rest }.receiveCommand m) < work coming s ∧
      ({ s with mailbox := rest }.receiveCommand m).running = s.running := by
  obtain ⟨stashed, clean⟩ := stash_commands s.stash order.stash
  have results := results_cons m rest
  have evts := evt_count_cons m rest
  have commands := command_count_cons m rest
  cases m with
  | pluggingComplete plugged replyTo =>
      have counts : evtCount [(.pluggingComplete plugged replyTo : Message Ref Instance)] = 0 := rfl
      have others : commandCount [(.pluggingComplete plugged replyTo : Message Ref Instance)] = 0 := rfl
      have one : (resultsOf [(.pluggingComplete plugged replyTo : Message Ref Instance)]).length = 1 := rfl
      have nothing : evtCount ([] : List (Message Ref Instance)) = 0 ∧ commandCount ([] : List (Message Ref Instance)) = 0 := ⟨rfl, rfl⟩
      refine ⟨?_, rfl⟩
      simp only [work, turnWork, System.receiveCommand, order.recovered, idle, head, results, evts, commands, evt_count_append,
        command_count_append, results_append, clean, List.nil_append, List.length_append, List.length_cons]
      refine fewer_units _ _ _ _ _ _ 0 ?_ ?_ ?_ <;> omega
  | failure =>
      have counts : evtCount [(.failure : Message Ref Instance)] = 0 := rfl
      have one : (resultsOf [(.failure : Message Ref Instance)]).length = 1 := rfl
      refine ⟨?_, rfl⟩
      simp only [work, turnWork, System.receiveCommand, order.recovered, idle, head, results, evts, commands, List.length_cons]
      refine fewer_units _ _ _ _ _ _ 0 ?_ ?_ ?_ <;> omega
  | getPlugged sender =>
      simp only [System.receiveCommand]
      split
      · exact ⟨stash_works coming s _ rest order idle head, rfl⟩
      · exact ⟨answer_works coming s _ rest _ _ order idle head, rfl⟩
  | evt e sender =>
      have counts : evtCount [(.evt e sender : Message Ref Instance)] = 1 := rfl
      have none : (resultsOf [(.evt e sender : Message Ref Instance)]).length = 0 := rfl
      simp only [System.receiveCommand]
      split
      · exact ⟨stash_works coming s _ rest order idle head, rfl⟩
      · refine ⟨?_, rfl⟩
        simp only [work, turnWork, order.recovered, idle, head, results, evts, commands, List.length_cons, Bool.false_eq_true,
          if_false]
        refine fewer_units _ _ _ _ _ _ 0 ?_ ?_ ?_ <;> omega
  | query sender => exact ⟨answer_works coming s _ rest _ _ order idle head, rfl⟩

theorem complete_works (coming : Nat) (s next : System Ref Instance) (index : Nat) (world : World Instance Previous)
    (order : Order [] s) (succeeds : Succeeds s (.complete index world)) (stepped : step s (.complete index world) = some next) :
    work coming next < work coming s ∧ next.running.length ≤ s.running.length := by
  simp only [step] at stepped
  split at stepped
  · cases stepped
  · rename_i p here
    have succeeded := succeeds p here
    obtain ⟨q, running, pending, results⟩ : ∃ q, s.running = [q] ∧ s.pending = none ∧ resultsOf s.mailbox = [] := by
      cases order.turn with
      | starting plugging pending running results => exact ⟨_, running, pending, results⟩
      | plugging front e sender plugging pending running results => exact ⟨_, running, pending, results⟩
      | idle plugging pending running => simp [running] at here
      | persisting front e sender written pending plugging running => simp [running] at here
      | completed plugged replyTo plugging pending running => simp [running] at here
    obtain ⟨rfl, _⟩ := only_element q p index (running ▸ here)
    split at stepped
    · rename_i plugged outcome
      rw [← Option.some.inj stepped]
      have counts : evtCount [(.pluggingComplete plugged p.replyTo : Message Ref Instance)] = 0 := rfl
      have others : commandCount [(.pluggingComplete plugged p.replyTo : Message Ref Instance)] = 0 := rfl
      have one : (resultsOf [(.pluggingComplete plugged p.replyTo : Message Ref Instance)]).length = 1 := rfl
      refine ⟨?_, by simp [running]⟩
      simp only [work, turnWork, order.recovered, pending, running, evt_count_append, command_count_append, results_append, results,
        List.nil_append, List.eraseIdx_cons_zero, List.length_nil, List.length_append, List.length_cons]
      refine fewer_units _ _ _ _ _ _ 0 ?_ ?_ ?_ <;> omega
    · rename_i outcome
      simp [outcome, Except.isOk, Except.toBool] at succeeded

theorem step_works (coming : Nat) (s next : System Ref Instance) (event : Event Ref Instance Previous) (begun : Begun s)
    (succeeds : Succeeds s event) (own : ∀ m, event ≠ .arrive m) (stepped : step s event = some next) :
    work coming next + (next.running.length - s.running.length) < work coming s := by
  cases begun with
  | recovering mailbox commands is =>
      subst is
      cases event with
      | arrive m => exact absurd rfl (own m)
      | recover =>
          obtain rfl := Option.some.inj stepped
          simp only [work, turnWork, fresh, service, System.receiveRecover, System.doPlugging, commands, List.length_nil,
            List.nil_append, List.length_singleton]
          refine fewer_units _ _ _ _ _ _ _ ?_ ?_ ?_ <;> omega
      | complete index world => simp [step, fresh, service] at stepped
      | restart => cases succeeds
      | crash => cases succeeds
      | _ => cases stepped
  | order order =>
      cases event with
      | arrive m => exact absurd rfl (own m)
      | receive =>
          simp only [step] at stepped
          split at stepped
          · rename_i m rest _ idle head
            rw [← Option.some.inj stepped]
            obtain ⟨less, running⟩ := receive_works coming s m rest order idle head
            rw [running]
            omega
          · cases stepped
      | persist =>
          simp only [step] at stepped
          split at stepped
          · rename_i e sender pending
            rw [← Option.some.inj stepped]
            simp only [work, turnWork, order.recovered, pending, Bool.false_eq_true, if_false, if_true]
            refine fewer_units _ _ _ _ _ _ _ ?_ ?_ ?_ <;> omega
          · cases stepped
      | handle =>
          simp only [step] at stepped
          split at stepped
          · rename_i e sender pending
            obtain ⟨running, results⟩ : s.running = [] ∧ resultsOf s.mailbox = [] := by
              cases order.turn with
              | persisting front e sender written pending plugging running results => exact ⟨running, results⟩
              | idle plugging quiet => simp [quiet] at pending
              | starting plugging quiet => simp [quiet] at pending
              | plugging front e sender plugging quiet => simp [quiet] at pending
              | completed plugged replyTo plugging quiet => simp [quiet] at pending
            rw [← Option.some.inj stepped]
            simp only [work, turnWork, System.doPlugging, order.recovered, pending, running, results, if_true, List.nil_append,
              List.length_nil, List.length_singleton]
            refine fewer_units _ _ _ _ _ _ _ ?_ ?_ ?_ <;> omega
          · cases stepped
      | complete index world =>
          obtain ⟨less, fewer⟩ := complete_works coming s next index world order succeeds stepped
          omega
      | recover => simp [step, order.recovered] at stepped
      | restart => cases succeeds
      | crash => cases succeeds

theorem arrive_works (coming : Nat) (s : System Ref Instance) (e : Evt) (sender : Ref) :
    work coming { s with mailbox := s.mailbox ++ [.evt e sender], arrived := s.arrived ++ [.evt e sender] } =
      work (coming + 1) s + 1 := by
  have counts : evtCount [(.evt e sender : Message Ref Instance)] = 1 := rfl
  have others : commandCount [(.evt e sender : Message Ref Instance)] = 1 := rfl
  have none : resultsOf [(.evt e sender : Message Ref Instance)] = [] := rfl
  simp only [work, turnWork, evt_count_append, command_count_append, results_append, counts, others, none, List.append_nil,
    List.length_append, List.length_singleton, Nat.add_assoc, Nat.add_comm 1 coming]

end Work

theorem step_arrived (s next : System Ref Instance) (event : Event Ref Instance Previous) (own : ∀ m, event ≠ .arrive m)
    (stepped : step s event = some next) : next.arrived = s.arrived := by
  cases event with
  | arrive m => exact absurd rfl (own m)
  | receive =>
      simp only [step] at stepped
      split at stepped
      · rename_i m rest _ _ _
        rw [← Option.some.inj stepped]
        cases m <;> simp only [System.receiveCommand] <;> split <;> rfl
      · cases stepped
  | persist =>
      simp only [step] at stepped
      split at stepped
      · rw [← Option.some.inj stepped]
      · cases stepped
  | handle =>
      simp only [step] at stepped
      split at stepped
      · rw [← Option.some.inj stepped]
        rfl
      · cases stepped
  | complete index world =>
      simp only [step] at stepped
      split at stepped
      · cases stepped
      · split at stepped <;> rw [← Option.some.inj stepped]
  | recover =>
      obtain ⟨journal, _, rfl⟩ := Option.map_eq_some_iff.mp stepped
      cases journal <;> rfl
  | restart => rw [← Option.some.inj stepped]
  | crash => rw [← Option.some.inj stepped]

-- Nothing is left: every event has been plugged and answered.
structure Idle (s : System Ref Instance) : Prop where
  recovered : s.recovering = none
  plugging : s.plugging = false
  pending : s.pending = none
  running : s.running = []
  stash : s.stash = []
  mailbox : s.mailbox = []
  served : Served [] s.taken s.produced s.replies
  arrived : orderedOf s.arrived = s.taken
  current : s.produced.getLast? = some (s.state.request, s.plugged)

theorem begun_cases (Previous : Type) (s : System Ref Instance) (begun : Begun s) :
    (∃ (event : Event Ref Instance Previous) (next : System Ref Instance),
        event ∈ [.receive, .persist, .handle, .recover] ∧ step s event = some next) ∨
      (∃ p, s.running = [p]) ∨ Idle s := by
  cases begun with
  | recovering mailbox commands is =>
      subst is
      exact .inl ⟨.recover, _, by simp, rfl⟩
  | order order =>
      have receives : s.pending = none → s.mailbox ≠ [] →
          ∃ (event : Event Ref Instance Previous) (next : System Ref Instance),
            event ∈ [.receive, .persist, .handle, .recover] ∧ step s event = some next := by
        intro idle waits
        obtain ⟨m, rest, head⟩ := List.exists_cons_of_ne_nil waits
        exact ⟨.receive, _, by simp, by simp only [step, order.recovered, idle, head]; rfl⟩
      cases order.turn with
      | idle plugging pending running stash results journal served current =>
          by_cases empty : s.mailbox = []
          · have arrived := order.arrived
            rw [stash, empty] at arrived
            exact .inr (.inr ⟨order.recovered, plugging, pending, running, stash, empty, served,
              by simpa [orderedOf] using arrived, current⟩)
          · exact .inl (receives pending empty)
      | persisting front e sender written pending =>
          cases written with
          | false => exact .inl ⟨.persist, _, by simp, by simp only [step, pending]; rfl⟩
          | true => exact .inl ⟨.handle, _, by simp, by simp only [step, pending]; rfl⟩
      | starting plugging pending running => exact .inr (.inl ⟨_, running⟩)
      | plugging front e sender plugging pending running => exact .inr (.inl ⟨_, running⟩)
      | completed plugged replyTo plugging pending running results =>
          refine .inl (receives pending ?_)
          intro empty
          simp [empty, resultsOf] at results

section Done

variable [DecidableEq Ref] (ref : Ref)

def Message.isEvtOf : Message Ref Instance → Bool
  | .evt _ sender => sender = ref
  | _ => false

def doneFor : Ref × Reply Instance → Bool
  | (other, .done) => other = ref
  | _ => false

theorem answers_done (current : Plugged Instance) (commands : List (Message Ref Instance)) (instances : List (Plugged Instance))
    (counted : instances.length = (evtsOf commands).length) :
    (answersFrom current commands instances).countP (doneFor ref) = commands.countP (Message.isEvtOf ref) := by
  induction commands generalizing current instances with
  | nil => rfl
  | cons m rest ih =>
      cases m with
      | evt e sender =>
          cases instances with
          | nil => simp [evtsOf] at counted
          | cons plugged instances =>
              have fewer : instances.length = (evtsOf rest).length := by simpa [evtsOf] using counted
              rw [answersFrom, List.countP_cons, List.countP_cons, ih plugged instances fewer]
              rfl
      | getPlugged sender =>
          rw [answersFrom, List.countP_cons, List.countP_cons, ih current instances counted]
          rfl
      | pluggingComplete plugged replyTo => exact ih current instances counted
      | failure => exact ih current instances counted
      | query sender => exact ih current instances counted

theorem ordered_done (replies : List (Ref × Reply Instance)) :
    (orderedReplies replies).countP (doneFor ref) = replies.countP (doneFor ref) := by
  rw [orderedReplies, List.countP_filter]
  refine List.countP_congr ?_
  rintro ⟨other, reply⟩ _
  cases reply <;> simp [doneFor, Reply.isOrdered]

theorem served_done (commands : List (Message Ref Instance)) (produced : List (Option PlugRequest × Plugged Instance))
    (replies : List (Ref × Reply Instance)) (served : Served [] commands produced replies) :
    replies.countP (doneFor ref) = commands.countP (Message.isEvtOf ref) := by
  obtain ⟨first, rest, rfl, counted⟩ := served_split [] commands produced replies served
  have answered := answers_done ref first.2 commands (rest.map Prod.snd) counted
  rw [← ordered_done, served.2]
  exact answered

theorem ordered_evts (commands : List (Message Ref Instance)) :
    (orderedOf commands).countP (Message.isEvtOf ref) = commands.countP (Message.isEvtOf ref) := by
  rw [orderedOf, List.countP_filter]
  refine List.countP_congr ?_
  intro m _
  cases m <;> simp [Message.isEvtOf, Message.isOrdered]

-- At any time, nobody has been told Done more often than it has sent an event.
theorem begun_done (s : System Ref Instance) (begun : Begun s) :
    s.replies.countP (doneFor ref) ≤ s.arrived.countP (Message.isEvtOf ref) := by
  cases begun with
  | recovering mailbox commands is =>
      subst is
      exact Nat.zero_le _
  | order order =>
      rw [← ordered_evts ref s.arrived, order.arrived, List.countP_append]
      rcases turn_front [] s order.turn with ⟨_, replies, _⟩ | ⟨front, rest, taken, _, more, served⟩
      · have none : s.replies.countP (doneFor ref) = 0 := by
          rw [← ordered_done, replies]
          rfl
        omega
      · have counted := served_done ref front s.produced (s.replies ++ more) served
        rw [List.countP_append] at counted
        rw [taken, List.countP_append]
        omega

end Done

end Toolbox8.PluggableService
