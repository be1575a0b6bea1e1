import Toolbox8.Base.Visits
import Toolbox8.PluggableService

set_option autoImplicit false

namespace Toolbox8.PluggableService

open Base

variable {Ref Instance Previous : Type}

-- A Query is answered at once; the other commands take their turns.
def Message.isOrdered : Message Ref Instance → Bool
  | .getPlugged _ => true
  | .evt _ _ => true
  | _ => false

def Reply.isOrdered : Reply Instance → Bool
  | .queryResponse _ => false
  | _ => true

def orderedOf (messages : List (Message Ref Instance)) : List (Message Ref Instance) := messages.filter Message.isOrdered

def resultsOf (messages : List (Message Ref Instance)) : List (Message Ref Instance) := messages.filter Message.isResult

def orderedReplies (replies : List (Ref × Reply Instance)) : List (Ref × Reply Instance) :=
  replies.filter (fun reply => reply.2.isOrdered)

def evtsOf (messages : List (Message Ref Instance)) : List Evt :=
  messages.filterMap (fun | .evt e _ => some e | _ => none)

def Evt.requested : Evt → Option PlugRequest
  | .plugRequest request => some request
  | .clear => none

-- Plugging the events one by one, each into the next instance, and answering everybody in turn.
def answersFrom : Plugged Instance → List (Message Ref Instance) → List (Plugged Instance) → List (Ref × Reply Instance)
  | current, .getPlugged sender :: rest, instances => (sender, .plugged current) :: answersFrom current rest instances
  | _, .evt _ sender :: rest, plugged :: instances => (sender, .done) :: answersFrom plugged rest instances
  | _, .evt _ _ :: _, [] => []
  | current, _ :: rest, instances => answersFrom current rest instances
  | _, [], _ => []

def answers (instances : List (Plugged Instance)) (commands : List (Message Ref Instance)) : List (Ref × Reply Instance) :=
  match instances with
  | [] => []
  | first :: rest => answersFrom first commands rest

def replayed (before : List Evt) : State := before.foldl updateState ⟨none⟩

def recovered (before : List Evt) : System Ref Instance :=
  { state := replayed before, plugged := .void, plugging := true, stash := [], mailbox := [], pending := none,
    recovering := none, running := [⟨(replayed before).request, none, none⟩], journal := before, arrived := [],
    taken := [], replies := [], produced := [] }

def Succeeds (s : System Ref Instance) : Event Ref Instance Previous → Prop
  | .complete index world => ∀ p ∈ s.running[index]?, (world.plugs p.request (p.stale.getD s.plugged)).isOk = true
  | .restart => False
  | .crash => False
  | _ => True

instance decidableSucceeds (s : System Ref Instance) : (event : Event Ref Instance Previous) → Decidable (Succeeds s event)
  | .complete index world =>
      decidable_of_iff (s.running[index]?.all (fun p => (world.plugs p.request (p.stale.getD s.plugged)).isOk) = true)
        (by simp [Succeeds, Option.all_eq_true])
  | .arrive _ => isTrue trivial
  | .receive => isTrue trivial
  | .persist => isTrue trivial
  | .handle => isTrue trivial
  | .recover => isTrue trivial
  | .restart => isFalse id
  | .crash => isFalse id

theorem replay_run (before rest : List Evt) (s : System Ref Instance) (recovering : s.recovering = some rest) :
    (service Ref Instance Previous before).run s (List.replicate (rest.length + 1) .recover) =
      some ({ s with state := rest.foldl updateState s.state, recovering := none }.doPlugging none) := by
  induction rest generalizing s with
  | nil => simp [service, step, recovering, System.receiveRecover]
  | cons e rest ih =>
      have stepped : (service Ref Instance Previous before).step s .recover =
          some { s with state := updateState s.state e, recovering := some rest } := by
        simp [service, step, recovering, System.receiveRecover]
      rw [List.length_cons, List.replicate_succ, run_cons_of_step _ _ _ _ _ stepped, ih _ rfl]
      rfl

theorem recovered_run (before : List Evt) :
    (service Ref Instance Previous before).run (service Ref Instance Previous before).initial
      (List.replicate (before.length + 1) .recover) = some (recovered before) :=
  replay_run before before (service Ref Instance Previous before).initial rfl

theorem answers_append (current : Plugged Instance) (front back : List (Message Ref Instance))
    (instances more : List (Plugged Instance)) (counted : instances.length = (evtsOf front).length) :
    answersFrom current (front ++ back) (instances ++ more) =
      answersFrom current front instances ++ answersFrom (instances.getLastD current) back more := by
  induction front generalizing current instances with
  | nil =>
      rw [List.length_eq_zero_iff.mp counted]
      simp [answersFrom]
  | cons m rest ih =>
      cases m with
      | evt e sender =>
          cases instances with
          | nil => simp [evtsOf] at counted
          | cons plugged instances =>
              have fewer : instances.length = (evtsOf rest).length := by simpa [evtsOf] using counted
              simp only [List.cons_append, answersFrom, ih plugged instances fewer, List.getLastD_cons]
      | getPlugged sender => simp only [List.cons_append, answersFrom, ih current instances counted]
      | pluggingComplete plugged replyTo => simp only [List.cons_append, answersFrom, ih current instances counted]
      | failure => simp only [List.cons_append, answersFrom, ih current instances counted]
      | query sender => simp only [List.cons_append, answersFrom, ih current instances counted]

theorem answers_ordered (current : Plugged Instance) (commands : List (Message Ref Instance))
    (instances : List (Plugged Instance)) :
    answersFrom current (orderedOf commands) instances = answersFrom current commands instances := by
  induction commands generalizing current instances with
  | nil => rfl
  | cons m rest ih =>
      cases m with
      | evt e sender =>
          cases instances with
          | nil => simp [orderedOf, List.filter_cons, Message.isOrdered, answersFrom]
          | cons plugged instances => simpa [orderedOf, List.filter_cons, Message.isOrdered, answersFrom] using ih plugged instances
      | _ => simpa [orderedOf, List.filter_cons, Message.isOrdered, answersFrom] using ih current instances

-- The pluggings that are over: the one that ended the recovery, and one for each event of the commands.
def Served (before : List Evt) (commands : List (Message Ref Instance))
    (produced : List (Option PlugRequest × Plugged Instance)) (replies : List (Ref × Reply Instance)) : Prop :=
  produced.map Prod.fst = (replayed before).request :: (evtsOf commands).map Evt.requested ∧
    orderedReplies replies = answers (produced.map Prod.snd) commands

def doneTo (replyTo : Option Ref) : List (Ref × Reply Instance) := replyTo.toList.map (fun ref => (ref, .done))

-- At any moment the actor is between two events, persists one, plugs one, or is about to hear that it is
-- plugged. front is what was taken before that event.
inductive Turn (before : List Evt) (s : System Ref Instance) : Prop where
  | idle (plugging : s.plugging = false) (pending : s.pending = none) (running : s.running = []) (stash : s.stash = [])
      (results : resultsOf s.mailbox = []) (journal : s.journal = before ++ evtsOf s.taken)
      (served : Served before s.taken s.produced s.replies)
      (current : s.produced.getLast? = some (s.state.request, s.plugged))
  | persisting (front : List (Message Ref Instance)) (e : Evt) (sender : Ref) (written : Bool)
      (pending : s.pending = some ⟨e, sender, written⟩) (plugging : s.plugging = false) (running : s.running = [])
      (results : resultsOf s.mailbox = []) (taken : s.taken = front ++ [.evt e sender])
      (journal : s.journal = before ++ evtsOf (if written then s.taken else front))
      (served : Served before front s.produced s.replies)
  | starting (plugging : s.plugging = true) (pending : s.pending = none)
      (running : s.running = [⟨s.state.request, none, none⟩]) (results : resultsOf s.mailbox = []) (taken : s.taken = [])
      (journal : s.journal = before) (state : s.state = replayed before) (produced : s.produced = [])
      (replies : orderedReplies s.replies = [])
  | plugging (front : List (Message Ref Instance)) (e : Evt) (sender : Ref) (plugging : s.plugging = true)
      (pending : s.pending = none) (running : s.running = [⟨s.state.request, some sender, none⟩])
      (results : resultsOf s.mailbox = []) (taken : s.taken = front ++ [.evt e sender])
      (journal : s.journal = before ++ evtsOf s.taken) (state : s.state.request = e.requested)
      (served : Served before front s.produced s.replies)
  | completed (plugged : Plugged Instance) (replyTo : Option Ref) (plugging : s.plugging = true) (pending : s.pending = none)
      (running : s.running = []) (results : resultsOf s.mailbox = [.pluggingComplete plugged replyTo])
      (journal : s.journal = before ++ evtsOf s.taken)
      (served : Served before s.taken s.produced (s.replies ++ doneTo replyTo))
      (current : s.produced.getLast? = some (s.state.request, plugged))

structure Order (before : List Evt) (s : System Ref Instance) : Prop where
  recovered : s.recovering = none
  stash : ∀ m ∈ s.stash, m.isOrdered = true
  arrived : orderedOf s.arrived = s.taken ++ orderedOf (s.stash ++ s.mailbox)
  turn : Turn before s

section Serving

variable (before : List Evt) (commands : List (Message Ref Instance)) (produced : List (Option PlugRequest × Plugged Instance))
  (replies : List (Ref × Reply Instance))

theorem served_split (served : Served before commands produced replies) :
    ∃ first rest, produced = first :: rest ∧ (rest.map Prod.snd).length = (evtsOf commands).length := by
  obtain ⟨requests, _⟩ := served
  cases produced with
  | nil => simp at requests
  | cons first rest => exact ⟨first, rest, rfl, by simpa using congrArg List.length (List.cons.inj requests).2⟩

theorem last_plugged (first : Option PlugRequest × Plugged Instance) (rest : List (Option PlugRequest × Plugged Instance))
    (request : Option PlugRequest) (plugged : Plugged Instance)
    (current : (first :: rest).getLast? = some (request, plugged)) : (rest.map Prod.snd).getLastD first.2 = plugged := by
  rw [List.getLastD_eq_getLast?, List.getLast?_map]
  rw [List.getLast?_cons, Option.some.injEq] at current
  cases last : rest.getLast? with
  | none => simpa [last] using congrArg Prod.snd current
  | some x => simpa [last] using congrArg Prod.snd current

theorem served_get (sender : Ref) (request : Option PlugRequest) (plugged : Plugged Instance)
    (served : Served before commands produced replies) (current : produced.getLast? = some (request, plugged)) :
    Served before (commands ++ [.getPlugged sender]) produced (replies ++ [(sender, .plugged plugged)]) := by
  obtain ⟨first, rest, rfl, counted⟩ := served_split before commands produced replies served
  obtain ⟨requests, answered⟩ := served
  have more := answers_append first.2 commands [.getPlugged sender] (rest.map Prod.snd) [] counted
  rw [List.append_nil, last_plugged first rest request plugged current] at more
  refine ⟨by simpa [evtsOf] using requests, ?_⟩
  simp only [orderedReplies, List.filter_append, List.map_cons, answers, more] at answered ⊢
  rw [answered]
  rfl

theorem served_evt (e : Evt) (sender : Ref) (plugged : Plugged Instance) (served : Served before commands produced replies) :
    Served before (commands ++ [.evt e sender]) (produced ++ [(e.requested, plugged)]) (replies ++ doneTo (some sender)) := by
  obtain ⟨first, rest, rfl, counted⟩ := served_split before commands produced replies served
  obtain ⟨requests, answered⟩ := served
  have more := answers_append first.2 commands [.evt e sender] (rest.map Prod.snd) [plugged] counted
  refine ⟨by simpa [evtsOf] using requests, ?_⟩
  simp only [orderedReplies, List.filter_append, List.map_cons, List.cons_append, List.map_append, List.map_nil, answers,
    more] at answered ⊢
  rw [answered]
  rfl

theorem served_prefix (more : List (Message Ref Instance)) (served : Served before commands produced replies) :
    produced.map Prod.fst <+: (replayed before).request :: (evtsOf (commands ++ more)).map Evt.requested ∧
      orderedReplies replies <+: answers (produced.map Prod.snd) (commands ++ more) := by
  obtain ⟨first, rest, rfl, counted⟩ := served_split before commands produced replies served
  obtain ⟨requests, answered⟩ := served
  have all := answers_append first.2 commands more (rest.map Prod.snd) [] counted
  rw [List.append_nil] at all
  constructor
  · rw [requests]
    simp [evtsOf]
  · rw [answered]
    simp only [List.map_cons, answers, all]
    exact List.prefix_append _ _

end Serving

theorem ordered_not_result (m : Message Ref Instance) (ordered : m.isOrdered = true) : m.isResult = false := by
  cases m <;> simp_all [Message.isOrdered, Message.isResult]

theorem results_append (front back : List (Message Ref Instance)) :
    resultsOf (front ++ back) = resultsOf front ++ resultsOf back := List.filter_append _ _

theorem results_of_ordered (messages : List (Message Ref Instance)) (ordered : ∀ m ∈ messages, m.isOrdered = true) :
    resultsOf messages = [] := by
  rw [resultsOf, List.filter_eq_nil_iff]
  intro m member
  simp [ordered_not_result m (ordered m member)]

theorem turn_mailbox (before : List Evt) (s : System Ref Instance) (mailbox arrived : List (Message Ref Instance))
    (turn : Turn before s) (same : resultsOf mailbox = resultsOf s.mailbox) :
    Turn before { s with mailbox := mailbox, arrived := arrived } := by
  cases turn with
  | idle plugging pending running stash results journal served current =>
      exact .idle plugging pending running stash (same.trans results) journal served current
  | persisting front e sender written pending plugging running results taken journal served =>
      exact .persisting front e sender written pending plugging running (same.trans results) taken journal served
  | starting plugging pending running results taken journal state produced replies =>
      exact .starting plugging pending running (same.trans results) taken journal state produced replies
  | plugging front e sender plugging pending running results taken journal state served =>
      exact .plugging front e sender plugging pending running (same.trans results) taken journal state served
  | completed plugged replyTo plugging pending running results journal served current =>
      exact .completed plugged replyTo plugging pending running (same.trans results) journal served current

theorem arrive_order (before : List Evt) (s : System Ref Instance) (m : Message Ref Instance) (order : Order before s)
    (command : m.isResult = false) :
    Order before { s with mailbox := s.mailbox ++ [m], arrived := s.arrived ++ [m] } := by
  refine ⟨order.recovered, order.stash, ?_, ?_⟩
  · have arrived := order.arrived
    simp only [orderedOf, List.filter_append] at arrived ⊢
    rw [arrived]
    simp [List.append_assoc]
  · refine turn_mailbox before s _ _ order.turn ?_
    simp [resultsOf, command]

theorem query_order (before : List Evt) (s : System Ref Instance) (sender : Ref) (rest : List (Message Ref Instance))
    (order : Order before s) (head : s.mailbox = .query sender :: rest) :
    Order before ({ s with mailbox := rest }.receiveCommand (.query sender)) := by
  have unordered : orderedReplies (s.replies ++ [(sender, .queryResponse s.state.request)]) = orderedReplies s.replies := by
    simp [orderedReplies, Reply.isOrdered]
  have results : resultsOf rest = resultsOf s.mailbox := by simp [head, resultsOf, Message.isResult]
  refine ⟨order.recovered, order.stash, ?_, ?_⟩
  · refine Eq.trans order.arrived ?_
    simp [head, orderedOf, Message.isOrdered, System.receiveCommand]
  cases turn_mailbox before s rest s.arrived order.turn results with
  | idle plugging pending running stash results journal served current =>
      exact .idle plugging pending running stash results journal ⟨served.1, unordered.trans served.2⟩ current
  | persisting front e ref written pending plugging running results taken journal served =>
      exact .persisting front e ref written pending plugging running results taken journal
        ⟨served.1, unordered.trans served.2⟩
  | starting plugging pending running results taken journal state produced replies =>
      exact .starting plugging pending running results taken journal state produced (unordered.trans replies)
  | plugging front e ref plugging pending running results taken journal state served =>
      exact .plugging front e ref plugging pending running results taken journal state ⟨served.1, unordered.trans served.2⟩
  | completed plugged replyTo plugging pending running results journal served current =>
      refine .completed plugged replyTo plugging pending running results journal ⟨served.1, ?_⟩ current
      refine Eq.trans ?_ served.2
      simp only [orderedReplies, List.filter_append, System.receiveCommand] at unordered ⊢
      rw [unordered]

theorem stash_order (before : List Evt) (s : System Ref Instance) (m : Message Ref Instance)
    (rest : List (Message Ref Instance)) (order : Order before s) (head : s.mailbox = m :: rest)
    (ordered : m.isOrdered = true) (plugging : s.plugging = true) :
    Order before { s with mailbox := rest, stash := s.stash ++ [m] } := by
  have results : resultsOf rest = resultsOf s.mailbox := by
    simp [head, resultsOf, ordered_not_result m ordered]
  refine ⟨order.recovered, ?_, ?_, ?_⟩
  · intro other member
    rcases List.mem_append.mp member with old | new
    · exact order.stash other old
    · rwa [List.mem_singleton.mp new]
  · refine Eq.trans order.arrived ?_
    simp [head]
  cases turn_mailbox before s rest s.arrived order.turn results with
  | idle free => simp [plugging] at free
  | persisting front e ref written pending free => simp [plugging] at free
  | starting plugging pending running results taken journal state produced replies =>
      exact .starting plugging pending running results taken journal state produced replies
  | plugging front e ref plugging pending running results taken journal state served =>
      exact .plugging front e ref plugging pending running results taken journal state served
  | completed plugged replyTo plugging pending running results journal served current =>
      exact .completed plugged replyTo plugging pending running results journal served current

-- A command is only taken between two events, when nothing is stashed.
theorem take_order (before : List Evt) (s : System Ref Instance) (m : Message Ref Instance)
    (rest : List (Message Ref Instance)) (order : Order before s) (head : s.mailbox = m :: rest)
    (ordered : m.isOrdered = true) (free : s.plugging = false) (quiet : s.pending = none) :
    Order before ({ s with mailbox := rest }.receiveCommand m) := by
  have same : resultsOf rest = resultsOf s.mailbox := by
    simp [head, resultsOf, ordered_not_result m ordered]
  have first : orderedOf (m :: rest) = m :: orderedOf rest := List.filter_cons_of_pos ordered
  have arrived := order.arrived
  cases order.turn with
  | idle plugging pending running stash results journal served current =>
      rw [head, stash, List.nil_append, first] at arrived
      cases m with
      | getPlugged sender =>
          simp only [System.receiveCommand, free, Bool.false_eq_true, if_false]
          refine ⟨order.recovered, order.stash, ?_, ?_⟩
          · refine Eq.trans arrived ?_
            simp [stash]
          · refine .idle rfl pending running stash (same.trans results) ?_
              (served_get before s.taken s.produced s.replies sender _ _ served current) current
            rw [journal]
            simp [evtsOf]
      | evt e sender =>
          simp only [System.receiveCommand, free, Bool.false_eq_true, if_false]
          refine ⟨order.recovered, order.stash, ?_, ?_⟩
          · refine Eq.trans arrived ?_
            simp [stash]
          · exact .persisting s.taken e sender false rfl rfl running (same.trans results) rfl journal served
      | pluggingComplete plugged replyTo => cases ordered
      | failure => cases ordered
      | query sender => cases ordered
  | persisting front e ref written pending => simp [quiet] at pending
  | starting plugging => simp [free] at plugging
  | plugging front e ref plugging => simp [free] at plugging
  | completed plugged replyTo plugging => simp [free] at plugging

-- The only result there ever is is the completion of the one plugging.
theorem result_order (before : List Evt) (s : System Ref Instance) (m : Message Ref Instance)
    (rest : List (Message Ref Instance)) (order : Order before s) (head : s.mailbox = m :: rest)
    (result : m.isResult = true) : Order before ({ s with mailbox := rest }.receiveCommand m) := by
  have first : resultsOf s.mailbox = m :: resultsOf rest := by rw [head, resultsOf, List.filter_cons_of_pos result, resultsOf]
  have arrived := order.arrived
  have stashed := results_of_ordered s.stash order.stash
  cases order.turn with
  | completed plugged replyTo plugging pending running results journal served current =>
      rw [first, List.cons.injEq] at results
      obtain ⟨rfl, none⟩ := results
      refine ⟨order.recovered, by simp [System.receiveCommand], ?_, ?_⟩
      · refine Eq.trans arrived ?_
        simp [head, orderedOf, Message.isOrdered, System.receiveCommand]
      · refine .idle rfl pending running rfl ?_ journal served current
        simp only [System.receiveCommand, results_append, stashed, none, List.append_nil]
  | idle plugging pending running stash results => simp [first] at results
  | persisting front e ref written pending plugging running results => simp [first] at results
  | starting plugging pending running results => simp [first] at results
  | plugging front e ref plugging pending running results => simp [first] at results

theorem receive_order (before : List Evt) (s : System Ref Instance) (m : Message Ref Instance)
    (rest : List (Message Ref Instance)) (order : Order before s) (head : s.mailbox = m :: rest) (idle : s.pending = none) :
    Order before ({ s with mailbox := rest }.receiveCommand m) := by
  have take : m.isOrdered = true → ¬ s.plugging = true → Order before ({ s with mailbox := rest }.receiveCommand m) :=
    fun ordered free => take_order before s m rest order head ordered (by simpa using free) idle
  cases m with
  | query sender => exact query_order before s sender rest order head
  | pluggingComplete plugged replyTo => exact result_order before s _ rest order head rfl
  | failure => exact result_order before s _ rest order head rfl
  | getPlugged sender =>
      by_cases plugging : s.plugging = true
      · rw [System.receiveCommand, if_pos plugging]
        exact stash_order before s _ rest order head rfl plugging
      · exact take rfl plugging
  | evt e sender =>
      by_cases plugging : s.plugging = true
      · rw [System.receiveCommand, if_pos plugging]
        exact stash_order before s _ rest order head rfl plugging
      · exact take rfl plugging

theorem persist_order (before : List Evt) (s : System Ref Instance) (e : Evt) (sender : Ref) (order : Order before s)
    (persisting : s.pending = some ⟨e, sender, false⟩) :
    Order before { s with journal := s.journal ++ [e], pending := some ⟨e, sender, true⟩ } := by
  refine ⟨order.recovered, order.stash, order.arrived, ?_⟩
  cases order.turn with
  | persisting front other ref written pending plugging running results taken journal served =>
      rw [persisting, Option.some.injEq, Pending.mk.injEq] at pending
      obtain ⟨rfl, rfl, rfl⟩ := pending
      refine .persisting front e sender true rfl plugging running results taken ?_ served
      simp only [Bool.false_eq_true, if_false] at journal
      simp [journal, taken, evtsOf]
  | _ => simp_all

theorem handle_order (before : List Evt) (s : System Ref Instance) (e : Evt) (sender : Ref) (order : Order before s)
    (persisted : s.pending = some ⟨e, sender, true⟩) :
    Order before ({ s with state := updateState s.state e, pending := none }.doPlugging (some sender)) := by
  refine ⟨order.recovered, order.stash, order.arrived, ?_⟩
  cases order.turn with
  | persisting front other ref written pending plugging running results taken journal served =>
      rw [persisted, Option.some.injEq, Pending.mk.injEq] at pending
      obtain ⟨rfl, rfl, rfl⟩ := pending
      refine .plugging front e sender rfl rfl ?_ results taken journal ?_ served
      · simp [System.doPlugging, running]
      · cases e <;> rfl
  | _ => simp_all

theorem only_element {α : Type} (x y : α) (index : Nat) (here : [x][index]? = some y) : index = 0 ∧ x = y := by
  cases index with
  | zero => exact ⟨rfl, by simpa using here⟩
  | succ index => simp at here

theorem complete_order (before : List Evt) (s : System Ref Instance) (p : Plugging Ref Instance) (index : Nat)
    (plugged : Plugged Instance) (order : Order before s) (here : s.running[index]? = some p) :
    Order before { s with
      running := s.running.eraseIdx index
      mailbox := s.mailbox ++ [.pluggingComplete plugged p.replyTo]
      produced := s.produced ++ [(p.request, plugged)] } := by
  have delivered : ∀ replyTo, resultsOf s.mailbox = [] →
      resultsOf (s.mailbox ++ [.pluggingComplete plugged replyTo]) = [.pluggingComplete plugged replyTo] := by
    intro replyTo none
    rw [results_append, none]
    rfl
  refine ⟨order.recovered, order.stash, ?_, ?_⟩
  · refine Eq.trans order.arrived ?_
    simp [orderedOf, Message.isOrdered]
  cases order.turn with
  | starting plugging pending running results taken journal state produced replies =>
      rw [running] at here
      obtain ⟨rfl, rfl⟩ := only_element _ p index here
      refine .completed plugged none plugging pending (by simp [running]) (delivered none results) ?_ ⟨?_, ?_⟩ (by simp)
      · simpa [taken, evtsOf] using journal
      · simp [produced, taken, state, evtsOf]
      · simpa [produced, taken, doneTo, answers, answersFrom] using replies
  | plugging front e sender plugging pending running results taken journal state served =>
      rw [running] at here
      obtain ⟨rfl, rfl⟩ := only_element _ p index here
      refine .completed plugged (some sender) plugging pending (by simp [running]) (delivered (some sender) results) journal
        ?_ (by simp)
      simp only [taken, state]
      exact served_evt before front s.produced s.replies e sender plugged served
  | idle plugging pending running => simp [running] at here
  | persisting front e ref written pending plugging running => simp [running] at here
  | completed plugged replyTo plugging pending running => simp [running] at here

theorem step_order (before : List Evt) (s : System Ref Instance) (event : Event Ref Instance Previous)
    (next : System Ref Instance) (order : Order before s) (succeeds : Succeeds s event) (stepped : step s event = some next) :
    Order before next := by
  cases event with
  | arrive m =>
      simp only [step, Option.ite_none_left_eq_some, Option.some.injEq, Bool.not_eq_true] at stepped
      obtain ⟨command, rfl⟩ := stepped
      exact arrive_order before s m order command
  | receive =>
      simp only [step] at stepped
      split at stepped
      · rename_i m rest _ idle head
        rw [Option.some.injEq] at stepped
        subst stepped
        exact receive_order before s m rest order head idle
      · simp at stepped
  | persist =>
      simp only [step] at stepped
      split at stepped
      · rename_i e sender pending
        rw [Option.some.injEq] at stepped
        subst stepped
        exact persist_order before s e sender order pending
      · simp at stepped
  | handle =>
      simp only [step] at stepped
      split at stepped
      · rename_i e sender pending
        rw [Option.some.injEq] at stepped
        subst stepped
        exact handle_order before s e sender order pending
      · simp at stepped
  | complete index world =>
      simp only [step] at stepped
      split at stepped
      · simp at stepped
      · rename_i p here
        have completes := succeeds p here
        split at stepped
        · rename_i plugged outcome
          rw [Option.some.injEq] at stepped
          subst stepped
          exact complete_order before s p index plugged order here
        · rename_i error outcome
          simp [outcome, Except.isOk, Except.toBool] at completes
  | recover => simp [step, order.recovered] at stepped
  | restart => cases succeeds
  | crash => cases succeeds

theorem recovered_order (before : List Evt) : Order before (recovered before : System Ref Instance) := by
  refine ⟨rfl, by simp [recovered], rfl, ?_⟩
  exact .starting rfl rfl rfl rfl rfl rfl rfl rfl rfl

theorem reachable_order (before : List Evt) (events : List (Event Ref Instance Previous)) (s : System Ref Instance)
    (ran : (service Ref Instance Previous before).run (recovered before) events = some s)
    (succeeds : (service Ref Instance Previous before).Meets Succeeds (recovered before) events) : Order before s :=
  run_keeps_guarded (service Ref Instance Previous before) Succeeds (Order before)
    (fun s event next order met stepped => step_order before s event next order met stepped) (recovered before) s events
    (recovered_order before) succeeds ran

-- Where the class of a request is to come from.
def PlugRequest.loader (r : PlugRequest) : ClassLoader :=
  match r.classLoader with
  | some jars => .parentLast jars
  | none => .parent

-- What a request is to be plugged with: the plug method of a new instance of its class, loaded from its jars, has returned
-- it; without a request it is the void one.
def Instantiated (world : World Instance Previous) (request : Option PlugRequest) (previous plugged : Plugged Instance) : Prop :=
  match request with
  | none => plugged = .void
  | some r => ∃ pluggable unplugged, (∀ jars ∈ r.classLoader, world.parentLastUrlClassloader jars = .ok ()) ∧
      world.newInstance r.loader r.className = .ok pluggable ∧ previous.preUnplug world = .ok unplugged ∧
      pluggable { previous := unplugged, classLoader := r.loader } = .ok plugged

-- The pluggings of a run in their order, each with the world it met and what was plugged before it.
def Chained : List (World Instance Previous) → Plugged Instance → List (Option PlugRequest × Plugged Instance) → Prop
  | [], _, [] => True
  | world :: worlds, previous, (request, plugged) :: rest => Instantiated world request previous plugged ∧ Chained worlds plugged rest
  | _, _, _ => False

def worldOf : Event Ref Instance Previous → Option (World Instance Previous)
  | .complete _ world => some world
  | _ => none

def worldsOf (events : List (Event Ref Instance Previous)) : List (World Instance Previous) := events.filterMap worldOf

def System.lastPlugged (s : System Ref Instance) : Plugged Instance := (s.produced.map Prod.snd).getLastD .void

theorem plugs_instantiated (world : World Instance Previous) (request : Option PlugRequest) (previous plugged : Plugged Instance)
    (plugs : world.plugs request previous = .ok plugged) : Instantiated world request previous plugged := by
  unfold World.plugs at plugs
  obtain ⟨⟨pluggable, cl⟩, loads, plugs⟩ := (bind_ok _ _ _).mp plugs
  obtain ⟨unplugged, unplugs, plugs⟩ := (bind_ok _ _ _).mp plugs
  cases request with
  | none =>
      obtain ⟨rfl, rfl⟩ := Prod.mk.inj (Except.ok.inj loads)
      exact (Except.ok.inj plugs).symm
  | some r =>
      obtain ⟨classLoader, className⟩ := r
      cases classLoader with
      | none =>
          obtain ⟨loader, resolves, loads⟩ := (bind_ok _ _ _).mp loads
          obtain ⟨i, instantiates, loads⟩ := (bind_ok _ _ _).mp loads
          obtain ⟨rfl, rfl⟩ := Prod.mk.inj (Except.ok.inj loads)
          obtain rfl := Except.ok.inj resolves
          exact ⟨i, unplugged, by simp, instantiates, unplugs, plugs⟩
      | some jars =>
          obtain ⟨loader, resolves, loads⟩ := (bind_ok _ _ _).mp loads
          obtain ⟨i, instantiates, loads⟩ := (bind_ok _ _ _).mp loads
          obtain ⟨rfl, rfl⟩ := Prod.mk.inj (Except.ok.inj loads)
          obtain ⟨_, found, rfl⟩ := (map_ok _ _ _).mp resolves
          exact ⟨i, unplugged, by simpa using found, instantiates, unplugs, plugs⟩

theorem chained_append (worlds : List (World Instance Previous)) (world : World Instance Previous) (first plugged : Plugged Instance)
    (produced : List (Option PlugRequest × Plugged Instance)) (request : Option PlugRequest) (chained : Chained worlds first produced)
    (last : Instantiated world request ((produced.map Prod.snd).getLastD first) plugged) :
    Chained (worlds ++ [world]) first (produced ++ [(request, plugged)]) := by
  induction produced generalizing worlds first with
  | nil =>
      cases worlds with
      | nil => exact ⟨last, trivial⟩
      | cons other rest => exact chained.elim
  | cons x rest ih =>
      obtain ⟨asked, current⟩ := x
      cases worlds with
      | nil => exact chained.elim
      | cons other worlds =>
          refine ⟨chained.1, ih worlds current chained.2 ?_⟩
          simpa [List.getLastD_eq_getLast?, List.getLast?_cons] using last

-- current: what has been received is what was plugged last.
structure Instances (worlds : List (World Instance Previous)) (s : System Ref Instance) : Prop where
  chained : Chained worlds .void s.produced
  current : resultsOf s.mailbox = [] → s.plugged = s.lastPlugged

theorem turn_results (before : List Evt) (s : System Ref Instance) (turn : Turn before s) :
    resultsOf s.mailbox = [] ∨ ∃ plugged replyTo, resultsOf s.mailbox = [.pluggingComplete plugged replyTo] ∧ plugged = s.lastPlugged := by
  cases turn with
  | idle plugging pending running stash results => exact .inl results
  | persisting front e sender written pending plugging running results => exact .inl results
  | starting plugging pending running results => exact .inl results
  | plugging front e sender plugging pending running results => exact .inl results
  | completed plugged replyTo plugging pending running results journal served current =>
      refine .inr ⟨plugged, replyTo, results, ?_⟩
      simp [System.lastPlugged, List.getLastD_eq_getLast?, List.getLast?_map, current]

theorem receive_current (before : List Evt) (s : System Ref Instance) (m : Message Ref Instance) (rest : List (Message Ref Instance))
    (order : Order before s) (head : s.mailbox = m :: rest) (current : resultsOf s.mailbox = [] → s.plugged = s.lastPlugged) :
    resultsOf ({ s with mailbox := rest }.receiveCommand m).mailbox = [] →
      ({ s with mailbox := rest }.receiveCommand m).plugged = s.lastPlugged := by
  have waiting := turn_results before s order.turn
  rw [head] at current waiting
  cases m with
  | pluggingComplete plugged replyTo =>
      have first : resultsOf (.pluggingComplete plugged replyTo :: rest) = .pluggingComplete plugged replyTo :: resultsOf rest :=
        List.filter_cons_of_pos rfl
      rcases waiting with none | ⟨other, target, one, last⟩
      · rw [first] at none
        cases none
      · rw [first] at one
        injection (List.cons.inj one).1 with same
        exact fun _ => same.trans last
  | failure =>
      have first : resultsOf (.failure :: rest : List (Message Ref Instance)) = .failure :: resultsOf rest := List.filter_cons_of_pos rfl
      rcases waiting with none | ⟨other, target, one, _⟩
      · rw [first] at none
        cases none
      · rw [first] at one
        cases one
  | getPlugged sender =>
      simp only [System.receiveCommand]
      split <;> exact fun none => current none
  | evt e sender =>
      simp only [System.receiveCommand]
      split <;> exact fun none => current none
  | query sender => exact fun none => current none

theorem receive_produced (s : System Ref Instance) (m : Message Ref Instance) : (s.receiveCommand m).produced = s.produced := by
  cases m <;> simp only [System.receiveCommand] <;> split <;> rfl

theorem complete_instances (before : List Evt) (worlds : List (World Instance Previous)) (s next : System Ref Instance) (index : Nat)
    (world : World Instance Previous) (order : Order before s) (instances : Instances worlds s)
    (succeeds : Succeeds s (.complete index world)) (stepped : step s (.complete index world) = some next) :
    Instances (worlds ++ [world]) next := by
  simp only [step] at stepped
  split at stepped
  · cases stepped
  · rename_i p here
    have succeeded := succeeds p here
    obtain ⟨stale, quiet⟩ : p.stale = none ∧ resultsOf s.mailbox = [] := by
      cases order.turn with
      | starting plugging pending running results =>
          rw [running] at here
          obtain ⟨rfl, rfl⟩ := only_element _ p index here
          exact ⟨rfl, results⟩
      | plugging front e sender plugging pending running results =>
          rw [running] at here
          obtain ⟨rfl, rfl⟩ := only_element _ p index here
          exact ⟨rfl, results⟩
      | idle plugging pending running => simp [running] at here
      | persisting front e sender written pending plugging running => simp [running] at here
      | completed plugged replyTo plugging pending running => simp [running] at here
    rw [stale, Option.getD_none] at succeeded stepped
    split at stepped
    · rename_i plugged outcome
      rw [← Option.some.inj stepped]
      refine ⟨?_, fun none => ?_⟩
      · have plugs := plugs_instantiated world p.request s.plugged plugged outcome
        rw [instances.current quiet] at plugs
        exact chained_append worlds world .void plugged s.produced p.request instances.chained plugs
      · simp [resultsOf, Message.isResult] at none
    · rename_i outcome
      simp [outcome, Except.isOk, Except.toBool] at succeeded

theorem step_instances (before : List Evt) (worlds : List (World Instance Previous)) (s next : System Ref Instance)
    (event : Event Ref Instance Previous) (order : Order before s) (instances : Instances worlds s) (succeeds : Succeeds s event)
    (stepped : step s event = some next) : Instances (worlds ++ (worldOf event).toList) next := by
  cases event with
  | complete index world => exact complete_instances before worlds s next index world order instances succeeds stepped
  | arrive m =>
      obtain ⟨command, same⟩ := Option.ite_none_left_eq_some.mp stepped
      rw [← Option.some.inj same]
      refine ⟨by simpa [worldOf] using instances.chained, fun none => instances.current ?_⟩
      rw [results_append, List.append_eq_nil_iff] at none
      exact none.1
  | receive =>
      simp only [step] at stepped
      split at stepped
      · rename_i m rest _ idle head
        rw [← Option.some.inj stepped]
        refine ⟨by simpa [receive_produced, worldOf] using instances.chained, ?_⟩
        have current := receive_current before s m rest order head instances.current
        simpa only [System.lastPlugged, receive_produced] using current
      · cases stepped
  | persist =>
      simp only [step] at stepped
      split at stepped
      · rw [← Option.some.inj stepped]
        exact ⟨by simpa [worldOf] using instances.chained, instances.current⟩
      · cases stepped
  | handle =>
      simp only [step] at stepped
      split at stepped
      · rw [← Option.some.inj stepped]
        exact ⟨by simpa [worldOf, System.doPlugging] using instances.chained, instances.current⟩
      · cases stepped
  | recover => simp [step, order.recovered] at stepped
  | restart => exact succeeds.elim
  | crash => exact succeeds.elim

theorem run_instances (before : List Evt) (worlds : List (World Instance Previous)) (events : List (Event Ref Instance Previous))
    (s final : System Ref Instance) (order : Order before s) (instances : Instances worlds s)
    (succeeds : (service Ref Instance Previous before).Meets Succeeds s events)
    (ran : (service Ref Instance Previous before).run s events = some final) : Instances (worlds ++ worldsOf events) final := by
  induction events generalizing s worlds with
  | nil =>
      obtain rfl := Option.some.inj ran
      simpa [worldsOf] using instances
  | cons event rest ih =>
      obtain ⟨next, stepped, later⟩ := Option.bind_eq_some_iff.mp ran
      have after := step_instances before worlds s next event order instances succeeds.1 stepped
      have all := ih (worlds ++ (worldOf event).toList) next (step_order before s event next order succeeds.1 stepped) after
        (succeeds.2 next stepped) later
      have first : worldsOf (event :: rest) = (worldOf event).toList ++ worldsOf rest := by
        cases event <;> rfl
      rwa [first, ← List.append_assoc]

theorem turn_front (before : List Evt) (s : System Ref Instance) (turn : Turn before s) :
    (s.produced = [] ∧ orderedReplies s.replies = [] ∧ s.journal = before) ∨
      ∃ front rest, s.taken = front ++ rest ∧ s.journal <+: before ++ evtsOf s.taken ∧
        ∃ more, Served before front s.produced (s.replies ++ more) := by
  cases turn with
  | idle plugging pending running stash results journal served current =>
      exact .inr ⟨s.taken, [], by simp, by simp [journal], [], by simpa using served⟩
  | persisting front e sender written pending plugging running results taken journal served =>
      refine .inr ⟨front, _, taken, ?_, [], by simpa using served⟩
      cases written <;> simp [journal, taken, evtsOf]
  | starting plugging pending running results taken journal state produced replies =>
      exact .inl ⟨produced, replies, journal⟩
  | plugging front e sender plugging pending running results taken journal state served =>
      exact .inr ⟨front, _, taken, by simp [journal], [], by simpa using served⟩
  | completed plugged replyTo plugging pending running results journal served current =>
      exact .inr ⟨s.taken, [], by simp, by simp [journal], doneTo replyTo, served⟩

theorem evts_ordered (commands : List (Message Ref Instance)) : evtsOf (orderedOf commands) = evtsOf commands := by
  induction commands with
  | nil => rfl
  | cons m rest ih =>
      cases m <;> simp_all [evtsOf, orderedOf, List.filter_cons, Message.isOrdered]

theorem answers_arrived (instances : List (Plugged Instance)) (commands : List (Message Ref Instance)) :
    answers instances (orderedOf commands) = answers instances commands := by
  cases instances with
  | nil => rfl
  | cons first rest => exact answers_ordered first commands rest

theorem order_prefix (before : List Evt) (s : System Ref Instance) (order : Order before s) :
    s.journal <+: before ++ evtsOf s.arrived ∧
      s.produced.map Prod.fst <+: (replayed before).request :: (evtsOf s.arrived).map Evt.requested ∧
      orderedReplies s.replies <+: answers (s.produced.map Prod.snd) s.arrived := by
  have arrived := order.arrived
  rw [← evts_ordered, ← answers_arrived, arrived]
  rcases turn_front before s order.turn with ⟨produced, replies, journal⟩ | ⟨front, rest, taken, journal, more, served⟩
  · simp [produced, replies, journal]
  · refine ⟨journal.trans (by simp [evtsOf]), ?_⟩
    rw [taken, List.append_assoc]
    obtain ⟨requests, answered⟩ := served_prefix before front s.produced _ (rest ++ orderedOf (s.stash ++ s.mailbox)) served
    refine ⟨requests, List.IsPrefix.trans ?_ answered⟩
    simp [orderedReplies]

theorem idle_turn (before : List Evt) (s : System Ref Instance) (turn : Turn before s) (free : s.plugging = false)
    (quiet : s.pending = none) :
    s.stash = [] ∧ s.journal = before ++ evtsOf s.taken ∧ Served before s.taken s.produced s.replies ∧
      s.produced.getLast? = some (s.state.request, s.plugged) := by
  cases turn with
  | idle plugging pending running stash results journal served current => exact ⟨stash, journal, served, current⟩
  | persisting front e sender written pending => simp [quiet] at pending
  | starting plugging => simp [free] at plugging
  | plugging front e sender plugging => simp [free] at plugging
  | completed plugged replyTo plugging => simp [free] at plugging

-- All that can happen is that another command arrives.
def Settled (Previous : Type) (s : System Ref Instance) : Prop :=
  ∀ (event : Event Ref Instance Previous) (next : System Ref Instance), Succeeds s event → step s event = some next →
    ∃ m, event = .arrive m

def plainWorld : World Instance Previous := ⟨fun _ => .ok (), fun _ _ => .ok voidPluggable, fun _ => .ok none⟩

theorem plain_world_plugs (request : Option PlugRequest) (plugged : Plugged Instance) :
    (plainWorld : World Instance Previous).plugs request plugged = .ok .void := by
  have unplugged : plugged.preUnplug (plainWorld : World Instance Previous) = .ok none := by cases plugged <;> rfl
  cases request with
  | none => simp only [World.plugs, World.load, unplugged]; rfl
  | some r =>
      obtain ⟨classLoader, className⟩ := r
      cases classLoader <;> (simp only [World.plugs, unplugged]; rfl)

theorem running_unsettled (s : System Ref Instance) (p : Plugging Ref Instance) (running : s.running = [p]) :
    ¬ Settled Previous s := by
  intro settled
  have outcome : (plainWorld : World Instance Previous).plugs p.request (p.stale.getD s.plugged) = .ok .void :=
    plain_world_plugs p.request (p.stale.getD s.plugged)
  obtain ⟨m, arrives⟩ := settled (.complete 0 plainWorld) _
    (fun other here => by simp [running] at here; rw [← here, outcome]; rfl)
    (by simp only [step, running, List.getElem?_cons_zero, outcome]; rfl)
  cases arrives

theorem received_unsettled (s : System Ref Instance) (recovered : s.recovering = none) (idle : s.pending = none)
    (settled : Settled Previous s) : s.mailbox = [] := by
  cases head : s.mailbox with
  | nil => rfl
  | cons m rest =>
      obtain ⟨_, arrives⟩ := settled .receive _ trivial (by simp only [step, recovered, idle, head]; rfl)
      cases arrives

theorem settled_idle (before : List Evt) (s : System Ref Instance) (order : Order before s)
    (settled : Settled Previous s) : s.plugging = false ∧ s.pending = none ∧ s.mailbox = [] := by
  cases order.turn with
  | idle plugging pending => exact ⟨plugging, pending, received_unsettled s order.recovered pending settled⟩
  | persisting front e sender written pending =>
      cases written with
      | false =>
          obtain ⟨_, arrives⟩ := settled .persist _ trivial (by simp only [step, pending]; rfl)
          cases arrives
      | true =>
          obtain ⟨_, arrives⟩ := settled .handle _ trivial (by simp only [step, pending]; rfl)
          cases arrives
  | starting plugging pending running => exact absurd settled (running_unsettled s _ running)
  | plugging front e sender plugging pending running => exact absurd settled (running_unsettled s _ running)
  | completed plugged replyTo plugging pending running results =>
      have empty := received_unsettled s order.recovered pending settled
      simp [empty, resultsOf] at results

-- Every class has its own instance.
def byName : World Nat Unit := { plainWorld with newInstance := fun _ name => .ok (fun _ => .ok (.of name.length)) }

end Toolbox8.PluggableService
