import Mathlib.Data.List.Nodup
import Mathlib.Logic.Function.Basic
import Toolbox8.Base.Transition

set_option autoImplicit false

namespace Toolbox8.PubSubActor

open Base

variable {Msg : Type}

inductive ActorRef
  | actor (id : Nat)
  | publisher (id : Nat)
deriving DecidableEq, Repr

-- What an actor can be told: the Done that answers a command, or a message.
inductive Signal (Msg : Type)
  | done
  | msg (m : Msg)
deriving DecidableEq, Repr

inductive Command (Msg : Type)
  | subscribe (ref : ActorRef)
  | unsubscribe (ref : ActorRef)
  | publish (msg : Signal Msg)
deriving DecidableEq, Repr

-- state.refs is a set; a ref that is in it is not added again.
def receive (refs : List ActorRef) (sender : ActorRef) : Command Msg → List ActorRef × List (ActorRef × Signal Msg)
  | .subscribe ref => (if ref ∈ refs then refs else refs ++ [ref], [(sender, .done)])
  | .unsubscribe ref => (refs.filter (fun r => r ≠ ref), [(sender, .done)])
  | .publish m => (refs, refs.map (fun ref => (ref, m)))

-- PubSubPublisherActor.receive: any message, a Done as well.
def forward (m : Signal Msg) : Command Msg := .publish m

-- Messages from one actor to another one keep their order. log are the commands in the order in which the actor has
-- handled them; sent and given are all that its senders have sent it and that the publishers have been told.
structure System (Msg : Type) where
  inbox : Nat → List (Signal Msg)
  inFlight : ActorRef → List (Command Msg)
  refs : List ActorRef
  outbound : ActorRef → List (Signal Msg)
  received : ActorRef → List (Signal Msg)
  given : Nat → List (Signal Msg)
  sent : ActorRef → List (Command Msg)
  log : List (ActorRef × Command Msg)

inductive Event (Msg : Type)
  | tell (id : Nat) (command : Command Msg)
  | give (id : Nat) (m : Signal Msg)
  | forward (id : Nat)
  | handle (sender : ActorRef)
  | deliver (ref : ActorRef)
deriving DecidableEq, Repr

def System.send (s : System Msg) (sender : ActorRef) (command : Command Msg) : System Msg :=
  { s with
    inFlight := Function.update s.inFlight sender (s.inFlight sender ++ [command])
    sent := Function.update s.sent sender (s.sent sender ++ [command]) }

def System.giveTo (s : System Msg) (id : Nat) (m : Signal Msg) : System Msg :=
  { s with
    inbox := Function.update s.inbox id (s.inbox id ++ [m])
    given := Function.update s.given id (s.given id ++ [m]) }

def System.take (s : System Msg) (id : Nat) (rest : List (Signal Msg)) : System Msg :=
  { s with inbox := Function.update s.inbox id rest }

def tells (signals : List (ActorRef × Signal Msg)) (ref : ActorRef) : List (Signal Msg) :=
  (signals.filter (fun signal => signal.1 = ref)).map Prod.snd

def System.answered (s : System Msg) (sender : ActorRef) (command : Command Msg) (rest : List (Command Msg)) :
    System Msg :=
  { s with
    inFlight := Function.update s.inFlight sender rest
    refs := (receive s.refs sender command).1
    outbound := fun ref => s.outbound ref ++ tells (receive s.refs sender command).2 ref
    log := s.log ++ [(sender, command)] }

def System.delivered (s : System Msg) (ref : ActorRef) (signal : Signal Msg) (rest : List (Signal Msg)) : System Msg :=
  { s with
    outbound := Function.update s.outbound ref rest
    received := Function.update s.received ref (s.received ref ++ [signal]) }

-- A publisher that is itself subscribed publishes what it is told once more.
def System.reaches (s : System Msg) (ref : ActorRef) (signal : Signal Msg) : System Msg :=
  match ref with
  | .actor _ => s
  | .publisher id => s.giveTo id signal

def step (s : System Msg) : Event Msg → Option (System Msg)
  | .tell id command => some (s.send (.actor id) command)
  | .give id m => some (s.giveTo id m)
  | .forward id =>
      match s.inbox id with
      | [] => none
      | m :: rest => some ((s.take id rest).send (.publisher id) (forward m))
  | .handle sender =>
      match s.inFlight sender with
      | [] => none
      | command :: rest => some (s.answered sender command rest)
  | .deliver ref =>
      match s.outbound ref with
      | [] => none
      | signal :: rest => some ((s.delivered ref signal rest).reaches ref signal)

def pubSub (Msg : Type) : Machine (System Msg) (Event Msg) where
  initial := ⟨fun _ => [], fun _ => [], [], fun _ => [], fun _ => [], fun _ => [], fun _ => [], []⟩
  step := step

-- One actor against the commands one after the other: is it subscribed, and what has it been told?
structure View (Msg : Type) where
  subscribed : Bool
  signals : List (Signal Msg)
deriving DecidableEq, Repr

-- What one command tells a subscriber, and what it tells an actor that is not subscribed.
def answer (ref : ActorRef) (entry : ActorRef × Command Msg) : List (Signal Msg) :=
  match entry.2 with
  | .publish _ => []
  | _ => if entry.1 = ref then [.done] else []

def heard (ref : ActorRef) (entry : ActorRef × Command Msg) : List (Signal Msg) :=
  match entry.2 with
  | .publish m => [m]
  | _ => answer ref entry

def View.after (ref : ActorRef) (v : View Msg) (entry : ActorRef × Command Msg) : View Msg where
  subscribed :=
    match entry.2 with
    | .subscribe r => v.subscribed || r = ref
    | .unsubscribe r => v.subscribed && r ≠ ref
    | .publish _ => v.subscribed
  signals := v.signals ++ if v.subscribed then heard ref entry else answer ref entry

def replay (ref : ActorRef) (log : List (ActorRef × Command Msg)) : View Msg := log.foldl (View.after ref) ⟨false, []⟩

def commandsOf (sender : ActorRef) (log : List (ActorRef × Command Msg)) : List (Command Msg) :=
  (log.filter (fun entry => entry.1 = sender)).map Prod.snd

section Replays

variable (ref : ActorRef) (log : List (ActorRef × Command Msg)) (entry : ActorRef × Command Msg)

theorem replay_snoc : replay ref (log ++ [entry]) = (replay ref log).after ref entry := by
  rw [replay, List.foldl_append]
  rfl

theorem commands_of_snoc (sender : ActorRef) :
    commandsOf sender (log ++ [entry]) = commandsOf sender log ++ if entry.1 = sender then [entry.2] else [] := by
  by_cases own : entry.1 = sender <;> simp [commandsOf, own]

theorem after_subscribed (v : View Msg) (on : v.subscribed = true) (kept : entry.2 ≠ .unsubscribe ref) :
    (v.after ref entry).subscribed = true := by
  obtain ⟨sender, command⟩ := entry
  cases command with
  | subscribe r => simp [View.after, on]
  | unsubscribe r =>
      have other : r ≠ ref := fun same => kept (by rw [same])
      simp [View.after, on, other]
  | publish m => simpa [View.after] using on

theorem after_unsubscribed (v : View Msg) (off : v.subscribed = false) (kept : entry.2 ≠ .subscribe ref) :
    (v.after ref entry).subscribed = false := by
  obtain ⟨sender, command⟩ := entry
  cases command with
  | subscribe r =>
      have other : r ≠ ref := fun same => kept (by rw [same])
      simp [View.after, off, other]
  | unsubscribe r => simp [View.after, off]
  | publish m => simpa [View.after] using off

theorem replay_stretch (b : Bool) (front stretch : List (ActorRef × Command Msg))
    (start : (replay ref front).subscribed = b)
    (stays : ∀ entry ∈ stretch, ∀ v : View Msg, v.subscribed = b → (v.after ref entry).subscribed = b) :
    (replay ref (front ++ stretch)).subscribed = b ∧
      (replay ref (front ++ stretch)).signals =
        (replay ref front).signals ++ stretch.flatMap (fun entry => if b then heard ref entry else answer ref entry) := by
  induction stretch generalizing front with
  | nil => simpa using start
  | cons entry rest ih =>
      have next : (replay ref (front ++ [entry])).subscribed = b := by
        rw [replay_snoc]
        exact stays entry (by simp) _ start
      obtain ⟨still, told⟩ := ih (front ++ [entry]) next (fun e member => stays e (by simp [member]))
      rw [List.append_assoc, List.singleton_append] at still told
      refine ⟨still, ?_⟩
      rw [told, replay_snoc]
      simp [View.after, start, List.append_assoc]

theorem replay_prefix (front back : List (ActorRef × Command Msg)) :
    ∃ later, (replay ref (front ++ back)).signals = (replay ref front).signals ++ later ∧ (back = [] → later = []) := by
  induction back generalizing front with
  | nil => exact ⟨[], by simp, fun _ => rfl⟩
  | cons entry rest ih =>
      obtain ⟨later, told, _⟩ := ih (front ++ [entry])
      rw [List.append_assoc, List.singleton_append, replay_snoc] at told
      exact ⟨(if (replay ref front).subscribed then heard ref entry else answer ref entry) ++ later,
        by rw [told, View.after, List.append_assoc], fun absurd => by simp at absurd⟩

theorem replay_since (b : Bool) (change : ActorRef × Command Msg) (front stretch back : List (ActorRef × Command Msg))
    (changes : ∀ v : View Msg, (v.after ref change).subscribed = b)
    (stays : ∀ entry ∈ stretch, ∀ v : View Msg, v.subscribed = b → (v.after ref entry).subscribed = b) :
    ∃ later, (replay ref (front ++ change :: (stretch ++ back))).signals =
        (replay ref (front ++ [change])).signals ++
          stretch.flatMap (fun entry => if b then heard ref entry else answer ref entry) ++ later ∧
      (back = [] → later = []) := by
  have start : (replay ref (front ++ [change])).subscribed = b := by
    rw [replay_snoc]
    exact changes _
  obtain ⟨_, told⟩ := replay_stretch ref b (front ++ [change]) stretch start stays
  obtain ⟨later, whole, last⟩ := replay_prefix ref (front ++ [change] ++ stretch) back
  have split : front ++ change :: (stretch ++ back) = front ++ [change] ++ stretch ++ back := by simp
  exact ⟨later, by rw [split, whole, told], last⟩

end Replays

-- The system is the commands one after the other, in an order that keeps that of each sender.
structure Sequential (s : System Msg) : Prop where
  distinct : s.refs.Nodup
  subscribed : ∀ ref, ref ∈ s.refs ↔ (replay ref s.log).subscribed = true
  signals : ∀ ref, s.received ref ++ s.outbound ref = (replay ref s.log).signals
  handled : ∀ sender, commandsOf sender s.log ++ s.inFlight sender = s.sent sender
  forwarded : ∀ id, s.sent (.publisher id) ++ (s.inbox id).map forward = (s.given id).map forward
  heardBack : ∀ id, (s.received (.publisher id)).Sublist (s.given id)

section Receives

variable (refs : List ActorRef) (sender ref : ActorRef) (command : Command Msg) (v : View Msg)

theorem receive_distinct (distinct : refs.Nodup) : (receive refs sender command).1.Nodup := by
  cases command with
  | subscribe ref =>
      by_cases known : ref ∈ refs
      · simpa [receive, known] using distinct
      · simp only [receive, known, if_false]
        exact List.Nodup.append distinct (List.nodup_singleton ref) (by simpa using known)
  | unsubscribe ref => exact distinct.filter _
  | publish m => exact distinct

theorem receive_subscribed (same : ref ∈ refs ↔ v.subscribed = true) :
    ref ∈ (receive refs sender command).1 ↔ (v.after ref (sender, command)).subscribed = true := by
  cases command with
  | subscribe r =>
      by_cases own : r = ref
      · subst own
        by_cases known : r ∈ refs <;> simp [receive, View.after, known]
      · by_cases known : r ∈ refs <;> simp [receive, View.after, known, own, same, Ne.symm own]
  | unsubscribe r =>
      by_cases own : r = ref
      · simp [receive, View.after, own]
      · simp [receive, View.after, own, same, Ne.symm own]
  | publish m => exact same

theorem receive_signals (distinct : refs.Nodup) (same : ref ∈ refs ↔ v.subscribed = true) :
    v.signals ++ tells (receive refs sender command).2 ref = (v.after ref (sender, command)).signals := by
  cases command with
  | subscribe r => by_cases own : sender = ref <;> simp [receive, View.after, tells, answer, heard, own]
  | unsubscribe r => by_cases own : sender = ref <;> simp [receive, View.after, tells, answer, heard, own]
  | publish m =>
      have told : tells (refs.map (fun r => (r, m))) ref = List.replicate (refs.count ref) m := by
        rw [tells, List.filter_map, List.map_map]
        simp [Function.comp_def, List.map_const', List.count, List.countP_eq_length_filter, beq_eq_decide]
      simp only [receive, View.after, told]
      by_cases known : ref ∈ refs
      · simp [List.count_eq_one_of_mem distinct known, same.mp known, heard]
      · have off : v.subscribed = false := by simpa [same] using known
        simp [List.count_eq_zero_of_not_mem known, off, answer]

end Receives

section Steps

variable (s next : System Msg)

theorem send_keeps (id : Nat) (command : Command Msg) (sequential : Sequential s) :
    Sequential (s.send (.actor id) command) where
  distinct := sequential.distinct
  subscribed := sequential.subscribed
  signals := sequential.signals
  handled := by
    intro sender
    by_cases own : sender = .actor id
    · subst own
      simp [System.send, ← sequential.handled]
    · simpa [System.send, own] using sequential.handled sender
  forwarded := by
    intro publisher
    simpa [System.send] using sequential.forwarded publisher
  heardBack := sequential.heardBack

theorem give_to_keeps (id : Nat) (m : Signal Msg) (sequential : Sequential s) : Sequential (s.giveTo id m) where
  distinct := sequential.distinct
  subscribed := sequential.subscribed
  signals := sequential.signals
  handled := sequential.handled
  forwarded := by
    intro publisher
    by_cases own : publisher = id
    · subst own
      simp [System.giveTo, ← sequential.forwarded]
    · simpa [System.giveTo, own] using sequential.forwarded publisher
  heardBack := by
    intro publisher
    by_cases own : publisher = id
    · subst own
      simpa [System.giveTo] using (sequential.heardBack publisher).trans (List.sublist_append_left _ _)
    · simpa [System.giveTo, own] using sequential.heardBack publisher

theorem forward_keeps (id : Nat) (m : Signal Msg) (rest : List (Signal Msg)) (sequential : Sequential s)
    (waits : s.inbox id = m :: rest) : Sequential ((s.take id rest).send (.publisher id) (forward m)) where
  distinct := sequential.distinct
  subscribed := sequential.subscribed
  signals := sequential.signals
  handled := by
    intro sender
    by_cases own : sender = .publisher id
    · subst own
      simp [System.send, System.take, ← sequential.handled]
    · simpa [System.send, System.take, own] using sequential.handled sender
  forwarded := by
    intro publisher
    by_cases own : publisher = id
    · subst own
      have before := sequential.forwarded publisher
      rw [waits] at before
      simpa [System.send, System.take] using before
    · simpa [System.send, System.take, own] using sequential.forwarded publisher
  heardBack := sequential.heardBack

theorem answered_keeps (sender : ActorRef) (command : Command Msg) (rest : List (Command Msg))
    (sequential : Sequential s) (waits : s.inFlight sender = command :: rest) :
    Sequential (s.answered sender command rest) where
  distinct := receive_distinct s.refs sender command sequential.distinct
  subscribed := by
    intro ref
    rw [System.answered, replay_snoc]
    exact receive_subscribed s.refs sender ref command _ (sequential.subscribed ref)
  signals := by
    intro ref
    rw [System.answered, replay_snoc]
    rw [← receive_signals s.refs sender ref command _ sequential.distinct (sequential.subscribed ref),
      ← sequential.signals ref, List.append_assoc]
  handled := by
    intro other
    rw [System.answered, commands_of_snoc]
    by_cases own : sender = other
    · subst own
      simp [← sequential.handled, waits]
    · simpa [own, Ne.symm own] using sequential.handled other
  forwarded := sequential.forwarded
  heardBack := sequential.heardBack

theorem deliver_keeps (ref : ActorRef) (signal : Signal Msg) (rest : List (Signal Msg)) (sequential : Sequential s)
    (waits : s.outbound ref = signal :: rest) : Sequential ((s.delivered ref signal rest).reaches ref signal) := by
  have signals : ∀ r, (s.delivered ref signal rest).received r ++ (s.delivered ref signal rest).outbound r =
      (replay r s.log).signals := by
    intro r
    by_cases own : r = ref
    · subst own
      simp [System.delivered, ← sequential.signals, waits]
    · simpa [System.delivered, own] using sequential.signals r
  cases ref with
  | actor id =>
      exact ⟨sequential.distinct, sequential.subscribed, signals, sequential.handled, sequential.forwarded,
        by simpa [System.reaches, System.delivered] using sequential.heardBack⟩
  | publisher id =>
      have given := give_to_keeps s id signal sequential
      refine ⟨sequential.distinct, sequential.subscribed, signals, sequential.handled, given.forwarded, ?_⟩
      intro publisher
      by_cases own : publisher = id
      · subst own
        simpa [System.reaches, System.delivered, System.giveTo] using (sequential.heardBack publisher).append_right [signal]
      · simpa [System.reaches, System.delivered, System.giveTo, own] using sequential.heardBack publisher

theorem step_keeps (event : Event Msg) (sequential : Sequential s) (stepped : step s event = some next) :
    Sequential next := by
  cases event with
  | tell id command =>
      obtain rfl := Option.some.inj stepped
      exact send_keeps s id command sequential
  | give id m =>
      obtain rfl := Option.some.inj stepped
      exact give_to_keeps s id m sequential
  | forward id =>
      cases waits : s.inbox id with
      | nil => simp [step, waits] at stepped
      | cons m rest =>
          rw [step, waits] at stepped
          obtain rfl := Option.some.inj stepped
          exact forward_keeps s id m rest sequential waits
  | handle sender =>
      cases waits : s.inFlight sender with
      | nil => simp [step, waits] at stepped
      | cons command rest =>
          rw [step, waits] at stepped
          obtain rfl := Option.some.inj stepped
          exact answered_keeps s sender command rest sequential waits
  | deliver ref =>
      cases waits : s.outbound ref with
      | nil => simp [step, waits] at stepped
      | cons signal rest =>
          rw [step, waits] at stepped
          obtain rfl := Option.some.inj stepped
          exact deliver_keeps s ref signal rest sequential waits

theorem reachable_sequential (reached : (pubSub Msg).Reachable s) : Sequential s := by
  apply reachable_keeps (pubSub Msg) Sequential _ (fun s event next kept stepped => step_keeps s next event kept stepped)
    s reached
  exact ⟨List.nodup_nil, fun ref => by simp [pubSub, replay], fun ref => rfl, fun sender => rfl, fun id => rfl,
    fun id => List.Sublist.refl _⟩

end Steps

-- The commands of each sender are handled in its order, and each actor is told what the commands one after the other
-- tell it: after a subscription all that is published up to the next unsubscribe, each message once and in the one
-- order that all subscribers see, and after an unsubscribe nothing but the answers to its own commands.
theorem pub_sub_sequential (s : System Msg) (reached : (pubSub Msg).Reachable s) :
    (∀ sender, commandsOf sender s.log ++ s.inFlight sender = s.sent sender) ∧
      (∀ id, s.sent (.publisher id) ++ (s.inbox id).map forward = (s.given id).map forward ∧
        (s.received (.publisher id)).Sublist (s.given id)) ∧
      ∀ ref, s.received ref ++ s.outbound ref = (replay ref s.log).signals ∧
        (∀ front stretch back sender, s.log = front ++ (sender, .subscribe ref) :: (stretch ++ back) →
          (∀ entry ∈ stretch, entry.2 ≠ .unsubscribe ref) →
          ∃ later, s.received ref ++ s.outbound ref = (replay ref (front ++ [(sender, .subscribe ref)])).signals ++
              stretch.flatMap (heard ref) ++ later ∧ (back = [] → later = [])) ∧
        ∀ front stretch back sender, s.log = front ++ (sender, .unsubscribe ref) :: (stretch ++ back) →
          (∀ entry ∈ stretch, entry.2 ≠ .subscribe ref) →
          ∃ later, s.received ref ++ s.outbound ref = (replay ref (front ++ [(sender, .unsubscribe ref)])).signals ++
              stretch.flatMap (answer ref) ++ later ∧ (back = [] → later = []) := by
  have sequential := reachable_sequential s reached
  refine ⟨sequential.handled, fun id => ⟨sequential.forwarded id, sequential.heardBack id⟩, fun ref => ?_⟩
  have told := sequential.signals ref
  refine ⟨told, fun front stretch back sender handled kept => ?_, fun front stretch back sender handled kept => ?_⟩
  · rw [told, handled]
    exact replay_since ref true (sender, .subscribe ref) front stretch back (fun v => by simp [View.after])
      (fun entry member v on => after_subscribed ref entry v on (kept entry member))
  · rw [told, handled]
    exact replay_since ref false (sender, .unsubscribe ref) front stretch back (fun v => by simp [View.after])
      (fun entry member v off => after_unsubscribed ref entry v off (kept entry member))

-- A subscriber and a publisher: two messages, of which the second one is published after the unsubscribe.
def smallRun : List (Event Nat) :=
  [.tell 0 (.subscribe (.actor 0)), .handle (.actor 0), .give 0 (.msg 1), .forward 0, .handle (.publisher 0),
    .tell 0 (.unsubscribe (.actor 0)), .handle (.actor 0), .give 0 (.msg 2), .forward 0, .handle (.publisher 0),
    .deliver (.actor 0)]

def smallState : System Nat := ((pubSub Nat).run (pubSub Nat).initial smallRun).getD (pubSub Nat).initial

theorem small_reachable : (pubSub Nat).Reachable smallState := ⟨smallRun, rfl⟩

theorem pub_sub_sequential_small :
    (pubSub Nat).Reachable smallState ∧ smallState.received (.actor 0) = [.done] ∧
      smallState.received (.actor 0) ++ smallState.outbound (.actor 0) = [.done, .msg 1, .done] ∧
      ∃ later, smallState.received (.actor 0) ++ smallState.outbound (.actor 0) = [.done] ++ [.msg 1] ++ later := by
  refine ⟨small_reachable, rfl, rfl, ?_⟩
  obtain ⟨later, told, _⟩ := ((pub_sub_sequential smallState small_reachable).2.2 (.actor 0)).2.1 []
    [(.publisher 0, .publish (.msg 1))] [(.actor 0, .unsubscribe (.actor 0)), (.publisher 0, .publish (.msg 2))] (.actor 0)
    rfl (by simp)
  exact ⟨later, told⟩

end Toolbox8.PubSubActor
