import Toolbox8.Base.Transition
import Toolbox8.JarCache

set_option autoImplicit false

namespace Toolbox8.PluggableService

open Base

structure PlugRequest where
  classLoader : Option (List JarKey) := none
  className : String := "toolbox8.jartree.akka.PluggableServiceActor$VoidPluggable"
deriving DecidableEq, Repr

inductive Evt where
  | plugRequest (request : PlugRequest)
  | clear
deriving DecidableEq, Repr

structure State where
  request : Option PlugRequest
deriving DecidableEq, Repr

def updateState (state : State) : Evt → State
  | .plugRequest request => { state with request := some request }
  | .clear => { state with request := none }

inductive ClassLoader where
  | parent
  | parentLast (jars : List JarKey)
deriving DecidableEq, Repr

abbrev Throwable := String

-- VoidPlugged, or the Plugged of somebody's Pluggable.
inductive Plugged (Instance : Type) where
  | void
  | of (plugged : Instance)
deriving DecidableEq, Repr

structure PlugContext (Previous : Type) where
  previous : Option Previous
  classLoader : ClassLoader

-- A Pluggable is its plug method.
abbrev Pluggable (Instance Previous : Type) := PlugContext Previous → Except Throwable (Plugged Instance)

def voidPluggable {Instance Previous : Type} : Pluggable Instance Previous := fun _ => .ok .void

-- What the class loaders and the plugged code do in one plugging.
structure World (Instance Previous : Type) where
  parentLastUrlClassloader : List JarKey → Except Throwable Unit
  newInstance : ClassLoader → String → Except Throwable (Pluggable Instance Previous)
  preUnplug : Instance → Except Throwable (Option Previous)

variable {Ref Instance Previous : Type}

def Plugged.preUnplug (world : World Instance Previous) : Plugged Instance → Except Throwable (Option Previous)
  | .void => .ok none
  | .of plugged => world.preUnplug plugged

def World.load (world : World Instance Previous) : Option PlugRequest →
    Except Throwable (Pluggable Instance Previous × ClassLoader)
  | some r => do
      let cl ← match r.classLoader with
        | some jars => (world.parentLastUrlClassloader jars).map (fun _ => ClassLoader.parentLast jars)
        | none => .ok .parent
      let i ← world.newInstance cl r.className
      return (i, cl)
  | none => .ok (voidPluggable, .parent)

-- The value of the future of doPlugging.
def World.plugs (world : World Instance Previous) (request : Option PlugRequest) (plugged : Plugged Instance) :
    Except Throwable (Plugged Instance) := do
  let (pluggable, cl) ← world.load request
  let unplugged ← plugged.preUnplug world
  pluggable { previous := unplugged, classLoader := cl }

-- A future that is not completed. It reads plugged from the actor that started it.
structure Plugging (Ref Instance : Type) where
  request : Option PlugRequest
  replyTo : Option Ref
  stale : Option (Plugged Instance)

inductive Message (Ref Instance : Type) where
  | pluggingComplete (plugged : Plugged Instance) (replyTo : Option Ref)
  | failure
  | getPlugged (sender : Ref)
  | evt (e : Evt) (sender : Ref)
  | query (sender : Ref)
deriving DecidableEq, Repr

def Message.isResult : Message Ref Instance → Bool
  | .pluggingComplete _ _ => true
  | .failure => true
  | _ => false

inductive Reply (Instance : Type) where
  | done
  | plugged (plugged : Plugged Instance)
  | queryResponse (request : Option PlugRequest)
deriving DecidableEq, Repr

structure Pending (Ref : Type) where
  e : Evt
  sender : Ref
  written : Bool

-- The actor, its mailbox and its journal. recovering holds what is not replayed yet. arrived, taken,
-- replies and produced record what happened: the commands, those of them that were not stashed, the
-- answers, and what came out of the pluggings.
structure System (Ref Instance : Type) where
  state : State
  plugged : Plugged Instance
  plugging : Bool
  stash : List (Message Ref Instance)
  mailbox : List (Message Ref Instance)
  pending : Option (Pending Ref)
  recovering : Option (List Evt)
  running : List (Plugging Ref Instance)
  journal : List Evt
  arrived : List (Message Ref Instance)
  taken : List (Message Ref Instance)
  replies : List (Ref × Reply Instance)
  produced : List (Option PlugRequest × Plugged Instance)

def System.doPlugging (s : System Ref Instance) (replyTo : Option Ref) : System Ref Instance :=
  { s with plugging := true, running := s.running ++ [⟨s.state.request, replyTo, none⟩] }

def System.receiveRecover (s : System Ref Instance) : List Evt → System Ref Instance
  | [] => { s with recovering := none }.doPlugging none
  | e :: rest => { s with state := updateState s.state e, recovering := some rest }

-- unstashAll puts the stashed messages ahead of the mailbox. A Status.Failure is not matched.
def System.receiveCommand (s : System Ref Instance) : Message Ref Instance → System Ref Instance
  | .pluggingComplete plugged replyTo =>
      { s with
        plugging := false
        plugged := plugged
        mailbox := s.stash ++ s.mailbox
        stash := []
        replies := s.replies ++ replyTo.toList.map (fun ref => (ref, .done)) }
  | .failure => s
  | .getPlugged sender =>
      if s.plugging then { s with stash := s.stash ++ [.getPlugged sender] }
      else { s with replies := s.replies ++ [(sender, .plugged s.plugged)], taken := s.taken ++ [.getPlugged sender] }
  | .evt e sender =>
      if s.plugging then { s with stash := s.stash ++ [.evt e sender] }
      else { s with pending := some ⟨e, sender, false⟩, taken := s.taken ++ [.evt e sender] }
  | .query sender => { s with replies := s.replies ++ [(sender, .queryResponse s.state.request)] }

inductive Event (Ref Instance Previous : Type) where
  | arrive (m : Message Ref Instance)
  | receive
  | persist
  | handle
  | complete (index : Nat) (world : World Instance Previous)
  | recover
  | restart
  | crash

-- A restart keeps the mailbox and the futures, a crash of the process keeps the journal only.
def step (s : System Ref Instance) : Event Ref Instance Previous → Option (System Ref Instance)
  | .arrive m => if m.isResult then none else some { s with mailbox := s.mailbox ++ [m], arrived := s.arrived ++ [m] }
  | .receive =>
      match s.recovering, s.pending, s.mailbox with
      | none, none, m :: rest => some ({ s with mailbox := rest }.receiveCommand m)
      | _, _, _ => none
  | .persist =>
      match s.pending with
      | some ⟨e, sender, false⟩ => some { s with journal := s.journal ++ [e], pending := some ⟨e, sender, true⟩ }
      | _ => none
  | .handle =>
      match s.pending with
      | some ⟨e, sender, true⟩ => some ({ s with state := updateState s.state e, pending := none }.doPlugging (some sender))
      | _ => none
  | .complete index world =>
      match s.running[index]? with
      | none => none
      | some p =>
          let s := { s with running := s.running.eraseIdx index }
          match world.plugs p.request (p.stale.getD s.plugged) with
          | .ok plugged =>
              some { s with
                mailbox := s.mailbox ++ [.pluggingComplete plugged p.replyTo]
                produced := s.produced ++ [(p.request, plugged)] }
          | .error _ => some { s with mailbox := s.mailbox ++ [.failure] }
  | .recover => s.recovering.map s.receiveRecover
  | .restart =>
      some { s with
        state := ⟨none⟩
        plugged := .void
        plugging := false
        stash := []
        mailbox := s.stash ++ s.mailbox
        pending := none
        recovering := some s.journal
        running := s.running.map (fun p => { p with stale := some (p.stale.getD s.plugged) }) }
  | .crash =>
      some { s with
        state := ⟨none⟩
        plugged := .void
        plugging := false
        stash := []
        mailbox := []
        pending := none
        recovering := some s.journal
        running := [] }

-- before is the journal of earlier processes.
def service (Ref Instance Previous : Type) (before : List Evt) :
    Machine (System Ref Instance) (Event Ref Instance Previous) where
  initial :=
    { state := ⟨none⟩, plugged := .void, plugging := false, stash := [], mailbox := [], pending := none,
      recovering := some before, running := [], journal := before, arrived := [], taken := [], replies := [],
      produced := [] }
  step := step

def Awaits (s : System Ref Instance) : Prop := 0 < s.running.length ∨ ∃ m ∈ s.mailbox, m.isResult = true

def NotWedged (s : System Ref Instance) : Prop := s.plugging = true → Awaits s

-- A failure that is received while plugging is not the last that the actor can hear of a plugging.
def AnotherResult (s : System Ref Instance) : Event Ref Instance Previous → Prop
  | .receive =>
      match s.mailbox with
      | .failure :: rest => s.plugging = true → Awaits { s with mailbox := rest }
      | _ => True
  | _ => True

instance (s : System Ref Instance) : Decidable (Awaits s) :=
  inferInstanceAs (Decidable (0 < s.running.length ∨ ∃ m ∈ s.mailbox, m.isResult = true))

instance (s : System Ref Instance) (event : Event Ref Instance Previous) : Decidable (AnotherResult s event) := by
  unfold AnotherResult
  split <;> try infer_instance
  split <;> infer_instance

theorem awaits_append (s : System Ref Instance) (more : List (Message Ref Instance)) (awaits : Awaits s) :
    Awaits { s with mailbox := s.mailbox ++ more } := by
  rcases awaits with running | ⟨m, member, isResult⟩
  · exact .inl running
  · exact .inr ⟨m, List.mem_append_left _ member, isResult⟩

theorem do_plugging_awaits (s : System Ref Instance) (replyTo : Option Ref) : Awaits (s.doPlugging replyTo) :=
  .inl (by simp [System.doPlugging])

theorem receive_command_awaits (s : System Ref Instance) (m : Message Ref Instance) (rest : List (Message Ref Instance))
    (head : s.mailbox = m :: rest) (holds : NotWedged s) (other : m ≠ .failure) :
    NotWedged ({ s with mailbox := rest }.receiveCommand m) := by
  have later : m.isResult = false → s.plugging = true → Awaits { s with mailbox := rest } := by
    intro command plugging
    rcases holds plugging with running | ⟨result, member, isResult⟩
    · exact .inl running
    · rw [head, List.mem_cons] at member
      rcases member with rfl | inside
      · simp [command] at isResult
      · exact .inr ⟨result, inside, isResult⟩
  cases m with
  | failure => exact absurd rfl other
  | pluggingComplete plugged replyTo =>
      intro plugging
      cases plugging
  | query sender => exact later rfl
  | getPlugged sender =>
      cases plugging : s.plugging with
      | true => simpa [System.receiveCommand, plugging, NotWedged, Awaits] using later rfl plugging
      | false => simp [System.receiveCommand, NotWedged]
  | evt e sender =>
      cases plugging : s.plugging with
      | true => simpa [System.receiveCommand, plugging, NotWedged, Awaits] using later rfl plugging
      | false => simp [System.receiveCommand, NotWedged]

theorem step_not_wedged (s : System Ref Instance) (event : Event Ref Instance Previous) (next : System Ref Instance)
    (holds : NotWedged s) (stepped : step s event = some next) : NotWedged next ↔ AnotherResult s event := by
  cases event with
  | arrive m =>
      simp only [step, Option.ite_none_left_eq_some, Option.some.injEq] at stepped
      obtain ⟨_, rfl⟩ := stepped
      exact iff_of_true (fun plugging => awaits_append s [m] (holds plugging)) trivial
  | receive =>
      simp only [step] at stepped
      split at stepped
      · rename_i m rest _ _ head
        rw [Option.some.injEq] at stepped
        subst stepped
        have others : m ≠ .failure → NotWedged ({ s with mailbox := rest }.receiveCommand m) :=
          receive_command_awaits s m rest head holds
        simp only [AnotherResult, head]
        cases m with
        | failure => exact Iff.rfl
        | _ => exact iff_of_true (others (by simp)) trivial
      · simp at stepped
  | persist =>
      simp only [step] at stepped
      split at stepped
      · rw [Option.some.injEq] at stepped
        subst stepped
        exact iff_of_true holds trivial
      · simp at stepped
  | handle =>
      simp only [step] at stepped
      split at stepped
      · rw [Option.some.injEq] at stepped
        subst stepped
        exact iff_of_true (fun _ => do_plugging_awaits _ _) trivial
      · simp at stepped
  | complete index world =>
      simp only [step] at stepped
      split at stepped
      · simp at stepped
      · refine iff_of_true (fun _ => .inr ?_) trivial
        split at stepped
        · rw [Option.some.injEq] at stepped
          subst stepped
          exact ⟨_, List.mem_append_right _ (List.mem_singleton_self _), rfl⟩
        · rw [Option.some.injEq] at stepped
          subst stepped
          exact ⟨_, List.mem_append_right _ (List.mem_singleton_self _), rfl⟩
  | recover =>
      simp only [step, Option.map_eq_some_iff] at stepped
      obtain ⟨journal, _, rfl⟩ := stepped
      cases journal with
      | nil => exact iff_of_true (fun _ => do_plugging_awaits _ _) trivial
      | cons e rest => exact iff_of_true holds trivial
  | restart =>
      simp only [step, Option.some.injEq] at stepped
      subst stepped
      refine iff_of_true (fun plugging => ?_) trivial
      cases plugging
  | crash =>
      simp only [step, Option.some.injEq] at stepped
      subst stepped
      refine iff_of_true (fun plugging => ?_) trivial
      cases plugging

-- In every run: no state is wedged exactly as long as no last failure is received.
theorem never_wedged_iff (before : List Evt) (events : List (Event Ref Instance Previous)) (s : System Ref Instance)
    (ran : (service Ref Instance Previous before).run (service Ref Instance Previous before).initial events = some s) :
    (service Ref Instance Previous before).Along NotWedged (service Ref Instance Previous before).initial events ↔
      (service Ref Instance Previous before).Meets AnotherResult (service Ref Instance Previous before).initial events := by
  refine along_iff_meets _ AnotherResult NotWedged _ s events (fun s event _ => step_not_wedged s event) ?_ ran
  intro plugging
  cases plugging

-- Nobody is left who could clear the flag.
structure Wedged (s : System Ref Instance) : Prop where
  plugging : s.plugging = true
  running : s.running = []
  results : ∀ m ∈ s.mailbox, m.isResult = false
  pending : s.pending = none
  recovering : s.recovering = none

def Event.restarts : Event Ref Instance Previous → Bool
  | .restart => true
  | .crash => true
  | _ => false

theorem step_wedged (s : System Ref Instance) (event : Event Ref Instance Previous) (next : System Ref Instance)
    (wedged : Wedged s) (alive : event.restarts = false) (stepped : step s event = some next) :
    Wedged next ∧ next.taken = s.taken ∧ s.stash <+: next.stash := by
  obtain ⟨plugging, running, results, pending, recovering⟩ := wedged
  cases event with
  | arrive m =>
      simp only [step, Option.ite_none_left_eq_some, Option.some.injEq, Bool.not_eq_true] at stepped
      obtain ⟨command, rfl⟩ := stepped
      refine ⟨⟨plugging, running, ?_, pending, recovering⟩, rfl, List.prefix_rfl⟩
      intro other member
      rcases List.mem_append.mp member with old | new
      · exact results other old
      · rwa [List.mem_singleton.mp new]
  | receive =>
      simp only [step, recovering, pending] at stepped
      split at stepped
      · rename_i m rest _ _ head
        rw [Option.some.injEq] at stepped
        subst stepped
        rw [head] at results
        have later : ∀ other ∈ rest, other.isResult = false := fun other member => results other (List.mem_cons_of_mem _ member)
        have command := results m List.mem_cons_self
        cases m with
        | pluggingComplete plugged replyTo => cases command
        | failure => cases command
        | query sender => exact ⟨⟨plugging, running, later, rfl, rfl⟩, rfl, List.prefix_rfl⟩
        | getPlugged sender =>
            simp only [System.receiveCommand, plugging, if_true]
            exact ⟨⟨rfl, running, later, rfl, rfl⟩, trivial, List.prefix_append _ _⟩
        | evt e sender =>
            simp only [System.receiveCommand, plugging, if_true]
            exact ⟨⟨rfl, running, later, rfl, rfl⟩, trivial, List.prefix_append _ _⟩
      · simp at stepped
  | persist => simp [step, pending] at stepped
  | handle => simp [step, pending] at stepped
  | complete index world => simp [step, running] at stepped
  | recover => simp [step, recovering] at stepped
  | restart => cases alive
  | crash => cases alive

-- Whatever was stashed stays there and no later command is taken, until the actor is restarted.
theorem wedged_forever (before : List Evt) (events : List (Event Ref Instance Previous)) (s final : System Ref Instance)
    (wedged : Wedged s) (alive : ∀ event ∈ events, event.restarts = false)
    (ran : (service Ref Instance Previous before).run s events = some final) :
    Wedged final ∧ final.taken = s.taken ∧ s.stash <+: final.stash := by
  refine run_keeps_guarded (service Ref Instance Previous before) (fun _ event => event.restarts = false)
    (fun next => Wedged next ∧ next.taken = s.taken ∧ s.stash <+: next.stash) ?_ s final events
    ⟨wedged, rfl, List.prefix_rfl⟩ (meets_all _ (fun event => event.restarts = false) s events alive) ran
  rintro middle event next ⟨here, taken, stashed⟩ lives stepped
  obtain ⟨still, sameTaken, grown⟩ := step_wedged middle event next here lives stepped
  exact ⟨still, sameTaken.trans taken, stashed.trans grown⟩

def healthy : World Nat Unit := ⟨fun _ => .ok (), fun _ _ => .ok (fun _ => .ok (.of 0)), fun _ => .ok none⟩

def missingClass : World Nat Unit :=
  { healthy with newInstance := fun _ _ => .error "java.lang.ClassNotFoundException" }

-- A fresh service is asked to plug a class, and a client asks for what is plugged.
def plugOnce (world : World Nat Unit) : List (Event Nat Nat Unit) :=
  [.recover, .complete 0 healthy, .receive, .arrive (.evt (.plugRequest { className := "Missing" }) 1), .arrive (.getPlugged 2),
    .receive, .persist, .handle, .receive, .complete 0 world, .receive]

theorem never_wedged_example :
    (service Nat Nat Unit []).Along NotWedged (service Nat Nat Unit []).initial (plugOnce healthy) := by
  obtain ⟨s, ran⟩ := Option.isSome_iff_exists.mp
    (show ((service Nat Nat Unit []).run (service Nat Nat Unit []).initial (plugOnce healthy)).isSome by decide +kernel)
  refine (never_wedged_iff [] (plugOnce healthy) s ran).mpr ?_
  decide +kernel

theorem failed_plugging_wedges :
    ∃ s, (service Nat Nat Unit []).Reachable s ∧ s.stash = [.getPlugged 2] ∧ ¬ NotWedged s := by
  obtain ⟨s, ran, outcome⟩ := Option.map_eq_some_iff.mp
    (show ((service Nat Nat Unit []).run (service Nat Nat Unit []).initial (plugOnce missingClass)).map
        (fun s => (s.stash, s.plugging, s.running.length, s.mailbox)) =
      some ([.getPlugged 2], true, 0, []) by decide +kernel)
  simp only [Prod.mk.injEq] at outcome
  obtain ⟨stash, plugging, running, mailbox⟩ := outcome
  refine ⟨s, ⟨_, ran⟩, stash, fun holds => ?_⟩
  rcases holds plugging with busy | ⟨m, member, _⟩
  · omega
  · simp [mailbox] at member

end Toolbox8.PluggableService
