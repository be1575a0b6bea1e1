import Toolbox8.JarCache
import Mathlib.Algebra.Ring.Nat
import Mathlib.Data.List.Dedup

set_option autoImplicit false

namespace Toolbox8.JarCacheActor

open Base

abbrev Long := BitVec 64

inductive Evt where
  | putEvent (id : Long) (key : JarKey)
  | nextId (id : Long)
deriving DecidableEq, Repr

structure State where
  nextId : Long
  lookup : JarKey → Option Long

def State.initial : State := ⟨0, fun _ => none⟩

structure Finished where
  key : JarKey
  id : Long
deriving DecidableEq, Repr

def path (id : Long) : String := toString id.toInt ++ ".jar"

def updateState (state : State) : Evt → State
  | .putEvent id key => { state with lookup := Function.update state.lookup key (some id) }
  | .nextId id => { state with nextId := id }

def receiveRecover (journal : List Evt) : State := journal.foldl updateState .initial

-- The missing keys stand in the order their set is walked in.
inductive Command where
  | verify (startId : Long) (missing : List JarKey)
  | put (running : Finished)
deriving DecidableEq, Repr

def Command.evt : Command → Evt
  | .verify startId missing => .nextId (startId + BitVec.ofNat 64 missing.length)
  | .put running => .putEvent running.id running.key

def Command.size : Command → Nat
  | .verify _ missing => missing.length
  | .put _ => 0

def Command.requests : Command → List Finished
  | .verify startId missing => missing.zipIdx.map (fun (key, idx) => ⟨key, startId + BitVec.ofNat 64 idx⟩)
  | .put _ => []

-- A command is stashed behind the one whose event is being persisted.
inductive Pending where
  | persisting (command : Command)
  | persisted (command : Command)
deriving DecidableEq, Repr

-- uploads may still send their Finished; issued is every upload there ever was, and
-- allocated counts the ids of the persisted NextId events.
structure System where
  state : State
  journal : List Evt
  pending : Option Pending
  uploads : List Finished
  issued : List Finished
  allocated : Nat

inductive Event where
  | verifyRequest (keys missing : List JarKey)
  | finished (running : Finished)
  | get (keys : List JarKey)
  | persist
  | handle
  | crash (surviving : List Finished)
deriving DecidableEq, Repr

def missingKeys (state : State) (keys : List JarKey) : List JarKey :=
  keys.dedup.filter (fun key => (state.lookup key).isNone)

def step (s : System) : Event → Option System
  | .verifyRequest keys missing =>
      if s.pending = none ∧ missing.Perm (missingKeys s.state keys) then
        some { s with pending := some (.persisting (.verify s.state.nextId missing)) }
      else none
  | .finished running =>
      if s.pending = none ∧ running ∈ s.uploads then
        some { s with uploads := s.uploads.erase running, pending := some (.persisting (.put running)) }
      else none
  | .get keys => if s.pending = none ∧ ∀ key ∈ keys, (s.state.lookup key).isSome then some s else none
  | .persist =>
      match s.pending with
      | some (.persisting command) =>
          some { s with
            journal := s.journal ++ [command.evt]
            pending := some (.persisted command)
            allocated := s.allocated + command.size }
      | _ => none
  | .handle =>
      match s.pending with
      | some (.persisted command) =>
          some { s with
            state := updateState s.state command.evt
            pending := none
            uploads := s.uploads ++ command.requests
            issued := s.issued ++ command.requests }
      | _ => none
  | .crash surviving =>
      if ∀ running ∈ surviving, running ∈ s.uploads then
        some { s with state := receiveRecover s.journal, pending := none, uploads := surviving }
      else none

def actor : Machine System Event where
  initial := ⟨.initial, [], none, [], [], 0⟩
  step := step

theorem recover_append (journal : List Evt) (e : Evt) :
    receiveRecover (journal ++ [e]) = updateState (receiveRecover journal) e := by
  simp [receiveRecover]

-- What a command took from the state when it was received.
def Command.Sound (command : Command) (s : System) : Prop :=
  match command with
  | .verify startId _ => startId = s.state.nextId
  | .put running => running ∈ s.issued

-- How the state stands to the journal while an event is on its way into it.
def Replayed (s : System) : Prop :=
  match s.pending with
  | none => s.state = receiveRecover s.journal
  | some (.persisting command) => s.state = receiveRecover s.journal ∧ command.Sound s
  | some (.persisted command) =>
      updateState s.state command.evt = receiveRecover s.journal ∧ command.Sound s ∧
        s.state.nextId.toNat + command.size = s.allocated

structure Invariant (s : System) : Prop where
  counter : (receiveRecover s.journal).nextId.toNat = s.allocated
  reserved : s.state.nextId.toNat ≤ s.allocated
  fresh : ∀ f ∈ s.issued, f.id.toNat < s.state.nextId.toNat
  distinct : (s.issued.map Finished.id).Nodup
  uploads : ∀ f ∈ s.uploads, f ∈ s.issued
  journalled : ∀ key id, (receiveRecover s.journal).lookup key = some id → ⟨key, id⟩ ∈ s.issued
  looked : ∀ key id, s.state.lookup key = some id → ⟨key, id⟩ ∈ s.issued
  replayed : Replayed s

theorem batch_id (startId : Long) (size idx : Nat) (few : startId.toNat + size < 2 ^ 64) (inside : idx ≤ size) :
    (startId + BitVec.ofNat 64 idx).toNat = startId.toNat + idx := by
  rw [BitVec.toNat_add, BitVec.toNat_ofNat]
  omega

theorem batch_request (startId : Long) (missing : List JarKey) (f : Finished)
    (member : f ∈ (Command.verify startId missing).requests) :
    ∃ idx, idx < missing.length ∧ f.id = startId + BitVec.ofNat 64 idx := by
  simp only [Command.requests, List.mem_map] at member
  obtain ⟨⟨key, idx⟩, walked, rfl⟩ := member
  have inside := List.snd_lt_of_mem_zipIdx walked
  exact ⟨idx, by omega, rfl⟩

theorem batch_distinct (startId : Long) (missing : List JarKey) (few : startId.toNat + missing.length < 2 ^ 64) :
    ((Command.verify startId missing).requests.map Finished.id).Nodup := by
  have ids : (Command.verify startId missing).requests.map Finished.id =
      (List.range missing.length).map (fun idx => startId + BitVec.ofNat 64 idx) := by
    simp only [Command.requests, List.map_map, Function.comp_def]
    rw [List.range_eq_range', ← List.zipIdx_map_snd 0 missing, List.map_map]
    rfl
  rw [ids]
  refine List.Nodup.map_on ?_ List.nodup_range
  intro i iShort j jShort same
  rw [List.mem_range] at iShort jShort
  have numbers := congrArg BitVec.toNat same
  rw [batch_id startId missing.length i few (by omega), batch_id startId missing.length j few (by omega)] at numbers
  omega

theorem recovered_invariant (s : System) (surviving : List Finished) (inv : Invariant s)
    (kept : ∀ f ∈ surviving, f ∈ s.uploads) :
    Invariant { s with state := receiveRecover s.journal, pending := none, uploads := surviving } where
  counter := inv.counter
  reserved := by simp [inv.counter]
  fresh := by
    intro f member
    have before := inv.fresh f member
    have reserved := inv.reserved
    simp only [inv.counter]
    omega
  distinct := inv.distinct
  uploads := fun f member => inv.uploads f (kept f member)
  journalled := inv.journalled
  looked := inv.journalled
  replayed := rfl

theorem update_counter (s : System) (command : Command) (sound : command.Sound s)
    (few : s.state.nextId.toNat + command.size < 2 ^ 64) :
    (updateState s.state command.evt).nextId.toNat = s.state.nextId.toNat + command.size := by
  cases command with
  | put running => simp [Command.evt, updateState, Command.size]
  | verify startId missing =>
      rw [show startId = s.state.nextId from sound]
      simp only [Command.size] at few
      simp only [Command.evt, updateState, Command.size]
      rw [batch_id s.state.nextId missing.length missing.length few (Nat.le_refl _)]

theorem update_looked (good : Finished → Prop) (state : State) (command : Command)
    (looked : ∀ key id, state.lookup key = some id → good ⟨key, id⟩) (put : ∀ running, command = .put running → good running)
    (key : JarKey) (id : Long) (found : (updateState state command.evt).lookup key = some id) : good ⟨key, id⟩ := by
  cases command with
  | verify startId missing => exact looked key id found
  | put running =>
      by_cases here : key = running.key
      · subst here
        simp only [Command.evt, updateState, Function.update_self, Option.some.injEq] at found
        subst found
        exact put running rfl
      · simp only [Command.evt, updateState, Function.update_of_ne here] at found
        exact looked key id found

theorem persist_invariant (s : System) (command : Command) (inv : Invariant s)
    (pending : s.pending = some (.persisting command)) (few : s.allocated + command.size < 2 ^ 64) :
    Invariant { s with
      journal := s.journal ++ [command.evt]
      pending := some (.persisted command)
      allocated := s.allocated + command.size } := by
  obtain ⟨same, sound⟩ : s.state = receiveRecover s.journal ∧ command.Sound s := by
    simpa only [Replayed, pending] using inv.replayed
  have counter : s.state.nextId.toNat = s.allocated := by rw [same, inv.counter]
  have replayed : updateState s.state command.evt = receiveRecover (s.journal ++ [command.evt]) := by
    rw [recover_append, same]
  refine ⟨?_, ?_, inv.fresh, inv.distinct, inv.uploads, ?_, inv.looked, replayed, sound, by simp [counter]⟩
  · rw [← replayed, update_counter s command sound (by omega), counter]
  · have reserved := inv.reserved
    simp only
    omega
  · intro key id found
    rw [← replayed] at found
    refine update_looked (· ∈ s.issued) s.state command inv.looked ?_ key id found
    rintro running rfl
    exact sound

theorem requests_between (s : System) (command : Command) (sound : command.Sound s)
    (reserved : s.state.nextId.toNat + command.size = s.allocated) (few : s.allocated < 2 ^ 64) (f : Finished)
    (member : f ∈ command.requests) : s.state.nextId.toNat ≤ f.id.toNat ∧ f.id.toNat < s.allocated := by
  cases command with
  | put running => simp [Command.requests] at member
  | verify startId missing =>
      obtain ⟨idx, inside, id⟩ := batch_request startId missing f member
      rw [show startId = s.state.nextId from sound] at id
      simp only [Command.size] at reserved
      rw [id, batch_id s.state.nextId missing.length idx (by omega) (by omega)]
      omega

theorem requests_distinct (s : System) (command : Command) (sound : command.Sound s)
    (reserved : s.state.nextId.toNat + command.size = s.allocated) (few : s.allocated < 2 ^ 64) :
    (command.requests.map Finished.id).Nodup := by
  cases command with
  | put running => simp [Command.requests]
  | verify startId missing =>
      simp only [Command.size] at reserved
      exact batch_distinct startId missing (by rw [show startId = s.state.nextId from sound]; omega)

theorem handle_invariant (s : System) (command : Command) (inv : Invariant s)
    (pending : s.pending = some (.persisted command)) (few : s.allocated < 2 ^ 64) :
    Invariant { s with
      state := updateState s.state command.evt
      pending := none
      uploads := s.uploads ++ command.requests
      issued := s.issued ++ command.requests } := by
  obtain ⟨same, sound, reserved⟩ : updateState s.state command.evt = receiveRecover s.journal ∧ command.Sound s ∧
      s.state.nextId.toNat + command.size = s.allocated := by
    simpa only [Replayed, pending] using inv.replayed
  have counter : (updateState s.state command.evt).nextId.toNat = s.allocated := by rw [same, inv.counter]
  have requested := requests_between s command sound reserved few
  have batch := requests_distinct s command sound reserved few
  refine ⟨inv.counter, by simp [counter], ?_, ?_, ?_, ?_, ?_, same⟩
  · intro f member
    simp only [counter]
    cases List.mem_append.mp member with
    | inl old =>
        have before := inv.fresh f old
        omega
    | inr new => exact (requested f new).2
  · rw [List.map_append]
    refine List.Nodup.append inv.distinct batch ?_
    intro id old new
    obtain ⟨f, before, rfl⟩ := List.mem_map.mp old
    obtain ⟨g, now, equal⟩ := List.mem_map.mp new
    have low := inv.fresh f before
    have high := (requested g now).1
    rw [equal] at high
    omega
  · intro f member
    cases List.mem_append.mp member with
    | inl old => exact List.mem_append_left _ (inv.uploads f old)
    | inr new => exact List.mem_append_right _ new
  · intro key id found
    exact List.mem_append_left _ (inv.journalled key id found)
  · intro key id found
    rw [same] at found
    exact List.mem_append_left _ (inv.journalled key id found)

theorem receive_invariant (s : System) (command : Command) (uploads : List Finished) (inv : Invariant s)
    (idle : s.pending = none) (sound : command.Sound s) (kept : ∀ f ∈ uploads, f ∈ s.uploads) :
    Invariant { s with uploads := uploads, pending := some (.persisting command) } where
  counter := inv.counter
  reserved := inv.reserved
  fresh := inv.fresh
  distinct := inv.distinct
  uploads := fun f member => inv.uploads f (kept f member)
  journalled := inv.journalled
  looked := inv.looked
  replayed := by
    have same : s.state = receiveRecover s.journal := by simpa only [Replayed, idle] using inv.replayed
    cases command with
    | verify startId missing => exact ⟨same, sound⟩
    | put running => exact ⟨same, sound⟩

theorem step_invariant (s : System) (event : Event) (next : System) (stepped : step s event = some next) :
    s.allocated ≤ next.allocated ∧ (next.allocated < 2 ^ 64 → Invariant s → Invariant next) := by
  cases event with
  | verifyRequest keys missing =>
      simp only [step, Option.ite_none_right_eq_some, Option.some.injEq] at stepped
      obtain ⟨⟨idle, _⟩, rfl⟩ := stepped
      exact ⟨Nat.le_refl _, fun _ inv =>
        receive_invariant s (.verify s.state.nextId missing) s.uploads inv idle rfl (fun _ member => member)⟩
  | finished running =>
      simp only [step, Option.ite_none_right_eq_some, Option.some.injEq] at stepped
      obtain ⟨⟨idle, inFlight⟩, rfl⟩ := stepped
      exact ⟨Nat.le_refl _, fun _ inv => receive_invariant s (.put running) _ inv idle (inv.uploads running inFlight)
        (fun _ member => List.mem_of_mem_erase member)⟩
  | get keys =>
      simp only [step, Option.ite_none_right_eq_some, Option.some.injEq] at stepped
      obtain ⟨_, rfl⟩ := stepped
      exact ⟨Nat.le_refl _, fun _ inv => inv⟩
  | persist =>
      simp only [step] at stepped
      split at stepped
      · rename_i command pending
        rw [Option.some.injEq] at stepped
        subst stepped
        exact ⟨Nat.le_add_right _ _, fun few inv => persist_invariant s command inv pending few⟩
      · simp at stepped
  | handle =>
      simp only [step] at stepped
      split at stepped
      · rename_i command pending
        rw [Option.some.injEq] at stepped
        subst stepped
        exact ⟨Nat.le_refl _, fun few inv => handle_invariant s command inv pending few⟩
      · simp at stepped
  | crash surviving =>
      simp only [step, Option.ite_none_right_eq_some, Option.some.injEq] at stepped
      obtain ⟨kept, rfl⟩ := stepped
      exact ⟨Nat.le_refl _, fun _ inv => recovered_invariant s surviving inv kept⟩

theorem initial_invariant : Invariant actor.initial := by
  refine ⟨rfl, Nat.le_refl _, ?_, ?_, ?_, ?_, ?_, rfl⟩ <;> simp [actor, receiveRecover, State.initial]

theorem reachable_invariant (s : System) (reached : actor.Reachable s) (few : s.allocated < 2 ^ 64) : Invariant s := by
  refine reachable_keeps actor (fun s => s.allocated < 2 ^ 64 → Invariant s) (fun _ => initial_invariant) ?_ s reached few
  intro s event next holds stepped fewNext
  obtain ⟨grows, keeps⟩ := step_invariant s event next stepped
  exact keeps fewNext (holds (by omega))

theorem repr_injective (m n : Nat) (same : Nat.repr m = Nat.repr n) : m = n := by
  have digits := congrArg String.toList same
  rw [Nat.toList_repr, Nat.toList_repr] at digits
  have values := congrArg (fun cs => Nat.ofDigitChars 10 cs 0) digits
  simpa only [Nat.ofDigitChars_ten_toDigits] using values

theorem repr_no_sign (m n : Nat) : "-" ++ Nat.repr m ≠ Nat.repr n := by
  intro same
  have digits := congrArg String.toList same
  rw [String.toList_append, Nat.toList_repr, Nat.toList_repr] at digits
  have sign : '-' ∈ Nat.toDigits 10 n := by simp [← digits]
  have digit := Nat.isDigit_of_mem_toDigits (by decide) (by decide) sign
  exact absurd digit (by decide)

theorem int_repr_injective (i j : Int) (same : i.repr = j.repr) : i = j := by
  cases i with
  | ofNat m =>
      cases j with
      | ofNat n => exact congrArg Int.ofNat (repr_injective m n same)
      | negSucc n => exact absurd same.symm (repr_no_sign (n + 1) m)
  | negSucc m =>
      cases j with
      | ofNat n => exact absurd same (repr_no_sign (m + 1) n)
      | negSucc n =>
          have numbers := repr_injective (m + 1) (n + 1) ((String.append_right_inj "-").mp same)
          exact congrArg Int.negSucc (Nat.succ.inj numbers)

theorem path_injective (one two : Long) (same : path one = path two) : one = two :=
  BitVec.eq_of_toInt_eq (int_repr_injective _ _ ((String.append_left_inj ".jar").mp same))

theorem looked_below (s : System) (inv : Invariant s) (few : s.allocated < 2 ^ 63) (key : JarKey) (id : Long)
    (found : s.state.lookup key = some id) : id.toNat < s.state.nextId.toNat ∧ s.state.nextId.toNat < 2 ^ 63 := by
  have below := inv.fresh ⟨key, id⟩ (inv.looked key id found)
  have reserved := inv.reserved
  exact ⟨below, by omega⟩

theorem one_key_for_id (s : System) (inv : Invariant s) (one two : JarKey) (id : Long)
    (first : s.state.lookup one = some id) (second : s.state.lookup two = some id) : one = two := by
  have equal := List.inj_on_of_nodup_map inv.distinct (inv.looked one id first) (inv.looked two id second) rfl
  exact congrArg Finished.key equal

-- As long as fewer than 2^63 ids have been allocated in the whole history.
theorem ids_never_shared (s : System) (reached : actor.Reachable s) (few : s.allocated < 2 ^ 63) :
    (s.issued.map Finished.id).Nodup ∧
      (∀ key id, s.state.lookup key = some id → id.slt s.state.nextId) ∧
      (∀ one two id, s.state.lookup one = some id → s.state.lookup two = some id → one = two) ∧
      (∀ one two i j, s.state.lookup one = some i → s.state.lookup two = some j → path i = path j → one = two) := by
  have inv := reachable_invariant s reached (by omega)
  refine ⟨inv.distinct, ?_, one_key_for_id s inv, ?_⟩
  · intro key id found
    obtain ⟨below, bound⟩ := looked_below s inv few key id found
    rw [BitVec.slt_iff_toInt_lt, BitVec.toInt_eq_toNat_of_lt (by omega), BitVec.toInt_eq_toNat_of_lt (by omega)]
    omega
  · intro one two i j first second same
    have oneFew := looked_below s inv few one i first
    have twoFew := looked_below s inv few two j second
    rw [← path_injective i j same] at second
    exact one_key_for_id s inv one two i first second

def jarKey (artifactId : String) : JarKey := { groupId := "toolbox8", artifactId := artifactId, version := "1.0.0" }

-- Two clients upload one key at a time, and a crash forgets all but one of the uploads.
def overlappingUploads : List Event :=
  [.verifyRequest [jarKey "left"] [jarKey "left"], .persist, .handle,
   .verifyRequest [jarKey "left", jarKey "right"] [jarKey "left", jarKey "right"], .persist, .handle,
   .finished ⟨jarKey "left", 1⟩, .persist, .handle, .crash [⟨jarKey "left", 0⟩],
   .verifyRequest [jarKey "left", jarKey "right"] [jarKey "right"], .persist, .handle,
   .finished ⟨jarKey "right", 3⟩, .persist, .handle, .finished ⟨jarKey "left", 0⟩, .persist, .handle]

theorem ids_never_shared_example :
    ∃ s, (actor.Reachable s ∧ s.allocated < 2 ^ 63 ∧ s.state.lookup (jarKey "left") = some 0 ∧
        s.state.lookup (jarKey "right") = some 3) ∧ (s.issued.map Finished.id).Nodup := by
  have ran : (actor.run actor.initial overlappingUploads).map
      (fun s => (s.allocated, s.state.lookup (jarKey "left"), s.state.lookup (jarKey "right"))) =
      some (4, some 0, some 3) := by decide +kernel
  obtain ⟨s, run, outcome⟩ := Option.map_eq_some_iff.mp ran
  obtain ⟨allocated, found⟩ := Prod.mk.inj outcome
  have few : s.allocated < 2 ^ 63 := by
    rw [allocated]
    decide
  exact ⟨s, ⟨⟨_, run⟩, few, Prod.mk.inj found⟩, (ids_never_shared s ⟨_, run⟩ few).1⟩

-- A client asks for two keys again and again and uploads neither, so every request takes two more ids.
def askAgain (one two : JarKey) (n : Nat) : List Event :=
  (List.replicate n [Event.verifyRequest [one, two] [one, two], .persist, .handle]).flatten

theorem ask_again_run (one two : JarKey) (different : one ≠ two) (n : Nat) :
    ∃ s, actor.run actor.initial (askAgain one two (n + 1)) = some s ∧ s.pending = none ∧
      s.state = ⟨BitVec.ofNat 64 (2 * (n + 1)), fun _ => none⟩ ∧ ⟨one, 0#64⟩ ∈ s.uploads := by
  induction n with
  | zero =>
      simp [askAgain, actor, step, missingKeys, State.initial, Command.requests, Command.size, updateState, Command.evt,
        different]
  | succ n ih =>
      obtain ⟨s, ran, idle, state, uploaded⟩ := ih
      have again : askAgain one two (n + 1 + 1) =
          askAgain one two (n + 1) ++ [Event.verifyRequest [one, two] [one, two], .persist, .handle] := by
        rw [askAgain, List.replicate_succ', List.flatten_append]
        simp [askAgain]
      rw [again, run_append, ran]
      simp [actor, step, idle, state, missingKeys, Command.requests, Command.size, updateState, Command.evt, different,
        uploaded]
      rw [show 2 * (n + 1 + 1) = 2 * (n + 1) + 2 by omega, BitVec.ofNat_add]

theorem wrapped_counter_below_id :
    ∃ s, actor.run actor.initial (askAgain (jarKey "one") (jarKey "two") (2 ^ 62) ++
        [.finished ⟨jarKey "one", 0⟩, .persist, .handle]) = some s ∧
      s.state.lookup (jarKey "one") = some 0 ∧ ¬ (0 : Long).slt s.state.nextId := by
  obtain ⟨s, ran, idle, state, uploaded⟩ := ask_again_run (jarKey "one") (jarKey "two") (by simp [jarKey]) (2 ^ 62 - 1)
  rw [show 2 ^ 62 - 1 + 1 = 2 ^ 62 by decide] at ran
  rw [run_append, ran]
  simp [actor, step, idle, state, uploaded, updateState, Command.evt]

end Toolbox8.JarCacheActor
