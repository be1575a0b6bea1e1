import Toolbox8.Base.Transition

set_option autoImplicit false

namespace Toolbox8.Jillify

open Base

-- What JarResolver gives for a module version: the jar of a snapshot is whatever is served and has a hash, the one of a
-- release stays and has none.
inductive Version (Jar : Type) where
  | snapshot (jarHash : Jar → String)
  | release (jar : Jar)

section Calls

variable {Jar : Type}

def Version.resolveFile : Version Jar → Jar → Jar
  | .snapshot _, served => served
  | .release jar, _ => jar

def Version.hash : Version Jar → Jar → Option String
  | .snapshot jarHash, jar => some (jarHash jar)
  | .release _, _ => none

-- library.jack while jill writes the output for a jar and after it.
inductive JackFile (Jar : Type) where
  | part (jar : Jar)
  | complete (jar : Jar)
deriving DecidableEq, Repr

-- Where a call of single is, with the jar it resolves and its hashed.hash.
inductive Call (Jar : Type) where
  | idle
  | resolved (jar : Jar) (hash : Option String)
  | jilling (jar : Jar) (hash : Option String)
  | writing (jar : Jar) (hash : Option String)
  | hashing (jar : Jar) (hash : String)
  | returned (jar : Jar)
deriving DecidableEq, Repr

-- The files of the module version, the entry of ManagedIdMap in the memory of the process, and of the history the last
-- run of jill that has written, with whether it has ended.
structure State (Jar : Type) where
  jilled : Option (JackFile Jar)
  hashFile : Option String
  managedId : Option (Option String)
  call : Call Jar
  lastJill : Option (Jar × Bool)
deriving DecidableEq, Repr

-- throws is an exception that ends the call, crash the end of the process, clear a new process or JarResolver.clear.
inductive Event (Jar : Type) where
  | call (served : Jar)
  | decide
  | jillWrites
  | jillEnds
  | hashWrites (written : Nat)
  | hashEnds
  | throws
  | crash
  | clear
deriving DecidableEq, Repr

def Call.isOver : Call Jar → Bool
  | .idle => true
  | .returned _ => true
  | _ => false

def single (version : Version Jar) (s : State Jar) (served : Jar) : State Jar :=
  let jar := version.resolveFile served
  let hash := s.managedId.getD (version.hash jar)
  { s with managedId := some hash, call := .resolved jar hash }

-- already jillified
def skips (s : State Jar) : Option String → Bool
  | some hash => decide (s.hashFile = some hash)
  | none => s.jilled.isSome

def jillWrites (s : State Jar) (jar : Jar) (hash : Option String) : State Jar :=
  { s with jilled := some (.part jar), lastJill := some (jar, false), call := .writing jar hash }

def jillEnds (s : State Jar) (jar : Jar) (hash : Option String) : State Jar :=
  { s with
    jilled := some (.complete jar)
    lastJill := some (jar, true)
    call := match hash with
      | some hash => .hashing jar hash
      | none => .returned jar }

def step (version : Version Jar) (s : State Jar) : Event Jar → Option (State Jar)
  | .call served => if s.call.isOver then some (single version s served) else none
  | .decide =>
      match s.call with
      | .resolved jar hash => some { s with call := if skips s hash then .returned jar else .jilling jar hash }
      | _ => none
  | .jillWrites =>
      match s.call with
      | .jilling jar hash => some (jillWrites s jar hash)
      | .writing jar hash => some (jillWrites s jar hash)
      | _ => none
  | .jillEnds =>
      match s.call with
      | .writing jar hash => some (jillEnds s jar hash)
      | _ => none
  | .hashWrites written =>
      match s.call with
      | .hashing _ hash => some { s with hashFile := some (String.ofList (hash.toList.take written)) }
      | _ => none
  | .hashEnds =>
      match s.call with
      | .hashing jar hash => some { s with hashFile := some hash, call := .returned jar }
      | _ => none
  | .throws => if s.call.isOver then none else some { s with call := .idle }
  | .crash => some { s with managedId := none, call := .idle }
  | .clear => if s.call.isOver then some { s with managedId := none } else none

def jillify (version : Version Jar) : Machine (State Jar) (Event Jar) where
  initial := ⟨none, none, none, .idle, none⟩
  step := step version

-- What single returns is the whole output for the jar of the call.
def Current (s : State Jar) : Prop := ∀ jar, s.call = .returned jar → s.jilled = some (.complete jar)

-- A call that runs no jill comes after a run of jill that has ended and was for the same jar.
def Sound (s : State Jar) : Event Jar → Prop
  | .decide => ∀ jar hash, s.call = .resolved jar hash → skips s hash → s.lastJill = some (jar, true)
  | _ => True

def written (run : Jar × Bool) : JackFile Jar := if run.2 then .complete run.1 else .part run.1

structure Kept (s : State Jar) : Prop where
  content : s.jilled = s.lastJill.map written
  hashing : ∀ jar hash, s.call = .hashing jar hash → s.jilled = some (.complete jar)

theorem written_complete (run : Option (Jar × Bool)) (jar : Jar) :
    run.map written = some (.complete jar) ↔ run = some (jar, true) := by
  cases run with
  | none => simp
  | some run =>
      obtain ⟨other, ended⟩ := run
      cases ended with
      | false => simp [written]
      | true => simp [written]

section Steps

variable (version : Version Jar) (s next : State Jar)

theorem step_cases (event : Event Jar) (stepped : step version s event = some next) :
    (∃ served, event = .call served ∧ s.call.isOver ∧ next = single version s served) ∨
      (∃ jar hash, event = .decide ∧ s.call = .resolved jar hash ∧
        next = { s with call := if skips s hash then .returned jar else .jilling jar hash }) ∨
      (∃ jar hash, event = .jillWrites ∧ (s.call = .jilling jar hash ∨ s.call = .writing jar hash) ∧
        next = jillWrites s jar hash) ∨
      (∃ jar hash, event = .jillEnds ∧ s.call = .writing jar hash ∧ next = jillEnds s jar hash) ∨
      (∃ jar hash n, event = .hashWrites n ∧ s.call = .hashing jar hash ∧
        next = { s with hashFile := some (String.ofList (hash.toList.take n)) }) ∨
      (∃ jar hash, event = .hashEnds ∧ s.call = .hashing jar hash ∧
        next = { s with hashFile := some hash, call := .returned jar }) ∨
      (event = .throws ∧ next = { s with call := .idle }) ∨
      (event = .crash ∧ next = { s with managedId := none, call := .idle }) ∨
      (event = .clear ∧ s.call.isOver ∧ next = { s with managedId := none }) := by
  obtain ⟨jilled, hashFile, managedId, call, lastJill⟩ := s
  cases event with
  | call served =>
      obtain ⟨isOver, rfl⟩ := by simpa [step] using stepped
      simp [isOver]
  | decide =>
      cases call with
      | resolved jar hash => simp [(Option.some.inj stepped).symm]
      | _ => simp [step] at stepped
  | jillWrites =>
      cases call with
      | jilling jar hash => simp [(Option.some.inj stepped).symm]
      | writing jar hash => simp [(Option.some.inj stepped).symm]
      | _ => simp [step] at stepped
  | jillEnds =>
      cases call with
      | writing jar hash => simp [(Option.some.inj stepped).symm]
      | _ => simp [step] at stepped
  | hashWrites n =>
      cases call with
      | hashing jar hash => simp [(Option.some.inj stepped).symm]
      | _ => simp [step] at stepped
  | hashEnds =>
      cases call with
      | hashing jar hash => simp [(Option.some.inj stepped).symm]
      | _ => simp [step] at stepped
  | throws =>
      obtain ⟨_, rfl⟩ := by simpa [step] using stepped
      simp
  | crash => simp [(Option.some.inj stepped).symm]
  | clear =>
      obtain ⟨isOver, rfl⟩ := by simpa [step] using stepped
      simp [isOver]

theorem jill_ends_kept (jar : Jar) (hash : Option String) : Kept (jillEnds s jar hash) ∧ Current (jillEnds s jar hash) := by
  cases hash with
  | none =>
      refine ⟨⟨rfl, ?_⟩, ?_⟩
      · simp [jillEnds]
      · rintro other ⟨⟩
        rfl
  | some hash =>
      refine ⟨⟨rfl, ?_⟩, ?_⟩
      · rintro other found ⟨⟩
        rfl
      · simp [Current, jillEnds]

theorem decide_current_iff (jar : Jar) (hash : Option String) (kept : Kept s) (here : s.call = .resolved jar hash) :
    Current { s with call := if skips s hash then .returned jar else .jilling jar hash } ↔ Sound s .decide := by
  by_cases skipped : skips s hash
  · rw [if_pos skipped]
    constructor
    · rintro current other found same _
      obtain ⟨rfl, rfl⟩ := Call.resolved.inj (here.symm.trans same)
      have complete := kept.content.symm.trans (current jar rfl)
      exact (written_complete s.lastJill jar).mp complete
    · rintro sound other ⟨⟩
      exact kept.content.trans ((written_complete s.lastJill jar).mpr (sound jar hash here skipped))
  · rw [if_neg skipped]
    refine iff_of_true (by simp [Current]) ?_
    rintro other found same taken
    obtain ⟨rfl, rfl⟩ := Call.resolved.inj (here.symm.trans same)
    exact absurd taken skipped

theorem step_kept (event : Event Jar) (kept : Kept s) (stepped : step version s event = some next) : Kept next := by
  rcases step_cases version s next event stepped with ⟨_, _, _, rfl⟩ | ⟨jar, hash, _, _, rfl⟩ | ⟨_, _, _, _, rfl⟩ |
    ⟨jar, hash, _, _, rfl⟩ | ⟨jar, hash, _, _, here, rfl⟩ | ⟨jar, hash, _, _, rfl⟩ | ⟨_, rfl⟩ | ⟨_, rfl⟩ | ⟨_, _, rfl⟩
  · exact ⟨kept.content, by simp [single]⟩
  · refine ⟨kept.content, ?_⟩
    intro other found same
    by_cases skipped : skips s hash
    · simp [skipped] at same
    · simp [skipped] at same
  · exact ⟨rfl, by simp [jillWrites]⟩
  · exact (jill_ends_kept s jar hash).1
  · exact ⟨kept.content, kept.hashing⟩
  · exact ⟨kept.content, by simp⟩
  · exact ⟨kept.content, by simp⟩
  · exact ⟨kept.content, by simp⟩
  · exact ⟨kept.content, kept.hashing⟩

theorem step_current_iff (event : Event Jar) (holds : Kept s ∧ Current s) (stepped : step version s event = some next) :
    Kept next ∧ Current next ↔ Sound s event := by
  rw [and_iff_right (step_kept version s next event holds.1 stepped)]
  obtain ⟨kept, current⟩ := holds
  rcases step_cases version s next event stepped with ⟨_, rfl, _, rfl⟩ | ⟨jar, hash, rfl, here, rfl⟩ | ⟨_, _, rfl, _, rfl⟩ |
    ⟨jar, hash, rfl, _, rfl⟩ | ⟨jar, hash, _, rfl, here, rfl⟩ | ⟨jar, hash, rfl, here, rfl⟩ | ⟨rfl, rfl⟩ | ⟨rfl, rfl⟩ |
    ⟨rfl, _, rfl⟩
  · exact iff_of_true (by simp [Current, single]) trivial
  · exact decide_current_iff s jar hash kept here
  · exact iff_of_true (by simp [Current, jillWrites]) trivial
  · exact iff_of_true (jill_ends_kept s jar hash).2 trivial
  · exact iff_of_true (by simp [Current, here]) trivial
  · refine iff_of_true ?_ trivial
    rintro other ⟨⟩
    exact kept.hashing jar hash here
  · exact iff_of_true (by simp [Current]) trivial
  · exact iff_of_true (by simp [Current]) trivial
  · exact iff_of_true current trivial

end Steps

theorem single_current_iff (version : Version Jar) (events : List (Event Jar)) (final : State Jar)
    (ran : (jillify version).run (jillify version).initial events = some final) :
    (jillify version).Along Current (jillify version).initial events ↔
      (jillify version).Meets Sound (jillify version).initial events := by
  have initially : Kept (jillify version).initial := ⟨rfl, by simp [jillify]⟩
  rw [along_of_invariant (jillify version) Kept Current (fun s event next => step_kept version s next event) _ events
    initially]
  apply along_iff_meets (jillify version) Sound _ _ final events _ _ ran
  · exact fun s event _ next holds stepped => step_current_iff version s next event holds stepped
  · exact ⟨initially, by simp [Current, jillify]⟩

def Call.isCut : Call Jar → Bool
  | .writing _ _ => true
  | .hashing _ _ => true
  | _ => false

-- No call is cut off while it writes a file, and no process remembers the hash of another jar.
def Careful (version : Version Jar) (s : State Jar) : Event Jar → Prop
  | .call served => s.managedId = none ∨ s.managedId = some (version.hash (version.resolveFile served))
  | .throws => s.call.isCut = false
  | .crash => s.call.isCut = false
  | _ => True

instance (version : Version Jar) (s : State Jar) : (event : Event Jar) → Decidable (Careful version s event)
  | .call _ => inferInstanceAs (Decidable (_ ∨ _))
  | .throws => inferInstanceAs (Decidable (_ = _))
  | .crash => inferInstanceAs (Decidable (_ = _))
  | .decide => isTrue trivial
  | .jillWrites => isTrue trivial
  | .jillEnds => isTrue trivial
  | .hashWrites _ => isTrue trivial
  | .hashEnds => isTrue trivial
  | .clear => isTrue trivial

def Call.pending : Call Jar → Option (Jar × Option String)
  | .resolved jar hash => some (jar, hash)
  | .jilling jar hash => some (jar, hash)
  | .writing jar hash => some (jar, hash)
  | .hashing jar hash => some (jar, some hash)
  | _ => none

-- hash.txt vouches for the last run of jill.
structure Vouched (version : Version Jar) (s : State Jar) : Prop where
  own : ∀ jar hash, s.call.pending = some (jar, hash) → hash = version.hash jar ∧ version.resolveFile jar = jar
  ended : s.call.isCut = false → ∀ jar ended, s.lastJill = some (jar, ended) → ended = true ∧ version.resolveFile jar = jar
  file : s.call.isCut = false → ∀ hash, s.hashFile = some hash →
    ∃ jar, s.lastJill = some (jar, true) ∧ version.hash jar = some hash
  hashing : ∀ jar hash, s.call = .hashing jar hash → s.lastJill = some (jar, true)
  hashed : ∀ hash jar, s.hashFile = some hash → version.hash jar ≠ none

section Careful

variable (version : Version Jar) (s next : State Jar)

theorem resolve_file_resolved (served : Jar) :
    version.resolveFile (version.resolveFile served) = version.resolveFile served := by
  cases version with
  | snapshot jarHash => rfl
  | release jar => rfl

theorem release_file (jar other : Jar) (unhashed : version.hash jar = none) :
    version.resolveFile other = version.resolveFile jar := by
  cases version with
  | snapshot jarHash => exact absurd unhashed (Option.some_ne_none _)
  | release fixed => rfl

theorem hash_kind (jar other : Jar) (hash : String) (hashed : version.hash jar = some hash) : version.hash other ≠ none := by
  cases version with
  | snapshot jarHash => exact Option.some_ne_none _
  | release fixed => exact absurd hashed.symm (Option.some_ne_none hash)

theorem single_vouched (served : Jar) (isOver : s.call.isOver) (vouched : Vouched version s)
    (careful : Careful version s (.call served)) : Vouched version (single version s served) := by
  have uncut : s.call.isCut = false := by
    cases call : s.call with
    | idle => rfl
    | returned jar => rfl
    | _ => simp [call, Call.isOver] at isOver
  refine ⟨?_, fun _ => vouched.ended uncut, fun _ => vouched.file uncut, by simp [single], vouched.hashed⟩
  rintro jar hash ⟨⟩
  refine ⟨?_, resolve_file_resolved version served⟩
  rcases careful with fresh | known
  · simp [fresh]
  · simp [known]

theorem decide_vouched (jar : Jar) (hash : Option String) (here : s.call = .resolved jar hash) (vouched : Vouched version s) :
    Vouched version { s with call := if skips s hash then .returned jar else .jilling jar hash } := by
  have uncut : s.call.isCut = false := by rw [here]; rfl
  refine ⟨?_, fun _ => vouched.ended uncut, fun _ => vouched.file uncut, ?_, vouched.hashed⟩
  · intro other found pending
    by_cases skipped : skips s hash
    · simp [skipped, Call.pending] at pending
    · simp only [skipped, Bool.false_eq_true, if_false, Call.pending, Option.some.injEq, Prod.mk.injEq] at pending
      obtain ⟨rfl, rfl⟩ := pending
      exact vouched.own jar hash (by rw [here]; rfl)
  · intro other found hashing
    by_cases skipped : skips s hash
    · simp [skipped] at hashing
    · simp [skipped] at hashing

theorem jill_writes_vouched (jar : Jar) (hash : Option String)
    (here : s.call = .jilling jar hash ∨ s.call = .writing jar hash) (vouched : Vouched version s) :
    Vouched version (jillWrites s jar hash) := by
  have pending : s.call.pending = some (jar, hash) := by
    rcases here with jilling | writing
    · rw [jilling]
      rfl
    · rw [writing]
      rfl
  refine ⟨?_, nofun, nofun, nofun, vouched.hashed⟩
  rintro other found ⟨⟩
  exact vouched.own jar hash pending

theorem jill_ends_vouched (jar : Jar) (hash : Option String) (here : s.call = .writing jar hash)
    (vouched : Vouched version s) : Vouched version (jillEnds s jar hash) := by
  have own := vouched.own jar hash (by rw [here]; rfl)
  cases hash with
  | some hash =>
      refine ⟨?_, nofun, nofun, ?_, vouched.hashed⟩
      · rintro other found ⟨⟩
        exact own
      · rintro other found ⟨⟩
        rfl
  | none =>
      refine ⟨nofun, ?_, ?_, nofun, vouched.hashed⟩
      · rintro _ other ended ⟨⟩
        exact ⟨rfl, own.2⟩
      · intro _ found stored
        exact absurd own.1.symm (vouched.hashed found jar stored)

theorem hash_ends_vouched (jar : Jar) (hash : String) (here : s.call = .hashing jar hash) (vouched : Vouched version s) :
    Vouched version { s with hashFile := some hash, call := .returned jar } := by
  have own := vouched.own jar (some hash) (by rw [here]; rfl)
  have last := vouched.hashing jar hash here
  refine ⟨nofun, ?_, ?_, nofun, ?_⟩
  · intro _ other ended same
    rw [last] at same
    obtain ⟨rfl, rfl⟩ := Prod.mk.inj (Option.some.inj same)
    exact ⟨rfl, own.2⟩
  · rintro _ found ⟨⟩
    exact ⟨jar, last, own.1.symm⟩
  · exact fun _ other _ => hash_kind version jar other hash own.1.symm

theorem step_vouched (event : Event Jar) (vouched : Vouched version s) (careful : Careful version s event)
    (stepped : step version s event = some next) : Vouched version next := by
  rcases step_cases version s next event stepped with ⟨served, rfl, isOver, rfl⟩ | ⟨jar, hash, _, here, rfl⟩ |
    ⟨jar, hash, _, here, rfl⟩ | ⟨jar, hash, _, here, rfl⟩ | ⟨jar, hash, n, _, here, rfl⟩ | ⟨jar, hash, _, here, rfl⟩ |
    ⟨rfl, rfl⟩ | ⟨rfl, rfl⟩ | ⟨_, _, rfl⟩
  · exact single_vouched version s served isOver vouched careful
  · exact decide_vouched version s jar hash here vouched
  · exact jill_writes_vouched version s jar hash here vouched
  · exact jill_ends_vouched version s jar hash here vouched
  · have own := vouched.own jar (some hash) (by rw [here]; rfl)
    refine ⟨vouched.own, ?_, ?_, vouched.hashing, fun _ other _ => hash_kind version jar other hash own.1.symm⟩
    · simp [here, Call.isCut]
    · simp [here, Call.isCut]
  · exact hash_ends_vouched version s jar hash here vouched
  · exact ⟨nofun, fun _ => vouched.ended careful, fun _ => vouched.file careful, nofun, vouched.hashed⟩
  · exact ⟨nofun, fun _ => vouched.ended careful, fun _ => vouched.file careful, nofun, vouched.hashed⟩
  · exact ⟨vouched.own, vouched.ended, vouched.file, vouched.hashing, vouched.hashed⟩

-- Jars that the version can have do not share a hash.
def Identifies (version : Version Jar) : Prop :=
  ∀ jar other hash, version.hash jar = some hash → version.hash other = some hash → jar = other

theorem vouched_sound (identifies : Identifies version) (event : Event Jar) (kept : Kept s) (vouched : Vouched version s) :
    Sound s event := by
  cases event with
  | decide =>
      intro jar hash here skipped
      obtain ⟨same, resolved⟩ := vouched.own jar hash (by rw [here]; rfl)
      have uncut : s.call.isCut = false := by rw [here]; rfl
      cases hash with
      | some hash =>
          obtain ⟨other, last, hashed⟩ := vouched.file uncut hash (by simpa [skips] using skipped)
          rw [identifies jar other hash same.symm hashed]
          exact last
      | none =>
          cases last : s.lastJill with
          | none => simp [skips, kept.content, last] at skipped
          | some run =>
              obtain ⟨other, ended⟩ := run
              obtain ⟨rfl, resolvedToo⟩ := vouched.ended uncut other ended last
              rw [← resolved, ← resolvedToo, release_file version jar other same.symm]
  | _ => trivial

end Careful

theorem careful_sound (version : Version Jar) (identifies : Identifies version) (events : List (Event Jar))
    (careful : (jillify version).Meets (Careful version) (jillify version).initial events) :
    (jillify version).Meets Sound (jillify version).initial events := by
  apply meets_weaken (jillify version) (Careful version) Sound (fun s => Kept s ∧ Vouched version s) _ _ _ events _ careful
  · rintro s event next ⟨kept, vouched⟩ met stepped
    exact ⟨step_kept version s next event kept stepped, step_vouched version s next event vouched met stepped⟩
  · exact fun s event holds _ => vouched_sound version s identifies event holds.1 holds.2
  · exact ⟨⟨rfl, by simp [jillify]⟩, ⟨nofun, nofun, nofun, nofun, nofun⟩⟩

theorem careful_current (version : Version Jar) (identifies : Identifies version) (events : List (Event Jar)) (final : State Jar)
    (ran : (jillify version).run (jillify version).initial events = some final)
    (careful : (jillify version).Meets (Careful version) (jillify version).initial events) :
    (jillify version).Along Current (jillify version).initial events := by
  have initially : Kept (jillify version).initial := ⟨rfl, by simp [jillify]⟩
  have sound := careful_sound version identifies events careful
  rw [along_of_invariant (jillify version) Kept Current (fun s event next => step_kept version s next event) _ events
    initially]
  apply (along_iff_meets (jillify version) Sound _ _ final events _ _ ran).mpr sound
  · exact fun s event _ next holds stepped => step_current_iff version s next event holds stepped
  · exact ⟨initially, by simp [Current, jillify]⟩

end Calls

-- A snapshot whose jars are told apart by their hashes.
def twoJars : Version Bool := .snapshot (fun jar => if jar then "b" else "a")

-- Two calls in two processes, the second one for another jar.
theorem single_current_iff_two : ∃ final : State Bool,
    (jillify twoJars).run (jillify twoJars).initial
        [.call false, .decide, .jillWrites, .jillEnds, .hashEnds, .crash, .call true, .decide, .jillWrites, .jillEnds,
          .hashEnds] = some final ∧
      (jillify twoJars).Along Current (jillify twoJars).initial
        [.call false, .decide, .jillWrites, .jillEnds, .hashEnds, .crash, .call true, .decide, .jillWrites, .jillEnds,
          .hashEnds] := by
  have identifies : Identifies twoJars := by
    intro jar other hash first second
    have same := Option.some.inj (first.trans second.symm)
    cases jar with
    | false =>
        cases other with
        | false => rfl
        | true => exact absurd same (by decide)
    | true =>
        cases other with
        | false => exact absurd same (by decide)
        | true => rfl
  exact ⟨_, rfl, (single_current_iff twoJars _ _ rfl).mpr (careful_sound twoJars identifies _ (by decide))⟩

-- A release whose first call is cut off in jill.
theorem interrupted_jill_is_returned :
    ¬ ∀ (version : Version Unit) (events : List (Event Unit)) (final : State Unit),
      (jillify version).run (jillify version).initial events = some final → Current final := by
  intro claimed
  have current := claimed (.release ()) [.call (), .decide, .jillWrites, .crash, .call (), .decide] _ rfl () rfl
  exact absurd current (by decide)

-- A snapshot whose hash is again the one that hash.txt kept while jill was cut off for another jar.
example : ((jillify twoJars).run (jillify twoJars).initial
    [.call false, .decide, .jillWrites, .jillEnds, .hashEnds, .crash, .call true, .decide, .jillWrites, .crash,
      .call false, .decide]).map (fun s => (s.call, s.jilled)) = some (.returned false, some (.part true)) := by
  decide

end Toolbox8.Jillify
