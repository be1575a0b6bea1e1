import Mathlib.Logic.Function.Basic
import Toolbox8.Base.Transition
import Toolbox8.Base.Words

set_option autoImplicit false

namespace Toolbox8.BoopickleSerializer

open Base

abbrev Byte : Type := BitVec 8

-- What a boopickle pickler does with a value and with bytes; none is an exception.
structure Pickler (Pickled : Type) where
  pickle : Pickled → Option (List Byte)
  unpickle : List Byte → Option Pickled

-- Ref are the references to the pickler objects, which eq compares.
variable {Pickled Ref : Type}

-- Picklers, with its get.
abbrev Picklers (Ref : Type) : Type := BitVec 32 → Option Ref

section Serializer

variable (deref : Ref → Pickler Pickled) (booId : Pickled → BitVec 32) (map : Picklers Ref)

def toBinary (p : Pickled) : Option (List Byte) := do
  let pickler ← map (booId p)
  let bb ← (deref pickler).pickle p
  some (bigEndian (booId p) ++ bb)

def fromBinary : List Byte → Option Pickled
  | a :: b :: c :: d :: bb => do
      let pickler ← map (ofBigEndian a b c d)
      (deref pickler).unpickle bb
  | _ => none

end Serializer

-- The object that a register call returns, with the arguments that its unregister has of the call.
structure Registration (Ref : Type) where
  call : Nat
  id : BitVec 32
  pickler : Ref
deriving DecidableEq, Repr

-- global is the map of the source. registered are the register calls, the latest one first, and withdrawn those whose
-- own Registration has been unregistered.
structure State (Ref : Type) where
  map : Picklers Ref
  registered : List (Registration Ref)
  withdrawn : List (Registration Ref)

inductive Event (Ref : Type) where
  | register (id : BitVec 32) (pickler : Ref)
  | unregister (registration : Registration Ref)
deriving DecidableEq, Repr

def register (s : State Ref) (id : BitVec 32) (pickler : Ref) : State Ref :=
  ⟨Function.update s.map id (some pickler), ⟨s.registered.length, id, pickler⟩ :: s.registered, s.withdrawn⟩

def latest (s : State Ref) (id : BitVec 32) : Option (Registration Ref) := s.registered.find? (fun r => r.id = id)

theorem register_map (s : State Ref) (id : BitVec 32) (pickler : Ref) : (register s id pickler).map id = some pickler := by
  simp [register]

theorem register_map_other (s : State Ref) (id other : BitVec 32) (pickler : Ref) (apart : id ≠ other) :
    (register s id pickler).map other = s.map other := by
  simp [register, Ne.symm apart]

theorem latest_register (s : State Ref) (id : BitVec 32) (pickler : Ref) :
    latest (register s id pickler) id = some ⟨s.registered.length, id, pickler⟩ := by
  rw [latest, register, List.find?_cons_of_pos (by simp)]

theorem latest_register_other (s : State Ref) (id other : BitVec 32) (pickler : Ref) (apart : id ≠ other) :
    latest (register s id pickler) other = latest s other := by
  rw [latest, register, List.find?_cons_of_neg (by simpa using apart)]
  rfl

-- The most recent register call of an id, where it has not been withdrawn.
def Live (s : State Ref) (id : BitVec 32) (r : Registration Ref) : Prop := latest s id = some r ∧ r ∉ s.withdrawn

def Mapped (s : State Ref) : Prop := ∀ id r, Live s id r → s.map id = some r.pickler

-- The id is mapped to the pickler of the call, and the serializer goes on to work with it.
def Serves (deref : Ref → Pickler Pickled) (booId : Pickled → BitVec 32) (s : State Ref) (id : BitVec 32)
    (r : Registration Ref) : Prop :=
  s.map id = some r.pickler ∧
    (∀ p, booId p = id → toBinary deref booId s.map p = ((deref r.pickler).pickle p).map (fun bb => bigEndian id ++ bb)) ∧
    ∀ bb, fromBinary deref s.map (bigEndian id ++ bb) = (deref r.pickler).unpickle bb

def Resolves (deref : Ref → Pickler Pickled) (booId : Pickled → BitVec 32) (s : State Ref) : Prop :=
  ∀ id r, Live s id r → Serves deref booId s id r

theorem register_mapped (s : State Ref) (id : BitVec 32) (pickler : Ref) (mapped : Mapped s) :
    Mapped (register s id pickler) := by
  rintro other r ⟨found, live⟩
  by_cases same : id = other
  · subst same
    rw [latest_register] at found
    rw [← Option.some.inj found, register_map]
  · rw [latest_register_other s id other pickler same] at found
    rw [register_map_other s id other pickler same]
    exact mapped other r ⟨found, live⟩

section Serving

variable (deref : Ref → Pickler Pickled) (booId : Pickled → BitVec 32)

theorem mapped_serves (s : State Ref) (id : BitVec 32) (r : Registration Ref) (mapped : s.map id = some r.pickler) :
    Serves deref booId s id r := by
  refine ⟨mapped, ?_, ?_⟩
  · intro p own
    rw [toBinary, own, mapped, Option.bind_eq_bind, Option.bind_some]
    cases (deref r.pickler).pickle p with
    | none => rfl
    | some bb => rfl
  · intro bb
    rw [bigEndian, List.cons_append, List.cons_append, List.cons_append, List.cons_append, List.nil_append, fromBinary,
      of_big_endian_bytes, mapped]
    rfl

theorem resolves_iff_mapped (s : State Ref) : Resolves deref booId s ↔ Mapped s := by
  constructor
  · exact fun resolves id r live => (resolves id r live).1
  · exact fun mapped id r live => mapped_serves deref booId s id r (mapped id r live)

end Serving

section Withdrawals

variable [DecidableEq Ref]

def unregister (s : State Ref) (r : Registration Ref) : State Ref :=
  ⟨if s.map r.id = some r.pickler then Function.update s.map r.id none else s.map, s.registered, r :: s.withdrawn⟩

-- Each transform of the Atomic is one step.
def step (s : State Ref) : Event Ref → Option (State Ref)
  | .register id pickler => some (register s id pickler)
  | .unregister r => if r ∈ s.registered then some (unregister s r) else none

def global : Machine (State Ref) (Event Ref) where
  initial := ⟨fun _ => none, [], []⟩
  step := step

-- Only the unregister of an older registration does harm, while the most recent one of the id is live and of the same
-- pickler object.
def Harmless (s : State Ref) : Event Ref → Prop
  | .register _ _ => True
  | .unregister r => ∀ newest, Live s r.id newest → newest ≠ r → newest.pickler ≠ r.pickler

theorem live_unregister (s : State Ref) (r : Registration Ref) (id : BitVec 32) (newest : Registration Ref) :
    Live (unregister s r) id newest ↔ Live s id newest ∧ newest ≠ r := by
  have same : latest (unregister s r) id = latest s id := rfl
  have withdrawn : (unregister s r).withdrawn = r :: s.withdrawn := rfl
  rw [Live, Live, same, withdrawn, List.mem_cons, not_or]
  exact ⟨fun ⟨found, apart, live⟩ => ⟨⟨found, live⟩, apart⟩, fun ⟨⟨found, live⟩, apart⟩ => ⟨found, apart, live⟩⟩

theorem map_unregister_other (s : State Ref) (r : Registration Ref) (id : BitVec 32) (apart : id ≠ r.id) :
    (unregister s r).map id = s.map id := by
  simp only [unregister]
  split
  · rw [Function.update_of_ne apart]
  · rfl

theorem map_unregister (s : State Ref) (r : Registration Ref) (pickler : Ref) (mapped : s.map r.id = some pickler) :
    (unregister s r).map r.id = some pickler ↔ pickler ≠ r.pickler := by
  simp only [unregister, mapped, Option.some.injEq]
  by_cases same : pickler = r.pickler
  · simp [same]
  · simp [same, mapped]

theorem unregister_mapped_iff (s : State Ref) (r : Registration Ref) (mapped : Mapped s) :
    Mapped (unregister s r) ↔ Harmless s (.unregister r) := by
  constructor
  · intro after newest live apart
    rw [← map_unregister s r newest.pickler (mapped r.id newest live)]
    exact after r.id newest ((live_unregister s r r.id newest).mpr ⟨live, apart⟩)
  · intro harmless id newest liveAfter
    obtain ⟨live, apart⟩ := (live_unregister s r id newest).mp liveAfter
    by_cases same : id = r.id
    · subst same
      rw [map_unregister s r newest.pickler (mapped r.id newest live)]
      exact harmless newest live apart
    · rw [map_unregister_other s r id same]
      exact mapped id newest live

theorem step_mapped_iff (s : State Ref) (event : Event Ref) (next : State Ref) (mapped : Mapped s)
    (stepped : step s event = some next) : Mapped next ↔ Harmless s event := by
  cases event with
  | register id pickler =>
      rw [← Option.some.inj stepped]
      exact iff_of_true (register_mapped s id pickler mapped) trivial
  | unregister r =>
      rw [step] at stepped
      by_cases known : r ∈ s.registered
      · rw [if_pos known] at stepped
        rw [← Option.some.inj stepped]
        exact unregister_mapped_iff s r mapped
      · simp [known] at stepped

theorem resolves_iff_harmless (deref : Ref → Pickler Pickled) (booId : Pickled → BitVec 32) (events : List (Event Ref))
    (final : State Ref)
    (ran : global.run global.initial events = some final) :
    global.Along (Resolves deref booId) global.initial events ↔ global.Meets Harmless global.initial events := by
  have same : Resolves deref booId = Mapped := funext (fun s => propext (resolves_iff_mapped deref booId s))
  rw [same]
  apply along_iff_meets global Harmless Mapped global.initial final events _ _ ran
  · exact fun s event _ next mapped stepped => step_mapped_iff s event next mapped stepped
  · rintro id r ⟨found, _⟩
    simp [latest, global] at found

end Withdrawals

-- Two pickler objects for values that are their own bytes, with the id 0.
def bytePickler (_ : Bool) : Pickler Byte := ⟨fun p => some [p], fun bb => bb.head?⟩

theorem resolves_iff_harmless_two : ∃ final : State Bool,
    global.run global.initial [.register 0 false, .register 0 true, .unregister ⟨0, 0, false⟩] = some final ∧
      global.Along (Resolves bytePickler (fun _ => 0)) global.initial
        [.register 0 false, .register 0 true, .unregister ⟨0, 0, false⟩] := by
  refine ⟨_, rfl, (resolves_iff_harmless bytePickler (fun _ => 0) _ _ rfl).mpr ⟨trivial, ?_⟩⟩
  rintro _ ⟨⟩
  refine ⟨trivial, ?_⟩
  rintro _ ⟨⟩
  refine ⟨?_, fun _ _ => trivial⟩
  rintro newest ⟨found, _⟩ _
  have second : newest = ⟨1, 0, true⟩ := Option.some.inj (found.symm.trans (by decide))
  rw [second]
  decide

-- One pickler object is registered twice, and the first of the two registrations is withdrawn.
theorem older_unregister_removes :
    ¬ ∀ (events : List (Event Unit)) (final : State Unit), global.run global.initial events = some final →
      Resolves (fun _ => bytePickler true) (fun _ => 0) final := by
  intro claimed
  have resolves := claimed [.register 0 (), .register 0 (), .unregister ⟨0, 0, ()⟩] _ rfl
  have serves := resolves 0 ⟨1, 0, ()⟩ ⟨by decide, by decide⟩
  exact absurd serves.1 (by decide)

end Toolbox8.BoopickleSerializer
