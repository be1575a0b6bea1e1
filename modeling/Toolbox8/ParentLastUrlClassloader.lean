import Toolbox8.Base.Parties

set_option autoImplicit false

namespace Toolbox8.ParentLastUrlClassloader

open Base

variable {Code Other : Type}

-- The class file that a jar has for the name of a class.
abbrev Jar (Code : Type) := String → Option Code

-- A class loader of another kind gives the same class each time or throws a ClassNotFoundException.
inductive Parent (Other : Type)
  | parentLast (id : Nat)
  | other (loadClass : String → Option Other)

-- A class loader is made when its parent is there, so the parent is the older one.
structure Loaders (Code Other : Type) where
  urls : Nat → List (Jar Code)
  parent : Nat → Parent Other
  older : ∀ id p, parent id = .parentLast p → p < id

-- URLClassLoader looks through its jars in order.
def Loaders.findResource (loaders : Loaders Code Other) (id : Nat) (name : String) : Option Code :=
  (loaders.urls id).findSome? (fun jar => jar name)

-- defineClass refuses these names with a SecurityException.
def prohibited (name : String) : Bool := "java.".toList.isPrefixOf name.toList

-- The class file that findClass defines. Try takes the exceptions of the other cases.
def Loaders.findClass (loaders : Loaders Code Other) (id : Nat) (name : String) : Option Code :=
  if prohibited name then none else loaders.findResource id name

-- A class that defineClass has made is known by the number of its object.
inductive LoadedClass (Other : Type)
  | other (c : Other)
  | defined (object : Nat)
deriving DecidableEq

-- With the call that has defined it.
structure Defined (Code : Type) where
  call : Nat
  loader : Nat
  name : String
  code : Code
deriving DecidableEq

-- The classes in the order in which they were defined, the classes that each loader is
-- recorded for as an initiating loader, and the locks of the loaders with the calls that
-- hold them.
structure Shared (Code Other : Type) where
  classes : List (Defined Code)
  initiating : Nat → String → Option (LoadedClass Other)
  locks : Nat → Option Nat

def Shared.findLoadedClass (s : Shared Code Other) (id : Nat) (name : String) : Option (LoadedClass Other) :=
  s.initiating id name

def Shared.initiate (s : Shared Code Other) (id : Nat) (name : String) (c : LoadedClass Other) : Shared Code Other :=
  { s with initiating := Function.update s.initiating id (Function.update (s.initiating id) name (some c)) }

-- None is the LinkageError of a duplicate definition.
def Shared.defineClass (s : Shared Code Other) (d : Defined Code) : Option (Shared Code Other × LoadedClass Other) :=
  match s.findLoadedClass d.loader d.name with
  | some _ => none
  | none =>
      some ({ s.initiate d.loader d.name (.defined s.classes.length) with classes := s.classes ++ [d] },
        .defined s.classes.length)

def Shared.setLock (s : Shared Code Other) (id : Nat) (holder : Option Nat) : Shared Code Other :=
  { s with locks := Function.update s.locks id holder }

-- Both kinds of LinkageError come with the loader whose defineClass throws them: a duplicate also with the number of classes
-- there were when the call had last looked for its own, and the refusal of a class file that is not well formed or has a
-- supertype that cannot be loaded.
inductive Outcome (Other : Type)
  | loaded (c : LoadedClass Other)
  | classNotFound
  | securityException
  | duplicate (id : Nat) (seen : Nat)
  | refused (id : Nat)
deriving DecidableEq

-- What findClass throws where it defines no class.
def Loaders.findFails (loaders : Loaders Code Other) (id : Nat) (name : String) : Outcome Other :=
  if (loaders.findResource id name).isSome then .securityException else .classNotFound

-- A super.loadClass that waits for its parent, with its lock, and the classes its check saw.
structure Frame where
  loader : Nat
  seen : Nat
deriving DecidableEq

inductive Phase (Code Other : Type)
  | checking (id : Nat) (held : List Frame)
  | finding (id : Nat) (seen : Nat) (held : List Frame)
  | defining (id : Nat) (code : Code) (seen : Nat) (held : List Frame)
  | locking (id : Nat) (held : List Frame)
  | rechecking (id : Nat) (held : List Frame)
  | asking (id : Nat) (seen : Nat) (held : List Frame)
  | refinding (id : Nat) (seen : Nat) (held : List Frame)
  | leaving (outcome : Outcome Other) (held : List Frame)
  | returned (outcome : Outcome Other)

structure Request where
  loader : Nat
  name : String
deriving DecidableEq

structure Call (Code Other : Type) extends Request where
  phase : Phase Code Other

def advance (loaders : Loaders Code Other) (index : Nat) (s : Shared Code Other) (name : String) :
    Phase Code Other → Option (Shared Code Other × Phase Code Other)
  | .checking id held =>
      match s.findLoadedClass id name with
      | some c => some (s, .leaving (.loaded c) held)
      | none => some (s, .finding id s.classes.length held)
  | .finding id seen held =>
      match loaders.findClass id name with
      | some code => some (s, .defining id code seen held)
      | none => some (s, .locking id held)
  -- A LinkageError is fatal to Try and to super.loadClass, it passes them.
  | .defining id code seen held =>
      match s.defineClass ⟨index, id, name, code⟩ with
      | some (after, c) => some (after, .leaving (.loaded c) held)
      | none => some (s, .leaving (.duplicate id seen) held)
  -- super.loadClass is synchronized on the loader.
  | .locking id held =>
      match s.locks id with
      | some _ => none
      | none => some (s.setLock id (some index), .rechecking id held)
  | .rechecking id held =>
      match s.findLoadedClass id name with
      | some c => some (s, .leaving (.loaded c) (⟨id, s.classes.length⟩ :: held))
      | none => some (s, .asking id s.classes.length held)
  | .asking id seen held =>
      match loaders.parent id with
      | .parentLast p => some (s, .checking p (⟨id, seen⟩ :: held))
      | .other loadClass =>
          match loadClass name with
          | some c => some (s, .leaving (.loaded (.other c)) (⟨id, seen⟩ :: held))
          | none => some (s, .refinding id seen held)
  | .refinding id seen held =>
      match loaders.findClass id name with
      | some code => some (s, .defining id code seen (⟨id, seen⟩ :: held))
      | none => some (s, .leaving (loaders.findFails id name) (⟨id, seen⟩ :: held))
  -- super.loadClass of the child catches the ClassNotFoundException of its parent only.
  | .leaving outcome [] => some (s, .returned outcome)
  | .leaving .classNotFound (frame :: below :: held) =>
      some (s.setLock frame.loader none, .refinding below.loader below.seen held)
  | .leaving outcome (frame :: held) => some (s.setLock frame.loader none, .leaving outcome held)
  | .returned _ => none

-- A defineClass may refuse the class file. The virtual machine records the loader of a call of its own when the call has
-- returned; its loads of supertypes are calls like the others.
inductive Event
  | go
  | refuse
  | record
deriving DecidableEq

def Event.isStep : Event → Bool
  | .record => false
  | _ => true

def act (loaders : Loaders Code Other) (index : Nat) (s : Shared Code Other) (p : Call Code Other) :
    Event → Option (Shared Code Other × Call Code Other)
  | .go => (advance loaders index s p.name p.phase).map (fun after => (after.1, { p with phase := after.2 }))
  | .refuse =>
      match p.phase with
      | .defining id _ _ held => some (s, { p with phase := .leaving (.refused id) held })
      | _ => none
  | .record =>
      match p.phase, s.findLoadedClass p.loader p.name with
      | .returned (.loaded c), none => some (s.initiate p.loader p.name c, p)
      | _, _ => none

def loadClass (r : Request) : Call Code Other := ⟨r, .checking r.loader []⟩

def start (calls : List Request) : Joint (Shared Code Other) (Call Code Other) :=
  ⟨⟨[], fun _ _ => none, fun _ => none⟩, calls.map loadClass⟩

def system (loaders : Loaders Code Other) (calls : List Request) :
    Machine (Joint (Shared Code Other) (Call Code Other)) (Nat × Event) :=
  joint (act loaders) (start calls)

-- What a class is for a loader, whatever is loaded: its own class file before its parent's.
inductive Origin (Code Other : Type)
  | own (id : Nat) (code : Code)
  | other (c : Other)
  | missing
deriving DecidableEq

def Loaders.nearest (loaders : Loaders Code Other) (name : String) (id : Nat) : Origin Code Other :=
  match loaders.findClass id name with
  | some code => .own id code
  | none =>
      match _ : loaders.parent id with
      | .parentLast p => loaders.nearest name p
      | .other loadClass =>
          match loadClass name with
          | some c => .other c
          | none => .missing
termination_by id
decreasing_by exact loaders.older id p ‹_›

-- The class object that the calls see is of this origin.
def Shared.Is (s : Shared Code Other) (name : String) : LoadedClass Other → Origin Code Other → Prop
  | .other c, origin => origin = .other c
  | .defined object, origin => ∃ d, s.classes[object]? = some d ∧ d.name = name ∧ origin = .own d.loader d.code

-- A call that fails has lost its class to another call, which has defined it after this one had looked for it.
def Shared.LostRace (s : Shared Code Other) (index : Nat) (name : String) (id seen : Nat) (origin : Origin Code Other) :
    Prop :=
  ∃ object d, seen ≤ object ∧ s.classes[object]? = some d ∧ d.name = name ∧ d.loader = id ∧ d.call ≠ index ∧
    origin = .own id d.code

def Ends (loaders : Loaders Code Other) (index : Nat) (s : Shared Code Other) (r : Request) : Outcome Other → Prop
  | .loaded c => s.Is r.name c (loaders.nearest r.name r.loader)
  | .classNotFound => loaders.nearest r.name r.loader = .missing
  | .securityException => loaders.nearest r.name r.loader = .missing ∧ prohibited r.name = true
  | .duplicate id seen => s.LostRace index r.name id seen (loaders.nearest r.name r.loader)
  | .refused id => ∃ code, loaders.nearest r.name r.loader = .own id code

section Nearest

variable (loaders : Loaders Code Other) (name : String) (id : Nat)

theorem nearest_own (code : Code) (found : loaders.findClass id name = some code) :
    loaders.nearest name id = .own id code := by
  unfold Loaders.nearest
  rw [found]

theorem nearest_parent (p : Nat) (absent : loaders.findClass id name = none) (above : loaders.parent id = .parentLast p) :
    loaders.nearest name id = loaders.nearest name p := by
  conv_lhs => unfold Loaders.nearest
  simp only [absent]
  split
  · rename_i q same
    rw [above, Parent.parentLast.injEq] at same
    rw [same]
  · rename_i same
    simp [above] at same

theorem nearest_other (load : String → Option Other) (absent : loaders.findClass id name = none)
    (above : loaders.parent id = .other load) :
    loaders.nearest name id = match load name with
      | some c => .other c
      | none => .missing := by
  unfold Loaders.nearest
  simp only [absent]
  split
  · rename_i same
    simp [above] at same
  · rename_i same
    rw [above, Parent.other.injEq] at same
    rw [same]

end Nearest

-- What the other calls leave alone while one call goes on: the classes that are there, and which locks this call has.
structure Shared.Extends (index : Nat) (s after : Shared Code Other) : Prop where
  classes : s.classes <+: after.classes
  mine : ∀ d ∈ after.classes, d.call = index → d ∈ s.classes
  locks : ∀ id, after.locks id = some index ↔ s.locks id = some index

-- There were so many classes when the call looked for its own, and it was not one of them.
def Shared.Unseen (s : Shared Code Other) (id : Nat) (name : String) (seen : Nat) : Prop :=
  seen ≤ s.classes.length ∧ ∀ object d, s.classes[object]? = some d → d.loader = id → d.name = name → seen ≤ object

def Frames (loaders : Loaders Code Other) (name : String) (ids : List Nat) : Prop :=
  ids.Pairwise (· < ·) ∧ ∀ id ∈ ids, loaders.findClass id name = none

-- A call that is at a loader: the loaders it has passed have not got the class, so the class is what it is for this one.
structure At (loaders : Loaders Code Other) (r : Request) (id : Nat) (held : List Frame) : Prop where
  same : loaders.nearest r.name r.loader = loaders.nearest r.name id
  rising : ∀ frame ∈ held, id < frame.loader
  passed : Frames loaders r.name (held.map Frame.loader)

def Phase.holding : Phase Code Other → List Nat
  | .checking _ held => held.map Frame.loader
  | .finding _ _ held => held.map Frame.loader
  | .defining _ _ _ held => held.map Frame.loader
  | .locking _ held => held.map Frame.loader
  | .rechecking id held => id :: held.map Frame.loader
  | .asking id _ held => id :: held.map Frame.loader
  | .refinding id _ held => id :: held.map Frame.loader
  | .leaving _ held => held.map Frame.loader
  | .returned _ => []

def Phase.undefined : Phase Code Other → Prop
  | .refinding _ _ _ => False
  | .leaving _ _ => False
  | .returned _ => False
  | _ => True

def Progress (loaders : Loaders Code Other) (index : Nat) (s : Shared Code Other) (r : Request) : Phase Code Other → Prop
  | .checking id held => At loaders r id held
  | .finding id seen held => At loaders r id held ∧ s.Unseen id r.name seen
  | .defining id code seen held =>
      At loaders r id held ∧ s.Unseen id r.name seen ∧ loaders.findClass id r.name = some code
  | .locking id held => At loaders r id held ∧ loaders.findClass id r.name = none
  | .rechecking id held => At loaders r id held ∧ loaders.findClass id r.name = none
  | .asking id _ held => At loaders r id held ∧ loaders.findClass id r.name = none
  | .refinding id _ held => loaders.nearest r.name r.loader = .missing ∧ Frames loaders r.name (id :: held.map Frame.loader)
  | .leaving outcome held => Ends loaders index s r outcome ∧ Frames loaders r.name (held.map Frame.loader)
  | .returned outcome => Ends loaders index s r outcome

structure Knows (loaders : Loaders Code Other) (calls : List Request) (index : Nat) (s : Shared Code Other)
    (p : Call Code Other) : Prop where
  call : calls[index]? = some p.toRequest
  progress : Progress loaders index s p.toRequest p.phase
  undefined : p.phase.undefined → ∀ d ∈ s.classes, d.call ≠ index
  locks : ∀ id, s.locks id = some index ↔ id ∈ p.phase.holding

structure Agreed (loaders : Loaders Code Other) (n : Nat) (s : Shared Code Other) : Prop where
  recorded : ∀ id name c, s.findLoadedClass id name = some c → s.Is name c (loaders.nearest name id)
  initiated : ∀ object d, s.classes[object]? = some d → s.findLoadedClass d.loader d.name = some (.defined object)
  holders : ∀ id q, s.locks id = some q → q < n

section Shared

variable (s after : Shared Code Other)

theorem define_class_some (d : Defined Code) (c : LoadedClass Other) (defined : s.defineClass d = some (after, c)) :
    s.findLoadedClass d.loader d.name = none ∧ c = .defined s.classes.length ∧
      after = { s.initiate d.loader d.name c with classes := s.classes ++ [d] } := by
  unfold Shared.defineClass at defined
  cases found : s.findLoadedClass d.loader d.name with
  | some c => simp [found] at defined
  | none =>
      simp only [found, Option.some.injEq, Prod.mk.injEq] at defined
      obtain ⟨same, rfl⟩ := defined
      exact ⟨rfl, rfl, same.symm⟩

theorem define_class_none (d : Defined Code) (failed : s.defineClass d = none) :
    ∃ c, s.findLoadedClass d.loader d.name = some c := by
  unfold Shared.defineClass at failed
  cases found : s.findLoadedClass d.loader d.name with
  | some c => exact ⟨c, rfl⟩
  | none => simp [found] at failed

theorem find_loaded_initiate (id : Nat) (name : String) (c : LoadedClass Other) (other : Nat) (sought : String) :
    (s.initiate id name c).findLoadedClass other sought =
      if other = id ∧ sought = name then some c else s.findLoadedClass other sought := by
  by_cases loader : other = id
  · subst loader
    by_cases same : sought = name
    · simp [Shared.findLoadedClass, Shared.initiate, same]
    · simp [Shared.findLoadedClass, Shared.initiate, same]
  · simp [Shared.findLoadedClass, Shared.initiate, loader]

@[simp] theorem locks_set_lock (id : Nat) (holder : Option Nat) (sought : Nat) :
    (s.setLock id holder).locks sought = if sought = id then holder else s.locks sought :=
  Function.update_apply s.locks id holder sought

theorem class_of_extends (extended : s.classes <+: after.classes) (object : Nat) (d : Defined Code)
    (found : s.classes[object]? = some d) : after.classes[object]? = some d := by
  obtain ⟨more, same⟩ := extended
  rw [← same, List.getElem?_append_left (List.getElem?_eq_some_iff.mp found).1, found]

theorem is_of_extends (name : String) (c : LoadedClass Other) (origin : Origin Code Other)
    (extended : s.classes <+: after.classes) (here : s.Is name c origin) : after.Is name c origin := by
  cases c with
  | other c => exact here
  | defined object =>
      obtain ⟨d, found, rest⟩ := here
      exact ⟨d, class_of_extends s after extended object d found, rest⟩

theorem unseen_of_extends (id : Nat) (name : String) (seen : Nat) (extended : s.classes <+: after.classes)
    (unseen : s.Unseen id name seen) : after.Unseen id name seen := by
  obtain ⟨short, before⟩ := unseen
  refine ⟨short.trans extended.length_le, fun object d found loader same => ?_⟩
  by_cases old : object < s.classes.length
  · obtain ⟨more, split⟩ := extended
    rw [← split, List.getElem?_append_left old] at found
    exact before object d found loader same
  · omega

end Shared

section Others

variable (loaders : Loaders Code Other) (calls : List Request) (index : Nat) (s after : Shared Code Other)
  (r : Request) (p : Call Code Other)

theorem ends_of_extends (outcome : Outcome Other) (extended : s.classes <+: after.classes)
    (ends : Ends loaders index s r outcome) : Ends loaders index after r outcome := by
  cases outcome with
  | loaded c => exact is_of_extends s after r.name c _ extended ends
  | classNotFound => exact ends
  | securityException => exact ends
  | duplicate id seen =>
      obtain ⟨object, d, later, found, rest⟩ := ends
      exact ⟨object, d, later, class_of_extends s after extended object d found, rest⟩
  | refused id => exact ends

theorem progress_of_extends (phase : Phase Code Other) (extended : s.classes <+: after.classes)
    (progress : Progress loaders index s r phase) : Progress loaders index after r phase := by
  cases phase with
  | finding id seen held => exact ⟨progress.1, unseen_of_extends s after id r.name seen extended progress.2⟩
  | defining id code seen held =>
      obtain ⟨here, unseen, own⟩ := progress
      exact ⟨here, unseen_of_extends s after id r.name seen extended unseen, own⟩
  | leaving outcome held => exact ⟨ends_of_extends loaders index s after r outcome extended progress.1, progress.2⟩
  | returned outcome => exact ends_of_extends loaders index s after r outcome extended progress
  | _ => exact progress

theorem knows_of_extends (knows : Knows loaders calls index s p) (extended : s.Extends index after) :
    Knows loaders calls index after p where
  call := knows.call
  progress := progress_of_extends loaders index s after p.toRequest p.phase extended.classes knows.progress
  undefined := fun unfinished d member mine => knows.undefined unfinished d (extended.mine d member mine) mine
  locks := fun id => (extended.locks id).trans (knows.locks id)

end Others

-- All that one step of a call can do to what the calls share.
inductive Effect (loaders : Loaders Code Other) (index : Nat) (s : Shared Code Other) : Shared Code Other → Prop
  | same : Effect loaders index s s
  | lock (id : Nat) (free : s.locks id = none) : Effect loaders index s (s.setLock id (some index))
  | unlock (id : Nat) (mine : s.locks id = some index) : Effect loaders index s (s.setLock id none)
  | define (d : Defined Code) (c : LoadedClass Other) (after : Shared Code Other) (mine : d.call = index)
      (own : loaders.findClass d.loader d.name = some d.code) (defined : s.defineClass d = some (after, c)) :
      Effect loaders index s after
  | record (id : Nat) (name : String) (c : LoadedClass Other) (absent : s.findLoadedClass id name = none)
      (here : s.Is name c (loaders.nearest name id)) : Effect loaders index s (s.initiate id name c)

section Effects

variable (loaders : Loaders Code Other) (index : Nat) (s after : Shared Code Other)

theorem effect_extends (other : Nat) (different : other ≠ index) (effect : Effect loaders index s after) :
    s.Extends other after := by
  cases effect with
  | same => exact ⟨List.prefix_rfl, fun _ member _ => member, fun _ => Iff.rfl⟩
  | lock id free =>
      refine ⟨List.prefix_rfl, fun _ member _ => member, fun sought => ?_⟩
      by_cases same : sought = id
      · simp [same, free, Ne.symm different]
      · simp [same]
  | unlock id mine =>
      refine ⟨List.prefix_rfl, fun _ member _ => member, fun sought => ?_⟩
      by_cases same : sought = id
      · simp [same, mine, Ne.symm different]
      · simp [same]
  | define d c after mine own defined =>
      obtain ⟨_, _, rfl⟩ := define_class_some s after d c defined
      refine ⟨List.prefix_append _ _, fun x member theirs => ?_, fun _ => Iff.rfl⟩
      rcases List.mem_append.mp member with old | new
      · exact old
      · rw [List.mem_singleton] at new
        subst new
        exact absurd (theirs.symm.trans mine) different
  | record id name c absent here => exact ⟨List.prefix_rfl, fun _ member _ => member, fun _ => Iff.rfl⟩

theorem effect_agreed (n : Nat) (short : index < n) (agreed : Agreed loaders n s) (effect : Effect loaders index s after) :
    Agreed loaders n after := by
  obtain ⟨recorded, initiated, holders⟩ := agreed
  cases effect with
  | same => exact ⟨recorded, initiated, holders⟩
  | lock id free =>
      refine ⟨recorded, initiated, fun sought q held => ?_⟩
      rw [locks_set_lock] at held
      split at held
      · exact Option.some.inj held ▸ short
      · exact holders sought q held
  | unlock id mine =>
      refine ⟨recorded, initiated, fun sought q held => ?_⟩
      rw [locks_set_lock] at held
      split at held
      · exact absurd held.symm (Option.some_ne_none q)
      · exact holders sought q held
  | define d c after mine own defined =>
      obtain ⟨absent, rfl, rfl⟩ := define_class_some s after d c defined
      have grows : s.classes <+: s.classes ++ [d] := List.prefix_append _ _
      refine ⟨fun id name c found => ?_, fun object x found => ?_, holders⟩
      · have looked := (find_loaded_initiate s d.loader d.name (.defined s.classes.length) id name).symm.trans found
        split at looked
        · rename_i same
          obtain ⟨rfl, rfl⟩ := same
          obtain rfl := Option.some.inj looked
          exact ⟨d, List.getElem?_concat_length, rfl, nearest_own loaders d.name d.loader d.code own⟩
        · exact is_of_extends s _ name c _ grows (recorded id name c looked)
      · have look := find_loaded_initiate s d.loader d.name (.defined s.classes.length) x.loader x.name
        refine Eq.trans look ?_
        by_cases old : object < s.classes.length
        · rw [List.getElem?_append_left old] at found
          have known := initiated object x found
          rw [if_neg, known]
          rintro ⟨loader, same⟩
          rw [loader, same, absent] at known
          exact Option.some_ne_none _ known.symm
        · obtain ⟨inside, same⟩ := List.getElem?_eq_some_iff.mp found
          obtain rfl : object = s.classes.length := by
            simp only [List.length_append, List.length_singleton] at inside
            omega
          rw [List.getElem?_concat_length, Option.some.injEq] at found
          subst found
          rw [if_pos ⟨rfl, rfl⟩]
  | record id name c absent here =>
      refine ⟨fun other sought x found => ?_, fun object x found => ?_, holders⟩
      · rw [find_loaded_initiate] at found
        split at found
        · rename_i same
          obtain ⟨rfl, rfl⟩ := same
          obtain rfl := Option.some.inj found
          exact here
        · exact recorded other sought x found
      · have known := initiated object x found
        rw [find_loaded_initiate, if_neg, known]
        rintro ⟨loader, same⟩
        rw [loader, same, absent] at known
        exact Option.some_ne_none _ known.symm

end Effects

section Calls

variable (loaders : Loaders Code Other) (calls : List Request) (n index : Nat) (s after : Shared Code Other)
  (r : Request) (p : Call Code Other) (phase : Phase Code Other)

theorem frames_of_at (id : Nat) (held : List Frame) (here : At loaders r id held)
    (absent : loaders.findClass id r.name = none) : Frames loaders r.name (id :: held.map Frame.loader) := by
  obtain ⟨rising, passed⟩ := here.passed
  refine ⟨List.pairwise_cons.mpr ⟨fun x member => ?_, rising⟩, fun x member => ?_⟩
  · obtain ⟨frame, inside, rfl⟩ := List.mem_map.mp member
    exact here.rising frame inside
  · rcases List.mem_cons.mp member with rfl | above
    · exact absent
    · exact passed x above

theorem at_parent (id q seen : Nat) (held : List Frame) (here : At loaders r id held)
    (absent : loaders.findClass id r.name = none) (above : loaders.parent id = .parentLast q) :
    At loaders r q (⟨id, seen⟩ :: held) where
  same := here.same.trans (nearest_parent loaders r.name id q absent above)
  rising := fun frame member => by
    have older := loaders.older id q above
    rcases List.mem_cons.mp member with rfl | inside
    · exact older
    · exact older.trans (here.rising frame inside)
  passed := frames_of_at loaders r id held here absent

theorem find_fails (id : Nat) (missing : loaders.nearest r.name r.loader = .missing)
    (absent : loaders.findClass id r.name = none) : Ends loaders index s r (loaders.findFails id r.name) := by
  rw [Loaders.findClass] at absent
  cases found : loaders.findResource id r.name with
  | none =>
      rw [Loaders.findFails, found]
      exact missing
  | some code =>
      rw [Loaders.findFails, found]
      refine ⟨missing, ?_⟩
      by_contra allowed
      rw [if_neg allowed, found] at absent
      cases absent

theorem knows_moves (knows : Knows loaders calls index s p) (progress : Progress loaders index s p.toRequest phase)
    (undefined : phase.undefined → p.phase.undefined) (holding : phase.holding = p.phase.holding) :
    Knows loaders calls index s { p with phase := phase } where
  call := knows.call
  progress := progress
  undefined := fun unfinished => knows.undefined (undefined unfinished)
  locks := fun id => by rw [knows.locks id, holding]

theorem recorded_ends (agreed : Agreed loaders n s) (id : Nat) (held : List Frame) (here : At loaders r id held)
    (c : LoadedClass Other) (found : s.findLoadedClass id r.name = some c) : Ends loaders index s r (.loaded c) := by
  have known := agreed.recorded id r.name c found
  rwa [← here.same] at known

theorem unseen_of_absent (agreed : Agreed loaders n s) (id : Nat) (name : String)
    (absent : s.findLoadedClass id name = none) : s.Unseen id name s.classes.length := by
  refine ⟨Nat.le_refl _, fun object d found loader same => ?_⟩
  have known := agreed.initiated object d found
  rw [loader, same, absent] at known
  exact absurd known.symm (Option.some_ne_none _)

theorem lost_race (agreed : Agreed loaders n s) (knows : Knows loaders calls index s p) (id seen : Nat) (code : Code)
    (held : List Frame) (phased : p.phase = .defining id code seen held) (c : LoadedClass Other)
    (found : s.findLoadedClass id p.name = some c) : Ends loaders index s p.toRequest (.duplicate id seen) := by
  have progress := knows.progress
  rw [phased] at progress
  obtain ⟨here, unseen, own⟩ := progress
  have known := recorded_ends loaders n index s p.toRequest agreed id held here c found
  have origin := here.same.trans (nearest_own loaders p.name id code own)
  cases c with
  | other c => exact absurd (known.symm.trans origin) (by simp)
  | defined object =>
      obtain ⟨d, defined, same, lost⟩ := known
      obtain ⟨rfl, rfl⟩ := Origin.own.inj (lost.symm.trans origin)
      have foreign := knows.undefined (by rw [phased]; trivial) d (List.mem_of_getElem? defined)
      exact ⟨object, d, unseen.2 object d defined rfl same, defined, same, rfl, foreign, lost⟩

theorem define_knows (knows : Knows loaders calls index s p) (id seen : Nat) (code : Code)
    (held : List Frame) (phased : p.phase = .defining id code seen held) (c : LoadedClass Other)
    (defined : s.defineClass ⟨index, id, p.name, code⟩ = some (after, c)) :
    Knows loaders calls index after { p with phase := .leaving (.loaded c) held } := by
  have progress := knows.progress
  rw [phased] at progress
  obtain ⟨here, unseen, own⟩ := progress
  obtain ⟨_, rfl, rfl⟩ := define_class_some s after _ c defined
  refine ⟨knows.call, ⟨?_, here.passed⟩, fun unfinished => unfinished.elim, fun x => ?_⟩
  · exact ⟨_, List.getElem?_concat_length, rfl, here.same.trans (nearest_own loaders p.name id code own)⟩
  · have locks := knows.locks x
    rwa [phased] at locks

theorem lock_knows (knows : Knows loaders calls index s p) (id : Nat) (held : List Frame) (phased : p.phase = .locking id held) :
    Knows loaders calls index (s.setLock id (some index)) { p with phase := .rechecking id held } := by
  have progress := knows.progress
  rw [phased] at progress
  refine ⟨knows.call, progress, fun _ => knows.undefined (by rw [phased]; trivial), fun x => ?_⟩
  rw [locks_set_lock]
  by_cases same : x = id
  · simp [same, Phase.holding]
  · have locks := knows.locks x
    rw [phased] at locks
    simpa [same, Phase.holding] using locks

theorem unlock_knows (knows : Knows loaders calls index s p) (outcome : Outcome Other) (frame : Frame) (held : List Frame)
    (phased : p.phase = .leaving outcome (frame :: held)) (progress : Progress loaders index s p.toRequest phase)
    (undefined : ¬ phase.undefined) (holding : phase.holding = held.map Frame.loader) :
    Knows loaders calls index (s.setLock frame.loader none) { p with phase := phase } := by
  have before := knows.progress
  rw [phased] at before
  have rising := (List.pairwise_cons.mp before.2.1).1
  refine ⟨knows.call, progress_of_extends loaders index s _ p.toRequest phase List.prefix_rfl progress,
    fun unfinished => absurd unfinished undefined, fun x => ?_⟩
  have locks := knows.locks x
  rw [phased] at locks
  rw [locks_set_lock, holding]
  by_cases same : x = frame.loader
  · rw [if_pos same]
    refine iff_of_false (by simp) (fun member => ?_)
    exact absurd (rising x member) (by omega)
  · rw [if_neg same, locks]
    simp [Phase.holding, same]

theorem asking_knows (knows : Knows loaders calls index s p) (id seen : Nat) (held : List Frame)
    (phased : p.phase = .asking id seen held) (advanced : advance loaders index s p.name p.phase = some (after, phase)) :
    after = s ∧ Knows loaders calls index s { p with phase := phase } := by
  have progress := knows.progress
  rw [phased] at progress advanced
  obtain ⟨here, absent⟩ := progress
  have passed := frames_of_at loaders p.toRequest id held here absent
  have moves := knows_moves loaders calls index s p phase knows
  rw [phased] at moves
  simp only [advance] at advanced
  cases above : loaders.parent id with
  | parentLast q =>
      simp only [above, Option.some.injEq, Prod.mk.injEq] at advanced
      obtain ⟨rfl, rfl⟩ := advanced
      exact ⟨rfl, moves (at_parent loaders p.toRequest id q seen held here absent above) (fun _ => trivial) rfl⟩
  | other load =>
      have origin := here.same.trans (nearest_other loaders p.name id load absent above)
      cases given : load p.name with
      | some c =>
          simp only [above, given, Option.some.injEq, Prod.mk.injEq] at advanced origin
          obtain ⟨rfl, rfl⟩ := advanced
          exact ⟨rfl, moves ⟨origin, passed⟩ (fun _ => trivial) rfl⟩
      | none =>
          simp only [above, given, Option.some.injEq, Prod.mk.injEq] at advanced origin
          obtain ⟨rfl, rfl⟩ := advanced
          exact ⟨rfl, moves ⟨origin, passed⟩ (fun _ => trivial) rfl⟩

theorem leaving_knows (knows : Knows loaders calls index s p) (outcome : Outcome Other) (held : List Frame)
    (phased : p.phase = .leaving outcome held) (advanced : advance loaders index s p.name p.phase = some (after, phase)) :
    Effect loaders index s after ∧ Knows loaders calls index after { p with phase := phase } := by
  have progress := knows.progress
  rw [phased] at progress advanced
  obtain ⟨ends, passed⟩ := progress
  cases held with
  | nil =>
      simp only [advance, Option.some.injEq, Prod.mk.injEq] at advanced
      obtain ⟨rfl, rfl⟩ := advanced
      have moves := knows_moves loaders calls index s p (.returned outcome) knows
      rw [phased] at moves
      exact ⟨.same, moves ends id rfl⟩
  | cons frame held =>
      have mine : s.locks frame.loader = some index := by
        rw [knows.locks, phased]
        exact List.mem_cons_self
      have below : Frames loaders p.name (held.map Frame.loader) :=
        ⟨(List.pairwise_cons.mp passed.1).2, fun x member => passed.2 x (List.mem_cons_of_mem _ member)⟩
      have unlocked := unlock_knows loaders calls index s p phase knows outcome frame held phased
      have leaves : after = s.setLock frame.loader none ∧ (phase = .leaving outcome held ∨
          ∃ next rest, outcome = .classNotFound ∧ held = next :: rest ∧ phase = .refinding next.loader next.seen rest) := by
        cases outcome <;> cases held <;> simp_all [advance]
      obtain ⟨rfl, rfl | ⟨next, rest, rfl, rfl, rfl⟩⟩ := leaves
      · exact ⟨.unlock frame.loader mine, unlocked ⟨ends, below⟩ (fun unfinished => unfinished) rfl⟩
      · exact ⟨.unlock frame.loader mine, unlocked ⟨ends, below⟩ (fun unfinished => unfinished) rfl⟩

theorem advance_knows (agreed : Agreed loaders n s) (knows : Knows loaders calls index s p)
    (advanced : advance loaders index s p.name p.phase = some (after, phase)) :
    Effect loaders index s after ∧ Knows loaders calls index after { p with phase := phase } := by
  have progress := knows.progress
  have moves := knows_moves loaders calls index s p phase knows
  cases phased : p.phase with
  | checking id held =>
      rw [phased] at progress advanced moves
      cases found : s.findLoadedClass id p.name with
      | some c =>
          simp only [advance, found, Option.some.injEq, Prod.mk.injEq] at advanced
          obtain ⟨rfl, rfl⟩ := advanced
          have ends := recorded_ends loaders n index s p.toRequest agreed id held progress c found
          exact ⟨.same, moves ⟨ends, progress.passed⟩ (fun _ => trivial) rfl⟩
      | none =>
          simp only [advance, found, Option.some.injEq, Prod.mk.injEq] at advanced
          obtain ⟨rfl, rfl⟩ := advanced
          have unseen := unseen_of_absent loaders n s agreed id p.name found
          exact ⟨.same, moves ⟨progress, unseen⟩ (fun _ => trivial) rfl⟩
  | finding id seen held =>
      rw [phased] at progress advanced moves
      cases found : loaders.findClass id p.name with
      | some code =>
          simp only [advance, found, Option.some.injEq, Prod.mk.injEq] at advanced
          obtain ⟨rfl, rfl⟩ := advanced
          exact ⟨.same, moves ⟨progress.1, progress.2, found⟩ (fun _ => trivial) rfl⟩
      | none =>
          simp only [advance, found, Option.some.injEq, Prod.mk.injEq] at advanced
          obtain ⟨rfl, rfl⟩ := advanced
          exact ⟨.same, moves ⟨progress.1, found⟩ (fun _ => trivial) rfl⟩
  | defining id code seen held =>
      rw [phased] at progress advanced moves
      obtain ⟨here, unseen, own⟩ := progress
      cases defined : s.defineClass ⟨index, id, p.name, code⟩ with
      | some result =>
          simp only [advance, defined, Option.some.injEq, Prod.mk.injEq] at advanced
          obtain ⟨rfl, rfl⟩ := advanced
          exact ⟨.define ⟨index, id, p.name, code⟩ result.2 result.1 rfl own defined,
            define_knows loaders calls index s result.1 p knows id seen code held phased result.2 defined⟩
      | none =>
          simp only [advance, defined, Option.some.injEq, Prod.mk.injEq] at advanced
          obtain ⟨rfl, rfl⟩ := advanced
          obtain ⟨c, found⟩ := define_class_none s ⟨index, id, p.name, code⟩ defined
          have lost := lost_race loaders calls n index s p agreed knows id seen code held phased c found
          exact ⟨.same, moves ⟨lost, here.passed⟩ (fun _ => trivial) rfl⟩
  | locking id held =>
      rw [phased] at advanced
      cases free : s.locks id with
      | some q => simp [advance, free] at advanced
      | none =>
          simp only [advance, free, Option.some.injEq, Prod.mk.injEq] at advanced
          obtain ⟨rfl, rfl⟩ := advanced
          exact ⟨.lock id free, lock_knows loaders calls index s p knows id held phased⟩
  | rechecking id held =>
      rw [phased] at progress advanced moves
      obtain ⟨here, absent⟩ := progress
      cases found : s.findLoadedClass id p.name with
      | some c =>
          simp only [advance, found, Option.some.injEq, Prod.mk.injEq] at advanced
          obtain ⟨rfl, rfl⟩ := advanced
          have ends := recorded_ends loaders n index s p.toRequest agreed id held here c found
          exact ⟨.same, moves ⟨ends, frames_of_at loaders p.toRequest id held here absent⟩ (fun _ => trivial) rfl⟩
      | none =>
          simp only [advance, found, Option.some.injEq, Prod.mk.injEq] at advanced
          obtain ⟨rfl, rfl⟩ := advanced
          exact ⟨.same, moves ⟨here, absent⟩ (fun _ => trivial) rfl⟩
  | asking id seen held =>
      obtain ⟨rfl, after⟩ := asking_knows loaders calls index s after p phase knows id seen held phased advanced
      exact ⟨.same, after⟩
  | refinding id seen held =>
      rw [phased] at progress advanced moves
      obtain ⟨missing, passed⟩ := progress
      have absent := passed.2 id List.mem_cons_self
      simp only [advance, absent, Option.some.injEq, Prod.mk.injEq] at advanced
      obtain ⟨rfl, rfl⟩ := advanced
      have fails := find_fails loaders index s p.toRequest id missing absent
      exact ⟨.same, moves ⟨fails, passed⟩ (fun unfinished => unfinished) rfl⟩
  | leaving outcome held => exact leaving_knows loaders calls index s after p phase knows outcome held phased advanced
  | returned outcome => simp [phased, advance] at advanced

end Calls

section Runs

variable (loaders : Loaders Code Other) (calls : List Request) (s : Joint (Shared Code Other) (Call Code Other))

theorem act_knows (n index : Nat) (shared : Shared Code Other) (p : Call Code Other) (event : Event)
    (after : Shared Code Other × Call Code Other) (agreed : Agreed loaders n shared)
    (knows : Knows loaders calls index shared p) (acted : act loaders index shared p event = some after) :
    Effect loaders index shared after.1 ∧ Knows loaders calls index after.1 after.2 := by
  cases event with
  | go =>
      obtain ⟨moved, advanced, rfl⟩ := Option.map_eq_some_iff.mp acted
      exact advance_knows loaders calls n index shared moved.1 p moved.2 agreed knows advanced
  | refuse =>
      simp only [act] at acted
      split at acted
      · rename_i id code seen held phased
        rw [Option.some.injEq] at acted
        subst acted
        have progress := knows.progress
        have moves := knows_moves loaders calls index shared p (.leaving (.refused id) held) knows
        rw [phased] at progress moves
        obtain ⟨here, _, own⟩ := progress
        exact ⟨.same, moves ⟨⟨code, here.same.trans (nearest_own loaders p.name id code own)⟩, here.passed⟩ (fun _ => trivial) rfl⟩
      · cases acted
  | record =>
      simp only [act] at acted
      split at acted
      · rename_i c phased absent
        rw [Option.some.injEq] at acted
        subst acted
        have ends := knows.progress
        rw [phased] at ends
        have extended : shared.Extends index (shared.initiate p.loader p.name c) :=
          ⟨List.prefix_rfl, fun _ member _ => member, fun _ => Iff.rfl⟩
        exact ⟨.record p.loader p.name c absent ends, knows_of_extends loaders calls index shared _ p knows extended⟩
      · exact absurd acted.symm (Option.some_ne_none _)

theorem guarantees : Guarantees (act loaders) (Agreed loaders calls.length) (Knows loaders calls)
    (fun index => Shared.Extends index) calls.length where
  kept := fun index shared p event after short agreed knows acted => by
    obtain ⟨effect, known⟩ := act_knows loaders calls calls.length index shared p event after agreed knows acted
    exact ⟨effect_agreed loaders index shared after.1 calls.length short agreed effect, known⟩
  given := fun index shared p event after other agreed knows different acted => by
    obtain ⟨effect, _⟩ := act_knows loaders calls calls.length index shared p event after agreed knows acted
    exact effect_extends loaders index shared after.1 other different effect
  stable := fun index shared after p _ knows extended => knows_of_extends loaders calls index shared after p knows extended

theorem start_keeps : (start calls : Joint (Shared Code Other) (Call Code Other)).Keeps (Agreed loaders calls.length)
    (Knows loaders calls) calls.length := by
  refine ⟨List.length_map _, ⟨?_, ?_, ?_⟩, fun index p found => ?_⟩
  · simp [start, Shared.findLoadedClass]
  · simp [start]
  · simp [start]
  · obtain ⟨r, call, rfl⟩ := Option.map_eq_some_iff.mp (List.getElem?_map (f := loadClass) ▸ found)
    exact ⟨call, ⟨rfl, by simp, by simp [Frames]⟩, by simp [start], by simp [start, loadClass, Phase.holding]⟩

theorem reachable_knows (reached : (system loaders calls).Reachable s) :
    s.Keeps (Agreed loaders calls.length) (Knows loaders calls) calls.length :=
  joint_reachable_keeps (act loaders) (Agreed loaders calls.length) (Knows loaders calls) (fun index => Shared.Extends index)
    calls.length (guarantees loaders calls) (start calls) s (start_keeps loaders calls) reached

-- Two objects of one class cannot be: the loader is recorded for the first.
theorem one_object (n : Nat) (shared : Shared Code Other) (agreed : Agreed loaders n shared) (name : String)
    (c other : LoadedClass Other) (origin : Origin Code Other) (here : shared.Is name c origin)
    (there : shared.Is name other origin) : c = other := by
  cases c with
  | other x =>
      cases other with
      | other y => exact congrArg _ (Origin.other.inj (here.symm.trans there))
      | defined object =>
          obtain ⟨d, _, _, origin⟩ := there
          exact absurd (here.symm.trans origin) (by simp)
  | defined x =>
      obtain ⟨d, found, same, origin⟩ := here
      cases other with
      | other y => exact absurd (there.symm.trans origin) (by simp)
      | defined y =>
          obtain ⟨e, also, called, again⟩ := there
          obtain ⟨loader, _⟩ := Origin.own.inj (origin.symm.trans again)
          have first := agreed.initiated x d found
          have second := agreed.initiated y e also
          rw [← loader, called, ← same, first, Option.some.injEq] at second
          exact second

end Runs

-- Class files in the jar of the younger loader, none in that of the older one.
def twoLoaders : Loaders Nat Nat where
  urls := fun id =>
    if id = 1 then [fun name => if name = "Plugin" then some 7 else if name = "java.Broken" then some 8 else none] else []
  parent := fun id => if id = 1 then .parentLast 0 else .other (fun name => if name = "Object" then some 1 else none)
  older := fun id p above => by
    by_cases young : id = 1
    · simp only [young, if_true, Parent.parentLast.injEq] at above
      omega
    · simp [young] at above

-- Two calls for the class look for it before either has defined it, a third one asks the parents, the class file is refused
-- once, and a name in java. is left to the parents.
def race : List (Nat × Event) :=
  [(0, .go), (0, .go), (1, .go), (1, .go), (3, .go), (3, .go), (3, .refuse), (0, .go), (1, .go), (0, .go), (1, .go), (3, .go)] ++
    List.replicate 13 (2, .go) ++ [(2, .record)] ++ List.replicate 15 (4, .go)

def raceCalls : List Request := [⟨1, "Plugin"⟩, ⟨1, "Plugin"⟩, ⟨1, "Object"⟩, ⟨1, "Plugin"⟩, ⟨1, "java.Broken"⟩]

def Call.outcome (p : Call Nat Nat) : Option (Outcome Nat) :=
  match p.phase with
  | .returned outcome => some outcome
  | _ => none

def raceOutcomes : List (Option (Outcome Nat)) :=
  [some (.loaded (.defined 0)), some (.duplicate 1 0), some (.loaded (.other 1)), some (.refused 1), some .securityException]

section Progress

variable (loaders : Loaders Code Other) (calls : List Request) (s : Joint (Shared Code Other) (Call Code Other))

def Call.finished (p : Call Code Other) : Prop := ∃ outcome, p.phase = .returned outcome

-- The older the loader, the fewer parents are left to ask.
def Phase.work : Phase Code Other → Nat
  | .checking id held => 3 * held.length + 8 * id + 16
  | .finding id _ held => 3 * held.length + 8 * id + 15
  | .defining _ _ _ held => 3 * held.length + 2
  | .locking id held => 3 * held.length + 8 * id + 14
  | .rechecking id held => 3 * held.length + 8 * id + 13
  | .asking id _ held => 3 * held.length + 8 * id + 12
  | .refinding _ _ held => 3 * held.length + 6
  | .leaving _ held => 3 * held.length + 1
  | .returned _ => 0

theorem advance_work (index : Nat) (shared after : Shared Code Other) (name : String) (phase next : Phase Code Other)
    (advanced : advance loaders index shared name phase = some (after, next)) : next.work < phase.work := by
  cases phase with
  | asking id seen held =>
      simp only [advance] at advanced
      split at advanced
      · rename_i q above
        have older := loaders.older id q above
        simp only [Option.some.injEq, Prod.mk.injEq] at advanced
        obtain ⟨_, rfl⟩ := advanced
        simp only [Phase.work, List.length_cons]
        omega
      · split at advanced <;> simp only [Option.some.injEq, Prod.mk.injEq] at advanced <;> obtain ⟨_, rfl⟩ := advanced <;>
          simp only [Phase.work, List.length_cons] <;> omega
  | leaving outcome held =>
      cases held with
      | nil =>
          simp only [advance, Option.some.injEq, Prod.mk.injEq] at advanced
          obtain ⟨_, rfl⟩ := advanced
          simp [Phase.work]
      | cons frame held =>
          cases outcome <;> cases held <;> simp only [advance, Option.some.injEq, Prod.mk.injEq] at advanced <;>
            obtain ⟨_, rfl⟩ := advanced <;> simp only [Phase.work, List.length_cons, List.length_nil] <;> omega
  | returned outcome => simp [advance] at advanced
  | _ =>
      simp only [advance] at advanced
      split at advanced <;> simp only [Option.some.injEq, Prod.mk.injEq, reduceCtorEq] at advanced <;>
        obtain ⟨_, rfl⟩ := advanced <;> simp only [Phase.work, List.length_cons] <;> omega

theorem advance_or_waits (index : Nat) (shared : Shared Code Other) (name : String) (phase : Phase Code Other) :
    (∃ outcome, phase = .returned outcome) ∨ (∃ next, advance loaders index shared name phase = some next) ∨
      ∃ id held q, phase = .locking id held ∧ shared.locks id = some q := by
  cases phase with
  | returned outcome => exact .inl ⟨outcome, rfl⟩
  | locking id held =>
      cases free : shared.locks id with
      | none => exact .inr (.inl ⟨(shared.setLock id (some index), .rechecking id held), by simp [advance, free]⟩)
      | some q => exact .inr (.inr ⟨id, held, q, rfl, free⟩)
  | leaving outcome held =>
      refine .inr (.inl ?_)
      cases held with
      | nil => exact ⟨_, rfl⟩
      | cons frame held => cases outcome <;> cases held <;> exact ⟨_, rfl⟩
  | asking id seen held =>
      refine .inr (.inl ?_)
      simp only [advance]
      split
      · exact ⟨_, rfl⟩
      · split <;> exact ⟨_, rfl⟩
  | _ =>
      refine .inr (.inl ?_)
      simp only [advance]
      split <;> exact ⟨_, rfl⟩

-- A call waits at most for the lock of a loader. What it holds already are locks of younger ones.
def Call.rank (p : Call Code Other) : Nat :=
  match p.phase with
  | .locking id _ => id + 1
  | _ => 0

theorem holder_rank (index : Nat) (shared : Shared Code Other) (p : Call Code Other)
    (knows : Knows loaders calls index shared p) (id : Nat) (held : shared.locks id = some index) :
    ¬ p.finished ∧ p.rank < id + 1 := by
  have holding := (knows.locks id).mp held
  have progress := knows.progress
  constructor
  · rintro ⟨outcome, returned⟩
    simp [returned, Phase.holding] at holding
  · unfold Call.rank
    split
    · rename_i lower frames phased
      rw [phased] at holding progress
      obtain ⟨frame, member, rfl⟩ := List.mem_map.mp holding
      have rising := progress.1.rising frame member
      omega
    · omega

theorem call_waits (here : s.Keeps (Agreed loaders calls.length) (Knows loaders calls) calls.length) (index : Nat)
    (p : Call Code Other) (_ : s.parties[index]? = some p) (running : ¬ p.finished) :
    (∃ event after, event = Event.go ∧ act loaders index s.shared p event = some after) ∨
      ∃ (other : Nat) (q : Call Code Other), s.parties[other]? = some q ∧ ¬ q.finished ∧ q.rank < p.rank := by
  obtain ⟨length, agreed, each⟩ := here
  rcases advance_or_waits loaders index s.shared p.name p.phase with done | ⟨next, advanced⟩ | ⟨id, held, q, phased, locked⟩
  · exact absurd done running
  · exact .inl ⟨.go, _, rfl, Option.map_eq_some_iff.mpr ⟨next, advanced, rfl⟩⟩
  · have short := agreed.holders id q locked
    have there := List.getElem?_eq_getElem (length.symm ▸ short)
    obtain ⟨open_, less⟩ := holder_rank loaders calls q s.shared _ (each q _ there) id locked
    refine .inr ⟨q, _, there, open_, less.trans_eq ?_⟩
    simp [Call.rank, phased]

theorem act_work (index : Nat) (shared : Shared Code Other) (p : Call Code Other) (event : Event)
    (after : Shared Code Other × Call Code Other) (acted : act loaders index shared p event = some after) :
    (if event.isStep then 1 else 0) + after.2.phase.work ≤ p.phase.work := by
  cases event with
  | go =>
      obtain ⟨moved, advanced, rfl⟩ := Option.map_eq_some_iff.mp acted
      have less := advance_work loaders index shared moved.1 p.name p.phase moved.2 advanced
      simp only [Event.isStep, if_true]
      omega
  | refuse =>
      simp only [act] at acted
      split at acted
      · rename_i id code seen held phased
        rw [← Option.some.inj acted, phased]
        simp only [Event.isStep, if_true, Phase.work]
        omega
      · cases acted
  | record =>
      simp only [act] at acted
      split at acted
      · rw [← Option.some.inj acted]
        simp [Event.isStep]
      · cases acted

theorem load_class_finishes (reached : (system loaders calls).Reachable s) :
    (∀ events final, (system loaders calls).run s events = some final →
      events.countP (fun event => event.2.isStep) + final.left (fun _ p => p.phase.work) ≤ s.left (fun _ p => p.phase.work)) ∧
    ∃ events final, (∀ event ∈ events, event.2 = Event.go) ∧ (system loaders calls).run s events = some final ∧
      (∀ p ∈ final.parties, p.finished) ∧ ∀ id, final.shared.locks id = none := by
  have holds := reachable_knows loaders calls s reached
  have decreases : ∀ index shared (p : Call Code Other) event after, Agreed loaders calls.length shared →
      Knows loaders calls index shared p → event = Event.go → act loaders index shared p event = some after →
      after.2.phase.work < p.phase.work := by
    rintro index shared p event after _ _ rfl acted
    have drops := act_work loaders index shared p .go after acted
    simp only [Event.isStep, if_true] at drops
    omega
  constructor
  · intro events final ran
    exact joint_run_counts (act loaders) (Agreed loaders calls.length) (Knows loaders calls) (fun index => Shared.Extends index)
      (fun _ p => p.phase.work) calls.length (start calls) s final events Event.isStep (guarantees loaders calls)
      (fun index shared p event after _ _ acted => act_work loaders index shared p event after acted) holds ran
  · obtain ⟨events, final, goes, ran, finished⟩ := joint_run_finishes_ranked (act loaders) (Agreed loaders calls.length)
      (Knows loaders calls) (fun index => Shared.Extends index) (· = Event.go) Call.finished (fun _ p => p.phase.work)
      calls.length Call.rank (start calls) s (guarantees loaders calls) decreases
      (call_waits loaders calls) holds
    refine ⟨events, final, goes, ran, finished, fun id => ?_⟩
    obtain ⟨length, agreed, each⟩ := run_keeps (system loaders calls)
      (Joint.Keeps (Agreed loaders calls.length) (Knows loaders calls) calls.length)
      (joint_step_keeps (act loaders) _ _ (fun index => Shared.Extends index) calls.length (guarantees loaders calls))
      s final events holds ran
    cases locked : final.shared.locks id with
    | none => rfl
    | some q =>
        have there := List.getElem?_eq_getElem (length.symm ▸ agreed.holders id q locked)
        have open_ := (holder_rank loaders calls q final.shared _ (each q _ there) id locked).1
        exact absurd (finished _ (List.mem_of_getElem? there)) open_

end Progress

-- The third call holds the lock of its loader, for which the last one waits.
theorem load_class_finishes_race :
    ∃ s, (system twoLoaders raceCalls).run (system twoLoaders raceCalls).initial
          (race.take 16 ++ [(4, .go), (4, .go)]) = some s ∧ s.shared.locks 1 = some 2 ∧
      ∃ events final, (∀ event ∈ events, event.2 = Event.go) ∧ (system twoLoaders raceCalls).run s events = some final ∧
        (∀ p ∈ final.parties, p.finished) ∧ ∀ id, final.shared.locks id = none := by
  have ran : ((system twoLoaders raceCalls).run (system twoLoaders raceCalls).initial
      (race.take 16 ++ [(4, .go), (4, .go)])).map (fun s => s.shared.locks 1) = some (some 2) := by decide +kernel
  obtain ⟨s, run, locked⟩ := Option.map_eq_some_iff.mp ran
  exact ⟨s, run, locked, (load_class_finishes twoLoaders raceCalls s ⟨_, run⟩).2⟩

end Toolbox8.ParentLastUrlClassloader
