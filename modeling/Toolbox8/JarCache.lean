import Toolbox8.Base.Sequences
import Toolbox8.Base.Transition
import Toolbox8.ByteStrings

set_option autoImplicit false

namespace Toolbox8

structure JarKey where
  groupId : String
  artifactId : String
  version : String
  classifier : Option String := none
  hash : Option String := none
deriving DecidableEq, Repr

namespace URLEncoder

def dontNeedEncoding (c : Char) : Bool := c.isAlphanum || c = '-' || c = '_' || c = '.' || c = '*'

def hexDigit (n : Nat) : Char := (Nat.digitChar n).toUpper

def encodeByte (b : UInt8) : List Char := ['%', hexDigit (b.toNat / 16), hexDigit (b.toNat % 16)]

def encodeChar (c : Char) : List Char :=
  if dontNeedEncoding c then [c]
  else if c = ' ' then ['+']
  else (String.utf8EncodeChar c).flatMap encodeByte

def encode (s : String) : String := String.ofList (s.toList.flatMap encodeChar)

end URLEncoder

namespace StreamApp

open Base

abbrev FileName := String

-- JarCache.get: the file is named by its path below the cache directory.
def cacheFile (key : JarKey) : FileName :=
  URLEncoder.encode (key.groupId ++ ":" ++ key.artifactId ++ ":" ++ key.version ++ ":" ++
    key.classifier.getD "" ++ ":" ++ key.hash.getD "" ++ ".jar")

abbrev ConnId := Nat

structure PutCacheRequest where
  jarKey : JarKey
  size : Int
deriving DecidableEq, Repr

inductive Init where
  | verifyCacheRequest (jars : List JarKey)
  | putCacheRequest (p : PutCacheRequest)
  | runRequest
  | finished
deriving DecidableEq, Repr

-- A PutCacheRequest that has created its file, with the bytes that came in for it. Their
-- number is the position of its BoundedInputStream.
structure Transfer where
  file : FileName
  size : Int
  received : ByteString
deriving DecidableEq, Repr

-- The stream is bounded by max only when max is not negative.
def Transfer.atEnd (t : Transfer) : Bool := 0 ≤ t.size ∧ t.size ≤ t.received.length

inductive Phase where
  | idle
  | verifying (jars todo missing : List JarKey)
  | putting (p : PutCacheRequest)
  | opening (transfer : Nat)
  | copying (transfer : Nat)
  | replying
  | stopped
deriving DecidableEq, Repr

structure World where
  files : FileName → Option ByteString
  transfers : List Transfer
  threads : ConnId → Phase

inductive Event where
  | receive (conn : ConnId) (init : Init)
  | check (conn : ConnId)
  | respond (conn : ConnId)
  | createNewFile (conn : ConnId)
  | openStream (conn : ConnId)
  | copy (conn : ConnId) (b : Byte)
  | copied (conn : ConnId)
  | endOfInput (conn : ConnId)
  | reply (conn : ConnId)
  | fail (conn : ConnId)
deriving DecidableEq, Repr

def Init.begin : Init → Phase
  | .verifyCacheRequest jars => .verifying jars jars []
  | .putCacheRequest p => .putting p
  | .runRequest => .idle
  | .finished => .stopped

def World.setPhase (w : World) (conn : ConnId) (phase : Phase) : World :=
  { w with threads := Function.update w.threads conn phase }

def World.write (w : World) (file : FileName) (content : ByteString) : World :=
  { w with files := Function.update w.files file (some content) }

def World.exists (w : World) (key : JarKey) : Bool := (w.files (cacheFile key)).isSome

def World.create (w : World) (p : PutCacheRequest) : World :=
  { w.write (cacheFile p.jarKey) [] with transfers := w.transfers ++ [⟨cacheFile p.jarKey, p.size, []⟩] }

def World.append (w : World) (index : Nat) (t : Transfer) (b : Byte) : World :=
  { w.write t.file ((w.files t.file).getD [] ++ [b]) with
    transfers := w.transfers.set index { t with received := t.received ++ [b] } }

def step (w : World) : Event → Option World
  | .receive conn init =>
      match w.threads conn with
      | .idle => some (w.setPhase conn init.begin)
      | _ => none
  | .check conn =>
      match w.threads conn with
      | .verifying jars (key :: todo) missing =>
          some (w.setPhase conn (.verifying jars todo (if w.exists key then missing else missing ++ [key])))
      | _ => none
  | .respond conn =>
      match w.threads conn with
      | .verifying _ [] _ => some (w.setPhase conn .idle)
      | _ => none
  | .createNewFile conn =>
      match w.threads conn with
      | .putting p =>
          if w.exists p.jarKey then some (w.setPhase conn .stopped)
          else some ((w.create p).setPhase conn (.opening w.transfers.length))
      | _ => none
  | .openStream conn =>
      match w.threads conn with
      | .opening index => (w.transfers[index]?).map (fun t => (w.write t.file []).setPhase conn (.copying index))
      | _ => none
  | .copy conn b =>
      match w.threads conn with
      | .copying index =>
          (w.transfers[index]?).bind (fun t => if t.atEnd then none else some (w.append index t b))
      | _ => none
  | .copied conn =>
      match w.threads conn with
      | .copying index =>
          (w.transfers[index]?).bind (fun t => if t.atEnd then some (w.setPhase conn .replying) else none)
      | _ => none
  | .endOfInput conn =>
      match w.threads conn with
      | .idle => some (w.setPhase conn .stopped)
      | .copying _ => some (w.setPhase conn .replying)
      | _ => none
  | .reply conn =>
      match w.threads conn with
      | .replying => some (w.setPhase conn .idle)
      | _ => none
  | .fail conn =>
      match w.threads conn with
      | .stopped => none
      | _ => some (w.setPhase conn .stopped)

-- The cache directory starts out empty.
def server : Machine World Event where
  initial := ⟨fun _ => none, [], fun _ => .idle⟩
  step := step

-- Everything a step can be, with the phase it starts from.
inductive Moved (w : World) : Event → World → Prop where
  | receive (conn : ConnId) (init : Init) (phase : w.threads conn = .idle) :
      Moved w (.receive conn init) (w.setPhase conn init.begin)
  | check (conn : ConnId) (jars todo missing : List JarKey) (key : JarKey)
      (phase : w.threads conn = .verifying jars (key :: todo) missing) :
      Moved w (.check conn)
        (w.setPhase conn (.verifying jars todo (if w.exists key then missing else missing ++ [key])))
  | respond (conn : ConnId) (jars missing : List JarKey) (phase : w.threads conn = .verifying jars [] missing) :
      Moved w (.respond conn) (w.setPhase conn .idle)
  | refused (conn : ConnId) (p : PutCacheRequest) (phase : w.threads conn = .putting p) (old : w.exists p.jarKey = true) :
      Moved w (.createNewFile conn) (w.setPhase conn .stopped)
  | created (conn : ConnId) (p : PutCacheRequest) (phase : w.threads conn = .putting p) (new : w.exists p.jarKey = false) :
      Moved w (.createNewFile conn) ((w.create p).setPhase conn (.opening w.transfers.length))
  | openStream (conn : ConnId) (index : Nat) (t : Transfer) (phase : w.threads conn = .opening index)
      (found : w.transfers[index]? = some t) :
      Moved w (.openStream conn) ((w.write t.file []).setPhase conn (.copying index))
  | copy (conn : ConnId) (b : Byte) (index : Nat) (t : Transfer) (phase : w.threads conn = .copying index)
      (found : w.transfers[index]? = some t) (more : t.atEnd = false) :
      Moved w (.copy conn b) (w.append index t b)
  | quit (event : Event) (conn : ConnId) (phase : Phase) (final : phase = .replying ∨ phase = .idle ∨ phase = .stopped) :
      Moved w event (w.setPhase conn phase)

theorem step_moved (w next : World) (event : Event) (stepped : step w event = some next) : Moved w event next := by
  cases event with
  | receive conn init =>
      cases phase : w.threads conn <;> simp only [step, phase, Option.some.injEq, reduceCtorEq] at stepped
      exact stepped ▸ .receive conn init phase
  | check conn =>
      cases phase : w.threads conn with
      | verifying jars todo missing =>
          cases todo with
          | nil => simp [step, phase] at stepped
          | cons key todo =>
              simp only [step, phase, Option.some.injEq] at stepped
              exact stepped ▸ .check conn jars todo missing key phase
      | _ => simp [step, phase] at stepped
  | respond conn =>
      cases phase : w.threads conn with
      | verifying jars todo missing =>
          cases todo with
          | nil =>
              simp only [step, phase, Option.some.injEq] at stepped
              exact stepped ▸ .respond conn jars missing phase
          | cons key todo => simp [step, phase] at stepped
      | _ => simp [step, phase] at stepped
  | createNewFile conn =>
      cases phase : w.threads conn with
      | putting p =>
          simp only [step, phase] at stepped
          cases old : w.exists p.jarKey with
          | true =>
              simp only [old, if_true, Option.some.injEq] at stepped
              exact stepped ▸ .refused conn p phase old
          | false =>
              simp only [old, Bool.false_eq_true, if_false, Option.some.injEq] at stepped
              exact stepped ▸ .created conn p phase old
      | _ => simp [step, phase] at stepped
  | openStream conn =>
      cases phase : w.threads conn with
      | opening index =>
          simp only [step, phase, Option.map_eq_some_iff] at stepped
          obtain ⟨t, found, rfl⟩ := stepped
          exact .openStream conn index t phase found
      | _ => simp [step, phase] at stepped
  | copy conn b =>
      cases phase : w.threads conn with
      | copying index =>
          simp only [step, phase, Option.bind_eq_some_iff] at stepped
          obtain ⟨t, found, stepped⟩ := stepped
          cases more : t.atEnd with
          | true => simp [more] at stepped
          | false =>
              simp only [more, Bool.false_eq_true, if_false, Option.some.injEq] at stepped
              exact stepped ▸ .copy conn b index t phase found more
      | _ => simp [step, phase] at stepped
  | copied conn =>
      cases phase : w.threads conn with
      | copying index =>
          simp only [step, phase, Option.bind_eq_some_iff, Option.ite_none_right_eq_some, Option.some.injEq] at stepped
          obtain ⟨t, _, _, rfl⟩ := stepped
          exact .quit _ conn .replying (.inl rfl)
      | _ => simp [step, phase] at stepped
  | endOfInput conn =>
      cases phase : w.threads conn with
      | idle =>
          simp only [step, phase, Option.some.injEq] at stepped
          exact stepped ▸ .quit _ conn .stopped (.inr (.inr rfl))
      | copying index =>
          simp only [step, phase, Option.some.injEq] at stepped
          exact stepped ▸ .quit _ conn .replying (.inl rfl)
      | _ => simp [step, phase] at stepped
  | reply conn =>
      cases phase : w.threads conn with
      | replying =>
          simp only [step, phase, Option.some.injEq] at stepped
          exact stepped ▸ .quit _ conn .idle (.inr (.inl rfl))
      | _ => simp [step, phase] at stepped
  | fail conn =>
      cases phase : w.threads conn with
      | stopped => simp [step, phase] at stepped
      | _ =>
          simp only [step, phase, Option.some.injEq] at stepped
          exact stepped ▸ .quit _ conn .stopped (.inr (.inr rfl))

def Phase.held : Phase → Option Nat
  | .opening index => some index
  | .copying index => some index
  | _ => none

structure Invariant (w : World) : Prop where
  created : ∀ file, w.files file ≠ none → ∃ t ∈ w.transfers, t.file = file
  content : ∀ t ∈ w.transfers, w.files t.file = some t.received
  distinct : (w.transfers.map Transfer.file).Nodup
  inRange : ∀ conn index, (w.threads conn).held = some index → index < w.transfers.length
  exclusive : ∀ one two index, (w.threads one).held = some index → (w.threads two).held = some index → one = two
  unopened : ∀ conn index t, w.threads conn = .opening index → w.transfers[index]? = some t → t.received = []

@[simp] theorem set_phase_files (w : World) (conn : ConnId) (phase : Phase) : (w.setPhase conn phase).files = w.files := rfl

@[simp] theorem set_phase_transfers (w : World) (conn : ConnId) (phase : Phase) :
    (w.setPhase conn phase).transfers = w.transfers := rfl

@[simp] theorem set_phase_here (w : World) (conn : ConnId) (phase : Phase) : (w.setPhase conn phase).threads conn = phase := by
  simp [World.setPhase]

theorem set_phase_other (w : World) (conn other : ConnId) (phase : Phase) (different : other ≠ conn) :
    (w.setPhase conn phase).threads other = w.threads other := by
  simp [World.setPhase, different]

theorem set_phase_invariant (w : World) (conn : ConnId) (phase : Phase) (inv : Invariant w)
    (kept : ∀ index, phase.held = some index → (w.threads conn).held = some index)
    (opened : ∀ index, phase ≠ .opening index) : Invariant (w.setPhase conn phase) := by
  have before : ∀ other index, ((w.setPhase conn phase).threads other).held = some index →
      (w.threads other).held = some index := by
    intro other index held
    by_cases same : other = conn
    · subst same
      rw [set_phase_here] at held
      exact kept index held
    · rwa [set_phase_other w conn other phase same] at held
  refine ⟨inv.created, inv.content, inv.distinct, ?_, ?_, ?_⟩
  · exact fun other index held => inv.inRange other index (before other index held)
  · exact fun one two index left right => inv.exclusive one two index (before one index left) (before two index right)
  · intro other index t starts found
    by_cases same : other = conn
    · subst same
      rw [set_phase_here] at starts
      exact absurd starts (opened index)
    · rw [set_phase_other w conn other phase same] at starts
      exact inv.unopened other index t starts found

theorem write_same (w : World) (file : FileName) (content : ByteString) (same : w.files file = some content) :
    w.write file content = w := by
  rw [World.write, ← same, Function.update_eq_self]

theorem created_holder (w : World) (conn other : ConnId) (p : PutCacheRequest) (index : Nat)
    (held : (((w.create p).setPhase conn (.opening w.transfers.length)).threads other).held = some index) :
    other = conn ∧ index = w.transfers.length ∨ other ≠ conn ∧ (w.threads other).held = some index := by
  by_cases same : other = conn
  · subst same
    simp only [set_phase_here, Phase.held, Option.some.injEq] at held
    exact .inl ⟨rfl, held.symm⟩
  · rw [set_phase_other _ conn other _ same] at held
    exact .inr ⟨same, held⟩

-- createNewFile is exclusive, so the new transfer is the only one of its file.
theorem create_invariant (w : World) (conn : ConnId) (p : PutCacheRequest) (inv : Invariant w)
    (new : w.exists p.jarKey = false) :
    Invariant ((w.create p).setPhase conn (.opening w.transfers.length)) := by
  have absent : w.files (cacheFile p.jarKey) = none := by simpa [World.exists] using new
  have fresh : ∀ t ∈ w.transfers, t.file ≠ cacheFile p.jarKey := by
    intro t member same
    have present := inv.content t member
    simp [same, absent] at present
  have holders := fun other index => created_holder w conn other p index
  refine ⟨?_, ?_, ?_, ?_, ?_, ?_⟩
  · intro file present
    by_cases same : file = cacheFile p.jarKey
    · exact ⟨⟨cacheFile p.jarKey, p.size, []⟩, by simp [World.create], same.symm⟩
    · have before : w.files file ≠ none := by simpa [World.create, World.write, same] using present
      obtain ⟨t, member, named⟩ := inv.created file before
      exact ⟨t, by simp [World.create, member], named⟩
  · intro t member
    simp only [set_phase_transfers, World.create, List.mem_append, List.mem_singleton] at member
    cases member with
    | inl old => simpa [World.create, World.write, fresh t old] using inv.content t old
    | inr isNew => simp [isNew, World.create, World.write]
  · simp only [set_phase_transfers, World.create, List.map_append, List.map_cons, List.map_nil]
    refine List.Nodup.append inv.distinct (by simp) ?_
    intro file old isNew
    obtain ⟨t, member, rfl⟩ := List.mem_map.mp old
    exact fresh t member (List.mem_singleton.mp isNew)
  · intro other index held
    simp only [set_phase_transfers, World.create, List.length_append, List.length_singleton]
    rcases holders other index held with ⟨_, rfl⟩ | ⟨_, before⟩
    · omega
    · have old := inv.inRange other index before
      omega
  · intro one two index left right
    rcases holders one index left with ⟨rfl, rfl⟩ | ⟨_, before⟩
    · rcases holders two _ right with ⟨rfl, _⟩ | ⟨_, old⟩
      · rfl
      · exact absurd (inv.inRange two _ old) (Nat.lt_irrefl _)
    · rcases holders two index right with ⟨rfl, rfl⟩ | ⟨_, old⟩
      · exact absurd (inv.inRange one _ before) (Nat.lt_irrefl _)
      · exact inv.exclusive one two index before old
  · intro other index t starts found
    have held : (((w.create p).setPhase conn (.opening w.transfers.length)).threads other).held = some index := by
      rw [starts, Phase.held]
    rcases holders other index held with ⟨_, rfl⟩ | ⟨different, before⟩
    · simp only [set_phase_transfers, World.create, List.getElem?_concat_length, Option.some.injEq] at found
      rw [← found]
    · rw [set_phase_other _ conn other _ different] at starts
      have old := inv.inRange other index before
      simp only [set_phase_transfers, World.create, List.getElem?_append_left old] at found
      exact inv.unopened other index t starts found

theorem open_invariant (w : World) (conn : ConnId) (index : Nat) (t : Transfer) (inv : Invariant w)
    (phase : w.threads conn = .opening index) (found : w.transfers[index]? = some t) :
    Invariant ((w.write t.file []).setPhase conn (.copying index)) := by
  have content := inv.content t (List.mem_of_getElem? found)
  rw [inv.unopened conn index t phase found] at content
  rw [write_same w t.file [] content]
  refine set_phase_invariant w conn (.copying index) inv ?_ (by simp)
  intro held same
  rw [phase]
  exact same

theorem same_file_index (w : World) (inv : Invariant w) (i j : Nat) (t u : Transfer) (left : w.transfers[i]? = some t)
    (right : w.transfers[j]? = some u) (same : u.file = t.file) : j = i := by
  have short := (List.getElem?_eq_some_iff.mp right).1
  refine (List.getElem?_inj (by simpa using short) inv.distinct).mp ?_
  simp [left, right, same]

theorem appended_at (w : World) (index j : Nat) (b : Byte) (t u : Transfer) (found : w.transfers[index]? = some t)
    (at_j : (w.append index t b).transfers[j]? = some u) :
    j = index ∧ u = { t with received := t.received ++ [b] } ∨ j ≠ index ∧ w.transfers[j]? = some u := by
  have short := (List.getElem?_eq_some_iff.mp found).1
  simp only [World.append] at at_j
  by_cases same : j = index
  · subst same
    rw [List.getElem?_set_self short, Option.some.injEq] at at_j
    exact .inl ⟨rfl, at_j.symm⟩
  · rw [List.getElem?_set_ne (Ne.symm same)] at at_j
    exact .inr ⟨same, at_j⟩

theorem append_files (w : World) (index : Nat) (b : Byte) (t : Transfer) (found : w.transfers[index]? = some t) :
    (w.append index t b).transfers.map Transfer.file = w.transfers.map Transfer.file := by
  obtain ⟨short, atIndex⟩ := List.getElem?_eq_some_iff.mp found
  apply List.ext_getElem?
  intro j
  by_cases same : index = j
  · subst same
    simp [World.append, short, atIndex]
  · simp [World.append, List.getElem?_set_ne same]

theorem append_invariant (w : World) (conn : ConnId) (b : Byte) (index : Nat) (t : Transfer) (inv : Invariant w)
    (phase : w.threads conn = .copying index) (found : w.transfers[index]? = some t) :
    Invariant (w.append index t b) := by
  have content := inv.content t (List.mem_of_getElem? found)
  have transferAt := fun j u => appended_at w index j b t u found
  refine ⟨?_, ?_, ?_, ?_, inv.exclusive, ?_⟩
  · intro file present
    rw [← List.mem_map, append_files w index b t found]
    by_cases same : file = t.file
    · exact List.mem_map.mpr ⟨t, List.mem_of_getElem? found, same.symm⟩
    · have before : w.files file ≠ none := by simpa [World.append, World.write, same] using present
      exact List.mem_map.mpr (inv.created file before)
  · intro u member
    obtain ⟨j, at_j⟩ := List.mem_iff_getElem?.mp member
    rcases transferAt j u at_j with ⟨_, rfl⟩ | ⟨different, old⟩
    · simp [World.append, World.write, content]
    · have other : u.file ≠ t.file := fun same => different (same_file_index w inv index j t u found old same)
      simpa [World.append, World.write, other] using inv.content u (List.mem_of_getElem? old)
  · rw [append_files w index b t found]
    exact inv.distinct
  · intro other j held
    have old := inv.inRange other j held
    simpa [World.append] using old
  · intro other j u starts at_j
    rcases transferAt j u at_j with ⟨rfl, _⟩ | ⟨_, old⟩
    · have same := inv.exclusive other conn j (by rw [show w.threads other = .opening j from starts, Phase.held])
        (by rw [phase, Phase.held])
      rw [show (w.append j t b).threads other = w.threads other from rfl, same, phase] at starts
      exact absurd starts (by simp)
    · exact inv.unopened other j u starts old

theorem moved_invariant (w next : World) (event : Event) (moved : Moved w event next) (inv : Invariant w) :
    Invariant next := by
  cases moved with
  | receive conn init phase =>
      cases init <;> exact set_phase_invariant w conn _ inv (by simp [Init.begin, Phase.held]) (by simp [Init.begin])
  | check conn jars todo missing key phase => exact set_phase_invariant w conn _ inv (by simp [Phase.held]) (by simp)
  | respond conn jars missing phase => exact set_phase_invariant w conn _ inv (by simp [Phase.held]) (by simp)
  | refused conn p phase old => exact set_phase_invariant w conn _ inv (by simp [Phase.held]) (by simp)
  | created conn p phase new => exact create_invariant w conn p inv new
  | openStream conn index t phase found => exact open_invariant w conn index t inv phase found
  | copy conn b index t phase found more => exact append_invariant w conn b index t inv phase found
  | quit event conn phase final =>
      refine set_phase_invariant w conn phase inv ?_ ?_
      · rcases final with rfl | rfl | rfl <;> simp [Phase.held]
      · rcases final with rfl | rfl | rfl <;> simp

theorem initial_invariant : Invariant server.initial := by
  refine ⟨?_, ?_, ?_, ?_, ?_, ?_⟩ <;> simp [server, Phase.held]

theorem reachable_invariant (w : World) (reached : server.Reachable w) : Invariant w :=
  reachable_keeps server Invariant initial_invariant
    (fun s event next inv stepped => moved_invariant s next event (step_moved s next event stepped) inv) w reached

-- All the announced bytes of a transfer to the key's file have come in.
def Delivered (w : World) (key : JarKey) : Prop :=
  ∃ t ∈ w.transfers, t.file = cacheFile key ∧ (t.received.length : Int) = t.size

-- The key's file holds all the bytes that a PutCacheRequest for it announced.
def Stored (w : World) (key : JarKey) : Prop :=
  ∃ t ∈ w.transfers, t.file = cacheFile key ∧ (t.received.length : Int) = t.size ∧
    w.files (cacheFile key) = some t.received

theorem delivered_stored (w : World) (key : JarKey) (inv : Invariant w) (delivered : Delivered w key) : Stored w key := by
  obtain ⟨t, member, named, whole⟩ := delivered
  exact ⟨t, member, named, whole, named ▸ inv.content t member⟩

theorem moved_keeps_delivered (w next : World) (event : Event) (key : JarKey) (moved : Moved w event next)
    (delivered : Delivered w key) : Delivered next key := by
  obtain ⟨t, member, named, whole⟩ := delivered
  cases moved with
  | created conn p phase new => exact ⟨t, by simp [World.create, member], named, whole⟩
  | copy conn b index u phase found more =>
      obtain ⟨j, at_j⟩ := List.mem_iff_getElem?.mp member
      have different : index ≠ j := by
        intro equal
        subst equal
        rw [found, Option.some.injEq] at at_j
        subst at_j
        simp [Transfer.atEnd, ← whole] at more
      refine ⟨t, List.mem_of_getElem? (i := j) ?_, named, whole⟩
      rw [World.append, List.getElem?_set_ne different]
      exact at_j
  | _ => exact ⟨t, member, named, whole⟩

def Answered (w : World) : Prop :=
  ∀ conn jars todo missing, w.threads conn = .verifying jars todo missing →
    ∀ key ∈ jars, key ∉ todo → key ∉ missing → Delivered w key

-- When a thread tests whether a key's file exists, no transfer to that file has bytes outstanding.
def checksSettled (w : World) : Event → Prop
  | .check conn => ∀ jars key todo missing, w.threads conn = .verifying jars (key :: todo) missing →
      ∀ t ∈ w.transfers, t.file = cacheFile key → (t.received.length : Int) = t.size
  | _ => True

theorem answered_of_threads (w next : World) (event : Event) (moved : Moved w event next) (answered : Answered w)
    (same : ∀ conn jars todo missing, next.threads conn = .verifying jars todo missing →
      w.threads conn = .verifying jars todo missing) : Answered next := by
  intro conn jars todo missing verifying key member checked present
  exact moved_keeps_delivered w next event key moved
    (answered conn jars todo missing (same conn jars todo missing verifying) key member checked present)

theorem verifying_elsewhere (w : World) (conn other : ConnId) (phase : Phase) (jars todo missing : List JarKey)
    (noVerify : ∀ jars todo missing, phase ≠ .verifying jars todo missing)
    (verifying : (w.setPhase conn phase).threads other = .verifying jars todo missing) :
    w.threads other = .verifying jars todo missing := by
  by_cases same : other = conn
  · subst same
    rw [set_phase_here] at verifying
    exact absurd verifying (noVerify jars todo missing)
  · rwa [set_phase_other w conn other phase same] at verifying

theorem check_answered (w : World) (conn : ConnId) (jars todo missing : List JarKey) (key : JarKey) (inv : Invariant w)
    (answered : Answered w) (phase : w.threads conn = .verifying jars (key :: todo) missing)
    (settled : ∀ t ∈ w.transfers, t.file = cacheFile key → (t.received.length : Int) = t.size) :
    Answered (w.setPhase conn (.verifying jars todo (if w.exists key then missing else missing ++ [key]))) := by
  intro other otherJars otherTodo otherMissing verifying k member checked present
  by_cases same : other = conn
  · subst same
    simp only [set_phase_here, Phase.verifying.injEq] at verifying
    obtain ⟨rfl, rfl, rfl⟩ := verifying
    by_cases here : k = key
    · subst here
      cases exist : w.exists k with
      | false => simp [exist] at present
      | true =>
          obtain ⟨t, inTransfers, named⟩ := inv.created (cacheFile k) (by
            intro absent
            simp [World.exists, absent] at exist)
          exact ⟨t, inTransfers, named, settled t inTransfers named⟩
    · refine answered other jars (key :: todo) missing phase k member (by simp [here, checked]) ?_
      intro old
      cases exist : w.exists key <;> simp [exist, old] at present
  · rw [set_phase_other w conn other _ same] at verifying
    exact answered other otherJars otherTodo otherMissing verifying k member checked present

theorem moved_answered (w next : World) (event : Event) (moved : Moved w event next) (inv : Invariant w)
    (answered : Answered w) (settled : checksSettled w event) : Answered next := by
  have stays := answered_of_threads w next event moved answered
  cases moved with
  | receive conn init phase =>
      cases init with
      | verifyCacheRequest jars =>
          intro other otherJars todo missing verifying key member checked present
          by_cases same : other = conn
          · subst same
            simp only [set_phase_here, Init.begin, Phase.verifying.injEq] at verifying
            obtain ⟨rfl, rfl, rfl⟩ := verifying
            exact absurd member checked
          · rw [set_phase_other w conn other _ same] at verifying
            exact answered other otherJars todo missing verifying key member checked present
      | _ => exact stays (fun other jars todo missing => verifying_elsewhere w conn other _ jars todo missing (by simp [Init.begin]))
  | check conn jars todo missing key phase =>
      exact check_answered w conn jars todo missing key inv answered phase (settled jars key todo missing phase)
  | respond conn jars missing phase =>
      exact stays (fun other jars todo missing => verifying_elsewhere w conn other _ jars todo missing (by simp))
  | refused conn p phase old =>
      exact stays (fun other jars todo missing => verifying_elsewhere w conn other _ jars todo missing (by simp))
  | created conn p phase new =>
      exact stays (fun other jars todo missing => verifying_elsewhere (w.create p) conn other _ jars todo missing (by simp))
  | openStream conn index t phase found =>
      exact stays (fun other jars todo missing =>
        verifying_elsewhere (w.write t.file []) conn other _ jars todo missing (by simp))
  | copy conn b index t phase found more => exact stays (fun other jars todo missing verifying => verifying)
  | quit event conn phase final =>
      refine stays (fun other jars todo missing => verifying_elsewhere w conn other _ jars todo missing ?_)
      rcases final with rfl | rfl | rfl <;> simp

-- A thread that is about to answer has checked every key it leaves out of missing.
theorem verify_response_stored (events : List Event) (final : World)
    (ran : server.run server.initial events = some final) (settled : server.Meets checksSettled server.initial events)
    (conn : ConnId) (jars missing : List JarKey) (answering : final.threads conn = .verifying jars [] missing)
    (key : JarKey) (requested : key ∈ jars) (cached : key ∉ missing) : Stored final key := by
  have kept := run_keeps_guarded server checksSettled (fun w => Invariant w ∧ Answered w)
    (fun w event next holds met stepped =>
      ⟨moved_invariant w next event (step_moved w next event stepped) holds.1,
        moved_answered w next event (step_moved w next event stepped) holds.1 holds.2 met⟩)
    server.initial final events ⟨initial_invariant, by simp [Answered, server]⟩ settled ran
  exact delivered_stored final key kept.1 (kept.2 conn jars [] missing answering key requested (by simp) cached)

def exampleKey : JarKey := { groupId := "toolbox8", artifactId := "jartree", version := "1.0.0" }

-- One connection puts a jar of one byte, while another asks for it before or after that byte has come in.
def announce : List Event := [.receive 0 (.putCacheRequest ⟨exampleKey, 1⟩), .createNewFile 0, .openStream 0]

def verifyExample : List Event := [.receive 1 (.verifyCacheRequest [exampleKey]), .check 1]

theorem verify_stored_example :
    ∃ final, server.run server.initial (announce ++ [.copy 0 7] ++ verifyExample) = some final ∧
      final.threads 1 = .verifying [exampleKey] [] [] ∧ Stored final exampleKey := by
  have settled : server.Meets checksSettled server.initial (announce ++ [.copy 0 7] ++ verifyExample) := by
    simp [announce, verifyExample, Machine.Meets, checksSettled, server, step, Init.begin, World.setPhase, World.exists,
      World.create, World.write, World.append, Transfer.atEnd]
  obtain ⟨final, ran, answering⟩ :
      ∃ final, server.run server.initial (announce ++ [.copy 0 7] ++ verifyExample) = some final ∧
        final.threads 1 = .verifying [exampleKey] [] [] := by
    simp [announce, verifyExample, server, step, Init.begin, World.setPhase, World.exists, World.create, World.write,
      World.append, Transfer.atEnd]
  exact ⟨final, ran, answering, verify_response_stored _ final ran settled 1 [exampleKey] [] answering exampleKey
    (by simp) (by simp)⟩

theorem running_transfer_looks_cached :
    ∃ final, server.run server.initial (announce ++ verifyExample) = some final ∧
      final.threads 1 = .verifying [exampleKey] [] [] ∧ ¬ Stored final exampleKey := by
  simp [announce, verifyExample, server, step, Init.begin, World.setPhase, World.exists, World.create, World.write, Stored]

end StreamApp

end Toolbox8
