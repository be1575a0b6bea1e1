import Toolbox8.JarCache
import Mathlib.Algebra.Ring.Nat

set_option autoImplicit false

namespace Toolbox8.StreamAppClient

open Base StreamApp

-- What the client writes to its socket, and what the thread writes back.
inductive Item where
  | object (init : Init)
  | byte (b : Byte)
deriving DecidableEq, Repr

inductive Answer where
  | verifyCacheResponse (missing : List JarKey)
  | done
deriving DecidableEq, Repr

-- Where putCacheMulti is, or the second VerifyCacheRequest that follows it.
inductive Client where
  | verify
  | verifying
  | putting (missing : List JarKey)
  | copying (left : ByteString) (k : JarKey) (missing : List JarKey)
  | waiting (k : JarKey) (missing : List JarKey)
  | verifyingAgain
  | finished (missing : List JarKey)
  | failed
deriving DecidableEq, Repr

-- sent are the keys of the PutCacheRequests, confirmed those that have been answered with Done.
structure Handshake where
  client : Client
  toServer : List Item
  world : World
  toClient : List Answer
  sent : List JarKey
  confirmed : List JarKey

-- The one connection of the lone client.
def conn : ConnId := 0

section Parties

variable (jars : List JarKey) (resolveFile : JarKey → ByteString)

def putRequest (k : JarKey) : PutCacheRequest := ⟨k, (resolveFile k).length⟩

-- readObject blocks while the thread runs and has written nothing, and throws once it has closed the connection.
def Handshake.readObject (s : Handshake) (use : Answer → Handshake → Handshake) : Option Handshake :=
  match s.toClient with
  | answer :: rest => some (use answer { s with toClient := rest })
  | [] => if s.world.threads conn = .stopped then some { s with client := .failed } else none

def asVerifyCacheResponse (next : List JarKey → Client) (answer : Answer) (s : Handshake) : Handshake :=
  match answer with
  | .verifyCacheResponse missing => { s with client := next missing }
  | .done => { s with client := .failed }

def requireDone (k : JarKey) (missing : List JarKey) (answer : Answer) (s : Handshake) : Handshake :=
  match answer with
  | .done => { s with client := .putting missing, confirmed := s.confirmed ++ [k] }
  | .verifyCacheResponse _ => { s with client := .failed }

def clientStep (s : Handshake) : Option Handshake :=
  match s.client with
  | .verify => some { s with client := .verifying, toServer := s.toServer ++ [.object (.verifyCacheRequest jars)] }
  | .verifying => s.readObject (asVerifyCacheResponse .putting)
  | .putting (k :: missing) =>
      some { s with
        client := .copying (resolveFile k) k missing
        toServer := s.toServer ++ [.object (.putCacheRequest (putRequest resolveFile k))]
        sent := s.sent ++ [k] }
  | .copying (b :: left) k missing => some { s with client := .copying left k missing, toServer := s.toServer ++ [.byte b] }
  | .copying [] k missing => some { s with client := .waiting k missing }
  | .waiting k missing => s.readObject (requireDone k missing)
  | .putting [] => some { s with client := .verifyingAgain, toServer := s.toServer ++ [.object (.verifyCacheRequest jars)] }
  | .verifyingAgain => s.readObject (asVerifyCacheResponse .finished)
  | .finished _ => none
  | .failed => none

-- What the thread does next, what it leaves of its input and what it writes. A byte is no object.
def serverEvent (s : Handshake) : Option (Event × List Item × List Answer) :=
  match s.world.threads conn with
  | .idle =>
      match s.toServer with
      | [] => none
      | .object init :: rest => some (.receive conn init, rest, [])
      | .byte _ :: rest => some (.fail conn, rest, [])
  | .verifying _ (_ :: _) _ => some (.check conn, s.toServer, [])
  | .verifying _ [] missing => some (.respond conn, s.toServer, [.verifyCacheResponse missing])
  | .putting _ => some (.createNewFile conn, s.toServer, [])
  | .opening _ => some (.openStream conn, s.toServer, [])
  | .copying index =>
      (s.world.transfers[index]?).bind (fun t =>
        if t.atEnd then some (.copied conn, s.toServer, [])
        else
          match s.toServer with
          | .byte b :: rest => some (.copy conn b, rest, [])
          | _ => none)
  | .replying => some (.reply conn, s.toServer, [.done])
  | .stopped => none

def serverStep (s : Handshake) : Option Handshake :=
  (serverEvent s).bind (fun (event, rest, answers) =>
    (StreamApp.step s.world event).map (fun world =>
      { s with world := world, toServer := rest, toClient := s.toClient ++ answers }))

inductive Turn where
  | client
  | server
deriving DecidableEq, Repr

def cacheBefore (files : FileName → Option ByteString) : World := ⟨files, [], fun _ => .idle⟩

def handshake (files : FileName → Option ByteString) : Machine Handshake Turn where
  initial := ⟨.verify, [], cacheBefore files, [], [], []⟩
  step := fun s turn =>
    match turn with
    | .client => clientStep jars resolveFile s
    | .server => serverStep s

def missing (w : World) (keys : List JarKey) : List JarKey := keys.filter (fun k => !w.exists k)

-- Each key finds no file of its own when its turn comes.
def AllNew (w : World) (left : List JarKey) : Prop :=
  (∀ k ∈ left, w.exists k = false) ∧ (left.map cacheFile).Nodup

end Parties

section ServerSteps

variable (s : Handshake)

theorem server_receive (init : Init) (rest : List Item) (idle : s.world.threads conn = .idle)
    (first : s.toServer = .object init :: rest) :
    serverStep s = some { s with world := s.world.setPhase conn init.begin, toServer := rest } := by
  simp [serverStep, serverEvent, idle, first, StreamApp.step]

theorem server_blocked (idle : s.world.threads conn = .idle) (empty : s.toServer = []) : serverStep s = none := by
  simp [serverStep, serverEvent, idle, empty]

theorem server_check (keys todo found : List JarKey) (k : JarKey)
    (phase : s.world.threads conn = .verifying keys (k :: todo) found) :
    serverStep s = some { s with
      world := s.world.setPhase conn (.verifying keys todo (if s.world.exists k then found else found ++ [k])) } := by
  simp [serverStep, serverEvent, phase, StreamApp.step]

theorem server_respond (keys found : List JarKey) (phase : s.world.threads conn = .verifying keys [] found) :
    serverStep s = some { s with
      world := s.world.setPhase conn .idle
      toClient := s.toClient ++ [.verifyCacheResponse found] } := by
  simp [serverStep, serverEvent, phase, StreamApp.step]

theorem server_refuse (p : PutCacheRequest) (phase : s.world.threads conn = .putting p)
    (old : s.world.exists p.jarKey = true) : serverStep s = some { s with world := s.world.setPhase conn .stopped } := by
  simp [serverStep, serverEvent, phase, StreamApp.step, old]

theorem server_create (p : PutCacheRequest) (phase : s.world.threads conn = .putting p)
    (new : s.world.exists p.jarKey = false) :
    serverStep s = some { s with
      world := (s.world.create p).setPhase conn (.opening s.world.transfers.length) } := by
  simp [serverStep, serverEvent, phase, StreamApp.step, new]

theorem server_open (index : Nat) (t : Transfer) (phase : s.world.threads conn = .opening index)
    (found : s.world.transfers[index]? = some t) :
    serverStep s = some { s with world := (s.world.write t.file []).setPhase conn (.copying index) } := by
  simp [serverStep, serverEvent, phase, StreamApp.step, found]

theorem server_copy (index : Nat) (t : Transfer) (b : Byte) (rest : List Item)
    (phase : s.world.threads conn = .copying index) (found : s.world.transfers[index]? = some t) (more : t.atEnd = false)
    (first : s.toServer = .byte b :: rest) :
    serverStep s = some { s with world := s.world.append index t b, toServer := rest } := by
  simp [serverStep, serverEvent, phase, StreamApp.step, found, more, first]

theorem server_starved (index : Nat) (t : Transfer) (phase : s.world.threads conn = .copying index)
    (found : s.world.transfers[index]? = some t) (more : t.atEnd = false) (empty : s.toServer = []) :
    serverStep s = none := by
  simp [serverStep, serverEvent, phase, found, more, empty]

theorem server_copied (index : Nat) (t : Transfer) (phase : s.world.threads conn = .copying index)
    (found : s.world.transfers[index]? = some t) (whole : t.atEnd = true) :
    serverStep s = some { s with world := s.world.setPhase conn .replying } := by
  simp [serverStep, serverEvent, phase, StreamApp.step, found, whole]

theorem server_reply (phase : s.world.threads conn = .replying) :
    serverStep s = some { s with world := s.world.setPhase conn .idle, toClient := s.toClient ++ [.done] } := by
  simp [serverStep, serverEvent, phase, StreamApp.step]

theorem server_stopped (phase : s.world.threads conn = .stopped) : serverStep s = none := by
  simp [serverStep, serverEvent, phase]

theorem server_frame (next : Handshake) (stepped : serverStep s = some next) :
    next = { s with toServer := next.toServer, world := next.world, toClient := next.toClient } := by
  obtain ⟨⟨event, rest, answers⟩, _, stepped⟩ := Option.bind_eq_some_iff.mp stepped
  obtain ⟨world, _, rfl⟩ := Option.map_eq_some_iff.mp stepped
  rfl

end ServerSteps

theorem exists_create (w : World) (p : PutCacheRequest) (k : JarKey) :
    (w.create p).exists k = (decide (cacheFile k = cacheFile p.jarKey) || w.exists k) := by
  by_cases same : cacheFile k = cacheFile p.jarKey
  · simp [World.exists, World.create, World.write, same]
  · simp [World.exists, World.create, World.write, same]

theorem exists_write (w : World) (file : FileName) (content : ByteString) (old : w.files file ≠ none) (k : JarKey) :
    (w.write file content).exists k = w.exists k := by
  by_cases same : cacheFile k = file
  · have present : (w.files file).isSome = true := Option.isSome_iff_ne_none.mpr old
    simp [World.exists, World.write, same, present]
  · simp [World.exists, World.write, same]

theorem exists_append (w : World) (index : Nat) (t : Transfer) (b : Byte) (old : w.files t.file ≠ none) (k : JarKey) :
    (w.append index t b).exists k = w.exists k := by
  rw [← exists_write w t.file ((w.files t.file).getD [] ++ [b]) old k]
  simp only [World.exists, World.append]

theorem all_new_cons (w : World) (p : PutCacheRequest) (rest : List JarKey) (new : w.exists p.jarKey = false) :
    AllNew w (p.jarKey :: rest) ↔ AllNew (w.create p) rest := by
  simp only [AllNew, List.forall_mem_cons, List.map_cons, List.nodup_cons, List.mem_map, not_exists, not_and,
    exists_create, Bool.or_eq_false_iff, decide_eq_false_iff_not]
  constructor
  · rintro ⟨⟨_, absent⟩, other, distinct⟩
    exact ⟨fun k member => ⟨other k member, absent k member⟩, distinct⟩
  · rintro ⟨both, distinct⟩
    exact ⟨⟨new, fun k member => (both k member).2⟩, fun k member => (both k member).1, distinct⟩

section Runs

variable (jars : List JarKey) (resolveFile : JarKey → ByteString) (files : FileName → Option ByteString)

-- The keys that the first answer lists.
def missingKeys : List JarKey := missing (cacheBefore files) jars

-- No two of them have the same file.
def Distinct : Prop := ((missingKeys jars files).map cacheFile).Nodup

-- left are the keys whose requests are still to be handled.
structure Toward (w : World) (left : List JarKey) : Prop where
  cached : ∀ k ∈ jars, w.exists k = true ∨ k ∈ left
  fresh : AllNew w left ↔ Distinct jars files

-- The thread with a VerifyCacheRequest, from the request on the wire to the response there.
inductive Asking (left : List JarKey) : World → List Item → List Answer → Prop where
  | asked (w : World) (idle : w.threads conn = .idle) : Asking left w [.object (.verifyCacheRequest jars)] []
  | checking (w : World) (front todo : List JarKey) (split : jars = front ++ todo)
      (phase : w.threads conn = .verifying jars todo (missing w front)) : Asking left w [] []
  | answered (w : World) (idle : w.threads conn = .idle) : Asking left w [] [.verifyCacheResponse left]

-- The thread with the PutCacheRequest for k. remaining bytes of the file have not been read from the wire.
inductive Uploading (k : JarKey) (rest : List JarKey) : World → Nat → List Item → List Answer → Prop where
  | requested (w : World) (idle : w.threads conn = .idle) (toward : Toward jars files w (k :: rest)) :
      Uploading k rest w (resolveFile k).length [.object (.putCacheRequest (putRequest resolveFile k))] []
  | creating (w : World) (phase : w.threads conn = .putting (putRequest resolveFile k))
      (toward : Toward jars files w (k :: rest)) : Uploading k rest w (resolveFile k).length [] []
  | opening (w : World) (index : Nat) (t : Transfer) (phase : w.threads conn = .opening index)
      (found : w.transfers[index]? = some t) (fresh : t.received = []) (size : t.size = (resolveFile k).length)
      (present : w.files t.file ≠ none) (toward : Toward jars files w rest) :
      Uploading k rest w (resolveFile k).length [] []
  | copying (w : World) (index remaining : Nat) (t : Transfer) (phase : w.threads conn = .copying index)
      (found : w.transfers[index]? = some t) (size : t.size = (t.received.length + remaining : Nat))
      (present : w.files t.file ≠ none) (toward : Toward jars files w rest) : Uploading k rest w remaining [] []
  | replying (w : World) (phase : w.threads conn = .replying) (toward : Toward jars files w rest) :
      Uploading k rest w 0 [] []
  | confirmed (w : World) (idle : w.threads conn = .idle) (toward : Toward jars files w rest) :
      Uploading k rest w 0 [] [.done]

-- The client with the PutCacheRequest for k; left is what it has not copied.
inductive Sending (k : JarKey) (rest : List JarKey) : Client → ByteString → Prop where
  | copying (left : ByteString) : Sending k rest (.copying left k rest) left
  | waiting : Sending k rest (.waiting k rest) []

-- Where the two can be together. A refused request is where they can part.
inductive InStep : Handshake → Prop where
  | started : InStep (handshake jars resolveFile files).initial
  | asking (w : World) (items : List Item) (answers : List Answer)
      (toward : Toward jars files w (missingKeys jars files)) (listed : missing w jars = missingKeys jars files)
      (asks : Asking jars (missingKeys jars files) w items answers) :
      InStep ⟨.verifying, items, w, answers, [], []⟩
  | putting (w : World) (before left : List JarKey) (split : missingKeys jars files = before ++ left)
      (idle : w.threads conn = .idle) (toward : Toward jars files w left) :
      InStep ⟨.putting left, [], w, [], before, before⟩
  | uploading (w : World) (before rest : List JarKey) (k : JarKey) (client : Client) (left queued : ByteString)
      (remaining : Nat) (front : List Item) (answers : List Answer)
      (split : missingKeys jars files = before ++ k :: rest)
      (uploads : Uploading jars resolveFile files k rest w remaining front answers) (sends : Sending k rest client left)
      (length : queued.length + left.length = remaining) :
      InStep ⟨client, front ++ queued.map .byte, w, answers, before ++ [k], before⟩
  | askingAgain (w : World) (items : List Item) (answers : List Answer) (toward : Toward jars files w [])
      (listed : missing w jars = []) (asks : Asking jars [] w items answers) :
      InStep ⟨.verifyingAgain, items, w, answers, missingKeys jars files, missingKeys jars files⟩
  | finished (w : World) (idle : w.threads conn = .idle) (toward : Toward jars files w []) :
      InStep ⟨.finished [], [], w, [], missingKeys jars files, missingKeys jars files⟩
  | refused (w : World) (k : JarKey) (rest : List JarKey) (client : Client) (left : ByteString) (items : List Item)
      (sent confirmed : List JarKey) (stopped : w.threads conn = .stopped) (same : ¬Distinct jars files)
      (sends : client = .failed ∨ Sending k rest client left) : InStep ⟨client, items, w, [], sent, confirmed⟩

def itemWork : Item → Nat
  | .object (.verifyCacheRequest keys) => keys.length + 3
  | .object (.putCacheRequest _) => 6
  | .object .runRequest => 1
  | .object .finished => 1
  | .byte _ => 1

def phaseWork : Phase → Nat
  | .verifying _ todo _ => todo.length + 2
  | .putting _ => 5
  | .opening _ => 4
  | .copying _ => 3
  | .replying => 2
  | .idle => 0
  | .stopped => 0

def putWork (left : List JarKey) : Nat := (left.map (fun k => 2 * (resolveFile k).length + 8)).sum + jars.length + 4

def clientWork : Client → Nat
  | .verify => putWork jars resolveFile (missingKeys jars files) + jars.length + 4
  | .verifying => putWork jars resolveFile (missingKeys jars files)
  | .putting left => putWork jars resolveFile left
  | .copying left _ rest => 2 * left.length + 1 + putWork jars resolveFile rest
  | .waiting _ rest => putWork jars resolveFile rest
  | .verifyingAgain => 0
  | .finished _ => 0
  | .failed => 0

-- The steps that are left, where what is on the wire counts for what it still causes.
def work (s : Handshake) : Nat :=
  clientWork jars resolveFile files s.client + (s.toServer.map itemWork).sum + phaseWork (s.world.threads conn) +
    s.toClient.length

theorem put_work_cons (k : JarKey) (rest : List JarKey) :
    putWork jars resolveFile (k :: rest) = 2 * (resolveFile k).length + 8 + putWork jars resolveFile rest := by
  simp only [putWork, List.map_cons, List.sum_cons]
  omega

theorem missing_more (w : World) (k : JarKey) (front : List JarKey) :
    (if w.exists k then missing w front else missing w front ++ [k]) = missing w (front ++ [k]) := by
  cases cached : w.exists k <;> simp [missing, cached]

theorem toward_of_exists (w next : World) (left : List JarKey) (same : ∀ k, next.exists k = w.exists k)
    (toward : Toward jars files w left) : Toward jars files next left := by
  refine ⟨?_, ?_⟩
  · intro k member
    rw [same]
    exact toward.cached k member
  · rw [← toward.fresh]
    simp only [AllNew, same]

theorem toward_set_phase (w : World) (left : List JarKey) (phase : Phase) (toward : Toward jars files w left) :
    Toward jars files (w.setPhase conn phase) left :=
  toward_of_exists jars files w _ left (fun _ => rfl) toward

theorem missing_none (w : World) (toward : Toward jars files w []) : missing w jars = [] := by
  rw [missing, List.filter_eq_nil_iff]
  intro k member
  cases toward.cached k member with
  | inl cached => simp [cached]
  | inr left => cases left

theorem asking_server (s next : Handshake) (left : List JarKey) (listed : missing s.world jars = left)
    (asks : Asking jars left s.world s.toServer s.toClient) (stepped : serverStep s = some next) :
    (∀ k, next.world.exists k = s.world.exists k) ∧ Asking jars left next.world next.toServer next.toClient ∧
      work jars resolveFile files next < work jars resolveFile files s := by
  obtain ⟨client, toServer, w, toClient, sent, confirmed⟩ := s
  dsimp only at asks listed
  cases asks with
  | asked idle =>
      rw [server_receive _ _ [] idle rfl] at stepped
      cases stepped
      refine ⟨fun _ => rfl, .checking _ [] jars rfl (by simp [Init.begin, missing]), ?_⟩
      simp [work, itemWork, phaseWork, Init.begin, idle]
  | checking front todo split phase =>
      cases todo with
      | nil =>
          rw [server_respond _ _ _ phase] at stepped
          cases stepped
          rw [List.append_nil] at split
          refine ⟨fun _ => rfl, ?_, ?_⟩
          · rw [← split, listed]
            exact .answered _ (by simp)
          · simp [work, phaseWork, phase]
      | cons k todo =>
          rw [server_check _ _ _ _ _ phase] at stepped
          cases stepped
          refine ⟨fun _ => rfl, ?_, ?_⟩
          · refine .checking _ (front ++ [k]) todo (by rw [split, List.append_assoc]; rfl) ?_
            rw [set_phase_here]
            exact congrArg _ (missing_more w k front)
          · simp [work, phaseWork, phase]
  | answered idle =>
      rw [server_blocked _ idle rfl] at stepped
      cases stepped

theorem toward_created (w : World) (k : JarKey) (rest : List JarKey) (new : w.exists k = false)
    (toward : Toward jars files w (k :: rest)) : Toward jars files (w.create (putRequest resolveFile k)) rest := by
  refine ⟨?_, ?_⟩
  · intro other member
    rw [exists_create]
    cases toward.cached other member with
    | inl cached => simp [cached]
    | inr later =>
        cases later with
        | head => simp [putRequest]
        | tail _ later => exact .inr later
  · rw [← toward.fresh]
    exact (all_new_cons w (putRequest resolveFile k) rest new).symm

-- Part of the file has been read from the wire, or the request has been refused as two keys have the same file.
def UploadedOn (k : JarKey) (rest : List JarKey) (remaining : Nat) (queued : ByteString) (next : Handshake) : Prop :=
  (∃ (taken : Nat) (front : List Item) (left : ByteString), taken ≤ remaining ∧ queued.length = left.length + taken ∧
      next.toServer = front ++ left.map .byte ∧
      Uploading jars resolveFile files k rest next.world (remaining - taken) front next.toClient) ∨
    ¬Distinct jars files ∧ next.world.threads conn = .stopped ∧ next.toClient = []

theorem creating_server (k : JarKey) (rest : List JarKey) (s next : Handshake) (queued : ByteString)
    (wire : s.toServer = queued.map .byte) (silent : s.toClient = [])
    (phase : s.world.threads conn = .putting (putRequest resolveFile k)) (toward : Toward jars files s.world (k :: rest))
    (stepped : serverStep s = some next) :
    UploadedOn jars resolveFile files k rest (resolveFile k).length queued next ∧
      work jars resolveFile files next < work jars resolveFile files s := by
  obtain ⟨client, toServer, w, toClient, sent, confirmed⟩ := s
  dsimp only at wire silent phase toward
  subst wire silent
  cases old : w.exists k with
  | true =>
      rw [server_refuse _ _ phase old] at stepped
      cases stepped
      refine ⟨.inr ⟨?_, set_phase_here w conn _, rfl⟩, ?_⟩
      · rw [← toward.fresh]
        intro new
        rw [new.1 k (by simp)] at old
        cases old
      · simp [work, phaseWork, phase]
  | false =>
      rw [server_create _ _ phase old] at stepped
      cases stepped
      refine ⟨.inl ⟨0, [], queued, Nat.zero_le _, rfl, rfl, ?_⟩, ?_⟩
      · have grown := toward_created jars resolveFile files w k rest old toward
        refine .opening _ w.transfers.length ⟨cacheFile k, (resolveFile k).length, []⟩
          (set_phase_here (w.create (putRequest resolveFile k)) conn _) ?_ rfl rfl ?_
          (toward_set_phase jars files _ rest _ grown)
        · simp [World.create, putRequest]
        · simp [World.create, World.write, putRequest]
      · simp [work, phaseWork, phase]

theorem at_end_iff (t : Transfer) (remaining : Nat) (size : t.size = (t.received.length + remaining : Nat)) :
    t.atEnd = true ↔ remaining = 0 := by
  simp only [Transfer.atEnd, size, decide_eq_true_eq]
  omega

theorem copying_server (k : JarKey) (rest : List JarKey) (s next : Handshake) (index remaining : Nat) (t : Transfer)
    (queued : ByteString) (wire : s.toServer = queued.map .byte) (silent : s.toClient = [])
    (phase : s.world.threads conn = .copying index) (found : s.world.transfers[index]? = some t)
    (size : t.size = (t.received.length + remaining : Nat)) (present : s.world.files t.file ≠ none)
    (toward : Toward jars files s.world rest) (stepped : serverStep s = some next) :
    UploadedOn jars resolveFile files k rest remaining queued next ∧
      work jars resolveFile files next < work jars resolveFile files s := by
  obtain ⟨client, toServer, w, toClient, sent, confirmed⟩ := s
  dsimp only at wire silent phase found present toward
  subst wire silent
  by_cases whole : t.atEnd = true
  · rw [server_copied _ index t phase found whole] at stepped
    cases stepped
    refine ⟨.inl ⟨0, [], queued, Nat.zero_le _, rfl, rfl, ?_⟩, ?_⟩
    · rw [(at_end_iff t remaining size).mp whole]
      exact .replying _ (set_phase_here w conn _) (toward_set_phase jars files w _ _ toward)
    · simp [work, phaseWork, phase]
  · have more : t.atEnd = false := by simpa using whole
    rw [at_end_iff t remaining size] at whole
    cases queued with
    | nil =>
        rw [server_starved _ index t phase found more rfl] at stepped
        cases stepped
    | cons b queued =>
        rw [server_copy _ index t b (queued.map .byte) phase found more rfl] at stepped
        cases stepped
        refine ⟨.inl ⟨1, [], queued, Nat.one_le_iff_ne_zero.mpr whole, rfl, rfl, ?_⟩, ?_⟩
        · have short : index < w.transfers.length := (List.getElem?_eq_some_iff.mp found).1
          refine .copying _ index _ { t with received := t.received ++ [b] } phase ?_ ?_ ?_
            (toward_of_exists jars files w _ rest (exists_append w index t b present) toward)
          · simp [World.append, short]
          · simp only [size, List.length_append, List.length_singleton]
            omega
          · simp [World.append, World.write]
        · simp [work, itemWork, phaseWork, World.append, World.write]

theorem uploading_server (k : JarKey) (rest : List JarKey) (s next : Handshake) (remaining : Nat) (front : List Item)
    (queued : ByteString) (wire : s.toServer = front ++ queued.map .byte) (short : queued.length ≤ remaining)
    (uploads : Uploading jars resolveFile files k rest s.world remaining front s.toClient)
    (stepped : serverStep s = some next) :
    UploadedOn jars resolveFile files k rest remaining queued next ∧
      work jars resolveFile files next < work jars resolveFile files s := by
  obtain ⟨client, toServer, w, toClient, sent, confirmed⟩ := s
  dsimp only at wire uploads
  subst wire
  cases uploads with
  | requested idle toward =>
      rw [server_receive _ _ (queued.map .byte) idle rfl] at stepped
      cases stepped
      refine ⟨.inl ⟨0, [], queued, Nat.zero_le _, rfl, rfl, ?_⟩, ?_⟩
      · exact .creating _ (set_phase_here w conn _) (toward_set_phase jars files w _ _ toward)
      · simp [work, itemWork, phaseWork, Init.begin, idle]
        omega
  | creating phase toward => exact creating_server jars resolveFile files k rest _ next queued rfl rfl phase toward stepped
  | opening index t phase found fresh size present toward =>
      rw [server_open _ index t phase found] at stepped
      cases stepped
      refine ⟨.inl ⟨0, [], queued, Nat.zero_le _, rfl, rfl, ?_⟩, ?_⟩
      · refine .copying _ index _ t (set_phase_here (w.write t.file []) conn _) found (by simp [size, fresh]) ?_
          (toward_set_phase jars files _ rest _
            (toward_of_exists jars files w _ rest (exists_write w t.file [] present) toward))
        simp [World.write]
      · simp [work, phaseWork, phase]
  | copying index _ t phase found size present toward =>
      exact copying_server jars resolveFile files k rest _ next index remaining t queued rfl rfl phase found size present toward
        stepped
  | replying phase toward =>
      rw [server_reply _ phase] at stepped
      cases stepped
      refine ⟨.inl ⟨0, [], queued, Nat.zero_le _, rfl, rfl, ?_⟩, ?_⟩
      · exact .confirmed _ (set_phase_here w conn _) (toward_set_phase jars files w _ _ toward)
      · simp [work, phaseWork, phase]
  | confirmed idle toward =>
      have empty : queued = [] := List.length_eq_zero_iff.mp (Nat.le_zero.mp short)
      rw [server_blocked _ idle (by simp [empty])] at stepped
      cases stepped

theorem read_answer (s : Handshake) (use : Answer → Handshake → Handshake) (answer : Answer) (rest : List Answer)
    (first : s.toClient = answer :: rest) : s.readObject use = some (use answer { s with toClient := rest }) := by
  simp only [Handshake.readObject, first]

theorem read_blocked (s : Handshake) (use : Answer → Handshake → Handshake) (silent : s.toClient = [])
    (running : s.world.threads conn ≠ .stopped) : s.readObject use = none := by
  simp only [Handshake.readObject, silent]
  exact if_neg running

theorem read_closed (s : Handshake) (use : Answer → Handshake → Handshake) (silent : s.toClient = [])
    (stopped : s.world.threads conn = .stopped) : s.readObject use = some { s with client := .failed } := by
  simp only [Handshake.readObject, silent]
  exact if_pos stopped

theorem client_waiting (s : Handshake) (k : JarKey) (rest : List JarKey) (waits : s.client = .waiting k rest) :
    clientStep jars resolveFile s = s.readObject (requireDone k rest) := by
  simp only [clientStep, waits]

theorem client_verifying (s : Handshake) (waits : s.client = .verifying) :
    clientStep jars resolveFile s = s.readObject (asVerifyCacheResponse .putting) := by
  simp only [clientStep, waits]

theorem client_verifying_again (s : Handshake) (waits : s.client = .verifyingAgain) :
    clientStep jars resolveFile s = s.readObject (asVerifyCacheResponse .finished) := by
  simp only [clientStep, waits]

theorem asking_read (left : List JarKey) (s : Handshake) (asks : Asking jars left s.world s.toServer s.toClient)
    (next : List JarKey → Client) :
    s.readObject (asVerifyCacheResponse next) = none ∨
      s.toServer = [] ∧ s.world.threads conn = .idle ∧ s.toClient = [.verifyCacheResponse left] ∧
        s.readObject (asVerifyCacheResponse next) = some { s with client := next left, toClient := [] } := by
  obtain ⟨client, toServer, w, toClient, sent, confirmed⟩ := s
  dsimp only at asks
  cases asks with
  | asked idle =>
      left
      apply read_blocked _ _ rfl
      simp [idle]
  | checking front todo split phase =>
      left
      apply read_blocked _ _ rfl
      simp [phase]
  | answered idle =>
      right
      refine ⟨rfl, idle, rfl, ?_⟩
      rw [read_answer _ _ _ [] rfl]
      rfl

theorem uploading_read (k : JarKey) (rest : List JarKey) (s : Handshake) (remaining : Nat) (front : List Item)
    (uploads : Uploading jars resolveFile files k rest s.world remaining front s.toClient) :
    s.readObject (requireDone k rest) = none ∨
      remaining = 0 ∧ front = [] ∧ s.world.threads conn = .idle ∧ s.toClient = [.done] ∧ Toward jars files s.world rest ∧
        s.readObject (requireDone k rest) =
          some { s with client := .putting rest, toClient := [], confirmed := s.confirmed ++ [k] } := by
  obtain ⟨client, toServer, w, toClient, sent, confirmed⟩ := s
  dsimp only at uploads
  have blocked : ∀ phase, w.threads conn = phase → phase ≠ .stopped →
      Handshake.readObject ⟨client, toServer, w, [], sent, confirmed⟩ (requireDone k rest) = none := by
    intro phase here running
    exact read_blocked _ _ rfl (fun stopped => running (here.symm.trans stopped))
  cases uploads with
  | requested idle toward => exact .inl (blocked _ idle nofun)
  | creating phase toward => exact .inl (blocked _ phase nofun)
  | opening index t phase found fresh size present toward => exact .inl (blocked _ phase nofun)
  | copying index _ t phase found size present toward => exact .inl (blocked _ phase nofun)
  | replying phase toward => exact .inl (blocked _ phase nofun)
  | confirmed idle toward =>
      right
      refine ⟨rfl, rfl, idle, rfl, toward, ?_⟩
      rw [read_answer _ _ _ [] rfl]
      rfl

theorem toward_start : Toward jars files (cacheBefore files) (missingKeys jars files) := by
  refine ⟨?_, ?_⟩
  · intro k member
    cases cached : (cacheBefore files).exists k with
    | true => exact .inl rfl
    | false => exact .inr (List.mem_filter.mpr ⟨member, by simp [cached]⟩)
  · refine and_iff_right ?_
    intro k member
    simpa using (List.mem_filter.mp member).2

-- Every step leads on, and every one is counted.
def Onward (s next : Handshake) : Prop :=
  InStep jars resolveFile files next ∧ work jars resolveFile files next < work jars resolveFile files s

theorem sending_step (w : World) (before rest : List JarKey) (k : JarKey) (client : Client) (left queued : ByteString)
    (remaining : Nat) (front : List Item) (answers : List Answer) (next : Handshake)
    (split : missingKeys jars files = before ++ k :: rest)
    (uploads : Uploading jars resolveFile files k rest w remaining front answers) (sends : Sending k rest client left)
    (length : queued.length + left.length = remaining)
    (stepped : clientStep jars resolveFile ⟨client, front ++ queued.map .byte, w, answers, before ++ [k], before⟩ =
      some next) :
    Onward jars resolveFile files ⟨client, front ++ queued.map .byte, w, answers, before ++ [k], before⟩ next := by
  cases sends with
  | copying left =>
      cases left with
      | nil =>
          cases stepped
          refine ⟨.uploading w before rest k _ [] queued remaining front answers split uploads .waiting length, ?_⟩
          simp [work, clientWork]
      | cons b left =>
          cases stepped
          have later := InStep.uploading w before rest k _ left (queued ++ [b]) remaining front answers split uploads
            (.copying left) (by simpa [Nat.add_assoc, Nat.add_comm 1] using length)
          refine ⟨by simpa using later, ?_⟩
          simp [work, clientWork, itemWork]
          omega
  | waiting =>
      have read := uploading_read jars resolveFile files k rest
        ⟨.waiting k rest, front ++ queued.map .byte, w, answers, before ++ [k], before⟩ remaining front uploads
      rw [client_waiting jars resolveFile _ k rest rfl] at stepped
      rcases read with blocked | ⟨exhausted, noFront, idle, answered, toward, used⟩
      · rw [blocked] at stepped
        cases stepped
      · dsimp only at idle answered toward
        have empty : queued = [] := List.length_eq_zero_iff.mp (by omega)
        rw [used, noFront, empty] at stepped
        cases stepped
        refine ⟨.putting w (before ++ [k]) rest (by rw [split, List.append_assoc]; rfl) idle toward, ?_⟩
        simp [work, clientWork, answered, noFront, empty]

theorem refused_step (w : World) (k : JarKey) (rest : List JarKey) (client : Client) (left : ByteString) (items : List Item)
    (sent confirmed : List JarKey) (next : Handshake) (stopped : w.threads conn = .stopped) (same : ¬Distinct jars files)
    (sends : client = .failed ∨ Sending k rest client left)
    (stepped : clientStep jars resolveFile ⟨client, items, w, [], sent, confirmed⟩ = some next) :
    Onward jars resolveFile files ⟨client, items, w, [], sent, confirmed⟩ next := by
  cases sends with
  | inl failed =>
      subst failed
      cases stepped
  | inr sends =>
      cases sends with
      | copying left =>
          cases left with
          | nil =>
              cases stepped
              exact ⟨.refused w k rest _ [] items sent confirmed stopped same (.inr .waiting), by simp [work, clientWork]⟩
          | cons b left =>
              cases stepped
              refine ⟨.refused w k rest _ left _ sent confirmed stopped same (.inr (.copying left)), ?_⟩
              simp [work, clientWork, itemWork]
              omega
      | waiting =>
          rw [client_waiting jars resolveFile _ k rest rfl, read_closed _ _ rfl stopped] at stepped
          cases stepped
          refine ⟨.refused w k rest _ [] items sent confirmed stopped same (.inl rfl), ?_⟩
          simp [work, clientWork, putWork]

theorem client_in_step (s next : Handshake) (inStep : InStep jars resolveFile files s)
    (stepped : clientStep jars resolveFile s = some next) : Onward jars resolveFile files s next := by
  cases inStep with
  | started =>
      cases stepped
      refine ⟨.asking (cacheBefore files) _ [] (toward_start jars files) rfl (.asked _ rfl), ?_⟩
      simp [work, clientWork, itemWork, handshake]
      omega
  | asking w items answers toward listed asks =>
      rw [client_verifying jars resolveFile _ rfl] at stepped
      rcases asking_read jars _ ⟨.verifying, items, w, answers, [], []⟩ asks .putting with blocked | ⟨rfl, idle, answered, used⟩
      · rw [blocked] at stepped
        cases stepped
      · rw [used] at stepped
        cases stepped
        refine ⟨.putting w [] _ rfl idle toward, ?_⟩
        simp only at answered
        simp [work, clientWork, answered]
  | putting w before left split idle toward =>
      cases left with
      | nil =>
          cases stepped
          rw [List.append_nil] at split
          have later : InStep jars resolveFile files ⟨.verifyingAgain, [.object (.verifyCacheRequest jars)], w, [],
              missingKeys jars files, missingKeys jars files⟩ :=
            .askingAgain w _ [] toward (missing_none jars files w toward) (.asked w idle)
          rw [split] at later
          refine ⟨later, ?_⟩
          simp [work, clientWork, itemWork, putWork]
      | cons k rest =>
          cases stepped
          refine ⟨.uploading w before rest k _ (resolveFile k) [] _ _ [] split (.requested w idle toward) (.copying _)
            (Nat.zero_add _), ?_⟩
          simp [work, clientWork, itemWork, put_work_cons]
          omega
  | uploading w before rest k client left queued remaining front answers split uploads sends length =>
      exact sending_step jars resolveFile files w before rest k client left queued remaining front answers next split uploads
        sends length stepped
  | askingAgain w items answers toward listed asks =>
      rw [client_verifying_again jars resolveFile _ rfl] at stepped
      rcases asking_read jars _ ⟨.verifyingAgain, items, w, answers, _, _⟩ asks .finished with
        blocked | ⟨rfl, idle, answered, used⟩
      · rw [blocked] at stepped
        cases stepped
      · rw [used] at stepped
        cases stepped
        refine ⟨.finished w idle toward, ?_⟩
        simp only at answered
        simp [work, clientWork, answered]
  | finished w idle toward => cases stepped
  | refused w k rest client left items sent confirmed stopped same sends =>
      exact refused_step jars resolveFile files w k rest client left items sent confirmed next stopped same sends stepped

theorem missing_of_exists (w next : World) (same : ∀ k, next.exists k = w.exists k) : missing next jars = missing w jars := by
  simp only [missing, same]

theorem server_in_step (s next : Handshake) (inStep : InStep jars resolveFile files s) (stepped : serverStep s = some next) :
    Onward jars resolveFile files s next := by
  obtain ⟨client', items', w', answers', sent', confirmed'⟩ := next
  cases inStep with
  | started =>
      rw [server_blocked _ rfl rfl] at stepped
      cases stepped
  | asking w items answers toward listed asks =>
      obtain ⟨same, later, less⟩ := asking_server jars resolveFile files _ _ _ listed asks stepped
      cases server_frame _ _ stepped
      exact ⟨.asking w' items' answers' (toward_of_exists jars files w w' _ same toward)
        ((missing_of_exists jars w w' same).trans listed) later, less⟩
  | putting w before left split idle toward =>
      rw [server_blocked _ idle rfl] at stepped
      cases stepped
  | uploading w before rest k client left queued remaining front answers split uploads sends length =>
      obtain ⟨uploaded, less⟩ :=
        uploading_server jars resolveFile files k rest _ _ remaining front queued rfl (by omega) uploads stepped
      cases server_frame _ _ stepped
      rcases uploaded with ⟨taken, front', queued', enough, shorter, wire, later⟩ | ⟨same, stopped, silent⟩
      · dsimp only at wire later
        subst wire
        exact ⟨.uploading w' before rest k client left queued' _ front' answers' split later sends (by omega), less⟩
      · dsimp only at stopped silent
        subst silent
        exact ⟨.refused w' k rest client left items' _ _ stopped same (.inr sends), less⟩
  | askingAgain w items answers toward listed asks =>
      obtain ⟨same, later, less⟩ := asking_server jars resolveFile files _ _ _ listed asks stepped
      cases server_frame _ _ stepped
      exact ⟨.askingAgain w' items' answers' (toward_of_exists jars files w w' _ same toward)
        ((missing_of_exists jars w w' same).trans listed) later, less⟩
  | finished w idle toward =>
      rw [server_blocked _ idle rfl] at stepped
      cases stepped
  | refused w k rest client left items sent confirmed stopped same sends =>
      rw [server_stopped _ stopped] at stepped
      cases stepped

theorem step_in_step (s : Handshake) (turn : Turn) (next : Handshake) (inStep : InStep jars resolveFile files s)
    (stepped : (handshake jars resolveFile files).step s turn = some next) : Onward jars resolveFile files s next := by
  cases turn with
  | client => exact client_in_step jars resolveFile files s next inStep stepped
  | server => exact server_in_step jars resolveFile files s next inStep stepped

-- The handshake is over, or the thread has closed the connection.
def Over (s : Handshake) : Prop := (∃ found, s.client = .finished found) ∨ s.world.threads conn = .stopped

theorem asking_enabled (left : List JarKey) (s : Handshake) (next : List JarKey → Client)
    (asks : Asking jars left s.world s.toServer s.toClient) :
    (∃ later, s.readObject (asVerifyCacheResponse next) = some later) ∨ ∃ later, serverStep s = some later := by
  obtain ⟨client, toServer, w, toClient, sent, confirmed⟩ := s
  dsimp only at asks
  cases asks with
  | asked idle => exact .inr ⟨_, server_receive _ _ [] idle rfl⟩
  | checking front todo split phase =>
      cases todo with
      | nil => exact .inr ⟨_, server_respond _ _ _ phase⟩
      | cons k todo => exact .inr ⟨_, server_check _ _ _ _ _ phase⟩
  | answered idle => exact .inl ⟨_, read_answer _ _ _ [] rfl⟩

theorem uploading_enabled (k : JarKey) (rest : List JarKey) (s : Handshake) (remaining : Nat) (front : List Item)
    (left queued : ByteString) (wire : s.toServer = front ++ queued.map .byte)
    (uploads : Uploading jars resolveFile files k rest s.world remaining front s.toClient) (sends : Sending k rest s.client left)
    (length : queued.length + left.length = remaining) :
    (∃ later, clientStep jars resolveFile s = some later) ∨ ∃ later, serverStep s = some later := by
  obtain ⟨client, toServer, w, toClient, sent, confirmed⟩ := s
  dsimp only at wire uploads sends
  subst wire
  cases sends with
  | copying left =>
      cases left with
      | nil => exact .inl ⟨_, rfl⟩
      | cons b left => exact .inl ⟨_, rfl⟩
  | waiting =>
      cases uploads with
      | requested idle toward => exact .inr ⟨_, server_receive _ _ (queued.map .byte) idle rfl⟩
      | creating phase toward =>
          cases old : w.exists k with
          | true => exact .inr ⟨_, server_refuse _ _ phase old⟩
          | false => exact .inr ⟨_, server_create _ _ phase old⟩
      | opening index t phase found fresh size present toward => exact .inr ⟨_, server_open _ index t phase found⟩
      | copying index _ t phase found size present toward =>
          by_cases whole : t.atEnd = true
          · exact .inr ⟨_, server_copied _ index t phase found whole⟩
          · have more : t.atEnd = false := by simpa using whole
            cases queued with
            | nil => exact absurd ((at_end_iff t remaining size).mpr length.symm) whole
            | cons b queued => exact .inr ⟨_, server_copy _ index t b (queued.map .byte) phase found more rfl⟩
      | replying phase toward => exact .inr ⟨_, server_reply _ phase⟩
      | confirmed idle toward =>
          left
          rw [client_waiting jars resolveFile _ k rest rfl, read_answer _ _ _ [] rfl]
          exact ⟨_, rfl⟩

theorem enabled (s : Handshake) (inStep : InStep jars resolveFile files s) (unfinished : ¬Over s) :
    ∃ turn next, True ∧ (handshake jars resolveFile files).step s turn = some next := by
  have either : (∃ later, clientStep jars resolveFile s = some later) ∨ ∃ later, serverStep s = some later := by
    cases inStep with
    | started => exact .inl ⟨_, rfl⟩
    | asking w items answers toward listed asks =>
        rw [client_verifying jars resolveFile _ rfl]
        exact asking_enabled jars _ _ .putting asks
    | putting w before left split idle toward =>
        cases left with
        | nil => exact .inl ⟨_, rfl⟩
        | cons k rest => exact .inl ⟨_, rfl⟩
    | uploading w before rest k client left queued remaining front answers split uploads sends length =>
        exact uploading_enabled jars resolveFile files k rest _ remaining front left queued rfl uploads sends length
    | askingAgain w items answers toward listed asks =>
        rw [client_verifying_again jars resolveFile _ rfl]
        exact asking_enabled jars _ _ .finished asks
    | finished w idle toward => exact absurd (.inl ⟨[], rfl⟩) unfinished
    | refused w k rest client left items sent confirmed stopped same sends => exact absurd (.inr stopped) unfinished
  cases either with
  | inl acts =>
      obtain ⟨later, stepped⟩ := acts
      exact ⟨.client, later, trivial, stepped⟩
  | inr acts =>
      obtain ⟨later, stepped⟩ := acts
      exact ⟨.server, later, trivial, stepped⟩

-- What a lone client relies on: it gets on, each of its requests is confirmed, and in the end nothing is missing.
structure Succeeds (s : Handshake) : Prop where
  accepted : s.world.threads conn ≠ .stopped
  healthy : s.client ≠ .failed
  confirmed : s.sent = s.confirmed ∨ ∃ k, s.sent = s.confirmed ++ [k]
  complete : ∀ found, s.client = .finished found →
    found = [] ∧ s.sent = missingKeys jars files ∧ s.confirmed = missingKeys jars files
  bounded : ∀ turns final, (handshake jars resolveFile files).run s turns = some final →
    turns.length ≤ work jars resolveFile files s
  finishes : ∃ turns final, (handshake jars resolveFile files).run s turns = some final ∧
    final.client = .finished []

theorem reached_in_step (s : Handshake) (reached : (handshake jars resolveFile files).Reachable s) :
    InStep jars resolveFile files s :=
  reachable_keeps (handshake jars resolveFile files) (InStep jars resolveFile files) .started
    (fun s turn next holds stepped => (step_in_step jars resolveFile files s turn next holds stepped).1) s reached

theorem runs_bounded (s final : Handshake) (turns : List Turn) (inStep : InStep jars resolveFile files s)
    (ran : (handshake jars resolveFile files).run s turns = some final) : turns.length ≤ work jars resolveFile files s := by
  have bound := internal_run_bounded (handshake jars resolveFile files) (InStep jars resolveFile files) (fun _ => True)
    (work jars resolveFile files)
    (fun s turn next holds stepped => (step_in_step jars resolveFile files s turn next holds stepped).1)
    (fun s turn next holds _ stepped => (step_in_step jars resolveFile files s turn next holds stepped).2)
    s final turns inStep (fun _ _ => trivial) ran
  omega

theorem runs_over (s : Handshake) (inStep : InStep jars resolveFile files s) :
    ∃ turns final, (handshake jars resolveFile files).run s turns = some final ∧ InStep jars resolveFile files final ∧
      Over final := by
  have keeps := fun s turn next holds stepped => (step_in_step jars resolveFile files s turn next holds stepped).1
  obtain ⟨turns, final, _, ran, ended⟩ := internal_run_finishes (handshake jars resolveFile files)
    (InStep jars resolveFile files) (fun _ => True) Over (work jars resolveFile files) keeps
    (fun s turn next holds _ stepped => (step_in_step jars resolveFile files s turn next holds stepped).2)
    (enabled jars resolveFile files) s inStep
  exact ⟨turns, final, ran, run_keeps _ _ keeps s final turns inStep ran, ended⟩

theorem asking_running (left : List JarKey) (w : World) (items : List Item) (answers : List Answer)
    (asks : Asking jars left w items answers) : w.threads conn ≠ .stopped := by
  cases asks with
  | asked idle => simp [idle]
  | checking front todo split phase => simp [phase]
  | answered idle => simp [idle]

theorem uploading_running (k : JarKey) (rest : List JarKey) (w : World) (remaining : Nat) (front : List Item)
    (answers : List Answer) (uploads : Uploading jars resolveFile files k rest w remaining front answers) :
    w.threads conn ≠ .stopped := by
  cases uploads with
  | requested idle toward => simp [idle]
  | creating phase toward => simp [phase]
  | opening index t phase found fresh size present toward => simp [phase]
  | copying index _ t phase found size present toward => simp [phase]
  | replying phase toward => simp [phase]
  | confirmed idle toward => simp [idle]

theorem in_step_running (s : Handshake) (inStep : InStep jars resolveFile files s) :
    s.world.threads conn = .stopped ∧ ¬Distinct jars files ∨
      s.world.threads conn ≠ .stopped ∧ s.client ≠ .failed ∧
        (s.sent = s.confirmed ∨ ∃ k, s.sent = s.confirmed ++ [k]) ∧
        ∀ found, s.client = .finished found → found = [] ∧ s.sent = missingKeys jars files ∧
          s.confirmed = missingKeys jars files ∧ Distinct jars files := by
  cases inStep with
  | started => exact .inr ⟨nofun, nofun, .inl rfl, nofun⟩
  | asking w items answers toward listed asks => exact .inr ⟨asking_running jars _ w _ _ asks, nofun, .inl rfl, nofun⟩
  | putting w before left split idle toward => exact .inr ⟨by simp [idle], nofun, .inl rfl, nofun⟩
  | uploading w before rest k client left queued remaining front answers split uploads sends length =>
      refine .inr ⟨uploading_running jars resolveFile files k rest w remaining front answers uploads, ?_, .inr ⟨k, rfl⟩, ?_⟩
      · cases sends <;> exact nofun
      · cases sends <;> exact nofun
  | askingAgain w items answers toward listed asks => exact .inr ⟨asking_running jars _ w _ _ asks, nofun, .inl rfl, nofun⟩
  | finished w idle toward =>
      refine .inr ⟨by simp [idle], nofun, .inl rfl, ?_⟩
      rintro found ⟨⟩
      exact ⟨rfl, rfl, rfl, toward.fresh.mp ⟨nofun, List.nodup_nil⟩⟩
  | refused w k rest client left items sent confirmed stopped same sends => exact .inl ⟨stopped, same⟩

theorem refused_of_same_file (same : ¬Distinct jars files) :
    ∃ s, (handshake jars resolveFile files).Reachable s ∧ s.world.threads conn = .stopped := by
  obtain ⟨turns, final, ran, inStep, ended⟩ := runs_over jars resolveFile files _ (.started)
  refine ⟨final, ⟨turns, ran⟩, ?_⟩
  rcases in_step_running jars resolveFile files final inStep with ⟨stopped, _⟩ | ⟨_, _, _, complete⟩
  · exact stopped
  · cases ended with
    | inl finished =>
        obtain ⟨found, ends⟩ := finished
        exact absurd (complete found ends).2.2.2 same
    | inr stopped => exact stopped

theorem in_step_succeeds (distinct : Distinct jars files) (s : Handshake) (inStep : InStep jars resolveFile files s) :
    Succeeds jars resolveFile files s := by
  rcases in_step_running jars resolveFile files s inStep with ⟨_, same⟩ | ⟨running, healthy, confirmed, complete⟩
  · exact absurd distinct same
  · refine ⟨running, healthy, confirmed, ?_, fun turns final => runs_bounded jars resolveFile files s final turns inStep, ?_⟩
    · intro found ends
      obtain ⟨empty, sent, done, _⟩ := complete found ends
      exact ⟨empty, sent, done⟩
    · obtain ⟨turns, final, ran, after, ended⟩ := runs_over jars resolveFile files s inStep
      refine ⟨turns, final, ran, ?_⟩
      rcases in_step_running jars resolveFile files final after with ⟨_, same⟩ | ⟨alive, _, _, ending⟩
      · exact absurd distinct same
      · cases ended with
        | inl finished =>
            obtain ⟨found, ends⟩ := finished
            rw [ends, (ending found ends).1]
        | inr stopped => exact absurd stopped alive

-- For all keys, files and starting caches, in every state that the two can come to.
theorem handshake_succeeds_iff :
    (∀ s, (handshake jars resolveFile files).Reachable s → Succeeds jars resolveFile files s) ↔ Distinct jars files := by
  constructor
  · intro succeeds
    by_contra same
    obtain ⟨s, reached, stopped⟩ := refused_of_same_file jars resolveFile files same
    exact (succeeds s reached).accepted stopped
  · intro distinct s reached
    exact in_step_succeeds jars resolveFile files distinct s (reached_in_step jars resolveFile files s reached)

end Runs

def repeated : JarKey := { groupId := "toolbox8", artifactId := "jartree", version := "1.0.0" }

-- Two modules that differ in their classifiers give one key; the second request for it finds the file of the first.
theorem repeated_key_refused :
    ¬ ∀ s, (handshake [repeated, repeated] (fun _ => [7]) (fun _ => none)).Reachable s →
      Succeeds [repeated, repeated] (fun _ => [7]) (fun _ => none) s := by
  intro succeeds
  obtain ⟨s, reached, stopped⟩ := refused_of_same_file [repeated, repeated] (fun _ => [7]) (fun _ => none)
    (by simp [Distinct, missingKeys, missing, cacheBefore, World.exists])
  exact (succeeds s reached).accepted stopped

end Toolbox8.StreamAppClient
