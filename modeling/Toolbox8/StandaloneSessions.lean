import Toolbox8.Base.Parties
import Toolbox8.StandaloneUpload

set_option autoImplicit false

namespace Toolbox8.JarTreeStandalone

open Base AkkaStreamCoding AkkaStreamCoding.StateMachine

-- What the client of runPlug or of runExec goes on with after the upload.
inductive AndThen where
  | plug (classRequest : String)
  | exec (classRequest : String)
deriving DecidableEq, Repr

def AndThen.classRequest : AndThen → String
  | .plug classRequest => classRequest
  | .exec classRequest => classRequest

structure Run where
  files : Files
  andThen : AndThen

inductive SessionStep where
  | verifying (files : Files) (andThen : AndThen)
  | uploading (andThen : AndThen)
  | plugging
deriving DecidableEq, Repr

abbrev SessionTransition := Transition Message SessionStep Empty
abbrev SessionState := StateMachine.State Message SessionStep Empty

-- The running step of the server's sequence. What putAsync has not accepted goes to Sink.ignore.
structure Receiving where
  id : String
  accepted : Bool
  content : ByteString
deriving DecidableEq, Repr

-- ExecClient.flow at the near end and ExecServer.flow at the far end. EmptyFlow has no source and emits nothing.
structure DataChannel where
  source : Option String
  promise : Bool
  requested : Bool
  emitted : List ByteString
  wire : List ByteString
  executing : Option String
  tail : List ByteString
deriving DecidableEq, Repr

-- One connection: the management flows of the two ends and the data channel beside them.
structure Session where
  client : SessionTransition
  seen : List Origin
  toServer : List Message
  server : ServerTransition
  receiving : Option Receiving
  toClient : List Message
  data : DataChannel
  failed : Bool
deriving DecidableEq, Repr

-- The jar cache that all connections share. A session writes the files that putAsync has accepted from it.
structure Jars (Cache : Type) where
  cache : Cache
  writing : List (Nat × String)
  written : List (String × ByteString)

-- A class request as the server begins to resolve it.
structure Resolution (Cache : Type) where
  session : Nat
  classRequest : String
  jars : Jars Cache

structure Standalone (Cache : Type) where
  jars : Jars Cache
  resolved : List (Resolution Cache)

-- Each side takes the next Data, cut anew. Resolving a class request may succeed or not. The data flow of the client
-- emits what it likes.
inductive SessionEvent where
  | toServer (data : Data) (resolves : Bool)
  | received
  | toClient (data : Data)
  | sendRequest
  | emit (bs : ByteString)
  | arrives

section Sessions

variable {Cache : Type} (d : Deployment Cache) (execRequest : Pickler String)

def plugMessage (classRequest : String) : Message := ⟨.starter, pickle d.starter (.plug classRequest)⟩

def plug (classRequest : String) : SessionState := ⟨[plugMessage d classRequest], .named .plugging⟩

-- A promise that has been completed already throws.
def andThenState (data : DataChannel) : AndThen → Option (SessionState × DataChannel)
  | .plug classRequest => some (plug d classRequest, data)
  | .exec _ => if data.promise then none else some (.ended, { data with promise := true })

def sessionStep (name : SessionStep) (m : Message) (data : DataChannel) : Option (SessionState × DataChannel) :=
  match name with
  | .verifying files andThen =>
      (verifying d files m).map (fun state => (⟨state.out, .named (.uploading andThen)⟩, data))
  | .uploading andThen => (unpickle d.done m.data).bind (fun _ => andThenState d data andThen)
  | .plugging => (unpickle d.done m.data).map (fun _ => (.ended, data))

def sessionNext (t : SessionTransition) (m : Message) (data : DataChannel) : Option (SessionState × DataChannel) :=
  t.apply (sessionStep d) (fun step _ _ => nomatch step) m data

-- The class request that Start hands to performPlug.
def plugOf (t : ServerTransition) (data : Data) : Option String :=
  match t, unpickle d.starter data with
  | .named .start, some (.plug classRequest) => some classRequest
  | _, _ => none

def Standalone.resolve (s : Standalone Cache) (session : Nat) (classRequest : Option String) : Standalone Cache :=
  { s with resolved := s.resolved ++ classRequest.toList.map (fun request => ⟨session, request, s.jars⟩) }

def beginReceiving (index : Nat) (s : Standalone Cache) (c : Session) (id : String) (content : ByteString) :
    Standalone Cache × Session :=
  match d.jarCache.putAsync s.jars.cache id with
  | some cache =>
      ({ s with jars := { s.jars with cache := cache, writing := s.jars.writing ++ [(index, id)] } },
        { c with receiving := some ⟨id, true, content⟩ })
  | none => (s, { c with receiving := some ⟨id, false, content⟩ })

def serverTakes (index : Nat) (s : Standalone Cache) (c : Session) (m : Message) (rest : List Message) (resolves : Bool) :
    Standalone Cache × Session :=
  match c.server with
  | .sequenceIn id _ _ _ => beginReceiving d index s { c with toServer := rest } id m.data.elems.flatten
  | t =>
      match serverNext { d with performPlug := fun _ => resolves } t m ⟨s.jars.cache, [], [], []⟩ with
      | none => (s.resolve index (plugOf d t m.data), { c with failed := true })
      | some (state, _) =>
          (s.resolve index (plugOf d t m.data),
            { c with toServer := rest, server := state.next, toClient := c.toClient ++ state.out })

def Jars.finish (jars : Jars Cache) (index : Nat) (r : Receiving) : Jars Cache :=
  if r.accepted then
    { jars with writing := jars.writing.erase (index, r.id), written := jars.written ++ [(r.id, r.content)] }
  else jars

def received (index : Nat) (s : Standalone Cache) (c : Session) : Option (Standalone Cache × Session) :=
  match c.receiving, c.server with
  | some r, .sequenceIn _ tail out next =>
      let state : ServerState := sequenceInAndState [] tail ⟨out, next⟩
      some ({ s with jars := s.jars.finish index r },
        { c with receiving := none, server := state.next, toClient := c.toClient ++ state.out })
  | _, _ => none

def clientTakes (c : Session) (m : Message) (rest : List Message) : Session :=
  match sessionNext d c.client m c.data with
  | none => { c with failed := true }
  | some (state, data) =>
      { c with
        toClient := rest
        client := state.next
        seen := c.seen ++ [m.origin]
        toServer := c.toServer ++ state.out
        data := data }

-- The source of the class request waits for the promise, and prepend holds the data flow back until it has completed.
def DataChannel.sendRequest (data : DataChannel) : Option DataChannel :=
  match data.source with
  | none => none
  | some classRequest =>
      if data.promise ∧ ¬ data.requested then
        some { data with requested := true, wire := data.wire ++ [execRequest.intoBytes classRequest] }
      else none

def DataChannel.emit (data : DataChannel) (bs : ByteString) : Option DataChannel :=
  if data.requested then some { data with emitted := data.emitted ++ [bs], wire := data.wire ++ [bs] } else none

-- prefixAndTail(1) takes the head for the request and leaves the rest to the flow of the executable. The request is taken to
-- resolve.
def arrives (index : Nat) (s : Standalone Cache) (c : Session) : Option (Standalone Cache × Session) :=
  match c.data.wire, c.data.executing with
  | [], _ => none
  | bs :: rest, some _ => some (s, { c with data := { c.data with wire := rest, tail := c.data.tail ++ [bs] } })
  | bs :: rest, none =>
      match execRequest.fromBytes bs with
      | none => some (s, { c with failed := true })
      | some classRequest =>
          some (s.resolve index (some classRequest),
            { c with data := { c.data with wire := rest, executing := some classRequest } })

def act (index : Nat) (s : Standalone Cache) (c : Session) (event : SessionEvent) : Option (Standalone Cache × Session) :=
  if c.failed then none
  else
    match event with
    | .toServer data resolves =>
        match c.toServer, c.receiving with
        | m :: rest, none =>
            if concat data ≠ concat m.data then none
            else some (serverTakes d index s c ⟨m.origin, data⟩ rest resolves)
        | _, _ => none
    | .received => received index s c
    | .toClient data =>
        match c.toClient with
        | [] => none
        | m :: rest => if concat data ≠ concat m.data then none else some (s, clientTakes d c ⟨m.origin, data⟩ rest)
    | .sendRequest => (c.data.sendRequest execRequest).map (fun data => (s, { c with data := data }))
    | .emit bs => (c.data.emit bs).map (fun data => (s, { c with data := data }))
    | .arrives => arrives execRequest index s c

def DataChannel.opened : AndThen → DataChannel
  | .plug _ => ⟨none, false, false, [], [], none, []⟩
  | .exec classRequest => ⟨some classRequest, false, false, [], [], none, []⟩

def Session.opened (run : Run) : Session where
  client := .named (.verifying run.files run.andThen)
  seen := []
  toServer := [requestMessage d (run.files.map Prod.fst)]
  server := .named .start
  receiving := none
  toClient := []
  data := .opened run.andThen
  failed := false

def sessions (runs : List Run) (cache : Cache) : Machine (Joint (Standalone Cache) Session) (Nat × SessionEvent) :=
  joint (act d execRequest) ⟨⟨⟨cache, [], []⟩, []⟩, runs.map (Session.opened d)⟩

-- The ids that putAsync has accepted.
def Jars.accepted (jars : Jars Cache) : List String := jars.writing.map Prod.snd ++ jars.written.map Prod.fst

def Standalone.requestsOf (s : Standalone Cache) (session : Nat) : List String :=
  (s.resolved.filter (fun r => r.session = session)).map Resolution.classRequest

-- Where the data channel of runExec can be once the upload is done, and what the server has resolved for it by then.
inductive DataStage (classRequest : String) : List String → DataChannel → Prop where
  | promised : DataStage classRequest [] ⟨some classRequest, true, false, [], [], none, []⟩
  | requested (emitted : List ByteString) :
      DataStage classRequest [] ⟨some classRequest, true, true, emitted, execRequest.intoBytes classRequest :: emitted, none, []⟩
  | executing (tail wire : List ByteString) :
      DataStage classRequest [classRequest]
        ⟨some classRequest, true, true, tail ++ wire, wire, some classRequest, tail⟩

-- Where the two ends of a session can be together; known are the ids in the jar cache.
inductive Stage (run : Run) (known : String → Prop) : List String → Session → Prop where
  | requested : Stage run known [] (Session.opened d run)
  | answered (missing : Files) (part : ∀ file ∈ missing, file ∈ run.files)
      (others : ∀ file ∈ run.files, file ∈ missing ∨ known file.1) (idxs : List Int)
      (indices : idxs.mapM (fileAt run.files) = some missing) :
      Stage run known []
        ⟨.named (.verifying run.files run.andThen), [], [], serverAwaits d missing, none,
          responseMessage d idxs :: doneAfter d missing, .opened run.andThen, false⟩
  | uploading (rest : Files) (part : ∀ file ∈ rest, file ∈ run.files)
      (others : ∀ file ∈ run.files, file ∈ rest ∨ known file.1) :
      Stage run known []
        ⟨.named (.uploading run.andThen), [.verifyResponse], rest.map fileMessage, serverAwaits d rest, none,
          doneAfter d rest, .opened run.andThen, false⟩
  | receiving (file : String × ByteString) (accepted : Bool) (rest : Files) (part : ∀ f ∈ file :: rest, f ∈ run.files)
      (others : ∀ f ∈ run.files, f ∈ rest ∨ known f.1) :
      Stage run known []
        ⟨.named (.uploading run.andThen), [.verifyResponse], rest.map fileMessage, serverAwaits d (file :: rest),
          some ⟨file.1, accepted, file.2⟩, [], .opened run.andThen, false⟩
  | plugging (classRequest : String) (isPlug : run.andThen = .plug classRequest) (all : ∀ file ∈ run.files, known file.1) :
      Stage run known []
        ⟨.named .plugging, [.verifyResponse, .done], [plugMessage d classRequest], .named .start, none, [],
          .opened run.andThen, false⟩
  | notPlugged (classRequest : String) (isPlug : run.andThen = .plug classRequest) (all : ∀ file ∈ run.files, known file.1) :
      Stage run known [classRequest]
        ⟨.named .plugging, [.verifyResponse, .done], [plugMessage d classRequest], .named .start, none, [],
          .opened run.andThen, true⟩
  | plugged (classRequest : String) (isPlug : run.andThen = .plug classRequest) (all : ∀ file ∈ run.files, known file.1) :
      Stage run known [classRequest]
        ⟨.named .plugging, [.verifyResponse, .done], [], .endNext, none, [doneMessage d], .opened run.andThen, false⟩
  | ended (classRequest : String) (isPlug : run.andThen = .plug classRequest) (all : ∀ file ∈ run.files, known file.1) :
      Stage run known [classRequest]
        ⟨.endNext, [.verifyResponse, .done, .done], [], .endNext, none, [], .opened run.andThen, false⟩
  | exec (classRequest : String) (isExec : run.andThen = .exec classRequest) (all : ∀ file ∈ run.files, known file.1)
      (requests : List String) (data : DataChannel) (channel : DataStage execRequest classRequest requests data) :
      Stage run known requests ⟨.endNext, [.verifyResponse, .done], [], .named .start, none, [], data, false⟩

-- When a class request is resolved, every jar of its run was there before, is written, or is being written by another session.
structure Ready (cache : Cache) (run : Run) (r : Resolution Cache) : Prop where
  request : r.classRequest = run.andThen.classRequest
  jars : ∀ file ∈ run.files, file.1 ∈ d.jarCache.ids cache ∨ file.1 ∈ r.jars.written.map Prod.fst ∨
    ∃ other, other ≠ r.session ∧ (other, file.1) ∈ r.jars.writing

structure Common (runs : List Run) (cache : Cache) (s : Standalone Cache) : Prop where
  cached : ∀ id, id ∈ d.jarCache.ids s.jars.cache ↔ id ∈ d.jarCache.ids cache ∨ id ∈ s.jars.accepted
  once : s.jars.accepted.Nodup
  fresh : ∀ id ∈ s.jars.accepted, id ∉ d.jarCache.ids cache
  writers : ∀ writer ∈ s.jars.writing, writer.1 < runs.length
  contents : ∀ entry ∈ s.jars.written, ∃ run ∈ runs, entry ∈ run.files
  resolved : ∀ r ∈ s.resolved, ∃ run, runs[r.session]? = some run ∧ Ready d cache run r

structure Own (runs : List Run) (index : Nat) (s : Standalone Cache) (c : Session) : Prop where
  writes : ∀ id, (index, id) ∈ s.jars.writing ↔ ∃ content, c.receiving = some ⟨id, true, content⟩
  stage : ∃ run, runs[index]? = some run ∧
    Stage d execRequest run (fun id => id ∈ d.jarCache.ids s.jars.cache) (s.requestsOf index) c

-- What a session relies on: the others only add to the jar cache, and neither write nor resolve in its place.
structure Rely (index : Nat) (before after : Standalone Cache) : Prop where
  grows : ∀ id, id ∈ d.jarCache.ids before.jars.cache → id ∈ d.jarCache.ids after.jars.cache
  writes : ∀ id, (index, id) ∈ after.jars.writing ↔ (index, id) ∈ before.jars.writing
  requests : after.requestsOf index = before.requestsOf index

theorem stage_grows (run : Run) (known more : String → Prop) (grows : ∀ id, known id → more id) (requests : List String)
    (c : Session) (stage : Stage d execRequest run known requests c) : Stage d execRequest run more requests c := by
  have grown : ∀ files : Files, (∀ file ∈ run.files, file ∈ files ∨ known file.1) →
      ∀ file ∈ run.files, file ∈ files ∨ more file.1 :=
    fun files others file member => (others file member).imp_right (grows file.1)
  cases stage with
  | requested => exact .requested
  | answered missing part others idxs indices => exact .answered missing part (grown missing others) idxs indices
  | uploading rest part others => exact .uploading rest part (grown rest others)
  | receiving file accepted rest part others => exact .receiving file accepted rest part (grown rest others)
  | plugging classRequest isPlug all => exact .plugging classRequest isPlug (fun file member => grows _ (all file member))
  | notPlugged classRequest isPlug all => exact .notPlugged classRequest isPlug (fun file member => grows _ (all file member))
  | plugged classRequest isPlug all => exact .plugged classRequest isPlug (fun file member => grows _ (all file member))
  | ended classRequest isPlug all => exact .ended classRequest isPlug (fun file member => grows _ (all file member))
  | exec classRequest isExec all requests data channel =>
      exact .exec classRequest isExec (fun file member => grows _ (all file member)) requests data channel

theorem own_stable (runs : List Run) (index : Nat) (before after : Standalone Cache) (c : Session)
    (own : Own d execRequest runs index before c) (rely : Rely d index before after) :
    Own d execRequest runs index after c := by
  obtain ⟨run, here, stage⟩ := own.stage
  refine ⟨fun id => (rely.writes id).trans (own.writes id), run, here, ?_⟩
  rw [rely.requests]
  exact stage_grows d execRequest run _ _ rely.grows _ c stage

-- What a step of one session does to the state that is shared.
structure Shares (runs : List Run) (cache : Cache) (index : Nat) (before after : Standalone Cache) : Prop where
  common : Common d runs cache after
  given : ∀ other, other ≠ index → Rely d other before after

theorem shares_nothing (runs : List Run) (cache : Cache) (index : Nat) (s : Standalone Cache)
    (common : Common d runs cache s) : Shares d runs cache index s s :=
  ⟨common, fun _ _ => ⟨fun _ here => here, fun _ => Iff.rfl, rfl⟩⟩

theorem put_not_cached (cache next : Cache) (id : String) (put : d.jarCache.putAsync cache id = some next) :
    id ∉ d.jarCache.ids cache := by
  intro here
  rw [(d.jarCache.put_none cache id).mpr here] at put
  simp at put

theorem shares_accept (runs : List Run) (cache next : Cache) (index : Nat) (id : String) (s : Standalone Cache)
    (short : index < runs.length) (common : Common d runs cache s)
    (put : d.jarCache.putAsync s.jars.cache id = some next) :
    Shares d runs cache index s
      { s with jars := { s.jars with cache := next, writing := s.jars.writing ++ [(index, id)] } } := by
  have absent := put_not_cached d s.jars.cache next id put
  have grown := d.jarCache.put_some s.jars.cache id next put
  rw [common.cached, not_or] at absent
  have accepted : ∀ other, other ∈ Jars.accepted
      { s.jars with cache := next, writing := s.jars.writing ++ [(index, id)] } ↔ other ∈ s.jars.accepted ∨ other = id := by
    intro other
    simp only [Jars.accepted, List.map_append, List.map_cons, List.map_nil, List.mem_append, List.mem_singleton]
    tauto
  constructor
  · refine ⟨?_, ?_, ?_, ?_, common.contents, common.resolved⟩
    · intro other
      rw [grown, Set.mem_insert_iff, common.cached, accepted]
      tauto
    · have moved : (Jars.accepted { s.jars with cache := next, writing := s.jars.writing ++ [(index, id)] }).Perm
          (id :: s.jars.accepted) := by
        simp only [Jars.accepted, List.map_append, List.map_cons, List.map_nil, List.append_assoc, List.singleton_append]
        exact List.perm_middle
      exact moved.nodup_iff.mpr (List.nodup_cons.mpr ⟨absent.2, common.once⟩)
    · intro other member
      rcases (accepted other).mp member with before | rfl
      · exact common.fresh other before
      · exact absent.1
    · intro writer member
      rcases List.mem_append.mp member with before | new
      · exact common.writers writer before
      · rw [List.mem_singleton] at new
        rw [new]
        exact short
  · intro other different
    refine ⟨?_, ?_, rfl⟩
    · intro known here
      rw [grown]
      exact Set.mem_insert_of_mem id here
    · intro known
      simp [different]

theorem accepted_finish (jars : Jars Cache) (index : Nat) (id : String) (content : ByteString)
    (writes : (index, id) ∈ jars.writing) :
    (jars.finish index ⟨id, true, content⟩).accepted.Perm jars.accepted := by
  have removed := (List.perm_cons_erase writes).map Prod.snd
  have moved : (jars.finish index ⟨id, true, content⟩).accepted =
      (jars.writing.erase (index, id)).map Prod.snd ++ (jars.written.map Prod.fst ++ [id]) := by
    simp [Jars.finish, Jars.accepted]
  rw [moved, Jars.accepted, ← List.append_assoc]
  exact List.perm_append_comm.trans (removed.symm.append_right (jars.written.map Prod.fst))

theorem shares_finish (runs : List Run) (cache : Cache) (index : Nat) (id : String) (content : ByteString)
    (s : Standalone Cache) (common : Common d runs cache s) (writes : (index, id) ∈ s.jars.writing)
    (sent : ∃ run ∈ runs, (id, content) ∈ run.files) :
    Shares d runs cache index s { s with jars := s.jars.finish index ⟨id, true, content⟩ } := by
  have same := accepted_finish s.jars index id content writes
  constructor
  · refine ⟨?_, ?_, ?_, ?_, ?_, common.resolved⟩
    · intro other
      rw [same.mem_iff]
      exact common.cached other
    · exact same.nodup_iff.mpr common.once
    · intro other member
      exact common.fresh other (same.mem_iff.mp member)
    · intro writer member
      exact common.writers writer (List.mem_of_mem_erase (by simpa [Jars.finish] using member))
    · intro entry member
      rcases List.mem_append.mp (show entry ∈ s.jars.written ++ [(id, content)] from member) with before | new
      · exact common.contents entry before
      · rw [List.mem_singleton] at new
        rw [new]
        exact sent
  · intro other different
    refine ⟨fun _ here => here, ?_, rfl⟩
    intro known
    simp only [Jars.finish, if_true]
    exact List.mem_erase_of_ne (fun same => different (congrArg Prod.fst same))

@[simp] theorem resolve_jars (s : Standalone Cache) (index : Nat) (classRequest : Option String) :
    (s.resolve index classRequest).jars = s.jars := rfl

theorem requests_resolve (s : Standalone Cache) (index other : Nat) (classRequest : String) :
    (s.resolve index (some classRequest)).requestsOf other =
      s.requestsOf other ++ (if index = other then [classRequest] else []) := by
  by_cases same : index = other
  · simp [Standalone.resolve, Standalone.requestsOf, same]
  · simp [Standalone.resolve, Standalone.requestsOf, same]

theorem shares_resolve (runs : List Run) (cache : Cache) (index : Nat) (run : Run) (s : Standalone Cache)
    (here : runs[index]? = some run) (common : Common d runs cache s)
    (ready : Ready d cache run ⟨index, run.andThen.classRequest, s.jars⟩) :
    Shares d runs cache index s (s.resolve index (some run.andThen.classRequest)) := by
  constructor
  · refine ⟨common.cached, common.once, common.fresh, common.writers, common.contents, ?_⟩
    intro r member
    rcases List.mem_append.mp member with before | new
    · exact common.resolved r before
    · simp only [Option.toList_some, List.map_cons, List.map_nil, List.mem_singleton] at new
      subst new
      exact ⟨run, here, ready⟩
  · intro other different
    refine ⟨fun _ known => known, fun _ => Iff.rfl, ?_⟩
    rw [requests_resolve, if_neg (Ne.symm different), List.append_nil]

theorem ready_of_known (runs : List Run) (cache : Cache) (index : Nat) (run : Run) (s : Standalone Cache) (c : Session)
    (common : Common d runs cache s) (own : Own d execRequest runs index s c) (idle : c.receiving = none)
    (all : ∀ file ∈ run.files, file.1 ∈ d.jarCache.ids s.jars.cache) :
    Ready d cache run ⟨index, run.andThen.classRequest, s.jars⟩ := by
  refine ⟨rfl, ?_⟩
  intro file member
  rcases (common.cached file.1).mp (all file member) with before | accepted
  · exact .inl before
  · rcases List.mem_append.mp accepted with writing | written
    · obtain ⟨⟨other, id⟩, inWriting, rfl⟩ := List.mem_map.mp writing
      refine .inr (.inr ⟨other, ?_, inWriting⟩)
      rintro rfl
      obtain ⟨content, busy⟩ := (own.writes file.1).mp inWriting
      simp [idle] at busy
    · exact .inr (.inl written)

-- Only the data flow of the client goes on for ever.
def isInternal : SessionEvent → Prop
  | .emit _ => False
  | _ => True

def awaited : ServerTransition → Nat
  | .sequenceIn _ tail _ _ => tail.length + 1
  | _ => 0

-- The steps that are left. A file takes two, its arrival and the end of its step.
def Session.work (c : Session) : Nat :=
  if c.failed then 0
  else
    match c.client with
    | .named (.verifying files _) => if c.toServer = [] then 2 * awaited c.server + 4 else 2 * files.length + 5
    | .named (.uploading _) => 2 * awaited c.server + if c.receiving.isSome then 2 else 3
    | .named .plugging => 2 * c.toServer.length + c.toClient.length
    | .endNext => (if c.data.promise ∧ ¬ c.data.requested then 2 else 0) + c.data.wire.length
    | .sequenceIn step _ _ _ => nomatch step

@[simp] theorem opened_request (andThen : AndThen) : (DataChannel.opened andThen).sendRequest execRequest = none := by
  cases andThen <;> rfl

@[simp] theorem opened_emit (andThen : AndThen) (bs : ByteString) : (DataChannel.opened andThen).emit bs = none := by
  cases andThen <;> rfl

@[simp] theorem opened_wire (andThen : AndThen) : (DataChannel.opened andThen).wire = [] := by
  cases andThen <;> rfl

@[simp] theorem opened_promise (andThen : AndThen) : (DataChannel.opened andThen).promise = false := by
  cases andThen <;> rfl

@[simp] theorem awaited_server (rest : Files) : awaited (serverAwaits d rest) = rest.length := by
  cases rest with
  | nil => rfl
  | cons file rest => simp [serverAwaits, sequenceInAndState, awaited]

structure Moves (runs : List Run) (cache : Cache) (index : Nat) (before : Standalone Cache) (c : Session)
    (event : SessionEvent) (after : Standalone Cache × Session) : Prop where
  shares : Shares d runs cache index before after.1
  own : Own d execRequest runs index after.1 after.2
  saves : isInternal event → after.2.work < c.work

variable (runs : List Run) (cache : Cache) (index : Nat) (run : Run) (s : Standalone Cache)

theorem moves_alone (c next : Session) (event : SessionEvent) (here : runs[index]? = some run) (common : Common d runs cache s)
    (own : Own d execRequest runs index s c) (idle : c.receiving = none) (still : next.receiving = none)
    (stage : Stage d execRequest run (fun id => id ∈ d.jarCache.ids s.jars.cache) (s.requestsOf index) next)
    (saves : isInternal event → next.work < c.work) : Moves d execRequest runs cache index s c event (s, next) := by
  refine ⟨shares_nothing d runs cache index s common, ⟨?_, run, here, stage⟩, saves⟩
  intro id
  rw [own.writes, idle, still]

theorem start_moves (data : Data) (resolves : Bool) (here : runs[index]? = some run) (common : Common d runs cache s)
    (own : Own d execRequest runs index s (Session.opened d run)) (unresolved : s.requestsOf index = [])
    (same : concat data = concat (requestMessage d (run.files.map Prod.fst)).data) :
    Moves d execRequest runs cache index s (Session.opened d run) (.toServer data resolves)
      (serverTakes d index s (Session.opened d run) ⟨.starter, data⟩ [] resolves) := by
  obtain ⟨log, idxs, answer, _, indices⟩ := start_answers { d with performPlug := fun _ => resolves } run.files s.jars.cache
    data same
  have request := unpickle_pickled d.starter (.verifyRequest (run.files.map Prod.fst)) data same
  have quiet : s.resolve index (plugOf d (.named .start) data) = s := by
    simp [plugOf, request, Standalone.resolve]
  have taken : serverTakes d index s (Session.opened d run) ⟨.starter, data⟩ [] resolves =
      (s, ⟨.named (.verifying run.files run.andThen), [], [], serverAwaits d (missingFiles d run.files s.jars.cache), none,
        responseMessage d idxs :: doneAfter d (missingFiles d run.files s.jars.cache), .opened run.andThen, false⟩) := by
    simp only [serverTakes, Session.opened, answer, quiet]
    rfl
  rw [taken]
  refine moves_alone d execRequest runs cache index run s _ _ _ here common own rfl rfl ?_ ?_
  · rw [unresolved]
    refine .answered (missingFiles d run.files s.jars.cache) ?_ ?_ idxs indices
    · exact fun file member => ((missing_not_cached d run.files s.jars.cache file).mp member).1
    · intro file member
      by_cases known : file.1 ∈ d.jarCache.ids s.jars.cache
      · exact .inr known
      · exact .inl ((missing_not_cached d run.files s.jars.cache file).mpr ⟨member, known⟩)
  · intro _
    have fewer := List.length_filter_le (fun file => !d.jarCache.contains s.jars.cache file.1) run.files
    simp [Session.work, Session.opened, missingFiles]
    omega

-- A session in the middle of its upload, with what the server's sequence is at and what it has answered.
def Session.inUpload (andThen : AndThen) (rest : Files) (server : ServerTransition) (receiving : Option Receiving)
    (toClient : List Message) : Session :=
  ⟨.named (.uploading andThen), [.verifyResponse], rest.map fileMessage, server, receiving, toClient, .opened andThen, false⟩

theorem known_after_put (files rest : Files) (file : String × ByteString) (known more : String → Prop)
    (others : ∀ f ∈ files, f ∈ file :: rest ∨ known f.1) (grows : ∀ id, known id → more id) (put : more file.1) :
    ∀ f ∈ files, f ∈ rest ∨ more f.1 := by
  intro f member
  rcases others f member with waiting | known
  · rcases List.mem_cons.mp waiting with rfl | later
    · exact .inr put
    · exact .inl later
  · exact .inr (grows f.1 known)

theorem file_moves (file : String × ByteString) (rest : Files) (event : SessionEvent) (here : runs[index]? = some run)
    (short : index < runs.length)
    (common : Common d runs cache s)
    (own : Own d execRequest runs index s (.inUpload run.andThen (file :: rest) (serverAwaits d (file :: rest)) none []))
    (unresolved : s.requestsOf index = []) (part : ∀ f ∈ file :: rest, f ∈ run.files)
    (others : ∀ f ∈ run.files, f ∈ file :: rest ∨ f.1 ∈ d.jarCache.ids s.jars.cache) :
    Moves d execRequest runs cache index s
      (.inUpload run.andThen (file :: rest) (serverAwaits d (file :: rest)) none []) event
      (beginReceiving d index s (.inUpload run.andThen rest (serverAwaits d (file :: rest)) none []) file.1 file.2) := by
  have idle : ∀ id, (index, id) ∉ s.jars.writing := by
    intro id member
    obtain ⟨content, busy⟩ := (own.writes id).mp member
    simp [Session.inUpload] at busy
  cases put : d.jarCache.putAsync s.jars.cache file.1 with
  | none =>
      have cached := (d.jarCache.put_none s.jars.cache file.1).mp put
      rw [beginReceiving, put]
      refine ⟨shares_nothing d runs cache index s common, ⟨?_, run, here, ?_⟩, ?_⟩
      · intro id
        simp [idle id]
      · change Stage d execRequest run _ (s.requestsOf index) _
        rw [unresolved]
        exact .receiving file false rest part
          (known_after_put run.files rest file _ _ others (fun _ known => known) cached)
      · simp [Session.work, Session.inUpload]
  | some next =>
      have grown := d.jarCache.put_some s.jars.cache file.1 next put
      rw [beginReceiving, put]
      refine ⟨shares_accept d runs cache next index file.1 s short common put, ⟨?_, run, here, ?_⟩, ?_⟩
      · intro id
        simp [idle id, eq_comm]
      · change Stage d execRequest run _ (s.requestsOf index) _
        rw [unresolved]
        refine .receiving file true rest part (known_after_put run.files rest file _ _ others ?_ ?_)
        · intro id known
          change id ∈ d.jarCache.ids next
          rw [grown]
          exact Set.mem_insert_of_mem file.1 known
        · change file.1 ∈ d.jarCache.ids next
          rw [grown]
          exact Set.mem_insert file.1 _
      · simp [Session.work, Session.inUpload]

theorem received_moves (file : String × ByteString) (accepted : Bool) (rest : Files) (here : runs[index]? = some run)
    (common : Common d runs cache s)
    (own : Own d execRequest runs index s
      (.inUpload run.andThen rest (serverAwaits d (file :: rest)) (some ⟨file.1, accepted, file.2⟩) []))
    (unresolved : s.requestsOf index = []) (part : ∀ f ∈ file :: rest, f ∈ run.files)
    (others : ∀ f ∈ run.files, f ∈ rest ∨ f.1 ∈ d.jarCache.ids s.jars.cache) :
    Moves d execRequest runs cache index s
      (.inUpload run.andThen rest (serverAwaits d (file :: rest)) (some ⟨file.1, accepted, file.2⟩) []) .received
      ({ s with jars := s.jars.finish index ⟨file.1, accepted, file.2⟩ },
        .inUpload run.andThen rest (serverAwaits d rest) none (doneAfter d rest)) := by
  have stage : Stage d execRequest run (fun id => id ∈ d.jarCache.ids s.jars.cache) []
      (.inUpload run.andThen rest (serverAwaits d rest) none (doneAfter d rest)) :=
    .uploading rest (fun f member => part f (by simp [member])) others
  have saves : Session.work (.inUpload run.andThen rest (serverAwaits d rest) none (doneAfter d rest)) <
      Session.work (.inUpload run.andThen rest (serverAwaits d (file :: rest)) (some ⟨file.1, accepted, file.2⟩) []) := by
    simp [Session.work, Session.inUpload]
    omega
  rw [← unresolved] at stage
  cases accepted with
  | false =>
      refine ⟨shares_nothing d runs cache index s common, ⟨?_, run, here, stage⟩, fun _ => saves⟩
      intro id
      change (index, id) ∈ s.jars.writing ↔ _
      rw [own.writes]
      simp [Session.inUpload]
  | true =>
      have writing : (index, file.1) ∈ s.jars.writing := (own.writes file.1).mpr ⟨file.2, rfl⟩
      have distinct : s.jars.writing.Nodup := (List.nodup_append.mp common.once).1.of_map
      refine ⟨shares_finish d runs cache index file.1 file.2 s common writing
        ⟨run, List.mem_of_getElem? here, part file (by simp)⟩, ⟨?_, run, here, stage⟩, fun _ => saves⟩
      intro id
      have gone : (index, id) ∉ s.jars.writing.erase (index, file.1) := by
        intro member
        obtain ⟨content, busy⟩ := (own.writes id).mp (List.mem_of_mem_erase member)
        simp only [Session.inUpload, Option.some.injEq, Receiving.mk.injEq, true_and] at busy
        rw [← busy.1] at member
        exact distinct.not_mem_erase member
      simpa [Jars.finish, Session.inUpload] using gone

theorem plug_moves (classRequest : String) (data : Data) (resolves : Bool) (here : runs[index]? = some run)
    (isPlug : run.andThen = .plug classRequest) (common : Common d runs cache s)
    (own : Own d execRequest runs index s
      ⟨.named .plugging, [.verifyResponse, .done], [plugMessage d classRequest], .named .start, none, [],
        .opened run.andThen, false⟩)
    (unresolved : s.requestsOf index = []) (all : ∀ file ∈ run.files, file.1 ∈ d.jarCache.ids s.jars.cache)
    (same : concat data = concat (plugMessage d classRequest).data) :
    Moves d execRequest runs cache index s
      ⟨.named .plugging, [.verifyResponse, .done], [plugMessage d classRequest], .named .start, none, [],
        .opened run.andThen, false⟩ (.toServer data resolves)
      (serverTakes d index s
        ⟨.named .plugging, [.verifyResponse, .done], [plugMessage d classRequest], .named .start, none, [],
          .opened run.andThen, false⟩ ⟨.starter, data⟩ [] resolves) := by
  have request := unpickle_pickled d.starter (.plug classRequest) data same
  have resolving : plugOf d (.named .start) data = some run.andThen.classRequest := by
    simp [plugOf, request, isPlug, AndThen.classRequest]
  have ready := ready_of_known d execRequest runs cache index run s _ common own rfl all
  have shares := shares_resolve d runs cache index run s here common ready
  have requests : (s.resolve index (some run.andThen.classRequest)).requestsOf index = [classRequest] := by
    rw [requests_resolve, unresolved, if_pos rfl, isPlug]
    rfl
  have idle : ∀ id, (index, id) ∉ s.jars.writing := by
    intro id member
    obtain ⟨content, busy⟩ := (own.writes id).mp member
    simp at busy
  cases resolves with
  | false =>
      have failing : serverNext { d with performPlug := fun _ => false } (.named .start) ⟨.starter, data⟩
          ⟨s.jars.cache, [], [], []⟩ = none := by
        simp [serverNext, Transition.apply, start, request, performPlug]
      simp only [serverTakes, failing, resolving]
      refine ⟨shares, ⟨fun id => by simpa using idle id, run, here, ?_⟩, by simp [Session.work]⟩
      rw [requests]
      exact .notPlugged classRequest isPlug all
  | true =>
      have plugging : serverNext { d with performPlug := fun _ => true } (.named .start) ⟨.starter, data⟩
          ⟨s.jars.cache, [], [], []⟩ =
            some (⟨[doneMessage d], .endNext⟩, ⟨s.jars.cache, [], [], [(.starter, .starter)]⟩) := by
        simp only [serverNext, Transition.apply, start, request, performPlug]
        rfl
      simp only [serverTakes, plugging, resolving]
      refine ⟨shares, ⟨fun id => by simpa using idle id, run, here, ?_⟩, by simp [Session.work]⟩
      rw [requests]
      exact .plugged classRequest isPlug all

theorem upload_done (data : Data) (andThen : AndThen) (channel : DataChannel)
    (same : concat data = concat (doneMessage d).data) :
    sessionNext d (.named (.uploading andThen)) ⟨.done, data⟩ channel = andThenState d channel andThen := by
  have done := unpickle_pickled d.done () data same
  simp [sessionNext, Transition.apply, sessionStep, done]

theorem plug_done (data : Data) (channel : DataChannel) (same : concat data = concat (doneMessage d).data) :
    sessionNext d (.named .plugging) ⟨.done, data⟩ channel = some (.ended, channel) := by
  have done := unpickle_pickled d.done () data same
  simp [sessionNext, Transition.apply, sessionStep, done]

theorem files_requested (files missing : Files) (andThen : AndThen) (idxs : List Int) (data : Data) (channel : DataChannel)
    (indices : idxs.mapM (fileAt files) = some missing) (same : concat data = concat (responseMessage d idxs).data) :
    sessionNext d (.named (.verifying files andThen)) ⟨.verifyResponse, data⟩ channel =
      some (⟨missing.map fileMessage, .named (.uploading andThen)⟩, channel) := by
  have response := unpickle_pickled d.verifyResponse idxs data same
  simp [sessionNext, Transition.apply, sessionStep, verifying, response, indices]

theorem done_moves (data : Data) (here : runs[index]? = some run) (common : Common d runs cache s)
    (own : Own d execRequest runs index s (.inUpload run.andThen [] (serverAwaits d []) none [doneMessage d]))
    (unresolved : s.requestsOf index = []) (all : ∀ file ∈ run.files, file.1 ∈ d.jarCache.ids s.jars.cache)
    (same : concat data = concat (doneMessage d).data) :
    Moves d execRequest runs cache index s (.inUpload run.andThen [] (serverAwaits d []) none [doneMessage d])
      (.toClient data) (s, clientTakes d (.inUpload run.andThen [] (serverAwaits d []) none [doneMessage d]) ⟨.done, data⟩ []) := by
  have taken := upload_done d data run.andThen (.opened run.andThen) same
  cases goal : run.andThen with
  | plug classRequest =>
      rw [goal] at own taken
      simp only [clientTakes, Session.inUpload, taken, andThenState, plug]
      refine moves_alone d execRequest runs cache index run s _ _ _ here common own rfl rfl ?_ (by simp [Session.work])
      rw [unresolved, ← goal]
      exact .plugging classRequest goal all
  | exec classRequest =>
      rw [goal] at own taken
      have signaled : andThenState d (.opened (.exec classRequest)) (.exec classRequest) =
          some (.ended, ⟨some classRequest, true, false, [], [], none, []⟩) := rfl
      rw [signaled] at taken
      simp only [clientTakes, Session.inUpload, taken]
      refine moves_alone d execRequest runs cache index run s _ _ _ here common own rfl rfl ?_
        (by simp [Session.work, StateMachine.State.ended])
      rw [unresolved]
      exact .exec classRequest goal all [] _ .promised

-- A session whose upload is done and that has nothing left to do on its management flow.
def Session.inExec (data : DataChannel) : Session :=
  ⟨.endNext, [.verifyResponse, .done], [], .named .start, none, [], data, false⟩

theorem exec_moves (classRequest : String) (requests : List String) (data : DataChannel) (event : SessionEvent)
    (after : Standalone Cache × Session) (here : runs[index]? = some run) (common : Common d runs cache s)
    (own : Own d execRequest runs index s (.inExec data)) (isExec : run.andThen = .exec classRequest)
    (all : ∀ file ∈ run.files, file.1 ∈ d.jarCache.ids s.jars.cache) (soFar : s.requestsOf index = requests)
    (channel : DataStage execRequest classRequest requests data)
    (acted : act d execRequest index s (.inExec data) event = some after) :
    Moves d execRequest runs cache index s (.inExec data) event after := by
  have alone : ∀ next : DataChannel, DataStage execRequest classRequest requests next →
      (isInternal event → (Session.inExec next).work < (Session.inExec data).work) →
      Moves d execRequest runs cache index s (.inExec data) event (s, .inExec next) := by
    intro next stage saves
    refine moves_alone d execRequest runs cache index run s _ _ event here common own rfl rfl ?_ saves
    rw [soFar]
    exact .exec classRequest isExec all requests next stage
  cases event with
  | toServer data resolves => simp [act, Session.inExec] at acted
  | received => simp [act, received, Session.inExec] at acted
  | toClient data => simp [act, Session.inExec] at acted
  | sendRequest =>
      cases channel with
      | promised =>
          simp [act, Session.inExec, DataChannel.sendRequest] at acted
          exact acted ▸ alone _ (.requested []) (by simp [Session.work, Session.inExec])
      | requested emitted => simp [act, Session.inExec, DataChannel.sendRequest] at acted
      | executing tail wire => simp [act, Session.inExec, DataChannel.sendRequest] at acted
  | emit bs =>
      cases channel with
      | promised => simp [act, Session.inExec, DataChannel.emit] at acted
      | requested emitted =>
          simp [act, Session.inExec, DataChannel.emit] at acted
          exact acted ▸ alone _ (.requested (emitted ++ [bs])) False.elim
      | executing tail wire =>
          simp [act, Session.inExec, DataChannel.emit] at acted
          have later := alone _ (.executing tail (wire ++ [bs])) False.elim
          rw [← acted]
          simpa only [List.append_assoc, Session.inExec] using later
  | arrives =>
      cases channel with
      | promised => simp [act, Session.inExec, arrives] at acted
      | requested emitted =>
          simp [act, Session.inExec, arrives, execRequest.round_trip] at acted
          have name : run.andThen.classRequest = classRequest := by rw [isExec]; rfl
          have ready := ready_of_known d execRequest runs cache index run s _ common own rfl all
          have shares := shares_resolve d runs cache index run s here common ready
          rw [name] at shares
          rw [← acted]
          refine ⟨shares, ⟨?_, run, here, ?_⟩, by simp [Session.work, Session.inExec]⟩
          · intro id
            rw [resolve_jars, own.writes]
            simp [Session.inExec]
          · rw [requests_resolve, soFar, if_pos rfl]
            exact .exec classRequest isExec all _ _ (.executing [] emitted)
      | executing tail wire =>
          cases wire with
          | nil => simp [act, Session.inExec, arrives] at acted
          | cons bs rest =>
              simp [act, Session.inExec, arrives] at acted
              have later := alone _ (.executing (tail ++ [bs]) rest) (by simp [Session.work, Session.inExec])
              rw [← acted]
              simpa only [List.append_assoc, List.singleton_append, Session.inExec] using later

theorem awaits_next (file : String × ByteString) (rest : Files) :
    serverAwaits d (file :: rest) = .sequenceIn file.1 (rest.map Prod.fst) [doneMessage d] (.named .start) := rfl

theorem to_server_moves (data : Data) (resolves : Bool) (c : Session) (after : Standalone Cache × Session)
    (short : index < runs.length) (common : Common d runs cache s) (own : Own d execRequest runs index s c)
    (acted : act d execRequest index s c (.toServer data resolves) = some after) :
    Moves d execRequest runs cache index s c (.toServer data resolves) after := by
  obtain ⟨run, here, stage⟩ := own.stage
  generalize soFar : s.requestsOf index = requests at stage
  cases stage with
  | requested =>
      simp only [act, Session.opened] at acted
      by_cases same : concat data = concat (requestMessage d (run.files.map Prod.fst)).data
      · simp [same] at acted
        exact acted ▸ start_moves d execRequest runs cache index run s data resolves here common own soFar same
      · simp [same] at acted
  | answered missing part others idxs indices => simp [act] at acted
  | uploading rest part others =>
      cases rest with
      | nil => simp [act] at acted
      | cons file rest =>
          simp only [act, List.map_cons] at acted
          by_cases same : concat data = concat (fileMessage file).data
          · simp [same, serverTakes, awaits_next] at acted
            have content := flatten_of_concat data file.2 (same.trans (concat_from_path file.2))
            rw [content] at acted
            exact acted ▸ file_moves d execRequest runs cache index run s file rest _ here short common own soFar part others
          · simp [same] at acted
  | receiving file accepted rest part others => simp [act] at acted
  | plugging classRequest isPlug all =>
      simp only [act] at acted
      by_cases same : concat data = concat (plugMessage d classRequest).data
      · simp [same] at acted
        exact acted ▸ plug_moves d execRequest runs cache index run s classRequest data resolves here isPlug common own soFar
          all same
      · simp [same] at acted
  | notPlugged classRequest isPlug all => simp [act] at acted
  | plugged classRequest isPlug all => simp [act] at acted
  | ended classRequest isPlug all => simp [act] at acted
  | exec classRequest isExec all _ channel stage =>
      exact exec_moves d execRequest runs cache index run s classRequest requests channel _ after here common own isExec all
        soFar stage acted

theorem to_client_moves (data : Data) (c : Session) (after : Standalone Cache × Session) (common : Common d runs cache s)
    (own : Own d execRequest runs index s c) (acted : act d execRequest index s c (.toClient data) = some after) :
    Moves d execRequest runs cache index s c (.toClient data) after := by
  obtain ⟨run, here, stage⟩ := own.stage
  generalize soFar : s.requestsOf index = requests at stage
  cases stage with
  | requested => simp [act, Session.opened] at acted
  | answered missing part others idxs indices =>
      simp only [act] at acted
      by_cases same : concat data = concat (responseMessage d idxs).data
      · simp [same, clientTakes, responseMessage,
          files_requested d run.files missing run.andThen idxs data _ indices same] at acted
        rw [← acted]
        refine moves_alone d execRequest runs cache index run s _ _ _ here common own rfl rfl ?_ (by simp [Session.work])
        rw [soFar]
        exact .uploading missing part others
      · simp [same] at acted
  | uploading rest part others =>
      cases rest with
      | cons file rest => simp [act, doneAfter] at acted
      | nil =>
          simp only [act, doneAfter, if_true] at acted
          by_cases same : concat data = concat (doneMessage d).data
          · simp [same] at acted
            exact acted ▸ done_moves d execRequest runs cache index run s data here common own soFar
              (fun file member => (others file member).resolve_left (by simp)) same
          · simp [same] at acted
  | receiving file accepted rest part others => simp [act] at acted
  | plugging classRequest isPlug all => simp [act] at acted
  | notPlugged classRequest isPlug all => simp [act] at acted
  | plugged classRequest isPlug all =>
      simp only [act] at acted
      by_cases same : concat data = concat (doneMessage d).data
      · simp [same, clientTakes, doneMessage, plug_done d data _ same] at acted
        rw [← acted]
        refine moves_alone d execRequest runs cache index run s _ _ _ here common own rfl rfl ?_
          (by simp [Session.work, StateMachine.State.ended])
        rw [soFar]
        exact .ended classRequest isPlug all
      · simp [same] at acted
  | ended classRequest isPlug all => simp [act] at acted
  | exec classRequest isExec all _ channel stage => simp [act] at acted

theorem received_step (c : Session) (after : Standalone Cache × Session) (common : Common d runs cache s)
    (own : Own d execRequest runs index s c) (acted : act d execRequest index s c .received = some after) :
    Moves d execRequest runs cache index s c .received after := by
  obtain ⟨run, here, stage⟩ := own.stage
  generalize soFar : s.requestsOf index = requests at stage
  cases stage with
  | receiving file accepted rest part others =>
      simp [act, received, awaits_next, sequence_awaits] at acted
      exact acted ▸ received_moves d execRequest runs cache index run s file accepted rest here common own soFar part others
  | requested => simp [act, received, Session.opened] at acted
  | answered missing part others idxs indices => simp [act, received] at acted
  | uploading rest part others => simp [act, received] at acted
  | plugging classRequest isPlug all => simp [act, received] at acted
  | notPlugged classRequest isPlug all => simp [act] at acted
  | plugged classRequest isPlug all => simp [act, received] at acted
  | ended classRequest isPlug all => simp [act, received] at acted
  | exec classRequest isExec all _ channel stage => simp [act, received] at acted

theorem data_moves (c : Session) (event : SessionEvent) (after : Standalone Cache × Session)
    (common : Common d runs cache s) (own : Own d execRequest runs index s c)
    (onData : event = .sendRequest ∨ (∃ bs, event = .emit bs) ∨ event = .arrives)
    (acted : act d execRequest index s c event = some after) : Moves d execRequest runs cache index s c event after := by
  obtain ⟨run, here, stage⟩ := own.stage
  generalize soFar : s.requestsOf index = requests at stage
  have silent : c.data = .opened run.andThen → act d execRequest index s c event = none := by
    intro opened
    rcases onData with rfl | ⟨bs, rfl⟩ | rfl
    · simp [act, opened]
    · simp [act, opened]
    · simp [act, arrives, opened]
  cases stage with
  | exec classRequest isExec all _ channel stage =>
      exact exec_moves d execRequest runs cache index run s classRequest requests channel event after here common own isExec
        all soFar stage acted
  | requested => simp [silent rfl] at acted
  | answered missing part others idxs indices => simp [silent rfl] at acted
  | uploading rest part others => simp [silent rfl] at acted
  | receiving file accepted rest part others => simp [silent rfl] at acted
  | plugging classRequest isPlug all => simp [silent rfl] at acted
  | notPlugged classRequest isPlug all => simp [silent rfl] at acted
  | plugged classRequest isPlug all => simp [silent rfl] at acted
  | ended classRequest isPlug all => simp [silent rfl] at acted

theorem act_moves (c : Session) (event : SessionEvent) (after : Standalone Cache × Session) (short : index < runs.length)
    (common : Common d runs cache s) (own : Own d execRequest runs index s c)
    (acted : act d execRequest index s c event = some after) : Moves d execRequest runs cache index s c event after := by
  cases event with
  | toServer data resolves =>
      exact to_server_moves d execRequest runs cache index s data resolves c after short common own acted
  | received => exact received_step d execRequest runs cache index s c after common own acted
  | toClient data => exact to_client_moves d execRequest runs cache index s data c after common own acted
  | sendRequest => exact data_moves d execRequest runs cache index s c _ after common own (.inl rfl) acted
  | emit bs => exact data_moves d execRequest runs cache index s c _ after common own (.inr (.inl ⟨bs, rfl⟩)) acted
  | arrives => exact data_moves d execRequest runs cache index s c _ after common own (.inr (.inr rfl)) acted

def Session.finished (c : Session) : Prop :=
  c.failed = true ∨ c.client = .endNext ∧ c.toServer = [] ∧ c.receiving = none ∧ c.toClient = [] ∧ c.data.wire = [] ∧
    (c.data.promise = true → c.data.requested = true)

theorem unfinished_acts (c : Session) (own : Own d execRequest runs index s c)
    (unfinished : ¬ c.finished) :
    ∃ event, isInternal event ∧ (act d execRequest index s c event).isSome := by
  obtain ⟨run, here, stage⟩ := own.stage
  generalize s.requestsOf index = requests at stage
  cases stage with
  | requested => exact ⟨.toServer (requestMessage d (run.files.map Prod.fst)).data true, trivial, by simp [act, Session.opened]⟩
  | answered missing part others idxs indices =>
      exact ⟨.toClient (responseMessage d idxs).data, trivial, by simp [act]⟩
  | uploading rest part others =>
      cases rest with
      | nil => exact ⟨.toClient (doneMessage d).data, trivial, by simp [act, doneAfter]⟩
      | cons file rest => exact ⟨.toServer (fileMessage file).data true, trivial, by simp [act]⟩
  | receiving file accepted rest part others =>
      exact ⟨.received, trivial, by simp [act, received, awaits_next]⟩
  | plugging classRequest isPlug all =>
      exact ⟨.toServer (plugMessage d classRequest).data true, trivial, by simp [act]⟩
  | notPlugged classRequest isPlug all => exact absurd (.inl rfl) unfinished
  | plugged classRequest isPlug all => exact ⟨.toClient (doneMessage d).data, trivial, by simp [act]⟩
  | ended classRequest isPlug all => exact absurd (.inr (by simp)) unfinished
  | exec classRequest isExec all _ data channel =>
      cases channel with
      | promised => exact ⟨.sendRequest, trivial, by simp [act, DataChannel.sendRequest]⟩
      | requested emitted => exact ⟨.arrives, trivial, by simp [act, arrives, execRequest.round_trip]⟩
      | executing tail wire =>
          cases wire with
          | nil => exact absurd (.inr (by simp)) unfinished
          | cons bs rest => exact ⟨.arrives, trivial, by simp [act, arrives]⟩

theorem sessions_guarantees : Guarantees (act d execRequest) (Common d runs cache) (Own d execRequest runs) (Rely d)
    runs.length where
  kept := by
    intro index s c event after short common own acted
    have moves := act_moves d execRequest runs cache index s c event after short common own acted
    exact ⟨moves.shares.common, moves.own⟩
  given := by
    intro index s c event after other common own different acted
    obtain ⟨run, here, _⟩ := own.stage
    have short := (List.getElem?_eq_some_iff.mp here).1
    exact (act_moves d execRequest runs cache index s c event after short common own acted).shares.given other different
  stable := fun index before after c _ own rely => own_stable d execRequest runs index before after c own rely

theorem sessions_start :
    (sessions d execRequest runs cache).initial.Keeps (Common d runs cache) (Own d execRequest runs) runs.length := by
  refine ⟨List.length_map _, ?_, ?_⟩
  · refine ⟨?_, ?_, ?_, ?_, ?_, ?_⟩ <;> simp [sessions, joint, Jars.accepted]
  · intro index c found
    simp only [sessions, joint, List.getElem?_map, Option.map_eq_some_iff] at found
    obtain ⟨run, here, rfl⟩ := found
    exact ⟨by simp [sessions, joint, Session.opened], run, here, .requested⟩

theorem sessions_reachable (s : Joint (Standalone Cache) Session) (reached : (sessions d execRequest runs cache).Reachable s) :
    s.Keeps (Common d runs cache) (Own d execRequest runs) runs.length :=
  joint_reachable_keeps (act d execRequest) (Common d runs cache) (Own d execRequest runs) (Rely d) runs.length
    (sessions_guarantees d execRequest runs cache) _ s (sessions_start d execRequest runs cache) reached

-- What one session promises: requests are its class requests that the server has begun to resolve.
structure SessionAgreement (run : Run) (requests : List String) (known : String → Prop) (c : Session) : Prop where
  own_file : ∀ r, c.receiving = some r → (r.id, r.content) ∈ run.files
  seen : c.seen <+: [.verifyResponse, .done, .done]
  at_most_once : requests = [] ∨ requests = [run.andThen.classRequest]
  fails : c.failed = true → (∃ classRequest, run.andThen = .plug classRequest) ∧ requests ≠ [] ∧
    c.seen = [.verifyResponse, .done]
  plugged : c.client = .endNext → ∀ classRequest, run.andThen = .plug classRequest →
    requests = [classRequest] ∧ c.seen = [.verifyResponse, .done, .done]
  promised : c.client = .endNext → ∀ classRequest, run.andThen = .exec classRequest → c.data.promise = true
  promise : c.data.promise = true → (∃ classRequest, run.andThen = .exec classRequest) ∧ ∀ file ∈ run.files, known file.1
  executing : ∀ classRequest, c.data.executing = some classRequest →
    requests = [classRequest] ∧ c.data.tail ++ c.data.wire = c.data.emitted
  waiting : c.data.executing = none → c.data.tail = []

theorem opened_agreement (run : Run) (requests : List String) (known : String → Prop) (c : Session)
    (own_file : ∀ r, c.receiving = some r → (r.id, r.content) ∈ run.files)
    (seen : c.seen <+: [.verifyResponse, .done, .done])
    (at_most_once : requests = [] ∨ requests = [run.andThen.classRequest])
    (fails : c.failed = true → (∃ classRequest, run.andThen = .plug classRequest) ∧ requests ≠ [] ∧
      c.seen = [.verifyResponse, .done])
    (plugged : c.client = .endNext → ∃ classRequest, run.andThen = .plug classRequest ∧
      requests = [classRequest] ∧ c.seen = [.verifyResponse, .done, .done])
    (opened : c.data = .opened run.andThen) : SessionAgreement run requests known c := by
  refine ⟨own_file, seen, at_most_once, fails, ?_, ?_, ?_, ?_, ?_⟩
  · intro ended classRequest isPlug
    obtain ⟨request, same, resolved, whole⟩ := plugged ended
    rw [isPlug, AndThen.plug.injEq] at same
    exact ⟨same ▸ resolved, whole⟩
  · intro ended classRequest isExec
    obtain ⟨request, same, _⟩ := plugged ended
    simp [isExec] at same
  · simp [opened]
  · cases goal : run.andThen <;> simp [opened, goal, DataChannel.opened]
  · cases goal : run.andThen <;> simp [opened, goal, DataChannel.opened]

theorem stage_agreement (run : Run) (requests : List String) (known : String → Prop) (c : Session)
    (stage : Stage d execRequest run known requests c) : SessionAgreement run requests known c := by
  cases stage with
  | requested =>
      exact opened_agreement run _ known (Session.opened d run) (fun r busy => by simp [Session.opened] at busy)
        List.nil_prefix (.inl rfl) (fun failed => by simp [Session.opened] at failed)
        (fun ended => by simp [Session.opened] at ended) rfl
  | answered missing part others idxs indices =>
      exact opened_agreement run _ known _ (by simp) (by simp) (.inl rfl) (by simp) (by simp) rfl
  | uploading rest part others =>
      exact opened_agreement run _ known _ (by simp) (by simp) (.inl rfl) (by simp) (by simp) rfl
  | receiving file accepted rest part others =>
      refine opened_agreement run _ known _ ?_ (by simp) (.inl rfl) (by simp) (by simp) rfl
      rintro r ⟨⟩
      exact part file (by simp)
  | plugging classRequest isPlug all =>
      exact opened_agreement run _ known _ (by simp) (by simp) (.inl rfl) (by simp) (by simp) rfl
  | notPlugged classRequest isPlug all =>
      exact opened_agreement run _ known _ (by simp) (by simp) (.inr (by simp [isPlug, AndThen.classRequest]))
        (by simp [isPlug]) (by simp) rfl
  | plugged classRequest isPlug all =>
      exact opened_agreement run _ known _ (by simp) (by simp) (.inr (by simp [isPlug, AndThen.classRequest])) (by simp)
        (by simp) rfl
  | ended classRequest isPlug all =>
      exact opened_agreement run _ known _ (by simp) (by simp) (.inr (by simp [isPlug, AndThen.classRequest])) (by simp)
        (by simp [isPlug]) rfl
  | exec classRequest isExec all _ data channel =>
      have name : run.andThen.classRequest = classRequest := by rw [isExec]; rfl
      cases channel with
      | promised =>
          exact ⟨by simp, by simp, .inl rfl, by simp, by simp [isExec], by simp, fun _ => ⟨⟨_, isExec⟩, all⟩, by simp, by simp⟩
      | requested emitted =>
          exact ⟨by simp, by simp, .inl rfl, by simp, by simp [isExec], by simp, fun _ => ⟨⟨_, isExec⟩, all⟩, by simp, by simp⟩
      | executing tail wire =>
          exact ⟨by simp, by simp, .inr (by rw [name]), by simp, by simp [isExec], by simp, fun _ => ⟨⟨_, isExec⟩, all⟩,
            by simp, by simp⟩

structure SessionsAgreement (s : Joint (Standalone Cache) Session) : Prop where
  jars : Common d runs cache s.shared
  writers : ∀ index id, (index, id) ∈ s.shared.jars.writing →
    ∃ c content, s.parties[index]? = some c ∧ c.receiving = some ⟨id, true, content⟩
  each : ∀ index run c, runs[index]? = some run → s.parties[index]? = some c →
    SessionAgreement run (s.shared.requestsOf index) (fun id => id ∈ d.jarCache.ids s.shared.jars.cache) c

-- Whatever the order in which any number of clients upload, plug and execute at one server.
theorem sessions_agreement (s : Joint (Standalone Cache) Session) (reached : (sessions d execRequest runs cache).Reachable s) :
    SessionsAgreement d runs cache s := by
  obtain ⟨length, common, own⟩ := sessions_reachable d execRequest runs cache s reached
  refine ⟨common, ?_, ?_⟩
  · intro index id writing
    have short := common.writers (index, id) writing
    have found : s.parties[index]? = some (s.parties.get ⟨index, by omega⟩) := List.getElem?_eq_getElem _
    obtain ⟨content, busy⟩ := ((own index _ found).writes id).mp writing
    exact ⟨_, content, found, busy⟩
  · intro index run c here found
    obtain ⟨other, same, stage⟩ := (own index c found).stage
    obtain rfl := Option.some.inj (here.symm.trans same)
    exact stage_agreement d execRequest run _ _ c stage

-- What is left once every session has finished.
structure Settled (s : Joint (Standalone Cache) Session) : Prop where
  idle : s.shared.jars.writing = []
  files : ∀ run ∈ runs, ∀ file ∈ run.files,
    file.1 ∈ d.jarCache.ids cache ∨ ∃ content, (file.1, content) ∈ s.shared.jars.written
  resolved : ∀ index run, runs[index]? = some run → s.shared.requestsOf index = [run.andThen.classRequest]
  delivered : ∀ c ∈ s.parties, c.data.tail = c.data.emitted

theorem finished_stage (run : Run) (requests : List String) (known : String → Prop) (c : Session)
    (stage : Stage d execRequest run known requests c) (finished : c.finished) :
    c.receiving = none ∧ (∀ file ∈ run.files, known file.1) ∧ requests = [run.andThen.classRequest] ∧
      c.data.tail = c.data.emitted := by
  have opened : (DataChannel.opened run.andThen).tail = (DataChannel.opened run.andThen).emitted := by
    cases run.andThen <;> rfl
  cases stage with
  | requested => simp [Session.finished, Session.opened] at finished
  | answered missing part others idxs indices => simp [Session.finished] at finished
  | uploading rest part others => simp [Session.finished] at finished
  | receiving file accepted rest part others => simp [Session.finished] at finished
  | plugging classRequest isPlug all => simp [Session.finished] at finished
  | notPlugged classRequest isPlug all => exact ⟨rfl, all, by rw [isPlug]; rfl, opened⟩
  | plugged classRequest isPlug all => simp [Session.finished] at finished
  | ended classRequest isPlug all => exact ⟨rfl, all, by rw [isPlug]; rfl, opened⟩
  | exec classRequest isExec all _ data channel =>
      cases channel with
      | promised => simp [Session.finished] at finished
      | requested emitted => simp [Session.finished] at finished
      | executing tail wire =>
          have quiet : wire = [] := by simpa [Session.finished] using finished
          exact ⟨rfl, all, by rw [isExec]; rfl, by simp [quiet]⟩

theorem all_finished_settled (s : Joint (Standalone Cache) Session)
    (holds : s.Keeps (Common d runs cache) (Own d execRequest runs) runs.length) (all : ∀ c ∈ s.parties, c.finished) :
    Settled d runs cache s := by
  obtain ⟨length, common, own⟩ := holds
  have each : ∀ index run, runs[index]? = some run → ∃ c, s.parties[index]? = some c ∧ Own d execRequest runs index s.shared c ∧
      c.receiving = none ∧ (∀ file ∈ run.files, file.1 ∈ d.jarCache.ids s.shared.jars.cache) ∧
      s.shared.requestsOf index = [run.andThen.classRequest] ∧ c.data.tail = c.data.emitted := by
    intro index run here
    have short := (List.getElem?_eq_some_iff.mp here).1
    have found : s.parties[index]? = some (s.parties.get ⟨index, by omega⟩) := List.getElem?_eq_getElem _
    obtain ⟨other, same, stage⟩ := (own index _ found).stage
    obtain rfl := Option.some.inj (here.symm.trans same)
    exact ⟨_, found, own index _ found, finished_stage d execRequest run _ _ _ stage (all _ (List.getElem_mem _))⟩
  have idle : s.shared.jars.writing = [] := by
    rw [List.eq_nil_iff_forall_not_mem]
    rintro ⟨index, id⟩ writing
    have short := common.writers (index, id) writing
    obtain ⟨c, _, mine, still, _⟩ := each index _ (List.getElem?_eq_getElem short)
    obtain ⟨content, busy⟩ := (mine.writes id).mp writing
    simp [still] at busy
  refine ⟨idle, ?_, ?_, ?_⟩
  · intro run member file inRun
    obtain ⟨index, here⟩ := List.getElem?_of_mem member
    obtain ⟨c, _, _, _, known, _⟩ := each index run here
    rcases (common.cached file.1).mp (known file inRun) with before | accepted
    · exact .inl before
    · rw [Jars.accepted, idle, List.map_nil, List.nil_append] at accepted
      obtain ⟨entry, written, same⟩ := List.mem_map.mp accepted
      exact .inr ⟨entry.2, same ▸ written⟩
  · intro index run here
    obtain ⟨c, _, _, _, _, resolved, _⟩ := each index run here
    exact resolved
  · intro c member
    obtain ⟨index, found⟩ := List.getElem?_of_mem member
    obtain ⟨run, here, _⟩ := (own index c found).stage
    obtain ⟨other, same, _, _, _, _, delivered⟩ := each index run here
    obtain rfl := Option.some.inj (found.symm.trans same)
    exact delivered

structure SessionsFinish (s : Joint (Standalone Cache) Session) : Prop where
  bounded : ∀ events final, (∀ event ∈ events, isInternal event.2) → (sessions d execRequest runs cache).run s events = some final →
    events.length ≤ s.left (fun _ => Session.work)
  finishes : ∃ events final, (∀ event ∈ events, isInternal event.2) ∧
    (sessions d execRequest runs cache).run s events = some final ∧ (∀ c ∈ final.parties, c.finished) ∧
      Settled d runs cache final
  settled : (∀ c ∈ s.parties, c.finished) → Settled d runs cache s

-- No session waits for another one for ever, and none starves.
theorem sessions_finish (s : Joint (Standalone Cache) Session) (reached : (sessions d execRequest runs cache).Reachable s) :
    SessionsFinish d execRequest runs cache s := by
  have guarantees := sessions_guarantees d execRequest runs cache
  have holds := sessions_reachable d execRequest runs cache s reached
  have decreases : ∀ index s c event after, Common d runs cache s → Own d execRequest runs index s c → isInternal event →
      act d execRequest index s c event = some after → after.2.work < c.work := by
    intro index s c event after common own internal acted
    obtain ⟨run, here, _⟩ := own.stage
    have short := (List.getElem?_eq_some_iff.mp here).1
    exact (act_moves d execRequest runs cache index s c event after short common own acted).saves internal
  have enabled : ∀ index s c, Common d runs cache s → Own d execRequest runs index s c → ¬ c.finished →
      ∃ event after, isInternal event ∧ act d execRequest index s c event = some after := by
    intro index s c common own unfinished
    obtain ⟨event, internal, acts⟩ := unfinished_acts d execRequest runs index s c own unfinished
    obtain ⟨after, acted⟩ := Option.isSome_iff_exists.mp acts
    exact ⟨event, after, internal, acted⟩
  refine ⟨?_, ?_, all_finished_settled d execRequest runs cache s holds⟩
  · intro events final internal ran
    have bound := joint_run_bounded (act d execRequest) (Common d runs cache) (Own d execRequest runs) (Rely d) isInternal
      (fun _ => Session.work) runs.length _ s final events guarantees decreases holds internal ran
    omega
  · obtain ⟨events, final, internal, ran, all⟩ := joint_run_finishes (act d execRequest) (Common d runs cache)
      (Own d execRequest runs) (Rely d) isInternal Session.finished (fun _ => Session.work) runs.length
      (sessions d execRequest runs cache).initial s guarantees decreases enabled holds
    have kept := run_keeps (sessions d execRequest runs cache) (Joint.Keeps (Common d runs cache) (Own d execRequest runs) runs.length)
      (joint_step_keeps (act d execRequest) (Common d runs cache) (Own d execRequest runs) (Rely d) runs.length guarantees)
      s final events holds ran
    exact ⟨events, final, internal, ran, all, all_finished_settled d execRequest runs cache final kept all⟩

end Sessions

def execPickler : Pickler String :=
  codePickler (fun s => [charCodes s]) (fun codes => ofCharCodes (codes.headD [])) of_char_codes

-- Two clients with a jar in common, one that plugs and one that executes. The second one executes while the first one is
-- still writing their jar.
def twoRuns : List Run := [⟨[("a", [1]), ("b", [2])], .plug "p"⟩, ⟨[("b", [2]), ("c", [3])], .exec "e"⟩]

def midway : List (Nat × SessionEvent) :=
  [(0, .toServer (requestMessage listDeployment ["a", "b"]).data true),
   (1, .toServer (requestMessage listDeployment ["b", "c"]).data true),
   (0, .toClient (responseMessage listDeployment [1]).data), (1, .toClient (responseMessage listDeployment [0, 1]).data),
   (0, .toServer (fromPath [2]) true), (1, .toServer (fromPath [2]) true), (1, .received), (1, .toServer (fromPath [3]) true),
   (1, .received), (1, .toClient (doneMessage listDeployment).data), (1, .sendRequest), (1, .emit [9]), (1, .arrives)]

theorem midway_run : ((sessions listDeployment execPickler twoRuns ["a"]).run
      (sessions listDeployment execPickler twoRuns ["a"]).initial midway).map
        (fun s => (s.shared.jars.writing, s.shared.requestsOf 1, s.parties.map (fun c => c.data.wire))) =
      some ([(0, "b")], ["e"], [[], [[9]]]) := by decide +kernel

theorem sessions_agreement_two :
    ∃ s, (s.shared.jars.writing = [(0, "b")] ∧ s.shared.requestsOf 1 = ["e"]) ∧
      SessionsAgreement listDeployment twoRuns ["a"] s := by
  obtain ⟨s, run, outcome⟩ := Option.map_eq_some_iff.mp midway_run
  obtain ⟨writing, rest⟩ := Prod.mk.inj outcome
  exact ⟨s, ⟨writing, (Prod.mk.inj rest).1⟩, sessions_agreement listDeployment execPickler twoRuns ["a"] s ⟨midway, run⟩⟩

theorem sessions_finish_two :
    ∃ s : Joint (Standalone (List String)) Session,
      (s.shared.jars.writing = [(0, "b")] ∧ s.parties.map (fun c => c.data.wire) = [[], [[9]]]) ∧
        SessionsFinish listDeployment execPickler twoRuns ["a"] s := by
  obtain ⟨s, run, outcome⟩ := Option.map_eq_some_iff.mp midway_run
  obtain ⟨writing, rest⟩ := Prod.mk.inj outcome
  exact ⟨s, ⟨writing, (Prod.mk.inj rest).2⟩, sessions_finish listDeployment execPickler twoRuns ["a"] s ⟨midway, run⟩⟩

end Toolbox8.JarTreeStandalone
