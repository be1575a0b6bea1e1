import Toolbox8.Base.Transition
import Toolbox8.StateMachine
import Mathlib.Data.Set.Insert

set_option autoImplicit false

namespace Toolbox8.JarTreeStandalone

open Base AkkaStreamCoding AkkaStreamCoding.StateMachine

inductive Starter where
  | query
  | verifyRequest (ids : List String)
  | plug (classRequest : String)
deriving DecidableEq, Repr

-- Where a Data comes from. The parties do not see it.
inductive Origin where
  | starter
  | verifyResponse
  | file (id : String) (content : ByteString)
  | done
  | queryResponse
deriving DecidableEq, Repr

inductive Kind where
  | starter
  | verifyResponse
  | done
deriving DecidableEq, Repr

structure Message where
  origin : Origin
  data : Data
deriving DecidableEq, Repr

-- The jar cache of toolbox6: a set of ids that putAsync adds to.
structure JarCache (Cache : Type) where
  ids : Cache → Set String
  contains : Cache → String → Bool
  putAsync : Cache → String → Option Cache
  contains_iff : ∀ cache id, contains cache id = true ↔ id ∈ ids cache
  put_none : ∀ cache id, putAsync cache id = none ↔ id ∈ ids cache
  put_some : ∀ cache id next, putAsync cache id = some next → ids next = insert id (ids cache)

-- What the two parties take from elsewhere.
structure Deployment (Cache : Type) where
  jarCache : JarCache Cache
  starter : Pickler Starter
  verifyResponse : Pickler (List Int)
  done : Pickler Unit
  queryResponse : Data
  performPlug : String → Bool

structure Server (Cache : Type) where
  cache : Cache
  stored : List (String × ByteString)
  received : List (String × Origin)
  unpickled : List (Origin × Kind)

structure Client where
  seen : List Origin
  unpickled : List (Origin × Kind)
deriving DecidableEq, Repr

inductive ServerStep where
  | start
deriving DecidableEq, Repr

abbrev Files := List (String × ByteString)

inductive ClientStep where
  | verifying (files : Files)
  | uploading
  | andThen
deriving DecidableEq, Repr

-- A step of the server's sequence is named by the id it receives.
abbrev ServerTransition := Transition Message ServerStep String
abbrev ServerState := StateMachine.State Message ServerStep String
abbrev ClientTransition := Transition Message ClientStep Empty
abbrev ClientState := StateMachine.State Message ClientStep Empty

def fromPath (content : ByteString) : Data := .completed (grouped 8192 content)

def fileMessage (file : String × ByteString) : Message := ⟨.file file.1 file.2, fromPath file.2⟩

section Parties

variable {Cache : Type} (d : Deployment Cache)

def doneMessage : Message := ⟨.done, pickle d.done ()⟩

def responseMessage (idxs : List Int) : Message := ⟨.verifyResponse, pickle d.verifyResponse idxs⟩

def requestMessage (ids : List String) : Message := ⟨.starter, pickle d.starter (.verifyRequest ids)⟩

def verifyRespone (idxs : List Int) (ids : List String) : ServerState :=
  sequenceInAndState [responseMessage d idxs] ids ⟨[doneMessage d], .named .start⟩

def performPlug (classRequest : String) : Option ServerState :=
  if d.performPlug classRequest then some ⟨[doneMessage d], .endNext⟩ else none

def start (m : Message) (s : Server Cache) : Option (ServerState × Server Cache) :=
  let after := { s with unpickled := s.unpickled ++ [(m.origin, .starter)] }
  match unpickle d.starter m.data with
  | none => none
  | some (.verifyRequest ids) =>
      let (ids, idxs) := (ids.zipIdx.filter (fun (id, _) => !d.jarCache.contains s.cache id)).unzip
      some (verifyRespone d (idxs.map Int.ofNat) ids, after)
  | some .query => some (⟨[⟨.queryResponse, d.queryResponse⟩], .endNext⟩, after)
  | some (.plug classRequest) => (performPlug d classRequest).map (fun state => (state, after))

-- The future of a FileIO.toPath succeeds with an IOResult also when the data fails, that of a Sink.ignore does not.
def receive (id : String) (m : Message) (s : Server Cache) : Option (Server Cache) :=
  let after := { s with received := s.received ++ [(id, m.origin)] }
  match d.jarCache.putAsync s.cache id with
  | some cache => some { after with cache := cache, stored := s.stored ++ [(id, m.data.elems.flatten)] }
  | none => (concat m.data).map (fun _ => after)

def serverNext (t : ServerTransition) (m : Message) (s : Server Cache) : Option (ServerState × Server Cache) :=
  t.apply (fun _ => start d) (receive d) m s

-- An IndexedSeq fails on an index outside of it.
def fileAt (files : Files) (idx : Int) : Option (String × ByteString) := if 0 ≤ idx then files[idx.toNat]? else none

def verifying (files : Files) (m : Message) : Option ClientState := do
  let missing ← unpickle d.verifyResponse m.data
  let fs ← missing.mapM (fileAt files)
  some ⟨fs.map fileMessage, .named .uploading⟩

-- The state that andThen gives is where the upload ends.
def uploading (m : Message) : Option ClientState := do
  let _ ← unpickle d.done m.data
  some ⟨[], .named .andThen⟩

def clientStep (name : ClientStep) (m : Message) (c : Client) : Option (ClientState × Client) :=
  match name with
  | .verifying files =>
      (verifying d files m).map (fun state =>
        (state, ⟨c.seen ++ [m.origin], c.unpickled ++ [(m.origin, .verifyResponse)]⟩))
  | .uploading =>
      (uploading d m).map (fun state => (state, ⟨c.seen ++ [m.origin], c.unpickled ++ [(m.origin, .done)]⟩))
  | .andThen => none

def clientNext (t : ClientTransition) (m : Message) (c : Client) : Option (ClientState × Client) :=
  t.apply (clientStep d) (fun step _ _ => nomatch step) m c

def upload (files : Files) : ClientState := ⟨[requestMessage d (files.map Prod.fst)], .named (.verifying files)⟩

structure Connection (Cache : Type) where
  client : ClientTransition
  clientLog : Client
  toServer : List Message
  server : ServerTransition
  serverLog : Server Cache
  toClient : List Message
  failed : Bool

-- The next Data arrives, cut anew by the coding in between.
inductive Event where
  | toServer (data : Data)
  | toClient (data : Data)

def step (c : Connection Cache) : Event → Option (Connection Cache)
  | .toServer data =>
      match c.toServer with
      | [] => none
      | m :: rest =>
          if c.failed ∨ concat data ≠ concat m.data then none
          else
            match serverNext d c.server ⟨m.origin, data⟩ c.serverLog with
            | none => some { c with failed := true }
            | some (state, log) =>
                some { c with toServer := rest, server := state.next, serverLog := log, toClient := c.toClient ++ state.out }
  | .toClient data =>
      match c.toClient with
      | [] => none
      | m :: rest =>
          if c.failed ∨ concat data ≠ concat m.data then none
          else
            match clientNext d c.client ⟨m.origin, data⟩ c.clientLog with
            | none => some { c with failed := true }
            | some (state, log) =>
                some { c with toClient := rest, client := state.next, clientLog := log, toServer := c.toServer ++ state.out }

def connection (files : Files) (cache : Cache) : Machine (Connection Cache) Event where
  initial := ⟨(upload d files).next, ⟨[], []⟩, (upload d files).out, .named .start, ⟨cache, [], [], []⟩, [], false⟩
  step := step d

def missingFiles (files : Files) (cache : Cache) : Files := files.filter (fun file => !d.jarCache.contains cache file.1)

-- What the server's sequence still is when the files of rest have not come in.
def serverAwaits (rest : Files) : ServerTransition :=
  (sequenceInAndState [] (rest.map Prod.fst) ⟨[doneMessage d], .named .start⟩).next

def doneAfter (rest : Files) : List Message := if rest = [] then [doneMessage d] else []

theorem sequence_awaits (out : List Message) (rest : Files) :
    sequenceInAndState out (rest.map Prod.fst) ⟨[doneMessage d], .named .start⟩ =
      ⟨out ++ doneAfter d rest, serverAwaits d rest⟩ := by
  cases rest with
  | nil => rfl
  | cons file more => simp [sequenceInAndState, doneAfter, serverAwaits]

theorem missing_ids (ids : List String) (k : Nat) (cache : Cache) :
    ((ids.zipIdx k).filter (fun (id, _) => !d.jarCache.contains cache id)).unzip.1 =
      ids.filter (fun id => !d.jarCache.contains cache id) := by
  induction ids generalizing k with
  | nil => rfl
  | cons id rest ih =>
      have later := ih (k + 1)
      rw [List.unzip_fst] at later ⊢
      by_cases cached : d.jarCache.contains cache id
      · simpa [List.zipIdx_cons, cached] using later
      · simpa [List.zipIdx_cons, cached] using later

-- The indices the server answers with lead back to the files it misses; front is the part already passed.
theorem missing_indices (front files : Files) (cache : Cache) :
    ((((files.map Prod.fst).zipIdx front.length).filter (fun (id, _) => !d.jarCache.contains cache id)).unzip.2.map
      Int.ofNat).mapM (fileAt (front ++ files)) = some (missingFiles d files cache) := by
  induction files generalizing front with
  | nil => rfl
  | cons file rest ih =>
      have later := ih (front ++ [file])
      simp only [List.length_append, List.length_singleton, List.append_assoc, List.singleton_append] at later
      rw [List.unzip_snd] at later ⊢
      have here : fileAt (front ++ file :: rest) (Int.ofNat front.length) = some file := by simp [fileAt]
      by_cases cached : d.jarCache.contains cache file.1
      · simpa [List.zipIdx_cons, missingFiles, cached] using later
      · simp only [List.map_cons, List.zipIdx_cons, missingFiles, cached, Bool.not_false, List.filter_cons_of_pos,
          List.mapM_cons, here, later]
        rfl

theorem missing_file_ids (files : Files) (cache : Cache) :
    (files.map Prod.fst).filter (fun id => !d.jarCache.contains cache id) = (missingFiles d files cache).map Prod.fst := by
  rw [missingFiles, List.filter_map]
  rfl

theorem missing_not_cached (files : Files) (cache : Cache) (file : String × ByteString) :
    file ∈ missingFiles d files cache ↔ file ∈ files ∧ file.1 ∉ d.jarCache.ids cache := by
  rw [missingFiles, List.mem_filter, ← d.jarCache.contains_iff]
  simp

def fromOrigin (file : String × ByteString) : String × Origin := (file.1, .file file.1 file.2)

-- The cache and its files after the given ones have come in.
structure Holds (cache : Cache) (received : Files) (log : Server Cache) : Prop where
  steps : log.received = received.map fromOrigin
  request : log.unpickled = [(.starter, .starter)]
  cached : ∀ id, id ∈ d.jarCache.ids log.cache ↔ id ∈ d.jarCache.ids cache ∨ id ∈ received.map Prod.fst
  from_client : ∀ entry ∈ log.stored, entry ∈ received
  stored : ∀ id ∈ d.jarCache.ids log.cache, id ∈ d.jarCache.ids cache ∨ id ∈ log.stored.map Prod.fst

-- Where the two parties can be together. In every stage nothing has failed.
inductive InStep (files : Files) (cache : Cache) : Connection Cache → Prop where
  | requested : InStep files cache (connection d files cache).initial
  | answered (log : Server Cache) (holds : Holds d cache [] log) (idxs : List Int)
      (indices : idxs.mapM (fileAt files) = some (missingFiles d files cache)) :
      InStep files cache
        ⟨.named (.verifying files), ⟨[], []⟩, [], serverAwaits d (missingFiles d files cache), log,
          responseMessage d idxs :: doneAfter d (missingFiles d files cache), false⟩
  | uploading (received rest : Files) (split : missingFiles d files cache = received ++ rest) (log : Server Cache)
      (holds : Holds d cache received log) :
      InStep files cache
        ⟨.named .uploading, ⟨[.verifyResponse], [(.verifyResponse, .verifyResponse)]⟩, rest.map fileMessage,
          serverAwaits d rest, log, doneAfter d rest, false⟩
  | finished (log : Server Cache) (holds : Holds d cache (missingFiles d files cache) log) :
      InStep files cache
        ⟨.named .andThen, ⟨[.verifyResponse, .done], [(.verifyResponse, .verifyResponse), (.done, .done)]⟩, [],
          .named .start, log, [], false⟩

theorem concat_from_path (content : ByteString) : concat (fromPath content) = some content := by
  rw [fromPath, concat, completed_ended, completed_elems, ByteStrings.fold_append, List.nil_append,
    grouped_flatten 8192 content (by decide)]

theorem flatten_of_concat (data : Data) (content : ByteString) (whole : concat data = some content) :
    data.elems.flatten = content := by
  cases ended : data.ended with
  | failed => simp [concat, ended] at whole
  | completed =>
      simp only [concat, ended, Option.some.injEq, ByteStrings.fold_append, List.nil_append] at whole
      exact whole

theorem receive_holds (cache : Cache) (received : Files) (log : Server Cache) (file : String × ByteString) (data : Data)
    (same : concat data = concat (fromPath file.2)) (holds : Holds d cache received log) :
    ∃ after, receive d file.1 ⟨.file file.1 file.2, data⟩ log = some after ∧ Holds d cache (received ++ [file]) after := by
  rw [concat_from_path] at same
  have memberOr : ∀ id, id ∈ (received ++ [file]).map Prod.fst ↔ id ∈ received.map Prod.fst ∨ id = file.1 := by
    simp
  cases put : d.jarCache.putAsync log.cache file.1 with
  | none =>
      have old := (d.jarCache.put_none log.cache file.1).mp put
      refine ⟨{ log with received := log.received ++ [(file.1, .file file.1 file.2)] },
        by simp only [receive, put, same, Option.map_some], ?_, holds.request, ?_, ?_, holds.stored⟩
      · simp [holds.steps, fromOrigin]
      · intro id
        rw [memberOr, ← or_assoc, ← holds.cached]
        constructor
        · exact Or.inl
        · rintro (here | rfl)
          · exact here
          · exact old
      · intro entry member
        simp [holds.from_client entry member]
  | some next =>
      have grown := d.jarCache.put_some log.cache file.1 next put
      have written := flatten_of_concat data file.2 same
      refine ⟨{ log with
          received := log.received ++ [(file.1, .file file.1 file.2)]
          cache := next
          stored := log.stored ++ [(file.1, file.2)] },
        by simp only [receive, put, written], ?_, holds.request, ?_, ?_, ?_⟩
      · simp [holds.steps, fromOrigin]
      · intro id
        rw [memberOr, ← or_assoc, ← holds.cached, grown, Set.mem_insert_iff, or_comm]
      · intro entry member
        rw [List.mem_append, List.mem_singleton] at member
        cases member with
        | inl old => simp [holds.from_client entry old]
        | inr new => simp [new]
      · intro id member
        rw [grown, Set.mem_insert_iff] at member
        cases member with
        | inl new => simp [new]
        | inr old =>
            cases holds.stored id old with
            | inl before => exact .inl before
            | inr here => simp [List.map_append, here]

theorem start_answers (files : Files) (cache : Cache) (data : Data)
    (same : concat data = concat (requestMessage d (files.map Prod.fst)).data) :
    ∃ log idxs, serverNext d (.named .start) ⟨.starter, data⟩ ⟨cache, [], [], []⟩ =
        some (⟨responseMessage d idxs :: doneAfter d (missingFiles d files cache),
          serverAwaits d (missingFiles d files cache)⟩, log) ∧
      Holds d cache [] log ∧ idxs.mapM (fileAt files) = some (missingFiles d files cache) := by
  have request := unpickle_pickled d.starter (.verifyRequest (files.map Prod.fst)) data same
  have indices := missing_indices d [] files cache
  have ids := missing_ids d (files.map Prod.fst) 0 cache
  rw [missing_file_ids] at ids
  refine ⟨⟨cache, [], [], [(.starter, .starter)]⟩, _, ?_, ⟨rfl, rfl, by simp, by simp, by simp⟩, indices⟩
  simp only [serverNext, Transition.apply, start, request, verifyRespone]
  rw [ids, sequence_awaits]
  rfl

theorem server_step (cache : Cache) (received rest : Files) (file : String × ByteString)
    (log : Server Cache) (data : Data) (same : concat data = concat (fileMessage file).data)
    (holds : Holds d cache received log) :
    ∃ after, serverNext d (serverAwaits d (file :: rest)) ⟨(fileMessage file).origin, data⟩ log =
        some (⟨doneAfter d rest, serverAwaits d rest⟩, after) ∧ Holds d cache (received ++ [file]) after := by
  obtain ⟨after, got, kept⟩ := receive_holds d cache received log file data same holds
  refine ⟨after, ?_, kept⟩
  have receives : serverNext d (serverAwaits d (file :: rest)) ⟨(fileMessage file).origin, data⟩ log =
      (receive d file.1 ⟨.file file.1 file.2, data⟩ log).map
        (fun after => (sequenceInAndState [] (rest.map Prod.fst) ⟨[doneMessage d], .named .start⟩, after)) := rfl
  rw [receives, got, Option.map_some, sequence_awaits, List.nil_append]

-- Every message that a party has handled is in one of its logs.
def Connection.handled (c : Connection Cache) : Nat :=
  c.serverLog.unpickled.length + c.serverLog.received.length + c.clientLog.seen.length

theorem to_server_in_step (files : Files) (cache : Cache) (c next : Connection Cache) (data : Data)
    (inStep : InStep d files cache c) (stepped : step d c (.toServer data) = some next) :
    InStep d files cache next ∧ next.handled = c.handled + 1 := by
  cases inStep with
  | requested =>
      simp only [step, connection, upload] at stepped
      by_cases same : concat data = concat (requestMessage d (files.map Prod.fst)).data
      · obtain ⟨log, idxs, answer, holds, indices⟩ := start_answers d files cache data same
        have origin : (requestMessage d (files.map Prod.fst)).origin = .starter := rfl
        rw [origin, answer] at stepped
        simp [same] at stepped
        subst stepped
        exact ⟨.answered log holds idxs indices, by simp [Connection.handled, connection, holds.request, holds.steps]⟩
      · simp [same] at stepped
  | answered log holds idxs indices => simp [step] at stepped
  | uploading received rest split log holds =>
      cases rest with
      | nil => simp [step] at stepped
      | cons file more =>
          simp only [step, List.map_cons] at stepped
          by_cases same : concat data = concat (fileMessage file).data
          · obtain ⟨after, got, kept⟩ := server_step d cache received more file log data same holds
            rw [got] at stepped
            simp [same] at stepped
            subst stepped
            have later := InStep.uploading (received ++ [file]) more (by rw [split, List.append_assoc]; rfl) after kept
            refine ⟨by simpa [doneAfter] using later, ?_⟩
            simp [Connection.handled, holds.request, holds.steps, kept.request, kept.steps]
            omega
          · simp [same] at stepped
  | finished log holds => simp [step] at stepped

theorem client_uploads (files : Files) (cache : Cache) (idxs : List Int) (log : Client) (data : Data)
    (same : concat data = concat (responseMessage d idxs).data)
    (indices : idxs.mapM (fileAt files) = some (missingFiles d files cache)) :
    clientNext d (.named (.verifying files)) ⟨.verifyResponse, data⟩ log =
      some (⟨(missingFiles d files cache).map fileMessage, .named .uploading⟩,
        ⟨log.seen ++ [.verifyResponse], log.unpickled ++ [(.verifyResponse, .verifyResponse)]⟩) := by
  have response := unpickle_pickled d.verifyResponse idxs data same
  simp [clientNext, Transition.apply, clientStep, verifying, response, indices]

theorem client_finishes (log : Client) (data : Data) (same : concat data = concat (doneMessage d).data) :
    clientNext d (.named .uploading) ⟨.done, data⟩ log =
      some (⟨[], .named .andThen⟩, ⟨log.seen ++ [.done], log.unpickled ++ [(.done, .done)]⟩) := by
  have done := unpickle_pickled d.done () data same
  simp [clientNext, Transition.apply, clientStep, uploading, done]

theorem to_client_in_step (files : Files) (cache : Cache) (c next : Connection Cache) (data : Data)
    (inStep : InStep d files cache c) (stepped : step d c (.toClient data) = some next) :
    InStep d files cache next ∧ next.handled = c.handled + 1 := by
  cases inStep with
  | requested => simp [step, connection] at stepped
  | answered log holds idxs indices =>
      simp only [step] at stepped
      by_cases same : concat data = concat (responseMessage d idxs).data
      · have origin : (responseMessage d idxs).origin = .verifyResponse := rfl
        rw [origin, client_uploads d files cache idxs ⟨[], []⟩ data same indices] at stepped
        simp [same] at stepped
        subst stepped
        exact ⟨.uploading [] (missingFiles d files cache) rfl log holds, by simp [Connection.handled]⟩
      · simp [same] at stepped
  | uploading received rest split log holds =>
      cases rest with
      | cons file more => simp [step, doneAfter] at stepped
      | nil =>
          simp only [step, doneAfter, if_true] at stepped
          by_cases same : concat data = concat (doneMessage d).data
          · have origin : (doneMessage d).origin = .done := rfl
            rw [origin, client_finishes d _ data same] at stepped
            simp [same] at stepped
            subst stepped
            rw [List.append_nil] at split
            rw [← split] at holds
            exact ⟨.finished log holds, by simp [Connection.handled]⟩
          · simp [same] at stepped
  | finished log holds => simp [step] at stepped

theorem step_in_step (files : Files) (cache : Cache) (c : Connection Cache) (event : Event) (next : Connection Cache)
    (inStep : InStep d files cache c) (stepped : step d c event = some next) :
    InStep d files cache next ∧ next.handled = c.handled + 1 := by
  cases event with
  | toServer data => exact to_server_in_step d files cache c next data inStep stepped
  | toClient data => exact to_client_in_step d files cache c next data inStep stepped

theorem handled_bound (files : Files) (cache : Cache) (c : Connection Cache) (inStep : InStep d files cache c) :
    c.handled ≤ (missingFiles d files cache).length + 3 := by
  cases inStep with
  | requested => simp [Connection.handled, connection]
  | answered log holds idxs indices => simp [Connection.handled, holds.request, holds.steps]
  | uploading received rest split log holds =>
      simp [Connection.handled, holds.request, holds.steps, split]
      omega
  | finished log holds =>
      simp [Connection.handled, holds.request, holds.steps]
      omega

-- The messages that are still to be handled before the client runs andThen.
def work (files : Files) (cache : Cache) (c : Connection Cache) : Nat :=
  (missingFiles d files cache).length + 3 - c.handled

theorem unfinished_enabled (files : Files) (cache : Cache) (c : Connection Cache) (inStep : InStep d files cache c)
    (unfinished : c.client ≠ .named .andThen) : ∃ event next, True ∧ step d c event = some next := by
  cases inStep with
  | requested =>
      obtain ⟨log, idxs, answer, _, _⟩ := start_answers d files cache (requestMessage d (files.map Prod.fst)).data rfl
      refine ⟨.toServer (requestMessage d (files.map Prod.fst)).data, ?_⟩
      have origin : (requestMessage d (files.map Prod.fst)).origin = .starter := rfl
      simp [step, connection, upload, origin, answer]
  | answered log holds idxs indices =>
      refine ⟨.toClient (responseMessage d idxs).data, ?_⟩
      have origin : (responseMessage d idxs).origin = .verifyResponse := rfl
      simp [step, origin, client_uploads d files cache idxs ⟨[], []⟩ _ rfl indices]
  | uploading received rest split log holds =>
      cases rest with
      | nil =>
          refine ⟨.toClient (doneMessage d).data, ?_⟩
          have origin : (doneMessage d).origin = .done := rfl
          simp [step, doneAfter, origin, client_finishes d _ _ rfl]
      | cons file more =>
          obtain ⟨after, got, _⟩ := server_step d cache received more file log (fileMessage file).data rfl holds
          refine ⟨.toServer (fileMessage file).data, ?_⟩
          simp [step, got]
  | finished log holds => exact absurd rfl unfinished

-- What the upload promises of a state it can be in.
structure Agreement (files : Files) (cache : Cache) (c : Connection Cache) : Prop where
  healthy : c.failed = false
  own_file : c.serverLog.received <+: (missingFiles d files cache).map fromOrigin
  own_id : ∀ entry ∈ c.serverLog.stored, entry ∈ files
  seen : c.clientLog.seen <+: [.verifyResponse, .done]
  server_unpickles : c.serverLog.unpickled <+: [(.starter, .starter)]
  client_unpickles : c.clientLog.unpickled <+: [(.verifyResponse, .verifyResponse), (.done, .done)]
  complete : c.client = .named .andThen →
    c.clientLog.seen = [.verifyResponse, .done] ∧ c.serverLog.received = (missingFiles d files cache).map fromOrigin ∧
      (∀ file ∈ files, file.1 ∈ d.jarCache.ids c.serverLog.cache) ∧
      (∀ file ∈ missingFiles d files cache, ∃ content, (file.1, content) ∈ c.serverLog.stored) ∧
      c.server = .named .start ∧ c.toServer = [] ∧ c.toClient = []
  bounded : ∀ events final, (connection d files cache).run c events = some final → events.length ≤ work d files cache c
  finishes : ∃ events final, (connection d files cache).run c events = some final ∧ final.client = .named .andThen

theorem holds_stored (files : Files) (cache : Cache) (received : Files) (log : Server Cache)
    (part : ∀ file ∈ received, file ∈ missingFiles d files cache) (holds : Holds d cache received log)
    (entry : String × ByteString) (member : entry ∈ log.stored) : entry ∈ files :=
  ((missing_not_cached d files cache entry).mp (part entry (holds.from_client entry member))).1

theorem finished_complete (files : Files) (cache : Cache) (log : Server Cache)
    (holds : Holds d cache (missingFiles d files cache) log) :
    (∀ file ∈ files, file.1 ∈ d.jarCache.ids log.cache) ∧
      (∀ file ∈ missingFiles d files cache, ∃ content, (file.1, content) ∈ log.stored) := by
  have everyId : ∀ file ∈ files, file.1 ∈ d.jarCache.ids log.cache := by
    intro file member
    rw [holds.cached]
    by_cases before : file.1 ∈ d.jarCache.ids cache
    · exact .inl before
    · exact .inr (List.mem_map.mpr ⟨file, (missing_not_cached d files cache file).mpr ⟨member, before⟩, rfl⟩)
  refine ⟨everyId, ?_⟩
  intro file missing
  obtain ⟨member, absent⟩ := (missing_not_cached d files cache file).mp missing
  cases holds.stored file.1 (everyId file member) with
  | inl before => exact absurd before absent
  | inr here =>
      obtain ⟨entry, inStored, same⟩ := List.mem_map.mp here
      exact ⟨entry.2, same ▸ inStored⟩

theorem in_step_agreement (files : Files) (cache : Cache) (c : Connection Cache) (inStep : InStep d files cache c) :
    Agreement d files cache c := by
  have keeps : ∀ s event next, InStep d files cache s → (connection d files cache).step s event = some next →
      InStep d files cache next := fun s event next holds stepped => (step_in_step d files cache s event next holds stepped).1
  have decreases : ∀ s event next, InStep d files cache s → True → (connection d files cache).step s event = some next →
      work d files cache next < work d files cache s := by
    intro s event next holds _ stepped
    obtain ⟨after, more⟩ := step_in_step d files cache s event next holds stepped
    have bound := handled_bound d files cache next after
    simp only [work]
    omega
  have bounded : ∀ events final, (connection d files cache).run c events = some final →
      events.length ≤ work d files cache c := by
    intro events final ran
    have bound := internal_run_bounded (connection d files cache) (InStep d files cache) (fun _ => True)
      (work d files cache) keeps decreases c final events inStep (fun _ _ => trivial) ran
    omega
  have finishes : ∃ events final, (connection d files cache).run c events = some final ∧
      final.client = .named .andThen := by
    obtain ⟨events, final, _, ran, ends⟩ := internal_run_finishes (connection d files cache) (InStep d files cache)
      (fun _ => True) (fun s => s.client = .named .andThen) (work d files cache) keeps decreases
      (unfinished_enabled d files cache) c inStep
    exact ⟨events, final, ran, ends⟩
  cases inStep with
  | requested => exact ⟨rfl, by simp [connection], by simp [connection], by simp [connection], by simp [connection],
      by simp [connection], by simp [connection, upload], bounded, finishes⟩
  | answered log holds idxs indices =>
      exact ⟨rfl, by simp [holds.steps], holds_stored d files cache [] log (by simp) holds, by simp,
        by simp [holds.request], by simp, by simp, bounded, finishes⟩
  | uploading received rest split log holds =>
      have part : ∀ file ∈ received, file ∈ missingFiles d files cache := by
        intro file member
        simp [split, member]
      exact ⟨rfl, by simp [holds.steps, split], holds_stored d files cache received log part holds, by simp,
        by simp [holds.request], by simp, by simp, bounded, finishes⟩
  | finished log holds =>
      obtain ⟨everyId, everyFile⟩ := finished_complete d files cache log holds
      exact ⟨rfl, by simp [holds.steps], holds_stored d files cache _ log (fun file member => member) holds, by simp,
        by simp [holds.request], by simp, fun _ => ⟨rfl, holds.steps, everyId, everyFile, rfl, rfl, rfl⟩, bounded, finishes⟩

theorem upload_agreement (files : Files) (cache : Cache) (c : Connection Cache)
    (reached : (connection d files cache).Reachable c) : Agreement d files cache c :=
  in_step_agreement d files cache c (reachable_keeps (connection d files cache) (InStep d files cache) .requested
    (fun s event next holds stepped => (step_in_step d files cache s event next holds stepped).1) c reached)

end Parties

def listCache : JarCache (List String) where
  ids := fun cache => {id | id ∈ cache}
  contains := fun cache id => id ∈ cache
  putAsync := fun cache id => if id ∈ cache then none else some (id :: cache)
  contains_iff := by simp
  put_none := by simp
  put_some := by
    intro cache id next put
    simp only [Option.ite_none_left_eq_some, Option.some.injEq] at put
    ext other
    simp [← put.2]

-- A code for lists of lists of numbers: as many ones as the number and a zero, and a two at the end of each list.
def intoCodes (codes : List (List Nat)) : ByteString :=
  codes.flatMap (fun code => code.flatMap (fun n => List.replicate n 1 ++ [0]) ++ [2])

def readCode (b : Byte) : List (List Nat) → List (List Nat)
  | codes =>
      if b = 2 then [] :: codes
      else
        match codes with
        | [] => []
        | code :: rest =>
            if b = 0 then (0 :: code) :: rest
            else
              match code with
              | [] => [] :: rest
              | n :: code => ((n + 1) :: code) :: rest

def ofCodes (bs : ByteString) : List (List Nat) := bs.foldr readCode []

theorem read_ones (n m : Nat) (code : List Nat) (rest : List (List Nat)) :
    (List.replicate n 1).foldr readCode ((m :: code) :: rest) = ((m + n) :: code) :: rest := by
  induction n with
  | zero => rfl
  | succ n ih =>
      rw [List.replicate_succ, List.foldr_cons, ih]
      rfl

theorem read_code (code : List Nat) (rest : List (List Nat)) :
    (code.flatMap (fun n => List.replicate n 1 ++ [0])).foldr readCode ([] :: rest) = code :: rest := by
  induction code with
  | nil => rfl
  | cons n code ih =>
      have zero : readCode 0 (code :: rest) = (0 :: code) :: rest := rfl
      rw [List.flatMap_cons, List.foldr_append, ih, List.foldr_append, List.foldr_cons, List.foldr_nil, zero, read_ones,
        Nat.zero_add]

theorem of_codes (codes : List (List Nat)) : ofCodes (intoCodes codes) = codes := by
  induction codes with
  | nil => rfl
  | cons code rest ih =>
      rw [ofCodes, intoCodes] at ih ⊢
      have two : readCode 2 rest = [] :: rest := rfl
      rw [List.flatMap_cons, List.foldr_append, ih, List.foldr_append, List.foldr_cons, List.foldr_nil, two, read_code]

def codePickler {T : Type} (codes : T → List (List Nat)) (value : List (List Nat) → T)
    (inverse : ∀ t, value (codes t) = t) : Pickler T where
  intoBytes := fun t => intoCodes (codes t)
  fromBytes := fun bs => some (value (ofCodes bs))
  round_trip := fun t => by rw [of_codes, inverse]

def charCodes (s : String) : List Nat := s.toList.map Char.toNat

def ofCharCodes (codes : List Nat) : String := String.ofList (codes.map Char.ofNat)

theorem of_char_codes (s : String) : ofCharCodes (charCodes s) = s := by
  simp [ofCharCodes, charCodes, Function.comp_def]

def starterCodes : Starter → List (List Nat)
  | .query => []
  | .verifyRequest ids => [0] :: ids.map charCodes
  | .plug classRequest => [[1], charCodes classRequest]

def ofStarterCodes : List (List Nat) → Starter
  | [0] :: ids => .verifyRequest (ids.map ofCharCodes)
  | [_, classRequest] => .plug (ofCharCodes classRequest)
  | _ => .query

theorem of_starter_codes (s : Starter) : ofStarterCodes (starterCodes s) = s := by
  cases s with
  | query => rfl
  | verifyRequest ids => simp [ofStarterCodes, starterCodes, Function.comp_def, of_char_codes]
  | plug classRequest => simp [ofStarterCodes, starterCodes, of_char_codes]

def indexCodes (idxs : List Int) : List (List Nat) := idxs.map (fun idx => [idx.toNat, (-idx).toNat])

def ofIndexCodes (codes : List (List Nat)) : List Int := codes.map (fun code => code.headD 0 - code.getLastD 0)

theorem of_index_codes (idxs : List Int) : ofIndexCodes (indexCodes idxs) = idxs := by
  rw [ofIndexCodes, indexCodes, List.map_map, List.map_congr_left (g := id), List.map_id]
  intro idx _
  change (idx.toNat : Int) - (-idx).toNat = idx
  omega

def listDeployment : Deployment (List String) where
  jarCache := listCache
  starter := codePickler starterCodes ofStarterCodes of_starter_codes
  verifyResponse := codePickler indexCodes ofIndexCodes of_index_codes
  done := codePickler (fun _ => []) (fun _ => ()) (fun _ => rfl)
  queryResponse := .completed []
  performPlug := fun _ => true

-- The server has two of the three files when the third one is on its way.
theorem upload_agreement_example :
    ∃ c, ((connection listDeployment [("a", [1]), ("b", [2]), ("b", [3]), ("c", [4])] ["a"]).Reachable c ∧
        c.client = .named .uploading ∧ c.serverLog.stored = [("b", [2])] ∧ c.toServer = [fileMessage ("c", [4])]) ∧
      Agreement listDeployment [("a", [1]), ("b", [2]), ("b", [3]), ("c", [4])] ["a"] c := by
  let files : Files := [("a", [1]), ("b", [2]), ("b", [3]), ("c", [4])]
  let events : List Event :=
    [.toServer (requestMessage listDeployment (files.map Prod.fst)).data, .toClient (responseMessage listDeployment [1, 2, 3]).data,
     .toServer (fromPath [2]), .toServer (.completed [[], [3]])]
  have ran : ((connection listDeployment files ["a"]).run (connection listDeployment files ["a"]).initial events).map
      (fun c => (c.client, c.serverLog.stored, c.toServer)) =
      some (.named .uploading, [("b", [2])], [fileMessage ("c", [4])]) := by decide +kernel
  obtain ⟨c, run, outcome⟩ := Option.map_eq_some_iff.mp ran
  obtain ⟨client, rest⟩ := Prod.mk.inj outcome
  have reached : (connection listDeployment files ["a"]).Reachable c := ⟨events, run⟩
  exact ⟨c, ⟨reached, client, Prod.mk.inj rest⟩, upload_agreement listDeployment files ["a"] c reached⟩

end Toolbox8.JarTreeStandalone
