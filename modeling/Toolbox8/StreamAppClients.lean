import Toolbox8.Base.Parties
import Toolbox8.StreamAppHandshake

set_option autoImplicit false

namespace Toolbox8.StreamAppClients

open Base StreamApp StreamAppClient

-- The cache directory with the transfers of all connections, and the connection of each.
structure Cache where
  files : FileName → Option ByteString
  transfers : List Transfer
  owners : List Nat

-- One client and its StreamAppThread with what is on the wire between the two.
structure Connection where
  client : Client
  toServer : List Item
  phase : Phase
  toClient : List Answer
  sent : List JarKey
  confirmed : List JarKey

-- A thread sees the directory and itself, and so the two are a handshake over that directory.
def Cache.world (cache : Cache) (phase : Phase) : World := ⟨cache.files, cache.transfers, fun _ => phase⟩

def Cache.handshake (cache : Cache) (p : Connection) : Handshake :=
  ⟨p.client, p.toServer, cache.world p.phase, p.toClient, p.sent, p.confirmed⟩

def Cache.take (cache : Cache) (index : Nat) (w : World) : Cache :=
  ⟨w.files, w.transfers, cache.owners ++ List.replicate (w.transfers.length - cache.transfers.length) index⟩

def connectionOf (s : Handshake) : Connection :=
  ⟨s.client, s.toServer, s.world.threads conn, s.toClient, s.sent, s.confirmed⟩

section Clients

variable (jars : Nat → List JarKey) (resolveFile : Nat → JarKey → ByteString) (files : FileName → Option ByteString)

def act (index : Nat) (cache : Cache) (p : Connection) (turn : Turn) : Option (Cache × Connection) :=
  ((handshake (jars index) (resolveFile index) files).step (cache.handshake p) turn).map
    (fun s => (cache.take index s.world, connectionOf s))

-- So many clients at once, each with its own putCacheMulti.
def start (n : Nat) : Joint Cache Connection :=
  ⟨⟨files, [], []⟩, List.replicate n ⟨.verify, [], .idle, [], [], []⟩⟩

def clients (n : Nat) : Machine (Joint Cache Connection) (Nat × Turn) :=
  joint (act jars resolveFile files) (start files n)

-- No file is taken twice, and none that was there before.
structure Consistent (n : Nat) (cache : Cache) : Prop where
  owners : cache.owners.length = cache.transfers.length
  once : (cache.transfers.map Transfer.file).Nodup
  stored : ∀ t ∈ cache.transfers, cache.files t.file = some t.received ∧ files t.file = none
  others : ∀ file, file ∉ cache.transfers.map Transfer.file → cache.files file = files file
  sources : ∀ (i : Nat) (t : Transfer), cache.transfers[i]? = some t → ∃ owner k, cache.owners[i]? = some owner ∧
    owner < n ∧ k ∈ jars owner ∧ t.file = cacheFile k ∧ t.received <+: resolveFile owner k

-- What the others leave to a connection: its own transfers, and the files that are there.
structure Rely (index : Nat) (before after : Cache) : Prop where
  kept : ∀ (i : Nat) (t : Transfer), before.transfers[i]? = some t → before.owners[i]? = some index →
    after.transfers[i]? = some t
  owners : before.owners <+: after.owners
  mine : ∀ i : Nat, after.owners[i]? = some index → before.owners[i]? = some index
  files : ∀ file, before.files file ≠ none → after.files file ≠ none
  named : ∀ (i : Nat) (t : Transfer), before.transfers[i]? = some t →
    ∃ later, after.transfers[i]? = some later ∧ later.file = t.file

-- The transfers of a connection are those of the keys that are stored and the one that is going on.
structure Owns (index : Nat) (cache : Cache) (stored : List JarKey) (current : Option Nat) : Prop where
  whole : ∀ k ∈ stored, ∃ (i : Nat) (t : Transfer), cache.transfers[i]? = some t ∧ cache.owners[i]? = some index ∧
    t.file = cacheFile k ∧ t.received = resolveFile index k ∧ current ≠ some i
  mine : ∀ (i : Nat) (t : Transfer), cache.transfers[i]? = some t → cache.owners[i]? = some index →
    current = some i ∨ ∃ k ∈ stored, t.file = cacheFile k

-- Another request has created the file first, one of another client or one for a key with the same file.
def Lost (index : Nat) (cache : Cache) (stored : List JarKey) (k : JarKey) : Prop :=
  ∃ (i : Nat) (t : Transfer) (owner : Nat), cache.transfers[i]? = some t ∧ cache.owners[i]? = some owner ∧
    t.file = cacheFile k ∧ (owner ≠ index ∨ ∃ other ∈ stored, cacheFile other = cacheFile k)

def Toward (index : Nat) (cache : Cache) (left : List JarKey) : Prop :=
  ∀ k ∈ jars index, cache.files (cacheFile k) ≠ none ∨ k ∈ left

-- The keys of a VerifyCacheRequest that have been looked at and those of them that were found missing.
structure Looked (cache : Cache) (again : Bool) (front found : List JarKey) : Prop where
  missing : found.Sublist (missingKeys front files)
  cached : ∀ k ∈ front, cache.files (cacheFile k) ≠ none ∨ k ∈ found
  again : again = true → found = []

inductive Asking (index : Nat) (cache : Cache) (again : Bool) : Phase → List Item → List Answer → Prop where
  | asked : Asking index cache again .idle [.object (.verifyCacheRequest (jars index))] []
  | checking (front todo found : List JarKey) (split : jars index = front ++ todo)
      (looked : Looked files cache again front found) :
      Asking index cache again (.verifying (jars index) todo found) [] []
  | answered (found : List JarKey) (looked : Looked files cache again (jars index) found) :
      Asking index cache again .idle [] [.verifyCacheResponse found]

-- The thread with the PutCacheRequest for k; pending is what it has not read of the file.
inductive Uploading (index : Nat) (cache : Cache) (before : List JarKey) (k : JarKey) (rest : List JarKey) :
    Phase → ByteString → List Item → List Answer → Prop where
  | requested (owns : Owns resolveFile index cache before none) (toward : Toward jars index cache (k :: rest)) :
      Uploading index cache before k rest .idle (resolveFile index k)
        [.object (.putCacheRequest (putRequest (resolveFile index) k))] []
  | creating (owns : Owns resolveFile index cache before none) (toward : Toward jars index cache (k :: rest)) :
      Uploading index cache before k rest (.putting (putRequest (resolveFile index) k)) (resolveFile index k) [] []
  | opening (i : Nat) (t : Transfer) (found : cache.transfers[i]? = some t) (mine : cache.owners[i]? = some index)
      (named : t.file = cacheFile k) (fresh : t.received = []) (size : t.size = (resolveFile index k).length)
      (owns : Owns resolveFile index cache before (some i)) (toward : Toward jars index cache rest) :
      Uploading index cache before k rest (.opening i) (resolveFile index k) [] []
  | copying (i : Nat) (t : Transfer) (pending : ByteString) (found : cache.transfers[i]? = some t)
      (mine : cache.owners[i]? = some index) (named : t.file = cacheFile k)
      (split : t.received ++ pending = resolveFile index k) (size : t.size = (resolveFile index k).length)
      (owns : Owns resolveFile index cache before (some i)) (toward : Toward jars index cache rest) :
      Uploading index cache before k rest (.copying i) pending [] []
  | replying (owns : Owns resolveFile index cache (before ++ [k]) none) (toward : Toward jars index cache rest) :
      Uploading index cache before k rest .replying [] [] []
  | confirmed (owns : Owns resolveFile index cache (before ++ [k]) none) (toward : Toward jars index cache rest) :
      Uploading index cache before k rest .idle [] [] [.done]

-- Where a client and its thread can be together, whatever the other clients do.
inductive Together (index : Nat) (cache : Cache) : Connection → Prop where
  | started (owns : Owns resolveFile index cache [] none) : Together index cache ⟨.verify, [], .idle, [], [], []⟩
  | asking (phase : Phase) (items : List Item) (answers : List Answer)
      (asks : Asking jars files index cache false phase items answers) (owns : Owns resolveFile index cache [] none) :
      Together index cache ⟨.verifying, items, phase, answers, [], []⟩
  | putting (before left : List JarKey) (listed : (before ++ left).Sublist (missingKeys (jars index) files))
      (owns : Owns resolveFile index cache before none) (toward : Toward jars index cache left) :
      Together index cache ⟨.putting left, [], .idle, [], before, before⟩
  | uploading (before rest : List JarKey) (k : JarKey) (client : Client) (left queued : ByteString) (phase : Phase)
      (front : List Item) (answers : List Answer)
      (listed : (before ++ k :: rest).Sublist (missingKeys (jars index) files))
      (uploads : Uploading jars resolveFile index cache before k rest phase (queued ++ left) front answers)
      (sends : Sending k rest client left) :
      Together index cache ⟨client, front ++ queued.map .byte, phase, answers, before ++ [k], before⟩
  | askingAgain (keys : List JarKey) (phase : Phase) (items : List Item) (answers : List Answer)
      (asks : Asking jars files index cache true phase items answers) (owns : Owns resolveFile index cache keys none)
      (toward : Toward jars index cache []) (listed : keys.Sublist (missingKeys (jars index) files)) :
      Together index cache ⟨.verifyingAgain, items, phase, answers, keys, keys⟩
  | finished (keys : List JarKey) (owns : Owns resolveFile index cache keys none) (toward : Toward jars index cache [])
      (listed : keys.Sublist (missingKeys (jars index) files)) :
      Together index cache ⟨.finished [], [], .idle, [], keys, keys⟩
  | refused (before rest : List JarKey) (k : JarKey) (client : Client) (left : ByteString) (items : List Item)
      (listed : (before ++ k :: rest).Sublist (missingKeys (jars index) files))
      (owns : Owns resolveFile index cache before none) (lost : Lost index cache before k)
      (sends : client = .failed ∨ Sending k rest client left) :
      Together index cache ⟨client, items, .stopped, [], before ++ [k], before⟩

-- What one step of a connection can do to the directory.
inductive Effect (index : Nat) (cache : Cache) : Cache → Prop where
  | same : Effect index cache cache
  | create (k : JarKey) (job : k ∈ jars index) (t : Transfer) (named : t.file = cacheFile k) (fresh : t.received = [])
      (new : cache.files t.file = none) :
      Effect index cache ⟨Function.update cache.files t.file (some []), cache.transfers ++ [t], cache.owners ++ [index]⟩
  | append (k : JarKey) (job : k ∈ jars index) (i : Nat) (t later : Transfer) (found : cache.transfers[i]? = some t)
      (mine : cache.owners[i]? = some index) (named : t.file = cacheFile k) (same : later.file = t.file)
      (part : later.received <+: resolveFile index k) :
      Effect index cache
        ⟨Function.update cache.files t.file (some later.received), cache.transfers.set i later, cache.owners⟩

section Effects

variable (n index : Nat) (cache after : Cache)

theorem rely_of_effect (other : Nat) (different : other ≠ index) (effect : Effect jars resolveFile index cache after) :
    Rely other cache after := by
  cases effect with
  | same => exact ⟨fun _ _ found _ => found, List.prefix_rfl, fun _ mine => mine, fun _ there => there,
      fun _ t found => ⟨t, found, rfl⟩⟩
  | create k job t named fresh new =>
      refine ⟨fun i u found _ => get_of_concat _ t u i found, List.prefix_append _ _, fun i mine => ?_, fun file there => ?_,
        fun i u found => ⟨u, get_of_concat _ t u i found, rfl⟩⟩
      · exact (get_concat _ _ _ i mine).resolve_right (fun added => different added.2)
      · by_cases same : file = t.file
        · exact absurd (same ▸ new) there
        · simpa [same] using there
  | append k job i t later found mine named same part =>
      refine ⟨fun j u there owned => ?_, List.prefix_rfl, fun _ owned => owned, fun file there => ?_, fun j u there => ?_⟩
      · have apart : i ≠ j := fun equal => different (Option.some.inj ((equal ▸ mine).symm.trans owned)).symm
        rwa [List.getElem?_set_ne apart]
      · by_cases equal : file = t.file
        · simp [equal]
        · simpa [equal] using there
      · by_cases equal : i = j
        · subst equal
          obtain rfl := Option.some.inj (found.symm.trans there)
          exact ⟨later, List.getElem?_set_self (List.getElem?_eq_some_iff.mp found).1, same⟩
        · exact ⟨u, by rwa [List.getElem?_set_ne equal], rfl⟩

theorem taken_file (consistent : Consistent jars resolveFile files n cache) (file : FileName)
    (there : cache.files file ≠ none) (before : files file = none) :
    ∃ (i : Nat) (t : Transfer) (owner : Nat), cache.transfers[i]? = some t ∧ cache.owners[i]? = some owner ∧ t.file = file := by
  have taken : file ∈ cache.transfers.map Transfer.file := by
    by_contra other
    rw [consistent.others file other] at there
    exact there before
  obtain ⟨t, member, rfl⟩ := List.mem_map.mp taken
  obtain ⟨i, found⟩ := List.getElem?_of_mem member
  obtain ⟨owner, _, owned, _⟩ := consistent.sources i t found
  exact ⟨i, t, owner, found, owned, rfl⟩

theorem create_consistent (short : index < n) (consistent : Consistent jars resolveFile files n cache) (k : JarKey)
    (job : k ∈ jars index) (t : Transfer) (named : t.file = cacheFile k) (fresh : t.received = [])
    (new : cache.files t.file = none) :
    Consistent jars resolveFile files n
      ⟨Function.update cache.files t.file (some []), cache.transfers ++ [t], cache.owners ++ [index]⟩ := by
  have absent : t.file ∉ cache.transfers.map Transfer.file := by
    intro taken
    obtain ⟨u, member, same⟩ := List.mem_map.mp taken
    have stored := (consistent.stored u member).1
    rw [same, new] at stored
    exact Option.some_ne_none _ stored.symm
  refine ⟨by simp [consistent.owners], ?_, fun u member => ?_, fun file other => ?_, fun i u found => ?_⟩
  · rw [List.map_append, List.map_singleton, List.nodup_append]
    refine ⟨consistent.once, List.nodup_singleton _, fun file taken other same => ?_⟩
    rw [List.mem_singleton] at same
    rintro rfl
    exact absent (same ▸ taken)
  · rcases List.mem_append.mp member with old | added
    · have apart : u.file ≠ t.file := fun same => absent (same ▸ List.mem_map_of_mem old)
      simpa [apart] using consistent.stored u old
    · rw [List.mem_singleton] at added
      subst added
      rw [fresh]
      exact ⟨Function.update_self _ _ _, (consistent.others _ absent).symm.trans new⟩
  · rw [List.map_append, List.mem_append, not_or] at other
    have apart : file ≠ t.file := fun same => other.2 (by simp [same])
    simpa [apart] using consistent.others file other.1
  · rcases get_concat _ _ _ i found with old | ⟨rfl, rfl⟩
    · obtain ⟨owner, key, owned, rest⟩ := consistent.sources i u old
      exact ⟨owner, key, get_of_concat _ _ _ i owned, rest⟩
    · refine ⟨index, k, ?_, short, job, named, fresh ▸ List.nil_prefix⟩
      rw [← consistent.owners, List.getElem?_concat_length]

theorem append_consistent (short : index < n) (consistent : Consistent jars resolveFile files n cache) (k : JarKey)
    (job : k ∈ jars index) (i : Nat) (t later : Transfer) (found : cache.transfers[i]? = some t)
    (mine : cache.owners[i]? = some index) (named : t.file = cacheFile k) (same : later.file = t.file)
    (part : later.received <+: resolveFile index k) :
    Consistent jars resolveFile files n
      ⟨Function.update cache.files t.file (some later.received), cache.transfers.set i later, cache.owners⟩ := by
  have names := map_set_same Transfer.file cache.transfers i t later found same
  refine ⟨by simp [consistent.owners], by rw [names]; exact consistent.once, fun u member => ?_, fun file other => ?_,
    fun j u there => ?_⟩
  · rcases mem_set_distinct Transfer.file _ i t later u consistent.once found member with rfl | ⟨old, apart⟩
    · rw [same]
      exact ⟨Function.update_self _ _ _, (consistent.stored t (List.mem_of_getElem? found)).2⟩
    · simpa [apart] using consistent.stored u old
  · rw [names] at other
    have apart : file ≠ t.file := fun equal => other (equal ▸ List.mem_map_of_mem (List.mem_of_getElem? found))
    simpa [apart] using consistent.others file other
  · by_cases equal : i = j
    · subst equal
      rw [List.getElem?_set_self (List.getElem?_eq_some_iff.mp found).1, Option.some.injEq] at there
      subst there
      exact ⟨index, k, mine, short, job, same.trans named, part⟩
    · rw [List.getElem?_set_ne equal] at there
      exact consistent.sources j u there

theorem effect_consistent (short : index < n) (consistent : Consistent jars resolveFile files n cache)
    (effect : Effect jars resolveFile index cache after) : Consistent jars resolveFile files n after := by
  cases effect with
  | same => exact consistent
  | create k job t named fresh new =>
      exact create_consistent jars resolveFile files n index cache short consistent k job t named fresh new
  | append k job i t later found mine named same part =>
      exact append_consistent jars resolveFile files n index cache short consistent k job i t later found mine named same part

end Effects

section Others

variable (index : Nat) (before after : Cache) (rely : Rely index before after)

include rely

theorem rely_owners (i owner : Nat) (owned : before.owners[i]? = some owner) : after.owners[i]? = some owner := by
  obtain ⟨more, same⟩ := rely.owners
  rw [← same, List.getElem?_append_left (List.getElem?_eq_some_iff.mp owned).1, owned]

theorem owns_stable (lengths : before.owners.length = before.transfers.length) (stored : List JarKey) (current : Option Nat)
    (owns : Owns resolveFile index before stored current) : Owns resolveFile index after stored current := by
  refine ⟨fun k member => ?_, fun i t found mine => ?_⟩
  · obtain ⟨i, t, found, mine, rest⟩ := owns.whole k member
    exact ⟨i, t, rely.kept i t found mine, rely_owners index before after rely i index mine, rest⟩
  · have owned := rely.mine i mine
    have short : i < before.transfers.length := by
      rw [← lengths]
      exact (List.getElem?_eq_some_iff.mp owned).1
    have there := List.getElem?_eq_getElem short
    obtain rfl := Option.some.inj ((rely.kept i _ there owned).symm.trans found)
    exact owns.mine i _ there owned

theorem toward_stable (left : List JarKey) (toward : Toward jars index before left) : Toward jars index after left :=
  fun k member => (toward k member).imp_left (rely.files (cacheFile k))

theorem looked_stable (again : Bool) (front found : List JarKey) (looked : Looked files before again front found) :
    Looked files after again front found :=
  ⟨looked.missing, fun k member => (looked.cached k member).imp_left (rely.files (cacheFile k)), looked.again⟩

theorem lost_stable (stored : List JarKey) (k : JarKey) (lost : Lost index before stored k) : Lost index after stored k := by
  obtain ⟨i, t, owner, found, owned, named, other⟩ := lost
  obtain ⟨later, there, same⟩ := rely.named i t found
  exact ⟨i, later, owner, there, rely_owners index before after rely i owner owned, same.trans named, other⟩

theorem asking_stable (again : Bool) (phase : Phase) (items : List Item) (answers : List Answer)
    (asks : Asking jars files index before again phase items answers) :
    Asking jars files index after again phase items answers := by
  cases asks with
  | asked => exact .asked
  | checking front todo found split looked =>
      exact .checking front todo found split (looked_stable files index before after rely again front found looked)
  | answered found looked => exact .answered found (looked_stable files index before after rely again _ found looked)

theorem uploading_stable (lengths : before.owners.length = before.transfers.length) (stored : List JarKey) (k : JarKey)
    (rest : List JarKey) (phase : Phase) (pending : ByteString) (front : List Item) (answers : List Answer)
    (uploads : Uploading jars resolveFile index before stored k rest phase pending front answers) :
    Uploading jars resolveFile index after stored k rest phase pending front answers := by
  have own := owns_stable resolveFile index before after rely lengths
  have goes := toward_stable jars index before after rely
  cases uploads with
  | requested owns toward => exact .requested (own _ _ owns) (goes _ toward)
  | creating owns toward => exact .creating (own _ _ owns) (goes _ toward)
  | opening i t found mine named fresh size owns toward =>
      exact .opening i t (rely.kept i t found mine) (rely_owners index before after rely i index mine) named fresh size
        (own _ _ owns) (goes _ toward)
  | copying i t pending found mine named split size owns toward =>
      exact .copying i t pending (rely.kept i t found mine) (rely_owners index before after rely i index mine) named split size
        (own _ _ owns) (goes _ toward)
  | replying owns toward => exact .replying (own _ _ owns) (goes _ toward)
  | confirmed owns toward => exact .confirmed (own _ _ owns) (goes _ toward)

theorem together_stable (lengths : before.owners.length = before.transfers.length) (p : Connection)
    (together : Together jars resolveFile files index before p) : Together jars resolveFile files index after p := by
  have own := owns_stable resolveFile index before after rely lengths
  have goes := toward_stable jars index before after rely
  cases together with
  | started owns => exact .started (own _ _ owns)
  | asking phase items answers asks owns =>
      exact .asking phase items answers (asking_stable jars files index before after rely _ _ _ _ asks) (own _ _ owns)
  | putting stored left listed owns toward => exact .putting stored left listed (own _ _ owns) (goes _ toward)
  | uploading stored rest k client left queued phase front answers listed uploads sends =>
      exact .uploading stored rest k client left queued phase front answers listed
        (uploading_stable jars resolveFile index before after rely lengths _ _ _ _ _ _ _ uploads) sends
  | askingAgain keys phase items answers asks owns toward listed =>
      exact .askingAgain keys phase items answers (asking_stable jars files index before after rely _ _ _ _ asks)
        (own _ _ owns) (goes _ toward) listed
  | finished keys owns toward listed => exact .finished keys (own _ _ owns) (goes _ toward) listed
  | refused stored rest k client left items listed owns lost sends =>
      exact .refused stored rest k client left items listed (own _ _ owns) (lost_stable index before after rely _ k lost) sends

end Others

@[simp] theorem world_files (cache : Cache) (phase : Phase) : (cache.world phase).files = cache.files := rfl

@[simp] theorem world_transfers (cache : Cache) (phase : Phase) : (cache.world phase).transfers = cache.transfers := rfl

theorem take_set_phase (index : Nat) (cache : Cache) (before phase : Phase) :
    cache.take index ((cache.world before).setPhase conn phase) = cache := by
  simp [Cache.take, World.setPhase]

theorem take_same (index : Nat) (cache : Cache) (phase : Phase) : cache.take index (cache.world phase) = cache := by
  simp [Cache.take]

section Turns

variable (n index : Nat) (cache : Cache) (next : Handshake)

theorem not_there (consistent : Consistent jars resolveFile files n cache) (file : FileName) (absent : cache.files file = none) :
    files file = none := by
  rw [← consistent.others file, absent]
  intro taken
  obtain ⟨t, member, rfl⟩ := List.mem_map.mp taken
  exact Option.some_ne_none _ ((consistent.stored t member).1.symm.trans absent)

theorem missing_keys_append (front : List JarKey) (k : JarKey) :
    missingKeys (front ++ [k]) files = missingKeys front files ++ (if (files (cacheFile k)).isSome then [] else [k]) := by
  cases there : files (cacheFile k) <;> simp [missingKeys, missing, cacheBefore, World.exists, there]

theorem looked_more (consistent : Consistent jars resolveFile files n cache) (again : Bool) (front found : List JarKey)
    (k : JarKey) (job : k ∈ jars index) (looked : Looked files cache again front found)
    (all : again = true → Toward jars index cache []) (phase : Phase) :
    Looked files cache again (front ++ [k]) (if (cache.world phase).exists k then found else found ++ [k]) := by
  cases there : cache.files (cacheFile k) with
  | some content =>
      simp only [World.exists, world_files, there, Option.isSome_some, if_true]
      refine ⟨?_, fun other member => ?_, looked.again⟩
      · rw [missing_keys_append]
        exact looked.missing.trans (List.sublist_append_left _ _)
      · rcases List.mem_append.mp member with old | added
        · exact looked.cached other old
        · rw [List.mem_singleton] at added
          exact .inl (by simp [added, there])
  | none =>
      simp only [World.exists, world_files, there, Option.isSome_none, Bool.false_eq_true, if_false]
      refine ⟨?_, fun other member => ?_, fun second => ?_⟩
      · rw [missing_keys_append, not_there jars resolveFile files n cache consistent _ there]
        simpa using looked.missing
      · rcases List.mem_append.mp member with old | added
        · exact (looked.cached other old).imp_right (List.mem_append_left _)
        · exact .inr (List.mem_append_right _ added)
      · exact absurd there ((all second k job).resolve_right List.not_mem_nil)

-- What a turn leaves of a connection, where the directory stays as it is.
def Stays (p : Connection) (phase : Phase) (items : List Item) (answers : List Answer) : Prop :=
  cache.take index next.world = cache ∧
    connectionOf next = { p with toServer := items, phase := phase, toClient := answers }

theorem asking_turn (consistent : Consistent jars resolveFile files n cache) (again : Bool)
    (all : again = true → Toward jars index cache []) (p : Connection)
    (asks : Asking jars files index cache again p.phase p.toServer p.toClient)
    (stepped : serverStep (cache.handshake p) = some next) :
    ∃ phase items answers, Stays index cache next p phase items answers ∧
      Asking jars files index cache again phase items answers := by
  obtain ⟨client, toServer, phase, toClient, sent, confirmed⟩ := p
  dsimp only at asks
  cases asks with
  | asked =>
      rw [server_receive _ _ [] rfl rfl] at stepped
      cases stepped
      exact ⟨_, _, _, ⟨take_set_phase index cache _ _, rfl⟩,
        .checking [] (jars index) [] rfl ⟨List.nil_sublist _, by simp, fun _ => rfl⟩⟩
  | checking front todo found split looked =>
      cases todo with
      | nil =>
          rw [server_respond _ _ _ rfl] at stepped
          cases stepped
          rw [List.append_nil] at split
          exact ⟨_, _, _, ⟨take_set_phase index cache _ _, rfl⟩, .answered found (split ▸ looked)⟩
      | cons k todo =>
          rw [server_check _ _ _ _ _ rfl] at stepped
          cases stepped
          have job : k ∈ jars index := by simp [split]
          exact ⟨_, _, _, ⟨take_set_phase index cache _ _, rfl⟩,
            .checking (front ++ [k]) todo _ (by rw [split, List.append_assoc]; rfl)
              (looked_more jars resolveFile files n index cache consistent again front found k job looked all _)⟩
  | answered found looked =>
      rw [server_blocked _ rfl rfl] at stepped
      cases stepped

theorem owns_create (lengths : cache.owners.length = cache.transfers.length) (stored : List JarKey) (t : Transfer)
    (content : FileName → Option ByteString) (owns : Owns resolveFile index cache stored none) :
    Owns resolveFile index ⟨content, cache.transfers ++ [t], cache.owners ++ [index]⟩ stored (some cache.transfers.length) := by
  refine ⟨fun k member => ?_, fun i u found mine => ?_⟩
  · obtain ⟨i, u, found, mine, named, whole, _⟩ := owns.whole k member
    have short := (List.getElem?_eq_some_iff.mp found).1
    refine ⟨i, u, get_of_concat _ t u i found, get_of_concat _ index index i mine, named, whole, ?_⟩
    rw [ne_eq, Option.some.injEq]
    omega
  · rcases get_concat _ _ _ i found with old | ⟨rfl, _⟩
    · have short := (List.getElem?_eq_some_iff.mp old).1
      rcases get_concat _ _ _ i mine with before | ⟨same, _⟩
      · exact .inr ((owns.mine i u old before).resolve_left (Option.some_ne_none i).symm)
      · omega
    · exact .inl rfl

theorem owns_append (stored : List JarKey) (i : Nat) (later : Transfer) (content : FileName → Option ByteString)
    (owns : Owns resolveFile index cache stored (some i)) :
    Owns resolveFile index ⟨content, cache.transfers.set i later, cache.owners⟩ stored (some i) := by
  refine ⟨fun k member => ?_, fun j u there mine => ?_⟩
  · obtain ⟨j, u, there, mine, named, whole, other⟩ := owns.whole k member
    have apart : i ≠ j := fun equal => other (congrArg some equal)
    exact ⟨j, u, by rwa [List.getElem?_set_ne apart], mine, named, whole, other⟩
  · by_cases equal : i = j
    · exact .inl (congrArg some equal)
    · rw [List.getElem?_set_ne equal] at there
      exact owns.mine j u there mine

theorem owns_stored (before : List JarKey) (k : JarKey) (i : Nat) (t : Transfer) (found : cache.transfers[i]? = some t)
    (mine : cache.owners[i]? = some index) (named : t.file = cacheFile k) (whole : t.received = resolveFile index k)
    (owns : Owns resolveFile index cache before (some i)) : Owns resolveFile index cache (before ++ [k]) none := by
  refine ⟨fun other member => ?_, fun j u there owned => .inr ?_⟩
  · rcases List.mem_append.mp member with old | added
    · obtain ⟨j, u, there, owned, same, content, _⟩ := owns.whole other old
      exact ⟨j, u, there, owned, same, content, Option.some_ne_none j |>.symm⟩
    · rw [List.mem_singleton] at added
      subst added
      exact ⟨i, t, found, mine, named, whole, Option.some_ne_none i |>.symm⟩
  · rcases owns.mine j u there owned with same | ⟨other, member, same⟩
    · obtain rfl := Option.some.inj same
      obtain rfl := Option.some.inj (found.symm.trans there)
      exact ⟨k, by simp, named⟩
    · exact ⟨other, List.mem_append_left _ member, same⟩

theorem refused_lost (consistent : Consistent jars resolveFile files n cache) (before rest : List JarKey) (k : JarKey)
    (listed : (before ++ k :: rest).Sublist (missingKeys (jars index) files))
    (owns : Owns resolveFile index cache before none) (old : cache.files (cacheFile k) ≠ none) : Lost index cache before k := by
  have absent : files (cacheFile k) = none := by
    have member := listed.subset (show k ∈ before ++ k :: rest by simp)
    simpa [missingKeys, missing, cacheBefore, World.exists] using (List.mem_filter.mp member).2
  obtain ⟨i, t, owner, found, owned, named⟩ := taken_file jars resolveFile files n cache consistent _ old absent
  refine ⟨i, t, owner, found, owned, named, ?_⟩
  by_cases mine : owner = index
  · subst mine
    obtain ⟨other, member, same⟩ := (owns.mine i t found owned).resolve_left (Option.some_ne_none i).symm
    exact .inr ⟨other, member, same.symm.trans named⟩
  · exact .inl mine

theorem missing_job (before rest : List JarKey) (k : JarKey)
    (listed : (before ++ k :: rest).Sublist (missingKeys (jars index) files)) : k ∈ jars index :=
  List.mem_of_mem_filter (listed.subset (show k ∈ before ++ k :: rest by simp))

theorem toward_created (content : FileName → Option ByteString) (transfers : List Transfer) (owners : List Nat)
    (rest : List JarKey) (k : JarKey) (there : content (cacheFile k) ≠ none)
    (kept : ∀ file, cache.files file ≠ none → content file ≠ none) (toward : Toward jars index cache (k :: rest)) :
    Toward jars index ⟨content, transfers, owners⟩ rest := by
  intro other job
  rcases toward other job with cached | left
  · exact .inl (kept _ cached)
  · rcases List.mem_cons.mp left with rfl | later
    · exact .inl there
    · exact .inr later

theorem of_stays (same : cache.take index next.world = cache)
    (together : Together jars resolveFile files index cache (connectionOf next)) :
    Effect jars resolveFile index cache (cache.take index next.world) ∧
      Together jars resolveFile files index (cache.take index next.world) (connectionOf next) := by
  rw [same]
  exact ⟨.same, together⟩

theorem take_create (p : PutCacheRequest) (before phase : Phase) :
    cache.take index (((cache.world before).create p).setPhase conn phase) =
      ⟨Function.update cache.files (cacheFile p.jarKey) (some []), cache.transfers ++ [⟨cacheFile p.jarKey, p.size, []⟩],
        cache.owners ++ [index]⟩ := by
  simp [Cache.take, World.setPhase, World.create, World.write]

theorem take_open (consistent : Consistent jars resolveFile files n cache) (i : Nat) (t : Transfer)
    (found : cache.transfers[i]? = some t) (fresh : t.received = []) (before phase : Phase) :
    cache.take index (((cache.world before).write t.file []).setPhase conn phase) = cache := by
  have stored := (consistent.stored t (List.mem_of_getElem? found)).1
  rw [fresh] at stored
  have same : Function.update cache.files t.file (some []) = cache.files := by
    rw [← stored, Function.update_eq_self]
  simp [Cache.take, World.setPhase, World.write, same]

theorem take_append (consistent : Consistent jars resolveFile files n cache) (i : Nat) (t : Transfer)
    (found : cache.transfers[i]? = some t) (b : Byte) (before : Phase) :
    cache.take index ((cache.world before).append i t b) =
      ⟨Function.update cache.files t.file (some (t.received ++ [b])),
        cache.transfers.set i { t with received := t.received ++ [b] }, cache.owners⟩ := by
  have stored := (consistent.stored t (List.mem_of_getElem? found)).1
  simp [Cache.take, World.append, World.write, stored]

theorem creating_turn (consistent : Consistent jars resolveFile files n cache) (before rest : List JarKey) (k : JarKey)
    (client : Client) (left queued : ByteString) (listed : (before ++ k :: rest).Sublist (missingKeys (jars index) files))
    (content : queued ++ left = resolveFile index k) (owns : Owns resolveFile index cache before none)
    (toward : Toward jars index cache (k :: rest)) (sends : Sending k rest client left)
    (stepped : serverStep (cache.handshake ⟨client, queued.map .byte, .putting (putRequest (resolveFile index) k), [],
      before ++ [k], before⟩) = some next) :
    Effect jars resolveFile index cache (cache.take index next.world) ∧
      Together jars resolveFile files index (cache.take index next.world) (connectionOf next) := by
  have job := missing_job jars files index before rest k listed
  by_cases absent : cache.files (cacheFile k) = none
  · rw [server_create _ (putRequest (resolveFile index) k) rfl (Option.isSome_eq_false_iff.mpr (by
      rw [Option.isNone_iff_eq_none]; exact absent))] at stepped
    cases stepped
    have created := take_create index cache (putRequest (resolveFile index) k)
      (.putting (putRequest (resolveFile index) k)) (.opening cache.transfers.length)
    constructor
    · exact created ▸ .create k job ⟨cacheFile k, (resolveFile index k).length, []⟩ rfl rfl absent
    · have uploads : Uploading jars resolveFile index
          (cache.take index (((cache.world (.putting (putRequest (resolveFile index) k))).create
            (putRequest (resolveFile index) k)).setPhase conn (.opening cache.transfers.length)))
          before k rest (.opening cache.transfers.length) (queued ++ left) [] [] := by
        rw [created, content]
        refine .opening cache.transfers.length ⟨cacheFile k, (resolveFile index k).length, []⟩ List.getElem?_concat_length ?_
          rfl rfl rfl (owns_create resolveFile index cache consistent.owners before _ _ owns)
          (toward_created jars index cache _ _ _ rest k ?_ (fun file there => ?_) toward)
        · rw [← consistent.owners, List.getElem?_concat_length]
        · simp [putRequest]
        · by_cases same : file = cacheFile k
          · simp [putRequest, same]
          · simpa [putRequest, same] using there
      exact .uploading before rest k client left queued _ [] [] listed uploads sends
  · rw [server_refuse _ (putRequest (resolveFile index) k) rfl (Option.isSome_iff_ne_none.mpr absent)] at stepped
    cases stepped
    exact of_stays jars resolveFile files index cache _ (take_set_phase index cache _ _)
      (.refused before rest k client left _ listed owns
        (refused_lost jars resolveFile files n index cache consistent before rest k listed owns absent) (.inr sends))

theorem copying_turn (consistent : Consistent jars resolveFile files n cache) (before rest : List JarKey) (k : JarKey)
    (client : Client) (left queued : ByteString) (b : Byte) (i : Nat) (t : Transfer)
    (listed : (before ++ k :: rest).Sublist (missingKeys (jars index) files)) (found : cache.transfers[i]? = some t)
    (mine : cache.owners[i]? = some index) (named : t.file = cacheFile k)
    (split : t.received ++ b :: (queued ++ left) = resolveFile index k) (size : t.size = (resolveFile index k).length)
    (owns : Owns resolveFile index cache before (some i)) (toward : Toward jars index cache rest)
    (sends : Sending k rest client left) :
    Effect jars resolveFile index cache (cache.take index ((cache.world (.copying i)).append i t b)) ∧
      Together jars resolveFile files index (cache.take index ((cache.world (.copying i)).append i t b))
        ⟨client, queued.map .byte, .copying i, [], before ++ [k], before⟩ := by
  have job := missing_job jars files index before rest k listed
  have joined : (t.received ++ [b]) ++ (queued ++ left) = resolveFile index k := by simpa using split
  rw [take_append jars resolveFile files n index cache consistent i t found b (.copying i)]
  refine ⟨.append k job i t { t with received := t.received ++ [b] } found mine named rfl ⟨_, joined⟩,
    .uploading before rest k client left queued _ [] [] listed ?_ sends⟩
  refine .copying i { t with received := t.received ++ [b] } _ ?_ mine named joined size
    (owns_append resolveFile index cache before i _ _ owns) (fun other member => ?_)
  · exact List.getElem?_set_self (List.getElem?_eq_some_iff.mp found).1
  · refine (toward other member).imp_left (fun there => ?_)
    by_cases same : cacheFile other = t.file
    · simp [same]
    · simpa [same] using there

theorem uploading_turn (consistent : Consistent jars resolveFile files n cache) (before rest : List JarKey) (k : JarKey)
    (client : Client) (left queued : ByteString) (phase : Phase) (front : List Item) (answers : List Answer)
    (listed : (before ++ k :: rest).Sublist (missingKeys (jars index) files))
    (uploads : Uploading jars resolveFile index cache before k rest phase (queued ++ left) front answers)
    (sends : Sending k rest client left)
    (stepped : serverStep (cache.handshake ⟨client, front ++ queued.map .byte, phase, answers, before ++ [k], before⟩) =
      some next) :
    Effect jars resolveFile index cache (cache.take index next.world) ∧
      Together jars resolveFile files index (cache.take index next.world) (connectionOf next) := by
  have stays := of_stays jars resolveFile files index cache
  generalize content : queued ++ left = pending at uploads
  cases uploads with
  | requested owns toward =>
      rw [server_receive _ _ (queued.map .byte) rfl rfl] at stepped
      cases stepped
      refine stays _ (take_set_phase index cache _ _) ?_
      exact .uploading before rest k client left queued _ [] [] listed (content ▸ .creating owns toward) sends
  | creating owns toward =>
      exact creating_turn jars resolveFile files n index cache next consistent before rest k client left queued listed content
        owns toward sends stepped
  | opening i t found mine named fresh size owns toward =>
      rw [server_open _ i t rfl found] at stepped
      cases stepped
      refine stays _ (take_open jars resolveFile files n index cache consistent i t found fresh _ _) ?_
      have split : t.received ++ (queued ++ left) = resolveFile index k := by rw [fresh, content, List.nil_append]
      exact .uploading before rest k client left queued _ [] [] listed
        (.copying i t _ found mine named split size owns toward) sends
  | copying i t pending found mine named split size owns toward =>
      subst content
      have remaining : t.size = (t.received.length + (queued ++ left).length : Nat) := by
        rw [size, ← split, List.length_append]
      by_cases whole : t.atEnd = true
      · rw [server_copied _ i t rfl found whole] at stepped
        cases stepped
        have none_left := List.length_eq_zero_iff.mp ((at_end_iff t _ remaining).mp whole)
        refine stays _ (take_set_phase index cache _ _) ?_
        rw [none_left, List.append_nil] at split
        exact .uploading before rest k client left queued _ [] [] listed
          (none_left ▸ .replying (owns_stored resolveFile index cache before k i t found mine named split owns) toward) sends
      · have more : t.atEnd = false := by simpa using whole
        cases queued with
        | nil =>
            rw [server_starved _ i t rfl found more rfl] at stepped
            cases stepped
        | cons b queued =>
            rw [server_copy _ i t b (queued.map .byte) rfl found more rfl] at stepped
            cases stepped
            exact copying_turn jars resolveFile files n index cache consistent before rest k client left queued b i t listed
              found mine named split size owns toward sends
  | replying owns toward =>
      rw [server_reply _ rfl] at stepped
      cases stepped
      refine stays _ (take_set_phase index cache _ _) ?_
      exact .uploading before rest k client left queued _ [] _ listed (content ▸ .confirmed owns toward) sends
  | confirmed owns toward =>
      obtain ⟨rfl, rfl⟩ := List.append_eq_nil_iff.mp content
      rw [server_blocked _ rfl rfl] at stepped
      cases stepped

theorem server_turn (consistent : Consistent jars resolveFile files n cache) (p : Connection)
    (together : Together jars resolveFile files index cache p) (stepped : serverStep (cache.handshake p) = some next) :
    Effect jars resolveFile index cache (cache.take index next.world) ∧
      Together jars resolveFile files index (cache.take index next.world) (connectionOf next) := by
  cases together with
  | started owns =>
      rw [server_blocked _ rfl rfl] at stepped
      cases stepped
  | asking phase items answers asks owns =>
      obtain ⟨phase, items, answers, ⟨same, left⟩, asks⟩ := asking_turn jars resolveFile files n index cache next consistent
        false (fun again => absurd again Bool.false_ne_true) _ asks stepped
      exact of_stays jars resolveFile files index cache next same (left ▸ .asking phase items answers asks owns)
  | putting before left listed owns toward =>
      rw [server_blocked _ rfl rfl] at stepped
      cases stepped
  | uploading before rest k client left queued phase front answers listed uploads sends =>
      exact uploading_turn jars resolveFile files n index cache next consistent before rest k client left queued phase front
        answers listed uploads sends stepped
  | askingAgain keys phase items answers asks owns toward listed =>
      obtain ⟨phase, items, answers, ⟨same, left⟩, asks⟩ := asking_turn jars resolveFile files n index cache next consistent
        true (fun _ => toward) _ asks stepped
      exact of_stays jars resolveFile files index cache next same
        (left ▸ .askingAgain keys phase items answers asks owns toward listed)
  | finished keys owns toward listed =>
      rw [server_blocked _ rfl rfl] at stepped
      cases stepped
  | refused before rest k client left items listed owns lost sends =>
      rw [server_stopped _ rfl] at stepped
      cases stepped

theorem read_waits (p : Connection) (use : Answer → Handshake → Handshake) (silent : p.toClient = [])
    (running : p.phase ≠ .stopped) : (cache.handshake p).readObject use = none := by
  have runs : (cache.handshake p).world.threads conn ≠ .stopped := running
  simp [Handshake.readObject, Cache.handshake, silent, Cache.world, running]

theorem asking_phase (again : Bool) (phase : Phase) (items : List Item) (answers : List Answer)
    (asks : Asking jars files index cache again phase items answers) :
    phase ≠ .stopped ∧ (answers = [] ∨ phase = .idle ∧ items = [] ∧ ∃ found, answers = [.verifyCacheResponse found] ∧
      Looked files cache again (jars index) found) := by
  cases asks with
  | asked => exact ⟨by simp, .inl rfl⟩
  | checking front todo found split looked => exact ⟨by simp, .inl rfl⟩
  | answered found looked => exact ⟨by simp, .inr ⟨rfl, rfl, found, rfl, looked⟩⟩

theorem uploading_phase (before : List JarKey) (k : JarKey) (rest : List JarKey) (phase : Phase) (pending : ByteString)
    (front : List Item) (answers : List Answer)
    (uploads : Uploading jars resolveFile index cache before k rest phase pending front answers) :
    phase ≠ .stopped ∧ (answers = [] ∨ phase = .idle ∧ front = [] ∧ pending = [] ∧ answers = [.done] ∧
      Owns resolveFile index cache (before ++ [k]) none ∧ Toward jars index cache rest) := by
  cases uploads with
  | confirmed owns toward => exact ⟨by simp, .inr ⟨rfl, rfl, rfl, rfl, owns, toward⟩⟩
  | _ => exact ⟨by simp, .inl rfl⟩

theorem client_turn (p : Connection) (together : Together jars resolveFile files index cache p)
    (stepped : clientStep (jars index) (resolveFile index) (cache.handshake p) = some next) :
    Effect jars resolveFile index cache (cache.take index next.world) ∧
      Together jars resolveFile files index (cache.take index next.world) (connectionOf next) := by
  have stays := of_stays jars resolveFile files index cache
  cases together with
  | started owns =>
      cases stepped
      exact stays _ (take_same index cache _) (.asking _ _ _ .asked owns)
  | asking phase items answers asks owns =>
      obtain ⟨running, waits | ⟨rfl, rfl, found, rfl, looked⟩⟩ :=
        asking_phase jars files index cache false phase items answers asks
      · have blocked := read_waits cache ⟨.verifying, items, phase, answers, [], []⟩ (asVerifyCacheResponse .putting) waits
          running
        exact absurd (blocked.symm.trans stepped) (Option.some_ne_none _).symm
      · cases stepped
        exact stays _ (take_same index cache _) (.putting [] found looked.missing owns looked.cached)
  | putting before left listed owns toward =>
      cases left with
      | nil =>
          cases stepped
          rw [List.append_nil] at listed
          exact stays _ (take_same index cache _) (.askingAgain before _ _ _ .asked owns toward listed)
      | cons k rest =>
          cases stepped
          exact stays _ (take_same index cache _)
            (.uploading before rest k _ _ [] _ _ _ listed (.requested owns toward) (.copying _))
  | uploading before rest k client left queued phase front answers listed uploads sends =>
      cases sends with
      | copying left =>
          cases left with
          | nil =>
              cases stepped
              exact stays _ (take_same index cache _)
                (.uploading before rest k _ [] queued phase front answers listed uploads .waiting)
          | cons b left =>
              cases stepped
              refine stays _ (take_same index cache _) ?_
              have moved : front ++ queued.map .byte ++ [Item.byte b] = front ++ (queued ++ [b]).map .byte := by simp
              have later : Uploading jars resolveFile index cache before k rest phase ((queued ++ [b]) ++ left) front
                  answers := by
                simpa using uploads
              have own := Together.uploading before rest k _ left (queued ++ [b]) phase front answers listed later
                (.copying left)
              rwa [← moved] at own
      | waiting =>
          obtain ⟨running, waits | ⟨rfl, rfl, none_left, rfl, owns, toward⟩⟩ :=
            uploading_phase jars resolveFile index cache before k rest phase _ front answers uploads
          · have blocked := read_waits cache ⟨.waiting k rest, front ++ queued.map .byte, phase, answers, before ++ [k], before⟩
              (requireDone k rest) waits running
            exact absurd (blocked.symm.trans stepped) (Option.some_ne_none _).symm
          · obtain ⟨rfl, _⟩ := List.append_eq_nil_iff.mp none_left
            cases stepped
            refine stays _ (take_same index cache _) (.putting (before ++ [k]) rest ?_ owns toward)
            rwa [List.append_assoc]
  | askingAgain keys phase items answers asks owns toward listed =>
      obtain ⟨running, waits | ⟨rfl, rfl, found, rfl, looked⟩⟩ :=
        asking_phase jars files index cache true phase items answers asks
      · have blocked := read_waits cache ⟨.verifyingAgain, items, phase, answers, keys, keys⟩
          (asVerifyCacheResponse .finished) waits running
        exact absurd (blocked.symm.trans stepped) (Option.some_ne_none _).symm
      · obtain rfl := looked.again rfl
        cases stepped
        exact stays _ (take_same index cache _) (.finished keys owns toward listed)
  | finished keys owns toward listed => cases stepped
  | refused before rest k client left items listed owns lost sends =>
      rcases sends with rfl | sends
      · cases stepped
      · cases sends with
        | copying left =>
            cases left with
            | nil =>
                cases stepped
                exact stays _ (take_same index cache _) (.refused before rest k _ [] _ listed owns lost (.inr .waiting))
            | cons b left =>
                cases stepped
                exact stays _ (take_same index cache _) (.refused before rest k _ left _ listed owns lost (.inr (.copying left)))
        | waiting =>
            cases stepped
            exact stays _ (take_same index cache _) (.refused before rest k .failed [] _ listed owns lost (.inl rfl))

end Turns

section Runs

variable (n : Nat)

theorem act_together (index : Nat) (cache : Cache) (p : Connection) (turn : Turn) (after : Cache × Connection)
    (consistent : Consistent jars resolveFile files n cache) (together : Together jars resolveFile files index cache p)
    (acted : act jars resolveFile files index cache p turn = some after) :
    Effect jars resolveFile index cache after.1 ∧ Together jars resolveFile files index after.1 after.2 := by
  obtain ⟨next, stepped, rfl⟩ := Option.map_eq_some_iff.mp acted
  cases turn with
  | client => exact client_turn jars resolveFile files index cache next p together stepped
  | server => exact server_turn jars resolveFile files n index cache next consistent p together stepped

theorem guarantees : Guarantees (act jars resolveFile files) (Consistent jars resolveFile files n)
    (Together jars resolveFile files) Rely n where
  kept := fun index cache p turn after short consistent together acted => by
    obtain ⟨effect, later⟩ := act_together jars resolveFile files n index cache p turn after consistent together acted
    exact ⟨effect_consistent jars resolveFile files n index cache after.1 short consistent effect, later⟩
  given := fun index cache p turn after other consistent together different acted => by
    obtain ⟨effect, _⟩ := act_together jars resolveFile files n index cache p turn after consistent together acted
    exact rely_of_effect jars resolveFile index cache after.1 other different effect
  stable := fun index before after p consistent together rely =>
    together_stable jars resolveFile files index before after rely consistent.owners p together

theorem start_keeps : (start files n).Keeps (Consistent jars resolveFile files n) (Together jars resolveFile files) n := by
  refine ⟨List.length_replicate, ⟨rfl, List.nodup_nil, by simp [start], by simp [start], by simp [start]⟩, ?_⟩
  intro index p found
  obtain rfl := List.eq_of_mem_replicate (List.mem_of_getElem? found)
  exact .started ⟨by simp, by simp [start]⟩

theorem clients_keep (s : Joint Cache Connection) (reached : (clients jars resolveFile files n).Reachable s) :
    s.Keeps (Consistent jars resolveFile files n) (Together jars resolveFile files) n :=
  joint_reachable_keeps (act jars resolveFile files) (Consistent jars resolveFile files n) (Together jars resolveFile files) Rely n
    (guarantees jars resolveFile files n) (start files n) s (start_keeps jars resolveFile files n) reached

-- What holds of one connection. Its thread can stop only at a request whose file is there.
structure Healthy (index : Nat) (cache : Cache) (p : Connection) : Prop where
  failed : p.client = .failed → p.phase = .stopped
  stopped : p.phase = .stopped → ∃ k, p.sent = p.confirmed ++ [k] ∧ Lost index cache p.confirmed k
  listed : p.sent.Sublist (missingKeys (jars index) files)
  order : p.confirmed <+: p.sent
  confirmed : ∀ k ∈ p.confirmed, cache.files (cacheFile k) = some (resolveFile index k)
  finished : ∀ found, p.client = .finished found → found = [] ∧ p.phase = .idle ∧ p.sent = p.confirmed ∧
    ∀ k ∈ jars index, cache.files (cacheFile k) ≠ none

theorem owns_files (index : Nat) (cache : Cache) (consistent : Consistent jars resolveFile files n cache) (stored : List JarKey)
    (current : Option Nat) (owns : Owns resolveFile index cache stored current) (k : JarKey) (member : k ∈ stored) :
    cache.files (cacheFile k) = some (resolveFile index k) := by
  obtain ⟨i, t, found, _, named, whole, _⟩ := owns.whole k member
  rw [← named, ← whole]
  exact (consistent.stored t (List.mem_of_getElem? found)).1

theorem uploading_owns (index : Nat) (cache : Cache) (before : List JarKey) (k : JarKey) (rest : List JarKey) (phase : Phase)
    (pending : ByteString) (front : List Item) (answers : List Answer)
    (consistent : Consistent jars resolveFile files n cache)
    (uploads : Uploading jars resolveFile index cache before k rest phase pending front answers) :
    ∀ other ∈ before, cache.files (cacheFile other) = some (resolveFile index other) := by
  have own := owns_files jars resolveFile files n index cache consistent
  cases uploads with
  | requested owns toward => exact own _ _ owns
  | creating owns toward => exact own _ _ owns
  | opening i t found mine named fresh size owns toward => exact own _ _ owns
  | copying i t pending found mine named split size owns toward => exact own _ _ owns
  | replying owns toward => exact fun other member => own _ _ owns other (List.mem_append_left _ member)
  | confirmed owns toward => exact fun other member => own _ _ owns other (List.mem_append_left _ member)

theorem sending_client (k : JarKey) (rest : List JarKey) (client : Client) (left : ByteString)
    (sends : Sending k rest client left) :
    client ≠ .failed ∧ ∀ found, client ≠ .finished found := by
  cases sends <;> simp

theorem together_healthy (index : Nat) (cache : Cache) (p : Connection)
    (consistent : Consistent jars resolveFile files n cache) (together : Together jars resolveFile files index cache p) :
    Healthy jars resolveFile files index cache p := by
  have own := owns_files jars resolveFile files n index cache consistent
  cases together with
  | started owns => exact ⟨by simp, by simp, List.nil_sublist _, List.nil_prefix, by simp, by simp⟩
  | asking phase items answers asks owns =>
      have running := (asking_phase jars files index cache false phase items answers asks).1
      exact ⟨by simp, fun stopped => absurd stopped running, List.nil_sublist _, List.nil_prefix, by simp, by simp⟩
  | putting before left listed owns toward =>
      exact ⟨by simp, by simp, (List.sublist_append_left _ _).trans listed, List.prefix_rfl, own _ _ owns, by simp⟩
  | uploading before rest k client left queued phase front answers listed uploads sends =>
      have running := (uploading_phase jars resolveFile index cache before k rest phase _ front answers uploads).1
      obtain ⟨failed, finished⟩ := sending_client k rest client left sends
      refine ⟨fun same => absurd same failed, fun stopped => absurd stopped running, ?_, List.prefix_append _ _,
        uploading_owns jars resolveFile files n index cache before k rest phase _ front answers consistent uploads,
        fun found same => absurd same (finished found)⟩
      exact (List.Sublist.append_left (List.singleton_sublist.mpr List.mem_cons_self) before).trans listed
  | askingAgain keys phase items answers asks owns toward listed =>
      have running := (asking_phase jars files index cache true phase items answers asks).1
      exact ⟨by simp, fun stopped => absurd stopped running, listed, List.prefix_rfl, own _ _ owns, by simp⟩
  | finished keys owns toward listed =>
      refine ⟨by simp, by simp, listed, List.prefix_rfl, own _ _ owns, fun found same => ?_⟩
      obtain rfl := Client.finished.inj same
      exact ⟨rfl, rfl, rfl, fun k job => (toward k job).resolve_right List.not_mem_nil⟩
  | refused before rest k client left items listed owns lost sends =>
      refine ⟨fun _ => rfl, fun _ => ⟨k, rfl, lost⟩, ?_, List.prefix_append _ _, own _ _ owns, fun found same => ?_⟩
      · exact (List.Sublist.append_left (List.singleton_sublist.mpr List.mem_cons_self) before).trans listed
      · rcases sends with failed | sends
        · exact absurd (failed.symm.trans same) (by simp)
        · exact absurd same ((sending_client k rest client left sends).2 found)

-- Any number of clients at once, with any jars and files, over any starting cache.
theorem clients_agreement (s : Joint Cache Connection) (reached : (clients jars resolveFile files n).Reachable s) :
    (∀ file, files file ≠ none → s.shared.files file = files file) ∧ (s.shared.transfers.map Transfer.file).Nodup ∧
      ∀ (index : Nat) (p : Connection), s.parties[index]? = some p → Healthy jars resolveFile files index s.shared p := by
  obtain ⟨_, consistent, each⟩ := clients_keep jars resolveFile files n s reached
  refine ⟨fun file there => consistent.others file (fun taken => ?_), consistent.once, fun index p found =>
    together_healthy jars resolveFile files n index s.shared p consistent (each index p found)⟩
  obtain ⟨t, member, rfl⟩ := List.mem_map.mp taken
  exact there (consistent.stored t member).2

def Connection.through (p : Connection) : Prop := (∃ found, p.client = .finished found) ∨ p.client = .failed

def left (index : Nat) (p : Connection) : Nat :=
  work (jars index) (resolveFile index) files ((Cache.mk files [] []).handshake p)

theorem server_saves (index : Nat) (s next : Handshake) (stepped : serverStep s = some next) :
    work (jars index) (resolveFile index) files next < work (jars index) (resolveFile index) files s := by
  obtain ⟨client, toServer, w, toClient, sent, confirmed⟩ := s
  cases phase : w.threads conn with
  | idle =>
      cases toServer with
      | nil =>
          rw [server_blocked _ phase rfl] at stepped
          cases stepped
      | cons item rest =>
          cases item with
          | object init =>
              rw [server_receive _ init rest phase rfl] at stepped
              cases stepped
              cases init with
              | verifyCacheRequest keys =>
                  simp only [work, List.map_cons, List.sum_cons, itemWork, phaseWork, Init.begin, phase, set_phase_here]
                  omega
              | putCacheRequest p =>
                  simp only [work, List.map_cons, List.sum_cons, itemWork, phaseWork, Init.begin, phase, set_phase_here]
                  omega
              | runRequest => simp [work, itemWork, phaseWork, Init.begin, phase]
              | finished => simp [work, itemWork, phaseWork, Init.begin, phase]
          | byte b =>
              simp only [serverStep, serverEvent, phase, StreamApp.step, Option.bind_some, Option.map_some,
                Option.some.injEq] at stepped
              subst stepped
              simp [work, itemWork, phaseWork, phase]
  | verifying keys todo found =>
      cases todo with
      | nil =>
          rw [server_respond _ keys found phase] at stepped
          cases stepped
          simp only [work, phaseWork, phase, set_phase_here, List.length_append, List.length_nil, List.length_singleton]
          omega
      | cons k todo =>
          rw [server_check _ keys todo found k phase] at stepped
          cases stepped
          simp [work, phaseWork, phase]
  | putting p =>
      cases old : w.exists p.jarKey with
      | true =>
          rw [server_refuse _ p phase old] at stepped
          cases stepped
          simp [work, phaseWork, phase]
      | false =>
          rw [server_create _ p phase old] at stepped
          cases stepped
          simp [work, phaseWork, phase]
  | opening i =>
      cases found : w.transfers[i]? with
      | none => simp [serverStep, serverEvent, phase, StreamApp.step, found] at stepped
      | some t =>
          rw [server_open _ i t phase found] at stepped
          cases stepped
          simp [work, phaseWork, phase]
  | copying i =>
      cases found : w.transfers[i]? with
      | none => simp [serverStep, serverEvent, phase, found] at stepped
      | some t =>
          cases whole : t.atEnd with
          | true =>
              rw [server_copied _ i t phase found whole] at stepped
              cases stepped
              simp [work, phaseWork, phase]
          | false =>
              cases toServer with
              | nil =>
                  rw [server_starved _ i t phase found whole rfl] at stepped
                  cases stepped
              | cons item rest =>
                  cases item with
                  | object init => simp [serverStep, serverEvent, phase, found, whole] at stepped
                  | byte b =>
                      rw [server_copy _ i t b rest phase found whole rfl] at stepped
                      cases stepped
                      simp [work, itemWork, World.append, World.write]
  | replying =>
      rw [server_reply _ phase] at stepped
      cases stepped
      simp only [work, phaseWork, phase, set_phase_here, List.length_append, List.length_singleton]
      omega
  | stopped =>
      rw [server_stopped _ phase] at stepped
      cases stepped

theorem put_work_sublist (index : Nat) (some all : List JarKey) (part : some.Sublist all) :
    putWork (jars index) (resolveFile index) some ≤ putWork (jars index) (resolveFile index) all := by
  induction part with
  | slnil => exact Nat.le_refl _
  | cons k _ ih =>
      rw [put_work_cons]
      omega
  | cons_cons k _ ih =>
      rw [put_work_cons, put_work_cons]
      omega

theorem client_saves (index : Nat) (cache : Cache) (p : Connection) (next : Handshake)
    (together : Together jars resolveFile files index cache p)
    (stepped : clientStep (jars index) (resolveFile index) (cache.handshake p) = some next) :
    work (jars index) (resolveFile index) files next < work (jars index) (resolveFile index) files (cache.handshake p) := by
  cases together with
  | started owns =>
      cases stepped
      simp only [work, clientWork, Cache.handshake, List.nil_append, List.map_cons, List.map_nil, List.sum_cons,
        List.sum_nil, itemWork]
      omega
  | asking phase items answers asks owns =>
      obtain ⟨running, waits | ⟨rfl, rfl, found, rfl, looked⟩⟩ :=
        asking_phase jars files index cache false phase items answers asks
      · have blocked := read_waits cache ⟨.verifying, items, phase, answers, [], []⟩ (asVerifyCacheResponse .putting) waits
          running
        exact absurd (blocked.symm.trans stepped) (Option.some_ne_none _).symm
      · cases stepped
        have less := put_work_sublist jars resolveFile index found _ looked.missing
        simp only [work, clientWork, Cache.handshake, asVerifyCacheResponse, List.length_nil, List.length_singleton]
        omega
  | putting before left listed owns toward =>
      cases left with
      | nil =>
          cases stepped
          simp [work, clientWork, Cache.handshake, putWork, itemWork]
      | cons k rest =>
          cases stepped
          simp only [work, clientWork, Cache.handshake, put_work_cons, List.nil_append, List.map_cons, List.map_nil, List.sum_cons,
            List.sum_nil, itemWork]
          omega
  | uploading before rest k client left queued phase front answers listed uploads sends =>
      cases sends with
      | copying left =>
          cases left with
          | nil =>
              cases stepped
              simp [work, clientWork, Cache.handshake]
          | cons b left =>
              cases stepped
              simp only [work, clientWork, Cache.handshake, List.length_cons, List.map_append, List.sum_append, List.map_cons,
                List.map_nil, List.sum_cons, List.sum_nil, itemWork]
              omega
      | waiting =>
          obtain ⟨running, waits | ⟨rfl, rfl, none_left, rfl, owns, toward⟩⟩ :=
            uploading_phase jars resolveFile index cache before k rest phase _ front answers uploads
          · have blocked := read_waits cache ⟨.waiting k rest, front ++ queued.map .byte, phase, answers, before ++ [k], before⟩
              (requireDone k rest) waits running
            exact absurd (blocked.symm.trans stepped) (Option.some_ne_none _).symm
          · cases stepped
            simp [work, clientWork, Cache.handshake, requireDone]
  | askingAgain keys phase items answers asks owns toward listed =>
      obtain ⟨running, waits | ⟨rfl, rfl, found, rfl, looked⟩⟩ :=
        asking_phase jars files index cache true phase items answers asks
      · have blocked := read_waits cache ⟨.verifyingAgain, items, phase, answers, keys, keys⟩
          (asVerifyCacheResponse .finished) waits running
        exact absurd (blocked.symm.trans stepped) (Option.some_ne_none _).symm
      · cases stepped
        simp [work, clientWork, Cache.handshake, asVerifyCacheResponse]
  | finished keys owns toward listed => cases stepped
  | refused before rest k client left items listed owns lost sends =>
      rcases sends with rfl | sends
      · cases stepped
      · cases sends with
        | copying left =>
            cases left with
            | nil =>
                cases stepped
                simp [work, clientWork, Cache.handshake]
            | cons b left =>
                cases stepped
                simp only [work, clientWork, Cache.handshake, List.length_cons, List.map_append, List.sum_append, List.map_cons,
                  List.map_nil, List.sum_cons, List.sum_nil, itemWork]
                omega
        | waiting =>
            cases stepped
            simp [work, clientWork, Cache.handshake, putWork]

theorem act_saves (index : Nat) (cache : Cache) (p : Connection) (turn : Turn) (after : Cache × Connection)
    (together : Together jars resolveFile files index cache p)
    (acted : act jars resolveFile files index cache p turn = some after) :
    left jars resolveFile files index after.2 < left jars resolveFile files index p := by
  obtain ⟨next, stepped, rfl⟩ := Option.map_eq_some_iff.mp acted
  cases turn with
  | client => exact client_saves jars resolveFile files index cache p next together stepped
  | server => exact server_saves jars resolveFile files index (cache.handshake p) next stepped

theorem asking_goes_on (index : Nat) (cache : Cache) (again : Bool) (p : Connection)
    (asks : Asking jars files index cache again p.phase p.toServer p.toClient) :
    (∃ next, serverStep (cache.handshake p) = some next) ∨ ∃ found, p.toClient = [.verifyCacheResponse found] := by
  obtain ⟨client, toServer, phase, toClient, sent, confirmed⟩ := p
  dsimp only at asks
  cases asks with
  | asked => exact .inl ⟨_, server_receive _ _ [] rfl rfl⟩
  | checking front todo found split looked =>
      cases todo with
      | nil => exact .inl ⟨_, server_respond _ _ _ rfl⟩
      | cons k todo => exact .inl ⟨_, server_check _ _ _ _ _ rfl⟩
  | answered found looked => exact .inr ⟨found, rfl⟩

theorem uploading_goes_on (index : Nat) (cache : Cache) (before rest : List JarKey) (k : JarKey) (queued : ByteString)
    (phase : Phase) (front : List Item) (answers : List Answer)
    (uploads : Uploading jars resolveFile index cache before k rest phase queued front answers) :
    (∃ next, serverStep (cache.handshake ⟨.waiting k rest, front ++ queued.map .byte, phase, answers, before ++ [k], before⟩) =
      some next) ∨ answers = [.done] := by
  cases uploads with
  | requested owns toward => exact .inl ⟨_, server_receive _ _ _ rfl rfl⟩
  | creating owns toward =>
      cases old : (cache.world (.putting (putRequest (resolveFile index) k))).exists k with
      | true => exact .inl ⟨_, server_refuse _ _ rfl old⟩
      | false => exact .inl ⟨_, server_create _ _ rfl old⟩
  | opening i t found mine named fresh size owns toward => exact .inl ⟨_, server_open _ i t rfl found⟩
  | copying i t pending found mine named split size owns toward =>
      have remaining : t.size = (t.received.length + queued.length : Nat) := by
        rw [size, ← split, List.length_append]
      cases whole : t.atEnd with
      | true => exact .inl ⟨_, server_copied _ i t rfl found whole⟩
      | false =>
          cases queued with
          | nil => exact absurd ((at_end_iff t 0 remaining).mpr rfl) (by simp [whole])
          | cons b queued => exact .inl ⟨_, server_copy _ i t b (queued.map .byte) rfl found whole rfl⟩
  | replying owns toward => exact .inl ⟨_, server_reply _ rfl⟩
  | confirmed owns toward => exact .inr rfl

theorem goes_on (index : Nat) (cache : Cache) (p : Connection) (together : Together jars resolveFile files index cache p)
    (running : ¬ p.through) : (∃ next, serverStep (cache.handshake p) = some next) ∨
      ∃ next, clientStep (jars index) (resolveFile index) (cache.handshake p) = some next := by
  cases together with
  | started owns => exact .inr ⟨_, rfl⟩
  | asking phase items answers asks owns =>
      rcases asking_goes_on jars files index cache false ⟨.verifying, items, phase, answers, [], []⟩ asks with
        serves | ⟨found, rfl⟩
      · exact .inl serves
      · exact .inr ⟨_, rfl⟩
  | putting before left listed owns toward => cases left <;> exact .inr ⟨_, rfl⟩
  | uploading before rest k client left queued phase front answers listed uploads sends =>
      cases sends with
      | copying left => cases left <;> exact .inr ⟨_, rfl⟩
      | waiting =>
          rw [List.append_nil] at uploads
          rcases uploading_goes_on jars resolveFile index cache before rest k queued phase front answers uploads with
            serves | rfl
          · exact .inl serves
          · exact .inr ⟨_, rfl⟩
  | askingAgain keys phase items answers asks owns toward listed =>
      rcases asking_goes_on jars files index cache true ⟨.verifyingAgain, items, phase, answers, keys, keys⟩ asks with
        serves | ⟨found, rfl⟩
      · exact .inl serves
      · exact .inr ⟨_, rfl⟩
  | finished keys owns toward listed => exact absurd (.inl ⟨[], rfl⟩) running
  | refused before rest k client left items listed owns lost sends =>
      rcases sends with rfl | sends
      · exact absurd (.inr rfl) running
      · cases sends with
        | copying left => cases left <;> exact .inr ⟨_, rfl⟩
        | waiting => exact .inr ⟨_, rfl⟩

-- All clients are through: every file that a request has created is whole.
structure Settled (s : Joint Cache Connection) : Prop where
  through : ∀ p ∈ s.parties, p.through
  whole : ∀ t ∈ s.shared.transfers, ∃ owner k, owner < n ∧ k ∈ jars owner ∧ t.file = cacheFile k ∧
    s.shared.files t.file = some (resolveFile owner k)

theorem through_owns (index : Nat) (cache : Cache) (p : Connection) (together : Together jars resolveFile files index cache p)
    (through : p.through) : Owns resolveFile index cache p.confirmed none := by
  have apart : ∀ {k rest client left}, Sending k rest client left →
      ¬ ((∃ found, client = .finished found) ∨ client = .failed) := by
    rintro k rest client left sends (⟨found, same⟩ | same)
    · exact (sending_client k rest client left sends).2 found same
    · exact (sending_client k rest client left sends).1 same
  cases together with
  | finished keys owns toward listed => exact owns
  | refused before rest k client left items listed owns lost sends => exact owns
  | uploading before rest k client left queued phase front answers listed uploads sends => exact absurd through (apart sends)
  | _ => simp [Connection.through] at through

theorem settled_of_through (s : Joint Cache Connection)
    (holds : s.Keeps (Consistent jars resolveFile files n) (Together jars resolveFile files) n)
    (through : ∀ p ∈ s.parties, p.through) : Settled jars resolveFile n s := by
  obtain ⟨length, consistent, each⟩ := holds
  refine ⟨through, fun t member => ?_⟩
  obtain ⟨i, found⟩ := List.getElem?_of_mem member
  obtain ⟨owner, _, owned, short, _⟩ := consistent.sources i t found
  have there := List.getElem?_eq_getElem (length.symm ▸ short : owner < s.parties.length)
  have together := each owner _ there
  have owns := through_owns jars resolveFile files owner s.shared _ together (through _ (List.mem_of_getElem? there))
  obtain ⟨k, stored, named⟩ := (owns.mine i t found owned).resolve_left (Option.some_ne_none i).symm
  have healthy := together_healthy jars resolveFile files n owner s.shared _ consistent together
  have job := List.mem_of_mem_filter (healthy.listed.subset (healthy.order.subset stored))
  exact ⟨owner, k, short, job, named, by rw [named]; exact healthy.confirmed k stored⟩

-- No two of the keys that are missing at the start have the same file, whichever clients they are of.
structure Apart : Prop where
  clients : ∀ i j, i < n → j < n → ∀ k ∈ missingKeys (jars i) files, ∀ other ∈ missingKeys (jars j) files,
    cacheFile k = cacheFile other → i = j
  keys : ∀ i, i < n → Distinct (jars i) files

theorem apart_accepted (apart : Apart jars files n) (s : Joint Cache Connection)
    (holds : s.Keeps (Consistent jars resolveFile files n) (Together jars resolveFile files) n) (index : Nat) (p : Connection)
    (found : s.parties[index]? = some p) : p.phase ≠ .stopped := by
  intro stopped
  obtain ⟨length, consistent, each⟩ := holds
  have short : index < n := length ▸ (List.getElem?_eq_some_iff.mp found).1
  have healthy := together_healthy jars resolveFile files n index s.shared p consistent (each index p found)
  obtain ⟨k, sent, i, t, owner, there, owned, named, foreign⟩ := healthy.stopped stopped
  have listed := healthy.listed
  rw [sent] at listed
  have missing : k ∈ missingKeys (jars index) files := listed.subset (by simp)
  rcases foreign with different | ⟨other, stored, same⟩
  · obtain ⟨source, key, owns, inside, job, file, _⟩ := consistent.sources i t there
    obtain rfl := Option.some.inj (owned.symm.trans owns)
    have absent := (consistent.stored t (List.mem_of_getElem? there)).2
    have key_missing : key ∈ missingKeys (jars owner) files := by
      rw [file] at absent
      exact List.mem_filter.mpr ⟨job, by simp [World.exists, cacheBefore, absent]⟩
    exact different (apart.clients index owner short inside k missing key key_missing (named.symm.trans file)).symm
  · have distinct := (apart.keys index short).sublist (listed.map cacheFile)
    rw [List.map_append, List.nodup_append] at distinct
    exact distinct.2.2 (cacheFile other) (List.mem_map_of_mem stored) (cacheFile k) (by simp) same

structure ClientsFinish (s : Joint Cache Connection) : Prop where
  bounded : ∀ turns final, (clients jars resolveFile files n).run s turns = some final →
    turns.length ≤ s.left (left jars resolveFile files)
  finishes : ∃ turns final, (clients jars resolveFile files n).run s turns = some final ∧ Settled jars resolveFile n final
  settled : (∀ p ∈ s.parties, p.through) → Settled jars resolveFile n s
  accepted : Apart jars files n → ∀ p ∈ s.parties, p.phase ≠ .stopped ∧ p.client ≠ .failed

-- No client waits for another one, and a request that is refused ends its own connection only.
theorem clients_finish (s : Joint Cache Connection) (reached : (clients jars resolveFile files n).Reachable s) :
    ClientsFinish jars resolveFile files n s := by
  have holds := clients_keep jars resolveFile files n s reached
  have decreases : ∀ index cache p turn after, Consistent jars resolveFile files n cache →
      Together jars resolveFile files index cache p → True → act jars resolveFile files index cache p turn = some after →
      left jars resolveFile files index after.2 < left jars resolveFile files index p :=
    fun index cache p turn after _ together _ acted => act_saves jars resolveFile files index cache p turn after together acted
  have enabled : ∀ index cache p, Consistent jars resolveFile files n cache → Together jars resolveFile files index cache p →
      ¬ p.through → ∃ turn after, True ∧ act jars resolveFile files index cache p turn = some after := by
    intro index cache p _ together running
    rcases goes_on jars resolveFile files index cache p together running with ⟨next, stepped⟩ | ⟨next, stepped⟩
    · exact ⟨.server, _, trivial, Option.map_eq_some_iff.mpr ⟨next, stepped, rfl⟩⟩
    · exact ⟨.client, _, trivial, Option.map_eq_some_iff.mpr ⟨next, stepped, rfl⟩⟩
  refine ⟨fun turns final ran => ?_, ?_, settled_of_through jars resolveFile files n s holds, fun apart p member => ?_⟩
  · have bound := joint_run_bounded (act jars resolveFile files) (Consistent jars resolveFile files n)
      (Together jars resolveFile files) Rely (fun _ => True) (left jars resolveFile files) n (start files n) s final turns
      (guarantees jars resolveFile files n) decreases holds (fun _ _ => trivial) ran
    omega
  · obtain ⟨turns, final, _, ran, through⟩ := joint_run_finishes (act jars resolveFile files) (Consistent jars resolveFile files n)
      (Together jars resolveFile files) Rely (fun _ => True) Connection.through (left jars resolveFile files) n (start files n) s
      (guarantees jars resolveFile files n) decreases enabled holds
    have kept := run_keeps (clients jars resolveFile files n)
      (Joint.Keeps (Consistent jars resolveFile files n) (Together jars resolveFile files) n)
      (joint_step_keeps (act jars resolveFile files) _ _ Rely n (guarantees jars resolveFile files n)) s final turns holds ran
    exact ⟨turns, final, ran, settled_of_through jars resolveFile files n final kept through⟩
  · obtain ⟨index, found⟩ := List.getElem?_of_mem member
    have accepted := apart_accepted jars resolveFile files n apart s holds index p found
    have healthy := together_healthy jars resolveFile files n index s.shared p holds.2.1 (holds.2.2 index p found)
    exact ⟨accepted, fun failed => accepted (healthy.failed failed)⟩

end Runs

end Clients

-- Two clients have the same key and other content for it. Both find it missing, and the second request is refused.
def twoClients : List (Nat × Turn) :=
  [(0, .client), (0, .server), (0, .server), (0, .server), (0, .client), (1, .client), (1, .server), (1, .server),
   (1, .server), (1, .client), (0, .client), (0, .server), (0, .server), (1, .client), (1, .server), (1, .server)]

def sameJar : Machine (Joint Cache Connection) (Nat × Turn) :=
  clients (fun _ => [repeated]) (fun index _ => [index, 7]) (fun _ => none) 2

theorem two_clients_clash : (sameJar.run sameJar.initial twoClients).map (fun s => s.parties.map Connection.phase) =
    some [.opening 0, .stopped] := by
  decide +kernel

theorem clients_agreement_two :
    ∃ s, sameJar.run sameJar.initial twoClients = some s ∧ s.parties.map Connection.phase = [.opening 0, .stopped] ∧
      ∀ (index : Nat) (p : Connection), s.parties[index]? = some p →
        Healthy (fun _ => [repeated]) (fun index _ => [index, 7]) (fun _ => none) index s.shared p := by
  obtain ⟨s, run, phases⟩ := Option.map_eq_some_iff.mp two_clients_clash
  exact ⟨s, run, phases, (clients_agreement (fun _ => [repeated]) (fun index _ => [index, 7]) (fun _ => none) 2 s
    ⟨twoClients, run⟩).2.2⟩

theorem clients_finish_two :
    ∃ s, sameJar.run sameJar.initial twoClients = some s ∧ s.parties.map Connection.phase = [.opening 0, .stopped] ∧
      ClientsFinish (fun _ => [repeated]) (fun index _ => [index, 7]) (fun _ => none) 2 s := by
  obtain ⟨s, run, phases⟩ := Option.map_eq_some_iff.mp two_clients_clash
  exact ⟨s, run, phases, clients_finish (fun _ => [repeated]) (fun index _ => [index, 7]) (fun _ => none) 2 s
    ⟨twoClients, run⟩⟩

end Toolbox8.StreamAppClients
