import Toolbox8.JarCacheUploader

set_option autoImplicit false

namespace Toolbox8.JarCacheUploader

open Base JarCacheActor

def commandOf : Pending → Command
  | .persisting command => command
  | .persisted command => command

def System.command (s : System) : Option Command := s.cache.pending.map commandOf

def System.verifying (s : System) (u : Nat) : Nat :=
  match s.command with
  | some (.verify _ _) => if s.sender = u then 1 else 0
  | _ => 0

def System.putting (s : System) (u : Nat) : Nat :=
  match s.command with
  | some (.put _) => if s.sender = u then 1 else 0
  | _ => 0

def System.waiting (s : System) (u : Nat) : List JarRequest :=
  (s.channel u).flatMap Reply.requests ++ (s.uploaders u).state.queue

def System.Found (s : System) (key : JarKey) : Prop := (s.cache.state.lookup key).isSome

-- tickets: the one VerifyRequest of an uploader becomes its one JarsRequest. acknowledged: what became of
-- the jars it has started.
structure Invariant (keysOf : Nat → List JarKey) (s : System) : Prop where
  sound : ∀ u, (s.uploaders u).Sound
  asked : s.asked.Nodup
  tickets : ∀ u, s.asking.count u + s.verifying u + (s.channel u).countP Reply.grants +
    (if (s.uploaders u).requested.isSome then 1 else 0) = if u ∈ s.asked then 1 else 0
  acknowledged : ∀ u, (s.uploaders u).started.length =
    active s.transfers u + s.putting u + (s.channel u).count .done + (s.uploaders u).acked
  requests : Requests s.waiting s.transfers
  targets : ∀ u requests, (s.uploaders u).requested = some requests → (requests.map JarRequest.target).Nodup
  stored : ∀ t ∈ s.transfers, t.phase = .reported →
    s.Found t.running.key ∨ s.command = some (.put t.running) ∧ s.sender = t.origin
  missing : ∀ startId missing, s.command = some (.verify startId missing) →
    ∀ key ∈ keysOf s.sender, s.Found key ∨ key ∈ missing
  covered : ∀ u, (s.channel u).any Reply.grants ∨ (s.uploaders u).requested.isSome →
    ∀ key ∈ keysOf u, s.Found key ∨ Serves s.transfers u key
  uploads : ∀ running, s.cache.uploads.count running = unreported s.transfers running

section Steps

variable (keysOf : Nat → List JarKey) (s : System)

theorem pre_start_invariant (u : Nat) (inv : Invariant keysOf s) (fresh : u ∉ s.asked) :
    Invariant keysOf { s with asked := s.asked ++ [u], asking := s.asking ++ [u] } := by
  refine { inv with asked := ?_, tickets := ?_ }
  · exact List.Nodup.append inv.asked (List.nodup_singleton u) (by simpa using fresh)
  · intro v
    have before := inv.tickets v
    simp only [System.verifying, System.command, List.count_append, List.count_singleton, List.mem_append,
      List.mem_singleton] at before ⊢
    by_cases here : v = u
    · subst here
      simp only [fresh, if_false, or_true, if_true, beq_self_eq_true] at before ⊢
      omega
    · simp only [here, or_false, beq_iff_eq, Ne.symm here, if_false] at before ⊢
      omega

theorem cache_frame (cache : JarCacheActor.System) (inv : Invariant keysOf s) (state : cache.state = s.cache.state)
    (pending : cache.pending.map commandOf = s.cache.pending.map commandOf) (uploads : cache.uploads = s.cache.uploads) :
    Invariant keysOf { s with cache := cache } := by
  have command : ({ s with cache := cache } : System).command = s.command := pending
  refine ⟨inv.sound, inv.asked, ?_, ?_, inv.requests, inv.targets, ?_, ?_, ?_, ?_⟩
  · simpa only [System.verifying, command] using inv.tickets
  · simpa only [System.putting, command] using inv.acknowledged
  · simpa only [System.Found, command, state] using inv.stored
  · simpa only [System.Found, command, state] using inv.missing
  · simpa only [System.Found, state] using inv.covered
  · simpa only [uploads] using inv.uploads

theorem missing_or_found (state : JarCacheActor.State) (keys missing : List JarKey) (walked : missing.Perm (missingKeys state keys))
    (key : JarKey) (member : key ∈ keys) : (state.lookup key).isSome ∨ key ∈ missing := by
  cases found : state.lookup key with
  | some id => exact .inl rfl
  | none =>
      refine .inr (walked.mem_iff.mpr ?_)
      simp [missingKeys, member, found]

theorem verify_request_invariant (u : Nat) (missing : List JarKey) (inv : Invariant keysOf s) (asks : u ∈ s.asking)
    (idle : s.cache.pending = none) (walked : missing.Perm (missingKeys s.cache.state (keysOf u))) :
    Invariant keysOf { s with
      cache := { s.cache with pending := some (.persisting (.verify s.cache.state.nextId missing)) }
      sender := u
      asking := s.asking.erase u } := by
  have quiet : s.command = none := by simp [System.command, idle]
  refine { inv with tickets := ?_, acknowledged := ?_, stored := ?_, missing := ?_ }
  · intro v
    have before := inv.tickets v
    simp only [System.verifying, quiet] at before
    simp only [System.verifying, System.command, Option.map_some, commandOf]
    by_cases here : u = v
    · subst here
      have positive := List.count_pos_iff.mpr asks
      simp only [List.count_erase_self, if_true]
      omega
    · simp only [List.count_erase_of_ne (Ne.symm here), if_neg here]
      exact before
  · intro v
    have before := inv.acknowledged v
    simp only [System.putting, quiet] at before
    simpa only [System.putting, System.command, Option.map_some, commandOf] using before
  · intro t member reported
    refine .inl ((inv.stored t member reported).resolve_right ?_)
    simp [quiet]
  · intro startId others command key member
    simp only [System.command, Option.map_some, commandOf, Option.some.injEq, Command.verify.injEq] at command
    rw [← command.2]
    exact missing_or_found s.cache.state (keysOf u) missing walked key member

theorem complete_invariant (target : Nat) (t : Transfer) (inv : Invariant keysOf s) (here : s.transfers[target]? = some t)
    (running : t.phase = .started) :
    Invariant keysOf { s with transfers := s.transfers.set target { t with phase := .finished } } := by
  refine { inv with acknowledged := ?_, requests := ?_, stored := ?_, covered := ?_, uploads := ?_ }
  · intro u
    have same : active (s.transfers.set target { t with phase := .finished }) u = active s.transfers u :=
      count_set_same _ s.transfers target t _ here (by simp [running])
    refine (inv.acknowledged u).trans ?_
    rw [← same]
    rfl
  · exact set_phase_requests s.waiting s.transfers target t .finished here (by simp [running]) (by simp) inv.requests
  · intro u member reported
    rcases List.mem_or_eq_of_mem_set member with old | rfl
    · exact inv.stored u old reported
    · cases reported
  · intro u granted key member
    exact (inv.covered u granted key member).imp id (set_phase_serves s.transfers target t .finished here u key)
  · intro f
    rw [inv.uploads f]
    exact (count_set_same _ s.transfers target t _ here (by simp [running])).symm

theorem finished_invariant (target : Nat) (t : Transfer) (inv : Invariant keysOf s) (here : s.transfers[target]? = some t)
    (finished : t.phase = .finished) (idle : s.cache.pending = none) :
    Invariant keysOf { s with
      cache := { s.cache with uploads := s.cache.uploads.erase t.running, pending := some (.persisting (.put t.running)) }
      sender := t.origin
      transfers := s.transfers.set target { t with phase := .reported } } := by
  have quiet : s.command = none := by simp [System.command, idle]
  refine { inv with tickets := ?_, acknowledged := ?_, requests := ?_, stored := ?_, missing := ?_, covered := ?_, uploads := ?_ }
  · intro u
    have before := inv.tickets u
    simp only [System.verifying, quiet] at before
    simpa only [System.verifying, System.command, Option.map_some, commandOf] using before
  · intro u
    have before := inv.acknowledged u
    have counted : active (s.transfers.set target { t with phase := .reported }) u + (if t.origin = u then 1 else 0) =
        active s.transfers u := by
      simpa [finished, active] using count_set (fun t => t.origin = u ∧ (t.phase = .started ∨ t.phase = .finished))
        s.transfers target t { t with phase := .reported } here
    simp only [System.putting, quiet] at before
    simp only [System.putting, System.command, Option.map_some, commandOf, counted]
    omega
  · exact set_phase_requests s.waiting s.transfers target t .reported here (by simp [finished]) (by simp) inv.requests
  · intro u member reported
    rcases List.mem_or_eq_of_mem_set member with old | rfl
    · refine .inl ((inv.stored u old reported).resolve_right ?_)
      simp [quiet]
    · exact .inr ⟨rfl, rfl⟩
  · intro startId missing command
    simp [System.command, commandOf] at command
  · intro u granted key member
    exact (inv.covered u granted key member).imp id (set_phase_serves s.transfers target t .reported here u key)
  · intro f
    have before := inv.uploads f
    have counted : unreported (s.transfers.set target { t with phase := .reported }) f + (if t.running = f then 1 else 0) =
        unreported s.transfers f := by
      simpa [finished, unreported] using count_set (fun t => t.running = f ∧ t.phase ≠ .reported) s.transfers target t
        { t with phase := .reported } here
    simp only [List.count_erase, beq_iff_eq]
    omega

theorem tell_other (channel : Nat → List Reply) (u v : Nat) (m : Reply) (other : v ≠ u) : tell channel u m v = channel v := by
  simp [tell, other]

theorem tell_count (channel : Nat → List Reply) (u v : Nat) (m : Reply) (p : Reply → Bool) :
    (tell channel u m v).countP p = (channel v).countP p + if u = v ∧ p m then 1 else 0 := by
  by_cases here : u = v
  · subst here
    simp [tell, List.countP_singleton]
  · simp [tell_other channel u v m (Ne.symm here), here]

theorem tell_requests (channel : Nat → List Reply) (u v : Nat) (m : Reply) :
    (tell channel u m v).flatMap Reply.requests = (channel v).flatMap Reply.requests ++ if u = v then m.requests else [] := by
  by_cases here : u = v
  · subst here
    simp [tell]
  · simp [tell_other channel u v m (Ne.symm here), here]

theorem update_keeps_found (state : JarCacheActor.State) (command : Command) (key : JarKey)
    (found : (state.lookup key).isSome) : ((updateState state command.evt).lookup key).isSome := by
  cases command with
  | verify startId missing => exact found
  | put running =>
      by_cases here : key = running.key
      · simp [Command.evt, updateState, here]
      · simpa [Command.evt, updateState, Function.update_of_ne here] using found

theorem handle_put_invariant (running : Finished) (inv : Invariant keysOf s)
    (pending : s.cache.pending = some (.persisted (.put running))) :
    Invariant keysOf { s with
      cache := { s.cache with
        state := updateState s.cache.state (Command.put running).evt
        pending := none
        uploads := s.cache.uploads ++ (Command.put running).requests
        issued := s.cache.issued ++ (Command.put running).requests }
      channel := tell s.channel s.sender .done } := by
  have puts : s.command = some (.put running) := by simp [System.command, pending, commandOf]
  have grows : ∀ key, s.Found key → ((updateState s.cache.state (Command.put running).evt).lookup key).isSome :=
    fun key => update_keeps_found s.cache.state (.put running) key
  have told : ∀ u, (tell s.channel s.sender .done u).countP Reply.grants = (s.channel u).countP Reply.grants := by
    intro u
    simp [tell_count, Reply.grants]
  refine { inv with tickets := ?_, acknowledged := ?_, requests := ?_, stored := ?_, missing := ?_, covered := ?_, uploads := ?_ }
  · intro u
    have before := inv.tickets u
    simp only [System.verifying, puts] at before
    simpa only [System.verifying, System.command, Option.map_none, told] using before
  · intro u
    have before := inv.acknowledged u
    simp only [System.putting, puts] at before
    simp only [System.putting, System.command, Option.map_none, List.count, tell_count, beq_self_eq_true, and_true]
    simp only [List.count] at before
    omega
  · have same : ({ s with channel := tell s.channel s.sender .done } : System).waiting = s.waiting := by
      funext u
      simp [System.waiting, tell_requests, Reply.requests]
    exact same ▸ inv.requests
  · intro t member reported
    refine .inl ?_
    rcases inv.stored t member reported with found | ⟨command, _⟩
    · exact grows _ found
    · rw [puts, Option.some.injEq, Command.put.injEq] at command
      simp [System.Found, updateState, Command.evt, command]
  · intro startId missing command
    simp [System.command] at command
  · intro u granted key member
    have before : (s.channel u).any Reply.grants ∨ (s.uploaders u).requested.isSome := by
      simpa only [← List.countP_pos_iff, List.any_eq_true, told] using granted
    exact (inv.covered u before key member).imp (grows key) id
  · intro f
    simpa [Command.requests] using inv.uploads f

theorem ungranted_requests (replies : List Reply) (ungranted : replies.countP Reply.grants = 0) :
    replies.flatMap Reply.requests = [] := by
  rw [List.flatMap_eq_nil_iff]
  intro m member
  rw [List.countP_eq_zero] at ungranted
  cases m with
  | done => rfl
  | jarsRequest requests => exact absurd rfl (ungranted _ member)

theorem not_granted (u : Nat) (inv : Invariant keysOf s) (verifies : s.verifying u = 1) :
    (s.channel u).countP Reply.grants = 0 ∧ (s.uploaders u).requested = none ∧ s.waiting u = [] := by
  have one : (if u ∈ s.asked then 1 else 0) ≤ 1 := by split <;> omega
  have before := inv.tickets u
  have ungranted : (s.channel u).countP Reply.grants = 0 := by omega
  have unrequested : (s.uploaders u).requested = none := by
    cases requested : (s.uploaders u).requested with
    | none => rfl
    | some requests =>
        simp only [requested, Option.isSome_some, if_true] at before
        omega
  refine ⟨ungranted, unrequested, ?_⟩
  rw [System.waiting, ungranted_requests _ ungranted, ((inv.sound u).fresh unrequested).1]
  rfl

theorem jar_requests_targets (first : Nat) (running : List Finished) :
    (jarRequests first running).map JarRequest.target = List.range' first running.length := by
  rw [jarRequests, List.map_map, ← List.zipIdx_map_snd first running]
  rfl

theorem jar_request_get (first : Nat) (running : List Finished) (r : JarRequest) (member : r ∈ jarRequests first running) :
    ∃ idx f, running[idx]? = some f ∧ r = ⟨f.key, first + idx⟩ := by
  simp only [jarRequests, List.mem_map] at member
  obtain ⟨⟨f, target⟩, walked, rfl⟩ := member
  rw [List.mem_zipIdx_iff_le_and_getElem?_sub] at walked
  exact ⟨target - first, f, walked.2, by simp only; rw [Nat.add_sub_cancel' walked.1]⟩

theorem jar_request_member (first : Nat) (running : List Finished) (idx : Nat) (f : Finished) (here : running[idx]? = some f) :
    ⟨f.key, first + idx⟩ ∈ jarRequests first running := by
  simp only [jarRequests, List.mem_map]
  refine ⟨(f, first + idx), ?_, rfl⟩
  rw [List.mem_zipIdx_iff_le_and_getElem?_sub]
  simpa using here

theorem created_active (transfers : List Transfer) (requests : List Finished) (v u : Nat) :
    active (transfers ++ requests.map (fun running => ⟨running, v, .created⟩)) u = active transfers u := by
  have idle : (requests.map (fun running => (⟨running, v, .created⟩ : Transfer))).countP
      (fun t => t.origin = u ∧ (t.phase = .started ∨ t.phase = .finished)) = 0 := by
    simp [List.countP_eq_zero]
  rw [active, List.countP_append, idle, Nat.add_zero, active]

theorem created_requests (order : List JarRequest) (running : List Finished) (waiting after : Nat → List JarRequest)
    (transfers : List Transfer) (u : Nat) (walked : order.Perm (jarRequests transfers.length running))
    (empty : waiting u = []) (grown : after u = order) (others : ∀ v, v ≠ u → after v = waiting v)
    (requests : Requests waiting transfers) :
    Requests after (transfers ++ running.map (fun running => ⟨running, u, .created⟩)) := by
  refine ⟨?_, ?_, ?_⟩
  · intro v
    by_cases here : v = u
    · subst here
      rw [grown, (walked.map JarRequest.target).nodup_iff, jar_requests_targets]
      exact List.nodup_range'
    · rw [others v here]
      exact requests.distinct v
  · intro v r member
    by_cases here : v = u
    · subst here
      rw [grown, walked.mem_iff] at member
      obtain ⟨idx, f, found, rfl⟩ := jar_request_get transfers.length running r member
      refine ⟨⟨f, v, .created⟩, ?_, rfl, rfl, rfl⟩
      simp [List.getElem?_append_right, found]
    · rw [others v here] at member
      obtain ⟨t, found, facts⟩ := requests.waits v r member
      exact ⟨t, by rw [List.getElem?_append_left (List.getElem?_eq_some_iff.mp found).1, found], facts⟩
  · intro target t found created
    by_cases old : target < transfers.length
    · rw [List.getElem?_append_left old] at found
      obtain ⟨r, member, same⟩ := requests.created target t found created
      refine ⟨r, ?_, same⟩
      by_cases here : t.origin = u
      · rw [here, empty] at member
        simp at member
      · rwa [others _ here]
    · rw [List.getElem?_append_right (by omega), List.getElem?_map, Option.map_eq_some_iff] at found
      obtain ⟨f, here, rfl⟩ := found
      have member := jar_request_member transfers.length running (target - transfers.length) f here
      rw [Nat.add_sub_cancel' (Nat.le_of_not_lt old)] at member
      refine ⟨⟨f.key, target⟩, ?_, rfl⟩
      simpa only [grown, walked.mem_iff] using member

theorem requests_keys (startId : Long) (missing : List JarKey) :
    (Command.verify startId missing).requests.map Finished.key = missing := by
  simp only [Command.requests, List.map_map, Function.comp_def]
  exact List.zipIdx_map_fst 0 missing

theorem handle_verify_invariant (startId : Long) (missing : List JarKey) (order : List JarRequest) (inv : Invariant keysOf s)
    (pending : s.cache.pending = some (.persisted (.verify startId missing)))
    (walked : order.Perm (jarRequests s.transfers.length (Command.verify startId missing).requests)) :
    Invariant keysOf { s with
      cache := { s.cache with
        state := updateState s.cache.state (Command.verify startId missing).evt
        pending := none
        uploads := s.cache.uploads ++ (Command.verify startId missing).requests
        issued := s.cache.issued ++ (Command.verify startId missing).requests }
      transfers := s.transfers ++
        (Command.verify startId missing).requests.map (fun running => ⟨running, s.sender, .created⟩)
      channel := tell s.channel s.sender (.jarsRequest order) } := by
  have verifies : s.command = some (.verify startId missing) := by simp [System.command, pending, commandOf]
  obtain ⟨ungranted, unrequested, empty⟩ := not_granted keysOf s s.sender inv (by simp [System.verifying, verifies])
  refine { inv with tickets := ?_, acknowledged := ?_, requests := ?_, stored := ?_, missing := ?_, covered := ?_, uploads := ?_ }
  · intro u
    have before := inv.tickets u
    simp only [System.verifying, verifies] at before
    simp only [System.verifying, System.command, Option.map_none, tell_count, Reply.grants, and_true]
    omega
  · intro u
    have before := inv.acknowledged u
    simp only [System.putting, verifies] at before
    simp only [System.putting, System.command, Option.map_none, created_active]
    simpa [List.count, tell_count] using before
  · refine created_requests order (Command.verify startId missing).requests s.waiting _ s.transfers s.sender walked empty ?_ ?_
      inv.requests
    · have nothing : (s.channel s.sender).flatMap Reply.requests = [] ∧ (s.uploaders s.sender).state.queue = [] := by
        simpa only [System.waiting, List.append_eq_nil_iff] using empty
      simp [System.waiting, tell, nothing, Reply.requests]
    · intro v other
      simp only [System.waiting, tell_other s.channel s.sender v _ other]
  · intro t member reported
    rcases List.mem_append.mp member with old | new
    · refine .inl ((inv.stored t old reported).resolve_right ?_)
      simp [verifies]
    · obtain ⟨running, _, rfl⟩ := List.mem_map.mp new
      cases reported
  · intro otherId others command
    simp [System.command] at command
  · intro u granted key member
    by_cases here : u = s.sender
    · subst here
      refine (inv.missing startId missing verifies key member).imp id ?_
      intro absent
      rw [← requests_keys startId missing] at absent
      obtain ⟨running, inside, same⟩ := List.mem_map.mp absent
      exact ⟨⟨running, s.sender, .created⟩, List.mem_append_right _ (List.mem_map_of_mem inside), rfl, same⟩
    · simp only [tell_other s.channel s.sender u _ here] at granted
      refine (inv.covered u granted key member).imp id ?_
      rintro ⟨t, old, facts⟩
      exact ⟨t, List.mem_append_left _ old, facts⟩
  · intro f
    simp only [List.count_append, unreported, List.countP_append]
    rw [inv.uploads f, unreported, Nat.add_left_cancel_iff, List.countP_map, List.count]
    congr 1
    funext running
    simp [beq_eq_decide]

theorem due_reply (u : Nat) (m : Reply) (rest : List Reply) (inv : Invariant keysOf s) (head : s.channel u = m :: rest) :
    (s.uploaders u).state.stopped = false ∧ (s.uploaders u).requested.isSome = !m.grants := by
  have sound := inv.sound u
  cases m with
  | jarsRequest requests =>
      have one : (if u ∈ s.asked then 1 else 0) ≤ 1 := by split <;> omega
      have tickets := inv.tickets u
      simp only [head, List.countP_cons, Reply.grants, if_true] at tickets
      have unrequested : (s.uploaders u).requested = none := by
        cases requested : (s.uploaders u).requested with
        | none => rfl
        | some others =>
            simp only [requested, Option.isSome_some, if_true] at tickets
            omega
      refine ⟨?_, by simp [unrequested, Reply.grants]⟩
      rw [(sound.fresh unrequested).1]
      rfl
  | done =>
      have acknowledged := inv.acknowledged u
      simp only [head, List.count_cons_self] at acknowledged
      constructor
      · cases stopped : (s.uploaders u).state.stopped with
        | false => rfl
        | true =>
            obtain ⟨_, _, free⟩ := sound.stops.mp stopped
            have slots := sound.slots
            omega
      · cases requested : (s.uploaders u).requested with
        | some requests => rfl
        | none =>
            rw [(sound.fresh requested).2.1] at acknowledged
            simp only [List.length_nil] at acknowledged
            omega

theorem receive_ledger (p : Uploader) (m : Reply) (running : p.state.stopped = false) :
    (p.receive m).1.requested = (if m.grants then some m.requests else p.requested) ∧
      (p.receive m).1.acked = p.acked + [m].count .done := by
  cases m with
  | jarsRequest requests =>
      rw [receive_requests p requests running]
      simp [Reply.grants, Reply.requests]
  | done =>
      rw [receive_done p running]
      simp [Reply.grants]

theorem taken_requests (u : Nat) (m : Reply) (rest : List Reply) (started queue : List JarRequest)
    (head : s.channel u = m :: rest) (split : started ++ queue = m.requests ++ (s.uploaders u).state.queue) :
    (s.waiting u).Perm (started ++ (rest.flatMap Reply.requests ++ queue)) := by
  calc s.waiting u = m.requests ++ rest.flatMap Reply.requests ++ (s.uploaders u).state.queue := by
        rw [System.waiting, head, List.flatMap_cons]
    _ = m.requests ++ (rest.flatMap Reply.requests ++ (s.uploaders u).state.queue) := List.append_assoc _ _ _
    List.Perm _ (rest.flatMap Reply.requests ++ (m.requests ++ (s.uploaders u).state.queue)) := by
      simpa only [List.append_assoc] using List.perm_append_comm_assoc _ _ _
    _ = rest.flatMap Reply.requests ++ (started ++ queue) := by rw [split]
    List.Perm _ (started ++ (rest.flatMap Reply.requests ++ queue)) := List.perm_append_comm_assoc _ _ _

theorem taken_created (u : Nat) (started others : List JarRequest) (inv : Invariant keysOf s)
    (taken : (s.waiting u).Perm (started ++ others)) :
    (started.map JarRequest.target).Nodup ∧
      ∀ target ∈ started.map JarRequest.target,
        ∃ t, s.transfers[target]? = some t ∧ t.origin = u ∧ t.phase = .created := by
  constructor
  · have all := (taken.map JarRequest.target).nodup_iff.mp (inv.requests.distinct u)
    rw [List.map_append, List.nodup_append] at all
    exact all.1
  · intro target member
    obtain ⟨r, inside, rfl⟩ := List.mem_map.mp member
    obtain ⟨t, found, _, facts⟩ := inv.requests.waits u r (taken.mem_iff.mpr (List.mem_append_left _ inside))
    exact ⟨t, found, facts⟩

theorem receive_granted (u v : Nat) (m : Reply) (rest : List Reply) (after : Uploader) (head : s.channel u = m :: rest)
    (requested : after.requested = if m.grants then some m.requests else (s.uploaders u).requested)
    (granted : (Function.update s.channel u rest v).any Reply.grants ∨
      (Function.update s.uploaders u after v).requested.isSome) :
    (s.channel v).any Reply.grants ∨ (s.uploaders v).requested.isSome := by
  by_cases here : v = u
  · subst here
    simp only [Function.update_self, requested] at granted
    simp only [head, List.any_cons, Bool.or_eq_true]
    cases grants : m.grants with
    | true => exact .inl (.inl rfl)
    | false => simpa [grants] using granted
  · simpa [Function.update_of_ne here] using granted

theorem receive_targets (u v : Nat) (m : Reply) (rest : List Reply) (after : Uploader) (requests : List JarRequest)
    (inv : Invariant keysOf s) (head : s.channel u = m :: rest)
    (requested : after.requested = if m.grants then some m.requests else (s.uploaders u).requested)
    (granted : (Function.update s.uploaders u after v).requested = some requests) :
    (requests.map JarRequest.target).Nodup := by
  by_cases here : v = u
  · subst here
    simp only [Function.update_self, requested] at granted
    split at granted
    · rw [Option.some.injEq] at granted
      subst granted
      have all := inv.requests.distinct v
      rw [System.waiting, head, List.flatMap_cons, List.append_assoc, List.map_append, List.nodup_append] at all
      exact all.1
    · exact inv.targets v requests granted
  · rw [Function.update_of_ne here] at granted
    exact inv.targets v requests granted

theorem receive_invariant (u : Nat) (m : Reply) (rest : List Reply) (inv : Invariant keysOf s)
    (head : s.channel u = m :: rest) :
    Invariant keysOf { s with
      transfers := startTransfers (((s.uploaders u).receive m).2.map JarRequest.target) s.transfers
      channel := Function.update s.channel u rest
      uploaders := Function.update s.uploaders u ((s.uploaders u).receive m).1 } := by
  obtain ⟨running, due⟩ := due_reply keysOf s u m rest inv head
  obtain ⟨sound, split, started⟩ := receive_sound (s.uploaders u) m (inv.sound u) running due
  obtain ⟨requested, acked⟩ := receive_ledger (s.uploaders u) m running
  generalize (s.uploaders u).receive m = after at *
  have taken := taken_requests s u m rest after.2 after.1.state.queue head split
  obtain ⟨distinct, each⟩ := taken_created keysOf s u after.2 _ inv taken
  refine { inv with
    sound := ?_, tickets := ?_, acknowledged := ?_, requests := ?_, targets := ?_, stored := ?_, covered := ?_, uploads := ?_ }
  · intro v
    by_cases here : v = u
    · subst here
      simpa using sound
    · simpa [Function.update_of_ne here] using inv.sound v
  · intro v
    have before := inv.tickets v
    change _ + s.verifying v + _ + _ = _
    by_cases here : v = u
    · subst here
      simp only [head, List.countP_cons, due] at before
      simp only [Function.update_self, requested]
      cases grants : m.grants <;> simp [grants, due] at before ⊢ <;> omega
    · simpa [Function.update_of_ne here] using before
  · intro v
    have before := inv.acknowledged v
    have counted := start_transfers_count (fun t => t.origin = v ∧ (t.phase = .started ∨ t.phase = .finished))
      (if v = u then 1 else 0) (after.2.map JarRequest.target) s.transfers distinct ?_
    · change active _ v = active _ v + _ at counted
      change _ = _ + s.putting v + _ + _
      rw [counted]
      by_cases here : v = u
      · subst here
        rw [head, List.count_cons] at before
        simp only [Function.update_self, started, acked, List.length_append, List.length_map, List.count_singleton, if_true]
        omega
      · simp only [Function.update_of_ne here, if_neg here]
        omega
    · intro target member
      obtain ⟨t, found, origin, created⟩ := each target member
      refine ⟨t, found, ?_⟩
      by_cases here : u = v <;> simp [Transfer.begin, origin, created, here, eq_comm]
  · refine start_requests s.waiting _ s.transfers u _ ?_ ?_ inv.requests
    · simpa [System.waiting] using taken
    · intro v other
      simp [System.waiting, Function.update_of_ne other]
  · intro v requests granted
    exact receive_targets keysOf s u v m rest after.1 requests inv head requested granted
  · intro t member reported
    rcases start_transfers_member _ s.transfers t member with ⟨old, inside, rfl | rfl⟩
    · exact inv.stored t inside reported
    · cases reported
  · intro v granted key member
    have before := receive_granted s u v m rest after.1 head requested granted
    exact (inv.covered v before key member).imp id (start_transfers_serves _ s.transfers v key)
  · intro f
    have counted := start_transfers_count (fun t => t.running = f ∧ t.phase ≠ .reported) 0
      (after.2.map JarRequest.target) s.transfers distinct ?_
    · rw [inv.uploads f, unreported, unreported, counted, Nat.zero_mul, Nat.add_zero]
    · intro target member
      obtain ⟨t, found, _, created⟩ := each target member
      exact ⟨t, found, by simp [Transfer.begin, created]⟩

theorem step_invariant (event : Event) (next : System) (inv : Invariant keysOf s)
    (stepped : step keysOf s event = some next) : Invariant keysOf next := by
  cases event with
  | preStart u =>
      simp only [step, Option.ite_none_left_eq_some, Option.some.injEq] at stepped
      obtain ⟨fresh, rfl⟩ := stepped
      exact pre_start_invariant keysOf s u inv fresh
  | verifyRequest u missing =>
      simp only [step, JarCacheActor.step, Option.ite_none_right_eq_some, Option.map_eq_some_iff, Option.some.injEq] at stepped
      obtain ⟨asks, _, ⟨⟨idle, walked⟩, rfl⟩, rfl⟩ := stepped
      exact verify_request_invariant keysOf s u missing inv asks idle walked
  | get keys =>
      simp only [step, JarCacheActor.step, Option.map_eq_some_iff, Option.ite_none_right_eq_some, Option.some.injEq] at stepped
      obtain ⟨_, ⟨_, rfl⟩, rfl⟩ := stepped
      exact inv
  | persist =>
      simp only [step, JarCacheActor.step, Option.map_eq_some_iff] at stepped
      obtain ⟨cache, persisted, rfl⟩ := stepped
      split at persisted
      · rename_i command pending
        rw [Option.some.injEq] at persisted
        subst persisted
        exact cache_frame keysOf s _ inv rfl (by simp [pending, commandOf]) rfl
      · simp at persisted
  | handle order =>
      simp only [step] at stepped
      split at stepped
      · rename_i startId missing pending
        simp only [JarCacheActor.step, pending, Option.map_some, Option.ite_none_right_eq_some, Option.some.injEq] at stepped
        obtain ⟨walked, rfl⟩ := stepped
        exact handle_verify_invariant keysOf s startId missing order inv pending walked
      · rename_i running pending
        simp only [JarCacheActor.step, pending, Option.map_some, Option.some.injEq] at stepped
        subst stepped
        exact handle_put_invariant keysOf s running inv pending
      · simp at stepped
  | receive u =>
      simp only [step] at stepped
      split at stepped
      · simp at stepped
      · rename_i m rest head
        rw [Option.some.injEq] at stepped
        subst stepped
        exact receive_invariant keysOf s u m rest inv head
  | complete target =>
      simp only [step] at stepped
      split at stepped
      · simp at stepped
      · rename_i t here
        simp only [Option.ite_none_right_eq_some, Option.some.injEq] at stepped
        obtain ⟨started, rfl⟩ := stepped
        exact complete_invariant keysOf s target t inv here started
  | finished target =>
      simp only [step] at stepped
      split at stepped
      · simp at stepped
      · rename_i t here
        simp only [JarCacheActor.step, Option.ite_none_right_eq_some, Option.map_eq_some_iff, Option.some.injEq] at stepped
        obtain ⟨finished, _, ⟨⟨idle, _⟩, rfl⟩, rfl⟩ := stepped
        exact finished_invariant keysOf s target t inv here finished idle

theorem active_member (transfers : List Transfer) (t : Transfer) (member : t ∈ transfers)
    (running : t.phase = .started ∨ t.phase = .finished) : 0 < active transfers t.origin :=
  List.countP_pos_iff.mpr ⟨t, member, by simpa using running⟩

theorem stopped_found (u : Nat) (key : JarKey) (inv : Invariant keysOf s) (stopped : (s.uploaders u).state.stopped = true)
    (member : key ∈ keysOf u) : s.Found key := by
  have sound := inv.sound u
  obtain ⟨requested, empty, free⟩ := sound.stops.mp stopped
  have slots := sound.slots
  have acknowledged := inv.acknowledged u
  have one : (if u ∈ s.asked then 1 else 0) ≤ 1 := by split <;> omega
  have tickets := inv.tickets u
  simp only [requested, if_true] at tickets
  have idle : active s.transfers u = 0 ∧ s.putting u = 0 := by omega
  rcases inv.covered u (.inr requested) key member with found | ⟨t, inside, origin, same⟩
  · exact found
  · cases phase : t.phase with
    | created =>
        obtain ⟨target, here⟩ := List.mem_iff_getElem?.mp inside
        obtain ⟨r, waits, _⟩ := inv.requests.created target t here phase
        rw [origin, System.waiting, ungranted_requests _ (by omega), empty] at waits
        simp at waits
    | started =>
        have running := active_member s.transfers t inside (.inl phase)
        rw [origin] at running
        omega
    | finished =>
        have running := active_member s.transfers t inside (.inr phase)
        rw [origin] at running
        omega
    | reported =>
        rcases inv.stored t inside phase with found | ⟨command, sender⟩
        · exact same ▸ found
        · have puts := idle.2
          simp [System.putting, command, sender, origin] at puts

-- No more happens than that another uploader is created or that somebody asks for jars.
def Quiet : Prop :=
  ∀ event next, step keysOf s event = some next → (∃ u, event = .preStart u) ∨ ∃ keys, event = .get keys

theorem quiet_idle (quiet : Quiet keysOf s) : s.cache.pending = none := by
  cases pending : s.cache.pending with
  | none => rfl
  | some waits =>
      cases waits with
      | persisting command =>
          have moves := quiet .persist _ (by simp only [step, JarCacheActor.step, pending, Option.map_some]; rfl)
          simp at moves
      | persisted command =>
          cases command with
          | verify startId missing =>
              have moves := quiet (.handle (jarRequests s.transfers.length (Command.verify startId missing).requests)) _
                (by simp only [step, JarCacheActor.step, pending, Option.map_some, List.Perm.refl, if_true]; rfl)
              simp at moves
          | put running =>
              have moves := quiet (.handle []) _ (by simp only [step, JarCacheActor.step, pending, Option.map_some]; rfl)
              simp at moves

theorem quiet_unasked (quiet : Quiet keysOf s) : s.asking = [] := by
  rw [List.eq_nil_iff_forall_not_mem]
  intro u asks
  have idle := quiet_idle keysOf s quiet
  have moves := quiet (.verifyRequest u (missingKeys s.cache.state (keysOf u))) _
    (by simp only [step, JarCacheActor.step, asks, idle, List.Perm.refl, and_self, if_true, Option.map_some]; rfl)
  simp at moves

theorem quiet_delivered (u : Nat) (quiet : Quiet keysOf s) : s.channel u = [] := by
  cases head : s.channel u with
  | nil => rfl
  | cons m rest =>
      have moves := quiet (.receive u) _ (by simp only [step, head]; rfl)
      simp at moves

theorem quiet_inactive (u : Nat) (inv : Invariant keysOf s) (quiet : Quiet keysOf s) : active s.transfers u = 0 := by
  rw [active, List.countP_eq_zero]
  intro t member running
  obtain ⟨target, here⟩ := List.mem_iff_getElem?.mp member
  simp only [decide_eq_true_eq] at running
  rcases running.2 with started | finished
  · have moves := quiet (.complete target) _ (by simp only [step, here, started, if_true]; rfl)
    simp at moves
  · have idle := quiet_idle keysOf s quiet
    have inFlight : t.running ∈ s.cache.uploads := by
      rw [← List.count_pos_iff, inv.uploads, unreported, List.countP_pos_iff]
      exact ⟨t, member, by simp [finished]⟩
    have moves := quiet (.finished target) _
      (by simp only [step, JarCacheActor.step, here, finished, idle, inFlight, and_self, if_true, Option.map_some]; rfl)
    simp at moves

theorem quiet_stopped (u : Nat) (inv : Invariant keysOf s) (quiet : Quiet keysOf s) (asked : u ∈ s.asked) :
    (s.uploaders u).state.stopped = true := by
  have sound := inv.sound u
  have pending : s.command = none := by rw [System.command, quiet_idle keysOf s quiet, Option.map_none]
  have tickets := inv.tickets u
  have acknowledged := inv.acknowledged u
  simp only [quiet_unasked keysOf s quiet, quiet_delivered keysOf s u quiet, System.verifying, pending, asked,
    List.count_nil, List.countP_nil, if_true] at tickets
  simp only [quiet_inactive keysOf s u inv quiet, quiet_delivered keysOf s u quiet, System.putting, pending,
    List.count_nil] at acknowledged
  have slots := sound.slots
  have free : (s.uploaders u).state.slots = parrallelism := by omega
  refine sound.stops.mpr ⟨?_, sound.greedy.resolve_right (by rw [free]; decide), free⟩
  cases requested : (s.uploaders u).requested with
  | some requests => rfl
  | none => simp [requested] at tickets

end Steps

theorem initial_invariant (keysOf : Nat → List JarKey) : Invariant keysOf (system keysOf).initial := by
  have sound : Uploader.initial.Sound :=
    ⟨fun _ => ⟨rfl, rfl, rfl⟩, rfl, rfl, by decide, .inl rfl, by simp [Uploader.initial, State.initial]⟩
  refine ⟨fun _ => sound, List.nodup_nil, ?_, ?_, ⟨?_, ?_, ?_⟩, ?_, ?_, ?_, ?_, ?_⟩ <;>
    simp [system, actor, System.verifying, System.putting, System.command, System.waiting, Uploader.initial, State.initial,
      active, unreported]

-- Whatever the uploaders are asked to bring, and in whatever order messages and transfers come through.
theorem uploader_exact (keysOf : Nat → List JarKey) (s : System) (reached : (system keysOf).Reachable s) (u : Nat) :
    (∀ requests, (s.uploaders u).requested = some requests →
      ((s.uploaders u).state.slots + ((s.uploaders u).started.length - (s.uploaders u).acked : Int) = parrallelism ∧
        (s.uploaders u).acked ≤ (s.uploaders u).started.length ∧ 0 ≤ (s.uploaders u).state.slots) ∧
      (s.uploaders u).started ++ (s.uploaders u).state.queue = requests ∧ (requests.map JarRequest.target).Nodup ∧
      ((s.uploaders u).state.stopped = true → (s.uploaders u).started = requests)) ∧
    ((s.uploaders u).state.stopped = true → (∀ key ∈ keysOf u, (s.cache.state.lookup key).isSome) ∧
      (s.cache.pending = none → step keysOf s (.get (keysOf u)) = some s)) ∧
    (Quiet keysOf s → u ∈ s.asked → (s.uploaders u).state.stopped = true) := by
  have inv := reachable_keeps (system keysOf) (Invariant keysOf) (initial_invariant keysOf)
    (fun s event next inv stepped => step_invariant keysOf s event next inv stepped) s reached
  have sound := inv.sound u
  refine ⟨?_, ?_, quiet_stopped keysOf s u inv⟩
  · intro requests requested
    have slots := sound.slots
    have acknowledged := inv.acknowledged u
    have order : (s.uploaders u).started ++ (s.uploaders u).state.queue = requests := by
      simpa [requested] using sound.order
    refine ⟨⟨by omega, by omega, sound.positive⟩, order, inv.targets u requests requested, ?_⟩
    intro stopped
    simpa [(sound.stops.mp stopped).2.1] using order
  · intro stopped
    have found := fun key member => stopped_found keysOf s u key inv stopped member
    refine ⟨found, fun idle => ?_⟩
    simp only [step, JarCacheActor.step]
    rw [if_pos ⟨idle, found⟩]
    rfl

-- Two uploaders bring the same jar at the same time, and both see theirs through.
theorem uploader_exact_two :
    ∃ s, (system (fun _ => [jarKey "jartree"])).Reachable s ∧ (s.uploaders 1).state.stopped = true ∧
      (s.cache.state.lookup (jarKey "jartree")).isSome := by
  let key := jarKey "jartree"
  let events : List Event := [.preStart 0, .preStart 1, .verifyRequest 0 [key], .persist, .handle [⟨key, 0⟩], .verifyRequest 1 [key],
    .persist, .handle [⟨key, 1⟩], .receive 1, .receive 0, .complete 0, .complete 1, .finished 1, .persist, .handle [],
    .receive 1]
  have ran : ((system (fun _ => [key])).run (system (fun _ => [key])).initial events).map
      (fun s => (s.uploaders 1).state.stopped) = some true := by decide +kernel
  obtain ⟨s, run, stopped⟩ := Option.map_eq_some_iff.mp ran
  exact ⟨s, ⟨events, run⟩, stopped, ((uploader_exact _ s ⟨events, run⟩ 1).2.1 stopped).1 key (by simp)⟩

end Toolbox8.JarCacheUploader
