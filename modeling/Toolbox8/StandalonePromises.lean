import Toolbox8.StandaloneUpload

set_option autoImplicit false

namespace Toolbox8.JarTreeStandalone

open Base AkkaStreamCoding AkkaStreamCoding.StateMachine

-- What the future of a FileIO.toPath succeeds with.
structure IOResult where
  count : Nat
  wasSuccessful : Bool
deriving DecidableEq, Repr

-- A Data on its way into a sink: FileIO.toPath where putAsync has accepted the id, Sink.ignore where not. A sink that
-- gives up because of the file cancels the data and does not see its end.
structure Upload where
  id : String
  accepted : Bool
  data : Data
  left : List ByteString
  written : ByteString
  sawEnd : Option Ended
deriving DecidableEq, Repr

def Upload.start (id : String) (accepted : Bool) (data : Data) : Upload := ⟨id, accepted, data, data.elems, [], none⟩

def Upload.Whole (u : Upload) : Prop := u.written = u.data.elems.flatten ∧ u.sawEnd = some .completed

-- promises are the completed ones, each with the upload it belongs to.
structure Verifying (Cache : Type) where
  cache : Cache
  transition : ServerTransition
  out : List Message
  current : Option Upload
  accepted : List String
  promises : List Upload
  log : List (String × IOResult)
  failed : Bool

-- The write of an element may throw after some of its bytes. Meanwhile the cache changes elsewhere and the flow may fail
-- for reasons of its own.
inductive Progress (Cache : Type) where
  | arrives (data : Data) (opens : Bool)
  | element (threwAfter : Option Nat)
  | ends
  | elsewhere (cache : Cache)
  | fails

namespace Verifying

variable {Cache : Type} (d : Deployment Cache)

-- The future of a step has succeeded.
def proceed (s : Verifying Cache) : Option (Verifying Cache) :=
  match s.transition with
  | .sequenceIn _ tail out next =>
      let state : ServerState := sequenceInAndState [] tail ⟨out, next⟩
      some { s with current := none, transition := state.next, out := s.out ++ state.out }
  | .named _ => none
  | .endNext => none

-- The result is logged, whatever it says, and the promise succeeds.
def received (s : Verifying Cache) (u : Upload) (result : IOResult) : Option (Verifying Cache) :=
  proceed { s with log := s.log ++ [(u.id, result)], promises := s.promises ++ [u] }

def arrives (s : Verifying Cache) (data : Data) (opens : Bool) (id : String) : Option (Verifying Cache) :=
  match d.jarCache.putAsync s.cache id with
  | none => some { s with current := some (.start id false data) }
  | some cache =>
      let accepted := { s with cache := cache, accepted := s.accepted ++ [id] }
      if opens then some { accepted with current := some (.start id true data) }
      else accepted.received (.start id true data) ⟨0, false⟩

def element (s : Verifying Cache) (u : Upload) (threwAfter : Option Nat) (bs : ByteString) (rest : List ByteString) :
    Option (Verifying Cache) :=
  match u.accepted, threwAfter with
  | true, none => some { s with current := some { u with left := rest, written := u.written ++ bs } }
  | true, some n => s.received { u with left := rest, written := u.written ++ bs.take n } ⟨u.written.length, false⟩
  | false, none => some { s with current := some { u with left := rest } }
  | false, some _ => none

def ends (s : Verifying Cache) (u : Upload) : Option (Verifying Cache) :=
  if u.accepted then
    s.received { u with sawEnd := some u.data.ended } ⟨u.written.length, decide (u.data.ended = .completed)⟩
  else
    match u.data.ended with
    | .completed => s.proceed
    | .failed => some { s with current := none, failed := true }

def step (s : Verifying Cache) : Progress Cache → Option (Verifying Cache)
  | .arrives data opens =>
      match s.failed, s.current, s.transition with
      | false, none, .sequenceIn id _ _ _ => s.arrives d data opens id
      | _, _, _ => none
  | .element threwAfter =>
      match s.current with
      | none => none
      | some u =>
          match u.left with
          | [] => none
          | bs :: rest => s.element u threwAfter bs rest
  | .ends =>
      match s.current with
      | none => none
      | some u => if u.left = [] then s.ends u else none
  | .elsewhere cache => some { s with cache := cache }
  | .fails => some { s with failed := true }

end Verifying

section Promises

variable {Cache : Type} (d : Deployment Cache) (idxs : List Int) (ids : List String) (cache : Cache)

def verification : Machine (Verifying Cache) (Progress Cache) where
  initial := ⟨cache, (verifyRespone d idxs ids).next, (verifyRespone d idxs ids).out, none, [], [], [], false⟩
  step := Verifying.step d

-- A promise that succeeds tells of a jar that is wholly written, and so does Done of all that were accepted.
structure KeepsWord (s : Verifying Cache) : Prop where
  promises : ∀ u ∈ s.promises, u.Whole
  done : doneMessage d ∈ s.out → s.promises.map Upload.id = s.accepted ∧ ∀ u ∈ s.promises, u.Whole

-- An accepted upload does not fail: its file opens, its bytes are written, its data completes.
def Undisturbed (s : Verifying Cache) : Progress Cache → Prop
  | .arrives _ opens => opens = true ∨ ∀ id tail out next, s.transition = .sequenceIn id tail out next →
      d.jarCache.putAsync s.cache id = none
  | .element threwAfter => threwAfter = none
  | .ends => ∀ u, s.current = some u → u.accepted = true → u.data.ended = .completed
  | .elsewhere _ => True
  | .fails => True

-- The steps that are left, the first of which may be under way.
inductive Awaits : ServerTransition → List Message → Prop where
  | more (id : String) (rest : List String) :
      Awaits (.sequenceIn id rest [doneMessage d] (.named .start)) [responseMessage d idxs]
  | done : Awaits (.named .start) [responseMessage d idxs, doneMessage d]

structure Upload.Underway (u : Upload) : Prop where
  unended : u.sawEnd = none
  content : u.accepted = true → u.written ++ u.left.flatten = u.data.elems.flatten

def underwayIds (current : Option Upload) : List String :=
  match current with
  | none => []
  | some u => if u.accepted then [u.id] else []

structure Sound (s : Verifying Cache) : Prop where
  awaits : Awaits d idxs s.transition s.out
  idle : s.transition = .named .start → s.current = none
  underway : ∀ u, s.current = some u → u.Underway
  accepted : s.promises.map Upload.id ++ underwayIds s.current = s.accepted

def Kept (s : Verifying Cache) : Prop := Sound d idxs s ∧ ∀ u ∈ s.promises, u.Whole

def BrokenPromise (s : Verifying Cache) : Prop := ∃ u ∈ s.promises, ¬u.Whole

theorem done_not_response : doneMessage d ≠ responseMessage d idxs := by
  intro same
  cases congrArg Message.origin same

theorem proceed_sound (s next : Verifying Cache) (awaits : Awaits d idxs s.transition s.out)
    (settled : s.promises.map Upload.id = s.accepted) (stepped : s.proceed = some next) :
    Sound d idxs next ∧ next.promises = s.promises := by
  obtain ⟨cache, transition, out, current, accepted, promises, log, failed⟩ := s
  cases awaits with
  | done => simp [Verifying.proceed] at stepped
  | more id rest =>
      cases rest with
      | nil =>
          cases stepped
          exact ⟨⟨.done, fun _ => rfl, nofun, by simpa [underwayIds] using settled⟩, rfl⟩
      | cons later rest =>
          cases stepped
          exact ⟨⟨.more later rest, nofun, nofun, by simpa [underwayIds] using settled⟩, rfl⟩

theorem received_sound (s next : Verifying Cache) (u : Upload) (result : IOResult)
    (awaits : Awaits d idxs s.transition s.out) (settled : s.promises.map Upload.id ++ [u.id] = s.accepted)
    (stepped : s.received u result = some next) : Sound d idxs next ∧ next.promises = s.promises ++ [u] :=
  proceed_sound d idxs { s with log := s.log ++ [(u.id, result)], promises := s.promises ++ [u] } next awaits
    (by simpa using settled) stepped

theorem underway_sound (s : Verifying Cache) (u : Upload) (awaits : Awaits d idxs s.transition s.out)
    (busy : s.transition ≠ .named .start) (current : s.current = some u) (underway : u.Underway)
    (settled : s.promises.map Upload.id ++ underwayIds (some u) = s.accepted) : Sound d idxs s := by
  refine ⟨awaits, fun finished => absurd finished busy, ?_, by rw [current, settled]⟩
  intro v same
  rw [current] at same
  cases same
  exact underway

theorem not_whole_without_end (u : Upload) (cancelled : u.sawEnd = none) : ¬u.Whole := by
  intro whole
  have ended := whole.2
  rw [cancelled] at ended
  cases ended

-- A step either leaves the promises as they are, or completes one that is right when nothing has failed.
def Accounts (s : Verifying Cache) (event : Progress Cache) (next : Verifying Cache) : Prop :=
  Sound d idxs next ∧
    ((next.promises = s.promises ∧ Undisturbed d s event) ∨
      ∃ u, next.promises = s.promises ++ [u] ∧ (u.Whole ↔ Undisturbed d s event))

theorem arrives_accounts (s next : Verifying Cache) (data : Data) (opens : Bool) (sound : Sound d idxs s)
    (stepped : Verifying.step d s (.arrives data opens) = some next) : Accounts d idxs s (.arrives data opens) next := by
  have settled := sound.accepted
  simp only [Verifying.step] at stepped
  split at stepped
  · rename_i id tail out after running idle transition
    have busy : s.transition ≠ .named .start := by
      rw [transition]
      exact nofun
    have started : ∀ accepted, (Upload.start id accepted data).Underway := fun accepted => ⟨rfl, fun _ => rfl⟩
    rw [idle, underwayIds, List.append_nil] at settled
    simp only [Verifying.arrives] at stepped
    split at stepped
    · rename_i cached
      cases stepped
      refine ⟨underway_sound d idxs _ (.start id false data) sound.awaits busy rfl (started false) ?_, .inl ⟨rfl, .inr ?_⟩⟩
      · simpa [underwayIds, Upload.start] using settled
      · intro other tail' out' next' same
        rw [transition] at same
        cases same
        exact cached
    · rename_i cache new
      cases opens with
      | true =>
          cases stepped
          refine ⟨underway_sound d idxs _ (.start id true data) sound.awaits busy rfl (started true) ?_, .inl ⟨rfl, .inl rfl⟩⟩
          simp [underwayIds, Upload.start, settled]
      | false =>
          rw [if_neg Bool.false_ne_true] at stepped
          obtain ⟨kept, grown⟩ := received_sound d idxs { s with cache := cache, accepted := s.accepted ++ [id] } next
            (.start id true data) _ sound.awaits (by simp [Upload.start, settled]) stepped
          refine ⟨kept, .inr ⟨_, grown, ?_⟩⟩
          constructor
          · exact fun whole => absurd whole (not_whole_without_end _ rfl)
          · rintro (opened | cached)
            · cases opened
            · rw [cached id tail out after transition] at new
              cases new
  · cases stepped

theorem element_accounts (s next : Verifying Cache) (threwAfter : Option Nat) (sound : Sound d idxs s)
    (stepped : Verifying.step d s (.element threwAfter) = some next) : Accounts d idxs s (.element threwAfter) next := by
  have settled := sound.accepted
  simp only [Verifying.step] at stepped
  cases current : s.current with
  | none => simp [current] at stepped
  | some u =>
      have underway := sound.underway u current
      have busy : s.transition ≠ .named .start := by
        intro finished
        rw [sound.idle finished] at current
        cases current
      rw [current] at settled
      simp only [current] at stepped
      cases left : u.left with
      | nil => simp [left] at stepped
      | cons bs rest =>
          simp only [left, Verifying.element] at stepped
          split at stepped
          · rename_i accepted
            cases stepped
            refine ⟨underway_sound d idxs _ _ sound.awaits busy rfl ⟨underway.unended, fun _ => ?_⟩ ?_, .inl ⟨rfl, rfl⟩⟩
            · have content := underway.content accepted
              rw [left, List.flatten_cons, ← List.append_assoc] at content
              exact content
            · simpa [underwayIds, accepted] using settled
          · rename_i accepted
            obtain ⟨kept, grown⟩ := received_sound d idxs _ next _ _ sound.awaits
              (by simpa [underwayIds, accepted] using settled) stepped
            refine ⟨kept, .inr ⟨_, grown, ?_⟩⟩
            constructor
            · exact fun whole => absurd whole (not_whole_without_end _ underway.unended)
            · exact nofun
          · rename_i ignored
            cases stepped
            refine ⟨underway_sound d idxs _ _ sound.awaits busy rfl ⟨underway.unended, ?_⟩ ?_, .inl ⟨rfl, rfl⟩⟩
            · exact fun accepted => absurd (ignored.symm.trans accepted) Bool.false_ne_true
            · simpa [underwayIds, ignored] using settled
          · cases stepped

theorem ends_accounts (s next : Verifying Cache) (sound : Sound d idxs s)
    (stepped : Verifying.step d s .ends = some next) : Accounts d idxs s .ends next := by
  have settled := sound.accepted
  simp only [Verifying.step] at stepped
  cases current : s.current with
  | none => simp [current] at stepped
  | some u =>
      have underway := sound.underway u current
      rw [current] at settled
      simp only [current] at stepped
      by_cases left : u.left = []
      · rw [if_pos left, Verifying.ends] at stepped
        by_cases accepted : u.accepted
        · rw [if_pos accepted] at stepped
          obtain ⟨kept, grown⟩ := received_sound d idxs _ next _ _ sound.awaits
            (by simpa [underwayIds, accepted] using settled) stepped
          refine ⟨kept, .inr ⟨_, grown, ?_⟩⟩
          have content := underway.content accepted
          rw [left, List.flatten_nil, List.append_nil] at content
          constructor
          · rintro whole v same _
            rw [current] at same
            cases same
            exact Option.some.inj whole.2
          · intro completes
            exact ⟨content, congrArg some (completes u current accepted)⟩
        · rw [if_neg accepted] at stepped
          have undisturbed : Undisturbed d s .ends := by
            intro v same isAccepted
            rw [current] at same
            cases same
            exact absurd isAccepted accepted
          rw [underwayIds, if_neg accepted, List.append_nil] at settled
          cases ended : u.data.ended with
          | completed =>
              rw [ended] at stepped
              obtain ⟨kept, same⟩ := proceed_sound d idxs s next sound.awaits settled stepped
              exact ⟨kept, .inl ⟨same, undisturbed⟩⟩
          | failed =>
              rw [ended] at stepped
              cases stepped
              exact ⟨⟨sound.awaits, fun _ => rfl, nofun, by simpa [underwayIds] using settled⟩,
                .inl ⟨rfl, undisturbed⟩⟩
      · rw [if_neg left] at stepped
        cases stepped

theorem step_accounts (s : Verifying Cache) (event : Progress Cache) (next : Verifying Cache) (sound : Sound d idxs s)
    (stepped : Verifying.step d s event = some next) : Accounts d idxs s event next := by
  cases event with
  | arrives data opens => exact arrives_accounts d idxs s next data opens sound stepped
  | element threwAfter => exact element_accounts d idxs s next threwAfter sound stepped
  | ends => exact ends_accounts d idxs s next sound stepped
  | elsewhere cache =>
      cases stepped
      exact ⟨⟨sound.awaits, sound.idle, sound.underway, sound.accepted⟩, .inl ⟨rfl, trivial⟩⟩
  | fails =>
      cases stepped
      exact ⟨⟨sound.awaits, sound.idle, sound.underway, sound.accepted⟩, .inl ⟨rfl, trivial⟩⟩

theorem undisturbed_kept (s : Verifying Cache) (event : Progress Cache) (next : Verifying Cache) (kept : Kept d idxs s)
    (met : Undisturbed d s event) (stepped : Verifying.step d s event = some next) : Kept d idxs next := by
  obtain ⟨sound, whole⟩ := kept
  obtain ⟨after, outcome⟩ := step_accounts d idxs s event next sound stepped
  refine ⟨after, fun u member => ?_⟩
  cases outcome with
  | inl same => exact whole u (same.1 ▸ member)
  | inr completed =>
      obtain ⟨new, grown, right⟩ := completed
      rw [grown, List.mem_append, List.mem_singleton] at member
      cases member with
      | inl old => exact whole u old
      | inr isNew => exact isNew ▸ right.mpr met

theorem disturbed_broken (s : Verifying Cache) (event : Progress Cache) (next : Verifying Cache) (kept : Kept d idxs s)
    (disturbed : ¬Undisturbed d s event) (stepped : Verifying.step d s event = some next) :
    Sound d idxs next ∧ BrokenPromise next := by
  obtain ⟨after, outcome⟩ := step_accounts d idxs s event next kept.1 stepped
  refine ⟨after, ?_⟩
  cases outcome with
  | inl same => exact absurd same.2 disturbed
  | inr completed =>
      obtain ⟨new, grown, right⟩ := completed
      exact ⟨new, by simp [grown], fun whole => disturbed (right.mp whole)⟩

theorem broken_stays (s : Verifying Cache) (event : Progress Cache) (next : Verifying Cache)
    (broken : Sound d idxs s ∧ BrokenPromise s) (stepped : Verifying.step d s event = some next) :
    Sound d idxs next ∧ BrokenPromise next := by
  obtain ⟨sound, u, member, cut⟩ := broken
  obtain ⟨after, outcome⟩ := step_accounts d idxs s event next sound stepped
  refine ⟨after, u, ?_, cut⟩
  cases outcome with
  | inl same => exact same.1 ▸ member
  | inr completed =>
      obtain ⟨new, grown, _⟩ := completed
      simp [grown, member]

theorem kept_keeps_word (s : Verifying Cache) (kept : Kept d idxs s) : KeepsWord d s := by
  obtain ⟨sound, whole⟩ := kept
  refine ⟨whole, fun answered => ⟨?_, whole⟩⟩
  have settled := sound.accepted
  have finished : s.transition = .named .start := by
    obtain ⟨cache, transition, out, current, accepted, promises, log, failed⟩ := s
    cases sound.awaits with
    | more id rest => exact absurd (List.mem_singleton.mp answered) (done_not_response d idxs)
    | done => rfl
  rw [sound.idle finished, underwayIds, List.append_nil] at settled
  exact settled

theorem verification_kept : Kept d idxs (verification d idxs ids cache).initial := by
  cases ids with
  | nil => exact ⟨⟨.done, fun _ => rfl, nofun, rfl⟩, nofun⟩
  | cons id rest => exact ⟨⟨.more id rest, nofun, nofun, rfl⟩, nofun⟩

-- In every run: the promises that have succeeded and a Done are right exactly when no accepted upload has failed.
theorem promises_kept_iff (events : List (Progress Cache)) (s : Verifying Cache)
    (ran : (verification d idxs ids cache).run (verification d idxs ids cache).initial events = some s) :
    KeepsWord d s ↔ (verification d idxs ids cache).Meets (Undisturbed d) (verification d idxs ids cache).initial events := by
  cases run_meets_or_breaks (verification d idxs ids cache) (Undisturbed d) (Kept d idxs)
    (fun s => Sound d idxs s ∧ BrokenPromise s) (undisturbed_kept d idxs) (disturbed_broken d idxs)
    (broken_stays d idxs) _ s events (verification_kept d idxs ids cache) ran with
  | inl good => exact ⟨fun _ => good.1, fun _ => kept_keeps_word d idxs s good.2⟩
  | inr bad =>
      obtain ⟨disturbed, _, u, member, cut⟩ := bad
      exact ⟨fun word => absurd (word.promises u member) cut, fun meets => absurd meets disturbed⟩

-- How receive, which takes the data in one step, tells of the same.
structure Recorded (log : Server Cache) (s : Verifying Cache) : Prop where
  cache : log.cache = s.cache
  stored : log.stored = s.promises.map (fun u => (u.id, u.written))

def Upload.consumed (u : Upload) : Upload :=
  { u with left := [], written := if u.accepted then u.written ++ u.left.flatten else u.written }

def Upload.wrote (u : Upload) (bs : ByteString) (rest : List ByteString) : Upload :=
  { u with left := rest, written := if u.accepted then u.written ++ bs else u.written }

theorem element_step (s : Verifying Cache) (u : Upload) (bs : ByteString) (rest : List ByteString)
    (current : s.current = some u) (left : u.left = bs :: rest) :
    (verification d idxs ids cache).step s (.element none) = some { s with current := some (u.wrote bs rest) } := by
  cases accepted : u.accepted with
  | true => simp [verification, Verifying.step, current, left, Verifying.element, accepted, Upload.wrote]
  | false => simp [verification, Verifying.step, current, left, Verifying.element, accepted, Upload.wrote]

theorem wrote_consumed (u : Upload) (bs : ByteString) (rest : List ByteString) (left : u.left = bs :: rest) :
    (u.wrote bs rest).consumed = u.consumed := by
  cases accepted : u.accepted with
  | true => simp [Upload.wrote, Upload.consumed, left, accepted]
  | false => simp [Upload.wrote, Upload.consumed, accepted]

theorem elements_run (s : Verifying Cache) (u : Upload) (pieces : List ByteString) (current : s.current = some u)
    (left : u.left = pieces) :
    (verification d idxs ids cache).run s (List.replicate pieces.length (.element none)) =
      some { s with current := some u.consumed } := by
  induction pieces generalizing s u with
  | nil =>
      have consumed : u.consumed = u := by
        rw [Upload.consumed, left, List.flatten_nil, List.append_nil, ite_self, ← left]
      rw [consumed, ← current]
      rfl
  | cons bs rest ih =>
      rw [List.length_cons, List.replicate_succ,
        run_cons_of_step _ _ _ _ _ (element_step d idxs ids cache s u bs rest current left),
        ih { s with current := some (u.wrote bs rest) } (u.wrote bs rest) rfl rfl, wrote_consumed u bs rest left]

theorem upload_run (s started next : Verifying Cache) (u : Upload) (data : Data)
    (begins : Verifying.step d s (.arrives data true) = some started) (current : started.current = some u)
    (finishes : ({ started with current := some u.consumed } : Verifying Cache).ends u.consumed = some next) :
    (verification d idxs ids cache).run s
      (.arrives data true :: (List.replicate u.left.length (.element none) ++ [.ends])) = some next := by
  have arrived : (verification d idxs ids cache).step s (.arrives data true) = some started := begins
  rw [run_cons_of_step _ _ _ _ _ arrived, run_append, elements_run d idxs ids cache _ u u.left current rfl,
    Option.bind_some, run_cons]
  have ended : (verification d idxs ids cache).step { started with current := some u.consumed } .ends = some next := by
    simp only [verification, Verifying.step]
    rw [if_pos (by simp [Upload.consumed]), finishes]
  rw [ended]
  rfl

-- What receive does in one step, the sink does in many while nothing happens to the file.
theorem receive_refined (s : Verifying Cache) (log after : Server Cache) (state : ServerState) (m : Message)
    (id : String) (tail : List String) (out : List Message) (next : ServerTransition)
    (transition : s.transition = .sequenceIn id tail out next) (idle : s.current = none) (alive : s.failed = false)
    (recorded : Recorded log s) (stepped : serverNext d s.transition m log = some (state, after)) :
    ∃ events final, (verification d idxs ids cache).run s events = some final ∧ Recorded after final ∧
      final.transition = state.next ∧ final.out = s.out ++ state.out := by
  rw [transition] at stepped
  simp only [serverNext, Transition.apply, receive, recorded.cache] at stepped
  have begins : Verifying.step d s (.arrives m.data true) = s.arrives d m.data true id := by
    simp only [Verifying.step, alive, idle, transition]
  rw [Verifying.arrives] at begins
  cases put : d.jarCache.putAsync s.cache id with
  | some grown =>
      rw [put] at begins stepped
      cases stepped
      have finishes : ({ s with
            cache := grown
            accepted := s.accepted ++ [id]
            current := some (Upload.start id true m.data).consumed } : Verifying Cache).ends
          (Upload.start id true m.data).consumed = some
            ⟨grown, (sequenceInAndState [] tail ⟨out, next⟩ : ServerState).next,
              s.out ++ (sequenceInAndState [] tail ⟨out, next⟩ : ServerState).out, none, s.accepted ++ [id],
              s.promises ++ [⟨id, true, m.data, [], m.data.elems.flatten, some m.data.ended⟩],
              s.log ++ [(id, ⟨m.data.elems.flatten.length, decide (m.data.ended = .completed)⟩)], s.failed⟩ := by
        simp [Verifying.ends, Verifying.received, Verifying.proceed, Upload.consumed, Upload.start, transition]
      exact ⟨_, _, upload_run d idxs ids cache s _ _ _ m.data begins rfl finishes,
        ⟨rfl, by simp [recorded.stored]⟩, rfl, rfl⟩
  | none =>
      rw [put] at begins stepped
      cases ended : m.data.ended with
      | failed => simp [concat, ended] at stepped
      | completed =>
          simp only [concat, ended, Option.map_some, Option.some.injEq, Prod.mk.injEq] at stepped
          obtain ⟨rfl, rfl⟩ := stepped
          have finishes : ({ s with current := some (Upload.start id false m.data).consumed } : Verifying Cache).ends
              (Upload.start id false m.data).consumed = some
                { s with
                  current := none
                  transition := (sequenceInAndState [] tail ⟨out, next⟩ : ServerState).next
                  out := s.out ++ (sequenceInAndState [] tail ⟨out, next⟩ : ServerState).out } := by
            simp [Verifying.ends, Verifying.proceed, Upload.consumed, Upload.start, transition, ended]
          exact ⟨_, _, upload_run d idxs ids cache s _ _ _ m.data begins rfl finishes,
            ⟨rfl, recorded.stored⟩, rfl, rfl⟩

end Promises

-- A disk that is full.
theorem unwritten_jar_promised :
    ¬ ∀ s, (verification listDeployment [0] ["a"] []).run (verification listDeployment [0] ["a"] []).initial
        [.arrives (.completed [[7], [8]]) true, .element none, .element (some 0)] = some s →
      KeepsWord listDeployment s := by
  intro always
  have word := always _ rfl
  have whole := word.promises ⟨"a", true, .completed [[7], [8]], [], [7], none⟩ (by decide)
  cases whole.2

-- Another session brings the second jar meanwhile, and its upload goes nowhere.
theorem promises_kept_iff_written :
    KeepsWord listDeployment
      ⟨["b", "a"], .named .start, [responseMessage listDeployment [0, 1], doneMessage listDeployment], none, ["a"],
        [⟨"a", true, .completed [[7], [8]], [], [7, 8], some .completed⟩], [("a", ⟨2, true⟩)], false⟩ := by
  apply (promises_kept_iff listDeployment [0, 1] ["a", "b"] []
    [.arrives (.completed [[7], [8]]) true, .element none, .elsewhere ["b", "a"], .element none, .ends,
      .arrives (.completed [[9]]) false, .element none, .ends] _ rfl).mpr
  refine ⟨.inl rfl, fun _ begins => ⟨rfl, fun _ wrote => ⟨trivial, fun _ grown => ⟨rfl, fun _ wroteAll => ⟨?_, fun _ ended =>
    ⟨.inr ?_, fun _ refused => ⟨rfl, fun _ ignored => ⟨?_, fun _ _ => trivial⟩⟩⟩⟩⟩⟩⟩⟩
  · cases begins
    cases wrote
    cases grown
    cases wroteAll
    rintro u ⟨⟩ _
    rfl
  · cases begins
    cases wrote
    cases grown
    cases wroteAll
    cases ended
    rintro id tail out next ⟨⟩
    rfl
  · cases begins
    cases wrote
    cases grown
    cases wroteAll
    cases ended
    cases refused
    cases ignored
    rintro u ⟨⟩ ⟨⟩

end Toolbox8.JarTreeStandalone
