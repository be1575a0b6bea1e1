import Toolbox8.Base.Refinement
import Toolbox8.MultiplexDelivery
import Toolbox8.StandaloneUpload

set_option autoImplicit false

namespace Toolbox8.AkkaStreamCoding.Terminal

open Base

-- The frames that the encoder has put out for the messages so far.
def framesOf (messages : List (List ByteString)) : List ByteString :=
  messages.flatMap (fun pieces => (encodeData (.completed pieces)).elems)

theorem frames_cons (pieces : List ByteString) (rest : List (List ByteString)) :
    framesOf (pieces :: rest) = ((chunksOf pieces).map (fun bs => nonLastBS ++ bs) ++ [lastBS]) ++ framesOf rest := by
  rw [framesOf, List.flatMap_cons]
  rfl

def decodedMessage (pieces : List ByteString) : Data := .completed (chunksOf pieces ++ [[]])

-- A message that has lost its Last frame stays open until the flow ends.
theorem decoder_unfinished (chunks : List ByteString) (ended : Ended) :
    decoder ⟨chunks.map (fun bs => nonLastBS ++ bs), ended⟩ = ⟨if chunks = [] then [] else [⟨chunks, ended⟩], ended⟩ := by
  have headers : ∀ frame ∈ chunks.map (fun bs => nonLastBS ++ bs), getByteHeader frame = some (frame.headD 0, frame.tail) := by
    intro frame member
    obtain ⟨chunk, _, rfl⟩ := List.mem_map.mp member
    rfl
  have mapped := map_throwing_total getByteHeader (fun frame => (frame.headD 0, frame.tail)) ended _ headers
  rw [decoder, framesOfData, Emission.mapThrowing, mapped, Emission.splitAfter]
  by_cases empty : chunks = []
  · subst empty
    rfl
  · have split := split_after_unmatched splitHeader ended none
      ((chunks.map (fun bs => nonLastBS ++ bs)).map (fun frame => (frame.headD 0, frame.tail))) [] (by
        intro elem member
        simp only [List.mem_map, exists_exists_and_eq_and] at member
        obtain ⟨chunk, _, rfl⟩ := member
        rfl) (by simpa using empty)
    rw [List.append_nil] at split
    rw [split]
    simp [splitAfterFrom, closeSubstream, Emission.map, empty, nonLastBS, Function.comp_def]

-- What the decoder has handed on when the frames stop anywhere: the messages whose Last frame has come, whole and in order,
-- and perhaps a part of the next one, which ends as the flow does.
structure Cut (messages : List (List ByteString)) (frames : List ByteString) (ended : Ended) (k : Nat) (broken : List Data) :
    Prop where
  count : k ≤ messages.length
  decoded : decoder ⟨frames, ended⟩ = ⟨(messages.take k).map decodedMessage ++ broken, ended⟩
  whole : frames = framesOf messages → k = messages.length
  rest : broken = [] ∨ ∃ pieces chunks, messages[k]? = some pieces ∧ chunks <+: chunksOf pieces ∧ broken = [⟨chunks, ended⟩]

theorem decoder_cut (messages : List (List ByteString)) (frames : List ByteString) (ended : Ended)
    (cut : frames <+: framesOf messages) : ∃ k broken, Cut messages frames ended k broken := by
  induction messages generalizing frames with
  | nil =>
      have none : frames = [] := List.prefix_nil.mp cut
      subst none
      exact ⟨0, [], Nat.le_refl 0, rfl, fun _ => rfl, .inl rfl⟩
  | cons pieces rest ih =>
      rw [frames_cons] at cut
      by_cases reached : ((chunksOf pieces).map (fun bs => nonLastBS ++ bs) ++ [lastBS]).length ≤ frames.length
      · have inside := List.prefix_of_prefix_length_le (List.prefix_append _ _) cut reached
        obtain ⟨later, rfl⟩ := inside
        obtain ⟨k, broken, after⟩ := ih later (List.prefix_append_right_inj _ |>.mp cut)
        refine ⟨k + 1, broken, Nat.succ_le_succ after.count, ?_, ?_, after.rest⟩
        · have message := decoder_message pieces later ended
          rw [after.decoded] at message
          simpa [encode_data_completed, decodedMessage] using message
        · intro all
          rw [frames_cons, List.append_cancel_left_eq] at all
          rw [after.whole all]
          rfl
      · have body : frames <+: (chunksOf pieces).map (fun bs => nonLastBS ++ bs) := by
          refine List.prefix_of_prefix_length_le cut ?_ ?_
          · rw [List.append_assoc]
            exact List.prefix_append _ _
          · simp only [List.length_append, List.length_singleton] at reached
            omega
        obtain ⟨chunks, part, rfl⟩ : ∃ chunks, chunks <+: chunksOf pieces ∧
            frames = chunks.map (fun bs => nonLastBS ++ bs) :=
          ⟨(chunksOf pieces).take frames.length, List.take_prefix _ _, by rw [List.map_take]; exact List.prefix_iff_eq_take.mp body⟩
        refine ⟨0, if chunks = [] then [] else [⟨chunks, ended⟩], Nat.zero_le _, ?_, ?_, ?_⟩
        · rw [decoder_unfinished]
          rfl
        · intro all
          rw [all, frames_cons] at reached
          simp only [List.length_append] at reached
          omega
        · by_cases empty : chunks = []
          · exact .inl (if_pos empty)
          · exact .inr ⟨pieces, chunks, rfl, part, if_neg empty⟩

theorem concat_decoded (pieces : List ByteString) : AkkaStreamCoding.concat (decodedMessage pieces) = some pieces.flatten := by
  simp [AkkaStreamCoding.concat, decodedMessage, ByteStrings.fold_append, chunks_flatten]

end Toolbox8.AkkaStreamCoding.Terminal

namespace Toolbox8.AkkaStreamCoding.Multiplex

open Base

variable (n : Nat)

theorem emit_work (few : n ≤ 128) (c next : Connection) (side : Side) (header : Byte) (bs : ByteString) (inv : Invariant n c)
    (stepped : step n c (.emit side header bs) = some next) : work next = work c + 3 := by
  cases step_moved n few c next _ inv stepped with
  | emit side header bs group found =>
      have changed := modify_work _ header (fun g => { g with emitted := g.emitted ++ [bs], pending := g.pending ++ [bs] })
        group found
      simp only [Group.work, List.length_append, List.length_singleton] at changed
      rw [work_sides _ side, work_sides c side]
      simp only [set_peer_here, set_peer_there, set_peer_wire]
      omega

theorem quiet_emits (c : Connection) (side : Side) (header : Byte) (bs : ByteString) (inv : Invariant n c) (quiet : Quiet c)
    (used : header ∈ flowHeaders n) (fits : (header :: bs).length ≤ framingLimit) :
    ∃ next, step n c (.emit side header bs) = some next := by
  obtain ⟨group, found⟩ := all_opened n _ (inv.peers side) (quiet side).1 header used
  exact open_emits n c side header bs group inv found fits

theorem entered_first (c : Connection) (side : Side) (header : Byte) (inv : Invariant n c) :
    entered c side.other header <+: sent c side header := by
  rw [sent_entered n c inv side header]
  exact List.prefix_append _ _

end Toolbox8.AkkaStreamCoding.Multiplex

namespace Toolbox8.JarTreeStandalone

open Base AkkaStreamCoding AkkaStreamCoding.StateMachine AkkaStreamCoding.Multiplex

-- The upload as it runs: the management flows of both ends, the terminal coding around them, and the multiplexed connection.
-- near is the client. out is all that a party has put out, taken counts the Data it has handled.
structure Wired (Cache : Type) where
  client : ClientTransition
  clientLog : Client
  clientOut : List Message
  clientTaken : Nat
  server : ServerTransition
  serverLog : Server Cache
  serverOut : List Message
  serverTaken : Nat
  failed : Bool
  wire : Multiplex.Connection

namespace Wired

def management : Byte := 0

variable {Cache : Type} (d : Deployment Cache)

def out (s : Wired Cache) : Side → List Message
  | .near => s.clientOut
  | .far => s.serverOut

def taken (s : Wired Cache) : Side → Nat
  | .near => s.clientTaken
  | .far => s.serverTaken

-- The frames of everything a party has put out. The encoder is an element for element flatMapConcat.
def frames (messages : List Message) : List ByteString :=
  (Terminal.encoder (.completed (messages.map Message.data))).elems

-- What the decoder of a side has handed on by now; a Data that is not complete yet stands there as failed.
def decoded (s : Wired Cache) (side : Side) : List Data :=
  (Terminal.decoder ⟨entered s.wire side management, .failed⟩).elems

-- The data flow emits what it likes and the multiplexer takes its steps in any order. The connection does not end, and a
-- party is done with a Data when the Last frame has come.
inductive Event where
  | multiplex (event : Multiplex.Event)
  | frame (side : Side)
  | handle (side : Side)

def onManagement : Multiplex.Event → Bool
  | .emit _ header _ => header = management
  | _ => false

def handle (s : Wired Cache) (m : Message) : Side → Wired Cache
  | .near =>
      match clientNext d s.client m s.clientLog with
      | none => { s with failed := true }
      | some (state, log) =>
          { s with client := state.next, clientLog := log, clientOut := s.clientOut ++ state.out, clientTaken := s.clientTaken + 1 }
  | .far =>
      match serverNext d s.server m s.serverLog with
      | none => { s with failed := true }
      | some (state, log) =>
          { s with server := state.next, serverLog := log, serverOut := s.serverOut ++ state.out, serverTaken := s.serverTaken + 1 }

def step (s : Wired Cache) : Event → Option (Wired Cache)
  | .multiplex event =>
      if onManagement event then none else (Multiplex.step 2 s.wire event).map (fun wire => { s with wire := wire })
  | .frame side =>
      match (frames (s.out side))[(sent s.wire side management).length]? with
      | none => none
      | some bs => (Multiplex.step 2 s.wire (.emit side management bs)).map (fun wire => { s with wire := wire })
  | .handle side =>
      match (s.decoded side)[s.taken side]?, (s.out side.other)[s.taken side]? with
      | some data, some m => if s.failed ∨ data.ended = .failed then none else some (s.handle d ⟨m.origin, data⟩ side)
      | _, _ => none

end Wired

section Wire

variable {Cache : Type} (d : Deployment Cache) (files : Files) (cache : Cache)

def wired : Machine (Wired Cache) Wired.Event where
  initial :=
    ⟨(upload d files).next, ⟨[], []⟩, (upload d files).out, 0, .named .start, ⟨cache, [], [], []⟩, [], 0, false,
      (Multiplex.connection 2).initial⟩
  step := Wired.step d

namespace Wired

-- The messages that have not been handled are what is between the two parties.
def between (s : Wired Cache) : Connection Cache :=
  ⟨s.client, s.clientLog, s.clientOut.drop s.serverTaken, s.server, s.serverLog, s.serverOut.drop s.clientTaken, s.failed⟩

structure Invariant (s : Wired Cache) : Prop where
  wire : Multiplex.Invariant 2 s.wire
  framed : ∀ side, sent s.wire side management <+: frames (s.out side)
  completed : ∀ side, ∀ m ∈ s.out side, m.data.ended = .completed
  taken : ∀ side, s.taken side ≤ (s.out side.other).length

def pieces (m : Message) : List ByteString := m.data.elems

theorem frames_of (messages : List Message) (completed : ∀ m ∈ messages, m.data.ended = .completed) :
    frames messages = Terminal.framesOf (messages.map pieces) := by
  have same : messages.map Message.data = (messages.map pieces).map Emission.completed := by
    rw [List.map_map, List.map_inj_left]
    intro m member
    rw [Function.comp_apply, pieces, Emission.completed, ← completed m member]
  rw [frames, same, Terminal.encoder_completed]
  rfl

theorem frames_append (front back : List Message) (completed : ∀ m ∈ front ++ back, m.data.ended = .completed) :
    frames (front ++ back) = frames front ++ frames back := by
  rw [frames_of _ completed, frames_of front (fun m member => completed m (by simp [member])),
    frames_of back (fun m member => completed m (by simp [member])), List.map_append, Terminal.framesOf, List.flatMap_append]
  rfl

theorem decoded_message (s : Wired Cache) (inv : Invariant s) (side : Side) (i : Nat) (data : Data)
    (found : (s.decoded side)[i]? = some data) (ended : data.ended = .completed) :
    ∃ m, (s.out side.other)[i]? = some m ∧ concat data = concat m.data := by
  have cut := (entered_first 2 s.wire side.other management inv.wire).trans (inv.framed side.other)
  rw [other_other, frames_of _ (inv.completed side.other)] at cut
  obtain ⟨k, broken, delivered⟩ := Terminal.decoder_cut _ _ .failed cut
  rw [decoded, delivered.decoded] at found
  by_cases early : i < ((((s.out side.other).map pieces).take k).map Terminal.decodedMessage).length
  · rw [List.getElem?_append_left early, List.getElem?_map, Option.map_eq_some_iff] at found
    obtain ⟨content, inMessages, rfl⟩ := found
    have short : i < k := by
      simp only [List.length_map, List.length_take] at early
      omega
    rw [List.getElem?_take_of_lt short, List.getElem?_map, Option.map_eq_some_iff] at inMessages
    obtain ⟨m, here, rfl⟩ := inMessages
    refine ⟨m, here, ?_⟩
    rw [Terminal.concat_decoded, concat, inv.completed side.other m (List.mem_of_getElem? here)]
    simp [ByteStrings.fold_append, pieces]
  · rw [List.getElem?_append_right (by omega)] at found
    have broke := List.mem_of_getElem? found
    rcases delivered.rest with none | ⟨_, chunks, _, _, one⟩
    · simp [none] at broke
    · rw [one, List.mem_singleton] at broke
      rw [broke] at ended
      simp at ended

theorem in_step_completed (c : Connection Cache) (inStep : InStep d files cache c) :
    ∀ m ∈ c.toServer ++ c.toClient, m.data.ended = .completed := by
  have filesCompleted : ∀ rest : Files, ∀ m ∈ rest.map fileMessage, m.data.ended = .completed := by
    intro rest m member
    obtain ⟨file, _, rfl⟩ := List.mem_map.mp member
    rfl
  have doneCompleted : ∀ rest : Files, ∀ m ∈ doneAfter d rest, m.data.ended = .completed := by
    intro rest m member
    simp only [doneAfter, List.mem_ite_nil_right, List.mem_singleton] at member
    rw [member.2]
    rfl
  intro m member
  cases inStep with
  | requested =>
      simp only [connection, upload, List.append_nil, List.mem_singleton] at member
      rw [member]
      rfl
  | answered log holds idxs indices =>
      rcases List.mem_cons.mp member with rfl | later
      · rfl
      · exact doneCompleted _ m later
  | uploading received rest split log holds =>
      rcases List.mem_append.mp member with file | done
      · exact filesCompleted rest m file
      · exact doneCompleted rest m done
  | finished log holds => simp at member

theorem reachable_in_step (c : Connection Cache) (reached : (connection d files cache).Reachable c) : InStep d files cache c :=
  reachable_keeps (connection d files cache) (InStep d files cache) .requested
    (fun s event next holds stepped => (step_in_step d files cache s event next holds stepped).1) c reached

@[simp] theorem out_wire (s : Wired Cache) (wire : Multiplex.Connection) (side : Side) :
    Wired.out { s with wire := wire } side = s.out side := by
  cases side <;> rfl

@[simp] theorem taken_wire (s : Wired Cache) (wire : Multiplex.Connection) (side : Side) :
    Wired.taken { s with wire := wire } side = s.taken side := by
  cases side <;> rfl

theorem wire_invariant (s : Wired Cache) (wire : Multiplex.Connection) (inv : Invariant s)
    (wireInv : Multiplex.Invariant 2 wire) (framed : ∀ side, sent wire side management <+: frames (s.out side)) :
    Invariant { s with wire := wire } :=
  ⟨wireInv, by simpa using framed, by simpa using inv.completed, by simpa using inv.taken⟩

theorem multiplex_keeps_sent (wire next : Multiplex.Connection) (event : Multiplex.Event) (inv : Multiplex.Invariant 2 wire)
    (elsewhere : onManagement event = false) (stepped : Multiplex.step 2 wire event = some next) (side : Side) :
    sent next side management = sent wire side management := by
  cases event with
  | emit source header bs =>
      have other : ¬ (side = source ∧ management = header) := fun same => by simp [onManagement, same.2] at elsewhere
      rw [emit_sent 2 (by decide) wire next source side header management bs inv stepped, if_neg other, List.append_nil]
  | prepend source => exact internal_keeps_sent 2 (by decide) wire (.prepend source) next inv trivial stepped side management
  | deliver source => exact internal_keeps_sent 2 (by decide) wire (.deliver source) next inv trivial stepped side management
  | enter source header => exact internal_keeps_sent 2 (by decide) wire (.enter source header) next inv trivial stepped side management
  | merge source header => exact internal_keeps_sent 2 (by decide) wire (.merge source header) next inv trivial stepped side management

theorem frame_sent (s : Wired Cache) (side target : Side) (bs : ByteString) (next : Multiplex.Connection)
    (inv : Invariant s) (following : (frames (s.out side))[(sent s.wire side management).length]? = some bs)
    (stepped : Multiplex.step 2 s.wire (.emit side management bs) = some next) :
    sent next target management <+: frames (s.out target) := by
  rw [emit_sent 2 (by decide) s.wire next side target management management bs inv.wire stepped]
  by_cases here : target = side
  · subst here
    have soFar := List.prefix_iff_eq_take.mp (inv.framed target)
    obtain ⟨short, same⟩ := List.getElem?_eq_some_iff.mp following
    rw [if_pos ⟨rfl, rfl⟩, ← same]
    nth_rewrite 1 [soFar]
    rw [List.take_append_getElem short]
    exact List.take_prefix _ _
  · rw [if_neg (fun both => here both.1), List.append_nil]
    exact inv.framed target

theorem drop_next {α : Type} (xs : List α) (i : Nat) (x : α) (here : xs[i]? = some x) :
    xs.drop i = x :: xs.drop (i + 1) := by
  obtain ⟨short, same⟩ := List.getElem?_eq_some_iff.mp here
  rw [List.drop_eq_getElem_cons short, same]

theorem handle_between (s : Wired Cache) (side : Side) (data : Data) (m : Message) (inv : Invariant s)
    (healthy : s.failed = false) (here : (s.out side.other)[s.taken side]? = some m) (same : concat data = concat m.data) :
    ∃ event, JarTreeStandalone.step d s.between event = some (s.handle d ⟨m.origin, data⟩ side).between := by
  have takenNear := inv.taken .near
  have takenFar := inv.taken .far
  simp only [taken, out, Side.other] at takenNear takenFar
  cases side with
  | near =>
      have waiting : s.serverOut.drop s.clientTaken = m :: s.serverOut.drop (s.clientTaken + 1) := drop_next _ _ m here
      refine ⟨.toClient data, ?_⟩
      simp only [JarTreeStandalone.step, between, waiting, healthy, same, handle]
      cases clientNext d s.client ⟨m.origin, data⟩ s.clientLog with
      | none => simp [waiting]
      | some after => simp [List.drop_append_of_le_length takenFar]
  | far =>
      have waiting : s.clientOut.drop s.serverTaken = m :: s.clientOut.drop (s.serverTaken + 1) := drop_next _ _ m here
      refine ⟨.toServer data, ?_⟩
      simp only [JarTreeStandalone.step, between, waiting, healthy, same, handle]
      cases serverNext d s.server ⟨m.origin, data⟩ s.serverLog with
      | none => simp [waiting]
      | some after => simp [List.drop_append_of_le_length takenNear]

theorem step_cases (s next : Wired Cache) (event : Wired.Event) (inv : Invariant s) (stepped : step d s event = some next) :
    (∃ wire, next = { s with wire := wire } ∧ Invariant next) ∨
      ∃ side data m, s.failed = false ∧ (s.out side.other)[s.taken side]? = some m ∧ concat data = concat m.data ∧
        next = s.handle d ⟨m.origin, data⟩ side := by
  cases event with
  | multiplex event =>
      simp only [step] at stepped
      by_cases elsewhere : onManagement event = false
      · simp only [elsewhere, Bool.false_eq_true, if_false, Option.map_eq_some_iff] at stepped
        obtain ⟨wire, moved, rfl⟩ := stepped
        have kept := multiplex_keeps_sent s.wire wire event inv.wire elsewhere moved
        exact .inl ⟨wire, rfl, wire_invariant s wire inv (step_invariant 2 (by decide) s.wire event wire inv.wire moved)
          (fun side => by rw [kept]; exact inv.framed side)⟩
      · simp [elsewhere] at stepped
  | frame side =>
      simp only [step] at stepped
      cases following : (frames (s.out side))[(sent s.wire side management).length]? with
      | none => simp [following] at stepped
      | some bs =>
          rw [following] at stepped
          obtain ⟨wire, moved, rfl⟩ := Option.map_eq_some_iff.mp stepped
          exact .inl ⟨wire, rfl, wire_invariant s wire inv (step_invariant 2 (by decide) s.wire _ wire inv.wire moved)
            (fun target => frame_sent s side target bs wire inv following moved)⟩
  | handle side =>
      simp only [step] at stepped
      cases found : (s.decoded side)[s.taken side]? with
      | none => simp [found] at stepped
      | some data =>
          cases here : (s.out side.other)[s.taken side]? with
          | none => simp [found, here] at stepped
          | some m =>
              simp only [found, here, Option.ite_none_left_eq_some, not_or, Bool.not_eq_true, Option.some.injEq] at stepped
              obtain ⟨⟨healthy, complete⟩, rfl⟩ := stepped
              have ended : data.ended = .completed := by
                cases how : data.ended with
                | completed => rfl
                | failed => exact absurd how complete
              obtain ⟨message, same, content⟩ := decoded_message s inv side _ data found ended
              obtain rfl := Option.some.inj (here.symm.trans same)
              exact .inr ⟨side, data, m, healthy, here, content, rfl⟩

theorem between_out (s : Wired Cache) (reached : (connection d files cache).Reachable s.between) :
    (∀ m ∈ s.clientOut.drop s.serverTaken, m.data.ended = .completed) ∧
      ∀ m ∈ s.serverOut.drop s.clientTaken, m.data.ended = .completed := by
  have completed := in_step_completed d files cache s.between (reachable_in_step d files cache s.between reached)
  exact ⟨fun m member => completed m (List.mem_append_left _ member), fun m member => completed m (List.mem_append_right _ member)⟩

theorem grown_invariant (s next : Wired Cache) (side : Side) (more : List Message) (inv : Invariant s)
    (wire : next.wire = s.wire) (grown : next.out side = s.out side ++ more) (kept : next.out side.other = s.out side.other)
    (counted : next.taken side ≤ (s.out side.other).length) (others : next.taken side.other = s.taken side.other)
    (completed : ∀ m ∈ more, m.data.ended = .completed) : Invariant next := by
  have all : ∀ m ∈ s.out side ++ more, m.data.ended = .completed := by
    intro m member
    rcases List.mem_append.mp member with old | new
    · exact inv.completed side m old
    · exact completed m new
  refine ⟨by rw [wire]; exact inv.wire, ?_, ?_, ?_⟩
  · intro target
    rw [wire]
    rcases side_cases target side with rfl | rfl
    · rw [grown, frames_append _ _ all]
      exact (inv.framed target).trans (List.prefix_append _ _)
    · rw [kept]
      exact inv.framed side.other
  · intro target
    rcases side_cases target side with rfl | rfl
    · rw [grown]
      exact all
    · rw [kept]
      exact inv.completed side.other
  · intro target
    have before := inv.taken side.other
    rcases side_cases target side with rfl | rfl
    · rw [kept]
      exact counted
    · rw [other_other] at before ⊢
      rw [others, grown, List.length_append]
      omega

theorem handle_invariant (s : Wired Cache) (side : Side) (data : Data) (m : Message) (inv : Invariant s)
    (here : (s.out side.other)[s.taken side]? = some m)
    (reached : (connection d files cache).Reachable (s.handle d ⟨m.origin, data⟩ side).between) :
    Invariant (s.handle d ⟨m.origin, data⟩ side) := by
  obtain ⟨fromClient, fromServer⟩ := between_out d files cache _ reached
  have short := (List.getElem?_eq_some_iff.mp here).1
  have takenNear := inv.taken .near
  have takenFar := inv.taken .far
  simp only [taken, out, Side.other] at takenNear takenFar
  cases side with
  | near =>
      cases taken : clientNext d s.client ⟨m.origin, data⟩ s.clientLog with
      | none =>
          simp only [handle, taken]
          exact grown_invariant s _ .near [] inv rfl (List.append_nil _).symm rfl (inv.taken .near) rfl (by simp)
      | some after =>
          simp only [handle, taken] at fromClient fromServer ⊢
          refine grown_invariant s _ .near after.1.out inv rfl rfl rfl short rfl ?_
          intro new member
          exact fromClient new (by rw [List.drop_append_of_le_length takenFar]; exact List.mem_append_right _ member)
  | far =>
      cases taken : serverNext d s.server ⟨m.origin, data⟩ s.serverLog with
      | none =>
          simp only [handle, taken]
          exact grown_invariant s _ .far [] inv rfl (List.append_nil _).symm rfl (inv.taken .far) rfl (by simp)
      | some after =>
          simp only [handle, taken] at fromClient fromServer ⊢
          refine grown_invariant s _ .far after.1.out inv rfl rfl rfl short rfl ?_
          intro new member
          exact fromServer new (by rw [List.drop_append_of_le_length takenNear]; exact List.mem_append_right _ member)

theorem initial_wired : Invariant (wired d files cache).initial := by
  refine ⟨initial_invariant 2 (by decide), ?_, ?_, ?_⟩
  · intro side
    have nothing : sent (Multiplex.connection 2).initial side management = [] := rfl
    rw [show (wired d files cache).initial.wire = (Multiplex.connection 2).initial from rfl, nothing]
    exact List.nil_prefix
  · intro side m member
    cases side with
    | near =>
        rw [show (wired d files cache).initial.out .near = [requestMessage d (files.map Prod.fst)] from rfl,
          List.mem_singleton] at member
        rw [member]
        rfl
    | far => exact absurd member List.not_mem_nil
  · intro side
    cases side <;> exact Nat.zero_le _

theorem wired_refines : Refines (wired d files cache) (connection d files cache) between Invariant where
  initial_inv := initial_wired d files cache
  initial_abs := rfl
  step := by
    intro s event next inv _ stepped
    rcases step_cases d s next event inv stepped with ⟨wire, rfl, _⟩ | ⟨side, data, m, healthy, here, same, rfl⟩
    · exact .inl rfl
    · exact .inr (handle_between d s side data m inv healthy here same)
  keeps := by
    intro s event next inv _ reached stepped
    rcases step_cases d s next event inv stepped with ⟨wire, rfl, kept⟩ | ⟨side, data, m, healthy, here, same, rfl⟩
    · exact kept
    · exact handle_invariant d files cache s side data m inv here reached

-- The steps that only bring on what has been put out.
def isTransport : Wired.Event → Prop
  | .multiplex event => isInternal event
  | .frame _ => True
  | .handle _ => False

def unsent (s : Wired Cache) (side : Side) : Nat := (frames (s.out side)).length - (sent s.wire side management).length

def transportWork (s : Wired Cache) : Nat := Multiplex.work s.wire + 4 * (s.unsent .near + s.unsent .far)

def Arrived (s : Wired Cache) : Prop := Quiet s.wire ∧ ∀ side, sent s.wire side management = frames (s.out side)

theorem internal_elsewhere (event : Multiplex.Event) (internal : isInternal event) : onManagement event = false := by
  cases event with
  | emit side header bs => exact False.elim internal
  | _ => rfl

theorem transport_wire (s next : Wired Cache) (event : Wired.Event) (transport : isTransport event)
    (stepped : step d s event = some next) : ∃ wire, next = { s with wire := wire } := by
  cases event with
  | handle side => exact False.elim transport
  | multiplex event =>
      simp only [step, internal_elsewhere event transport, Bool.false_eq_true, if_false, Option.map_eq_some_iff] at stepped
      obtain ⟨wire, _, rfl⟩ := stepped
      exact ⟨wire, rfl⟩
  | frame side =>
      simp only [step] at stepped
      cases following : (frames (s.out side))[(sent s.wire side management).length]? with
      | none => simp [following] at stepped
      | some bs =>
          rw [following] at stepped
          obtain ⟨wire, _, rfl⟩ := Option.map_eq_some_iff.mp stepped
          exact ⟨wire, rfl⟩

theorem transport_works (s next : Wired Cache) (event : Wired.Event) (inv : Invariant s) (transport : isTransport event)
    (stepped : step d s event = some next) : next.transportWork < s.transportWork := by
  cases event with
  | handle side => exact False.elim transport
  | multiplex event =>
      have elsewhere := internal_elsewhere event transport
      simp only [step, elsewhere, Bool.false_eq_true, if_false, Option.map_eq_some_iff] at stepped
      obtain ⟨wire, moved, rfl⟩ := stepped
      have less := internal_works 2 (by decide) s.wire event wire inv.wire transport moved
      have kept := multiplex_keeps_sent s.wire wire event inv.wire elsewhere moved
      simp only [transportWork, unsent, out_wire, kept]
      omega
  | frame side =>
      simp only [step] at stepped
      cases following : (frames (s.out side))[(sent s.wire side management).length]? with
      | none => simp [following] at stepped
      | some bs =>
          rw [following] at stepped
          obtain ⟨wire, moved, rfl⟩ := Option.map_eq_some_iff.mp stepped
          have short := (List.getElem?_eq_some_iff.mp following).1
          have more := emit_work 2 (by decide) s.wire wire side management bs inv.wire moved
          have sentNear := emit_sent 2 (by decide) s.wire wire side .near management management bs inv.wire moved
          have sentFar := emit_sent 2 (by decide) s.wire wire side .far management management bs inv.wire moved
          simp only [transportWork, unsent, out_wire, sentNear, sentFar, more]
          cases side with
          | near =>
              simp
              omega
          | far =>
              simp
              omega

theorem not_arrived_enabled (s : Wired Cache) (inv : Invariant s) (underway : ¬ s.Arrived) :
    ∃ event next, isTransport event ∧ step d s event = some next := by
  by_cases quiet : Quiet s.wire
  · have behind : ∃ side, sent s.wire side management ≠ frames (s.out side) := by
      by_contra all
      exact underway ⟨quiet, fun side => by_contra (fun differs => all ⟨side, differs⟩)⟩
    obtain ⟨side, differs⟩ := behind
    have short : (sent s.wire side management).length < (frames (s.out side)).length := by
      have bound := (inv.framed side).length_le
      by_contra long
      exact differs ((inv.framed side).eq_of_length (by omega))
    have following := List.getElem?_eq_getElem short
    have fits := multiplexed_frame_fits (.completed ((s.out side).map Message.data)) _ management (List.getElem_mem short)
    obtain ⟨wire, moved⟩ := quiet_emits 2 s.wire side management _ inv.wire quiet (by decide) fits
    exact ⟨.frame side, { s with wire := wire }, trivial, by simp only [step, following, moved, Option.map_some]⟩
  · obtain ⟨event, wire, internal, moved⟩ := not_quiet_enabled 2 s.wire inv.wire quiet
    refine ⟨.multiplex event, { s with wire := wire }, internal, ?_⟩
    simp [step, internal_elsewhere event internal, moved]

theorem arrives (s : Wired Cache) (holds : Invariant s ∧ (connection d files cache).Reachable s.between) :
    ∃ events wire, (wired d files cache).run s events = some { s with wire := wire } ∧
      Wired.Arrived { s with wire := wire } := by
  have refines := wired_refines d files cache
  obtain ⟨events, final, transport, ran, arrived⟩ := internal_run_finishes (wired d files cache)
    (fun s => Invariant s ∧ (connection d files cache).Reachable s.between) isTransport Arrived transportWork
    (fun s event next holds stepped => refines_step refines s next event holds stepped)
    (fun s event next holds transport stepped => transport_works d s next event holds.1 transport stepped)
    (fun s holds underway => not_arrived_enabled d s holds.1 underway) s holds
  have alone : ∃ wire, final = { s with wire := wire } :=
    run_keeps_guarded (wired d files cache) (fun _ event => isTransport event) (fun t => ∃ wire, t = { s with wire := wire })
      (by
        rintro _ event next ⟨wire, rfl⟩ isOne stepped
        obtain ⟨later, rfl⟩ := transport_wire d _ next event isOne stepped
        exact ⟨later, rfl⟩)
      s final events ⟨s.wire, rfl⟩ (meets_all _ isTransport s events transport) ran
  obtain ⟨wire, rfl⟩ := alone
  exact ⟨events, wire, ran, arrived⟩

theorem arrived_decoded (s : Wired Cache) (side : Side) (i : Nat) (m : Message) (inv : Invariant s) (arrived : s.Arrived)
    (here : (s.out side.other)[i]? = some m) :
    ∃ data, (s.decoded side)[i]? = some data ∧ data.ended = .completed := by
  have all := quiet_entered 2 s.wire inv.wire arrived.1 side.other management
  rw [other_other, arrived.2 side.other, frames_of _ (inv.completed side.other)] at all
  have cut : entered s.wire side management <+: Terminal.framesOf ((s.out side.other).map pieces) := by
    exact ⟨[], by rw [List.append_nil, all]⟩
  obtain ⟨k, broken, delivered⟩ := Terminal.decoder_cut _ _ .failed cut
  have count := delivered.whole all
  have short := (List.getElem?_eq_some_iff.mp here).1
  refine ⟨Terminal.decodedMessage (pieces m), ?_, rfl⟩
  rw [decoded, delivered.decoded, count, List.take_length, List.getElem?_append_left (by simpa using short)]
  simp [here]

theorem between_pending (s : Wired Cache) (event : JarTreeStandalone.Event) (next : Connection Cache)
    (stepped : JarTreeStandalone.step d s.between event = some next) :
    s.failed = false ∧ ∃ side m, (s.out side.other)[s.taken side]? = some m := by
  cases event with
  | toServer data =>
      simp only [JarTreeStandalone.step, between] at stepped
      cases pending : s.clientOut.drop s.serverTaken with
      | nil => simp [pending] at stepped
      | cons m rest =>
          rw [pending] at stepped
          cases failing : s.failed with
          | true => simp [failing] at stepped
          | false => exact ⟨rfl, .far, m, by rw [← List.head?_drop]; exact congrArg List.head? pending⟩
  | toClient data =>
      simp only [JarTreeStandalone.step, between] at stepped
      cases pending : s.serverOut.drop s.clientTaken with
      | nil => simp [pending] at stepped
      | cons m rest =>
          rw [pending] at stepped
          cases failing : s.failed with
          | true => simp [failing] at stepped
          | false => exact ⟨rfl, .near, m, by rw [← List.head?_drop]; exact congrArg List.head? pending⟩

theorem step_handle (s : Wired Cache) (side : Side) (data : Data) (m : Message) (ready : (s.decoded side)[s.taken side]? = some data)
    (waiting : (s.out side.other)[s.taken side]? = some m) (healthy : s.failed = false) (complete : data.ended = .completed) :
    step d s (.handle side) = some (s.handle d ⟨m.origin, data⟩ side) := by
  simp [step, ready, waiting, healthy, complete]

theorem wired_finishes (s : Wired Cache) (holds : Invariant s ∧ (connection d files cache).Reachable s.between) :
    ∃ events final, (wired d files cache).run s events = some final ∧ final.client = .named .andThen := by
  induction budget : JarTreeStandalone.work d files cache s.between using Nat.strongRecOn generalizing s with
  | ind left ih =>
      by_cases done : s.client = .named .andThen
      · exact ⟨[], s, rfl, done⟩
      · obtain ⟨first, wire, ran, arrived⟩ := arrives d files cache s holds
        have refines := wired_refines d files cache
        have here := run_keeps (wired d files cache) (fun s => Invariant s ∧ (connection d files cache).Reachable s.between)
          (fun s event next holds stepped => refines_step refines s next event holds stepped) s _ first holds ran
        have inStep := reachable_in_step d files cache s.between holds.2
        obtain ⟨event, next, _, stepped⟩ := unfinished_enabled d files cache s.between inStep done
        obtain ⟨healthy, side, m, waiting⟩ := between_pending d { s with wire := wire } event next stepped
        obtain ⟨data, ready, complete⟩ := arrived_decoded { s with wire := wire } side _ m here.1 arrived waiting
        have handled : (wired d files cache).step { s with wire := wire } (.handle side) =
            some (Wired.handle d { s with wire := wire } ⟨m.origin, data⟩ side) :=
          step_handle d { s with wire := wire } side data m ready waiting healthy complete
        have after := refines_step refines _ _ _ here handled
        obtain ⟨message, same, content⟩ := decoded_message { s with wire := wire } here.1 side _ data ready complete
        obtain rfl := Option.some.inj (waiting.symm.trans same)
        obtain ⟨action, acted⟩ := handle_between d { s with wire := wire } side data m here.1 healthy waiting content
        have counted := (step_in_step d files cache _ action _ inStep acted).2
        have bound := handled_bound d files cache _ (reachable_in_step d files cache _ after.2)
        have less : JarTreeStandalone.work d files cache
            (Wired.handle d { s with wire := wire } ⟨m.origin, data⟩ side).between < left := by
          rw [← budget]
          simp only [JarTreeStandalone.work]
          omega
        obtain ⟨later, final, went, ends⟩ := ih _ less _ after rfl
        refine ⟨first ++ .handle side :: later, final, ?_, ends⟩
        rw [run_append, ran, Option.bind_some, run_cons_of_step _ _ _ _ _ handled, went]

end Wired

structure WiredAgreement (s : Wired Cache) : Prop where
  refined : (connection d files cache).Reachable s.between
  agreement : Agreement d files cache s.between
  exact_messages : ∀ (side : Side) (i : Nat) (data : Data), (s.decoded side)[i]? = some data → data.ended = .completed →
    ∃ m : Message, (s.out side.other)[i]? = some m ∧ concat data = concat m.data
  finishes : ∃ events final, (wired d files cache).run s events = some final ∧ final.client = .named .andThen

-- The upload agrees on the wire as it does message by message.
theorem wired_agreement (s : Wired Cache) (reached : (wired d files cache).Reachable s) : WiredAgreement d files cache s := by
  have holds := refines_reachable (Wired.wired_refines d files cache) s reached
  exact ⟨holds.2, in_step_agreement d files cache s.between (Wired.reachable_in_step d files cache s.between holds.2),
    Wired.decoded_message s holds.1, Wired.wired_finishes d files cache s holds⟩

end Wire

-- The server has taken the request and its answer is half way back, between elements of the data flow.
def halfWay : List Wired.Event :=
  [.multiplex (.prepend .far), .multiplex (.prepend .far), .multiplex (.prepend .near), .multiplex (.prepend .near),
   .multiplex (.emit .near 1 [5]), .frame .near, .frame .near, .multiplex (.merge .near 0), .multiplex (.merge .near 1),
   .multiplex (.merge .near 0), .multiplex (.deliver .far), .multiplex (.deliver .far), .multiplex (.deliver .far),
   .multiplex (.enter .far 0), .multiplex (.enter .far 0), .handle .far, .frame .far, .multiplex (.merge .far 0),
   .multiplex (.deliver .near), .multiplex (.enter .near 0), .frame .far]

theorem wired_agreement_example :
    ∃ s, (s.serverTaken = 1 ∧ s.clientTaken = 0 ∧ (s.decoded .near).map Emission.ended = [.failed]) ∧
      WiredAgreement listDeployment [("a", [1]), ("b", [2])] ["a"] s := by
  have ran : ((wired listDeployment [("a", [1]), ("b", [2])] ["a"]).run
      (wired listDeployment [("a", [1]), ("b", [2])] ["a"]).initial halfWay).map
        (fun s => (s.serverTaken, s.clientTaken, (s.decoded .near).map Emission.ended)) =
      some (1, 0, [.failed]) := by decide +kernel
  obtain ⟨s, run, outcome⟩ := Option.map_eq_some_iff.mp ran
  obtain ⟨server, rest⟩ := Prod.mk.inj outcome
  exact ⟨s, ⟨server, Prod.mk.inj rest⟩,
    wired_agreement listDeployment [("a", [1]), ("b", [2])] ["a"] s ⟨halfWay, run⟩⟩

end Toolbox8.JarTreeStandalone
