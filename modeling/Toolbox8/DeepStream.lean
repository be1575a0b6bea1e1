import Toolbox8.Base.Sequences
import Toolbox8.Base.Emissions
import Toolbox8.ByteStrings

set_option autoImplicit false

namespace Toolbox8.DeepStream

open Base

def maxChunkSize : Nat := 1024 * 16
def nonLast : Byte := 0
def last : Byte := 1
def error : Byte := 2

-- The iterator of encode marks a chunk as Last when there is none behind it.
def markLast : List ByteString → List ByteString
  | [] => []
  | [c] => [last :: c]
  | c :: rest => (nonLast :: c) :: markLast rest

def encode (bs : ByteString) : Emission ByteString := .completed (markLast (grouped maxChunkSize bs))

def encodeObservable (bso : Emission ByteString) : Emission ByteString :=
  (bso.mapConcat (fun bs => (grouped maxChunkSize bs).map (fun c => nonLast :: c))).concat (.completed [[last]])

-- A PublishToOneSubject behind its CacheUntilConnectSubscriber: what its observer was
-- given is what its one subscriber gets. It is open while ended is none.
structure Subject where
  elems : List ByteString
  ended : Option Ended
deriving DecidableEq, Repr

-- Subjects are numbered in the order newFState makes them.
structure FState where
  observer : Nat
  out : Option Nat
deriving DecidableEq, Repr

def FState.empty (f : FState) : FState :=
  match f.out with
  | some _ => { f with out := none }
  | none => f

def newFState (subjects : List Subject) : FState × List Subject :=
  (⟨subjects.length, some subjects.length⟩, subjects ++ [⟨[], none⟩])

def onNext (observer : Nat) (data : ByteString) (subjects : List Subject) : List Subject :=
  subjects.modify observer (fun subject => { subject with elems := subject.elems ++ [data] })

def finish (observer : Nat) (ended : Ended) (subjects : List Subject) : List Subject :=
  subjects.modify observer (fun subject => { subject with ended := some ended })

def onComplete (observer : Nat) (subjects : List Subject) : List Subject := finish observer .completed subjects

def onError (observer : Nat) (subjects : List Subject) : List Subject := finish observer .failed subjects

-- The operator of flatScan on one frame. An error carries the subjects it leaves behind.
def receive (fstate : FState) (subjects : List Subject) (elem : ByteString) :
    Except (List Subject) (FState × List Subject) :=
  match ByteStrings.getByteHeader elem with
  | none => .error subjects
  | some (head, data) =>
      if head = last then .ok (newFState (onComplete fstate.observer (onNext fstate.observer data subjects)))
      else if head = nonLast then .ok (fstate.empty, onNext fstate.observer data subjects)
      else if head = error then .error (onError fstate.observer subjects)
      else .error subjects

structure Scanned where
  emitted : List FState
  subjects : List Subject
  ended : Ended
deriving DecidableEq, Repr

def flatScan (fstate : FState) (subjects : List Subject) : List ByteString → Scanned
  | [] => ⟨[], subjects, .completed⟩
  | elem :: rest =>
      match receive fstate subjects elem with
      | .error left => ⟨[], left, .failed⟩
      | .ok (next, left) =>
          let later := flatScan next left rest
          { later with emitted := next :: later.emitted }

-- onErrorHandle puts an Error frame in the place of the error.
def onErrorHandle (o : Emission ByteString) : List ByteString :=
  match o.ended with
  | .completed => o.elems
  | .failed => o.elems ++ [[error]]

structure Decoded where
  streams : List Subject
  ended : Ended
deriving DecidableEq, Repr

def decoder (o : Emission ByteString) : Decoded :=
  let (start, subjects) := newFState []
  let scanned := flatScan start.empty subjects (onErrorHandle o)
  ⟨((start :: scanned.emitted).filterMap FState.out).filterMap (fun out => scanned.subjects[out]?), scanned.ended⟩

-- What strict has emitted for good: it waits (none) at a stream that stays open.
structure Strict where
  elems : List ByteString
  ended : Option Ended
deriving DecidableEq, Repr

def strictFrom (ended : Ended) : List Subject → Strict
  | [] => ⟨[], some ended⟩
  | bso :: rest =>
      match bso.ended with
      | none => ⟨[], none⟩
      | some .failed => ⟨[], some .failed⟩
      | some .completed =>
          let later := strictFrom ended rest
          { later with elems := bso.elems.foldl (fun buffer bs => buffer ++ bs) [] :: later.elems }

def strict (decoded : Decoded) : Strict := strictFrom decoded.ended decoded.streams

inductive Message where
  | whole (bs : ByteString)
  | pieces (bso : List ByteString)
deriving DecidableEq, Repr

def Message.content : Message → ByteString
  | .whole bs => bs
  | .pieces bso => bso.flatten

def Message.encoded : Message → Emission ByteString
  | .whole bs => encode bs
  | .pieces bso => encodeObservable (.completed bso)

def encodeAll (messages : List Message) : Emission ByteString :=
  (Emission.completed messages).flatMapConcat Message.encoded

-- The frames of one message that arrive before its Last frame, and the data of that frame.
structure Framed where
  chunks : List ByteString
  data : ByteString

def Framed.frames (m : Framed) : List ByteString := m.chunks.map (fun c => nonLast :: c) ++ [last :: m.data]

def Framed.content (m : Framed) : ByteString := m.chunks.flatten ++ m.data

def Framed.subject (m : Framed) : Subject := ⟨m.chunks ++ [m.data], some .completed⟩

def Message.framed : Message → List Framed
  | .whole bs =>
      let chunks := grouped maxChunkSize bs
      (chunks.getLast?.map (fun data => Framed.mk chunks.dropLast data)).toList
  | .pieces bso => [⟨bso.flatMap (grouped maxChunkSize), []⟩]

theorem max_chunk_size_positive : 0 < maxChunkSize := by decide

theorem mark_last_append (chunks : List ByteString) (data : ByteString) :
    markLast (chunks ++ [data]) = chunks.map (fun c => nonLast :: c) ++ [last :: data] := by
  induction chunks with
  | nil => rfl
  | cons c rest ih =>
      obtain ⟨next, more, split⟩ : ∃ next more, rest ++ [data] = next :: more :=
        List.exists_cons_of_ne_nil (by simp)
      rw [List.cons_append, split, markLast, ← split, ih]
      · rfl
      · simp

theorem message_frames (m : Message) : m.encoded = .completed (m.framed.flatMap Framed.frames) := by
  cases m with
  | whole bs =>
      cases split : (grouped maxChunkSize bs).getLast? with
      | none =>
          have empty := List.getLast?_eq_none_iff.mp split
          simp [Message.encoded, Message.framed, encode, empty, markLast]
      | some data =>
          have whole := List.dropLast_append_getLast? data split
          have marked := mark_last_append (grouped maxChunkSize bs).dropLast data
          rw [whole] at marked
          simp [Message.encoded, Message.framed, encode, split, marked, Framed.frames]
  | pieces bso =>
      simp [Message.encoded, Message.framed, encodeObservable, Emission.mapConcat, Emission.concat, Emission.completed,
        Framed.frames, List.map_flatMap]

theorem message_contents (m : Message) : m.framed.map Framed.content = if m = .whole [] then [] else [m.content] := by
  cases m with
  | whole bs =>
      have flat := grouped_flatten maxChunkSize bs max_chunk_size_positive
      cases split : (grouped maxChunkSize bs).getLast? with
      | none =>
          have empty := (grouped_eq_nil maxChunkSize bs max_chunk_size_positive).mp (List.getLast?_eq_none_iff.mp split)
          simp [Message.framed, empty]
      | some data =>
          have whole := List.dropLast_append_getLast? data split
          have nonempty : bs ≠ [] := by
            intro empty
            simp [empty] at split
          rw [← whole, List.flatten_append] at flat
          simpa [Message.framed, split, Framed.content, nonempty, Message.content] using flat
  | pieces bso =>
      have flat := grouped_pieces_flatten maxChunkSize bso max_chunk_size_positive
      simpa [Message.framed, Framed.content, Message.content] using flat

theorem encode_all_frames (messages : List Message) :
    encodeAll messages = .completed ((messages.flatMap Message.framed).flatMap Framed.frames) := by
  have whole := concat_completed Message.encoded .completed messages (fun m _ => by rw [message_frames, completed_ended])
  have frames : (fun m : Message => m.encoded.elems) = fun m => m.framed.flatMap Framed.frames := by
    funext m
    rw [message_frames, completed_elems]
  rw [frames, ← List.flatMap_assoc] at whole
  exact whole

theorem receive_non_last (fstate : FState) (subjects : List Subject) (c : ByteString) :
    receive fstate subjects (nonLast :: c) = .ok (fstate.empty, onNext fstate.observer c subjects) := rfl

theorem receive_last (fstate : FState) (subjects : List Subject) (data : ByteString) :
    receive fstate subjects (last :: data) =
      .ok (newFState (onComplete fstate.observer (onNext fstate.observer data subjects))) := rfl

theorem empty_observer (fstate : FState) : fstate.empty.observer = fstate.observer := by
  cases fstate with
  | mk observer out => cases out <;> rfl

theorem empty_out (fstate : FState) : fstate.empty.out = none := by
  cases fstate with
  | mk observer out => cases out <;> rfl

theorem on_next_open (done : List Subject) (current : List ByteString) (data : ByteString) :
    onNext done.length data (done ++ [⟨current, none⟩]) = done ++ [⟨current ++ [data], none⟩] := by
  simp [onNext, modify_middle]

theorem on_complete_open (done : List Subject) (current : List ByteString) :
    onComplete done.length (done ++ [⟨current, none⟩]) = done ++ [⟨current, some .completed⟩] := by
  simp [onComplete, finish, modify_middle]

def Scanned.outs (scanned : Scanned) : List Nat := scanned.emitted.filterMap FState.out

-- Two scans that hand the same subjects on, and leave them and the stream the same.
def SameScan (a b : Scanned) : Prop := a.outs = b.outs ∧ a.subjects = b.subjects ∧ a.ended = b.ended

-- Only the newest subject is open: the chunks of a message go there, and nothing is emitted for them.
theorem scan_chunks (fstate : FState) (done : List Subject) (current chunks rest : List ByteString) (data : ByteString)
    (newest : fstate.observer = done.length) :
    SameScan (flatScan fstate (done ++ [⟨current, none⟩]) (chunks.map (fun c => nonLast :: c) ++ (last :: data) :: rest))
      (flatScan fstate (done ++ [⟨current ++ chunks, none⟩]) ((last :: data) :: rest)) := by
  induction chunks generalizing fstate current with
  | nil => simp [SameScan]
  | cons c more ih =>
      have later := ih fstate.empty (current ++ [c]) (by rw [empty_observer, newest])
      have moved : flatScan fstate.empty (done ++ [⟨current ++ [c] ++ more, none⟩]) ((last :: data) :: rest) =
          flatScan fstate (done ++ [⟨current ++ c :: more, none⟩]) ((last :: data) :: rest) := by
        simp [flatScan, receive_last, empty_observer]
      rw [moved] at later
      simpa [SameScan, flatScan, receive_non_last, newest, on_next_open, Scanned.outs, empty_out] using later

theorem scan_framed (fstate : FState) (done : List Subject) (m : Framed) (rest : List ByteString)
    (newest : fstate.observer = done.length) :
    let later := flatScan ⟨done.length + 1, some (done.length + 1)⟩ (done ++ [m.subject] ++ [⟨[], none⟩]) rest
    SameScan (flatScan fstate (done ++ [⟨[], none⟩]) (m.frames ++ rest))
      { later with emitted := ⟨done.length + 1, some (done.length + 1)⟩ :: later.emitted } := by
  have chunks := scan_chunks fstate done [] m.chunks rest m.data newest
  simpa [Framed.frames, SameScan, flatScan, receive_last, newest, on_next_open, on_complete_open, newFState,
    Framed.subject] using chunks

-- The induction is over the messages; done holds the subjects of the ones before.
theorem scan_messages (fstate : FState) (done : List Subject) (messages : List Framed)
    (newest : fstate.observer = done.length) :
    SameScan (flatScan fstate (done ++ [⟨[], none⟩]) (messages.flatMap Framed.frames))
      ⟨(List.range' (done.length + 1) messages.length).map (fun out => ⟨out, some out⟩),
        done ++ messages.map Framed.subject ++ [⟨[], none⟩], .completed⟩ := by
  induction messages generalizing fstate done with
  | nil => simp [flatScan, SameScan]
  | cons m rest ih =>
      obtain ⟨outs, subjects, ended⟩ := scan_framed fstate done m (rest.flatMap Framed.frames) newest
      obtain ⟨restOuts, restSubjects, restEnded⟩ :=
        ih ⟨done.length + 1, some (done.length + 1)⟩ (done ++ [m.subject]) (by simp)
      refine ⟨?_, ?_, ?_⟩
      · rw [List.flatMap_cons, outs]
        change (done.length + 1) :: Scanned.outs (flatScan _ _ _) = _
        rw [restOuts]
        simp [Scanned.outs, List.range'_succ, List.filterMap_map]
      · rw [List.flatMap_cons, subjects, restSubjects]
        simp
      · rw [List.flatMap_cons, ended, restEnded]

theorem decoder_scanned (frames : List ByteString) :
    decoder (.completed frames) =
      let scanned := flatScan ⟨0, none⟩ [⟨[], none⟩] frames
      ⟨(0 :: scanned.outs).filterMap (fun out => scanned.subjects[out]?), scanned.ended⟩ := rfl

theorem decoder_framed (messages : List Framed) :
    decoder (.completed (messages.flatMap Framed.frames)) =
      ⟨messages.map Framed.subject ++ [⟨[], none⟩], .completed⟩ := by
  obtain ⟨outs, subjects, ended⟩ := scan_messages ⟨0, none⟩ [] messages rfl
  have numbers : (0 :: List.range' 1 messages.length) =
      List.range (messages.map Framed.subject ++ [Subject.mk [] none]).length := by
    simp [List.range_eq_range', List.range'_succ]
  rw [List.nil_append] at outs subjects ended
  rw [decoder_scanned]
  simp only [outs, subjects, ended, List.nil_append]
  simp only [Scanned.outs, List.filterMap_map, Function.comp_def, List.filterMap_some, List.length_nil, Nat.zero_add,
    numbers, range_get]

theorem strict_framed (messages : List Framed) (opened : Subject) (waiting : opened.ended = none) (ended : Ended) :
    strictFrom ended (messages.map Framed.subject ++ [opened]) = ⟨messages.map Framed.content, none⟩ := by
  induction messages with
  | nil => simp [strictFrom, waiting]
  | cons m rest ih =>
      simp [strictFrom, ih, Framed.subject, Framed.content, ByteStrings.fold_append]

theorem strict_messages (messages : List Message) :
    strict (decoder (encodeAll messages)) =
      ⟨(messages.filter (fun m => m ≠ .whole [])).map Message.content, none⟩ := by
  have contents : (messages.flatMap Message.framed).map Framed.content =
      (messages.filter (fun m => m ≠ .whole [])).map Message.content := by
    induction messages with
    | nil => rfl
    | cons m rest ih =>
        by_cases empty : m = .whole []
        · simpa [message_contents, empty] using ih
        · simpa [message_contents, empty] using ih
  rw [encode_all_frames, decoder_framed, strict, strict_framed _ _ rfl, contents]

theorem deep_stream_round_trip_iff (messages : List Message) :
    (strict (decoder (encodeAll messages))).elems = messages.map Message.content ↔ ∀ m ∈ messages, m ≠ .whole [] := by
  rw [strict_messages]
  constructor
  · intro same
    have lengths := congrArg List.length same
    rw [List.length_map, List.length_map, List.length_filter_eq_length_iff] at lengths
    simpa using lengths
  · intro nonempty
    rw [List.filter_eq_self.mpr (by simpa using nonempty)]

theorem empty_message_lost : (strict (decoder (encodeAll [.whole []]))).elems ≠ [.whole []].map Message.content := by
  decide

end Toolbox8.DeepStream
