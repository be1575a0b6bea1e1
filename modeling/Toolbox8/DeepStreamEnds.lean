import Toolbox8.DeepStream

set_option autoImplicit false

namespace Toolbox8.DeepStream

open Base

inductive Header where
  | nonLast
  | last
  | error
deriving DecidableEq, Repr

def Header.byte : Header → Byte
  | .nonLast => DeepStream.nonLast
  | .last => DeepStream.last
  | .error => DeepStream.error

structure Frame where
  header : Header
  data : ByteString
deriving DecidableEq, Repr

def Frame.bytes (f : Frame) : ByteString := f.header.byte :: f.data

-- The Last frames that the decoder gets to see, which is done with the first Error frame.
def lastFrames : List Frame → Nat
  | [] => 0
  | f :: rest =>
      match f.header with
      | .nonLast => lastFrames rest
      | .last => lastFrames rest + 1
      | .error => 0

-- The i-th stream ends with the i-th Last frame, and with an error when there is none.
def AllTerminated (frames : List Frame) (ended : Ended) : Prop :=
  ∀ i stream, (decoder ⟨frames.map Frame.bytes, ended⟩).streams[i]? = some stream →
    stream.ended = some (if i < lastFrames frames then .completed else .failed)

theorem receive_error (fstate : FState) (subjects : List Subject) (data : ByteString) :
    receive fstate subjects (error :: data) = .error (onError fstate.observer subjects) := rfl

theorem on_error_open (done : List Subject) (current : List ByteString) :
    onError done.length (done ++ [⟨current, none⟩]) = done ++ [⟨current, some .failed⟩] := by
  simp [onError, finish, modify_middle]

-- What a scan leaves: the streams that have got their Last frame, and the newest one.
structure Left (done : List Subject) (frames : List Frame) (scanned : Scanned) : Prop where
  outs : scanned.outs = List.range' (done.length + 1) (lastFrames frames)
  subjects : ∃ completed newest, scanned.subjects = done ++ completed ++ [newest] ∧ completed.length = lastFrames frames ∧
    (∀ s ∈ completed, s.ended = some .completed) ∧
    newest.ended = if ∃ f ∈ frames, f.header = .error then some .failed else none

-- The induction is on the frames: the newest subject is the one that is open.
theorem scan_left (frames : List Frame) (fstate : FState) (done : List Subject) (current : List ByteString)
    (newest : fstate.observer = done.length) :
    Left done frames (flatScan fstate (done ++ [⟨current, none⟩]) (frames.map Frame.bytes)) := by
  induction frames generalizing fstate done current with
  | nil => exact ⟨rfl, [], ⟨current, none⟩, by simp [flatScan], rfl, by simp, by simp⟩
  | cons f rest ih =>
      obtain ⟨header, data⟩ := f
      cases header with
      | nonLast =>
          have later := ih fstate.empty done (current ++ [data]) (by rw [empty_observer, newest])
          have moved : flatScan fstate (done ++ [⟨current, none⟩]) ((Frame.mk .nonLast data :: rest).map Frame.bytes) =
              let scanned := flatScan fstate.empty (done ++ [⟨current ++ [data], none⟩]) (rest.map Frame.bytes)
              { scanned with emitted := fstate.empty :: scanned.emitted } := by
            simp [flatScan, Frame.bytes, Header.byte, receive_non_last, newest, on_next_open]
          rw [moved]
          obtain ⟨outs, completed, last, subjects, count, all, ended⟩ := later
          refine ⟨?_, completed, last, subjects, count, all, by simpa using ended⟩
          simpa [Scanned.outs, empty_out, lastFrames] using outs
      | last =>
          have later := ih ⟨done.length + 1, some (done.length + 1)⟩ (done ++ [⟨current ++ [data], some .completed⟩]) []
            (by simp)
          have moved : flatScan fstate (done ++ [⟨current, none⟩]) ((Frame.mk .last data :: rest).map Frame.bytes) =
              let scanned := flatScan ⟨done.length + 1, some (done.length + 1)⟩
                (done ++ [⟨current ++ [data], some .completed⟩] ++ [⟨[], none⟩]) (rest.map Frame.bytes)
              { scanned with emitted := ⟨done.length + 1, some (done.length + 1)⟩ :: scanned.emitted } := by
            simp [flatScan, Frame.bytes, Header.byte, receive_last, newest, on_next_open, on_complete_open, newFState]
          rw [moved]
          obtain ⟨outs, completed, last, subjects, count, all, ended⟩ := later
          refine ⟨?_, ⟨current ++ [data], some .completed⟩ :: completed, last, ?_, ?_, ?_, by simpa using ended⟩
          · simpa [Scanned.outs, lastFrames, List.range'_succ] using outs
          · simpa using subjects
          · simp [lastFrames, count]
          · simpa using all
      | error =>
          refine ⟨?_, [], ⟨current, some .failed⟩, ?_, rfl, by simp, by simp⟩
          · simp [flatScan, Frame.bytes, Header.byte, receive_error, Scanned.outs, lastFrames]
          · simp [flatScan, Frame.bytes, Header.byte, receive_error, newest, on_error_open]

-- The frames that the scan gets: a failure of upstream comes as an Error frame.
def handled (frames : List Frame) : Ended → List Frame
  | .completed => frames
  | .failed => frames ++ [⟨.error, []⟩]

theorem on_error_handled (frames : List Frame) (ended : Ended) :
    onErrorHandle ⟨frames.map Frame.bytes, ended⟩ = (handled frames ended).map Frame.bytes := by
  cases ended with
  | completed => rfl
  | failed => simp [onErrorHandle, handled, Frame.bytes, Header.byte]

theorem handled_last_frames (frames : List Frame) (ended : Ended) : lastFrames (handled frames ended) = lastFrames frames := by
  cases ended with
  | completed => rfl
  | failed =>
      rw [handled]
      induction frames with
      | nil => rfl
      | cons f rest ih =>
          rw [List.cons_append, lastFrames, lastFrames, ih]

theorem handled_error (frames : List Frame) (ended : Ended) :
    (∃ f ∈ handled frames ended, f.header = .error) ↔ ended = .failed ∨ ∃ f ∈ frames, f.header = .error := by
  cases ended with
  | completed => simp [handled]
  | failed => simp [handled, or_and_right, exists_or]

theorem decoder_streams (frames : List Frame) (ended : Ended) :
    ∃ completed newest, (decoder ⟨frames.map Frame.bytes, ended⟩).streams = completed ++ [newest] ∧
      completed.length = lastFrames frames ∧ (∀ s ∈ completed, s.ended = some .completed) ∧
      newest.ended = if ended = .failed ∨ ∃ f ∈ frames, f.header = .error then some .failed else none := by
  obtain ⟨outs, completed, newest, subjects, count, all, last⟩ := scan_left (handled frames ended) ⟨0, none⟩ [] [] rfl
  rw [handled_last_frames] at count outs
  simp only [handled_error] at last
  refine ⟨completed, newest, ?_, count, all, last⟩
  have streams : (decoder ⟨frames.map Frame.bytes, ended⟩).streams =
      let scanned := flatScan ⟨0, none⟩ [⟨[], none⟩] ((handled frames ended).map Frame.bytes)
      (0 :: scanned.outs).filterMap (fun out => scanned.subjects[out]?) := by
    rw [← on_error_handled]
    rfl
  have numbers : (0 :: List.range' 1 (lastFrames frames)) = List.range (completed ++ [newest]).length := by
    simp [List.range_eq_range', List.range'_succ, count]
  rw [List.nil_append] at outs subjects
  rw [streams]
  simp only [outs, subjects, List.nil_append, List.length_nil, Nat.zero_add, numbers, range_get]

theorem all_terminated_iff (frames : List Frame) (ended : Ended) :
    AllTerminated frames ended ↔ ended = .failed ∨ ∃ f ∈ frames, f.header = .error := by
  obtain ⟨completed, newest, streams, count, all, last⟩ := decoder_streams frames ended
  rw [AllTerminated, streams]
  constructor
  · intro terminated
    have here := terminated completed.length newest (by simp)
    rw [if_neg (by omega), last] at here
    by_contra hangs
    rw [if_neg hangs] at here
    cases here
  · intro fails i stream found
    rw [if_pos fails] at last
    by_cases inside : i < completed.length
    · rw [List.getElem?_append_left inside] at found
      rw [if_pos (by omega)]
      exact all stream (List.mem_of_getElem? found)
    · rw [List.getElem?_append_right (by omega), List.getElem?_singleton] at found
      obtain ⟨_, same⟩ := Option.ite_none_right_eq_some.mp found
      rw [← Option.some.inj same, if_neg (by omega), last]

-- Upstream completes in the middle of a message, whose stream stays open.
theorem cut_message_hangs :
    (decoder ⟨[Frame.bytes ⟨.nonLast, [7]⟩], .completed⟩).streams = [⟨[[7]], none⟩] ∧
      ¬ AllTerminated [⟨.nonLast, [7]⟩] .completed := by
  refine ⟨rfl, ?_⟩
  intro terminated
  have ended := terminated 0 ⟨[[7]], none⟩ rfl
  cases ended

end Toolbox8.DeepStream
